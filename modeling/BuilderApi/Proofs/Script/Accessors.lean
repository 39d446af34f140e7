import BuilderApi.Proofs.Table.Plan
import BuilderApi.Script.Module

/-!
# The accessors of a generated module

A line of a module **opens an accessor** when the first thing on it, behind any blanks, is
`prototype.`. The listings that a module is put together from are of two sorts:

* most are *quiet*: none of their lines opens an accessor;
* an accessor is one opening line in front of a quiet listing.

Both sorts are *balanced*: they leave the indentation where they found it. So wherever an accessor
stands in a module, its opening line stands at column zero, and the opening lines of the whole
module are those of the members, in plan order, and that of the serializer behind them
(`BuilderApi.Script.filter_opens_moduleLines`).

Nothing that a table contains can open an accessor, since every line begins with text of its own.
-/

namespace BuilderApi

/-! ### Balanced listings -/

namespace Listing

/-- The level behind a listing that starts at this level. -/
def level (depth : Nat) : Listing → Nat
  | [] => depth
  | .indent :: rest => level (depth + 1) rest
  | .outdent :: rest => level (depth - 1) rest
  | .line _ :: rest => level depth rest
  | .need _ _ :: rest => level depth rest

/-- The depth behind two listings is found by way of the depth between them. -/
theorem level_append (depth : Nat) (a b : Listing) :
    level depth (a ++ b) = level (level depth a) b := by
  induction a generalizing depth with
  | nil => rfl
  | cons step rest ih => cases step <;> exact ih _

/-- Two listings print one after the other, the second at the depth that the first leaves. -/
theorem body_append (depth : Nat) (a b : Listing) :
    body depth (a ++ b) = body depth a ++ body (level depth a) b := by
  induction a generalizing depth with
  | nil => rfl
  | cons step rest ih => cases step <;> simp [body, level, ih]

/-- A listing that leaves every level as it was. -/
def Balanced (listing : Listing) : Prop := ∀ depth, level depth listing = depth

theorem balanced_nil : Balanced [] := fun _ => rfl

/-- Balanced listings stay so one behind the other. -/
theorem Balanced.append {a b : Listing} (ha : Balanced a) (hb : Balanced b) :
    Balanced (a ++ b) := by
  intro depth
  rw [level_append, ha, hb]

theorem Balanced.line {listing : Listing} (text : String) (h : Balanced listing) :
    Balanced (.line text :: listing) := h

theorem Balanced.need {listing : Listing} (source : Option String) (symbols : List String)
    (h : Balanced listing) : Balanced (.need source symbols :: listing) := h

/-- What stands between one step in and one step out is balanced when the inside is. -/
theorem Balanced.inside {inner rest : Listing} (hinner : Balanced inner) (hrest : Balanced rest) :
    Balanced (.indent :: inner ++ .outdent :: rest) := by
  intro depth
  rw [List.cons_append, level, level_append, hinner, level, Nat.add_sub_cancel, hrest]

/-- A block around a balanced listing is balanced. -/
theorem Balanced.block {inner : Listing} (opening closing : String) (h : Balanced inner) :
    Balanced (block opening inner closing) :=
  (h.inside (balanced_nil.line closing)).line opening

/-- What is balanced item by item is balanced. -/
theorem balanced_flatMap {α : Type} {f : α → Listing} {items : List α}
    (h : ∀ item ∈ items, Balanced (f item)) :
    Balanced (items.flatMap f) := by
  induction items with
  | nil => exact balanced_nil
  | cons item rest ih =>
    rw [List.flatMap_cons]
    exact (h item (by simp)).append (ih fun other hother => h other (List.mem_cons_of_mem _ hother))

/-! ### Lines that open accessors -/

/-- Does a line open an accessor? -/
def opens (line : String) : Bool :=
  "prototype.".toList.isPrefixOf (line.toList.dropWhile (· == ' '))

/-- Blanks in front of a line do not matter. -/
theorem opens_indentation (depth : Nat) (line : String) :
    opens (indentation depth ++ line) = opens line := by
  have h : ∀ n, (List.replicate n ' ' ++ line.toList).dropWhile (· == ' ') =
      line.toList.dropWhile (· == ' ') := by
    intro n
    induction n with
    | zero => rfl
    | succ n ih =>
      rw [List.replicate_succ, List.cons_append, List.dropWhile_cons_of_pos (by simp), ih]
  simp only [opens, indentation, String.toList_append, String.toList_ofList, h]

/-- No line of the listing opens an accessor. -/
def Quiet (listing : Listing) : Prop := ∀ text, .line text ∈ listing → opens text = false

theorem quiet_nil : Quiet [] := by simp [Quiet]

@[simp] theorem quiet_append {a b : Listing} : Quiet (a ++ b) ↔ Quiet a ∧ Quiet b := by
  simp [Quiet, or_imp, forall_and]

/-- A line is quiet if it opens no accessor. -/
@[simp] theorem quiet_cons_line {text : String} {listing : Listing} :
    Quiet (.line text :: listing) ↔ opens text = false ∧ Quiet listing := by
  simp [Quiet, or_imp, forall_and]

@[simp] theorem quiet_cons_need {source : Option String} {symbols : List String}
    {listing : Listing} :
    Quiet (.need source symbols :: listing) ↔ Quiet listing := by
  simp [Quiet]

@[simp] theorem quiet_cons_indent {listing : Listing} :
    Quiet (.indent :: listing) ↔ Quiet listing := by
  simp [Quiet]

@[simp] theorem quiet_cons_outdent {listing : Listing} :
    Quiet (.outdent :: listing) ↔ Quiet listing := by
  simp [Quiet]

/-- The lines of a listing that open accessors. -/
def accessorLines (depth : Nat) (listing : Listing) : List String :=
  (body depth listing).filter opens

/-- A quiet listing prints no line that opens an accessor. -/
theorem Quiet.accessorLines {listing : Listing} (h : Quiet listing) (depth : Nat) :
    accessorLines depth listing = [] := by
  unfold Listing.accessorLines
  induction listing generalizing depth with
  | nil => rfl
  | cons step rest ih =>
    have hrest : Quiet rest := fun text htext => h text (List.mem_cons_of_mem _ htext)
    cases step with
    | line text =>
      -- an empty line is printed without its blanks
      have hline : opens (if text = "" then "" else indentation depth ++ text) = false := by
        split
        · rfl
        · rw [opens_indentation, h text (by simp)]
      rw [body, List.filter_cons_of_neg (by simp [hline]), ih hrest]
    | _ => exact ih hrest _

/-- Behind a balanced listing the accessors are those that are opened at the same depth. -/
theorem Balanced.accessorLines_append {a : Listing} (ha : Balanced a) (depth : Nat) (b : Listing) :
    accessorLines depth (a ++ b) = accessorLines depth a ++ accessorLines depth b := by
  simp only [accessorLines]
  rw [body_append, ha, List.filter_append]

end Listing

/-! ### The pieces of a module -/

namespace Script

open Listing

/-- A listing that may stand anywhere and opens no accessor. -/
structure Plain (listing : Listing) : Prop where
  balanced : Balanced listing
  quiet : Quiet listing

namespace Plain

theorem nil : Plain [] := ⟨balanced_nil, quiet_nil⟩

/-- Plain listings stay so one behind the other. -/
theorem append {a b : Listing} (ha : Plain a) (hb : Plain b) : Plain (a ++ b) :=
  ⟨ha.balanced.append hb.balanced, quiet_append.2 ⟨ha.quiet, hb.quiet⟩⟩

/-- A line that begins with text of its own can be seen not to open an accessor. -/
theorem line {listing : Listing} {text : String} (h : Plain listing)
    (htext : opens text = false := by simp [opens, List.isPrefixOf]) :
    Plain (.line text :: listing) :=
  ⟨h.balanced.line text, quiet_cons_line.2 ⟨htext, h.quiet⟩⟩

theorem need {listing : Listing} (source : Option String) (symbols : List String)
    (h : Plain listing) :
    Plain (.need source symbols :: listing) :=
  ⟨h.balanced.need source symbols, quiet_cons_need.2 h.quiet⟩

/-- A block is plain if its opening is, whatever is opened inside at a greater depth. -/
theorem block {opening closing : String} {inner : Listing} (h : Plain inner)
    (hopening : opens opening = false := by simp [opens, List.isPrefixOf])
    (hclosing : opens closing = false := by simp [opens, List.isPrefixOf]) :
    Plain (block opening inner closing) := by
  refine ⟨h.balanced.block opening closing, ?_⟩
  simp [Listing.block, hopening, hclosing, h.quiet, quiet_nil]

/-- A plain listing in front of others changes nothing. -/
theorem accessorLines_append {a : Listing} (ha : Plain a) (depth : Nat) (b : Listing) :
    accessorLines depth (a ++ b) = accessorLines depth b := by
  rw [ha.balanced.accessorLines_append, ha.quiet.accessorLines, List.nil_append]

end Plain

/-- Assignments open no accessor. -/
theorem plain_setLines (object : String) (set : Fields Json) : Plain (setLines object set) := by
  induction set with
  | nil => exact Plain.nil
  | cons field rest ih => exact Plain.line ih

theorem plain_useSet (set : Fields Json) : Plain (useSet set) := by
  unfold useSet
  split
  · exact Plain.nil
  · exact Plain.nil.need _ _

theorem plain_mapLine {target : String} (list item : String) (table : TypeTable)
    (htarget : ∀ rest, opens (target ++ rest) = false := by simp [opens, List.isPrefixOf]) :
    Plain (mapLine target list item table) := by
  refine Plain.need _ _ (Plain.line Plain.nil ?_)
  simp only [String.append_assoc]
  exact htarget _

theorem plain_factory {name : String} {body : Listing} (h : Plain body) :
    Plain (factory name body) :=
  Plain.block h

/-! ### Constructors -/

/-- The module of a proxy has no accessors at all. -/
theorem plain_proxyModule (name : String) (spec : MethodSpec) (proxy : Proxy) :
    Plain (proxyModule name spec proxy) := by
  unfold proxyModule
  refine Plain.need _ _ ?_
  split
  · exact plain_factory (Plain.line Plain.nil)
  · refine Plain.need _ _ (plain_factory (Plain.line ?_))
    exact (plain_setLines _ _).append (Plain.line Plain.nil)

/-- The lines that a table contributes, when there is one. -/
theorem plain_tableLines {target : String} (list item : String) {other : Listing}
    (hother : Plain other) (types : Option TypeTable)
    (htarget : ∀ rest, opens (target ++ rest) = false := by simp [opens, List.isPrefixOf]) :
    Plain (match types with
      | some table => mapLine target list item table
      | none => other) := by
  cases types with
  | none => exact hother
  | some table => exact plain_mapLine list item table htarget

/-- The lines that bind arguments open no accessor. -/
theorem plain_bindingLines (spec : MethodSpec) (position : Nat) (bindings : List ArgBinding) :
    Plain (bindingLines spec position bindings) := by
  induction bindings generalizing position with
  | nil => exact Plain.nil
  | cons binding rest ih =>
    cases binding with
    | merge prop =>
      refine Plain.need _ _ (Plain.append ?_ (Plain.line Plain.nil))
      exact plain_tableLines _ _ Plain.nil _
    | spread prop =>
      refine Plain.need _ _ (Plain.append ?_ (Plain.line Plain.nil))
      exact plain_tableLines _ _ (Plain.line Plain.nil) _
    | withDefault prop value =>
      exact Plain.need _ _ (Plain.line (ih _))
    | hidden field autogen =>
      cases autogen with
      | some base => exact Plain.need _ _ (Plain.line (ih _))
      | none => exact Plain.line (ih _)
    | positional prop =>
      exact Plain.need _ _ (Plain.need _ _ (Plain.line (ih _)))

/-- What a constructor does, in its block. -/
theorem plain_constructorLines (spec : MethodSpec) :
    Plain (Listing.use "init" :: .line "init(this);" :: useSet spec.set ++
      setLines "this" spec.set ++
      argumentLines spec) := by
  have hargs : Plain (argumentLines spec) := by
    unfold argumentLines
    split
    · exact plain_bindingLines _ _ _
    · refine Plain.need _ _ (Plain.append ?_ (Plain.line Plain.nil))
      exact plain_tableLines _ _ Plain.nil _
  refine Plain.need _ _ (Plain.line ?_)
  exact ((plain_useSet _).append (plain_setLines _ _)).append hargs

/-- A constructor opens no accessor. -/
theorem plain_constructor (className : String) (spec : MethodSpec) :
    Plain (constructor className spec) :=
  Plain.append (Plain.block (plain_constructorLines spec)) (Plain.line Plain.nil)

/-! ### Accessors -/

/-- The opening line of an accessor. -/
def opening (name params : String) : String :=
  "prototype." ++ name ++ " = function(" ++ params ++ ") \x7b"

/-- The line that opens an accessor is told apart from all others. -/
theorem opens_opening (name params : String) : opens (opening name params) = true := by
  simp [opens, opening, List.isPrefixOf]

/-- Two texts that end in the same way behind the last place of a character are the same in front of
it. -/
theorem eq_of_append_cons_eq {α : Type} {a b a' b' : List α} {x : α} (hb : x ∉ b) (hb' : x ∉ b')
    (h : a ++ x :: b = a' ++ x :: b') : a = a' ∧ b = b' := by
  rcases List.append_eq_append_iff.1 h with ⟨c, hc, hrest⟩ | ⟨c, hc, hrest⟩
  · cases c with
    | nil => simpa [hc, eq_comm] using hrest
    | cons y c =>
      rw [List.cons_append, List.cons.injEq] at hrest
      exact absurd (by simp [hrest.2]) hb
  · cases c with
    | nil => simpa [hc] using hrest.symm
    | cons y c =>
      rw [List.cons_append, List.cons.injEq] at hrest
      exact absurd (by simp [hrest.2]) hb'

/-- An opening line determines the name and the parameters, whatever characters the name has. -/
theorem opening_inj {name name' params params' : String} (h : '(' ∉ params.toList)
    (h' : '(' ∉ params'.toList) :
    opening name params = opening name' params' ↔ name = name' ∧ params = params' := by
  constructor
  · intro heq
    have hlist := congrArg String.toList heq
    -- the name may contain anything, but the parameters have no bracket: the last one parts them
    have hsplit : ∀ n p : String, (opening n p).toList =
        ("prototype.".toList ++ n.toList ++ " = function".toList) ++ '(' ::
        (p.toList ++ ") \x7b".toList) := by
      intro n p
      simp [opening]
    rw [hsplit, hsplit] at hlist
    obtain ⟨hname, hparams⟩ := eq_of_append_cons_eq (by simpa using h) (by simpa using h') hlist
    exact ⟨String.toList_inj.1 (by simpa using hname), String.toList_inj.1 (by simpa using hparams)⟩
  · rintro ⟨rfl, rfl⟩
    rfl

/-- A listing that may stand anywhere and opens one accessor, by this line. -/
structure Single (line : String) (listing : Listing) : Prop where
  balanced : Balanced listing
  lines : accessorLines 0 listing = [line]

/-- A plain listing in front leaves one accessor. -/
theorem Plain.single {line : String} {a b : Listing} (ha : Plain a) (hb : Single line b) :
    Single line (a ++ b) :=
  ⟨ha.balanced.append hb.balanced, (ha.accessorLines_append 0 b).trans hb.lines⟩

/-- **An accessor is one opening line** in front of its plain body. -/
theorem single_accessor (name params : String) {body : Listing} (h : Plain body) :
    Single (opening name params) (accessor name params body) := by
  have hopens := opens_opening name params
  have hne : opening name params ≠ "" := by
    intro hempty
    simp [hempty, opens] at hopens
  -- behind its first line an accessor is as quiet as its body
  have hquiet : Quiet (.indent :: body ++ [.outdent, .line "\x7d;"] ++ [Listing.blank]) := by
    simp [h.quiet, Listing.blank, opens, List.isPrefixOf, quiet_nil]
  constructor
  · exact (h.balanced.block _ _).append (balanced_nil.line "")
  · have hstep : accessor name params body = .line (opening name params) ::
        (.indent :: body ++ [.outdent, .line "\x7d;"] ++ [Listing.blank]) := rfl
    rw [hstep, accessorLines, Listing.body, if_neg hne]
    simp only [indentation, Nat.mul_zero, List.replicate_zero, String.ofList_nil,
      String.empty_append]
    rw [List.filter_cons_of_pos hopens]
    exact congrArg _ (hquiet.accessorLines 0)

/-- An accessor with a plain body, behind the needs of its lines. -/
inductive IsAccessor (name params : String) : Listing → Prop
  /-- The accessor. -/
  | accessor {body : Listing} (h : Plain body) : IsAccessor name params (accessor name params body)
  /-- A need in front. -/
  | need (source : Option String) (symbols : List String) {listing : Listing}
      (h : IsAccessor name params listing) :
      IsAccessor name params (.need source symbols :: listing)

/-- An accessor's listing opens this accessor and nothing else. -/
theorem IsAccessor.single {name params : String} {listing : Listing}
    (h : IsAccessor name params listing) :
    Single (opening name params) listing := by
  induction h with
  | accessor h => exact single_accessor name params h
  | need source symbols _ ih => exact (Plain.nil.need source symbols).single ih

theorem plain_readOrWrite (prop : String) {write : Listing} (h : Plain write) :
    Plain (readOrWrite prop write) := by
  have helse : Plain (Listing.block "\x7d else \x7b"
      [.line ("return get(this, " ++ quoted prop ++ ");")] "\x7d") :=
    Plain.block (Plain.line Plain.nil)
  constructor
  · exact (h.balanced.inside helse.balanced).line _
  · simp [readOrWrite, h.quiet, helse.quiet, opens, List.isPrefixOf]

/-- The line that makes the copy, and what follows it. -/
theorem plain_copyLine {rest : Listing} (h : Plain rest) :
    Plain (.line "const obj = copy(this);" :: rest) :=
  Plain.line h

/-- The fixed assignments, and the line that returns the copy. -/
theorem plain_returnLines (set : Fields Json) :
    Plain (setLines "obj" set ++ [.line "return obj;"]) :=
  (plain_setLines _ _).append (Plain.line Plain.nil)

/-- The accessor that only copies opens once, without parameters. -/
theorem isAccessor_copyAccessor (name : String) (set : Fields Json) :
    IsAccessor name "" (copyAccessor name set) := by
  have hbody : IsAccessor name "" (accessor name "" (.line "const obj = copy(this);" ::
      (setLines "obj" set ++ [.line "return obj;"]))) :=
      .accessor (plain_copyLine (plain_returnLines set))
  refine .need _ _ ?_
  unfold useSet
  split
  · exact hbody
  · exact .need _ _ hbody

theorem plain_valueLines (spread : Bool) (types : Option TypeTable) :
    Plain (valueLines spread types) := by
  unfold valueLines
  split
  · exact plain_mapLine _ _ _
  · exact Plain.line Plain.nil
  · exact Plain.need _ _ (Plain.line Plain.nil)
  · exact Plain.nil

/-- The parameters of a value accessor. -/
def valueParams (spread : Bool) : String := if spread then "...value" else "value"

/-- The accessor of a value opens once, whether or not it spreads its argument. -/
theorem isAccessor_valueAccessor (name prop : String) (spread : Bool) (types : Option TypeTable)
    (set : Fields Json) :
    IsAccessor name (valueParams spread) (valueAccessor name prop spread types set) := by
  have hset : Plain (setLine "obj" prop "value" :: setLines "obj" set ++ [.line "return obj;"]) :=
    Plain.line (plain_returnLines set)
  have hwrite := plain_copyLine ((plain_valueLines spread types).append hset)
  refine .need _ _ ?_
  cases spread with
  | true => exact .need _ _ (.accessor (plain_readOrWrite prop (by simpa using hwrite)))
  | false => exact .accessor (plain_readOrWrite prop (by simpa using hwrite))

theorem plain_storeLines (prop : String) (flag : Nat) (accretion : Accretion) :
    Plain (storeLines prop flag accretion) := by
  constructor
  · cases accretion <;> exact fun depth => rfl
  · cases accretion <;> simp [storeLines, setLine, opens, List.isPrefixOf, quiet_nil]

/-- The accessor that merges opens once and takes all arguments. -/
theorem isAccessor_mergingAccessor (name prop : String) (ext : Extension) (accretion : Accretion) :
    IsAccessor name "...values" (mergingAccessor name prop ext accretion) := by
  have htypes : Plain (match ext.types with
      | some table => mapLine "values" "values" "v" table
      | none => []) :=
    plain_tableLines _ _ Plain.nil _
  have hwrite := (htypes.append (plain_storeLines prop ext.policy.flag accretion)).append
    (plain_returnLines ext.set)
  rw [← List.append_assoc] at hwrite
  refine .need _ _ (.accessor ?_)
  cases ext.pre with
  | some pre => exact Plain.line hwrite
  | none => exact plain_readOrWrite prop hwrite

/-- The parameters of an extension's accessor. -/
def extensionParams : ExtBinding → String
  | .copy => ""
  | .plain _ => valueParams false
  | .spread _ => valueParams true
  | .merge _ _ => "...values"

/-- The accessor of an extension opens once, with the parameters of its binding. -/
theorem isAccessor_extensionAccessor (name : String) (ext : Extension) :
    IsAccessor name (extensionParams ext.binding) (extensionAccessor name ext) := by
  unfold extensionAccessor
  cases ext.binding with
  | copy => exact isAccessor_copyAccessor name ext.set
  | plain prop => exact isAccessor_valueAccessor name prop false ext.types ext.set
  | spread prop => exact isAccessor_valueAccessor name prop true ext.types ext.set
  | merge accretion prop => exact isAccessor_mergingAccessor name prop ext accretion

theorem plain_sliceLine (args : Option Nat) : Plain (sliceLine args) := by
  cases args with
  | none => exact Plain.nil
  | some n => exact Plain.line Plain.nil

/-- The accessor of a delegation opens once and takes all arguments. -/
theorem isAccessor_delegationAccessor (name : String) (pass : Delegation) :
    IsAccessor name "...values" (delegationAccessor name pass) := by
  have hmember : ∀ handover prop : String, Plain [.line ("let obj = " ++ pass.call ++ "();"),
      .line ("obj = " ++ handover), .line ("return obj." ++ prop ++ "(...values);")] :=
    fun _ _ => Plain.line (Plain.line (Plain.line Plain.nil))
  have hwhole : ∀ handover : String,
      Plain [.line ("const obj = " ++ pass.call ++ "(...values);"),
        .line ("return " ++ handover)] :=
    fun _ => Plain.line (Plain.line Plain.nil)
  have hslice := plain_sliceLine pass.args
  unfold delegationAccessor
  refine .need _ _ ?_
  cases pass.selfMethod with
  | some method =>
    cases pass.prop with
    | some prop => exact .accessor (hslice.append (hmember _ _))
    | none => exact .accessor (hslice.append (hwhole _))
  | none =>
    cases pass.prop with
    | some prop => exact .need _ _ (.accessor (hslice.append (hmember _ _)))
    | none => exact .need _ _ (.accessor (hslice.append (hwhole _)))

/-- The accessor of an invocation opens once and takes all arguments. -/
theorem isAccessor_invocationAccessor (name : String) (call : Invocation) :
    IsAccessor name "...values" (invocationAccessor name call) :=
  .need _ _ (.accessor ((plain_sliceLine call.args).append (Plain.line Plain.nil)))

/-- The parameters of a member's accessor. -/
def memberParams (member : Member) : String :=
  match member.kind with
  | .property _ array => valueParams array
  | .extension ext => extensionParams ext.binding
  | .delegation _ | .invocation _ => "...values"

/-- Parameters have no parenthesis, so an opening line can be split before them. -/
theorem not_mem_memberParams (member : Member) : '(' ∉ (memberParams member).toList := by
  unfold memberParams extensionParams valueParams
  split
  · split <;> simp
  · split <;> simp
  · simp
  · simp

/-- **The listing of a member is its accessor.** -/
theorem isAccessor_memberAccessor (member : Member) :
    IsAccessor member.name (memberParams member) (memberAccessor member) := by
  unfold memberAccessor memberParams
  cases member.kind with
  | property schema array => exact isAccessor_valueAccessor member.name member.name array none []
  | extension ext => exact isAccessor_extensionAccessor member.name ext
  | delegation pass => exact isAccessor_delegationAccessor member.name pass
  | invocation call => exact isAccessor_invocationAccessor member.name call

/-- The parameters of the serializer. -/
def serializerParams (serial : Serialization) : String :=
  if serial.key.isFlagged then "flag" else ""

/-- The serializer is one accessor, called `toJSON`. -/
theorem isAccessor_serializer (serial : Serialization) :
    IsAccessor "toJSON" (serializerParams serial) (serializer serial) :=
  .need _ _ (.accessor (Plain.line Plain.nil))

/-! ### Modules -/

/-- The opening line of the serializer, if the entry declares one. -/
def serializerOpening (spec : MethodSpec) : List String :=
  match spec.serial with
  | some serial => [opening "toJSON" (if serial.key.isFlagged then "flag" else "")]
  | none => []

/-- The accessors of members open in the order of the plan. -/
theorem accessorLines_members (members : List Member) (rest : Listing) :
    accessorLines 0 (members.flatMap memberAccessor ++ rest) =
      members.map (fun member => opening member.name (memberParams member)) ++
        accessorLines 0 rest := by
  induction members with
  | nil => rfl
  | cons member members ih =>
    have hmember := (isAccessor_memberAccessor member).single
    rw [List.flatMap_cons, List.append_assoc, hmember.balanced.accessorLines_append,
      hmember.lines, ih]
    rfl

/-- The serializer opens if there is a serialized form. -/
theorem accessorLines_serializer (spec : MethodSpec) (rest : Listing) :
    accessorLines 0 ((match spec.serial with
      | some serial => serializer serial
      | none => []) ++ rest) = serializerOpening spec ++ accessorLines 0 rest := by
  unfold serializerOpening
  cases spec.serial with
  | none => rfl
  | some serial =>
    have h := (isAccessor_serializer serial).single
    simp only [h.balanced.accessorLines_append, h.lines]
    rfl

/-- **The accessors of a module are those of the plan**, each opened once, at column zero and in
plan order, and behind them the serializer. A proxy opens none. -/
theorem accessorLines_methodListing (shape : Properties) (name : String) (spec : MethodSpec) :
    accessorLines 0 (methodListing shape name spec) =
      (Member.plan spec shape).map (fun member => opening member.name (memberParams member)) ++
        if spec.isProxy then [] else serializerOpening spec := by
  unfold methodListing
  cases hctr : spec.ctr with
  | some proxy =>
    have hproxy : spec.isProxy = true := by simp [MethodSpec.isProxy, hctr]
    simp [(plain_proxyModule name spec proxy).quiet.accessorLines,
      Member.plan_of_isProxy hproxy, hproxy]
  | none =>
    have hproxy : spec.isProxy = false := by simp [MethodSpec.isProxy, hctr]
    have hprototype :
        Plain [Listing.use "proto", .line "// eslint-disable-next-line no-unused-vars",
        .line ("const prototype = proto(" ++ ("_" ++ name) ++ ");"), Listing.blank] :=
      Plain.need _ _ (Plain.line (Plain.line (Plain.line Plain.nil)))
    have hfactory : Plain (factory name [.line ("return new " ++ ("_" ++ name) ++ "(...args);")]) :=
      plain_factory (Plain.line Plain.nil)
    rw [builderModule]
    simp only [List.append_assoc]
    rw [(plain_constructor _ spec).accessorLines_append, hprototype.accessorLines_append,
      accessorLines_members]
    refine congrArg _ ((accessorLines_serializer spec _).trans ?_)
    simp [hfactory.quiet.accessorLines, hproxy]

/-- The lines of a generated module: its imports, an empty line, and what follows. -/
def moduleLines (shape : Properties) (name : String) (spec : MethodSpec) : List String :=
  (ledger helperModule (methodListing shape name spec)).map
    (fun field => importLine field.1 field.2) ++
    "" :: Listing.body 0 (methodListing shape name spec)

/-- The text of a module is its lines. -/
theorem methodModule_eq (shape : Properties) (name : String) (spec : MethodSpec) :
    methodModule shape name spec = "\n".intercalate (moduleLines shape name spec) := rfl

/-- What is said of the lines and the ledger of a module is said of its text: the text consists of
the lines, and these begin with one import line for each source of the ledger. -/
structure LaidOut (shape : Properties) (name : String) (spec : MethodSpec) : Prop where
  /-- The text of the module, line by line. -/
  text : methodModule shape name spec = "\n".intercalate (moduleLines shape name spec)
  /-- The import lines, an empty line, and what follows. -/
  lines : moduleLines shape name spec =
    (ledger helperModule (methodListing shape name spec)).map
      (fun field => importLine field.1 field.2) ++
      "" :: Listing.body 0 (methodListing shape name spec)

theorem laidOut (shape : Properties) (name : String) (spec : MethodSpec) :
    LaidOut shape name spec :=
  ⟨methodModule_eq shape name spec, rfl⟩

/-- The accessors that a whole module opens. -/
theorem filter_opens_moduleLines (shape : Properties) (name : String) (spec : MethodSpec) :
    (moduleLines shape name spec).filter opens =
      (Member.plan spec shape).map (fun member => opening member.name (memberParams member)) ++
        if spec.isProxy then [] else serializerOpening spec := by
  have himports : ((ledger helperModule (methodListing shape name spec)).map
      fun field => importLine field.1 field.2).filter opens = [] := by
    rw [List.filter_eq_nil_iff]
    intro line hline
    obtain ⟨field, -, rfl⟩ := List.mem_map.1 hline
    simp [importLine, opens, List.isPrefixOf]
  rw [moduleLines, List.filter_append, himports, List.nil_append,
    List.filter_cons_of_neg (by simp [opens])]
  exact accessorLines_methodListing shape name spec

/-- A member of the plan is written with these parameters exactly if they are its own. -/
theorem opening_mem_moduleLines_iff {shape : Properties} {spec : MethodSpec} {member : Member}
    (hmember : member ∈ Member.plan spec shape) (name : String) {params : String}
    (hparams : '(' ∉ params.toList) (hserializer : params ≠ "" ∧ params ≠ "flag") :
    opening member.name params ∈ moduleLines shape name spec ↔ memberParams member = params := by
  have hfilter : opening member.name params ∈ moduleLines shape name spec ↔
      opening member.name params ∈ (moduleLines shape name spec).filter opens := by
    simp [opens_opening]
  rw [hfilter, filter_opens_moduleLines, List.mem_append, List.mem_map]
  constructor
  · rintro (⟨other, hother, hopening⟩ | hopening)
    · rw [opening_inj (not_mem_memberParams other) hparams] at hopening
      rw [← Member.eq_of_mem_of_name_eq hother hmember hopening.1]
      exact hopening.2
    · -- the serializer has other parameters, so it is not mistaken for a member of its name
      unfold serializerOpening at hopening
      split at hopening
      · simp at hopening
      · split at hopening
        · rw [List.mem_singleton] at hopening
          split at hopening
          · rw [opening_inj hparams (by simp)] at hopening
            exact absurd hopening.2 hserializer.2
          · rw [opening_inj hparams (by simp)] at hopening
            exact absurd hopening.2 hserializer.1
        · simp at hopening
  · rintro rfl
    exact Or.inl ⟨member, hmember, rfl⟩

end Script

end BuilderApi
