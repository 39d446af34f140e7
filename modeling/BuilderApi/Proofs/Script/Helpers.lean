import BuilderApi.Proofs.Script.Sources

/-!
# The helper functions that a module needs

Every piece of a module records the helper functions that its lines call. Which these are does not
depend on any text of the entry, only on the features it uses: its bindings, the checks of its
dispatch tables, the sorts of its members and the shape of its serialized form
(`BuilderApi.Script.helpers_methodListing`). And whatever the entry, they are among fifteen
functions (`BuilderApi.Script.moduleHelpers_subset`).
-/

namespace BuilderApi

namespace Listing

/-- What a listing needs from its main source, in order. -/
def helpers : Listing → List String
  | [] => []
  | .need none symbols :: rest => symbols ++ helpers rest
  | _ :: rest => helpers rest

@[simp] theorem helpers_nil : helpers [] = [] := rfl

@[simp] theorem helpers_line (text : String) (rest : Listing) :
    helpers (.line text :: rest) = helpers rest := rfl

@[simp] theorem helpers_indent (rest : Listing) : helpers (.indent :: rest) = helpers rest := rfl

@[simp] theorem helpers_outdent (rest : Listing) : helpers (.outdent :: rest) = helpers rest := rfl

@[simp] theorem helpers_blank (rest : Listing) : helpers (blank :: rest) = helpers rest := rfl

@[simp] theorem helpers_use (symbol : String) (rest : Listing) :
    helpers (use symbol :: rest) = symbol :: helpers rest :=
  rfl

@[simp] theorem helpers_useAll (symbols : List String) (rest : Listing) :
    helpers (useAll symbols :: rest) = symbols ++ helpers rest := rfl

@[simp] theorem helpers_useFrom (symbol source : String) (rest : Listing) :
    helpers (useFrom symbol source :: rest) = helpers rest := rfl

@[simp] theorem helpers_append (a b : Listing) : helpers (a ++ b) = helpers a ++ helpers b := by
  induction a using helpers.induct with
  | case1 => rfl
  | case2 symbols rest ih =>
    rw [List.cons_append, helpers, ih, helpers, List.append_assoc]
  | case3 step rest hstep ih =>
    rw [List.cons_append]
    cases step with
    | need source? symbols =>
      cases source? with
      | none => exact absurd rfl (hstep symbols)
      | some source => exact ih
    | _ => exact ih

@[simp] theorem helpers_block (opening : String) (body : Listing) (closing : String) :
    helpers (block opening body closing) = helpers body := by
  simp [block]

/-- The helpers of a listing are the symbols that it needs from no source of their own. -/
theorem mem_helpers_iff {listing : Listing} {symbol : String} :
    symbol ∈ helpers listing ↔ ∃ symbols, .need none symbols ∈ listing ∧ symbol ∈ symbols := by
  induction listing using helpers.induct with
  | case1 => simp
  | case2 symbols rest ih => simp [helpers, ih, or_and_right, exists_or]
  | case3 step rest hstep ih =>
    have hne : ∀ symbols, .need none symbols ≠ step := fun symbols heq => hstep symbols heq.symm
    rw [helpers, ih]
    · simp [hne]
    · exact hstep

end Listing

/-! ### Dispatch tables -/

/-- Members whose values call nothing call nothing. -/
theorem ScriptExpr.memberHelpers_eq_nil {members : List (String × ScriptExpr)}
    (h : ∀ member ∈ members, member.2.helpers = []) : ScriptExpr.memberHelpers members = [] := by
  induction members with
  | nil => rfl
  | cons member rest ih =>
    obtain ⟨hmember, hrest⟩ := List.forall_mem_cons.1 h
    rw [ScriptExpr.memberHelpers, hmember, ih hrest]
    rfl

namespace TypeTable

mutual

/-- The checks of a table at every depth, in the order of its cascade. -/
def checks : List (TypeCheck × TypeRule) → List TypeCheck
  | [] => []
  | (check, rule) :: rest => check :: (ruleChecks rule ++ checks rest)

/-- The checks behind a rule. -/
def ruleChecks : TypeRule → List TypeCheck
  | .key _ _ => []
  | .map cases => checks cases

end

mutual

/-- A cascade calls the checks of its table, and what its subject calls. -/
theorem helpers_cascade :
    ∀ (table : List (TypeCheck × TypeRule)) {subject : ScriptExpr}, subject.helpers = [] →
    (cascade table subject).helpers = (checks table).map TypeCheck.helper
  | [], _, h => h
  | (check, rule) :: rest, subject, h => by
    rw [cascade, ScriptExpr.helpers, h, helpers_branch rule h, helpers_cascade rest h, checks]
    simp

/-- What a rule yields needs the helpers of the checks inside the rule. -/
theorem helpers_branch : ∀ (rule : TypeRule) {subject : ScriptExpr}, subject.helpers = [] →
    (branch rule subject).helpers = (ruleChecks rule).map TypeCheck.helper
  | .key field set, subject, h => by
    have hset : ScriptExpr.memberHelpers (set.map fun (name, value) =>
        (name, ScriptExpr.literal value)) = [] := by
      refine ScriptExpr.memberHelpers_eq_nil fun member hmember => ?_
      obtain ⟨field, -, rfl⟩ := List.mem_map.1 hmember
      rfl
    rw [branch, ScriptExpr.helpers, ScriptExpr.memberHelpers, h, hset]
    rfl
  | .map cases, subject, h => by
    rw [branch, ScriptExpr.helpers, h, helpers_cascade cases rfl, ruleChecks]
    rfl

end

/-- A cascade over a name needs the helpers of the checks in its table, in order. -/
@[simp] theorem helpers_cascade_ident (table : TypeTable) (name : String) :
    (cascade table (.ident name)).helpers = (checks table).map TypeCheck.helper :=
  helpers_cascade table rfl

/-- A cascade over an argument needs the helpers of the checks in its table, in order. -/
@[simp] theorem helpers_cascade_argument (table : TypeTable) (position : Nat) :
    (cascade table (.argument position)).helpers = (checks table).map TypeCheck.helper :=
  helpers_cascade table rfl

end TypeTable

namespace Script

open Listing

/-! ### The helpers of each feature -/

/-- Fixed assignments need `set`. -/
def setHelpers (set : Fields Json) : List String := if set.isEmpty then [] else ["set"]

/-- A dispatch table needs its checks. -/
def tableHelpers : Option TypeTable → List String
  | some table => (TypeTable.checks table).map TypeCheck.helper
  | none => []

/-- What bindings need from this position on. -/
def bindingHelpers (spec : MethodSpec) (position : Nat) : List ArgBinding → List String
  | [] => []
  | .merge _ :: _ => ["get", "set", "merge"] ++ tableHelpers (spec.typeTable position)
  | .spread _ :: _ => ["set", "flat"] ++ tableHelpers (spec.typeTable position)
  | .withDefault _ _ :: rest => "set" :: bindingHelpers spec (position + 1) rest
  | .hidden _ (some _) :: rest => "id" :: bindingHelpers spec (position + 1) rest
  | .hidden _ none :: rest => bindingHelpers spec (position + 1) rest
  | .positional _ :: rest =>
    "set" :: tableHelpers (spec.typeTable position) ++ bindingHelpers spec (position + 1) rest

/-- What the arguments of a constructor need. -/
def argumentHelpers (spec : MethodSpec) : List String :=
  match spec.args with
  | some bindings => bindingHelpers spec 0 bindings
  | none => "assign" :: tableHelpers (spec.typeTable 0)

/-- What a value accessor needs. -/
def valueHelpers (spread : Bool) (types : Option TypeTable) : List String :=
  ["copy", "get", "set"] ++ (if spread then ["flat"] else []) ++ tableHelpers types

/-- What an extension needs. -/
def extensionHelpers (ext : Extension) : List String :=
  match ext.binding with
  | .copy => "copy" :: setHelpers ext.set
  | .plain _ => valueHelpers false ext.types
  | .spread _ => valueHelpers true ext.types
  | .merge _ _ => ["copy", "get", "merge", "set"] ++ tableHelpers ext.types

/-- What a member needs. -/
def memberHelpers (member : Member) : List String :=
  match member.kind with
  | .property _ array => valueHelpers array none
  | .extension ext => extensionHelpers ext
  | .delegation pass => if pass.selfMethod.isNone then ["assign"] else []
  | .invocation _ => []

/-- What the module of an entry needs. -/
def moduleHelpers (shape : Properties) (spec : MethodSpec) : List String :=
  match spec.ctr with
  | some _ => setHelpers spec.set
  | none =>
    ("init" :: setHelpers spec.set ++ argumentHelpers spec) ++ "proto" ::
      (Member.plan spec shape).flatMap memberHelpers ++
      spec.serial.toList.flatMap fun serial => serial.expr.helpers

/-! ### The helpers of each piece -/

@[simp] theorem helpers_useHelpers (expr : ScriptExpr) (rest : Listing) :
    helpers (useHelpers expr :: rest) = expr.helpers ++ helpers rest := rfl

@[simp] theorem helpers_setLine (object prop value : String) (rest : Listing) :
    helpers (setLine object prop value :: rest) = helpers rest := rfl

/-- The lines of assignments need nothing themselves. -/
@[simp] theorem helpers_setLines (object : String) (set : Fields Json) :
    helpers (setLines object set) = [] := by
  induction set with
  | nil => rfl
  | cons field rest ih => exact ih

/-- Assignments need `set` unless there are none. -/
@[simp] theorem helpers_useSet (set : Fields Json) : helpers (useSet set) = setHelpers set := by
  unfold useSet setHelpers
  split <;> rfl

@[simp] theorem helpers_mapLine (target list item : String) (table : TypeTable) :
    helpers (mapLine target list item table) = tableHelpers (some table) := by
  simp [mapLine, tableHelpers]

@[simp] theorem helpers_factory (name : String) (body : Listing) :
    helpers (factory name body) = helpers body :=
  helpers_block _ _ _

@[simp] theorem helpers_accessor (name params : String) (body : Listing) :
    helpers (accessor name params body) = helpers body := by
  simp [accessor]

@[simp] theorem helpers_readOrWrite (prop : String) (write : Listing) :
    helpers (readOrWrite prop write) = helpers write := by
  simp [readOrWrite]

/-- What the bindings of a constructor need. -/
@[simp] theorem helpers_bindingLines (spec : MethodSpec) (position : Nat)
    (bindings : List ArgBinding) :
    helpers (bindingLines spec position bindings) = bindingHelpers spec position bindings := by
  induction bindings generalizing position with
  | nil => rfl
  | cons binding rest ih =>
    cases binding with
    | merge prop =>
      cases htypes :
        spec.typeTable position <;> simp [bindingLines, bindingHelpers, htypes, tableHelpers]
    | spread prop =>
      cases htypes :
        spec.typeTable position <;> simp [bindingLines, bindingHelpers, htypes, tableHelpers]
    | withDefault prop value => simp [bindingLines, bindingHelpers, ih]
    | hidden field autogen => cases autogen <;> simp [bindingLines, bindingHelpers, ih]
    | positional prop =>
      cases htypes : spec.typeTable position <;>
        simp [bindingLines, bindingHelpers, htypes, ih, ScriptExpr.helpers, tableHelpers]

/-- A constructor needs `init`, `set` if there are assignments, and what its arguments need. -/
@[simp] theorem helpers_constructor (className : String) (spec : MethodSpec) :
    helpers (constructor className spec) =
      "init" :: setHelpers spec.set ++ argumentHelpers spec := by
  have hargs : helpers (argumentLines spec) = argumentHelpers spec := by
    unfold argumentLines argumentHelpers
    cases spec.args with
    | some bindings => exact helpers_bindingLines spec 0 bindings
    | none => cases spec.typeTable 0 <;> simp [tableHelpers]
  simp [constructor, hargs]

/-- What the accessor of a value needs: copying, reading, writing, spreading and its checks. -/
theorem helpers_valueAccessor (name prop : String) (spread : Bool) (types : Option TypeTable)
    (set : Fields Json) :
    helpers (valueAccessor name prop spread types set) = valueHelpers spread types := by
  cases spread <;> cases types <;> simp [valueAccessor, valueLines, valueHelpers, tableHelpers]

/-- Merging needs the same four helpers in each of its modes, and its checks. -/
theorem helpers_mergingAccessor (name prop : String) (ext : Extension) (accretion : Accretion) :
    helpers (mergingAccessor name prop ext accretion) =
      ["copy", "get", "merge", "set"] ++ tableHelpers ext.types := by
  have hstore : helpers (storeLines prop ext.policy.flag accretion) = [] := by
    cases accretion <;> rfl
  cases hpre : ext.pre <;> cases htypes :
    ext.types <;> simp [mergingAccessor, hpre, htypes, hstore, tableHelpers]

/-- What the accessor of an extension needs depends on its binding. -/
theorem helpers_extensionAccessor (name : String) (ext : Extension) :
    helpers (extensionAccessor name ext) = extensionHelpers ext := by
  unfold extensionAccessor extensionHelpers
  cases ext.binding with
  | copy => simp [copyAccessor]
  | plain prop => exact helpers_valueAccessor _ _ _ _ _
  | spread prop => exact helpers_valueAccessor _ _ _ _ _
  | merge accretion prop => exact helpers_mergingAccessor _ _ _ _

@[simp] theorem helpers_sliceLine (args : Option Nat) : helpers (sliceLine args) = [] := by
  cases args <;> rfl

/-- What the accessor of a member needs depends on its kind. -/
theorem helpers_memberAccessor (member : Member) :
    helpers (memberAccessor member) = memberHelpers member := by
  unfold memberAccessor memberHelpers
  cases member.kind with
  | property schema array => exact helpers_valueAccessor _ _ _ _ _
  | extension ext => exact helpers_extensionAccessor _ _
  | delegation pass => cases hself : pass.selfMethod <;> cases hprop : pass.prop <;>
      simp [delegationAccessor, hself, hprop]
  | invocation call => simp [invocationAccessor]

variable (shape : Properties) (name : String) (spec : MethodSpec)

/-- **The helpers of a module follow from the features of its entry.** -/
theorem helpers_methodListing :
    helpers (methodListing shape name spec) = moduleHelpers shape spec := by
  unfold methodListing moduleHelpers
  cases spec.ctr with
  | some proxy => cases hset : spec.set.isEmpty <;> simp [proxyModule, setHelpers, hset]
  | none =>
    have hmembers : ∀ members : List Member, helpers (members.flatMap memberAccessor) =
        members.flatMap memberHelpers := by
      intro members
      induction members with
      | nil => rfl
      | cons member rest ih =>
        rw [List.flatMap_cons, helpers_append, ih, helpers_memberAccessor, List.flatMap_cons]
    cases hserial : spec.serial <;> simp [builderModule, hmembers, hserial, serializer]

/-! ### All helpers -/

/-- The helper functions. -/
def helperFunctions : List String :=
  ["assign", "copy", "flat", "get", "id", "init", "merge", "nest", "proto", "set"] ++
    TypeCheck.all.map TypeCheck.helper

/-- Assignments need nothing but helper functions. -/
theorem setHelpers_subset (set : Fields Json) : setHelpers set ⊆ helperFunctions := by
  unfold setHelpers
  split <;> decide

/-- Each check has a helper function. -/
theorem tableHelpers_subset (types : Option TypeTable) : tableHelpers types ⊆ helperFunctions := by
  cases types with
  | none => exact List.nil_subset _
  | some table =>
    refine List.subset_append_of_subset_right _ (List.map_subset _ fun check _ => ?_)
    cases check <;> decide

theorem bindingHelpers_subset (position : Nat) (bindings : List ArgBinding) :
    bindingHelpers spec position bindings ⊆ helperFunctions := by
  induction bindings generalizing position with
  | nil => exact List.nil_subset _
  | cons binding rest ih =>
    have htable := tableHelpers_subset (spec.typeTable position)
    cases binding with
    | merge prop => exact List.append_subset.2 ⟨by decide, htable⟩
    | spread prop => exact List.append_subset.2 ⟨by decide, htable⟩
    | withDefault prop value => exact List.cons_subset.2 ⟨by decide, ih _⟩
    | hidden field autogen =>
      cases autogen with
      | some base => exact List.cons_subset.2 ⟨by decide, ih _⟩
      | none => exact ih _
    | positional prop => exact List.append_subset.2 ⟨List.cons_subset.2 ⟨by decide, htable⟩, ih _⟩

theorem argumentHelpers_subset : argumentHelpers spec ⊆ helperFunctions := by
  unfold argumentHelpers
  split
  · exact bindingHelpers_subset _ _ _
  · exact List.cons_subset.2 ⟨by decide, tableHelpers_subset _⟩

theorem valueHelpers_subset (spread : Bool) (types : Option TypeTable) :
    valueHelpers spread types ⊆ helperFunctions := by
  refine List.append_subset.2 ⟨?_, tableHelpers_subset types⟩
  cases spread <;> decide

/-- Members need nothing but helper functions. -/
theorem memberHelpers_subset (member : Member) : memberHelpers member ⊆ helperFunctions := by
  unfold memberHelpers
  split
  · exact valueHelpers_subset _ _
  · unfold extensionHelpers
    split
    · exact List.cons_subset.2 ⟨by decide, setHelpers_subset _⟩
    · exact valueHelpers_subset _ _
    · exact valueHelpers_subset _ _
    · exact List.append_subset.2 ⟨by decide, tableHelpers_subset _⟩
  · split <;> decide
  · exact List.nil_subset _

/-- The shape of a serialized form needs nothing but helper functions. -/
theorem keyShapeHelpers_subset (shape : KeyShape) : shape.expr.helpers ⊆ helperFunctions := by
  have hproto : ["proto"] ⊆ helperFunctions := by decide
  induction shape with
  | plain => exact hproto
  | wrap key => cases key <;> exact hproto
  | fields members =>
    rw [KeyShape.expr, ScriptExpr.helpers, ScriptExpr.memberHelpers_eq_nil]
    · exact List.nil_subset _
    · intro member hmember
      obtain ⟨⟨name, ref⟩, -, rfl⟩ := List.mem_map.1 hmember
      cases ref <;> rfl
  | flagged unset set hunset hset => exact List.append_subset.2 ⟨hset, hunset⟩

/-- Serialized forms need nothing but helper functions. -/
theorem serialHelpers_subset (serial : Serialization) : serial.expr.helpers ⊆ helperFunctions := by
  unfold Serialization.expr
  split
  · exact keyShapeHelpers_subset _
  · exact List.cons_subset.2 ⟨by decide, keyShapeHelpers_subset _⟩

/-- **A module needs nothing but helper functions** of the helper module. -/
theorem moduleHelpers_subset : moduleHelpers shape spec ⊆ helperFunctions := by
  unfold moduleHelpers
  split
  · exact setHelpers_subset _
  · have hconstructor : "init" :: setHelpers spec.set ++ argumentHelpers spec ⊆ helperFunctions :=
      List.append_subset.2 ⟨List.cons_subset.2 ⟨by decide, setHelpers_subset _⟩,
        argumentHelpers_subset spec⟩
    have hmembers : (Member.plan spec shape).flatMap memberHelpers ⊆ helperFunctions := by
      intro symbol hsymbol
      obtain ⟨member, -, hsymbol⟩ := List.mem_flatMap.1 hsymbol
      exact memberHelpers_subset member hsymbol
    have hserial :
        spec.serial.toList.flatMap (fun serial => serial.expr.helpers) ⊆ helperFunctions := by
      intro symbol hsymbol
      obtain ⟨serial, -, hsymbol⟩ := List.mem_flatMap.1 hsymbol
      exact serialHelpers_subset serial hsymbol
    exact List.append_subset.2
      ⟨List.append_subset.2 ⟨hconstructor, List.cons_subset.2 ⟨by decide, hmembers⟩⟩, hserial⟩

end Script

end BuilderApi
