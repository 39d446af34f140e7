import BuilderApi.Proofs.Script.Accessors
import BuilderApi.Proofs.Script.Calls

/-!
# Listings that call what they need

Needs are recorded far from the lines that use them, and which ones are recorded depends on the
entry. So a listing is called **sound** (`BuilderApi.Listing.Sound`) when its lines call only what
is allowed, as soon as everything that the listing needs is allowed. Soundness is kept by putting
listings together, and the needs of a part may be counted on behind it.

What a table contributes to the text of a module is harmless as long as it has no opening
parenthesis. Only the names that stand in front of one have to be names: those of the functions and
accessors that delegations, invocations and proxies call, and the entry's own.

The pieces of a module are taken in the order in which `BuilderApi.Script.Module` builds them.
-/

namespace BuilderApi

open Script

variable {letters : Letters} {allowed : String → Prop}

/-! ### Sound listings -/

namespace Listing

/-- All symbols that the listing needs are allowed. -/
def Grants (allowed : String → Prop) (listing : Listing) : Prop :=
  ∀ source symbols, .need source symbols ∈ listing → ∀ symbol ∈ symbols, allowed symbol

/-- What is wanted of each step: a line calls only what is allowed, and a need is written without
parentheses. -/
def StepSound (letters : Letters) (allowed : String → Prop) : ListingStep → Prop
  | .line text => CallsOnly letters allowed text
  | .need source symbols => (∀ name ∈ source, Inert name) ∧ ∀ symbol ∈ symbols, Inert symbol
  | .indent | .outdent => True

/-- A listing whose lines call only what is allowed, if all of its needs are. -/
def Sound (letters : Letters) (allowed : String → Prop) (listing : Listing) : Prop :=
  Grants allowed listing → ∀ step ∈ listing, StepSound letters allowed step

/-- What two listings need is granted exactly if what each of them needs is. -/
theorem grants_append {a b : Listing} :
    Grants allowed (a ++ b) ↔ Grants allowed a ∧ Grants allowed b := by
  simp [Grants, or_imp, forall_and]

theorem grants_cons {step : ListingStep} {listing : Listing} :
    Grants allowed (step :: listing) ↔ Grants allowed [step] ∧ Grants allowed listing :=
  @grants_append allowed [step] listing

theorem grants_need {source : Option String} {symbols : List String} :
    Grants allowed [.need source symbols] ↔ ∀ symbol ∈ symbols, allowed symbol := by
  constructor
  · exact fun h => h source symbols List.mem_cons_self
  · rintro h source' symbols' hmem
    cases List.mem_singleton.1 hmem
    exact h

namespace Sound

variable {listing a b : Listing}

theorem nil : Sound letters allowed [] := fun _ => List.forall_mem_nil _

/-- What a part needs may be called behind it. -/
theorem append (ha : Sound letters allowed a) (hb : Grants allowed a → Sound letters allowed b) :
    Sound letters allowed (a ++ b) := by
  intro hgrants step hstep
  rw [grants_append] at hgrants
  exact (List.mem_append.1 hstep).elim (ha hgrants.1 step) (hb hgrants.1 hgrants.2 step)

/-- A line may stand in front if it calls only what is allowed. -/
theorem line {text : String} (htext : CallsOnly letters allowed text)
    (h : Sound letters allowed listing) :
    Sound letters allowed (.line text :: listing) := by
  intro hgrants
  rw [grants_cons] at hgrants
  exact List.forall_mem_cons.2 ⟨htext, h hgrants.2⟩

/-- What is needed may be called behind it. -/
theorem need {source : Option String} {symbols : List String}
    (hsource : ∀ name ∈ source, Inert name) (hsymbols : ∀ symbol ∈ symbols, Inert symbol)
    (h : (∀ symbol ∈ symbols, allowed symbol) → Sound letters allowed listing) :
    Sound letters allowed (.need source symbols :: listing) := by
  intro hgrants
  rw [grants_cons, grants_need] at hgrants
  exact List.forall_mem_cons.2 ⟨⟨hsource, hsymbols⟩, h hgrants.1 hgrants.2⟩

theorem indent (h : Sound letters allowed listing) :
    Sound letters allowed (.indent :: listing) := by
  intro hgrants
  rw [grants_cons] at hgrants
  exact List.forall_mem_cons.2 ⟨trivial, h hgrants.2⟩

theorem outdent (h : Sound letters allowed listing) :
    Sound letters allowed (.outdent :: listing) := by
  intro hgrants
  rw [grants_cons] at hgrants
  exact List.forall_mem_cons.2 ⟨trivial, h hgrants.2⟩

/-- A block is sound if its opening is and the closing calls nothing. -/
theorem block {opening closing : String} (hopening : CallsOnly letters allowed opening)
    (h : Sound letters allowed listing) (hclosing : Inert closing) :
    Sound letters allowed (block opening listing closing) :=
  (line hopening (indent h)).append fun _ => outdent (line (Firm.of_inert hclosing).callsOnly nil)

/-- Behind a need the symbol is allowed, since the module imports it. -/
theorem use {symbol : String} (hsymbol : Inert symbol)
    (h : allowed symbol → Sound letters allowed listing) :
    Sound letters allowed (Listing.use symbol :: listing) :=
  need (by simp) (by simpa using hsymbol) fun hallowed => h (hallowed symbol List.mem_cons_self)

/-- Behind the needs all their symbols are allowed. -/
theorem useAll {symbols : List String} (hsymbols : ∀ symbol ∈ symbols, Inert symbol)
    (h : (∀ symbol ∈ symbols, allowed symbol) → Sound letters allowed listing) :
    Sound letters allowed (Listing.useAll symbols :: listing) :=
  need (by simp) hsymbols h

end Sound

end Listing

/-! ### What a table may contribute -/

/-- Assignments without parentheses. -/
def InertFields (fields : Fields Json) : Prop :=
  ∀ field ∈ fields, Inert field.1 ∧ field.2.isInert = true

/-- A rule whose own key and assignments are without parentheses. -/
def TypeRule.IsInert (_ : TypeCheck) : TypeRule → Prop
  | .key name set => Inert name ∧ InertFields set
  | .map _ => True

/-- A dispatch table without parentheses. -/
def TypeTable.IsInert (table : TypeTable) : Prop := All TypeRule.IsInert table

/-- A binding without parentheses. -/
def ArgBinding.IsInert : ArgBinding → Prop
  | .positional prop | .spread prop | .merge prop => Inert prop
  | .withDefault prop value => Inert prop ∧ value.isInert = true
  | .hidden field autogen => Inert field ∧ ∀ base ∈ autogen, Inert base

/-- An extension without parentheses. -/
structure Extension.IsInert (ext : Extension) : Prop where
  /-- The property. -/
  prop : ∀ prop ∈ ext.binding.prop?, Inert prop
  /-- The literal in front. -/
  pre : ∀ value ∈ ext.pre, value.isInert = true
  /-- The dispatch table. -/
  types : ∀ table ∈ ext.types, table.IsInert
  /-- The assignments. -/
  set : InertFields ext.set

/-- A reference without parentheses. -/
def KeyRef.IsInert : KeyRef → Prop
  | .hidden field => Inert field
  | .literal text => Inert text

/-- A serialized form without parentheses. -/
def KeyShape.IsInert : KeyShape → Prop
  | .plain => True
  | .wrap key => key.IsInert
  | .fields members => ∀ member ∈ members, Inert member.1 ∧ member.2.IsInert
  | .flagged unset set => unset.IsInert ∧ set.IsInert

/-- A serialization without parentheses. -/
structure Serialization.IsInert (serial : Serialization) : Prop where
  /-- The serialized form. -/
  key : serial.key.IsInert
  /-- The regrouping. -/
  nest : ∀ nest ∈ serial.nest, (∀ key ∈ nest.keys, Inert key) ∧ Inert nest.rest

/-- A delegation that calls names, without parentheses. What it calls on the companion are
members. -/
structure Delegation.IsNamed (letters : Letters) (pass : Delegation) : Prop where
  /-- The entry of the companion. -/
  call : letters.isName pass.call.toList = true
  /-- The module that the entry comes from. -/
  source : ∀ source ∈ pass.source?, Inert source
  /-- The accessor of the companion that takes the arguments. -/
  prop : ∀ prop ∈ pass.prop, letters.isName prop.toList = true
  /-- The accessor of the companion that takes the builder. -/
  selfMethod : ∀ method ∈ pass.selfMethod, letters.isName method.toList = true

/-- An invocation of a name. -/
structure Invocation.IsNamed (letters : Letters) (invocation : Invocation) : Prop where
  /-- The function. -/
  call : letters.isName invocation.call.toList = true
  /-- The module that the function comes from. -/
  source : ∀ source ∈ invocation.source?, Inert source

/-- A proxy of a name. -/
structure Proxy.IsNamed (letters : Letters) (proxy : Proxy) : Prop where
  /-- The other entry. -/
  call : letters.isName proxy.call.toList = true
  /-- The module that the entry comes from. -/
  source : ∀ source ∈ proxy.source?, Inert source
  /-- The fixed argument. -/
  arg : ∀ value ∈ proxy.arg, value.isInert = true

namespace TypeTable

/-- The name of the item that a map is about. -/
theorem inert_item : (ScriptExpr.ident "_").IsInert := by
  rw [ScriptExpr.IsInert]
  decide

theorem membersInert_set : ∀ {set : Fields Json}, InertFields set →
    ScriptExpr.MembersInert (set.map fun (name, value) => (name, ScriptExpr.literal value))
  | [], _ => trivial
  | (_, _) :: _, h => ⟨(h _ List.mem_cons_self).1, (h _ List.mem_cons_self).2,
      membersInert_set fun field hfield => h field (List.mem_cons_of_mem _ hfield)⟩

mutual

/-- A cascade over an inert subject is inert if the texts in its table are. -/
theorem isInert_cascade : ∀ {table : List (TypeCheck × TypeRule)} {subject : ScriptExpr},
    All TypeRule.IsInert table → subject.IsInert → (cascade table subject).IsInert
  | [], _, _, hsubject => hsubject
  | (_, _) :: _, _, htable, hsubject =>
    ⟨hsubject, isInert_branch htable.1 htable.2.1 hsubject, isInert_cascade htable.2.2 hsubject⟩

/-- What one rule yields is inert, for rules inside of rules as well. -/
theorem isInert_branch : ∀ {rule : TypeRule} {check : TypeCheck} {subject : ScriptExpr},
    rule.IsInert check → AllInside TypeRule.IsInert rule → subject.IsInert →
    (branch rule subject).IsInert
  | .key _ _, _, _, hrule, _, hsubject => ⟨hrule.1, hsubject, membersInert_set hrule.2⟩
  | .map _, _, _, _, hinside, hsubject => ⟨hsubject, isInert_cascade hinside inert_item⟩

end

end TypeTable

namespace Script

open Listing

/-! ### Lines -/

/-- All characters of a name may continue one, if those that may begin one may. -/
theorem parts_of_isName (hletters : ∀ c, letters.isStart c = true → letters.isPart c = true)
    {name : String} (hname : letters.isName name.toList = true) :
    ∀ c ∈ name.toList, letters.isPart c = true := by
  cases hchars : name.toList with
  | nil => exact List.forall_mem_nil _
  | cons c rest =>
    rw [hchars, Letters.isName, Bool.and_eq_true, List.all_eq_true] at hname
    exact List.forall_mem_cons.2 ⟨hletters c hname.1, hname.2⟩

/-- Names of helpers have no parenthesis. -/
theorem inert_helper (check : TypeCheck) : Inert check.helper := by
  cases check <;> decide

mutual

/-- An expression needs helpers of inert names only. -/
theorem inert_helpers : ∀ expr : ScriptExpr, ∀ name ∈ expr.helpers, Inert name
  | .record members, name, h => inert_memberHelpers members name h
  | .check test subject yes no, name, h => by
    simp only [ScriptExpr.helpers, List.cons_append, List.mem_cons, List.mem_append] at h
    rcases h with rfl | (h | h) | h
    · exact inert_helper test
    · exact inert_helpers subject name h
    · exact inert_helpers yes name h
    · exact inert_helpers no name h
  | .mapItems subject body, name, h =>
    (List.mem_append.1 h).elim (inert_helpers subject name) (inert_helpers body name)
  | .byFlag set unset, name, h =>
    (List.mem_append.1 h).elim (inert_helpers set name) (inert_helpers unset name)
  | .properties, name, h => by
    cases List.mem_singleton.1 h
    decide
  | .underHidden _ value, name, h => inert_helpers value name h
  | .nest value _ _, name, h => by
    rcases List.mem_cons.1 h with rfl | h
    · decide
    · exact inert_helpers value name h
  | .ident _, _, h | .argument _, _, h | .literal _, _, h | .hidden _, _, h | .source _, _, h =>
    nomatch h

theorem inert_memberHelpers :
    ∀ members : List (String × ScriptExpr), ∀ name ∈ ScriptExpr.memberHelpers members,
    Inert name
  | [], _, h => nomatch h
  | (_, value) :: rest, name, h =>
    (List.mem_append.1 h).elim (inert_helpers value name) (inert_memberHelpers rest name)

end

/-- A line that calls a name of the table. -/
theorem callsOnly_named {front name text : String} {rest : List Char}
    (hfront : CallsOnly letters allowed front) (hname : ∀ c ∈ name.toList, letters.isPart c = true)
    (hallowed : allowed name) (htext : text.toList = '(' :: rest) (hrest : '(' ∉ rest)
    (hstops : Stops letters front) :
    CallsOnly letters allowed (front ++ name ++ text) := by
  rw [String.append_assoc]
  exact hfront.append (callsOnly_call hname hallowed htext hrest) hstops

/-- An assignment calls `set` and what its value calls. -/
theorem callsOnly_setLine {object prop value : String} (hset : allowed "set")
    (hobject : Inert object) (hprop : Inert prop) (hvalue : CallsOnly letters allowed value) :
    CallsOnly letters allowed
      ("set(" ++ object ++ ", " ++ quoted prop ++ ", " ++ value ++ ");") := by
  have hcall : CallsOnly letters allowed "set(" :=
    callsOnly_own ["set"] (by simpa using hset) (by decide)
  have hprop' := ((hcall.append_inert hobject).append_inert (b := ", ") (by decide)).append_inert
    (inert_quoted hprop)
  have hcomma := hprop'.append_inert (b := ", ") (by decide)
  exact (hcomma.append hvalue (stops_behind (by decide))).append_inert (by decide)

/-- Assignments are sound if `set` is allowed, or if there are none. -/
theorem sound_setLines {object : String} {set : Fields Json} (hset : set ≠ [] → allowed "set")
    (hobject : Inert object) (hfields : InertFields set) :
    Sound letters allowed (setLines object set) := by
  induction set with
  | nil => exact .nil
  | cons field rest ih =>
    have hset' := hset (List.cons_ne_nil _ _)
    have hfield := hfields field List.mem_cons_self
    refine .line (callsOnly_setLine hset' hobject hfield.1
      (Firm.of_inert (inert_literal hfield.2)).callsOnly) ?_
    exact ih (fun _ => hset') fun other hother => hfields other (List.mem_cons_of_mem _ hother)

theorem sound_useSet (set : Fields Json) : Sound letters allowed (useSet set) := by
  unfold useSet
  split
  · exact .nil
  · exact .use (by decide) fun _ => .nil

/-- Where the need of assignments is granted, `set` is allowed as soon as there is one. -/
theorem allowed_set {set : Fields Json} (h : Grants allowed (useSet set)) (hset : set ≠ []) :
    allowed "set" := by
  unfold useSet at h
  rw [if_neg (by simpa using hset)] at h
  exact grants_need.1 h "set" List.mem_cons_self

/-- A line that maps items through a dispatch table. -/
theorem sound_mapLine {target list item : String} {table : TypeTable}
    (hlist : CallsOnly letters allowed list) (htable : table.IsInert) (htarget : Inert target)
    (hitem : Inert item) :
    Sound letters allowed (mapLine target list item table) := by
  refine .useAll (inert_helpers _) fun hhelpers => .line ?_ .nil
  have hcascade : CallsOnly letters allowed (TypeTable.cascade table (.ident item)).text :=
    ScriptExpr.callsOnly_text _ (TypeTable.isInert_cascade htable hitem) hhelpers
  have hfront : CallsOnly letters allowed (target ++ " = ") :=
    (Firm.of_inert (htarget.append (by decide))).callsOnly
  have hlist' := hfront.append hlist (stops_behind (by decide))
  have hmap : Firm letters allowed ".map(" :=
    firm_own [] (List.forall_mem_nil _) (by decide) (by decide)
  have harrow :=
    ((hlist'.append_firm hmap).append_inert hitem).append_inert (b := " => ") (by decide)
  exact (harrow.append hcascade (stops_behind (by decide))).append_inert (by decide)

/-- The exported factory declares its own name. -/
theorem sound_factory {name : String} {body : Listing}
    (hname : ∀ c ∈ name.toList, letters.isPart c = true)
    (hallowed : allowed name) (hbody : Sound letters allowed body) :
    Sound letters allowed (factory name body) := by
  have hfront : CallsOnly letters allowed "export function " :=
    callsOnly_own [] (List.forall_mem_nil _) (by decide)
  exact .block (callsOnly_named hfront hname hallowed rfl (by decide) (stops_own (by decide)))
    hbody (by decide)

/-! ### Constructors -/

/-- A default calls what its fallback calls. -/
theorem callsOnly_argumentOr {argument other : String} (hargument : Inert argument)
    (hother : CallsOnly letters allowed other) :
    CallsOnly letters allowed (argumentOr argument other) := by
  have hfront : Inert (argument ++ " !== undefined ? " ++ argument ++ " : ") :=
    ((hargument.append (by decide)).append hargument).append (by decide)
  exact (Firm.of_inert hfront).callsOnly.append hother (stops_behind (by decide))

theorem inert_argument (position : Nat) : Inert (ScriptExpr.argument position).text := by
  have hfront : Inert "args[" := by decide
  exact (hfront.append (inert_toString position)).append (by decide)

/-- The lines of a dispatch table, if there is one. -/
theorem sound_tableLines {target list item : String} {other : Listing} (types : Option TypeTable)
    (hlist : CallsOnly letters allowed list) (hother : Sound letters allowed other)
    (htarget : Inert target) (hitem : Inert item) :
    (∀ table ∈ types, table.IsInert) → Sound letters allowed (match types with
      | some table => mapLine target list item table
      | none => other) := by
  intro htypes
  cases types with
  | none => exact hother
  | some table => exact sound_mapLine hlist (htypes table rfl) htarget hitem

theorem callsOnly_args : CallsOnly letters allowed "args" :=
  callsOnly_own [] (List.forall_mem_nil _) (by decide)

/-- What merging all arguments into a property gives. -/
theorem callsOnly_mergedArgs {prop : String} (hmerge : allowed "merge") (hget : allowed "get")
    (hprop : Inert prop) :
    CallsOnly letters allowed ("merge(0, get(this, " ++ quoted prop ++ "), args)") := by
  have hneeds : ∀ name ∈ ["merge", "get"], allowed name := by simpa using ⟨hmerge, hget⟩
  have hcall : CallsOnly letters allowed "merge(0, get(this, " := callsOnly_own _ hneeds (by decide)
  exact (hcall.append_inert (inert_quoted hprop)).append_inert (by decide)

/-- An argument goes to its property if it is given. -/
theorem callsOnly_argumentLine {argument prop value : String} (hset : allowed "set")
    (hargument : Inert argument) (hprop : Inert prop) (hvalue : CallsOnly letters allowed value) :
    CallsOnly letters allowed
      ("if (" ++ argument ++ " !== undefined) set(this, " ++ quoted prop ++ ", " ++
        value ++ ");") := by
  have hif : CallsOnly letters allowed "if (" :=
    callsOnly_own [] (List.forall_mem_nil _) (by decide)
  have hthen : Firm letters allowed " !== undefined) set(this, " :=
    firm_own ["set"] (by simpa using hset) (by decide) (by decide)
  have htest := ((hif.append_inert hargument).append_firm hthen).append_inert (inert_quoted hprop)
  have hcomma := htest.append_inert (b := ", ") (by decide)
  exact (hcomma.append hvalue (stops_behind (by decide))).append_inert (by decide)

/-- An argument goes to its hidden field if it is given. -/
theorem callsOnly_hiddenLine {argument field : String} (hargument : Inert argument)
    (hfield : Inert field) :
    CallsOnly letters allowed
      ("if (" ++ argument ++ " !== undefined) this[" ++ quoted field ++ "] = " ++
        argument ++ ";") := by
  have hif : CallsOnly letters allowed "if (" :=
    callsOnly_own [] (List.forall_mem_nil _) (by decide)
  have htest := (hif.append_inert hargument).append_inert (b := " !== undefined) this[") (by decide)
  have htarget := (htest.append_inert (inert_quoted hfield)).append_inert (b := "] = ") (by decide)
  exact (htarget.append_inert hargument).append_inert (by decide)

/-- A hidden field without an argument gets a new identifier. -/
theorem callsOnly_generatedLine {argument field base : String} (hid : allowed "id")
    (hargument : Inert argument) (hfield : Inert field) (hbase : Inert base) :
    CallsOnly letters allowed
      ("this[" ++ quoted field ++ "] = " ++
        argumentOr argument ("id(" ++ quoted base ++ ")") ++ ";") := by
  have hfront : Inert "this[" := by decide
  have htarget : Inert ("this[" ++ quoted field ++ "] = ") :=
    (hfront.append (inert_quoted hfield)).append (by decide)
  have hcall : CallsOnly letters allowed "id(" :=
    callsOnly_own ["id"] (by simpa using hid) (by decide)
  have hnew := (hcall.append_inert (inert_quoted hbase)).append_inert (b := ")") (by decide)
  have hvalue := (Firm.of_inert htarget).callsOnly.append (callsOnly_argumentOr hargument hnew)
    (stops_behind (by decide))
  exact hvalue.append_inert (by decide)

/-- An argument is inert, also where it goes through a dispatch table. -/
theorem isInert_typedArgument (position : Nat) (types : Option TypeTable) :
    (∀ table ∈ types, table.IsInert) → ScriptExpr.IsInert (match types with
      | some table => TypeTable.cascade table (.argument position)
      | none => .argument position) := by
  intro htypes
  cases types with
  | none => trivial
  | some table => exact TypeTable.isInert_cascade (htypes table rfl) trivial

/-- The lines that bind arguments call only what they need. -/
theorem sound_bindingLines {spec : MethodSpec}
    (htypes : ∀ position, ∀ table ∈ spec.typeTable position, table.IsInert)
    {bindings : List ArgBinding} (position : Nat)
    (hbindings : ∀ binding ∈ bindings, binding.IsInert) :
    Sound letters allowed (bindingLines spec position bindings) := by
  induction bindings generalizing position with
  | nil => exact .nil
  | cons binding rest ih =>
    have hrest := ih (position + 1) fun other hother =>
      hbindings other (List.mem_cons_of_mem _ hother)
    have hargument := inert_argument position
    have hthis : Inert "this" := by decide
    have hlines : ∀ {list : String} {other : Listing}, CallsOnly letters allowed list →
        Sound letters allowed other → Sound letters allowed (match spec.typeTable position with
          | some table => mapLine "args" list "_" table
          | none => other) := fun hlist hother =>
      sound_tableLines (spec.typeTable position) hlist hother (by decide) (by decide)
        (htypes position)
    have hbinding := hbindings binding List.mem_cons_self
    cases binding with
    | merge prop =>
      refine .useAll (by decide) fun hallowed => .append (hlines callsOnly_args .nil) fun _ => ?_
      have hvalue := @callsOnly_mergedArgs letters _ _ (hallowed "merge" (by simp))
        (hallowed "get" (by simp)) hbinding
      exact .line (callsOnly_setLine (hallowed "set" (by simp)) hthis hbinding hvalue) .nil
    | spread prop =>
      refine .useAll (by decide) fun hallowed => ?_
      have hflat : ∀ name ∈ ["flat"], allowed name := by simpa using hallowed "flat" (by simp)
      have hline : CallsOnly letters allowed "args = flat(args);" :=
        callsOnly_own _ hflat (by decide)
      have hlist : CallsOnly letters allowed "flat(args)" := callsOnly_own _ hflat (by decide)
      refine .append (hlines hlist (.line hline .nil)) fun _ => ?_
      exact .line (callsOnly_setLine (hallowed "set" (by simp)) hthis hbinding callsOnly_args) .nil
    | withDefault prop value =>
      refine .use (by decide) fun hset => .line (callsOnly_setLine hset hthis hbinding.1 ?_) hrest
      exact callsOnly_argumentOr hargument (Firm.of_inert (inert_literal hbinding.2)).callsOnly
    | hidden field autogen =>
      cases autogen with
      | some base =>
        exact .use (by decide) fun hid =>
          .line (callsOnly_generatedLine hid hargument hbinding.1 (hbinding.2 base rfl)) hrest
      | none => exact .line (callsOnly_hiddenLine hargument hbinding.1) hrest
    | positional prop =>
      refine .use (by decide) fun hset => .useAll (inert_helpers _) fun hhelpers => .line ?_ hrest
      have hinert := isInert_typedArgument position (spec.typeTable position) (htypes position)
      exact callsOnly_argumentLine hset hargument hbinding
        (ScriptExpr.callsOnly_text _ hinert hhelpers)

/-- The constructor of a builder is sound if its own name, which stands before a parenthesis, is
allowed. -/
theorem sound_constructor {className : String} {spec : MethodSpec}
    (hname : ∀ c ∈ className.toList, letters.isPart c = true) (hallowed : allowed className)
    (hset : InertFields spec.set)
    (htypes : ∀ position, ∀ table ∈ spec.typeTable position, table.IsInert)
    (hargs : ∀ bindings ∈ spec.args, ∀ binding ∈ bindings, binding.IsInert) :
    Sound letters allowed (constructor className spec) := by
  have harguments : Sound letters allowed (argumentLines spec) := by
    unfold argumentLines
    cases hbindings : spec.args with
    | some bindings => exact sound_bindingLines htypes 0 (hargs bindings hbindings)
    | none =>
      refine .use (by decide) fun hassign => .append ?_ fun _ => .line ?_ .nil
      · exact sound_tableLines (spec.typeTable 0) callsOnly_args .nil (by decide)
          (by decide) (htypes 0)
      · exact callsOnly_own ["assign"] (by simpa using hassign) (by decide)
  have hfront : CallsOnly letters allowed "function " :=
    callsOnly_own [] (List.forall_mem_nil _) (by decide)
  have hopening : CallsOnly letters allowed ("function " ++ className ++ "(...args) \x7b") :=
    callsOnly_named hfront hname hallowed rfl (by decide) (stops_own (by decide))
  refine .append (.block hopening ?_ (by decide)) fun _ =>
    .line (callsOnly_own [] (List.forall_mem_nil _) (by decide)) .nil
  refine .use (by decide) fun hinit =>
    .line (callsOnly_own ["init"] (by simpa using hinit) (by decide)) ?_
  refine .append (.append (sound_useSet _) fun hgrants => ?_) fun _ => harguments
  exact sound_setLines (allowed_set hgrants) (by decide) hset

/-! ### Accessors -/

/-- An accessor calls the keyword, and what its body calls. -/
theorem sound_accessor {name params : String} {body : Listing} (hfunction : allowed "function")
    (hname : Inert name) (hbody : Sound letters allowed body) (hparams : Inert params) :
    Sound letters allowed (accessor name params body) := by
  have hfront : CallsOnly letters allowed "prototype." :=
    callsOnly_own [] (List.forall_mem_nil _) (by decide)
  have hmiddle : Firm letters allowed " = function(" :=
    firm_own ["function"] (by simpa using hfunction) (by decide) (by decide)
  have hparams' := ((hfront.append_inert hname).append_firm hmiddle).append_inert hparams
  have hopening := hparams'.append_inert (b := ") \x7b") (by decide)
  exact .append (.block hopening hbody (by decide)) fun _ =>
    .line (callsOnly_own [] (List.forall_mem_nil _) (by decide)) .nil

/-- Reading calls `get`; the rest is up to the writing part. -/
theorem sound_readOrWrite {prop : String} {write : Listing} (hget : allowed "get")
    (hprop : Inert prop) (hwrite : Sound letters allowed write) :
    Sound letters allowed (readOrWrite prop write) := by
  have hcall : CallsOnly letters allowed "return get(this, " :=
    callsOnly_own ["get"] (by simpa using hget) (by decide)
  have hread := (hcall.append_inert (inert_quoted hprop)).append_inert (b := ");") (by decide)
  have hif : CallsOnly letters allowed "if (arguments.length) \x7b" :=
    callsOnly_own [] (List.forall_mem_nil _) (by decide)
  have helse : CallsOnly letters allowed "\x7d else \x7b" :=
    callsOnly_own [] (List.forall_mem_nil _) (by decide)
  exact .append (.line hif (.indent hwrite)) fun _ =>
    .outdent (.block helse (.line hread .nil) (by decide))

theorem callsOnly_copyLine (hcopy : allowed "copy") :
    CallsOnly letters allowed "const obj = copy(this);" :=
  callsOnly_own ["copy"] (by simpa using hcopy) (by decide)

theorem inert_obj : Inert "obj" := by decide

/-- The fixed assignments, and the line that returns the copy. -/
theorem sound_returnLines {set : Fields Json} (hset : set ≠ [] → allowed "set")
    (hfields : InertFields set) :
    Sound letters allowed (setLines "obj" set ++ [.line "return obj;"]) :=
  .append (sound_setLines hset inert_obj hfields) fun _ =>
    .line (callsOnly_own [] (List.forall_mem_nil _) (by decide)) .nil

/-- The accessor that only copies is sound. -/
theorem sound_copyAccessor {name : String} {set : Fields Json} (hfunction : allowed "function")
    (hname : Inert name) (hset : InertFields set) : Sound letters allowed (copyAccessor name set) :=
  .use (by decide) fun hcopy => .append (sound_useSet set) fun hgrants =>
    sound_accessor hfunction hname
    (.line (callsOnly_copyLine hcopy) (sound_returnLines (allowed_set hgrants) hset)) (by decide)

/-- Values call `flat` if they are spread, and what their cascade calls. -/
theorem sound_valueLines {spread : Bool} {types : Option TypeTable}
    (hflat : spread = true → allowed "flat") (htypes : ∀ table ∈ types, table.IsInert) :
    Sound letters allowed (valueLines spread types) := by
  unfold valueLines
  split
  · next table =>
    have hlist : CallsOnly letters allowed "flat(value)" :=
      callsOnly_own ["flat"] (by simpa using hflat rfl) (by decide)
    exact sound_mapLine hlist (htypes table rfl) (by decide) (by decide)
  · exact .line (callsOnly_own ["flat"] (by simpa using hflat rfl) (by decide)) .nil
  · next table =>
    refine .useAll (inert_helpers _) fun hhelpers => .line ?_ .nil
    have hfront : CallsOnly letters allowed "value = " :=
      callsOnly_own [] (List.forall_mem_nil _) (by decide)
    have hvalue : (ScriptExpr.ident "value").IsInert := by
      rw [ScriptExpr.IsInert]
      decide
    have hcascade := TypeTable.isInert_cascade (htypes table rfl) hvalue
    have hvalue' :=
      hfront.append (ScriptExpr.callsOnly_text _ hcascade hhelpers) (stops_own (by decide))
    exact hvalue'.append_inert (by decide)
  · exact .nil

/-- The accessor of a value is sound. -/
theorem sound_valueAccessor {name prop : String} {spread : Bool} {types : Option TypeTable}
    {set : Fields Json} (hfunction : allowed "function") (hname : Inert name) (hprop : Inert prop)
    (htypes : ∀ table ∈ types, table.IsInert) (hset : InertFields set) :
    Sound letters allowed (valueAccessor name prop spread types set) := by
  refine .useAll (by decide) fun hallowed => ?_
  have hcopy := hallowed "copy" (by simp)
  have hsetter := hallowed "set" (by simp)
  have hbody : (spread = true → allowed "flat") → Sound letters allowed
      (accessor name (if spread then "...value" else "value") (readOrWrite prop
        (.line "const obj = copy(this);" :: valueLines spread types ++
          setLine "obj" prop "value" :: setLines "obj" set ++ [.line "return obj;"]))) := by
    intro hflat
    have hvalue : CallsOnly letters allowed "value" :=
      callsOnly_own [] (List.forall_mem_nil _) (by decide)
    have hstore : Sound letters allowed
        (setLine "obj" prop "value" :: setLines "obj" set ++ [.line "return obj;"]) :=
      .line (callsOnly_setLine hsetter inert_obj hprop hvalue)
        (sound_returnLines (fun _ => hsetter) hset)
    have hwrite :=
      Sound.line (callsOnly_copyLine hcopy) ((sound_valueLines hflat htypes).append fun _ => hstore)
    refine sound_accessor hfunction hname (sound_readOrWrite (hallowed "get" (by simp)) hprop ?_) ?_
    · simpa using hwrite
    · cases spread <;> decide
  cases spread with
  | false => exact .append .nil fun _ => hbody (by simp)
  | true =>
    refine .append (.use (by decide) fun _ => .nil) fun hgrants => hbody fun _ => ?_
    exact grants_need.1 hgrants "flat" List.mem_cons_self

theorem callsOnly_merge {flag : Nat} (hmerge : allowed "merge") :
    CallsOnly letters allowed ("merge(" ++ toString flag ++ ", values)") := by
  have hcall : CallsOnly letters allowed "merge(" :=
    callsOnly_own ["merge"] (by simpa using hmerge) (by decide)
  exact (hcall.append_inert (inert_toString flag)).append_inert (by decide)

/-- What a merging accessor needs. -/
def mergingNeeds : List String := ["copy", "get", "merge", "set"]

/-- Storing a merged value calls what merging needs, whatever is done with the standing one. -/
theorem sound_storeLines {prop : String} {flag : Nat} {accretion : Accretion} (hprop : Inert prop)
    (hallowed : ∀ symbol ∈ mergingNeeds, allowed symbol) :
    Sound letters allowed (storeLines prop flag accretion) := by
  have hcopy : CallsOnly letters allowed _ := callsOnly_copyLine (hallowed "copy" (by decide))
  have hget : CallsOnly letters allowed "const val = get(this, " :=
    callsOnly_own ["get"] (by simpa using hallowed "get" (by decide)) (by decide)
  have hmerge : CallsOnly letters allowed ("merge(" ++ toString flag ++ ", values)") :=
    callsOnly_merge (hallowed "merge" (by decide))
  have hset := hallowed "set" (by decide)
  have hread := hget.append_inert (inert_quoted hprop)
  cases accretion with
  | replace => exact .line hcopy (.line (callsOnly_setLine hset inert_obj hprop hmerge) .nil)
  | object =>
    have hif : CallsOnly letters allowed "if (val) values = [val].concat(values);" :=
      callsOnly_own [] (List.forall_mem_nil _) (by decide)
    refine .line (hread.append_inert (by decide)) (.line hcopy (.line hif (.line ?_ .nil)))
    exact callsOnly_setLine hset inert_obj hprop hmerge
  | array =>
    have hvalues : CallsOnly letters allowed "values = [].concat(val, merge(" :=
      callsOnly_own ["merge"] (by simpa using hallowed "merge" (by decide)) (by decide)
    have hchoice : CallsOnly letters allowed "values.length > 1 ? values : values[0]" :=
      callsOnly_own [] (List.forall_mem_nil _) (by decide)
    refine .line (hread.append_inert (by decide)) (.line hcopy (.line ?_ (.line ?_ .nil)))
    · exact (hvalues.append_inert (inert_toString flag)).append_inert (by decide)
    · exact callsOnly_setLine hset inert_obj hprop hchoice

/-- The accessor that merges is sound. -/
theorem sound_mergingAccessor {name prop : String} {ext : Extension} {accretion : Accretion}
    (hfunction : allowed "function") (hname : Inert name) (hprop : Inert prop)
    (hext : ext.IsInert) :
    Sound letters allowed (mergingAccessor name prop ext accretion) := by
  refine .useAll (by decide) fun hallowed => ?_
  have hvalues : CallsOnly letters allowed "values" :=
    callsOnly_own [] (List.forall_mem_nil _) (by decide)
  have htypes : Sound letters allowed (match ext.types with
      | some table => mapLine "values" "values" "v" table
      | none => []) := sound_tableLines ext.types hvalues .nil (by decide) (by decide) hext.types
  have hstore : Sound letters allowed (storeLines prop ext.policy.flag accretion) :=
    sound_storeLines hprop hallowed
  have hreturn : Sound letters allowed (setLines "obj" ext.set ++ [.line "return obj;"]) :=
    sound_returnLines (fun _ => hallowed "set" (by simp)) hext.set
  have hwrite := (htypes.append fun _ => hstore).append fun _ => hreturn
  rw [← List.append_assoc] at hwrite
  refine sound_accessor hfunction hname ?_ (by decide)
  cases hpre : ext.pre with
  | some pre =>
    have hfront : CallsOnly letters allowed "values = [" :=
      callsOnly_own [] (List.forall_mem_nil _) (by decide)
    have hconcat : Firm letters allowed "].concat(values);" :=
      firm_own [] (List.forall_mem_nil _) (by decide) (by decide)
    exact .line ((hfront.append_inert (inert_literal (hext.pre pre hpre))).append_firm hconcat)
      hwrite
  | none => exact sound_readOrWrite (hallowed "get" (by simp)) hprop hwrite

/-- The accessor of each extension is sound. -/
theorem sound_extensionAccessor {name : String} {ext : Extension} (hfunction : allowed "function")
    (hname : Inert name) (hext : ext.IsInert) :
    Sound letters allowed (extensionAccessor name ext) := by
  unfold extensionAccessor
  have hprop := hext.prop
  cases hbinding : ext.binding with
  | copy => exact sound_copyAccessor hfunction hname hext.set
  | plain prop =>
    exact sound_valueAccessor hfunction hname (hprop prop (by rw [hbinding]; rfl))
      hext.types hext.set
  | spread prop =>
    exact sound_valueAccessor hfunction hname (hprop prop (by rw [hbinding]; rfl))
      hext.types hext.set
  | merge accretion prop =>
    exact sound_mergingAccessor hfunction hname (hprop prop (by rw [hbinding]; rfl)) hext

theorem sound_sliceLine (args : Option Nat) : Sound letters allowed (sliceLine args) := by
  cases args with
  | none => exact .nil
  | some n =>
    have hfront : CallsOnly letters allowed "values = values.slice(0, " :=
      callsOnly_own [] (List.forall_mem_nil _) (by decide)
    exact .line ((hfront.append_inert (inert_toString n)).append_inert (by decide)) .nil

/-- Needs the target of a call from its source, the target's own module if none is named. -/
theorem sound_target {call : String} {source? : Option String} {listing : Listing}
    (hcall : ∀ c ∈ call.toList, letters.isPart c = true)
    (hsource : ∀ source ∈ source?, Inert source)
    (h : allowed call → Sound letters allowed listing) :
    Sound letters allowed (Listing.useFrom call (source?.getD call) :: listing) := by
  refine .need ?_ ?_ fun hallowed => h (hallowed call List.mem_cons_self)
  · intro name hname
    cases Option.mem_some_iff.1 hname
    cases source? with
    | none => exact inert_of_parts hcall
    | some source => exact hsource source rfl
  · intro symbol hsymbol
    cases List.mem_singleton.1 hsymbol
    exact inert_of_parts hcall

variable (hletters : ∀ c, letters.isStart c = true → letters.isPart c = true)
include hletters

/-- What hands the builder over calls an accessor of the companion, or `assign`. -/
theorem callsOnly_handover {pass : Delegation} (hpass : pass.IsNamed letters)
    (hassign : pass.selfMethod = none → allowed "assign") :
    CallsOnly letters allowed (match pass.selfMethod with
      | some method => "obj." ++ method ++ "(this);"
      | none => "assign(obj, this);") := by
  cases hmethod : pass.selfMethod with
  | none => exact callsOnly_own ["assign"] (by simpa using hassign hmethod) (by decide)
  | some method =>
    have hparts := parts_of_isName hletters (hpass.selfMethod method hmethod)
    exact callsOnly_method (by decide) rfl hparts rfl (by decide)

/-- The lines that make the companion and hand it the builder. -/
theorem sound_delegationLines {pass : Delegation} (hpass : pass.IsNamed letters)
    (htarget : allowed pass.call) {handover : String}
    (hhandover : CallsOnly letters allowed handover) : Sound letters allowed (match pass.prop with
      | some prop =>
        [.line ("let obj = " ++ pass.call ++ "();"), .line ("obj = " ++ handover),
          .line ("return obj." ++ prop ++ "(...values);")]
      | none =>
        [.line ("const obj = " ++ pass.call ++ "(...values);"),
          .line ("return " ++ handover)]) := by
  have hcall := parts_of_isName hletters hpass.call
  cases hprop : pass.prop with
  | some prop =>
    have hlet : CallsOnly letters allowed "let obj = " :=
      callsOnly_own [] (List.forall_mem_nil _) (by decide)
    have hobj : CallsOnly letters allowed "obj = " :=
      callsOnly_own [] (List.forall_mem_nil _) (by decide)
    have hparts := parts_of_isName hletters (hpass.prop prop hprop)
    have hmake : CallsOnly letters allowed ("let obj = " ++ pass.call ++ "();") :=
      callsOnly_named hlet hcall htarget rfl (by decide) (stops_own (by decide))
    refine .line hmake (.line (hobj.append hhandover (stops_own (by decide))) (.line ?_ .nil))
    exact callsOnly_method (by decide) rfl hparts rfl (by decide)
  | none =>
    have hconst : CallsOnly letters allowed "const obj = " :=
      callsOnly_own [] (List.forall_mem_nil _) (by decide)
    have hreturn : CallsOnly letters allowed "return " :=
      callsOnly_own [] (List.forall_mem_nil _) (by decide)
    have hmake : CallsOnly letters allowed ("const obj = " ++ pass.call ++ "(...values);") :=
      callsOnly_named hconst hcall htarget rfl (by decide) (stops_own (by decide))
    exact .line hmake (.line (hreturn.append hhandover (stops_own (by decide))) .nil)

/-- The accessor of a delegation calls its target, which it imports. -/
theorem sound_delegationAccessor {name : String} {pass : Delegation}
    (hfunction : allowed "function") (hname : Inert name) (hpass : pass.IsNamed letters) :
    Sound letters allowed (delegationAccessor name pass) := by
  refine sound_target (parts_of_isName hletters hpass.call) hpass.source fun htarget => ?_
  have huse : Sound letters allowed (if pass.selfMethod.isNone then [Listing.use "assign"]
      else []) := by
    split
    · exact .use (by decide) fun _ => .nil
    · exact .nil
  refine huse.append fun hgrants => sound_accessor hfunction hname ?_ (by decide)
  have hassign : pass.selfMethod = none → allowed "assign" := by
    intro hnone
    rw [hnone] at hgrants
    exact grants_need.1 hgrants "assign" List.mem_cons_self
  have hhandover := callsOnly_handover hletters hpass hassign
  exact (sound_sliceLine pass.args).append fun _ =>
    sound_delegationLines hletters hpass htarget hhandover

/-- The accessor of an invocation calls its target, which it imports. -/
theorem sound_invocationAccessor {name : String} {call : Invocation}
    (hfunction : allowed "function") (hname : Inert name) (hcall : call.IsNamed letters) :
    Sound letters allowed (invocationAccessor name call) := by
  have hparts := parts_of_isName hletters hcall.call
  refine sound_target hparts hcall.source fun htarget => ?_
  have hfront : CallsOnly letters allowed "return " :=
    callsOnly_own [] (List.forall_mem_nil _) (by decide)
  have happly : Firm letters allowed ".apply(this, values);" :=
    firm_own [] (List.forall_mem_nil _) (by decide) (by decide)
  have hline := (hfront.append_inert (inert_of_parts hparts)).append_firm happly
  exact sound_accessor hfunction hname ((sound_sliceLine call.args).append fun _ =>
    .line hline .nil) (by decide)

/-! ### Modules -/

/-- A member of a builder whose text is harmless. -/
def memberNamed (letters : Letters) (member : Member) : Prop :=
  Inert member.name ∧ match member.kind with
    | .property _ _ => True
    | .extension ext => ext.IsInert
    | .delegation pass => pass.IsNamed letters
    | .invocation call => call.IsNamed letters

/-- The accessor of each member is sound. -/
theorem sound_memberAccessor {member : Member} (hfunction : allowed "function")
    (hmember : memberNamed letters member) :
    Sound letters allowed (memberAccessor member) := by
  obtain ⟨hname, hkind⟩ := hmember
  unfold memberAccessor
  cases hmember : member.kind with
  | property schema array =>
    exact sound_valueAccessor hfunction hname hname (by simp) (List.forall_mem_nil _)
  | extension ext =>
    rw [hmember] at hkind
    exact sound_extensionAccessor hfunction hname hkind
  | delegation pass =>
    rw [hmember] at hkind
    exact sound_delegationAccessor hletters hfunction hname hkind
  | invocation call =>
    rw [hmember] at hkind
    exact sound_invocationAccessor hletters hfunction hname hkind

/-- The accessors of all members are sound. -/
theorem sound_members {members : List Member} (hfunction : allowed "function")
    (hmembers : ∀ member ∈ members, memberNamed letters member) :
    Sound letters allowed (members.flatMap memberAccessor) := by
  induction members with
  | nil => exact .nil
  | cons member rest ih =>
    rw [List.forall_mem_cons] at hmembers
    rw [List.flatMap_cons]
    exact (sound_memberAccessor hletters hfunction hmembers.1).append fun _ => ih hmembers.2

omit hletters

theorem isInert_keyRef {key : KeyRef} (h : key.IsInert) : key.expr.IsInert := by
  cases key <;> exact h

theorem membersInert_keyRefs : ∀ {members : List (String × KeyRef)},
    (∀ member ∈ members, Inert member.1 ∧ member.2.IsInert) →
    ScriptExpr.MembersInert (members.map fun (name, ref) => (name, ref.expr))
  | [], _ => trivial
  | _ :: _, h => by
    rw [List.forall_mem_cons] at h
    exact ⟨h.1.1, isInert_keyRef h.1.2, membersInert_keyRefs h.2⟩

/-- The expression of a serialized form is inert if the texts of the shape are. -/
theorem isInert_keyShape : ∀ {key : KeyShape}, key.IsInert → key.expr.IsInert
  | .plain, _ => trivial
  | .wrap (.hidden _), h => ⟨h, trivial⟩
  | .wrap (.literal _), h => ⟨h, trivial, trivial⟩
  | .fields _, h => membersInert_keyRefs h
  | .flagged _ _, h => ⟨isInert_keyShape h.2, isInert_keyShape h.1⟩

theorem isInert_serialization {serial : Serialization} (h : serial.IsInert) :
    serial.expr.IsInert := by
  unfold Serialization.expr
  cases hnest : serial.nest with
  | none => exact isInert_keyShape h.key
  | some nest => exact ⟨isInert_keyShape h.key, h.nest nest hnest⟩

/-- The serializer is sound. -/
theorem sound_serializer {serial : Serialization} (hfunction : allowed "function")
    (hserial : serial.IsInert) :
    Sound letters allowed (serializer serial) := by
  refine .useAll (inert_helpers _) fun hhelpers => ?_
  have hfront : CallsOnly letters allowed "return " :=
    callsOnly_own [] (List.forall_mem_nil _) (by decide)
  have htext : CallsOnly letters allowed serial.expr.text :=
    ScriptExpr.callsOnly_text _ (isInert_serialization hserial) hhelpers
  have hreturn := (hfront.append htext (stops_own (by decide))).append_inert (b := ";") (by decide)
  refine sound_accessor hfunction (by decide) (.line hreturn .nil) ?_
  split <;> decide

end Script

end BuilderApi
