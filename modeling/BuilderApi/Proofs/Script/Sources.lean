import BuilderApi.Proofs.Script.Imports

/-!
# The modules that a module imports from

Beside the helper functions, a generated module needs what its members delegate to and invoke, or,
if it is that of a proxy, the constructor of the target; every other piece of it needs helpers only.
So what it needs from elsewhere can be read off the entry
(`BuilderApi.Script.foreign_methodListing`), and its ledger lists nothing else
(`BuilderApi.Script.targets_of_mem_ledger`).
-/

namespace BuilderApi

namespace Listing

/-- What a listing needs from modules other than its main one: sources and symbols, in order. -/
def foreign : Listing → List (String × List String)
  | [] => []
  | .need (some source) symbols :: rest => (source, symbols) :: foreign rest
  | _ :: rest => foreign rest

@[simp] theorem foreign_nil : foreign [] = [] := rfl

@[simp] theorem foreign_line (text : String) (rest : Listing) :
    foreign (.line text :: rest) = foreign rest := rfl

@[simp] theorem foreign_indent (rest : Listing) : foreign (.indent :: rest) = foreign rest := rfl

@[simp] theorem foreign_outdent (rest : Listing) : foreign (.outdent :: rest) = foreign rest := rfl

@[simp] theorem foreign_blank (rest : Listing) : foreign (blank :: rest) = foreign rest := rfl

@[simp] theorem foreign_use (symbol : String) (rest : Listing) :
    foreign (use symbol :: rest) = foreign rest := rfl

@[simp] theorem foreign_useAll (symbols : List String) (rest : Listing) :
    foreign (useAll symbols :: rest) = foreign rest := rfl

/-- What is used from a source is a foreign need. -/
@[simp] theorem foreign_useFrom (symbol source : String) (rest : Listing) :
    foreign (useFrom symbol source :: rest) = (source, [symbol]) :: foreign rest := rfl

@[simp] theorem foreign_append (a b : Listing) : foreign (a ++ b) = foreign a ++ foreign b := by
  induction a using foreign.induct with
  | case1 => rfl
  | case2 source symbols rest ih => exact congrArg _ ih
  | case3 step rest hstep ih =>
    rw [List.cons_append]
    cases step with
    | need source? symbols =>
      cases source? with
      | none => exact ih
      | some source => exact absurd rfl (hstep source symbols)
    | _ => exact ih

@[simp] theorem foreign_block (opening : String) (body : Listing) (closing : String) :
    foreign (block opening body closing) = foreign body := by
  simp [block]

/-- The foreign needs of a listing are those that name a source. -/
theorem mem_foreign_iff {listing : Listing} {source : String} {symbols : List String} :
    (source, symbols) ∈ foreign listing ↔ .need (some source) symbols ∈ listing := by
  induction listing using foreign.induct with
  | case1 => simp
  | case2 other others rest ih => simp [foreign, ih]
  | case3 step rest hstep ih =>
    have hne : .need (some source) symbols ≠ step := fun heq => hstep source symbols heq.symm
    rw [foreign, ih]
    · simp [hne]
    · exact hstep

end Listing

namespace Script

open Listing

/-! ### Pieces that need helpers only -/

/-- Helpers are no foreign need. -/
@[simp] theorem foreign_useHelpers (expr : ScriptExpr) (rest : Listing) :
    foreign (useHelpers expr :: rest) = foreign rest := rfl

@[simp] theorem foreign_setLine (object prop value : String) (rest : Listing) :
    foreign (setLine object prop value :: rest) = foreign rest := rfl

@[simp] theorem foreign_setLines (object : String) (set : Fields Json) :
    foreign (setLines object set) = [] := by
  induction set with
  | nil => rfl
  | cons field rest ih => exact ih

@[simp] theorem foreign_useSet (set : Fields Json) : foreign (useSet set) = [] := by
  unfold useSet
  split <;> rfl

@[simp] theorem foreign_mapLine (target list item : String) (table : TypeTable) :
    foreign (mapLine target list item table) = [] := rfl

@[simp] theorem foreign_factory (name : String) (body : Listing) :
    foreign (factory name body) = foreign body :=
  foreign_block _ _ _

/-- An accessor needs from elsewhere what its body needs. -/
@[simp] theorem foreign_accessor (name params : String) (body : Listing) :
    foreign (accessor name params body) = foreign body := by
  simp [accessor]

@[simp] theorem foreign_readOrWrite (prop : String) (write : Listing) :
    foreign (readOrWrite prop write) = foreign write := by
  simp [readOrWrite]

theorem foreign_bindingLines (spec : MethodSpec) (position : Nat) (bindings : List ArgBinding) :
    foreign (bindingLines spec position bindings) = [] := by
  induction bindings generalizing position with
  | nil => rfl
  | cons binding rest ih =>
    cases binding with
    | merge prop => cases htypes : spec.typeTable position <;> simp [bindingLines, htypes]
    | spread prop => cases htypes : spec.typeTable position <;> simp [bindingLines, htypes]
    | withDefault prop value => simp [bindingLines, ih]
    | hidden field autogen => cases autogen <;> simp [bindingLines, ih]
    | positional prop => simp [bindingLines, ih]

/-- Constructors need nothing from elsewhere. -/
theorem foreign_constructor (className : String) (spec : MethodSpec) :
    foreign (constructor className spec) = [] := by
  have hargs : foreign (argumentLines spec) = [] := by
    unfold argumentLines
    cases spec.args with
    | some bindings => exact foreign_bindingLines spec 0 bindings
    | none => cases spec.typeTable 0 <;> simp
  simp [constructor, hargs]

theorem foreign_valueAccessor (name prop : String) (spread : Bool) (types : Option TypeTable)
    (set : Fields Json) :
    foreign (valueAccessor name prop spread types set) = [] := by
  cases spread <;> cases types <;> simp [valueAccessor, valueLines]

theorem foreign_mergingAccessor (name prop : String) (ext : Extension) (accretion : Accretion) :
    foreign (mergingAccessor name prop ext accretion) = [] := by
  have hstore : foreign (storeLines prop ext.policy.flag accretion) = [] := by
    cases accretion <;> rfl
  cases hpre : ext.pre <;> cases htypes : ext.types <;> simp [mergingAccessor, hpre, htypes, hstore]

/-- Extensions need nothing from elsewhere. -/
theorem foreign_extensionAccessor (name : String) (ext : Extension) :
    foreign (extensionAccessor name ext) = [] := by
  unfold extensionAccessor
  cases ext.binding with
  | copy => simp [copyAccessor]
  | plain prop => exact foreign_valueAccessor _ _ _ _ _
  | spread prop => exact foreign_valueAccessor _ _ _ _ _
  | merge accretion prop => exact foreign_mergingAccessor _ _ _ _

/-- Serializers need nothing from elsewhere. -/
theorem foreign_serializer (serial : Serialization) : foreign (serializer serial) = [] := by
  simp [serializer]

@[simp] theorem foreign_sliceLine (args : Option Nat) : foreign (sliceLine args) = [] := by
  cases args <;> rfl

/-! ### What a module needs from elsewhere -/

/-- A target as a need. -/
def needed (target : String × String) : String × List String := (target.2, [target.1])

/-- An accessor needs its target. -/
theorem foreign_memberAccessor (member : Member) :
    foreign (memberAccessor member) = (target? member).toList.map needed := by
  unfold memberAccessor target?
  cases member.kind with
  | property schema array => exact foreign_valueAccessor _ _ _ _ _
  | extension ext => exact foreign_extensionAccessor _ _
  | delegation pass => cases hself : pass.selfMethod <;> cases hprop : pass.prop <;>
      simp [delegationAccessor, hself, hprop, needed]
  | invocation call => simp [invocationAccessor, needed]

/-- The targets of an entry: that of a proxy, or those of the members. -/
def targets (shape : Properties) (spec : MethodSpec) : List (String × String) :=
  match spec.ctr with
  | some proxy => [(proxy.call, proxy.source)]
  | none => (Member.plan spec shape).filterMap target?

variable {shape : Properties} {name : String} {spec : MethodSpec}

/-- **From elsewhere a module needs its targets**, and nothing else. -/
theorem foreign_methodListing :
    foreign (methodListing shape name spec) = (targets shape spec).map needed := by
  unfold methodListing targets
  cases spec.ctr with
  | some proxy => cases hset : spec.set.isEmpty <;> simp [proxyModule, hset, needed]
  | none =>
    have hmembers : ∀ members : List Member,
        foreign (members.flatMap memberAccessor) = (members.filterMap target?).map needed := by
      intro members
      induction members with
      | nil => rfl
      | cons member rest ih =>
        rw [List.flatMap_cons, foreign_append, ih, foreign_memberAccessor, List.filterMap_cons]
        cases target? member <;> rfl
    cases hserial : spec.serial <;>
      simp [builderModule, foreign_constructor, hmembers, hserial, foreign_serializer]

/-- **A module imports its targets**, and otherwise helper functions. -/
theorem targets_of_mem_ledger {imported : String × List String}
    (h : imported ∈ ledger helperModule (methodListing shape name spec))
    (hsource : imported.1 ≠ helperModule) :
    (∃ call, (call, imported.1) ∈ targets shape spec) ∧
      ∀ symbol ∈ imported.2, (symbol, imported.1) ∈ targets shape spec := by
  -- a need from elsewhere is that of one target, and names nothing but its function
  have hneeds : ∀ source? symbols, .need source? symbols ∈ methodListing shape name spec →
      source?.getD helperModule ≠ helperModule → ∃ call, symbols = [call] ∧
        (call, source?.getD helperModule) ∈ targets shape spec := by
    rintro (_ | source) symbols hneed hother
    · exact absurd rfl hother
    · have hforeign := mem_foreign_iff.2 hneed
      rw [foreign_methodListing] at hforeign
      obtain ⟨target, htarget, heq⟩ := List.mem_map.1 hforeign
      cases heq
      exact ⟨_, rfl, htarget⟩
  have hledger : (imported.1 ≠ helperModule → ∃ call, (call, imported.1) ∈ targets shape spec) ∧
      ∀ symbol ∈ imported.2, imported.1 ≠ helperModule →
        (symbol, imported.1) ∈ targets shape spec := by
    refine forall_mem_ledger (q :=
      fun source => source ≠ helperModule → ∃ call, (call, source) ∈ targets shape spec)
      
        (p := fun source symbol => source ≠ helperModule → (symbol, source) ∈ targets shape spec)
        (absurd rfl) ?_ _ h
    refine fun source? symbols hneed => ⟨fun hother => ?_, fun symbol hsymbol hother => ?_⟩
    · obtain ⟨call, -, htarget⟩ := hneeds _ _ hneed hother
      exact ⟨call, htarget⟩
    · obtain ⟨call, rfl, htarget⟩ := hneeds _ _ hneed hother
      exact List.mem_singleton.1 hsymbol ▸ htarget
  exact ⟨hledger.1 hsource, fun symbol hsymbol => hledger.2 symbol hsymbol hsource⟩

end Script

end BuilderApi
