import BuilderApi.Builder.Call
import BuilderApi.Proofs.Builder.Chains
import BuilderApi.Proofs.Table.Plan

/-!
# What calls give, and how they fail

A call of a delegation calls members of companions, and what these give or how they fail comes out
of the call as well. So a statement about calls is one about all calls that are made inside one
another: on a builder of a **fine** entry a call gives a builder of a fine entry, or a value, or it
**fails as it may** (`BuilderApi.Session.EnsuresCalls`). Which entries are fine and what failures
are meant is left open; what has to be known about them is what a call meets outside of itself, the
table and the constructors of companions (`BuilderApi.Session.Upholds`). The nesting of calls adds
nothing to it (`BuilderApi.Session.Upholds.callWithin`).
-/

namespace BuilderApi

/-! ### What keeps the entry of a builder -/

theorem Builder.entry_assign (b : Builder) (arg : Arg) : (b.assign arg).entry = b.entry := by
  cases arg with
  | builder other => rfl
  | json value => cases value <;> rfl

namespace Session

variable {s : Session} {b out : Builder}

theorem entry_access {prop : String} {spread : Bool} {types : Option TypeTable} {set : Fields Json}
    {args : List Arg} (h : s.access b prop spread types set args = .builder out) :
    out.entry = b.entry := by
  unfold access at h
  split at h
  · cases h
  · cases h
    rfl

theorem entry_extend {ext : Extension} {args : List Arg} (h : s.extend b ext args = .builder out) :
    out.entry = b.entry := by
  unfold extend at h
  split at h
  · cases h
    rfl
  · exact entry_access h
  · exact entry_access h
  · unfold merging at h
    split at h
    · cases h
    · cases h
      rfl

theorem entry_bind (spec : MethodSpec) (args : List Arg) (position : Nat)
    (bindings : List ArgBinding) (b : Builder) (count : Nat) :
    ((s.bind spec args position bindings b).run count).1.entry = b.entry := by
  induction bindings generalizing position b count with
  | nil => rfl
  | cons binding rest ih =>
    cases binding with
    | merge prop => rfl
    | spread prop => rfl
    | withDefault prop value => exact ih _ _ _
    | positional prop =>
      refine (ih _ _ _).trans ?_
      cases args[position]? <;> rfl
    | hidden field autogen =>
      unfold bind
      cases args[position]? with
      | some arg => exact ih _ _ _
      | none =>
        cases autogen with
        | some base => exact ih _ _ _
        | none => exact ih _ _ _

theorem entry_build (name : String) (spec : MethodSpec) (args : List Arg) (count : Nat) :
    ((s.build name spec args).run count).1.entry = name := by
  have hassign : ∀ b : Builder,
      (args.foldl (fun b arg => b.assign (arg.dispatch (spec.typeTable 0))) b).entry = b.entry := by
    intro b
    induction args generalizing b with
    | nil => rfl
    | cons arg args ih => exact (ih _).trans (Builder.entry_assign _ _)
  unfold build
  cases spec.args with
  | some bindings => exact entry_bind spec args 0 bindings _ count
  | none => exact hassign _

/-- A constructor gives a builder of the entry where its chain of proxies ends, or fails as the
chain does. -/
theorem ensures_construct (fine : String → Prop) {name : String} {fails : BuilderError → Prop}
    (hfine : ∀ chain, s.table.chain name = .ok chain → fine chain.target)
    (hfails : ∀ e, s.table.chain name = .error e → fails e) (args : List Arg) :
    (s.construct name args).Ensures (fun b => fine b.entry) fails := by
  rw [construct_eq]
  refine (Run.ensures_ofExcept hfine hfails).bind fun chain hchain => ?_
  have hbuild :
      (liftM (s.build chain.target chain.spec (chain.arguments args)) : Run Builder).Ensures
      (fun b => fine b.entry) fails :=
    Run.ensures_lift fun count => by rwa [entry_build]
  exact hbuild.bind fun b hb => Run.ensures_made (by rwa [ProxyChain.entry_finish])

/-! ### Calls inside one another -/

/-- A value, or a builder of a fine entry. -/
def IsFine (fine : String → Prop) (arg : Arg) : Prop := ∀ b, arg = .builder b → fine b.entry

@[simp] theorem outcome_give (arg : Arg) (count : Nat) :
    (liftM (give arg) : Run Arg).outcome count = .ok arg := by
  cases arg <;> rfl

theorem ensures_give {fine : String → Prop} {fails : BuilderError → Prop} {arg : Arg}
    (h : IsFine fine arg) :
    (liftM (give arg) : Run Arg).Ensures (IsFine fine) fails := by
  cases arg with
  | builder b => exact Run.ensures_lift fun _ => h
  | json value => exact Run.ensures_lift fun _ => h

/-- On builders of fine entries, calls give values and such builders, or fail as they may. -/
def EnsuresCalls (fine : String → Prop) (fails : BuilderError → Prop) (call : Caller) : Prop :=
  ∀ b method args, fine b.entry → (call b method args).Ensures (IsFine fine) fails

/-- What calls meet outside of themselves keeps to the fine entries and to the failures that are
meant. -/
structure Upholds (s : Session) (fine : String → Prop) (fails : BuilderError → Prop) : Prop where
  /-- A fine entry that is no builder. -/
  entry : ∀ name e, fine name → s.table.builder name = .error e → fails e
  /-- A member that the plan of a builder does not have. -/
  member : ∀ name spec method, s.table.builder name = .ok spec →
    method ∉ Member.names spec (s.shapes.shape name) → fails (.unknownMember name method)
  /-- The companion of a delegation. -/
  companion : ∀ name spec, s.table.builder name = .ok spec →
    ∀ field ∈ spec.pass, ∀ pass ∈ field.2, ∀ args,
    (s.construct pass.call args).Ensures (fun b => fine b.entry) fails
  /-- A function that is not registered. -/
  function : ∀ name, fails (.unboundFunction name)
  /-- A value in place of a builder. -/
  value : ∀ method, fails (.expectedBuilder method)
  /-- A call that is nested too deep. -/
  endless : ∀ owner method, fails (.endlessDelegation owner method)

namespace Upholds

variable {fine : String → Prop} {fails : BuilderError → Prop} {call : Caller}

theorem transfer (h : s.Upholds fine fails) (hcall : EnsuresCalls fine fails call) (b : Builder)
    {companion : Builder} (hcompanion : fine companion.entry) (pass : Delegation) :
    (transfer call b companion pass).Ensures (fun out => fine out.entry) fails := by
  unfold Session.transfer
  split
  · exact Run.ensures_made (by rwa [Builder.entry_assign])
  · refine (hcall companion _ _ hcompanion).bind fun arg harg => ?_
    split
    · exact Run.ensures_pure (harg _ rfl)
    · exact Run.ensures_throw (h.value _)

theorem delegate (h : s.Upholds fine fails) (hcall : EnsuresCalls fine fails call) (b : Builder)
    {pass : Delegation} (hpass : ∀ args,
      (s.construct pass.call args).Ensures (fun b => fine b.entry) fails) (args : List Arg) :
    (s.delegate call b pass args).Ensures (IsFine fine) fails := by
  unfold Session.delegate
  dsimp only
  split
  · refine (hpass _).bind fun companion hcompanion => ?_
    exact (h.transfer hcall b hcompanion pass).bind fun out hout => hcall out _ _ hout
  · refine (hpass _).bind fun companion hcompanion => ?_
    refine (h.transfer hcall b hcompanion pass).bind fun out hout => Run.ensures_pure ?_
    rintro _ ⟨⟩
    exact hout

theorem invoke (h : s.Upholds fine fails) (b : Builder) (invocation : Invocation)
    (args : List Arg) :
    (s.invoke b invocation args).Ensures (IsFine fine) fails := by
  unfold Session.invoke
  split
  · exact Run.ensures_throw (h.function _)
  · exact Run.ensures_pure nofun

/-- A member is found in the plan or it is not, and in the first case the call follows its kind. -/
theorem callWith (h : s.Upholds fine fails) (hcall : EnsuresCalls fine fails call) :
    EnsuresCalls fine fails (s.callWith call) := by
  intro b method args hb
  have hentry : (Run.ofExcept (s.table.builder b.entry)).Ensures
      (fun spec => s.table.builder b.entry = .ok spec) fails :=
    Run.ensures_ofExcept (fun _ => id) fun e => h.entry _ e hb
  refine hentry.bind fun spec hspec => ?_
  cases hfind : Member.find spec (s.shapes.shape b.entry) method with
  | none => exact Run.ensures_throw (h.member _ _ _ hspec (Member.find_eq_none_iff.1 hfind))
  | some member =>
    have hfrom := Member.isFrom_of_mem_plan (List.mem_of_find?_eq_some hfind)
    unfold Member.IsFrom at hfrom
    cases hkind : member.kind with
    -- an accessor gives a builder of the same entry
    | property schema array =>
      simp only [hkind]
      exact ensures_give fun out hout => entry_access hout ▸ hb
    | extension ext =>
      simp only [hkind]
      exact ensures_give fun out hout => entry_extend hout ▸ hb
    | delegation pass =>
      rw [hkind] at hfrom
      simp only [hkind]
      exact h.delegate hcall b (h.companion _ _ hspec _ hfrom pass rfl) args
    | invocation invocation =>
      simp only [hkind]
      exact h.invoke b invocation args

/-- **Calls give what they may give, and fail as they may, however deep they are nested.** -/
theorem callWithin (h : s.Upholds fine fails) (bound : Nat) :
    EnsuresCalls fine fails (s.callWithin bound) := by
  induction bound with
  | zero => exact h.callWith fun b method args _ => Run.ensures_throw (h.endless _ _)
  | succ bound ih => exact h.callWith ih

end Upholds

end Session

end BuilderApi
