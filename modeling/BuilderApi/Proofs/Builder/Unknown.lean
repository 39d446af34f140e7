import BuilderApi.Proofs.Builder.Outcomes

/-!
# Unknown members

A call fails with an unknown member when the plan of the builder does not have it. But a call of a
delegation calls members of companions, and their failures come out of it as well, so it has to be
seen that such a failure is never one about the member that was called in the first place. The
reason is that a failure is **truthful** wherever it comes from: it names an entry of the table and
a member that the plan of this entry does not have (`BuilderApi.Session.truthful_callWithin`).
Nothing has to be known about which companions are called.
-/

namespace BuilderApi

namespace Session

variable {α β : Type} {s : Session}

/-- A failure about a member is about one that its entry does not have. -/
def Truthful (s : Session) (run : Run α) : Prop :=
  ∀ count owner method, run.outcome count = .error (.unknownMember owner method) →
    ∃ spec, s.table.method? owner = some spec ∧ method ∉ Member.names spec (s.shapes.shape owner)

/-- A way to call members whose failures are truthful. -/
def TruthfulCaller (s : Session) (call : Caller) : Prop :=
  ∀ b method args, s.Truthful (call b method args)

theorem builder_ne_unknownMember (table : Table) (name owner method : String) :
    table.builder name ≠ .error (.unknownMember owner method) := by
  unfold Table.builder
  split <;> simp

theorem chain_ne_unknownMember (table : Table) (name owner method : String) :
    table.chain name ≠ .error (.unknownMember owner method) := by
  intro h
  obtain ⟨last, hlast | hcycle⟩ := Table.exists_of_follow_eq_error h
  · exact builder_ne_unknownMember table last owner method hlast
  · cases hcycle

theorem method?_of_builder {table : Table} {name : String} {spec : MethodSpec}
    (h : table.builder name = .ok spec) : table.method? name = some spec := by
  simp [Table.method?, Table.get?_of_builder h, Entry.method?]

theorem builder_of_method? {table : Table} {name : String} {spec : MethodSpec}
    (h : table.method? name = some spec) : table.builder name = .ok spec := by
  obtain ⟨entry, hget, hentry⟩ := Option.bind_eq_some_iff.1 h
  cases entry with
  | method other =>
    cases hentry
    simp [Table.builder, hget]
  | external => cases hentry

/-- The failure is none about a member, or about one that its entry does not have. -/
def IsTruthful (s : Session) (e : BuilderError) : Prop :=
  ∀ owner method, e = .unknownMember owner method →
    ∃ spec, s.table.method? owner = some spec ∧ method ∉ Member.names spec (s.shapes.shape owner)

/-- Calls do not depend on which companions they have to be truthful. -/
theorem upholds_isTruthful (s : Session) : s.Upholds (fun _ => True) s.IsTruthful where
  entry name e _ he owner method heq := absurd (heq ▸ he) (builder_ne_unknownMember _ _ _ _)
  member name spec method hspec hmethod owner other heq := by
    cases heq
    exact ⟨spec, method?_of_builder hspec, hmethod⟩
  companion _ _ _ _ _ pass _ args := ensures_construct (fun _ => True) (fun _ _ => trivial)
    (fun e he owner method heq => absurd (heq ▸ he) (chain_ne_unknownMember _ _ _ _)) args
  function name := nofun
  value method := nofun
  endless owner method := nofun

/-- **Failures are truthful however deep calls are nested.** -/
theorem truthful_callWithin (bound : Nat) : s.TruthfulCaller (s.callWithin bound) :=
  fun b method args _ _ _ h =>
    ((upholds_isTruthful s).callWithin bound b method args trivial).of_error h _ _ rfl

/-- **A call fails with an unknown member exactly when the plan does not have it.** -/
theorem callWithin_eq_unknownMember_iff {b : Builder} {spec : MethodSpec}
    (hspec : s.table.method? b.entry = some spec) (bound count : Nat) (method : String)
    (args : List Arg) :
    (s.callWithin bound b method args).outcome count = .error (.unknownMember b.entry method) ↔
      method ∉ Member.names spec (s.shapes.shape b.entry) := by
  constructor
  · intro h
    obtain ⟨other, hother, hmethod⟩ := truthful_callWithin bound b method args count _ _ h
    obtain rfl := Option.some.inj (hspec.symm.trans hother)
    exact hmethod
  · intro hmethod
    -- the plan is asked before anything is called
    have hcall : ∀ call, (s.callWith call b method args).outcome count =
        .error (.unknownMember b.entry method) := by
      intro call
      rw [callWith, Run.outcome_bind, Run.outcome_ofExcept, builder_of_method? hspec]
      simp only [Member.find_eq_none_iff.2 hmethod, Run.outcome_throw]
    cases bound with
    | zero => exact hcall _
    | succ bound => exact hcall _

/-! ### Accessors of schema properties -/

/-- The accessor of a schema property, whatever else the plan has. -/
theorem call_property {b : Builder} {spec : MethodSpec}
    (hspec : s.table.method? b.entry = some spec) {member : Member}
    (hmember : member ∈ Member.plan spec (s.shapes.shape b.entry)) {schema : Json}
    {array : Bool} (hkind : member.kind = .property schema array) (args : List Arg) (count : Nat) :
    (s.call b member.name args).outcome count =
    .ok (s.access b member.name array none [] args) := by
  have hcall : ∀ call, (s.callWith call b member.name args).outcome count =
      .ok (s.access b member.name array none [] args) := by
    intro call
    rw [callWith, Run.outcome_bind, Run.outcome_ofExcept, builder_of_method? hspec]
    simp only [Member.find_of_mem hmember, hkind, outcome_give]
  unfold Session.call
  cases 2 * delegationCount s.table with
  | zero => exact hcall _
  | succ bound => exact hcall _

end Session

end BuilderApi
