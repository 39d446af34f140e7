import BuilderApi.Proofs.Builder.Reached
import BuilderApi.Proofs.Table.Declared

/-!
# Sessions with closed tables

Where proxies and delegations lead to builders of the table, going from a builder to another one
never leaves the builders: not through a chain of proxies (`BuilderApi.Table.Closed.follow`), and
not in calls. So nothing fails because an entry is **missing**, unknown or external
(`BuilderApi.Table.Closed.complete`). Other failures remain: a chain may come back to a proxy, and a
call may name a member that the companion does not have.
-/

namespace BuilderApi

/-- The failure is that an entry is no builder of the table. -/
def BuilderError.IsMissing : BuilderError → Prop
  | .unknownEntry _ | .externalEntry _ => True
  | _ => False

/-- From builders of the table, nothing fails for a missing entry. -/
structure Session.Complete (s : Session) : Prop where
  /-- Constructors do not. -/
  construct : ∀ name, s.table.HasBuilder name → ∀ args count e,
    (s.construct name args).outcome count = .error e → ¬e.IsMissing
  /-- Calls do not, whatever they delegate to. -/
  call : ∀ b : Builder, s.table.HasBuilder b.entry → ∀ method args count e,
    (s.call b method args).outcome count = .error e → ¬e.IsMissing

namespace Table

variable {table : Table} {name functions : String} {spec : MethodSpec}

theorem hasBuilder_of_builder (h : table.builder name = .ok spec) : table.HasBuilder name := by
  rw [HasBuilder, Session.method?_of_builder h]
  rfl

theorem HasBuilder.exists_builder (h : table.HasBuilder name) :
    ∃ spec, table.builder name = .ok spec := by
  obtain ⟨spec, hget⟩ := h.exists_get?
  exact ⟨spec, by rw [builder, hget]⟩

namespace Closed

theorem within (h : table.Closed functions) (hspec : table.builder name = .ok spec) :
    spec.Within table.HasBuilder functions :=
  h name spec (Fields.mem_of_get? (get?_of_builder hspec))

/-- **A chain that begins at a builder misses no entry.** -/
theorem follow (h : table.Closed functions) {proxies : List String} (hname : table.HasBuilder name)
    {e : BuilderError} (he : table.follow proxies name = .error e) : ¬e.IsMissing := by
  -- each step goes from a builder to a builder, so the chain can only fail where it comes back
  induction proxies, name using Table.follow.induct table with
  | case1 proxies name failure hfailure =>
    obtain ⟨spec, hspec⟩ := hname.exists_builder
    rw [hspec] at hfailure
    cases hfailure
  | case2 proxies name spec hspec hctr =>
    rw [follow_of_target hspec hctr] at he
    cases he
  | case3 proxies name spec hspec proxy hctr hseen =>
    rw [follow_of_mem hspec hctr hseen] at he
    cases he
    exact id
  | case4 proxies name spec hspec proxy hctr hseen ih =>
    rw [follow_of_not_mem hspec hctr hseen] at he
    exact ih ((h.within hspec).ctr proxy hctr).2 (error_of_map_eq_error he)

variable {s : Session}

theorem ensures_construct (h : s.table.Closed functions) (hname : s.table.HasBuilder name)
    (args : List Arg) :
    (s.construct name args).Ensures (fun b => s.table.HasBuilder b.entry) fun e => ¬e.IsMissing :=
  Session.ensures_construct s.table.HasBuilder (fun _ hchain =>
    hasBuilder_of_builder (builder_target hchain).1)
    (fun _ => h.follow hname) args

theorem upholds (h : s.table.Closed functions) : s.Upholds s.table.HasBuilder fun e =>
    ¬e.IsMissing where
  entry name e hname he := by
    obtain ⟨spec, hspec⟩ := hname.exists_builder
    rw [hspec] at he
    cases he
  member _ _ _ _ _ := id
  companion _ _ hspec field hfield pass hpass args :=
    h.ensures_construct ((h.within hspec).pass field hfield pass hpass).2 args
  function _ := id
  value _ := id
  endless _ _ := id

/-- **In a session with a closed table nothing fails for a missing entry.** -/
theorem complete (h : s.table.Closed functions) : s.Complete where
  construct _ hname args _ _ he := (h.ensures_construct hname args).of_error he
  call b hb method args _ _ he := (h.upholds.callWithin _ b method args hb).of_error he

end Closed

end Table

end BuilderApi
