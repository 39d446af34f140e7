import BuilderApi.Proofs.Builder.Reached

/-!
# The builders that a session makes

Each builder that a session makes belongs to an entry of the table that is a builder and no proxy,
also if it was made through proxies, as a companion, or by handing it over
(`BuilderApi.Session.reached_builders`). So the entry of a receiver is always found, a builder
always has the serialized form that its entry declares, which is an object, and the accessors of
properties and extensions cannot fail.
-/

namespace BuilderApi

/-- Is the member an accessor of a schema property or an extension? -/
def MemberKind.isAccessor : MemberKind → Bool
  | .property _ _ | .extension _ => true
  | .delegation _ | .invocation _ => false

/-! ### Serialized forms -/

namespace Builder

theorem exists_shaped (b : Builder) (keyed : Bool) (key : KeyShape) :
    ∃ members, b.shaped keyed key = .obj members := by
  induction key with
  | plain => exact ⟨_, rfl⟩
  | wrap ref => exact ⟨_, rfl⟩
  | fields refs => exact ⟨_, rfl⟩
  | flagged unset set ihUnset ihSet =>
    cases keyed with
    | true => exact ihSet
    | false => exact ihUnset

theorem exists_nest (keys : List String) (rest : String) (fields : Fields Json) :
    ∃ members, Json.nest keys rest (.obj fields) = .obj members := by
  unfold Json.nest
  dsimp only
  split
  · exact ⟨_, rfl⟩
  · exact ⟨_, rfl⟩

/-- **A builder is serialized as an object**, whatever its entry declares. -/
theorem exists_serialize (b : Builder) (keyed : Bool) (serial : Option Serialization) :
    ∃ members, b.serialize keyed serial = .obj members := by
  cases serial with
  | none => exact ⟨_, rfl⟩
  | some serial =>
    obtain ⟨members, hmembers⟩ := b.exists_shaped keyed serial.key
    unfold serialize
    cases hnest : serial.nest with
    | none => exact ⟨members, by simpa only [hnest] using hmembers⟩
    | some nest =>
      obtain ⟨nested, hnested⟩ := exists_nest nest.keys nest.rest members
      exact ⟨nested, by simpa only [hnest, hmembers] using hnested⟩

end Builder

namespace Session

variable {s : Session} {b : Builder} {spec : MethodSpec}

/-! ### Accessors -/

/-- A call gives what it gives however calls of companions are followed. -/
theorem outcome_call_eq {method : String} {args : List Arg} {count : Nat}
    {result : Except BuilderError Arg}
    (h : ∀ call, (s.callWith call b method args).outcome count = result) :
    (s.call b method args).outcome count = result := by
  unfold Session.call
  cases 2 * delegationCount s.table with
  | zero => exact h _
  | succ bound => exact h _

/-- An extension of the entry, whatever else the plan has. -/
theorem call_extension (hspec : s.table.builder b.entry = .ok spec) {member : Member}
    (hmember : member ∈ Member.plan spec (s.shapes.shape b.entry)) {ext : Extension}
    (hkind : member.kind = .extension ext) (args : List Arg) (count : Nat) :
    (s.call b member.name args).outcome count = .ok (s.extend b ext args) := by
  refine outcome_call_eq fun call => ?_
  rw [callWith, Run.outcome_bind, Run.outcome_ofExcept, hspec]
  simp only [Member.find_of_mem hmember, hkind, outcome_give]

/-- **Accessors cannot fail**, and a builder that they give belongs to the same entry. -/
theorem exists_call_accessor (hspec : s.table.builder b.entry = .ok spec) {member : Member}
    (hmember : member ∈ Member.plan spec (s.shapes.shape b.entry))
    (hkind : member.kind.isAccessor = true) (args : List Arg) (count : Nat) :
    ∃ arg, (s.call b member.name args).outcome count = .ok arg ∧
      ∀ out, arg = .builder out → out.entry = b.entry := by
  cases hmemberKind : member.kind with
  | property schema array =>
    exact ⟨_, call_property (method?_of_builder hspec) hmember hmemberKind args count, fun _ =>
      entry_access⟩
  | extension ext =>
    exact ⟨_, call_extension hspec hmember hmemberKind args count, fun _ => entry_extend⟩
  | delegation pass => simp [hmemberKind, MemberKind.isAccessor] at hkind
  | invocation invocation => simp [hmemberKind, MemberKind.isAccessor] at hkind

/-! ### Builders of a session -/

/-- What is true of a builder that belongs to an entry of the table. -/
structure Belongs (s : Session) (b : Builder) (spec : MethodSpec) : Prop where
  /-- Its entry is found. -/
  entry : s.table.builder b.entry = .ok spec
  /-- The entry is no proxy. -/
  notProxy : spec.ctr = none
  /-- Its serialized form is the one that the entry declares, and an object. -/
  json : ∀ keyed, s.toJson b keyed = b.serialize keyed spec.serial ∧
    ∃ members, s.toJson b keyed = .obj members
  /-- The accessors of its properties and extensions cannot fail, and a builder that they give
  belongs to the same entry. -/
  accessors : ∀ member ∈ Member.plan spec (s.shapes.shape b.entry), member.kind.isAccessor = true →
    ∀ args count, ∃ arg, (s.call b member.name args).outcome count = .ok arg ∧
      ∀ out, arg = .builder out → out.entry = b.entry

theorem Standing.belongs (h : s.Standing b) : ∃ spec, s.Belongs b spec := by
  obtain ⟨spec, hspec, hctr⟩ := h
  have hjson : ∀ keyed, s.toJson b keyed = b.serialize keyed spec.serial := by
    intro keyed
    rw [toJson, method?_of_builder hspec]
    rfl
  refine ⟨spec, hspec, hctr, fun keyed =>
    ⟨hjson keyed, ?_⟩, fun member hmember hkind args count => ?_⟩
  · obtain ⟨members, hmembers⟩ := b.exists_serialize keyed spec.serial
    exact ⟨members, (hjson keyed).trans hmembers⟩
  · exact exists_call_accessor hspec hmember hkind args count

/-- What a session makes is in its journal: the builders that its constructors and its calls
give. -/
structure Records (s : Session) (j : Journal) : Prop where
  /-- A builder that is constructed is in the journal. -/
  construct : ∀ name args b, (s.construct name args).outcome j.count = .ok b →
    b ∈ ((s.construct name args).journal j).builders
  /-- A builder that a call gives is in the journal. -/
  call : ∀ b method args out, (s.call b method args).outcome j.count = .ok (.builder out) →
    out ∈ ((s.call b method args).journal j).builders

theorem Reached.records {j : Journal} (h : s.Reached j) : s.Records j where
  construct name args b hb :=
    (keeps_construct name args j h.fair trivial).2 b ((s.faithful.construct name args j).1 ▸ hb)
  call b method args out hout :=
    (keeps_callWithin _ b method args j h.fair trivial).2 (.builder out)
      ((s.faithful.call b method args j).1 ▸ hout)

/-- **Each builder that a session makes belongs to an entry of the table that is no proxy.** The
journal has all of them: told runs are the runs of the session, and enter what they give. -/
theorem reached_builders (s : Session) : s.Faithful ∧ ∀ j, s.Reached j →
    s.Records j ∧ ∀ b ∈ j.builders, ∃ spec, s.Belongs b spec :=
  ⟨s.faithful, fun _ h => ⟨h.records, fun b hb => (h.fair.builders b hb).belongs⟩⟩

/-- A proxy, and an entry that hands its builders over to companions. -/
def relaySession : Session where
  table := [("proxy", .method { (default : MethodSpec) with ctr := some ⟨"relay", none, none⟩ }),
    ("relay", .method { (default : MethodSpec) with
      pass := [("hand", some ⟨"end", none, none, none, none, none⟩)] }),
    ("end", .method default)]
  shapes := []
  functions := []

/-- The proxy makes a builder of its target, and the call a companion, which then takes over the
builder. -/
theorem reached_builders_relaySession : ∃ j, relaySession.Reached j ∧
    j.builders.map Builder.entry = ["end", "end", "relay"] ∧
    relaySession.Records j ∧ ∀ b ∈ j.builders, ∃ spec, relaySession.Belongs b spec := by
  have hconstruct := Reached.construct (s := relaySession) .fresh "proxy" []
  have hbuilders :
      ((relaySession.construct "proxy" []).journal .fresh).builders = [Builder.empty "relay"] := by
    rw [journal_construct, Table.chain, Table.follow_of_not_mem rfl rfl List.not_mem_nil,
      Table.follow_of_target rfl rfl]
    rfl
  have hcall := hconstruct.call (hbuilders ▸ List.mem_cons_self) "hand" []
  obtain ⟨hrecords, hbelongs⟩ := (reached_builders relaySession).2 _ hcall
  exact ⟨_, hcall, by decide +kernel, hrecords, hbelongs⟩

end Session

end BuilderApi
