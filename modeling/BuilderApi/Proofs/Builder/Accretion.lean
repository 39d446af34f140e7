import BuilderApi.Proofs.Builder.Footprint
import BuilderApi.Proofs.Json.Merge

/-!
# Runs of an extension that accretes

An extension that merges into its property either merges into the object that stands there, or puts
a new element behind what stands there. Each call starts from the value that the calls before it
left, in the form in which they left it. The statements below say what a whole run leaves, and that
it is what one look at all calls gives: one merge of all that was given
(`BuilderApi.Session.object_accretion`), and the list of what stood there in the beginning and of
what each call merged (`BuilderApi.Session.array_accretion`).

A run may have calls of any other accessors in between, as long as they do not write the property.
So the argument is about pairs of the calls made so far and the value that stands there: what a
writing call keeps true of them is true at the end of each run
(`BuilderApi.Session.Accretes.exists_callEach`). For objects it is kept because merging may be taken
up again from its result. For lists a single element is stored without its list, and what makes that
safe is that a merged element is an object: it is neither taken for a list nor for nothing when the
next call comes.
-/

namespace BuilderApi

/-! ### Runs -/

/-- A call of an accessor. -/
structure AccessorCall where
  /-- The accessor. -/
  member : Member
  /-- The arguments. -/
  args : List Arg

namespace AccessorCall

/-- The properties that the call writes. -/
def written (call : AccessorCall) : List String :=
  if call.member.reads call.args then [] else call.member.footprint

/-- Is it a call of the accessor of this name that writes? -/
def writes (name : String) (call : AccessorCall) : Bool :=
  call.member.name == name && !call.member.reads call.args

/-- The arguments of the writing calls of one accessor, call by call. -/
def history (name : String) (calls : List AccessorCall) : List (List Arg) :=
  (calls.filter (writes name)).map args

theorem history_cons_of_writes {name : String} {call : AccessorCall} (h : call.writes name = true)
    (rest : List AccessorCall) : history name (call :: rest) = call.args :: history name rest := by
  rw [history, List.filter_cons_of_pos h]
  rfl

theorem history_cons_of_not_writes {name : String} {call : AccessorCall}
    (h : call.writes name = false) (rest : List AccessorCall) :
    history name (call :: rest) = history name rest := by
  rw [history, List.filter_cons_of_neg (by simp [h])]
  rfl

end AccessorCall

namespace Session

/-- Makes calls one after another, each on the builder that the calls before it left. A call that
gives a value leaves the builder as it was. -/
def callEach (s : Session) (b : Builder) : List AccessorCall → Run Builder
  | [] => return b
  | call :: rest => do
    match ← s.call b call.member.name call.args with
    | .builder out => s.callEach out rest
    | .json _ => s.callEach b rest

variable {s : Session} {b : Builder} {member : Member} {args : List Arg} {accretion : Accretion}
  {name prop : String} {ext : Extension} {calls : List AccessorCall}

theorem outcome_callEach_of_reads (h : s.Offers b member) (hreads : member.reads args = true)
    (rest : List AccessorCall) (count : Nat) :
    (s.callEach b (⟨member, args⟩ :: rest)).outcome count =
      (s.callEach b rest).outcome ((s.call b member.name args).count count) := by
  rw [callEach, Run.outcome_bind, outcome_call h, effect, if_pos hreads]

theorem outcome_callEach_of_writes (h : s.Offers b member) (hreads : member.reads args = false)
    (rest : List AccessorCall) (count : Nat) :
    (s.callEach b (⟨member, args⟩ :: rest)).outcome count =
      (s.callEach (b.apply (s.assignments b member args)) rest).outcome
        ((s.call b member.name args).count count) := by
  rw [callEach, Run.outcome_bind, gives_of_not_reads h hreads]

/-- An entry has one accessor of a name. -/
theorem Offers.eq_of_name_eq {other : Member} (h : s.Offers b member) (hother : s.Offers b other)
    (hname : other.name = member.name) : other = member := by
  obtain ⟨spec, hspec, hmember, -⟩ := h
  obtain ⟨spec', hspec', hother, -⟩ := hother
  obtain rfl := Except.ok.inj (hspec.symm.trans hspec')
  exact Member.eq_of_mem_of_name_eq hother hmember hname

/-- A run of accessor calls around an extension that merges into a property. -/
structure Accretes (s : Session) (b : Builder) (accretion : Accretion) (name prop : String)
    (ext : Extension) (calls : List AccessorCall) : Prop where
  /-- The entry has the extension. -/
  offers : s.Offers b ⟨name, .extension ext⟩
  /-- It merges into the property in this way. -/
  binding : ext.binding = .merge accretion prop
  /-- Its fixed assignments do not set the property. -/
  set : prop ∉ Fields.names ext.set
  /-- The entry has the accessors that are called, and of them only the extension writes the
  property. -/
  calls : ∀ call ∈ calls, s.Offers b call.member ∧ (call.member.name = name ∨ prop ∉ call.written)

namespace Accretes

/-- What a writing call of the extension leaves in the property. -/
theorem get?_apply (h : s.Accretes b accretion name prop ext calls) (b' : Builder)
    (args : List Arg) :
    (b'.apply (s.assignments b' ⟨name, .extension ext⟩ args)).get? prop =
      some (s.stored b' prop ext.policy accretion (ext.given args)) := by
  have hassignments : s.assignments b' ⟨name, .extension ext⟩ args =
      (prop, s.stored b' prop ext.policy accretion (ext.given args)) :: ext.set := by
    simp [assignments, written, Member.target?, Member.set, h.binding, ExtBinding.prop?]
  rw [hassignments]
  change ((b'.put prop _).apply ext.set).get? prop = _
  rw [Builder.get?_apply_of_not_mem h.set]
  exact Fields.get?_put_self _ _ _

/-- **What a writing call keeps true, a run keeps true**: of the history of the extension and the
value of its property. A run does not fail. -/
theorem exists_callEach (invariant : List (List Arg) → Option Json → Prop)
    (h : s.Accretes b accretion name prop ext calls)
    (hstep : ∀ past (b' : Builder) args, invariant past (b'.get? prop) →
      invariant (past ++ [args]) (some (s.stored b' prop ext.policy accretion (ext.given args))))
    {past : List (List Arg)} (hpast : invariant past (b.get? prop)) (count : Nat) :
    ∃ out, (s.callEach b calls).outcome count = .ok out ∧
      invariant (past ++ AccessorCall.history name calls) (out.get? prop) := by
  induction calls generalizing b past count with
  | nil => exact ⟨b, rfl, by simpa [AccessorCall.history] using hpast⟩
  | cons call rest ih =>
    obtain ⟨member, args⟩ := call
    obtain ⟨⟨hmember, hothers⟩, hrest⟩ := List.forall_mem_cons.1 h.calls
    cases hreads : member.reads args with
    | true =>
      rw [outcome_callEach_of_reads hmember hreads,
        AccessorCall.history_cons_of_not_writes (by simp [AccessorCall.writes, hreads])]
      exact ih ⟨h.offers, h.binding, h.set, hrest⟩ hpast _
    | false =>
      have hnext :
          s.Accretes (b.apply (s.assignments b member args)) accretion name prop ext rest :=
        ⟨h.offers.of_entry_eq rfl, h.binding, h.set, fun call hcall =>
          ⟨(hrest call hcall).1.of_entry_eq rfl, (hrest call hcall).2⟩⟩
      rw [outcome_callEach_of_writes hmember hreads]
      by_cases hname : member.name = name
      · -- a call of the extension itself
        obtain rfl := h.offers.eq_of_name_eq hmember hname
        have hnow := hstep past b args hpast
        rw [← h.get?_apply b args] at hnow
        obtain ⟨out, hout, hinvariant⟩ := ih hnext hnow _
        rw [AccessorCall.history_cons_of_writes (by simp [AccessorCall.writes, hreads])]
        exact ⟨out, hout, by simpa using hinvariant⟩
      · -- a call of another accessor, which leaves the property alone
        have hprop : prop ∉ member.footprint := by
          simpa [AccessorCall.written, hreads] using hothers.resolve_left hname
        have hsame : (b.apply (s.assignments b member args)).get? prop = b.get? prop :=
          Builder.get?_apply_of_not_mem (names_assignments s b member args ▸ hprop)
        rw [AccessorCall.history_cons_of_not_writes (by simp [AccessorCall.writes, hname])]
        exact ih hnext (hsame ▸ hpast) _

end Accretes

/-! ### Accretion of objects -/

/-- What the property of an object accretion is after calls: as good as absent before the first one,
and then one merge of all that was given. -/
def ObjectAccrued (s : Session) (ext : Extension) (past : List (List Arg))
    (value : Option Json) : Prop :=
  (past = [] ∧ value.filter Json.truthy = none) ∨
    value = some (s.merge ext.policy (past.flatMap ext.given))

theorem ObjectAccrued.stored {past : List (List Arg)} (h : s.ObjectAccrued ext past (b.get? prop))
    (args : List Arg) :
    s.ObjectAccrued ext (past ++ [args])
      (some (s.stored b prop ext.policy .object (ext.given args))) := by
  right
  rw [List.flatMap_append, List.flatMap_singleton, Session.stored, standing]
  rcases h with ⟨rfl, hnone⟩ | hmerged
  · rw [hnone]
    rfl
  · -- what was merged is an object, so it stands
    have hstands :
        (b.get? prop).filter Json.truthy = some (s.merge ext.policy (past.flatMap ext.given)) := by
      rw [hmerged]
      rfl
    rw [hstands, Option.toList_some, List.map_singleton, List.singleton_append, merge_merge_append]

/-- **Object accretion is merging everything at once**: after a run the property is one merge of
what all writing calls of the extension gave, as if there had been one call. The law behind it is
that merging may be taken up again from its result, and leaves the names in the same order. -/
theorem object_accretion (h : s.Accretes b .object name prop ext calls)
    (habsent : standing b prop = none) (hwrites : AccessorCall.history name calls ≠ [])
    (count : Nat) :
    (∃ out, (s.callEach b calls).outcome count = .ok out ∧ out.get? prop =
      some (s.merge ext.policy ((AccessorCall.history name calls).flatMap ext.given))) ∧
    ∀ policy values more, s.merge policy (.json (s.merge policy values) :: more) =
      s.merge policy (values ++ more) := by
  refine ⟨?_, s.merge_merge_append⟩
  obtain ⟨out, hout, haccrued⟩ :=
    h.exists_callEach (s.ObjectAccrued ext) 
          (fun _ _ args hpast => hpast.stored args) (.inl ⟨rfl, habsent⟩) count
  exact ⟨out, hout, haccrued.resolve_left fun hnone => hwrites hnone.1⟩

/-- Two calls that merge, with a read and a call of another accessor between them. -/
def encodeCalls : List AccessorCall :=
  [⟨⟨"encode", .extension encodeExtension⟩,
    [.json (.obj [("x", .null), ("y", .arr [.bool true])])]⟩,
    ⟨⟨"encode", .extension encodeExtension⟩, []⟩,
    ⟨⟨"width", .property .null false⟩, [.json (.str "wide")]⟩,
    ⟨⟨"encode", .extension encodeExtension⟩,
      [.json (.obj [("z", .str "log")]), .json (.obj [("y", .arr [.null])])]⟩]

theorem accretes_encodeCalls :
    plotSession.Accretes (.empty "plot") .object "encode" "encoding" encodeExtension encodeCalls
    where
  offers := offers_encode
  binding := rfl
  set := by decide
  calls := by
    simp [encodeCalls, offers_encode, offers_width, AccessorCall.written, Member.reads,
      Member.footprint, Member.target?,
      Member.set, Fields.names]

/-- The arrays of both calls are joined, and the name of the first one stays in front. -/
theorem object_accretion_encodeCalls :
    (∃ out, (plotSession.callEach (.empty "plot") encodeCalls).outcome 0 = .ok out ∧
      out.get? "encoding" = some (.obj [("y", .arr [.bool true, .null]), ("z", .str "log")])) ∧
    ∀ policy values more,
      plotSession.merge policy (.json (plotSession.merge policy values) :: more) =
      plotSession.merge policy (values ++ more) :=
  object_accretion accretes_encodeCalls rfl (by decide) 0

/-! ### Accretion of lists -/

/-- The list that a property holds: nothing if it is as good as absent, the elements of an array, or
the one value. -/
def held (value : Option Json) : List Json :=
  match value.filter Json.truthy with
  | some (.arr items) => items
  | some value => [value]
  | none => []

/-- **A stored list is read back**, with its list or without it, if its last element is an
object. -/
theorem held_unwrap (items : List Json) (members : Fields Json) :
    held (some (unwrap (items ++ [.obj members]))) = items ++ [.obj members] := by
  match items with
  | [] => rfl
  | [_] => rfl
  | _ :: _ :: _ => rfl

/-- What the property of a list accretion is after calls, from what it held in the beginning: it
holds what each call merged behind that, and is stored as a call stores it. -/
structure ArrayAccrued (s : Session) (ext : Extension) (base : List Json) (past : List (List Arg))
    (value : Option Json) : Prop where
  /-- It holds what each call merged behind what was there. -/
  held : held value = base ++ past.map fun args => s.merge ext.policy (ext.given args)
  /-- A call has stored it. -/
  stored : past ≠ [] → value =
    some (unwrap (base ++ past.map fun args => s.merge ext.policy (ext.given args)))

theorem ArrayAccrued.step {base : List Json} {past : List (List Arg)}
    (h : s.ArrayAccrued ext base past (b.get? prop)) (args : List Arg) :
    s.ArrayAccrued ext base (past ++ [args])
      (some (s.stored b prop ext.policy .array (ext.given args))) := by
  have hstored : s.stored b prop ext.policy .array (ext.given args) =
      unwrap (base ++ (past ++ [args]).map fun args => s.merge ext.policy (ext.given args)) := by
    change unwrap (Session.held (b.get? prop) ++ [s.merge ext.policy (ext.given args)]) = _
    rw [h.held, List.map_append, List.map_singleton, List.append_assoc]
  rw [hstored]
  refine ⟨?_, fun _ => rfl⟩
  rw [List.map_append, List.map_singleton, ← List.append_assoc]
  exact held_unwrap _ _

/-- **Array accretion keeps the history of calls**: after a run the property is the list of what it
held in the beginning and of what each writing call of the extension merged, in their order, without
the list if it has one element. Read back, it holds just that. -/
theorem array_accretion (h : s.Accretes b .array name prop ext calls)
    (hwrites : AccessorCall.history name calls ≠ []) (count : Nat) :
    let entries := held (b.get? prop) ++
      (AccessorCall.history name calls).map fun args => s.merge ext.policy (ext.given args)
    ∃ out, (s.callEach b calls).outcome count = .ok out ∧ out.get? prop = some (unwrap entries) ∧
      held (out.get? prop) = entries := by
  intro entries
  have hbase : s.ArrayAccrued ext (held (b.get? prop)) [] (b.get? prop) :=
    ⟨(List.append_nil _).symm, fun h => absurd rfl h⟩
  obtain ⟨out, hout, haccrued⟩ := h.exists_callEach (s.ArrayAccrued ext (held (b.get? prop)))
    (fun _ _ args hpast => hpast.step args) hbase count
  exact ⟨out, hout, haccrued.stored hwrites, haccrued.held⟩

/-- An extension that keeps a list of what it merges, with a literal in front of each. -/
def layerExtension : Extension :=
  ⟨.merge .array "layer", some (.obj [("mark", .str "line")]), none, .replace, [], none⟩

/-- A session with that extension. -/
def layerSession : Session :=
  ⟨[("stack", .method { (default : MethodSpec) with ext := [("add", some layerExtension)] })], [],
    []⟩

/-- Two calls of the extension, the second one without arguments. -/
def layerCalls : List AccessorCall :=
  [⟨⟨"add", .extension layerExtension⟩, [.json (.obj [("mark", .str "bar")])]⟩,
    ⟨⟨"add", .extension layerExtension⟩, []⟩]

theorem accretes_layerCalls :
    layerSession.Accretes (.empty "stack") .array "add" "layer" layerExtension layerCalls where
  offers := ⟨_, rfl, .head _, rfl⟩
  binding := rfl
  set := by decide
  calls := by
    have hoffers : layerSession.Offers (.empty "stack") ⟨"add", .extension layerExtension⟩ :=
      ⟨_, rfl, .head _, rfl⟩
    simp [layerCalls, hoffers]

/-- The object that the first call leaves alone is the first element after the second one. -/
theorem array_accretion_layerCalls :
    let entries := [Json.obj [("mark", .str "bar")], .obj [("mark", .str "line")]]
    ∃ out, (layerSession.callEach (.empty "stack") layerCalls).outcome 0 = .ok out ∧
      out.get? "layer" = some (.arr entries) ∧ held (out.get? "layer") = entries :=
  array_accretion accretes_layerCalls (by decide) 0

end Session

end BuilderApi
