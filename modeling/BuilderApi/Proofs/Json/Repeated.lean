import BuilderApi.Proofs.Json.Settled

/-!
# Merging the same again

Under the replacing policy an argument that is merged twice in a row leaves what it leaves once,
with the same order of members at every depth (`BuilderApi.Session.merge_idempotent_ordered`). Name
by name there are two cases. If one of the values that are given for the name is no object, it wipes
out what was there before it, so it does not matter what that was
(`BuilderApi.Json.settled_eq_of_not_obj`). If all of them are objects, their members are merged one
level down, and the law is that of the members there.

What stands in the way is that an object is merged into another one member by member, and null
members are skipped, but where nothing stands it is put as it is, null members included. The two
agree the second time, since an object that is merged into itself stays as it is
(`BuilderApi.Json.mergeMembers_self`).
-/

namespace BuilderApi

namespace Json

variable {members : Fields Json} {values : List Json}

theorem sizeOf_lt_of_mem {field : String × Json} (h : field ∈ members) :
    sizeOf field.2 < sizeOf members := by
  obtain ⟨name, value⟩ := field
  have hsize := List.sizeOf_lt_of_mem h
  simp only [Prod.mk.sizeOf_spec] at hsize
  dsimp only
  omega

theorem combined_of_not_obj {value : Json} (h : value.isObj = false) (old : Option Json) :
    combined .replace old value = value :=
  combined_eq_self (fun hobj => absurd hobj (by simp [h])) nofun

/-- **A value that is no object wipes out what stood before it.** -/
theorem settled_eq_of_not_obj (h : ∃ value ∈ values, value.isObj = false) (old old' : Option Json) :
    settled .replace old values = settled .replace old' values := by
  obtain ⟨value, hvalue, hobj⟩ := h
  obtain ⟨front, back, rfl⟩ := List.append_of_mem hvalue
  rw [settled_append, settled_append, settled_cons, settled_cons, combined_of_not_obj hobj,
    combined_of_not_obj hobj]

/-- Objects that are combined with an object are merged into it, one level down. -/
theorem settled_of_obj {policy : MergePolicy} (h : ∀ value ∈ values, value.isObj = true)
    (old : Fields Json) :
    settled policy (some (.obj old)) values =
      some (.obj (mergeMembers policy old (values.flatMap ownMembers))) := by
  induction values generalizing old with
  | nil => rw [List.flatMap_nil, mergeMembers]; rfl
  | cons value rest ih =>
    obtain ⟨hvalue, hrest⟩ := List.forall_mem_cons.1 h
    cases value with
    | obj members =>
      rw [settled_cons, combined, ih hrest, List.flatMap_cons, mergeMembers_append]
      rfl
    | _ => cases hvalue

/-- **An object that is merged into itself stays as it is.** -/
theorem mergeMembers_self (h : (Json.obj members).isKeyed = true) :
    mergeMembers .replace members members = members := by
  induction hn : sizeOf members using Nat.strongRecOn generalizing members with
  | _ n ih =>
  refine mergeMembers_eq_self fun name => ?_
  rw [get?_mergeMembers, given_of_nodup (isKeyed_obj.1 h).1]
  cases hget : members.get? name with
  | none => rfl
  | some value =>
    cases value with
    | obj inner =>
      have hmem := Fields.mem_of_get? hget
      have hlt : sizeOf inner < n := by
        have hsize := sizeOf_lt_of_mem hmem
        simp only [Json.obj.sizeOf_spec] at hsize
        omega
      change some (combined .replace (some (.obj inner)) (.obj inner)) = _
      rw [combined, ih _ hlt ((isKeyed_obj.1 h).2 _ hmem) rfl]
    | _ => rfl

/-- What repeated values leave under a name, if merging all of their members again changes
nothing. -/
theorem settled_settled (hkeyed : ∀ value ∈ values, value.isKeyed = true)
    (hagain : ∀ target,
      mergeMembers .replace (mergeMembers .replace target (values.flatMap ownMembers))
      (values.flatMap ownMembers) = mergeMembers .replace target (values.flatMap ownMembers)) (old :
      Option Json) :
    settled .replace (settled .replace old values) values = settled .replace old values := by
  by_cases hobj : ∀ value ∈ values, value.isObj = true
  · have hinto : ∀ target, settled .replace (settled .replace (some (.obj target)) values) values =
        settled .replace (some (.obj target)) values := by
      intro target
      rw [settled_of_obj hobj, settled_of_obj hobj, hagain]
    cases values with
    | nil => rfl
    | cons value rest =>
      obtain ⟨hvalue, hrest⟩ := List.forall_mem_cons.1 hobj
      cases value with
      | obj members =>
        by_cases hold : old.any isObj = true
        · obtain ⟨target, rfl⟩ := any_isObj_iff.1 hold
          exact hinto target
        · -- the first object is put as it is, which is as if it had been merged into itself
          have hput : combined .replace old (.obj members) = .obj members :=
            combined_eq_self (fun _ => by simpa using hold) nofun
          have hfirst : settled .replace old (.obj members :: rest) =
              settled .replace (some (.obj members)) (.obj members :: rest) := by
            rw [settled_cons, settled_cons, hput, combined,
              mergeMembers_self (hkeyed _ List.mem_cons_self)]
          rw [hfirst, hinto]
      | _ => cases hvalue
  · refine settled_eq_of_not_obj ?_ _ _
    simpa using hobj

/-- **Merging the same members again changes nothing.** The induction is on a bound for the sizes of
the values, since the members one level down come from several of them. -/
theorem mergeMembers_mergeMembers (h : ∀ field ∈ members, field.2.isKeyed = true)
    (target : Fields Json) :
    mergeMembers .replace (mergeMembers .replace target members) members =
      mergeMembers .replace target members := by
  suffices hbound : ∀ n, ∀ members : Fields Json,
      (∀ field ∈ members, sizeOf field.2 < n ∧ field.2.isKeyed = true) →
      ∀ target, mergeMembers .replace (mergeMembers .replace target members) members =
        mergeMembers .replace target members by
    exact hbound (sizeOf members) members (fun field hfield =>
      ⟨sizeOf_lt_of_mem hfield, h field hfield⟩) target
  intro n
  induction n with
  | zero =>
    intro members hmembers target
    cases members with
    | nil => simp only [mergeMembers]
    | cons field rest => exact absurd (hmembers field List.mem_cons_self).1 (Nat.not_lt_zero _)
  | succ n ih =>
    intro members hmembers target
    refine mergeMembers_eq_self fun name => ?_
    rw [get?_mergeMembers, get?_mergeMembers]
    refine settled_settled (fun value hvalue => ?_) (ih _ fun field hfield => ?_) _
    · exact (hmembers _ (mem_given_iff.1 hvalue).1).2
    · -- a member one level down belongs to an object that is given for the name
      obtain ⟨value, hvalue, hfield⟩ := List.mem_flatMap.1 hfield
      obtain ⟨hsize, hkeyed⟩ := hmembers _ (mem_given_iff.1 hvalue).1
      cases value with
      | obj inner =>
        have hlt : sizeOf field.2 < sizeOf inner := sizeOf_lt_of_mem hfield
        refine ⟨?_, (isKeyed_obj.1 hkeyed).2 _ hfield⟩
        simp only [Json.obj.sizeOf_spec] at hsize
        omega
      | _ => cases hfield

end Json

namespace Session

/-- **Merging is idempotent in its last argument and keeps names in the order in which they first
occur.** Under the replacing policy an argument that is given twice in a row leaves what it leaves
once, whatever was merged before it; as any value that is read, it names no member twice. And under
either policy the names that merging leaves are those of the members of the merged objects that are
not null, each in the place of its first occurrence, and none of their values is null. -/
theorem merge_idempotent_ordered (s : Session) :
    (∀ args w, (s.value false w).isKeyed = true →
      s.merge .replace (args ++ [w, w]) = s.merge .replace (args ++ [w])) ∧
    ∀ policy args, ∃ members, s.merge policy args = .obj members ∧
      Fields.names members = (Fields.names (Json.present (s.contributed policy args))).eraseDups ∧
      ∀ field ∈ members, field.2 ≠ .null := by
  refine ⟨fun args w hw => ?_, fun policy args => ⟨_, s.merge_eq_mergeMembers policy args, ?_, ?_⟩⟩
  · have hkeyed : ∀ arg ∈ [w], (s.value (MergePolicy.replace == .concat) arg).isKeyed = true :=
      List.forall_mem_singleton.2 hw
    have hagain := Json.mergeMembers_mergeMembers (isKeyed_contributed hkeyed)
    have hsplit : args ++ [w, w] = (args ++ [w]) ++ [w] := by simp
    rw [merge_eq_mergeMembers, merge_eq_mergeMembers, hsplit, contributed_append (args ++ [w]),
      contributed_append, Json.mergeMembers_append, Json.mergeMembers_append, hagain]
  · exact @Json.names_mergeMembers policy [] List.nodup_nil _
  · exact (Json.Merged.nil.mergeMembers _).ne_null

/-- Two objects, the second of which has what the first one leaves out. -/
def markParts : Json :=
  .arr [.obj [("mark", .obj [("type", .str "bar"), ("size", .null)])],
    .obj [("width", .null), ("mark", .obj [("size", .bool true), ("type", .null)])]]

/-- A builder whose property is merged with them. -/
def markBuilder : Builder := ⟨"plot", [("title", .str "a"), ("mark", .str "point")], []⟩

/-- The object is put as it is the first time, with its null member in place, and merged the second
time. -/
theorem merge_idempotent_ordered_marks :
    let s : Session := ⟨[], [], []⟩
    markParts.isKeyed = true ∧
    s.merge .replace [.builder markBuilder, .json markParts] =
      .obj [("title", .str "a"), ("mark", .obj [("type", .str "bar"), ("size", .bool true)])] ∧
    s.merge .replace [.builder markBuilder, .json markParts, .json markParts] =
      s.merge .replace [.builder markBuilder, .json markParts] ∧
    ∃ members, s.merge .concat [.builder markBuilder, .json markParts] = .obj members ∧
      Fields.names members = ["title", "mark"] ∧ ∀ field ∈ members, field.2 ≠ .null := by
  intro s
  have hkeyed : markParts.isKeyed = true := by decide
  obtain ⟨hagain, hordered⟩ := merge_idempotent_ordered s
  exact ⟨hkeyed, by cbv, hagain [.builder markBuilder] (.json markParts) hkeyed,
    hordered .concat [.builder markBuilder, .json markParts]⟩

end Session

end BuilderApi
