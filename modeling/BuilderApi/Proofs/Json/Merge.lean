import BuilderApi.Builder.Basic
import BuilderApi.Proofs.Fields

/-!
# Merging what was merged

What merging leaves is an object in which no name is repeated and no value is null
(`BuilderApi.Json.merged_foldl`). Such an object goes into empty fields member by member and comes
out as it was (`BuilderApi.Json.Merged.mergeMembers_append`), under either policy: the policies
differ only where a name is there already, and a null, which merging skips, is not there any more.
So merging may be interrupted at any place and taken up again from its result
(`BuilderApi.Session.merge_merge_append`), and the order of the names is that of one merge.

The values below the top are not asked for: they go in and come out whole.
-/

namespace BuilderApi

namespace Json

variable {policy : MergePolicy} {target members : Fields Json}

/-! ### What a member does to the fields -/

/-- What a value leaves under a name where something, or nothing, stands already: two objects are
merged, the joining policy appends an array to an array, and otherwise the value takes the place as
it is. -/
def combined : MergePolicy → Option Json → Json → Json
  | policy, some (.obj old), .obj members => .obj (mergeMembers policy old members)
  | .concat, some (.arr old), .arr items => .arr (old ++ items)
  | _, _, value => value

theorem any_isObj_iff {old : Option Json} :
    old.any isObj = true ↔ ∃ members, old = some (.obj members) := by
  cases old with
  | none => simp
  | some value => cases value <;> simp [isObj]

theorem any_isArr_iff {old : Option Json} :
    old.any isArr = true ↔ ∃ items, old = some (.arr items) := by
  cases old with
  | none => simp
  | some value => cases value <;> simp [isArr]

/-- Unless an object stands where another one comes, or an array that is joined, a value takes the
place as it is. -/
theorem combined_eq_self {old : Option Json} {value : Json}
    (hobj : value.isObj = true → old.any isObj = false)
    (harr : policy = .concat → value.isArr = true → old.any isArr = false) :
    combined policy old value = value := by
  unfold combined
  split
  · exact absurd (hobj rfl) (by simp [isObj])
  · exact absurd (harr rfl rfl) (by simp [isArr])
  · rfl

theorem combined_ne_null {old : Option Json} {value : Json} (h : value ≠ .null) :
    combined policy old value ≠ .null := by
  unfold combined
  split
  · exact nofun
  · exact nofun
  · exact h

@[simp] theorem mergeMember_null (name : String) :
    mergeMember policy target name .null = target := by
  rw [mergeMember]

/-- A value that is not null is put under its name, combined with the one that is there. -/
theorem mergeMember_eq_put {name : String} {value : Json} (h : value ≠ .null) :
    mergeMember policy target name value =
      target.put name (combined policy (target.get? name) value) := by
  cases value with
  | null => exact absurd rfl h
  | bool | num | str => rw [mergeMember, combined] <;> exact nofun
  | arr items =>
    unfold mergeMember combined
    cases policy <;> split <;> simp_all
  | obj fields =>
    unfold mergeMember combined
    split <;> simp_all

/-- Under a new name a value goes to the end as it is. -/
theorem mergeMember_of_not_mem {name : String} {value : Json} (hname : name ∉ Fields.names target)
    (h : value ≠ .null) : mergeMember policy target name value = target ++ [(name, value)] := by
  have hnone : Fields.get? target name = none := Fields.get?_eq_none_iff.2 hname
  rw [mergeMember_eq_put h, hnone, Fields.put_of_not_mem hname,
    combined_eq_self (fun _ => rfl) fun _ _ => rfl]

/-! ### What merging leaves -/

/-- Fields as merging leaves them. -/
structure Merged (fields : Fields Json) : Prop where
  /-- No name is repeated. -/
  nodup : (Fields.names fields).Nodup
  /-- No value is null. -/
  ne_null : ∀ field ∈ fields, field.2 ≠ .null

theorem Merged.nil : Merged [] := ⟨List.nodup_nil, nofun⟩

theorem Merged.mergeMember (h : Merged target) (name : String) (value : Json) :
    Merged (mergeMember policy target name value) := by
  by_cases hnull : value = .null
  · rw [hnull, mergeMember_null]
    exact h
  · rw [mergeMember_eq_put hnull]
    refine ⟨Fields.nodup_names_put h.nodup _ _, fun field hfield => ?_⟩
    rcases Fields.mem_put hfield with hfield | rfl
    · exact h.ne_null field hfield
    · exact combined_ne_null hnull

theorem Merged.mergeMembers (h : Merged target) (members : Fields Json) :
    Merged (mergeMembers policy target members) := by
  induction members generalizing target with
  | nil => rwa [Json.mergeMembers]
  | cons field rest ih =>
    rw [Json.mergeMembers]
    exact ih (h.mergeMember field.1 field.2)

theorem Merged.mergeInto (h : Merged target) (value : Json) :
    Merged (mergeInto policy target value) := by
  cases value with
  | obj members => exact h.mergeMembers members
  | _ => exact h

/-- **Merging leaves no repeated name and no null.** -/
theorem merged_foldl (policy : MergePolicy) (values : List Json) :
    Merged (values.foldl (mergeInto policy) []) :=
  List.foldlRecOn values _ Merged.nil fun _ h value _ => h.mergeInto value

/-! ### Merging again -/

/-- **Merged fields go behind others as they are**, if the names are different. -/
theorem Merged.mergeMembers_append (h : Merged (target ++ members)) :
    Json.mergeMembers policy target members = target ++ members := by
  induction members generalizing target with
  | nil => rw [Json.mergeMembers, List.append_nil]
  | cons field rest ih =>
    obtain ⟨name, value⟩ := field
    have hname : name ∉ Fields.names target := by
      intro hmem
      have hnodup := h.nodup
      rw [Fields.names, List.map_append, List.nodup_append] at hnodup
      exact hnodup.2.2 name hmem name List.mem_cons_self rfl
    have hvalue : value ≠ .null := h.ne_null (name, value) (by simp)
    rw [Json.mergeMembers, mergeMember_of_not_mem hname hvalue, ih (by simpa using h),
      List.append_assoc, List.singleton_append]

/-- A merge may be taken up again from its result. -/
theorem mergeAll_mergeAll_append (policy : MergePolicy) (values more : List Json) :
    mergeAll policy (mergeAll policy values :: more) = mergeAll policy (values ++ more) := by
  have hagain : mergeInto policy [] (mergeAll policy values) = values.foldl (mergeInto policy) [] :=
    Merged.mergeMembers_append (merged_foldl policy values)
  unfold mergeAll at hagain ⊢
  rw [List.foldl_cons, hagain, List.foldl_append]

end Json

namespace Session

/-- **Merging what was merged with more is merging everything at once.** -/
theorem merge_merge_append (s : Session) (policy : MergePolicy) (values more : List Arg) :
    s.merge policy (.json (s.merge policy values) :: more) = s.merge policy (values ++ more) := by
  unfold merge
  rw [List.flatMap_cons, List.flatMap_append]
  exact Json.mergeAll_mergeAll_append policy _ _

end Session

end BuilderApi
