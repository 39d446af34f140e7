import BuilderApi.Proofs.Fields
import BuilderApi.Table.Member

/-!
# The plan names every member once

Placing a name takes it away from whoever had it, so the fields that are placed never repeat one
(`BuilderApi.Member.nodup_names_placeAll`). Hence the plan is a list of members with different names
(`BuilderApi.Member.nodup_plan`), a member is found under its own name, and the members in
documentation order are those of the plan with strictly increasing names.
-/

namespace BuilderApi

namespace Member

variable (spec : MethodSpec) (shape : Properties)

/-! ### Placing names -/

theorem nodup_names_place {plan : Fields MemberKind} (h : (Fields.names plan).Nodup) (name : String)
    (kind : MemberKind) : (Fields.names (place plan name kind)).Nodup := by
  -- the name is taken away before it is put at the end
  have herase : (Fields.names (plan.erase name)).Nodup :=
    h.sublist (List.filter_sublist.map Prod.fst)
  rw [place, Fields.names, List.map_append, List.nodup_append]
  refine ⟨herase, by simp, ?_⟩
  rintro other hother name' hname' rfl
  obtain ⟨field, hfield, rfl⟩ := List.mem_map.1 hother
  have hne : field.1 ≠ name := by simpa using (List.mem_filter.1 hfield).2
  simp [hne] at hname'

theorem nodup_names_placeAll {plan : Fields MemberKind} (h : (Fields.names plan).Nodup)
    (kinds : Fields MemberKind) : (Fields.names (placeAll plan kinds)).Nodup := by
  induction kinds generalizing plan with
  | nil => exact h
  | cons field rest ih => exact ih (nodup_names_place h field.1 field.2)

theorem mem_of_mem_placeAll {kinds plan : Fields MemberKind} {field : String × MemberKind}
    (h : field ∈ placeAll plan kinds) : field ∈ plan ∨ field ∈ kinds := by
  induction kinds generalizing plan with
  | nil => exact .inl h
  | cons kind kinds ih =>
    rcases ih h with h | h
    · rcases List.mem_append.1 h with h | h
      · exact .inl (List.mem_of_mem_filter h)
      · exact .inr (List.mem_cons.2 (.inl (List.mem_singleton.1 h)))
    · exact .inr (List.mem_cons_of_mem _ h)

/-! ### The plan -/

/-- The names of the members, in generation order. -/
def names : List String := (plan spec shape).map Member.name

/-- **No two members share a name.** -/
theorem nodup_plan : (names spec shape).Nodup := by
  unfold names plan
  split
  · simp
  · have hnil : (Fields.names ([] : Fields MemberKind)).Nodup := by simp [Fields.names]
    have h := nodup_names_placeAll hnil (properties spec shape ++ declared .extension spec.ext ++
      declared .delegation spec.pass ++ declared .invocation spec.call)
    simpa [Fields.names, List.map_map, Function.comp_def] using h

variable {spec shape}

theorem plan_of_isProxy (h : spec.isProxy = true) : plan spec shape = [] := by
  simp [plan, h]

/-- The shape has the property, or the entry declares the member. -/
def IsFrom (spec : MethodSpec) (shape : Properties) (member : Member) : Prop :=
  match member.kind with
  | .property schema _ => (member.name, schema) ∈ shape
  | .extension ext => (member.name, some ext) ∈ spec.ext
  | .delegation pass => (member.name, some pass) ∈ spec.pass
  | .invocation call => (member.name, some call) ∈ spec.call

/-- **A member comes from the shape or from the entry**, according to its kind. -/
theorem isFrom_of_mem_plan {member : Member} (h : member ∈ plan spec shape) :
    member.IsFrom spec shape := by
  unfold plan at h
  split at h
  · cases h
  · obtain ⟨⟨name, kind⟩, hplaced, rfl⟩ := List.mem_map.1 h
    have hkinds := (mem_of_mem_placeAll hplaced).resolve_left List.not_mem_nil
    simp only [List.mem_append, properties, declared, List.mem_map, List.mem_filter,
      List.mem_filterMap, Option.map_eq_some_iff] at hkinds
    rcases hkinds with ((⟨⟨_, schema⟩, ⟨hfield, -⟩, heq⟩ | ⟨⟨_, _⟩, hfield, ext, rfl, heq⟩) |
      ⟨⟨_, _⟩, hfield, pass, rfl, heq⟩) | ⟨⟨_, _⟩, hfield, call, rfl,
      heq⟩ <;> cases heq <;> exact hfield

/-- Members of one plan that share a name are the same. -/
theorem eq_of_mem_of_name_eq {a b : Member} (ha : a ∈ plan spec shape) (hb : b ∈ plan spec shape)
    (h : a.name = b.name) : a = b :=
  List.inj_on_of_nodup_map (nodup_plan spec shape) ha hb h

theorem find_eq_none_iff {name : String} :
    find spec shape name = none ↔ name ∉ names spec shape := by
  simp [find, names]

theorem find_of_mem {member : Member} (h : member ∈ plan spec shape) :
    find spec shape member.name = some member := by
  cases hfind : find spec shape member.name with
  | none => exact absurd (List.mem_map_of_mem h) (find_eq_none_iff.1 hfind)
  | some other =>
    have hname : other.name = member.name := by simpa using List.find?_some hfind
    rw [eq_of_mem_of_name_eq (List.mem_of_find?_eq_some hfind) h hname]

/-! ### Documentation order -/

theorem sorted_perm : (sorted spec shape).Perm (plan spec shape) := List.mergeSort_perm _ _

/-- **In documentation order the names strictly increase.** -/
theorem pairwise_sorted : ((sorted spec shape).map Member.name).Pairwise (· < ·) := by
  have hle : (sorted spec shape).Pairwise fun a b => decide (a.name ≤ b.name) = true := by
    refine List.pairwise_mergeSort ?_ ?_ _
    · simpa using fun a b c : Member => String.le_trans
    · simpa using fun a b : Member => String.le_total a.name b.name
  -- sorted names that do not repeat increase strictly
  have hne : ((sorted spec shape).map Member.name).Nodup :=
    (sorted_perm.map Member.name).nodup_iff.2 (nodup_plan spec shape)
  rw [List.pairwise_map]
  refine (hle.and (List.pairwise_map.1 hne)).imp fun {a b} ⟨hab, hne⟩ => ?_
  exact String.not_le.1 fun hba => hne (String.le_antisymm (of_decide_eq_true hab) hba)

end Member

end BuilderApi
