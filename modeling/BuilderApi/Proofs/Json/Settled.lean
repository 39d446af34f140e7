import BuilderApi.Proofs.Json.Keyed
import BuilderApi.Proofs.Json.Merge

/-!
# What merging leaves under each name

Merging skips the members that are null. Of the others each is put under its name
(`BuilderApi.Json.exists_mergeMembers_eq_putAll`), so the names that were there keep their places,
and the new ones come behind them in the order in which they first occur.

The value under a name depends on what stood there and on what was given for this name, and on
nothing else (`BuilderApi.Json.get?_mergeMembers`): the given values are combined with it one after
another (`BuilderApi.Json.settled`). So a law of merging is one of such values, name by name.
-/

namespace BuilderApi

namespace Json

variable {policy : MergePolicy} {target members : Fields Json} {name : String} {value : Json}

/-! ### Members that are not null -/

theorem isNull_eq_false_iff : value.isNull = false ↔ value ≠ .null := by
  cases value <;> simp [isNull]

/-- The members that merging does not skip. -/
def present (members : Fields Json) : Fields Json := members.filter fun field => !field.2.isNull

@[simp] theorem present_cons_null (name : String) (rest : Fields Json) :
    present ((name, .null) :: rest) = present rest := rfl

theorem present_cons_of_ne_null (h : value ≠ .null) (rest : Fields Json) :
    present ((name, value) :: rest) = (name, value) :: present rest :=
  List.filter_cons_of_pos (by simp [isNull_eq_false_iff.2 h])

theorem mem_present_iff {field : String × Json} :
    field ∈ present members ↔ field ∈ members ∧ field.2 ≠ .null := by
  simp [present, isNull_eq_false_iff]

/-- **Members that are null are skipped.** -/
theorem mergeMembers_present (policy : MergePolicy) (target members : Fields Json) :
    mergeMembers policy target (present members) = mergeMembers policy target members := by
  induction members generalizing target with
  | nil => rfl
  | cons field rest ih =>
    obtain ⟨name, value⟩ := field
    by_cases hnull : value = .null
    · rw [hnull, present_cons_null, ih, mergeMembers, mergeMember_null]
    · rw [present_cons_of_ne_null hnull, mergeMembers, mergeMembers, ih]

/-- Members are merged in two turns. -/
theorem mergeMembers_append (policy : MergePolicy) (target members more : Fields Json) :
    mergeMembers policy target (members ++ more) =
      mergeMembers policy (mergeMembers policy target members) more := by
  induction members generalizing target with
  | nil => rw [mergeMembers, List.nil_append]
  | cons field rest ih => rw [List.cons_append, mergeMembers, mergeMembers, ih]

/-! ### Names -/

/-- **Merging puts a value under the name of each member** that is not null. -/
theorem exists_mergeMembers_eq_putAll (policy : MergePolicy) (target members : Fields Json) :
    ∃ pairs, Fields.names pairs = Fields.names (present members) ∧
      mergeMembers policy target members = target.putAll pairs := by
  induction members generalizing target with
  | nil => exact ⟨[], rfl, by rw [mergeMembers]; rfl⟩
  | cons field rest ih =>
    obtain ⟨name, value⟩ := field
    obtain ⟨pairs, hnames, hpairs⟩ := ih (mergeMember policy target name value)
    rw [mergeMembers, hpairs]
    by_cases hnull : value = .null
    · exact ⟨pairs, by rw [hnames, hnull, present_cons_null], by rw [hnull, mergeMember_null]⟩
    · refine ⟨(name, combined policy (target.get? name) value) :: pairs, ?_, ?_⟩
      · rw [present_cons_of_ne_null hnull]
        exact congrArg (name :: ·) hnames
      · rw [mergeMember_eq_put hnull, Fields.putAll_cons]

theorem names_mergeMembers (h : (Fields.names target).Nodup) (members : Fields Json) :
    Fields.names (mergeMembers policy target members) =
      (Fields.names target ++ Fields.names (present members)).eraseDups := by
  obtain ⟨pairs, hnames, hpairs⟩ := exists_mergeMembers_eq_putAll policy target members
  rw [hpairs, Fields.names_putAll h, hnames]

/-- **Members that change no value change nothing.** -/
theorem mergeMembers_eq_self
    (h : ∀ name, (mergeMembers policy target members).get? name = target.get? name) :
    mergeMembers policy target members = target := by
  obtain ⟨pairs, -, hpairs⟩ := exists_mergeMembers_eq_putAll policy target members
  rw [hpairs] at h ⊢
  exact Fields.putAll_eq_self h

/-! ### Values -/

/-- The values that members give for a name, those that are null left out. -/
def given (name : String) (members : Fields Json) : List Json :=
  ((present members).filter fun field => field.1 == name).map Prod.snd

/-- What values leave where this stands, if they are combined with it one after another. -/
def settled (policy : MergePolicy) (old : Option Json) (values : List Json) : Option Json :=
  values.foldl (fun old value => some (combined policy old value)) old

@[simp] theorem settled_cons (old : Option Json) (value : Json) (values : List Json) :
    settled policy old (value :: values) =
      settled policy (some (combined policy old value)) values := rfl

/-- Values settle in two turns. -/
theorem settled_append (old : Option Json) (values more : List Json) :
    settled policy old (values ++ more) = settled policy (settled policy old values) more :=
  List.foldl_append

theorem mem_given_iff : value ∈ given name members ↔ (name, value) ∈ members ∧ value ≠ .null := by
  simp [given, mem_present_iff]

@[simp] theorem given_cons_null (other : String) (rest : Fields Json) :
    given name ((other, .null) :: rest) = given name rest := rfl

theorem given_cons_self (h : value ≠ .null) (rest : Fields Json) :
    given name ((name, value) :: rest) = value :: given name rest := by
  rw [given, present_cons_of_ne_null h, List.filter_cons_of_pos (by simp), List.map_cons, ← given]

theorem given_cons_of_ne {other : String} (h : other ≠ name) (value : Json) (rest : Fields Json) :
    given name ((other, value) :: rest) = given name rest := by
  by_cases hnull : value = .null
  · rw [hnull, given_cons_null]
  · rw [given, present_cons_of_ne_null hnull, List.filter_cons_of_neg (by simpa using h), ← given]

/-- **The value under a name** is what stood there, combined with what is given for the name. -/
theorem get?_mergeMembers (policy : MergePolicy) (target members : Fields Json) (name : String) :
    (mergeMembers policy target members).get? name =
      settled policy (target.get? name) (given name members) := by
  induction members generalizing target with
  | nil => rw [mergeMembers]; rfl
  | cons field rest ih =>
    obtain ⟨k, v⟩ := field
    rw [mergeMembers, ih]
    by_cases hnull : v = .null
    · rw [hnull, mergeMember_null, given_cons_null]
    · rw [mergeMember_eq_put hnull, Fields.get?_put]
      by_cases hk : k = name
      · subst hk
        rw [if_pos rfl, given_cons_self hnull, settled_cons]
      · rw [if_neg hk, given_cons_of_ne hk]

/-- Without a repeated name there is one value for a name at most. -/
theorem given_of_nodup (h : (Fields.names members).Nodup) (name : String) :
    given name members = ((members.get? name).filter fun value => !value.isNull).toList := by
  induction members with
  | nil => rfl
  | cons field rest ih =>
    obtain ⟨k, v⟩ := field
    obtain ⟨hk, hrest⟩ := List.nodup_cons.1 h
    by_cases hname : k = name
    · subst hname
      have hnone : given k rest = [] := by
        rw [ih hrest, Fields.get?_eq_none_iff.2 hk]
        rfl
      rw [Fields.get?, if_pos rfl]
      by_cases hnull : v = .null
      · rw [hnull, given_cons_null, hnone]
        rfl
      · rw [given_cons_self hnull, hnone,
          Option.filter_some_pos (by simp [isNull_eq_false_iff.2 hnull])]
        rfl
    · rw [given_cons_of_ne hname, ih hrest, Fields.get?, if_neg hname]

/-! ### Values that are merged -/

/-- The members of an object; other values have none. -/
def ownMembers (value : Json) : Fields Json := value.obj?.getD []

/-- Merging objects from left to right is merging all of their members. -/
theorem foldl_mergeInto (policy : MergePolicy) (target : Fields Json) (values : List Json) :
    values.foldl (mergeInto policy) target =
      mergeMembers policy target (values.flatMap ownMembers) := by
  induction values generalizing target with
  | nil => rw [List.flatMap_nil, mergeMembers]; rfl
  | cons value rest ih =>
    rw [List.foldl_cons, ih, List.flatMap_cons, mergeMembers_append]
    cases value with
    | obj members => rfl
    | _ => simp only [mergeInto, ownMembers, obj?, Option.getD_none, mergeMembers]

end Json

namespace Session

variable {s : Session} {policy : MergePolicy}

/-- The members of the objects that arguments contribute to a merge, in their order. -/
def contributed (s : Session) (policy : MergePolicy) (args : List Arg) : Fields Json :=
  (args.flatMap (s.mergeItems (policy == .concat))).flatMap Json.ownMembers

/-- Arguments contribute one after the other. -/
theorem contributed_append (args more : List Arg) :
    s.contributed policy (args ++ more) =
      s.contributed policy args ++ s.contributed policy more := by
  rw [contributed, List.flatMap_append, List.flatMap_append]
  rfl

/-- The members that keyed values contribute are keyed. -/
theorem isKeyed_contributed {args : List Arg}
    (h : ∀ arg ∈ args, (s.value (policy == .concat) arg).isKeyed = true) :
    ∀ field ∈ s.contributed policy args, field.2.isKeyed = true := by
  intro field hfield
  obtain ⟨item, hitem, hfield⟩ := List.mem_flatMap.1 hfield
  obtain ⟨arg, harg, hitem⟩ := List.mem_flatMap.1 hitem
  -- an array is keyed if its items are, and any other argument contributes its value
  have hkeyed : item.isKeyed = true := by
    unfold mergeItems at hitem
    split at hitem
    · exact Json.isKeyed_arr.1 (h _ harg) item hitem
    · exact List.mem_singleton.1 hitem ▸ h _ harg
  cases item with
  | obj members => exact (Json.isKeyed_obj.1 hkeyed).2 _ hfield
  | _ => cases hfield

/-- Merging arguments is merging the members that they contribute. -/
theorem merge_eq_mergeMembers (s : Session) (policy : MergePolicy) (args : List Arg) :
    s.merge policy args = .obj (Json.mergeMembers policy [] (s.contributed policy args)) :=
  congrArg Json.obj (Json.foldl_mergeInto _ _ _)

end Session

end BuilderApi
