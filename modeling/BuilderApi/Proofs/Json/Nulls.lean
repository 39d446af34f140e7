import BuilderApi.Proofs.Json.Rearranged
import BuilderApi.Proofs.Json.Settled

/-!
# Null members of the values that are merged

Merging skips null members at the top and where an object is merged into another one. An object that
is put where none stands is put as it is, and keeps those it has. So merging is not the same as
merging what the null members have been deleted from (`BuilderApi.Session.merge_keeps_null`), and
whether a null member stays depends on what was merged before it.

Nothing else depends on them. If the null members are deleted afterwards, it is as if they had been
deleted in advance, up to the order of members (`BuilderApi.Session.merge_dropNulls`): a null that
stays takes a place, and what comes later under its name stands in this place instead of at the end.
The proof runs the two merges side by side and keeps what the one has left **cleared** by what the
other has left (`BuilderApi.Json.Cleared`).
-/

namespace BuilderApi

namespace Json

variable {policy : MergePolicy} {value value' : Json}
  {members members' target target' : Fields Json}

/-! ### Deleting null members -/

mutual

/-- The value without the null members of objects, at any depth that is reached through objects. -/
def dropNulls : Json → Json
  | .obj members => .obj (dropNullMembers members)
  | value => value

/-- The members that are not null, without theirs. -/
def dropNullMembers : List (String × Json) → Fields Json
  | [] => []
  | (_, .null) :: rest => dropNullMembers rest
  | (name, value) :: rest => (name, dropNulls value) :: dropNullMembers rest

end

theorem dropNullMembers_cons_of_ne_null {name : String} (h : value ≠ .null) (rest : Fields Json) :
    dropNullMembers ((name, value) :: rest) = (name, dropNulls value) :: dropNullMembers rest := by
  rw [dropNullMembers]
  exact h

theorem dropNulls_of_not_obj (h : value.isObj = false) : dropNulls value = value := by
  cases value with
  | obj => cases h
  | _ => simp only [dropNulls]

/-- What is no null does not become one. -/
theorem dropNulls_ne_null (h : value ≠ .null) : dropNulls value ≠ .null := by
  cases value <;> simp_all [dropNulls]

/-- Dropping nulls keeps the members that are present and drops inside them. -/
theorem dropNullMembers_eq_map (members : Fields Json) :
    dropNullMembers members = (present members).map fun field => (field.1, dropNulls field.2) := by
  induction members with
  | nil => rw [dropNullMembers]; rfl
  | cons field rest ih =>
    obtain ⟨name, value⟩ := field
    by_cases hnull : value = .null
    · rw [hnull, dropNullMembers, present_cons_null, ih]
    · rw [dropNullMembers_cons_of_ne_null hnull, present_cons_of_ne_null hnull, List.map_cons, ih]

theorem names_dropNullMembers (members : Fields Json) :
    Fields.names (dropNullMembers members) = Fields.names (present members) := by
  simp [dropNullMembers_eq_map, Fields.names, Function.comp_def]

theorem not_mem_names_dropNullMembers {name : String} (h : name ∉ Fields.names members) :
    name ∉ Fields.names (dropNullMembers members) := by
  rw [names_dropNullMembers]
  exact fun hmem => h ((List.filter_sublist.map _).subset hmem)

/-- Nothing is deleted from members of which none is null, nor has anything to be deleted. -/
theorem dropNullMembers_eq_self_iff :
    dropNullMembers members = members ↔ ∀ field ∈ members, field.2 ≠ .null ∧
    dropNulls field.2 = field.2 := by
  induction members with
  | nil => simp [dropNullMembers]
  | cons field rest ih =>
    obtain ⟨name, value⟩ := field
    by_cases hnull : value = .null
    · have hlength : (dropNullMembers rest).length ≤ rest.length := by
        rw [dropNullMembers_eq_map, List.length_map]
        exact List.length_filter_le _ _
      rw [hnull, dropNullMembers]
      refine iff_of_false (fun heq => ?_) fun h => (h _ List.mem_cons_self).1 rfl
      rw [heq, List.length_cons] at hlength
      omega
    · rw [dropNullMembers_cons_of_ne_null hnull, List.cons.injEq, ih]
      simp [hnull]

mutual

/-- Deleting again deletes nothing. -/
theorem dropNulls_dropNulls : ∀ value : Json, dropNulls (dropNulls value) = dropNulls value
  | .obj members => by rw [dropNulls, dropNulls, dropNullMembers_dropNullMembers members]
  | .null | .bool _ | .num _ | .str _ | .arr _ => by simp only [dropNulls]

/-- Dropping nulls twice is dropping them once. -/
theorem dropNullMembers_dropNullMembers :
    ∀ members : List (String × Json), dropNullMembers (dropNullMembers members) =
      dropNullMembers members
  | [] => by simp only [dropNullMembers]
  | (name, value) :: rest => by
    by_cases hnull : value = .null
    · rw [hnull, dropNullMembers, dropNullMembers_dropNullMembers rest]
    · rw [dropNullMembers_cons_of_ne_null hnull,
        dropNullMembers_cons_of_ne_null (dropNulls_ne_null hnull),
        dropNulls_dropNulls value, dropNullMembers_dropNullMembers rest]

end

mutual

/-- What is left of a keyed value is keyed. -/
theorem isKeyed_dropNulls : ∀ value : Json, value.isKeyed = true → (dropNulls value).isKeyed = true
  | .obj members, h => by
    obtain ⟨hnodup, hmembers⟩ := isKeyed_obj.1 h
    rw [dropNulls, isKeyed_obj, names_dropNullMembers]
    exact ⟨hnodup.sublist (List.filter_sublist.map _), isKeyed_dropNullMembers members hmembers⟩
  | .null, h | .bool _, h | .num _, h | .str _, h | .arr _, h => by rwa [dropNulls_of_not_obj rfl]

/-- Dropping nulls repeats no name. -/
theorem isKeyed_dropNullMembers :
    ∀ members : List (String × Json), (∀ field ∈ members, field.2.isKeyed = true) →
    ∀ field ∈ dropNullMembers members, field.2.isKeyed = true
  | [], _ => by simp [dropNullMembers]
  | (name, value) :: rest, h => by
    obtain ⟨hvalue, hrest⟩ := List.forall_mem_cons.1 h
    by_cases hnull : value = .null
    · rw [hnull, dropNullMembers]
      exact isKeyed_dropNullMembers rest hrest
    · rw [dropNullMembers_cons_of_ne_null hnull]
      exact List.forall_mem_cons.2 ⟨isKeyed_dropNulls value hvalue,
        isKeyed_dropNullMembers rest hrest⟩

end

/-- If nothing is to be deleted from a value, nothing is from one that is equal up to the order of
members. -/
theorem dropNulls_eq_self_of_rearranges (h : value.Rearranges value')
    (hclear : dropNulls value = value) :
    dropNulls value' = value' := by
  refine Rearranges.induct (P := fun v v' => dropNulls v = v → dropNulls v' = v')
    (fun _ h => h) ?_ ?_ h hclear
  · exact fun _ _ _ _ => by simp only [dropNulls]
  · intro members members' hmembers hclear
    simp only [dropNulls, obj.injEq, dropNullMembers_eq_self_iff] at hclear ⊢
    induction hmembers with
    | nil => exact hclear
    | cons hpart _ ih =>
      obtain ⟨hfirst, hrest⟩ := List.forall_mem_cons.1 hclear
      exact List.forall_mem_cons.2 ⟨⟨hpart.1.ne_null hfirst.1, hpart.2 hfirst.2⟩, ih hrest⟩
    | swap => exact fun field hfield => hclear field ((List.Perm.swap _ _ _).subset hfield)
    | trans _ _ ih ih' => exact ih' (ih hclear)

/-! ### Two merges side by side -/

/-- Without null members a value is equal to another one up to the order of members. Its objects
name no member twice. -/
structure Cleared (value value' : Json) : Prop where
  /-- No object names a member twice. -/
  keyed : value.isKeyed = true
  /-- What is left without the null members. -/
  rearranges : (dropNulls value).Rearranges value'

/-- What is found without the null members. -/
theorem get?_dropNullMembers (h : (Fields.names members).Nodup) (name : String) :
    Fields.get? (dropNullMembers members) name =
      ((Fields.get? members name).filter fun value => !value.isNull).map dropNulls := by
  induction members with
  | nil => rw [dropNullMembers]; rfl
  | cons field rest ih =>
    obtain ⟨k, v⟩ := field
    obtain ⟨hk, hrest⟩ := List.nodup_cons.1 h
    by_cases hnull : v = .null
    · rw [hnull, dropNullMembers, Fields.get?]
      by_cases hname : k = name
      · subst hname
        rw [if_pos rfl, Fields.get?_eq_none_iff.2 (not_mem_names_dropNullMembers hk)]
        rfl
      · rw [if_neg hname, ih hrest]
    · rw [dropNullMembers_cons_of_ne_null hnull, Fields.get?, Fields.get?, ih hrest]
      split
      · rw [Option.filter_some_pos (by simp [isNull_eq_false_iff.2 hnull])]
        rfl
      · rfl

/-- **A null that stays takes a place**: what is put under its name stands there, and otherwise at
the end. -/
theorem dropNullMembers_put (h : (Fields.names members).Nodup) (name : String)
    (hvalue : value ≠ .null) :
    (dropNullMembers (Fields.put members name value)).Rearranges Json.Rearranges
      (Fields.put (dropNullMembers members) name (dropNulls value)) := by
  induction members with
  | nil =>
    rw [Fields.put, dropNullMembers_cons_of_ne_null hvalue, dropNullMembers]
    exact .refl .refl _
  | cons field rest ih =>
    obtain ⟨k, v⟩ := field
    obtain ⟨hk, hrest⟩ := List.nodup_cons.1 h
    by_cases hname : k = name
    · subst hname
      rw [Fields.put, if_pos rfl, dropNullMembers_cons_of_ne_null hvalue]
      by_cases hnull : v = .null
      · rw [hnull, dropNullMembers]
        exact .cons_put .refl (not_mem_names_dropNullMembers hk) _
      · rw [dropNullMembers_cons_of_ne_null hnull, Fields.put, if_pos rfl]
        exact .refl .refl _
    · rw [Fields.put, if_neg hname]
      by_cases hnull : v = .null
      · rw [hnull, dropNullMembers, dropNullMembers]
        exact ih hrest
      · rw [dropNullMembers_cons_of_ne_null hnull, dropNullMembers_cons_of_ne_null hnull,
          Fields.put, if_neg hname]
        exact .cons (.refl _) (ih hrest)

/-- A null that stands under a name is as if nothing did. -/
theorem combined_filter (policy : MergePolicy) (old : Option Json) (value : Json) :
    combined policy (old.filter fun value => !value.isNull) value = combined policy old value := by
  cases old with
  | none => rfl
  | some old => cases old <;> cases policy <;> cases value <;> rfl

/-- What stands under a name is cleared by what stands under it on the other side, nulls left
out. -/
theorem Cleared.get?_rel (h : Cleared (.obj target) (.obj target')) (name : String) :
    Option.Rel Cleared ((Fields.get? target name).filter fun value => !value.isNull)
      (Fields.get? target' name) := by
  obtain ⟨hnodup, hkeyed⟩ := isKeyed_obj.1 h.keyed
  have hrel := h.rearranges.members_of_obj.get?_rel .refl (fun _ _ _ => .trans) name
  rw [get?_dropNullMembers hnodup] at hrel
  generalize hfound :
    (Fields.get? target name).filter _ = found, Fields.get? target' name = found' at hrel ⊢
  cases found with
  | none =>
    cases hrel
    exact .none
  | some value =>
    obtain ⟨hget, -⟩ := Option.filter_eq_some_iff.1 hfound
    cases hrel with
    | some hvalue => exact .some ⟨hkeyed _ (Fields.mem_of_get? hget), hvalue⟩

/-- What is cleared of an object is an object. -/
theorem Cleared.exists_obj (h : Cleared (.obj members) value') :
    ∃ members', value' = .obj members' := by
  have hobj := h.rearranges
  rw [dropNulls] at hobj
  cases hobj <;> exact ⟨_, rfl⟩

/-- What is cleared of a list is a list of the same items, up to order inside them. -/
theorem Cleared.exists_arr {items : List Json} (h : Cleared (.arr items) value') :
    ∃ items', value' = .arr items' ∧ List.Forall₂ Json.Rearranges items items' := by
  have harr := h.rearranges
  rw [dropNulls_of_not_obj rfl] at harr
  cases harr with
  | refl => exact ⟨_, rfl, List.forall₂_same.2 fun item _ => .refl item⟩
  | arr hitems => exact ⟨_, rfl, hitems⟩

/-- Clearing keeps apart objects, lists and the rest. -/
theorem Cleared.kind_eq (h : Cleared value value') :
    value'.isObj = value.isObj ∧ value'.isArr = value.isArr := by
  have hkind := h.rearranges
  cases value with
  | obj =>
    obtain ⟨_, rfl⟩ := h.exists_obj
    exact ⟨rfl, rfl⟩
  | arr =>
    obtain ⟨_, rfl, -⟩ := h.exists_arr
    exact ⟨rfl, rfl⟩
  | _ =>
    rw [dropNulls_of_not_obj rfl] at hkind
    cases hkind
    exact ⟨rfl, rfl⟩

theorem any_of_cleared {old old' : Option Json} (h : Option.Rel Cleared old old') :
    old'.any isObj = old.any isObj ∧ old'.any isArr = old.any isArr := by
  cases h with
  | none => exact ⟨rfl, rfl⟩
  | some h => exact h.kind_eq

/-- A value that is put as it is on both sides. -/
theorem Cleared.of_put {old old' : Option Json} (hvalue : value.isKeyed = true)
    (hput : combined policy old value = value)
    (hput' : combined policy old' (dropNulls value) = dropNulls value) :
    Cleared (combined policy old value) (combined policy old' (dropNulls value)) := by
  rw [hput, hput']
  exact ⟨hvalue, .refl _⟩

/-- An array is joined on both sides, or is put as it is on both. -/
theorem Cleared.combined_arr {items : List Json} {old old' : Option Json}
    (hold : Option.Rel Cleared old old') (hitems : (Json.arr items).isKeyed = true) :
    Cleared (combined policy old (.arr items)) (combined policy old' (dropNulls (.arr items))) := by
  by_cases hjoined : policy = .concat ∧ old.any isArr = true
  · obtain ⟨rfl, harr⟩ := hjoined
    obtain ⟨front, rfl⟩ := any_isArr_iff.1 harr
    cases hold with
    | some hold =>
      obtain ⟨front', rfl, hfront⟩ := hold.exists_arr
      have hback : List.Forall₂ Json.Rearranges items items :=
        List.forall₂_same.2 fun item _ => .refl item
      rw [dropNulls_of_not_obj rfl, combined, combined]
      refine ⟨isKeyed_arr.2 fun item hitem => ?_, ?_⟩
      · exact (List.mem_append.1 hitem).elim (isKeyed_arr.1 hold.keyed item)
          (isKeyed_arr.1 hitems item)
      · rw [dropNulls_of_not_obj rfl]
        exact .arr (List.rel_append hfront hback)
  · have hput : policy = .concat → old.any isArr = false :=
      fun hpolicy => by simpa [hpolicy] using hjoined
    have hobj : ∀ found : Option Json, (Json.arr items).isObj = true → found.any isObj = false := by
      simp [isObj]
    refine .of_put hitems (combined_eq_self (hobj old) fun hpolicy _ => hput hpolicy) ?_
    rw [dropNulls_of_not_obj rfl]
    exact combined_eq_self (hobj old') fun hpolicy _ => (any_of_cleared hold).2.trans (hput hpolicy)

mutual

/-- Combining a value with what stands there keeps the one side cleared by the other, if its null
members are deleted on the other. -/
theorem Cleared.combined : ∀ (value : Json) {old old' : Option Json}, Option.Rel Cleared old old' →
    value.isKeyed = true →
      Cleared (Json.combined policy old value) (Json.combined policy old' (dropNulls value))
  | .obj members, old, old', hold, hvalue => by
    by_cases hobj : old.any isObj = true
    · obtain ⟨fields, rfl⟩ := any_isObj_iff.1 hobj
      cases hold with
      | some hold =>
        obtain ⟨fields', rfl⟩ := hold.exists_obj
        rw [dropNulls, Json.combined, Json.combined]
        exact Cleared.mergeMembers members hold (isKeyed_obj.1 hvalue).2
    · have hput : old.any isObj = false := by simpa using hobj
      refine .of_put hvalue (combined_eq_self (fun _ => hput) fun _ => nofun) ?_
      rw [dropNulls]
      exact combined_eq_self (fun _ => (any_of_cleared hold).1.trans hput) fun _ => nofun
  | .arr _, _, _, hold, hvalue => Cleared.combined_arr hold hvalue
  | .null, _, _, _, hvalue | .bool _, _, _, _, hvalue | .num _, _, _, _, hvalue | .str _, _, _, _,
      hvalue => by
    refine .of_put hvalue (combined_eq_self nofun fun _ => nofun) ?_
    rw [dropNulls_of_not_obj rfl]
    exact combined_eq_self nofun fun _ => nofun

/-- **Merging members keeps** the one side cleared by the other. -/
theorem Cleared.mergeMembers : ∀ (members : List (String × Json)) {target target' : Fields Json},
    Cleared (.obj target) (.obj target') → (∀ field ∈ members, field.2.isKeyed = true) →
      Cleared (.obj (Json.mergeMembers policy target members))
        (.obj (Json.mergeMembers policy target' (dropNullMembers members)))
  | [], target, target', h, _ => by
    rw [dropNullMembers, Json.mergeMembers, Json.mergeMembers]
    exact h
  | (name, value) :: rest, target, target', h, hmembers => by
    obtain ⟨hvalue, hrest⟩ := List.forall_mem_cons.1 hmembers
    by_cases hnull : value = .null
    · rw [hnull, dropNullMembers, Json.mergeMembers, mergeMember_null]
      exact Cleared.mergeMembers rest h hrest
    · rw [dropNullMembers_cons_of_ne_null hnull, Json.mergeMembers, Json.mergeMembers,
        mergeMember_eq_put hnull, mergeMember_eq_put (dropNulls_ne_null hnull)]
      refine Cleared.mergeMembers rest ?_ hrest
      have hcombined := Cleared.combined value (h.get?_rel name) hvalue
      rw [combined_filter] at hcombined
      refine ⟨isKeyed_put h.keyed hcombined.keyed, ?_⟩
      have hput := dropNullMembers_put (isKeyed_obj.1 h.keyed).1 name
        (@combined_ne_null policy (Fields.get? target name) value hnull)
      exact .obj ((hput.trans (h.rearranges.members_of_obj.put .refl name _)).trans
        (.put_value .refl _ name hcombined.rearranges))

end

/-! ### The parts of an argument -/

/-- An argument of a merge without the null members of what it contributes: the items of an array,
or itself. -/
def dropPartNulls : Json → Json
  | .arr items => .arr (items.map dropNulls)
  | value => dropNulls value

theorem isArr_dropNulls (value : Json) : (dropNulls value).isArr = value.isArr := by
  cases value <;> simp only [dropNulls, isArr]

/-- Outside of lists, parts are dropped as everywhere. -/
theorem dropPartNulls_of_not_arr (h : value.isArr = false) :
    dropPartNulls value = dropNulls value := by
  cases value with
  | arr => cases h
  | _ => rfl

/-- It does not matter what was deleted before from the argument itself. -/
theorem dropPartNulls_dropNulls (value : Json) :
    dropPartNulls (dropNulls value) = dropPartNulls value := by
  cases harr : value.isArr with
  | true =>
    cases value with
    | arr => rw [dropNulls_of_not_obj rfl]
    | _ => cases harr
  | false =>
    have harr' : (dropNulls value).isArr = false := (isArr_dropNulls value).trans harr
    rw [dropPartNulls_of_not_arr harr', dropPartNulls_of_not_arr harr, dropNulls_dropNulls]

/-- The members of a value without nulls are its members without nulls. -/
theorem ownMembers_dropNulls (value : Json) :
    ownMembers (dropNulls value) = dropNullMembers (ownMembers value) := by
  cases value <;> simp only [dropNulls] <;> rfl

theorem dropNullMembers_append (members more : Fields Json) :
    dropNullMembers (members ++ more) = dropNullMembers members ++ dropNullMembers more := by
  simp only [dropNullMembers_eq_map, present, List.filter_append, List.map_append]

theorem flatMap_ownMembers_dropNulls (values : List Json) :
    (values.map dropNulls).flatMap ownMembers = dropNullMembers (values.flatMap ownMembers) := by
  induction values with
  | nil => rfl
  | cons value rest ih =>
    rw [List.map_cons, List.flatMap_cons, List.flatMap_cons, dropNullMembers_append,
      ownMembers_dropNulls, ih]

end Json

namespace Session

variable {s : Session} {policy : MergePolicy} {values : List Json}

/-- Merges plain values. -/
def mergeValues (s : Session) (policy : MergePolicy) (values : List Json) : Json :=
  s.merge policy (values.map .json)

/-- What an argument without nulls contributes is its contribution without nulls. -/
theorem contributed_dropPartNulls (value : Json) :
    s.contributed policy [.json (Json.dropPartNulls value)] =
      Json.dropNullMembers (s.contributed policy [.json value]) := by
  have hitems : s.mergeItems (policy == .concat) (.json (Json.dropPartNulls value)) =
      (s.mergeItems (policy == .concat) (.json value)).map Json.dropNulls := by
    cases value <;> rfl
  simp only [contributed, List.flatMap_singleton, hitems, Json.flatMap_ownMembers_dropNulls]

/-- So it is for all arguments. -/
theorem contributed_map_dropPartNulls (values : List Json) :
    s.contributed policy ((values.map Json.dropPartNulls).map .json) =
      Json.dropNullMembers (s.contributed policy (values.map .json)) := by
  induction values with
  | nil => rfl
  | cons value rest ih =>
    rw [List.map_cons, List.map_cons, List.map_cons, ← List.singleton_append, contributed_append,
      contributed_dropPartNulls, ih, ← Json.dropNullMembers_append, ← contributed_append,
        List.singleton_append]

/-- If null members are deleted from what is merged, those that stay are deleted. -/
theorem rearranges_mergeValues_dropPartNulls (h : ∀ value ∈ values, value.isKeyed = true) :
    (s.mergeValues policy (values.map Json.dropPartNulls)).Rearranges
      (s.mergeValues policy values).dropNulls := by
  have hkeyed : ∀ arg ∈ values.map Arg.json, (s.value (policy == .concat) arg).isKeyed = true := by
    simpa [value] using h
  have hstart : Json.Cleared (.obj []) (.obj []) := ⟨rfl, .refl _⟩
  rw [mergeValues, mergeValues, merge_eq_mergeMembers, merge_eq_mergeMembers,
    contributed_map_dropPartNulls]
  exact (Json.Cleared.mergeMembers _ hstart (isKeyed_contributed hkeyed)).rearranges.symm

/-- **All that null members change is what null members are left.** Those at the top of what is
merged are skipped. If those below are deleted from what is merged as well, the merge leaves what it
leaves otherwise without its null members, up to the order of members; so it leaves the same just if
none of them is left. If they are deleted from the arguments only, and stay in the items of
arguments that are arrays, the two merges differ in the null members that are left, and in the order
of members. -/
theorem merge_dropNulls (s : Session) (policy : MergePolicy) :
    (∀ args, s.merge policy args =
      .obj (Json.mergeMembers policy [] (Json.present (s.contributed policy args)))) ∧
    ∀ values : List Json, (∀ value ∈ values, value.isKeyed = true) →
      (s.mergeValues policy (values.map Json.dropPartNulls)).Rearranges
        (s.mergeValues policy values).dropNulls ∧
      ((s.mergeValues policy (values.map Json.dropPartNulls)).Rearranges
        (s.mergeValues policy values) ↔
        (s.mergeValues policy values).dropNulls = s.mergeValues policy values) ∧
      (s.mergeValues policy (values.map Json.dropNulls)).dropNulls.Rearranges
        (s.mergeValues policy values).dropNulls := by
  refine ⟨fun args => ?_, fun values h => ?_⟩
  · rw [merge_eq_mergeMembers, Json.mergeMembers_present]
  have hparts := @rearranges_mergeValues_dropPartNulls s policy values h
  refine ⟨hparts, ⟨fun hsame => ?_, fun hclear => ?_⟩, ?_⟩
  · have hclear :
        (s.mergeValues policy values).dropNulls.Rearranges (s.mergeValues policy values) :=
      hparts.symm.trans hsame
    exact Json.dropNulls_eq_self_of_rearranges hclear (Json.dropNulls_dropNulls _)
  · rwa [hclear] at hparts
  · have hkeyed : ∀ value ∈ values.map Json.dropNulls, value.isKeyed = true := by
      simpa using fun value hvalue => Json.isKeyed_dropNulls value (h value hvalue)
    have hargs := @rearranges_mergeValues_dropPartNulls s policy _ hkeyed
    have hparts_args :
        (values.map Json.dropNulls).map Json.dropPartNulls = values.map Json.dropPartNulls := by
      simp only [List.map_map, Function.comp_def, Json.dropPartNulls_dropNulls]
    rw [hparts_args] at hargs
    exact hargs.symm.trans hparts

/-- A merge of an object into an empty one, and of another value. -/
def nullParts : List Json :=
  [.obj [("a", .obj [("x", .null), ("y", .bool true)])],
    .arr [.obj [("a", .obj [("x", .str "b")]), ("b", .null)]]]

/-- The null member is replaced in its place, and without it the name goes to the end. -/
theorem merge_dropNulls_nullParts :
    let s : Session := ⟨[], [], []⟩
    (∀ value ∈ nullParts, value.isKeyed = true) ∧
    s.mergeValues .replace nullParts = .obj [("a", .obj [("x", .str "b"), ("y", .bool true)])] ∧
    s.mergeValues .replace (nullParts.map Json.dropPartNulls) =
      .obj [("a", .obj [("y", .bool true), ("x", .str "b")])] ∧
    (s.mergeValues .replace (nullParts.map Json.dropPartNulls)).Rearranges
      (s.mergeValues .replace nullParts) := by
  intro s
  have hkeyed : ∀ value ∈ nullParts, value.isKeyed = true := by decide
  obtain ⟨-, hvalues⟩ := merge_dropNulls s .replace
  exact ⟨hkeyed, by cbv, by cbv, (hvalues nullParts hkeyed).2.1.2 (by cbv)⟩

/-- **A null member below the top stays or goes by what was merged before it.** It stays where its
object is put, so that deleting it in advance makes a difference, and is skipped where its object is
merged into another one. -/
theorem merge_keeps_null :
    let s : Session := ⟨[], [], []⟩
    let part : Json := .obj [("a", .obj [("x", .null)])]
    let earlier : Json := .obj [("a", .obj [])]
    (∀ policy, s.mergeValues policy [part] = part) ∧
      (∀ policy, s.mergeValues policy [earlier, part] = earlier) ∧
    ¬ ∀ policy values, s.mergeValues policy (values.map Json.dropNulls) =
      s.mergeValues policy values := by
  intro s part earlier
  have hput : ∀ policy, s.mergeValues policy [part] = part := by
    intro policy
    cases policy <;> cbv
  refine ⟨hput, fun policy => by cases policy <;> cbv, fun hall => ?_⟩
  have hdropped : s.mergeValues .replace ([part].map Json.dropNulls) = earlier := by cbv
  have hsame := hall .replace [part]
  rw [hdropped, hput] at hsame
  simp [part, earlier] at hsame

end Session

end BuilderApi
