import BuilderApi.Proofs.Table.WellFormed
import BuilderApi.Proofs.Json.Keyed

/-!
# One case per type

A value has at most one type, so of the checks at most one holds of it. A table that was read from a
value without repeated names has at most one case for a check
(`BuilderApi.TypeTable.nodup_checks_of_parse`). Together this says what a first match can hide: the
case that decides is the one whose check holds, wherever in the table it stands
(`BuilderApi.TypeTable.apply_of_mem`), and a value without a case stays as it is.

A map applies a table of its own. The tables inside a table are its **parts**, and they were read
from parts of the value that the table was read from, so the same holds of all of them
(`BuilderApi.TypeTable.Part.exists_parse`).
-/

namespace BuilderApi

/-! ### Checks exclude each other -/

namespace TypeCheck

/-- The check that holds of a value; there is none for null. -/
def of? : Json → Option TypeCheck
  | .arr _ => some .array
  | .str _ => some .string
  | .num _ => some .number
  | .bool _ => some .boolean
  | .obj _ => some .object
  | .null => none

theorem holds_iff {check : TypeCheck} {value : Json} :
    check.holds value = true ↔ of? value = some check := by
  cases value <;> cases check <;> simp [holds, of?]

/-- **No two checks hold of one value.** -/
theorem eq_of_holds {check other : TypeCheck} {value : Json} (h : check.holds value = true)
    (hother : other.holds value = true) : check = other :=
  Option.some.inj ((holds_iff.1 h).symm.trans (holds_iff.1 hother))

theorem name_of_ofName? {name : String} {check : TypeCheck} (h : ofName? name = some check) :
    check.name = name := by
  simpa using List.find?_some h

end TypeCheck

namespace TypeTable

/-! ### Applying a table with one case per check -/

section Apply

variable {table other : TypeTable} {value : Json}

theorem apply_of_forall_not_holds (h : ∀ c ∈ table, c.1.holds value = false) :
    apply table value = value := by
  induction table with
  | nil => rfl
  | cons c rest ih =>
    obtain ⟨hcase, hrest⟩ := List.forall_mem_cons.1 h
    rw [apply, if_neg (by simp [hcase]), ih hrest]

/-- **The case whose check holds decides**, wherever it stands. -/
theorem apply_of_mem (hnodup : (table.map Prod.fst).Nodup) {check : TypeCheck} {rule : TypeRule}
    (hmem : (check, rule) ∈ table) (h : check.holds value = true) :
    apply table value = applyRule rule value := by
  induction table with
  | nil => cases hmem
  | cons c rest ih =>
    obtain ⟨first, firstRule⟩ := c
    obtain ⟨hfirst, hrest⟩ := List.nodup_cons.1 hnodup
    rw [apply]
    rcases List.mem_cons.1 hmem with heq | hmem
    · cases heq
      rw [if_pos h]
    · -- the first check is another one, so it does not hold
      have hcheck : check ∈ rest.map Prod.fst := List.mem_map_of_mem hmem
      have hne : ¬first.holds value = true :=
        fun hholds => hfirst (TypeCheck.eq_of_holds h hholds ▸ hcheck)
      rw [if_neg hne, ih hrest hmem]

/-- The order of the cases does not matter. -/
theorem apply_perm (hnodup : (table.map Prod.fst).Nodup) (hperm : table.Perm other) (value : Json) :
    apply other value = apply table value := by
  by_cases h : ∃ c ∈ table, c.1.holds value = true
  · obtain ⟨⟨check, rule⟩, hmem, hholds⟩ := h
    have hother : (other.map Prod.fst).Nodup := (hperm.map Prod.fst).nodup_iff.1 hnodup
    rw [apply_of_mem hnodup hmem hholds, apply_of_mem hother (hperm.mem_iff.1 hmem) hholds]
  · have hnone : ∀ c ∈ table, c.1.holds value = false := by simpa using h
    rw [apply_of_forall_not_holds hnone,
      apply_of_forall_not_holds fun c hc => hnone c (hperm.mem_iff.2 hc)]

/-- A map keeps the number of items. -/
theorem apply_arr_of_mem (hnodup : (table.map Prod.fst).Nodup) {cases : TypeTable}
    (hmem : (TypeCheck.array, TypeRule.map cases) ∈ table) (items : List Json) :
    apply table (.arr items) = .arr (items.map (apply cases)) := by
  rw [apply_of_mem hnodup hmem rfl, applyRule]

end Apply

/-! ### Reading cases one by one -/

section Parse

variable {method : String}

/-- Reads a case. -/
def parseCase (method : String) (member : String × Json) :
    Except TableError (TypeCheck × TypeRule) :=
  match TypeCheck.ofName? member.1 with
  | none => .error (.unknownTypeCheck method member.1)
  | some check => do return (check, ← parseRule method member.1 member.2)

theorem parseCases_eq_mapM (members : List (String × Json)) :
    parseCases method members = members.mapM (parseCase method) := by
  induction members with
  | nil => rfl
  | cons member rest ih =>
    rw [List.mapM_cons, parseCases, parseCase, ih]
    cases TypeCheck.ofName? member.1 with
    | none => rfl
    | some check => cases parseRule method member.1 member.2 <;> rfl

theorem parse_obj (members : List (String × Json)) :
    parse method (.obj members) = members.mapM (parseCase method) := by
  rw [parse, parseCases_eq_mapM]

/-- What is read as a table is an object. -/
theorem exists_obj_of_parse {value : Json} {table : TypeTable}
    (h : parse method value = .ok table) :
    ∃ members, value = .obj members ∧ members.mapM (parseCase method) = .ok table := by
  cases value with
  | obj members => exact ⟨members, rfl, parse_obj members ▸ h⟩
  | _ => cases h

/-- A case is read from a member that is named for its check. -/
theorem exists_of_parseCase {member : String × Json} {c : TypeCheck × TypeRule}
    (h : parseCase method member = .ok c) :
    c.1.name = member.1 ∧ parseRule method member.1 member.2 = .ok c.2 := by
  unfold parseCase at h
  split at h
  · cases h
  · next check hcheck =>
    obtain ⟨rule, hrule, h⟩ := exists_of_bind_eq_ok h
    cases h
    exact ⟨TypeCheck.name_of_ofName? hcheck, hrule⟩

/-- A rule with a member `map` is read as a map. -/
theorem parseRule_of_map {check : String} {members : List (String × Json)} {value : Json}
    (h : Fields.get? members "map" = some value) :
    parseRule method check (.obj members) = do return .map (← parse method value) := by
  rw [parseRule, parseMap_eq, h]
  rfl

theorem parseCase_of_map {name : String} {check : TypeCheck} {members : List (String × Json)}
    {value : Json} {cases : TypeTable} (hname : TypeCheck.ofName? name = some check)
    (hmap : Fields.get? members "map" = some value) (h : parse method value = .ok cases) :
    parseCase method (name, .obj members) = .ok (check, .map cases) := by
  simp only [parseCase, hname, parseRule_of_map hmap, h]
  rfl

/-- A map is read from a member `map`. -/
theorem exists_of_parseRule_map {check : String} {value : Json} {cases : TypeTable}
    (h : parseRule method check value = .ok (.map cases)) :
    ∃ part, value.get? "map" = some part ∧ parse method part = .ok cases := by
  cases value with
  | obj members =>
    cases hmap : Fields.get? members "map" with
    | some part =>
      rw [parseRule_of_map hmap] at h
      obtain ⟨read, hread, h⟩ := exists_of_bind_eq_ok h
      cases h
      exact ⟨part, hmap, hread⟩
    | none =>
      -- without a map a rule is read as one that wraps
      rw [parseRule, parseMap_eq, hmap, Option.map_none] at h
      simp only [parseKeyRule] at h
      split at h
      · cases h
      · split at h <;> cases h
  | _ => cases h

/-- What is read from a rule with a member `map` is a map. -/
theorem exists_of_parseCase_map {name : String} {members : List (String × Json)} {value : Json}
    {c : TypeCheck × TypeRule} (hmap : Fields.get? members "map" = some value)
    (h : parseCase method (name, .obj members) = .ok c) :
    ∃ check cases, c = (check, .map cases) ∧ TypeCheck.ofName? name = some check ∧
      parse method value = .ok cases := by
  unfold parseCase at h
  split at h
  · cases h
  · next check hcheck =>
    rw [parseRule_of_map hmap] at h
    obtain ⟨rule, hrule, h⟩ := exists_of_bind_eq_ok h
    obtain ⟨cases, hcases, hrule⟩ := exists_of_bind_eq_ok hrule
    cases hrule
    cases h
    exact ⟨check, cases, rfl, hcheck, hcases⟩

/-- **A table that is read from a keyed value has at most one case per check.** -/
theorem nodup_checks_of_parse {value : Json} {table : TypeTable} (hkeyed : value.isKeyed = true)
    (h : parse method value = .ok table) : (table.map Prod.fst).Nodup := by
  obtain ⟨members, rfl, hread⟩ := exists_obj_of_parse h
  have hnames : (table.map Prod.fst).map TypeCheck.name = Fields.names members := by
    rw [List.map_map]
    exact map_eq_of_mapM_eq_ok hread fun _ _ hcase => (exists_of_parseCase hcase).1
  exact List.Nodup.of_map TypeCheck.name (hnames ▸ (Json.isKeyed_obj.1 hkeyed).1)

/-- The table of a map is read from a part of the value. -/
theorem exists_parse_of_map {value : Json} {table cases : TypeTable} {check : TypeCheck}
    (hkeyed : value.isKeyed = true) (h : parse method value = .ok table)
    (hmem : (check, TypeRule.map cases) ∈ table) :
    ∃ part, part.isKeyed = true ∧ parse method part = .ok cases := by
  obtain ⟨members, rfl, hread⟩ := exists_obj_of_parse h
  obtain ⟨member, hmember, hcase⟩ := exists_of_mem_mapM hread hmem
  obtain ⟨part, hpart, hcases⟩ := exists_of_parseRule_map (exists_of_parseCase hcase).2
  exact ⟨part, Json.isKeyed_of_get? ((Json.isKeyed_obj.1 hkeyed).2 member hmember) hpart, hcases⟩

end Parse

/-! ### Parts -/

/-- The first table is the second, or the table of a map at some depth in it. -/
inductive Part : TypeTable → TypeTable → Prop
  /-- The table itself. -/
  | whole (table : TypeTable) : Part table table
  /-- A part of the table of a map. -/
  | inside {part cases table : TypeTable} {check : TypeCheck}
      (hmem : (check, TypeRule.map cases) ∈ table)
      (h : Part part cases) : Part part table

/-- **A part of a table that is read from a keyed value is itself read from one.** -/
theorem Part.exists_parse {method : String} {part table : TypeTable} (h : Part part table)
    {value : Json} (hkeyed : value.isKeyed = true) (hparse : parse method value = .ok table) :
    ∃ source, source.isKeyed = true ∧ parse method source = .ok part := by
  induction h generalizing value with
  | whole => exact ⟨value, hkeyed, hparse⟩
  | inside hmem _ ih =>
    obtain ⟨source, hsource, hcases⟩ := exists_parse_of_map hkeyed hparse hmem
    exact ih hsource hcases

end TypeTable

end BuilderApi
