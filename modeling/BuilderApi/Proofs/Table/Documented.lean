import BuilderApi.Proofs.Table.Cases

/-!
# Which documented cases are true

A documented case says what a dispatch table does to arguments of a type, or to arrays of them: the
result has a certain field, or all items of the result have. Here it is settled which of these
statements are true of the table.

A direct case always is. A case on items is listed for every map of the table, whichever check
stands in front of it; but arrays reach a map only behind the check for arrays. So it is true
exactly if that map has a rule for the type which sets the field
(`BuilderApi.TypeTable.isTrue_iff_isBacked`), and all documented cases are true as soon as there are
no maps behind other checks. With such a map the documentation says more than the table does
(`BuilderApi.TypeTable.stringMap_documents_untruth`).
-/

namespace BuilderApi

/-- The value is an object with a field of this name. -/
def Json.HasField (name : String) : Json → Prop
  | .obj members => name ∈ Fields.names members
  | _ => False

/-- The rule wraps values and sets this field, as its key or by an assignment. -/
def TypeRule.Sets (name : String) : TypeRule → Prop
  | .key field set => name = field ∨ name ∈ Fields.names set
  | .map _ => False

namespace DocCase

/-- What the documentation of a case says is true of a table: a value of its type becomes an object
with its key, or an array of such values becomes an array of the same length of such objects. -/
def IsTrue (c : DocCase) (table : TypeTable) : Prop :=
  if c.onItems then
    ∀ items, (∀ item ∈ items, c.check.holds item = true) → ∃ mapped,
      TypeTable.apply table (.arr items) = .arr mapped ∧ mapped.length = items.length ∧
        ∀ value ∈ mapped, value.HasField c.key
  else ∀ value, c.check.holds value = true → (TypeTable.apply table value).HasField c.key

/-- If the case is on items, then the table maps arrays, by a table with a rule for its type that
sets its key. -/
def IsBacked (c : DocCase) (table : TypeTable) : Prop :=
  c.onItems = true → ∃ cases rule, (TypeCheck.array, TypeRule.map cases) ∈ table ∧
    (c.check, rule) ∈ cases ∧ rule.Sets c.key

end DocCase

namespace TypeTable

variable {table : TypeTable} {check : TypeCheck} {name : String}

/-! ### Which fields a table sets -/

theorem mem_names_putAll_singleton {key : String} {value : Json} {set : Fields Json} :
    name ∈ Fields.names (Fields.putAll [(key, value)] set) ↔
      name = key ∨ name ∈ Fields.names set := by
  have hnodup : (Fields.names [(key, value)]).Nodup := List.nodup_singleton _
  rw [Fields.names_putAll hnodup, List.mem_eraseDups, List.mem_append]
  exact or_congr_left List.mem_singleton

/-- A value whose type has a rule that sets a field gets the field. -/
theorem hasField_apply_of_mem (hnodup : (table.map Prod.fst).Nodup) {rule : TypeRule}
    (hmem : (check, rule) ∈ table) (hsets : rule.Sets name) {value : Json}
    (h : check.holds value = true) : (apply table value).HasField name := by
  rw [apply_of_mem hnodup hmem h]
  cases rule with
  | key field set => exact mem_names_putAll_singleton.2 hsets
  | map cases => exact hsets.elim

/-- A value of the type that has no fields and no items. -/
def bare : TypeCheck → Json
  | .array => .arr []
  | .string => .str ""
  | .number => .num (.int 0)
  | .boolean => .bool true
  | .object => .obj []

theorem holds_bare (check : TypeCheck) : check.holds (bare check) = true := by
  cases check <;> rfl

theorem not_hasField_bare (check : TypeCheck) : ¬(bare check).HasField name := by
  cases check <;> simp [bare, Json.HasField, Fields.names]

/-- A map sets no field of a value that has none. -/
theorem not_hasField_applyRule_map (cases : TypeTable) :
    ¬(applyRule (.map cases) (bare check)).HasField name := by
  cases check with
  | object => exact not_hasField_bare .object
  | _ => exact id

/-- Only a rule for its type that sets the field gives the field to a value without fields. -/
theorem exists_of_hasField_apply_bare (hnodup : (table.map Prod.fst).Nodup)
    (h : (apply table (bare check)).HasField name) :
    ∃ rule, (check, rule) ∈ table ∧ rule.Sets name := by
  by_cases hcase : ∃ c ∈ table, c.1.holds (bare check) = true
  · obtain ⟨⟨found, rule⟩, hmem, hholds⟩ := hcase
    obtain rfl := TypeCheck.eq_of_holds hholds (holds_bare check)
    rw [apply_of_mem hnodup hmem hholds] at h
    refine ⟨rule, hmem, ?_⟩
    cases rule with
    | key field set => exact mem_names_putAll_singleton.1 h
    | map cases => exact absurd h (not_hasField_applyRule_map cases)
  · rw [apply_of_forall_not_holds (by simpa using hcase)] at h
    exact absurd h (not_hasField_bare check)

/-! ### What is documented -/

theorem mem_docCases_iff {c : DocCase} : c ∈ docCases table ↔ ∃ check rule, (check, rule) ∈ table ∧
    c ∈ TypeRule.docCases check rule := by
  rw [docCases, (List.mergeSort_perm _ _).mem_iff, List.mem_flatMap]
  exact ⟨fun ⟨⟨check, rule⟩, hmem, hc⟩ => ⟨check, rule, hmem, hc⟩,
    fun ⟨check, rule, hmem, hc⟩ => ⟨(check, rule), hmem, hc⟩⟩

/-- A direct case is documented for a rule that wraps. -/
theorem exists_of_mem_docCases_direct {c : DocCase} (hc : c ∈ docCases table)
    (hdirect : c.onItems = false) :
    ∃ set, (c.check, TypeRule.key c.key set) ∈ table := by
  obtain ⟨check, rule, hmem, hc⟩ := mem_docCases_iff.1 hc
  cases rule with
  | key field set =>
    obtain rfl := List.mem_singleton.1 hc
    exact ⟨set, hmem⟩
  | map cases =>
    obtain ⟨⟨inner, rule⟩, -, hc⟩ := List.mem_filterMap.1 hc
    cases rule <;> cases hc
    cases hdirect

/-- A case on items is documented for a rule that wraps, inside a map. -/
theorem exists_of_mem_docCases_onItems {c : DocCase} (hc : c ∈ docCases table)
    (hitems : c.onItems = true) :
    ∃ check cases set, (check, TypeRule.map cases) ∈ table ∧
      (c.check, TypeRule.key c.key set) ∈ cases := by
  obtain ⟨check, rule, hmem, hc⟩ := mem_docCases_iff.1 hc
  cases rule with
  | key field set =>
    obtain rfl := List.mem_singleton.1 hc
    cases hitems
  | map cases =>
    obtain ⟨⟨inner, rule⟩, hinner, hc⟩ := List.mem_filterMap.1 hc
    cases rule <;> cases hc
    exact ⟨check, cases, _, hmem, hinner⟩

variable {method : String} {value : Json}

/-- If arrays of a value without fields get the field, then there is a map for arrays that sets
it. -/
theorem exists_map_of_hasField (hkeyed : value.isKeyed = true)
    (hparse : parse method value = .ok table) {mapped : List Json}
    (happly : apply table (.arr [bare check]) = .arr mapped) (hlength : mapped.length = 1)
    (hfields : ∀ item ∈ mapped, item.HasField name) :
    ∃ cases rule, (TypeCheck.array, TypeRule.map cases) ∈ table ∧ (check, rule) ∈ cases ∧
      rule.Sets name := by
  have hnodup := nodup_checks_of_parse hkeyed hparse
  by_cases hcase : ∃ c ∈ table, c.1.holds (.arr [bare check]) = true
  · obtain ⟨⟨found, rule⟩, hmem, hholds⟩ := hcase
    obtain rfl : found = .array := TypeCheck.eq_of_holds hholds rfl
    cases rule with
    | key field set =>
      rw [apply_of_mem hnodup hmem hholds] at happly
      cases happly
    | map cases =>
      rw [apply_arr_of_mem hnodup hmem] at happly
      cases happly
      obtain ⟨source, hsource, hread⟩ := exists_parse_of_map hkeyed hparse hmem
      have hfield := hfields _ (List.mem_map_of_mem List.mem_cons_self)
      obtain ⟨rule, hrule, hsets⟩ :=
        exists_of_hasField_apply_bare (nodup_checks_of_parse hsource hread) hfield
      exact ⟨cases, rule, hmem, hrule, hsets⟩
  · -- nothing is done to arrays, so the item has no field
    rw [apply_of_forall_not_holds (by simpa using hcase)] at happly
    cases happly
    exact absurd (hfields _ List.mem_cons_self) (not_hasField_bare check)

/-- A documented case is true exactly if it is backed. -/
theorem isTrue_iff_isBacked_of_mem (hkeyed : value.isKeyed = true)
    (hparse : parse method value = .ok table) {c : DocCase} (hc : c ∈ docCases table) :
    c.IsTrue table ↔ c.IsBacked table := by
  have hnodup := nodup_checks_of_parse hkeyed hparse
  cases hitems : c.onItems with
  | false =>
    obtain ⟨set, hmem⟩ := exists_of_mem_docCases_direct hc hitems
    refine iff_of_true ?_ (fun h => absurd h (by simp [hitems]))
    rw [DocCase.IsTrue, if_neg (by simp [hitems])]
    exact fun value => hasField_apply_of_mem hnodup hmem (Or.inl rfl)
  | true =>
    rw [DocCase.IsTrue, if_pos hitems, DocCase.IsBacked, forall_prop_of_true hitems]
    constructor
    · intro h
      obtain ⟨mapped, happly, hlength, hfields⟩ :=
        h [bare c.check] (List.forall_mem_singleton.2 (holds_bare _))
      exact exists_map_of_hasField hkeyed hparse happly hlength hfields
    · rintro ⟨cases, rule, hmap, hrule, hsets⟩ items hall
      obtain ⟨source, hsource, hread⟩ := exists_parse_of_map hkeyed hparse hmap
      have hinner := nodup_checks_of_parse hsource hread
      refine ⟨_, apply_arr_of_mem hnodup hmap items, List.length_map _,
        List.forall_mem_map.2 fun item hitem => ?_⟩
      exact hasField_apply_of_mem hinner hrule hsets (hall item hitem)

/-- **Which documented cases are true.** Of a table that is read from a value: every direct case is,
and a case on items is exactly if the map for arrays has a rule for its type that sets its key. So
all of them are, if there are no maps but for arrays. -/
theorem isTrue_iff_isBacked (hkeyed : value.isKeyed = true)
    (hparse : parse method value = .ok table) :
    (∀ c ∈ docCases table, c.onItems = false → c.IsTrue table) ∧
    (∀ c ∈ docCases table, c.IsTrue table ↔ c.IsBacked table) ∧
    ((∀ check cases, (check, TypeRule.map cases) ∈ table → check = .array) →
      ∀ c ∈ docCases table, c.IsTrue table) := by
  refine ⟨fun c hc hdirect => ?_, fun c hc =>
    isTrue_iff_isBacked_of_mem hkeyed hparse hc, fun hmaps c hc => ?_⟩
  · exact (isTrue_iff_isBacked_of_mem hkeyed hparse hc).2 fun hitems => by simp [hdirect] at hitems
  · refine (isTrue_iff_isBacked_of_mem hkeyed hparse hc).2 fun hitems => ?_
    obtain ⟨check, cases, set, hmem, hinner⟩ := exists_of_mem_docCases_onItems hc hitems
    obtain rfl := hmaps check cases hmem
    exact ⟨cases, _, hmem, hinner, Or.inl rfl⟩

/-- A table that wraps strings, and the strings and numbers in arrays. -/
def detailJson : Json :=
  .obj [("array",
    .obj [("map",
      .obj [("string", .obj [("key", .str "field")]), ("number", .obj [("key", .str "value")])])]),
    ("string", .obj [("key", .str "field"), ("set", .obj [("type", .str "nominal")])])]

/-- What is read from it. -/
def detailCases : TypeTable :=
  [(.array, .map [(.string, .key "field" []), (.number, .key "value" [])]),
    (.string, .key "field" [("type", .str "nominal")])]

theorem isTrue_iff_isBacked_detailJson :
    detailJson.isKeyed = true ∧ parse "detail" detailJson = .ok detailCases ∧
    (∀ check cases, (check, TypeRule.map cases) ∈ detailCases → check = .array) ∧
    DocCase.IsTrue ⟨.number, true, "value"⟩ detailCases ∧
    DocCase.IsTrue ⟨.string, false, "field"⟩ detailCases := by
  have hkeyed : detailJson.isKeyed = true := rfl
  have hparse : parse "detail" detailJson = .ok detailCases := rfl
  have hmaps : ∀ check cases, (check, TypeRule.map cases) ∈ detailCases → check = .array := by
    simp [detailCases]
  have hnumbers : ⟨.number, true, "value"⟩ ∈ docCases detailCases :=
    mem_docCases_iff.2 ⟨.array, _, List.mem_cons_self, by simp [TypeRule.docCases]⟩
  have hstrings : ⟨.string, false, "field"⟩ ∈ docCases detailCases :=
    mem_docCases_iff.2 ⟨.string, _, List.mem_cons_of_mem _ List.mem_cons_self, by
      simp [TypeRule.docCases]⟩
  obtain ⟨hdirect, -, hall⟩ := isTrue_iff_isBacked hkeyed hparse
  exact ⟨hkeyed, hparse, hmaps, hall hmaps _ hnumbers, hdirect _ hstrings rfl⟩

/-- A table with a map behind the check for strings. -/
def stringMapJson : Json :=
  .obj [("string", .obj [("map", .obj [("number", .obj [("key", .str "x")])])])]

/-- What is read from it. -/
def stringMap : TypeTable := [(.string, .map [(.number, .key "x" [])])]

/-- Arrays of numbers are documented to become arrays of objects, but stay as they are. -/
theorem stringMap_documents_untruth :
    stringMapJson.isKeyed = true ∧ parse "m" stringMapJson = .ok stringMap ∧
    ⟨.number, true, "x"⟩ ∈ docCases stringMap ∧ ¬DocCase.IsTrue ⟨.number, true, "x"⟩ stringMap := by
  have hkeyed : stringMapJson.isKeyed = true := rfl
  have hparse : parse "m" stringMapJson = .ok stringMap := rfl
  have hmem : ⟨.number, true, "x"⟩ ∈ docCases stringMap :=
    mem_docCases_iff.2 ⟨.string, _, List.mem_cons_self, by simp [TypeRule.docCases]⟩
  refine ⟨hkeyed, hparse, hmem, fun htrue => ?_⟩
  obtain ⟨cases, rule, hmap, -⟩ := (isTrue_iff_isBacked_of_mem hkeyed hparse hmem).1 htrue rfl
  simp [stringMap] at hmap

end TypeTable

end BuilderApi
