import BuilderApi.Proofs.Table.Cases

/-!
# The order of cases does not matter

The first case whose check holds decides, and yet a dispatch table means the same in every order of
its cases (`BuilderApi.TypeTable.apply_of_reordered`): at every level a check has one case at most,
and at most one check holds of a value. The order is that of the value which a table is read from,
so this is said of values: one is **reordered** into another by moving members of the table, and of
the tables under `map` in its rules, at any depth.

The assignments of a rule stay in their order, which shows in the result: what is the same here
includes the order of the members of its objects.
-/

namespace BuilderApi

/-! ### Keyed objects with one member replaced -/

theorem Json.isKeyed_replace {front back : List (String × Json)} {name : String}
    {value other : Json} (h : (Json.obj (front ++ (name, value) :: back)).isKeyed = true)
    (hother : other.isKeyed = true) :
    (Json.obj (front ++ (name, other) :: back)).isKeyed = true := by
  obtain ⟨hnames, hvalues⟩ := isKeyed_obj.1 h
  refine isKeyed_obj.2 ⟨by simpa [Fields.names] using hnames, ?_⟩
  simp only [List.forall_mem_append, List.forall_mem_cons] at hvalues ⊢
  exact ⟨hvalues.1, hother, hvalues.2.2⟩

theorem Json.isKeyed_perm {members others : List (String × Json)}
    (h : (Json.obj members).isKeyed = true) (hperm : members.Perm others) :
    (Json.obj others).isKeyed = true := by
  obtain ⟨hnames, hvalues⟩ := isKeyed_obj.1 h
  exact isKeyed_obj.2 ⟨(hperm.map Prod.fst).nodup_iff.1 hnames, fun member hmember =>
    hvalues member (hperm.mem_iff.2 hmember)⟩

/-- In a keyed object every member is found under its name. -/
theorem Fields.get?_append_cons {α : Type} {front back : Fields α} {name : String} {value : α}
    (h : (Fields.names (front ++ (name, value) :: back)).Nodup) :
    Fields.get? (front ++ (name, value) :: back) name = some value :=
  Fields.get?_of_mem h (List.mem_append_right _ List.mem_cons_self)

namespace TypeTable

/-- The second value has the cases of the first one, and those of the tables under `map` at any
depth, in another order. -/
inductive Reordered : Json → Json → Prop
  /-- The members of a table change places. -/
  | members {members others : List (String × Json)} (h : members.Perm others) :
      Reordered (.obj members) (.obj others)
  /-- In the rule of one member, the table under `map` is reordered. -/
  | inside (front back : List (String × Json)) (check : String)
      (before behind : List (String × Json))
      {table other : Json} (h : Reordered table other) :
      Reordered (.obj (front ++ (check, .obj (before ++ ("map", table) :: behind)) :: back))
        (.obj (front ++ (check, .obj (before ++ ("map", other) :: behind)) :: back))
  /-- One after the other. -/
  | trans {table other third : Json} (h : Reordered table other) (h' : Reordered other third) :
      Reordered table third

theorem Reordered.isKeyed {value other : Json} (h : Reordered value other)
    (hkeyed : value.isKeyed = true) :
    other.isKeyed = true := by
  induction h with
  | members h => exact Json.isKeyed_perm hkeyed h
  | inside front back check before behind _ ih =>
    have hrule := (Json.isKeyed_obj.1 hkeyed).2 _ (List.mem_append_right _ List.mem_cons_self)
    have htable := (Json.isKeyed_obj.1 hrule).2 _ (List.mem_append_right _ List.mem_cons_self)
    exact Json.isKeyed_replace hkeyed (Json.isKeyed_replace hrule (ih htable))
  | trans _ _ ih ih' => exact ih' (ih hkeyed)

/-- Tables that differ in one rule are applied alike if the two rules are. -/
theorem apply_replace {front back : TypeTable} {check : TypeCheck} {rule other : TypeRule}
    (h : ∀ value, applyRule other value = applyRule rule value) (value : Json) :
    apply (front ++ (check, other) :: back) value =
      apply (front ++ (check, rule) :: back) value := by
  induction front with
  | nil => rw [List.nil_append, List.nil_append, apply, apply, h]
  | cons c front ih => rw [List.cons_append, List.cons_append, apply, apply, ih]

/-- Maps are applied alike if their tables are. -/
theorem applyRule_map_congr {cases others : TypeTable}
    (h : ∀ value, apply others value = apply cases value) (value : Json) :
    applyRule (.map others) value = applyRule (.map cases) value := by
  cases value with
  | arr items =>
    rw [applyRule, applyRule]
    exact congrArg Json.arr (List.map_congr_left fun item _ => h item)
  | _ => rfl

variable {method : String}

/-- **A reordered table is read as well, and applied alike.** The proof follows the reordering:
where members change places, the cases do; where the table of a map is reordered, the map is applied
alike by induction. -/
theorem Reordered.exists_parse {value other : Json} (h : Reordered value other)
    (hkeyed : value.isKeyed = true) {table : TypeTable} (hparse : parse method value = .ok table) :
    ∃ table', parse method other = .ok table' ∧ ∀ v, apply table' v = apply table v := by
  induction h generalizing table with
  | members hperm =>
    have hnodup := nodup_checks_of_parse hkeyed hparse
    rw [parse_obj] at hparse
    obtain ⟨others, hothers, hcases⟩ := exists_mapM_of_perm hparse hperm
    exact ⟨others, parse_obj _ ▸ hothers, apply_perm hnodup hcases⟩
  | inside front back check before behind h ih =>
    have hrule := (Json.isKeyed_obj.1 hkeyed).2 _ (List.mem_append_right _ List.mem_cons_self)
    have htable := (Json.isKeyed_obj.1 hrule).2 _ (List.mem_append_right _ List.mem_cons_self)
    have hmap := Fields.get?_append_cons (Json.isKeyed_obj.1 hrule).1
    obtain ⟨frontCases, c, backCases, rfl, hfront, hc, hback⟩ :=
      mapM_append_cons_eq_ok_iff.1 (parse_obj _ ▸ hparse)
    obtain ⟨typeCheck, cases, rfl, hname, hcases⟩ := exists_of_parseCase_map hmap hc
    obtain ⟨others, hothers, happly⟩ := ih htable hcases
    refine ⟨frontCases ++ (typeCheck, .map others) :: backCases, ?_,
      apply_replace (applyRule_map_congr happly)⟩
    have hmap' :=
      Fields.get?_append_cons (Json.isKeyed_obj.1 (Json.isKeyed_replace hrule (h.isKeyed htable))).1
    rw [parse_obj]
    exact mapM_append_cons_eq_ok_iff.2 ⟨_, _, _, rfl, hfront,
      parseCase_of_map hname hmap' hothers, hback⟩
  | trans h _ ih ih' =>
    obtain ⟨middle, hmiddle, happly⟩ := ih hkeyed hparse
    obtain ⟨last, hlast, happly'⟩ := ih' (h.isKeyed hkeyed) hmiddle
    exact ⟨last, hlast, fun v => (happly' v).trans (happly v)⟩

/-- **Applying a table does not depend on the order of its cases.** A value that is reordered at any
depth is read as a table too, and both tables give the same for every value. Of the table and of
every table inside it: a value whose type has no case stays as it is, and an array that is mapped
keeps its length. -/
theorem apply_of_reordered {value other : Json} {table : TypeTable} (hkeyed : value.isKeyed = true)
    (hparse : parse method value = .ok table) (h : Reordered value other) :
    (∃ table', parse method other = .ok table' ∧ ∀ v, apply table' v = apply table v) ∧
    ∀ part, Part part table →
      (∀ v, (∀ c ∈ part, c.1.holds v = false) → apply part v = v) ∧
      ∀ cases, (TypeCheck.array, TypeRule.map cases) ∈ part → ∀ items, ∃ mapped,
        apply part (.arr items) = .arr mapped ∧ mapped.length = items.length ∧
          mapped = items.map (apply cases) := by
  refine ⟨h.exists_parse hkeyed hparse, fun part hpart => ⟨fun v => apply_of_forall_not_holds, ?_⟩⟩
  intro cases hcases items
  obtain ⟨source, hsource, hread⟩ := hpart.exists_parse hkeyed hparse
  have hnodup := nodup_checks_of_parse hsource hread
  exact ⟨_, apply_arr_of_mem hnodup hcases items, List.length_map _, rfl⟩

/-- A table that wraps strings and numbers, also inside arrays. -/
def channelJson : Json :=
  .obj [("string", .obj [("key", .str "field")]),
    ("array", .obj [("map",
      .obj [("string", .obj [("key", .str "field")]), ("number", .obj [("key", .str "value")])])])]

/-- The same with its cases the other way round, at both levels. -/
def reversedChannelJson : Json :=
  .obj [("array",
    .obj [("map",
      .obj [("number", .obj [("key", .str "value")]), ("string", .obj [("key", .str "field")])])]),
    ("string", .obj [("key", .str "field")])]

/-- What is read from it. -/
def channelCases : TypeTable :=
  [(.string, .key "field" []),
    (.array, .map [(.string, .key "field" []), (.number, .key "value" [])])]

theorem reordered_channelJson : Reordered channelJson reversedChannelJson := by
  refine .trans (.members (List.Perm.swap _ _ [])) ?_
  exact .inside [] _ "array" [] [] (.members (List.Perm.swap _ _ []))

theorem apply_of_reordered_channelJson : channelJson.isKeyed = true ∧
    parse "detail" channelJson = .ok channelCases ∧ Reordered channelJson reversedChannelJson ∧
    (∃ table', parse "detail" reversedChannelJson = .ok table' ∧ ∀ v,
      apply table' v = apply channelCases v) ∧
    apply channelCases .null = .null ∧
    ∃ mapped, apply channelCases (.arr [.str "a", .null]) = .arr mapped ∧ mapped.length = 2 := by
  have hkeyed : channelJson.isKeyed = true := rfl
  have hparse : parse "detail" channelJson = .ok channelCases := rfl
  obtain ⟨hother, hparts⟩ := apply_of_reordered hkeyed hparse reordered_channelJson
  obtain ⟨hsame, hmaps⟩ := hparts channelCases (.whole _)
  have hmap : (TypeCheck.array,
      TypeRule.map [(.string, .key "field" []), (.number, .key "value" [])]) ∈
      channelCases := List.mem_cons_of_mem _ List.mem_cons_self
  obtain ⟨mapped, happly, hlength, -⟩ := hmaps _ hmap [.str "a", .null]
  refine ⟨hkeyed, hparse, reordered_channelJson, hother, hsame .null ?_, mapped, happly, hlength⟩
  simp [channelCases, TypeCheck.holds]

end TypeTable

end BuilderApi
