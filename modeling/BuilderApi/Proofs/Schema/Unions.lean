import BuilderApi.Schema.ArrayShape
import Mathlib.Data.List.Basic

/-!
# Unions of an array and its item

A choice of two branches is array-shaped if one of them is an array of what the other one is
declared to be. Read like this (`BuilderApi.Json.IsArrayUnion`) the two branches play the same part.
The detection asks less: it takes the first branch that is an array and compares its items with the
other branch, once (`BuilderApi.isArrayType_eq_true_iff`).

As long as at most one branch is an array that is the same, also about the order. Where both are,
the second one is never asked, so a list beside a list of lists is array-shaped in one order and not
in the other (`BuilderApi.isArrayType_swap_iff`). Beside this only types that are no names are
treated in another way: they agree with nothing, not even with themselves.
-/

namespace BuilderApi

namespace Json

/-- The declared type of the items of an array. -/
def itemType? (array : Json) : Option Json := array.getPath? ["items", "type"]

/-- Is the node declared to be an array? -/
def IsArrayTyped (node : Json) : Prop := node.declaredType = some "array"

/-- The node is an array of what the other one is: the two types are declared alike, or both left
out. -/
def IsArrayOf (array bare : Json) : Prop := array.IsArrayTyped ∧ array.itemType? = bare.get? "type"

/-- One of two branches is an array of what the other one is. -/
def IsArrayUnion (first second : Json) : Prop := first.IsArrayOf second ∨ second.IsArrayOf first

/-- A type that is declared is a name, and no list of names. -/
def IsName (type : Option Json) : Prop := ∀ value ∈ type, ∃ name, value = .str name

/-- Both branches are arrays, and of the two only the second one has arrays as its items. -/
structure HidesArrays (first second : Json) : Prop where
  /-- The branch that is asked is an array. -/
  front : first.IsArrayTyped
  /-- So is the other one. -/
  back : second.IsArrayTyped
  /-- The items of the first one are not declared to be arrays. -/
  asked : first.itemType? ≠ some (.str "array")
  /-- Those of the second one are. -/
  hidden : second.itemType? = some (.str "array")

variable {array bare : Json}

theorem isArrayTyped_iff {node : Json} :
    node.IsArrayTyped ↔ node.get? "type" = some (.str "array") := by
  unfold IsArrayTyped declaredType
  cases node.get? "type" with
  | none => simp
  | some value => cases value <;> simp [str?]

/-- Beside an array, an array of arrays is a union. -/
theorem isArrayOf_iff_of_isArrayTyped (hbare : bare.IsArrayTyped) :
    array.IsArrayOf bare ↔ array.IsArrayTyped ∧ array.itemType? = some (.str "array") := by
  rw [IsArrayOf, isArrayTyped_iff.1 hbare]

end Json

open Json

variable {array bare first second : Json}

/-- **The detection compares declared types**, but of those that are declared only names. -/
theorem sameItemType_iff :
    sameItemType bare array = true ↔ array.itemType? = bare.get? "type" ∧
    IsName (bare.get? "type") := by
  have hpath : array.getPath? ["items", "type"] = array.itemType? := rfl
  unfold sameItemType IsName
  rw [hpath]
  split
  · next hbare hitem => simp [hbare, hitem]
  · next a b hbare hitem =>
    rw [hbare, hitem, beq_iff_eq]
    simp [eq_comm]
  · next hnone hnames =>
    -- what is left are types that are declared on one side only, or that are no names
    rw [Bool.false_eq_true, false_iff]
    rintro ⟨hsame, hname⟩
    cases hbare : bare.get? "type" with
    | none => exact hnone hbare (hsame.trans hbare)
    | some value =>
      obtain ⟨name, rfl⟩ := hname value hbare
      exact hnames name name hbare (hsame.trans hbare)

/-- **What the detection asks of a choice of two branches**: the first array among them is compared
with the other branch. -/
theorem isArrayType_eq_true_iff {node : Json} (hnode : ¬node.IsArrayTyped)
    (hbranches : node.branches? ["anyOf", "oneOf"] = some [first, second]) :
    isArrayType node = true ↔
      first.IsArrayOf second ∧ IsName (second.get? "type") ∨
        ¬first.IsArrayTyped ∧ second.IsArrayOf first ∧ IsName (first.get? "type") := by
  have hfirst := @sameItemType_iff first second
  have hsecond := @sameItemType_iff second first
  have hne : node.declaredType ≠ some "array" := hnode
  unfold isArrayType
  rw [if_neg hne, hbranches]
  dsimp only
  split
  · next harray =>
    have harray : first.IsArrayTyped := harray
    simp [IsArrayOf, harray, hfirst]
  · next harray =>
    have harray : ¬first.IsArrayTyped := harray
    split
    · next hother =>
      have hother : second.IsArrayTyped := hother
      simp [IsArrayOf, harray, hother, hsecond]
    · next hother =>
      have hother : ¬second.IsArrayTyped := hother
      simp [IsArrayOf, harray, hother]

theorem isName_of_isArrayTyped {node : Json} (h : node.IsArrayTyped) :
    IsName (node.get? "type") := by
  rw [isArrayTyped_iff.1 h]
  rintro value ⟨⟩
  exact ⟨_, rfl⟩

/-- **Two arrays are told by the first one alone.** -/
theorem isArrayType_of_arrays {node : Json} (hnode : ¬node.IsArrayTyped)
    (hbranches : node.branches? ["anyOf", "oneOf"] = some [first, second])
    (hfirst : first.IsArrayTyped) (hsecond : second.IsArrayTyped) :
    isArrayType node = true ↔ first.itemType? = some (.str "array") := by
  rw [isArrayType_eq_true_iff hnode hbranches, isArrayOf_iff_of_isArrayTyped hsecond]
  simp [hfirst, isName_of_isArrayTyped hsecond]

/-- **Where the order of the branches matters, and where the detection misses a union.** The answer
changes with the order exactly if both branches are arrays and one of them alone has arrays as its
items. And it says whether one branch is an array of what the other one is, except where the array
of arrays comes second or where the two have one declared type that is no name. -/
theorem isArrayType_swap_iff {node swapped : Json} (hnode : ¬node.IsArrayTyped)
    (hbranches : node.branches? ["anyOf", "oneOf"] = some [first, second])
    (hswapped : ¬swapped.IsArrayTyped)
    (hbranches' : swapped.branches? ["anyOf", "oneOf"] = some [second, first]) :
    (isArrayType swapped = isArrayType node ↔
      ¬HidesArrays first second ∧ ¬HidesArrays second first) ∧
    ((isArrayType node = true ↔ IsArrayUnion first second) ↔
      ¬HidesArrays first second ∧ (first.IsArrayOf second → IsName (second.get? "type")) ∧
        (second.IsArrayOf first → IsName (first.get? "type"))) := by
  rw [Bool.eq_iff_iff]
  by_cases hfirst : first.IsArrayTyped
  · by_cases hsecond : second.IsArrayTyped
    · -- both branches are arrays, and their types are names
      have hname := isName_of_isArrayTyped hfirst
      have hname' := isName_of_isArrayTyped hsecond
      have hhides : HidesArrays first second ↔ first.itemType? ≠ some (.str "array") ∧
          second.itemType? = some (.str "array") :=
        ⟨fun h => ⟨h.asked, h.hidden⟩, fun h => ⟨hfirst, hsecond, h.1, h.2⟩⟩
      have hhides' : HidesArrays second first ↔ second.itemType? ≠ some (.str "array") ∧
          first.itemType? = some (.str "array") :=
        ⟨fun h => ⟨h.asked, h.hidden⟩, fun h => ⟨hsecond, hfirst, h.1, h.2⟩⟩
      rw [isArrayType_of_arrays hnode hbranches hfirst hsecond,
        isArrayType_of_arrays hswapped hbranches' hsecond hfirst, IsArrayUnion,
        isArrayOf_iff_of_isArrayTyped hsecond,
        isArrayOf_iff_of_isArrayTyped hfirst, hhides, hhides']
      simp only [hfirst, hsecond, hname, hname', true_and, implies_true, and_true]
      tauto
    · have hhides : ¬HidesArrays first second := fun h => hsecond h.back
      have hhides' : ¬HidesArrays second first := fun h => hsecond h.front
      have hbare : ¬second.IsArrayOf first := fun h => hsecond h.1
      rw [isArrayType_eq_true_iff hnode hbranches, isArrayType_eq_true_iff hswapped hbranches',
        IsArrayUnion]
      tauto
  · have hhides : ¬HidesArrays first second := fun h => hfirst h.front
    have hhides' : ¬HidesArrays second first := fun h => hfirst h.back
    have hbare : ¬first.IsArrayOf second := fun h => hfirst h.1
    rw [isArrayType_eq_true_iff hnode hbranches, isArrayType_eq_true_iff hswapped hbranches',
      IsArrayUnion]
    by_cases hsecond : second.IsArrayTyped
    · tauto
    · have hbare' : ¬second.IsArrayOf first := fun h => hsecond h.1
      tauto

/-- The node that offers a choice of two branches. -/
def choice (first second : Json) : Json := .obj [("anyOf", .arr [first, second])]

/-- Texts, as a list of them. -/
def textList : Json := .obj [("type", .str "array"), ("items", .obj [("type", .str "string")])]

/-- A text or texts. -/
theorem isArrayType_swap_text :
    let text : Json := .obj [("type", .str "string")]
    ¬(choice text textList).IsArrayTyped ∧ ¬(choice textList text).IsArrayTyped ∧
    isArrayType (choice textList text) = isArrayType (choice text textList) ∧
    (isArrayType (choice text textList) = true ↔ IsArrayUnion text textList) := by
  intro text
  have hnode : ¬(choice text textList).IsArrayTyped := nofun
  have hswapped : ¬(choice textList text).IsArrayTyped := nofun
  have htext : ¬text.IsArrayTyped := by simp [text, isArrayTyped_iff, get?, Fields.get?]
  have hname : IsName (text.get? "type") := by
    rintro value ⟨⟩
    exact ⟨_, rfl⟩
  obtain ⟨horder, hunion⟩ := @isArrayType_swap_iff text textList _ _ hnode rfl hswapped rfl
  exact ⟨hnode, hswapped, horder.2 ⟨fun h => htext h.front, fun h => htext h.back⟩,
    hunion.2 ⟨fun h => htext h.front, fun h => absurd h.1 htext, fun _ => hname⟩⟩

/-- Lists. -/
def plainList : Json := .obj [("type", .str "array")]

/-- Lists of lists. -/
def nestedList : Json := .obj [("type", .str "array"), ("items", .obj [("type", .str "array")])]

/-- A list or a list of lists is a choice of an item and an array in either order, and taken for one
in one of them. -/
theorem isArrayType_of_hidden_list :
    ¬(choice plainList nestedList).IsArrayTyped ∧ ¬(choice nestedList plainList).IsArrayTyped ∧
    (choice plainList nestedList).branches? ["anyOf", "oneOf"] = some [plainList, nestedList] ∧
    (choice nestedList plainList).branches? ["anyOf", "oneOf"] = some [nestedList, plainList] ∧
    IsArrayUnion plainList nestedList ∧ IsArrayUnion nestedList plainList ∧
    isArrayType (choice plainList nestedList) = false ∧
    isArrayType (choice nestedList plainList) = true :=
  ⟨nofun, nofun, rfl, rfl, .inr ⟨rfl, rfl⟩, .inl ⟨rfl, rfl⟩, by decide, by decide⟩

end BuilderApi
