import BuilderApi.Json.Basic
import BuilderApi.Proofs.Json.Nearest

/-!
# Properties of all parts of a value

A test holds everywhere in a value when it holds of the value and of all its parts, at every depth.
Two tests matter for values that are written into scripts: that doubles are finite numbers, and that
the members of objects have names of a certain kind.
-/

namespace BuilderApi

namespace Json

mutual

/-- Does the test hold of the value and of all its parts? -/
def everywhere (test : Json → Bool) : Json → Bool
  | .arr items => test (.arr items) && itemsEverywhere test items
  | .obj members => test (.obj members) && membersEverywhere test members
  | value => test value

/-- Does the test hold everywhere in all items? -/
def itemsEverywhere (test : Json → Bool) : List Json → Bool
  | [] => true
  | item :: rest => everywhere test item && itemsEverywhere test rest

/-- Does the test hold everywhere in the values of all members? -/
def membersEverywhere (test : Json → Bool) : List (String × Json) → Bool
  | [] => true
  | (_, value) :: rest => everywhere test value && membersEverywhere test rest

end

variable {test : Json → Bool}

theorem itemsEverywhere_iff {items : List Json} :
    itemsEverywhere test items = true ↔ ∀ item ∈ items, item.everywhere test = true := by
  induction items with
  | nil => simp [itemsEverywhere]
  | cons item rest ih => simp [itemsEverywhere, ih]

theorem membersEverywhere_iff {members : List (String × Json)} :
    membersEverywhere test members = true ↔
      ∀ member ∈ members, member.2.everywhere test = true := by
  induction members with
  | nil => simp [membersEverywhere]
  | cons member rest ih => simp [membersEverywhere, ih]

@[simp] theorem everywhere_arr {items : List Json} : (Json.arr items).everywhere test = true ↔
    test (.arr items) = true ∧ ∀ item ∈ items, item.everywhere test = true := by
  rw [everywhere, Bool.and_eq_true, itemsEverywhere_iff]

@[simp] theorem everywhere_obj {members : List (String × Json)} :
    (Json.obj members).everywhere test = true ↔
    test (.obj members) = true ∧ ∀ member ∈ members, member.2.everywhere test = true := by
  rw [everywhere, Bool.and_eq_true, membersEverywhere_iff]

/-- A double that is no finite number is no JSON value. -/
def isFiniteNumber : Json → Bool
  | .num (.double x) => x.isFinite
  | _ => true

/-- Are all numbers in the value finite? -/
def isFinite (value : Json) : Bool := value.everywhere isFiniteNumber

/-- Do the names of the members pass a test, if the value is an object? -/
def namesPass (test : String → Bool) : Json → Bool
  | .obj members => members.all fun member => test member.1
  | _ => true

end Json

end BuilderApi
