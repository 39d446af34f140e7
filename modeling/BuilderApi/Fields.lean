/-!
# Fields: named values in order of first insertion

Tables, property maps and objects all share one container: a list of name and value pairs in which
putting a value under a name that is already there replaces the value **at its old place**, and a
new name goes to the end. `Fields.ofList` applies that rule to any list of pairs, so a repeated name
keeps its first place and its last value.
-/

namespace BuilderApi

/-- Named values in order of first insertion. -/
abbrev Fields (α : Type) := List (String × α)

namespace Fields

variable {α β : Type}

/-- The value under a name. -/
def get? : Fields α → String → Option α
  | [], _ => none
  | (k, v) :: rest, name => if k = name then some v else get? rest name

/-- Puts a value under a name: in place when the name is there, else at the end. -/
def put : Fields α → String → α → Fields α
  | [], name, value => [(name, value)]
  | (k, v) :: rest, name, value =>
    if k = name then (name, value) :: rest else (k, v) :: put rest name value

/-- Removes a name; the others keep their order. -/
def erase (fields : Fields α) (name : String) : Fields α :=
  fields.filter (fun field => field.1 ≠ name)

/-- The names, in order. -/
def names (fields : Fields α) : List String :=
  fields.map Prod.fst

/-- Is a value stored under this name? -/
def has (fields : Fields α) (name : String) : Bool :=
  (get? fields name).isSome

/-- Puts every pair of a list, from left to right. -/
def putAll (fields : Fields α) (pairs : List (String × α)) : Fields α :=
  pairs.foldl (fun acc pair => put acc pair.1 pair.2) fields

/-- The fields that a list of pairs describes. -/
def ofList (pairs : List (String × α)) : Fields α :=
  putAll [] pairs

/-! ### What each operation does to a lookup -/

@[simp] theorem get?_nil (name : String) : get? ([] : Fields α) name = none := rfl

theorem get?_put (fields : Fields α) (name other : String) (value : α) :
    get? (put fields name value) other = if name = other then some value
    else get? fields other := by
  induction fields with
  | nil => simp [put, get?]
  | cons field rest ih =>
    obtain ⟨k, v⟩ := field
    by_cases hk : k = name
    · subst hk
      by_cases ho : k = other <;> simp [put, get?, ho]
    · by_cases ho : k = other
      · subst ho
        simp [put, get?, hk, Ne.symm hk]
      · simp [put, get?, hk, ho, ih]

@[simp] theorem get?_put_self (fields : Fields α) (name : String) (value : α) :
    get? (put fields name value) name = some value := by
  simp [get?_put]

theorem mem_names_of_get? {fields : Fields α} {name : String} {value : α}
    (h : get? fields name = some value) :
    name ∈ names fields := by
  induction fields with
  | nil => cases h
  | cons field rest ih =>
    obtain ⟨k, v⟩ := field
    by_cases hk : k = name
    · exact List.mem_cons.2 (.inl hk.symm)
    · rw [get?, if_neg hk] at h
      exact List.mem_cons_of_mem _ (ih h)

/-- A put keeps the names that are there and may add its own at the end. -/
theorem names_put (fields : Fields α) (name : String) (value : α) :
    names (put fields name value) =
      if name ∈ names fields then names fields else names fields ++ [name] := by
  induction fields with
  | nil => simp [put, names]
  | cons field rest ih =>
    obtain ⟨k, v⟩ := field
    simp only [names] at ih
    by_cases hk : k = name
    · subst hk
      simp [put, names]
    · by_cases hm : name ∈ rest.map Prod.fst <;>
        simp [put, names, hk, Ne.symm hk, hm, ih]

end Fields

end BuilderApi
