import BuilderApi.Schema.Basic

/-!
# Searching a schema

An extractor says which concrete nodes it recognizes, what it takes from one, and how it combines
the findings of the branches of a combinator. The search follows references and combinators until
the extractor recognizes a node; where nothing is found the extractor has a default. The only
failure is a reference that leads back to itself.

The search carries the references that are **fresh** on the way to the current node. A fresh one is
used up for the part of the search behind it, so the pair of the number of fresh references and the
size of the node decreases; one that is no longer fresh closes a cycle.
-/

namespace BuilderApi

/-- A reference leads back to itself. -/
structure Cycle where
  /-- The reference that was met again. -/
  reference : String
deriving DecidableEq, Inhabited

/-- What a search looks for. -/
structure Extractor (α : Type) where
  /-- Does a concrete node carry it? -/
  recognizes : Json → Bool
  /-- What a recognized node gives. -/
  extract : Json → α
  /-- Combines the findings of the branches of a combinator, in order. -/
  gather : List α → α
  /-- What is found where there is nothing. -/
  fallback : α

/-- The names of the combinators, in order of precedence. -/
def combinators : List String := ["anyOf", "allOf", "oneOf"]

/-- The branches under the first of these names that holds an array. -/
def Json.branches? (names : List String) (node : Json) : Option (List Json) :=
  names.findSome? fun name => (node.get? name).bind Json.arr?

/-! ### Parts of a node are smaller than the node -/

theorem Fields.sizeOf_get?_lt {members : List (String × Json)} {name : String} {value : Json}
    (h : Fields.get? members name = some value) : sizeOf value < sizeOf members := by
  induction members with
  | nil => simp at h
  | cons member rest ih =>
    obtain ⟨k, v⟩ := member
    simp only [Fields.get?] at h
    by_cases hk : k = name
    · simp only [hk, if_true, Option.some.injEq] at h
      subst h
      simp only [List.cons.sizeOf_spec, Prod.mk.sizeOf_spec]
      omega
    · simp only [hk, if_false] at h
      have := ih h
      simp only [List.cons.sizeOf_spec]
      omega

theorem Json.sizeOf_get?_lt {node value : Json} {name : String} (h : node.get? name = some value) :
    sizeOf value < sizeOf node := by
  cases node with
  | obj members =>
    have := Fields.sizeOf_get?_lt (show Fields.get? members name = some value from h)
    simp only [Json.obj.sizeOf_spec]
    omega
  | _ => simp [Json.get?] at h

theorem Json.sizeOf_branch_lt {names : List String} {node branch : Json} {branches : List Json}
    (h : node.branches? names = some branches) (hb : branch ∈ branches) :
    sizeOf branch < sizeOf node := by
  obtain ⟨name, -, hname⟩ := List.exists_of_findSome?_eq_some h
  obtain ⟨value, hv, harr⟩ := Option.bind_eq_some_iff.1 hname
  cases value with
  | arr items =>
    simp only [Json.arr?, Option.some.injEq] at harr
    subst harr
    have h1 := Json.sizeOf_get?_lt hv
    have h2 := List.sizeOf_lt_of_mem hb
    simp only [Json.arr.sizeOf_spec] at h1
    omega
  | _ => simp [Json.arr?] at harr

namespace Schema

variable {α : Type}

/-- Searches from a node, with these references still fresh. -/
def searchFrom (schema : Schema) (x : Extractor α) (fresh : List String) (node : Json) :
    Except Cycle α :=
  match node.reference? with
  | some reference =>
    if _hfresh : reference ∈ fresh then
      match schema.lookup reference with
      | some target => schema.searchFrom x (fresh.erase reference) target
      | none => .ok x.fallback
    else .error ⟨reference⟩
  | none =>
    if x.recognizes node then .ok (x.extract node)
    else
      match _hbranches : node.branches? combinators with
      | some branches => do
        let parts ← branches.attach.mapM fun branch => schema.searchFrom x fresh branch.1
        return x.gather parts
      | none => .ok x.fallback
termination_by (fresh.length, sizeOf node)
decreasing_by
  · left
    rw [List.length_erase_of_mem _hfresh]
    have := List.length_pos_of_mem _hfresh
    omega
  · right
    exact Json.sizeOf_branch_lt _hbranches branch.2

/-- Searches from a node; its own references and those of the document are fresh. -/
def search (schema : Schema) (x : Extractor α) (node : Json) : Except Cycle α :=
  schema.searchFrom x (node.references.foldr List.insert schema.references) node

end Schema

/-! ### The three extractors -/

/-- Is the node an object shape? -/
def Json.isObjectShape (node : Json) : Bool :=
  (node.get? "type").bind Json.str? == some "object"

/-- The strings of an array value, in order; other items are left out. -/
def Json.stringItems (value : Option Json) : List String :=
  ((value.bind Json.arr?).getD []).filterMap Json.str?

/-- Joins lists of strings and sorts the result by code point. -/
def joinSorted (parts : List (List String)) : List String :=
  parts.flatten.mergeSort (fun a b => decide (a ≤ b))

/-- Object shapes give their properties; of branches, later ones win. -/
def propertyShape : Extractor (Option Properties) where
  recognizes := Json.isObjectShape
  extract node := some (((node.get? "properties").bind Json.obj?).getD [])
  gather parts := some ((parts.filterMap id).foldl Fields.putAll [])
  fallback := none

/-- Nodes with an `enum` list give its strings. -/
def enumeration : Extractor (List String) where
  recognizes node := (node.get? "enum").any Json.isArr
  extract node := Json.stringItems (node.get? "enum")
  gather := joinSorted
  fallback := []

/-- The path to the enumeration of the `type` property. -/
def discriminantPath : List String := ["properties", "type", "enum"]

/-- Object shapes whose `type` property has an `enum` list give the strings of that list. -/
def discriminant : Extractor (List String) where
  recognizes node := node.isObjectShape && (node.getPath? discriminantPath).any Json.isArr
  extract node := Json.stringItems (node.getPath? discriminantPath)
  gather := joinSorted
  fallback := []

namespace Schema

/-- The properties of a node. -/
def props (schema : Schema) (node : Json) : Except Cycle (Option Properties) :=
  schema.search propertyShape node

/-- The enumerated strings of a node. -/
def enums (schema : Schema) (node : Json) : Except Cycle (List String) :=
  schema.search enumeration node

/-- The discriminants of a node. -/
def discriminants (schema : Schema) (node : Json) : Except Cycle (List String) :=
  schema.search discriminant node

/-- The properties of a named definition; none without a name or where nothing is found. -/
def definitionProps (schema : Schema) : Option String → Except Cycle Properties
  | none => .ok []
  | some name => do return (← schema.props (definitionNode name)).getD []

end Schema

end BuilderApi
