import BuilderApi.Json.Basic

/-!
# Combining values

Three operations on plain values that builders share: opening nested arrays, merging objects, and
moving the fields of an object one level down.

Merging goes from left to right. A null field is skipped, two objects under one name are merged, and
on any other conflict the later value wins, except that the joining policy appends an array to an
array. A name keeps its first place.
-/

namespace BuilderApi

/-- How objects are merged where both sides have an array. -/
inductive MergePolicy where
  /-- The later array wins. -/
  | replace
  /-- The later array is appended to the earlier one. -/
  | concat
deriving DecidableEq, Inhabited

namespace MergePolicy

/-- The policy that a flag stands for. -/
def ofFlag (flag : Nat) : MergePolicy := if flag = 0 then .replace else .concat

/-- The flag of a policy. -/
def flag : MergePolicy → Nat
  | .replace => 0
  | .concat => 1

end MergePolicy

namespace Json

/-! ### Opening arrays -/

mutual

/-- The leaves of a value: the items of arrays at every depth, in order, or the value itself. -/
def leaves : Json → List Json
  | .arr items => itemLeaves items
  | value => [value]

/-- The leaves of items. -/
def itemLeaves : List Json → List Json
  | [] => []
  | item :: rest => leaves item ++ itemLeaves rest

end

/-! ### Merging objects -/

mutual

/-- Merges the members of an object into fields. -/
def mergeMembers (policy : MergePolicy) (target : Fields Json) : List (String × Json) → Fields Json
  | [] => target
  | (name, value) :: rest => mergeMembers policy (mergeMember policy target name value) rest

/-- Merges one member into fields. -/
def mergeMember (policy : MergePolicy) (target : Fields Json) (name : String) : Json → Fields Json
  | .null => target
  | .obj members =>
    match target.get? name with
    | some (.obj old) => target.put name (.obj (mergeMembers policy old members))
    | _ => target.put name (.obj members)
  | .arr items =>
    match policy, target.get? name with
    | .concat, some (.arr old) => target.put name (.arr (old ++ items))
    | _, _ => target.put name (.arr items)
  | .bool b => target.put name (.bool b)
  | .num n => target.put name (.num n)
  | .str s => target.put name (.str s)

end

/-- Merges a value into fields; only objects have anything to merge. -/
def mergeInto (policy : MergePolicy) (target : Fields Json) : Json → Fields Json
  | .obj members => mergeMembers policy target members
  | _ => target

/-- Merges values from left to right. -/
def mergeAll (policy : MergePolicy) (values : List Json) : Json :=
  .obj (values.foldl (mergeInto policy) [])

/-! ### Moving fields down -/

/-- Keeps some fields of an object and moves the others under one name; without others the name is
not added. Values that are no objects stay as they are. -/
def nest (keys : List String) (rest : String) : Json → Json
  | .obj members =>
    let top := members.filter fun field => keys.contains field.1
    let others := members.filter fun field => !keys.contains field.1
    if others.isEmpty then .obj top else .obj (Fields.put top rest (.obj others))
  | value => value

end Json

end BuilderApi
