import BuilderApi.Schema.Search

/-!
# Array-shaped nodes

A property takes many values when its node is an array, or a choice of two branches one of which is
an array whose items have the declared type of the other. Types are compared as declared, and two
branches without a declared type agree.
-/

namespace BuilderApi

/-- The declared type of a node, when it is a string. -/
def Json.declaredType (node : Json) : Option String :=
  (node.get? "type").bind Json.str?

/-- Is the declared type of `bare` that of the items of `array`? -/
def sameItemType (bare array : Json) : Bool :=
  match bare.get? "type", array.getPath? ["items", "type"] with
  | none, none => true
  | some (.str a), some (.str b) => a == b
  | _, _ => false

/-- Is the node an array, or a choice between an array and its bare item? -/
def isArrayType (node : Json) : Bool :=
  if node.declaredType = some "array" then true
  else
    match node.branches? ["anyOf", "oneOf"] with
    | some [first, second] =>
      if first.declaredType = some "array" then sameItemType second first
      else if second.declaredType = some "array" then sameItemType first second
      else false
    | _ => false

end BuilderApi
