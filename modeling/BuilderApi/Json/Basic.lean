import BuilderApi.Fields
import BuilderApi.Json.Double

/-!
# JSON values

A value keeps its members in their stored order, and its numbers as they were written: an integer
literal that fits in 64 bits stays an integer, every other number is a double, and the two never
compare equal.
-/

namespace BuilderApi

/-- A JSON number: an integer, or a double. -/
inductive Number where
  /-- An integer of at most 64 bits. -/
  | int (value : Int)
  /-- Any other number. -/
  | double (value : Double)
deriving DecidableEq, Inhabited

/-- A JSON value, with the members of objects in stored order. -/
inductive Json where
  /-- The null value. -/
  | null
  /-- A truth value. -/
  | bool (value : Bool)
  /-- A number. -/
  | num (value : Number)
  /-- A string. -/
  | str (value : String)
  /-- An array. -/
  | arr (items : List Json)
  /-- An object. -/
  | obj (members : List (String × Json))
deriving Inhabited

namespace Number

/-- Is it zero? -/
def isZero : Number → Bool
  | .int n => n == 0
  | .double x => x.isZero

/-- The text of a number. -/
def chars : Number → List Char
  | .int n => if n < 0 then '-' :: Nat.toDigits 10 n.natAbs else Nat.toDigits 10 n.natAbs
  | .double x => x.chars

end Number

namespace Json

/-- A member of an object; other values have none. -/
def get? : Json → String → Option Json
  | .obj members, name => Fields.get? members name
  | _, _ => none

/-- The text of a string value. -/
def str? : Json → Option String
  | .str s => some s
  | _ => none

/-- The items of an array value. -/
def arr? : Json → Option (List Json)
  | .arr items => some items
  | _ => none

/-- The members of an object value. -/
def obj? : Json → Option (Fields Json)
  | .obj members => some members
  | _ => none

/-- Is it an array? -/
def isArr : Json → Bool
  | .arr _ => true
  | _ => false

/-- Is it an object? -/
def isObj : Json → Bool
  | .obj _ => true
  | _ => false

/-- Is it null? -/
def isNull : Json → Bool
  | .null => true
  | _ => false

/-- The member at the end of a path of names. -/
def getPath? (value : Json) : List String → Option Json
  | [] => some value
  | name :: rest => (value.get? name).bind (·.getPath? rest)

/-- An array of strings. -/
def strs (items : List String) : Json := .arr (items.map .str)

/-- Does a script treat the value as true? Null, `false`, zero and the empty string are not. -/
def truthy : Json → Bool
  | .null => false
  | .bool b => b
  | .num n => !n.isZero
  | .str s => s ≠ ""
  | .arr _ => true
  | .obj _ => true

end Json

end BuilderApi
