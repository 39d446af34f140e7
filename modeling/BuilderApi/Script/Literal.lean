import BuilderApi.Json.Printer

/-!
# Values as script literals

A value is written into a script as its compact JSON text, except that the two line separators
U+2028 and U+2029, which JSON allows inside strings, are escaped: in a script they would end the
line.
-/

namespace BuilderApi

namespace Script

/-- A character of a literal: the two line separators are escaped. -/
def escapeSeparator (c : Char) : List Char :=
  if c.toNat = 0x2028 then ['\\', 'u', '2', '0', '2', '8']
  else if c.toNat = 0x2029 then ['\\', 'u', '2', '0', '2', '9']
  else [c]

/-- A text with its line separators escaped. -/
def escapeSeparators (text : List Char) : List Char :=
  text.flatMap escapeSeparator

mutual

/-- The literal of a value. Arrays are written item by item. -/
def literalChars : Json → List Char
  | .arr items => '[' :: literalItems items ++ [']']
  | .str s => escapeSeparators (Json.str s).chars
  | .obj members => escapeSeparators (Json.obj members).chars
  | .null => Json.null.chars
  | .bool b => (Json.bool b).chars
  | .num n => (Json.num n).chars

/-- The literals of items, with commas between them. -/
def literalItems : List Json → List Char
  | [] => []
  | [item] => literalChars item
  | item :: next :: rest => literalChars item ++ ',' :: literalItems (next :: rest)

end

/-- The literal of a value. -/
def literal (value : Json) : String := String.ofList (literalChars value)

/-- The literal of a string. -/
def quoted (s : String) : String := literal (.str s)

end Script

end BuilderApi
