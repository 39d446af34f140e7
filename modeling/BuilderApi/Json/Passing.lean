import BuilderApi.Json.Token

/-!
# Passing over a value

A value that nobody wants is passed over by a simpler scan than the one that reads values. It knows
how the text has to look, but not what the text means: a number may be as large as it likes, the two
halves of a surrogate pair are not put together, and nesting is not limited. In turn it has fewer
words for what is missing.

The scan keeps the brackets that are still open. Every step but the one behind an opening bracket
consumes a character, so twice the length of the text bounds their number.
-/

namespace BuilderApi

namespace Passing

/-! ### Tokens -/

/-- Passes over an escape, behind the backslash. -/
def escape : List Char → Except Fault (List Char)
  | [] => .error .endInString
  | c :: rest =>
    if c = 'u' then do return (← Reader.hexFour rest).2
    else if c ∈ ['"', '\\', '/', 'b', 'f', 'n', 'r', 't'] then .ok rest
    else .error .badEscape

/-- Passes over a string, behind its opening quote. -/
def stringTail : Nat → List Char → Except Fault (List Char)
  | 0, _ => .error .endInString
  | _ + 1, [] => .error .endInString
  | bound + 1, c :: rest =>
    if c = '"' then .ok rest
    else if c = '\\' then
      match escape rest with
      | .ok rest => stringTail bound rest
      | .error fault => .error fault
    else if c.toNat < 32 then .error .controlCharacter
    else stringTail bound rest

/-- Passes over at least one digit. -/
def someDigits (text : List Char) : Except Fault (List Char) :=
  match Reader.digits text with
  | ([], _) => .error .badNumber
  | (_, rest) => .ok rest

/-- Passes over an exponent, if there is one. -/
def exponentPart : List Char → Except Fault (List Char)
  | 'e' :: '+' :: rest | 'E' :: '+' :: rest => someDigits rest
  | 'e' :: '-' :: rest | 'E' :: '-' :: rest => someDigits rest
  | 'e' :: rest | 'E' :: rest => someDigits rest
  | text => .ok text

/-- Passes over a number, behind its minus if it has one. A leading zero stands alone. -/
def number (text : List Char) : Except Fault (List Char) :=
  match Reader.digits text with
  | ([], _) => .error .badNumber
  | (0 :: _ :: _, _) => .error .badNumber
  | (_, '.' :: rest) => do exponentPart (← someDigits rest)
  | (_, rest) => exponentPart rest

/-! ### The scan -/

/-- An opening bracket. -/
inductive Bracket where
  /-- That of a list. -/
  | list
  /-- That of an object. -/
  | object
deriving DecidableEq, Inhabited

namespace Bracket

/-- The closing bracket. -/
def closing : Bracket → Char
  | .list => ']'
  | .object => '\x7d'

/-- The fault of a text that ends inside. -/
def endFault : Bracket → Fault
  | .list => .endInList
  | .object => .endInObject

/-- The fault of a text that goes on inside without a comma. -/
def commaFault : Bracket → Fault
  | .list => .itemEndDue
  | .object => .memberEndDue

end Bracket

/-- What is due next. -/
inductive Due where
  /-- A value. -/
  | value
  /-- A name and its colon, and then a value. -/
  | name
  /-- What an opening bracket is followed by. -/
  | inside
  /-- What a value is followed by. -/
  | behind
deriving DecidableEq, Inhabited

/-- What is due at the start of a part of a list or an object. -/
def Bracket.part : Bracket → Due
  | .list => .value
  | .object => .name

/-- Where a step of the scan leads: what is due, the brackets that are open, and the text. -/
abbrev Place := Due × List Bracket × List Char

/-- A value that is no list or object has been passed. -/
def passed (opened : List Bracket) (rest : Except Fault (List Char)) : Except Fault Place :=
  rest.map fun rest => (.behind, opened, rest)

/-- The start of a value. -/
def stepValue (opened : List Bracket) : List Char → Except Fault Place
  | [] => .error .endInValue
  | c :: rest =>
    if c = '"' then passed opened (stringTail (rest.length + 1) rest)
    else if c = '[' then .ok (.inside, .list :: opened, rest)
    else if c = '\x7b' then .ok (.inside, .object :: opened, rest)
    else if c = '-' then passed opened (number rest)
    else if c.isDigit then passed opened (number (c :: rest))
    else if c = 'n' then passed opened (Reader.word ['u', 'l', 'l'] rest)
    else if c = 't' then passed opened (Reader.word ['r', 'u', 'e'] rest)
    else if c = 'f' then passed opened (Reader.word ['a', 'l', 's', 'e'] rest)
    else .error .valueDue

/-- The start of a name. -/
def stepName (opened : List Bracket) : List Char → Except Fault Place
  | [] => .error .endInObject
  | c :: rest =>
    if c = '"' then do
      match Reader.skipBlanks (← stringTail (rest.length + 1) rest) with
      | [] => .error .endInObject
      | ':' :: rest => .ok (.value, opened, rest)
      | _ => .error .colonDue
    else .error .nameDue

/-- The text behind an opening bracket. -/
def stepInside (bracket : Bracket) (opened : List Bracket) : List Char → Except Fault Place
  | [] => .error bracket.endFault
  | c :: rest =>
    if c = bracket.closing then .ok (.behind, opened, rest)
    else .ok (bracket.part, bracket :: opened, c :: rest)

/-- The text behind a value. -/
def stepBehind (bracket : Bracket) (opened : List Bracket) : List Char → Except Fault Place
  | [] => .error bracket.endFault
  | c :: rest =>
    if c = bracket.closing then .ok (.behind, opened, rest)
    else if c = ',' then .ok (bracket.part, bracket :: opened, rest)
    else .error bracket.commaFault

/-- Scans until the brackets are closed; the text behind the value is left. -/
def scan : Nat → Place → Except Fault (List Char)
  | 0, _ => .error .endInValue
  | _ + 1, (.behind, [], text) => .ok text
  | bound + 1, (.behind, bracket :: opened, text) => do
    scan bound (← stepBehind bracket opened (Reader.skipBlanks text))
  | bound + 1, (.inside, opened, text) => do
    match opened with
    | bracket :: opened => scan bound (← stepInside bracket opened (Reader.skipBlanks text))
    | [] => .ok text
  | bound + 1, (.value, opened, text) => do
    scan bound (← stepValue opened (Reader.skipBlanks text))
  | bound + 1, (.name, opened, text) => do
    scan bound (← stepName opened (Reader.skipBlanks text))

end Passing

/-- Passes over the value at the start of a text; what follows it is left. -/
def passOver (text : List Char) : Except Fault (List Char) :=
  Passing.scan (2 * text.length + 2) (.value, [], text)

end BuilderApi
