import BuilderApi.Json.Document
import BuilderApi.Json.Literal

/-!
# Tokens of JSON text

Blanks, strings, numbers and words. A token is read from the start of a text; what is left behind it
comes back with it, or else the fault that stops the reading.
-/

namespace BuilderApi

namespace Reader

/-- The blanks of JSON. -/
def isBlank (c : Char) : Bool :=
  c == ' ' || c == '\n' || c == '\t' || c == '\r'

/-- The text behind its leading blanks. -/
def skipBlanks (text : List Char) : List Char :=
  text.dropWhile isBlank

/-! ### Strings -/

/-- The value of a hexadecimal digit. -/
def hexValue? (c : Char) : Option Nat :=
  if '0' ≤ c ∧ c ≤ '9' then some (c.toNat - '0'.toNat)
  else if 'a' ≤ c ∧ c ≤ 'f' then some (c.toNat - 'a'.toNat + 10)
  else if 'A' ≤ c ∧ c ≤ 'F' then some (c.toNat - 'A'.toNat + 10)
  else none

/-- Four hexadecimal digits. A text of fewer than four bytes is cut short, not wrong. -/
def hexFour : List Char → Except Fault (Nat × List Char)
  | a :: b :: c :: d :: rest =>
    match hexValue? a, hexValue? b, hexValue? c, hexValue? d with
    | some a, some b, some c, some d => .ok (((a * 16 + b) * 16 + c) * 16 + d, rest)
    | _, _, _, _ => .error .badEscape
  | short =>
    if (String.ofList short).utf8ByteSize ≥ 4 then .error .badEscape else .error .endInString

/-- Is this a leading surrogate? -/
def isLead (unit : Nat) : Bool := 0xD800 ≤ unit && unit ≤ 0xDBFF

/-- Is this a trailing surrogate? -/
def isTrail (unit : Nat) : Bool := 0xDC00 ≤ unit && unit ≤ 0xDFFF

/-- The character of a `\u` escape, behind the `u`: one unit, or a pair of surrogates in two
escapes. -/
def unicodeEscape (text : List Char) : Except Fault (Char × List Char) := do
  let (first, rest) ← hexFour text
  if isTrail first then .error .loneSurrogate
  else if !isLead first then .ok (Char.ofNat first, rest)
  else
    match rest with
    | [] | ['\\'] => .error .endInString
    | '\\' :: 'u' :: rest =>
      let (second, rest) ← hexFour rest
      if isTrail second then
        .ok (Char.ofNat ((first - 0xD800) * 0x400 + (second - 0xDC00) + 0x10000), rest)
      else .error .loneSurrogate
    | _ => .error .halfEscape

/-- The character of an escape, behind the backslash. -/
def escape : List Char → Except Fault (Char × List Char)
  | [] => .error .endInString
  | 'u' :: rest => unicodeEscape rest
  | '"' :: rest => .ok ('"', rest)
  | '\\' :: rest => .ok ('\\', rest)
  | '/' :: rest => .ok ('/', rest)
  | 'b' :: rest => .ok ('\x08', rest)
  | 'f' :: rest => .ok ('\x0c', rest)
  | 'n' :: rest => .ok ('\n', rest)
  | 'r' :: rest => .ok ('\r', rest)
  | 't' :: rest => .ok ('\t', rest)
  | _ :: _ => .error .badEscape

/-- The string behind an opening quote, given its first characters in reverse. -/
def stringTail (done : List Char) : Nat → List Char → Except Fault (String × List Char)
  | 0, _ => .error .endInString
  | _ + 1, [] => .error .endInString
  | bound + 1, c :: rest =>
    if c = '"' then .ok (String.ofList done.reverse, rest)
    else if c = '\\' then
      match escape rest with
      | .ok (decoded, rest) => stringTail (decoded :: done) bound rest
      | .error fault => .error fault
    else if c.toNat < 32 then .error .controlCharacter
    else stringTail (c :: done) bound rest

/-! ### Numbers and words -/

/-- The digits at the start of a text. -/
def digits (text : List Char) : List Nat × List Char :=
  ((text.takeWhile Char.isDigit).map (fun c => c.toNat - '0'.toNat), text.dropWhile Char.isDigit)

/-- At least one digit; without one the text is cut short or wrong. -/
def someDigits (text : List Char) : Except Fault (List Nat × List Char) :=
  match digits text with
  | ([], []) => .error .endInValue
  | ([], _) => .error .badNumber
  | found => .ok found

/-- The digits behind a point, if there is one. -/
def fractionPart : List Char → Except Fault (Option (List Nat) × List Char)
  | '.' :: rest => do
    let (found, rest) ← someDigits rest
    return (some found, rest)
  | text => .ok (none, text)

/-- The exponent, if there is one. -/
def exponentPart (text : List Char) : Except Fault (Option Int × List Char) :=
  let unsigned (rest : List Char) (sign : Int) : Except Fault (Option Int × List Char) := do
    let (found, rest) ← someDigits rest
    return (some (sign * found.foldl (fun n digit => n * 10 + digit) (0 : Nat)), rest)
  match text with
  | 'e' :: '+' :: rest | 'E' :: '+' :: rest => unsigned rest 1
  | 'e' :: '-' :: rest | 'E' :: '-' :: rest => unsigned rest (-1)
  | 'e' :: rest | 'E' :: rest => unsigned rest 1
  | _ => .ok (none, text)

/-- A number, behind its minus if it has one. A leading zero stands alone. -/
def number (negative : Bool) (text : List Char) : Except Fault (Number × List Char) := do
  let (whole, rest) ← someDigits text
  if whole.length > 1 ∧ whole.head? = some 0 then .error .badNumber
  else
    let (fraction, rest) ← fractionPart rest
    let (exponent, rest) ← exponentPart rest
    match (NumberLiteral.mk negative whole fraction exponent).number with
    | some value => .ok (value, rest)
    | none => .error .numberRange

/-- The rest of a word, letter by letter. -/
def word : List Char → List Char → Except Fault (List Char)
  | [], text => .ok text
  | _ :: _, [] => .error .endInValue
  | letter :: letters, c :: rest => if c = letter then word letters rest else .error .wordDue

end Reader

end BuilderApi
