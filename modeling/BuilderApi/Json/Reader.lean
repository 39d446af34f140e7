import BuilderApi.Json.Passing

/-!
# Reading JSON text

`Document.ofText` reads the first value of a text; what follows that value is ignored. `Json.parse?`
wants the whole text to be one value. Lists and objects may be nested 127 deep.

The nesting that is still allowed is the measure of the recursion: one level of lists and objects is
read by a loop over the text, given how to read the values one level further down. The loops are
bounded by the length of the text, which they never use up, since every turn consumes a character.

Where a member of an object cannot be read to its end, the rest of the object is still read if the
member can be passed over: a reader that does not want the member will ask for what follows it.
-/

namespace BuilderApi

namespace Reader

/-! ### Lists and objects -/

/-- What reading a value leaves: the document, and the text behind it unless reading stopped
inside. -/
abbrev Outcome := Document × Option (List Char)

/-- The items of a list from the one at the start of the text. -/
def itemLoop (read : List Char → Outcome) :
    Nat → List Char → List Document × ListEnd × Option (List Char)
  | 0, _ => ([], .closed, none)
  | bound + 1, text =>
    match read text with
    | (item, none) => ([item], .closed, none)
    | (item, some rest) =>
      match skipBlanks rest with
      | [] => ([item], .fault .endInList, none)
      | ']' :: rest => ([item], .closed, some rest)
      | ',' :: rest =>
        match skipBlanks rest with
        | [] => ([item], .fault .endInValue, none)
        | ']' :: _ => ([item], .fault .trailingComma, none)
        | next =>
          let (items, ending, rest) := itemLoop read bound next
          (item :: items, ending, rest)
      | _ => ([item], .fault .itemEndDue, none)

/-- A list behind its opening bracket. -/
def list (read : List Char → Outcome) (bound : Nat) (text : List Char) : Outcome :=
  match skipBlanks text with
  | [] => (.arr [] (.fault .endInList), none)
  | ']' :: rest => (.arr [] .closed, some rest)
  | text =>
    let (items, ending, rest) := itemLoop read bound text
    (.arr items ending, rest)

/-- The value of a member, and the text behind it if it can be read or passed over. -/
def memberPart (read : List Char → Outcome) (name : String) (text : List Char) :
    NamedPart Document × Option (List Char) :=
  match read text with
  | (document, some rest) => (⟨name, document, none⟩, some rest)
  | (document, none) =>
    match passOver text with
    | .ok rest => (⟨name, document, none⟩, some rest)
    | .error fault => (⟨name, document, some fault⟩, none)

/-- The members of an object from the one whose name starts behind this quote. -/
def memberLoop (read : List Char → Outcome) (size : Nat) :
    Nat → List Char → List (NamedPart Document) × ObjectEnd × Option (List Char)
  | 0, _ => ([], .closed, none)
  | bound + 1, text =>
    match stringTail [] size text with
    | .error fault => ([], .atName fault, none)
    | .ok (name, rest) =>
      match skipBlanks rest with
      | [] => ([], .atColon name .endInObject, none)
      | ':' :: rest =>
        match memberPart read name rest with
        | (member, none) => ([member], .closed, none)
        | (member, some rest) =>
          match skipBlanks rest with
          | [] => ([member], .atName .endInObject, none)
          | '\x7d' :: rest => ([member], .closed, some rest)
          | ',' :: rest =>
            match skipBlanks rest with
            | [] => ([member], .atName .endInValue, none)
            | '"' :: rest =>
              let (members, ending, rest) := memberLoop read size bound rest
              (member :: members, ending, rest)
            | '\x7d' :: _ => ([member], .atName .trailingComma, none)
            | _ => ([member], .atName .nameDue, none)
          | _ => ([member], .atName .memberEndDue, none)
      | _ => ([], .atColon name .colonDue, none)

/-- An object behind its opening brace. -/
def object (read : List Char → Outcome) (bound : Nat) (text : List Char) : Outcome :=
  match skipBlanks text with
  | [] => (.obj [] (.atName .endInObject), none)
  | '\x7d' :: rest => (.obj [] .closed, some rest)
  | '"' :: rest =>
    let (members, ending, rest) := memberLoop read bound bound rest
    (.obj members ending, rest)
  | _ => (.obj [] (.atName .nameDue), none)

/-- A leaf that was read, or its fault. -/
def leaf {α : Type} (wrap : α → Document) : Except Fault (α × List Char) → Outcome
  | .ok (found, rest) => (wrap found, some rest)
  | .error fault => (.broken fault, none)

/-- A word that was read, or its fault. -/
def wordLeaf (document : Document) : Except Fault (List Char) → Outcome
  | .ok rest => (document, some rest)
  | .error fault => (.broken fault, none)

/-- The first value of a text, with at most so many levels of lists and objects. -/
def value (bound : Nat) (depth : Nat) (text : List Char) : Outcome :=
  match skipBlanks text with
  | [] => (.broken .endInValue, none)
  | c :: rest =>
    if c = '"' then leaf .str (stringTail [] bound rest)
    else if c = '[' then
      match depth with
      | 0 => (.arr [] (.fault .tooDeep), none)
      | below + 1 => list (value bound below) bound rest
    else if c = '\x7b' then
      match depth with
      | 0 => (.obj [] .tooDeep, none)
      | below + 1 => object (value bound below) bound rest
    else if c = '-' then leaf .num (number true rest)
    else if c.isDigit then leaf .num (number false (c :: rest))
    else if c = 'n' then wordLeaf .null (word ['u', 'l', 'l'] rest)
    else if c = 't' then wordLeaf (.bool true) (word ['r', 'u', 'e'] rest)
    else if c = 'f' then wordLeaf (.bool false) (word ['a', 'l', 's', 'e'] rest)
    else (.broken .valueDue, none)

/-- How deep lists and objects may be nested. -/
def depthLimit : Nat := 127

/-- Reads the first value of a text. -/
def read (text : List Char) : Outcome :=
  value text.length depthLimit text

end Reader

/-- The first value of a text; what follows it is ignored. -/
def Document.ofText (text : String) : Document :=
  (Reader.read text.toList).1

/-- The value of a text that is one JSON value from end to end. -/
def Json.parse? (text : String) : Option Json :=
  match Reader.read text.toList with
  | (document, some rest) =>
    if Reader.skipBlanks rest = [] then document.value.toOption else none
  | (_, none) => none

end BuilderApi
