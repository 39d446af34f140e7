import BuilderApi.Json.Basic

/-!
# Documents: text read as JSON, with its fault in place

A text is read once, without knowing what its reader wants. The result is a tree in which a fault
sits at the place where reading stopped: a broken leaf, or the end of a list or object that never
closed. Whoever walks the tree **in document order** meets the first problem first, whether it is a
fault of the text or a value of the wrong shape; so one walk serves both a text and a value that is
already there.

A reader may ignore members that it does not know. So an object goes on behind a member that cannot
be read, as long as the member can be passed over; if it cannot, the member says why.

A problem is a `Misfit`: the path of the value that was being read and the reason.
-/

namespace BuilderApi

/-- What is wrong with a text at the place where reading stopped. -/
inductive Fault where
  /-- The text ends where a value is due, or inside one. -/
  | endInValue
  /-- The text ends inside an object. -/
  | endInObject
  /-- The text ends inside a list. -/
  | endInList
  /-- The text ends inside a string. -/
  | endInString
  /-- Something else than a comma or a closing brace follows a member. -/
  | memberEndDue
  /-- Something else than a comma or a closing bracket follows an item. -/
  | itemEndDue
  /-- Something else than a colon follows a name. -/
  | colonDue
  /-- No value starts here. -/
  | valueDue
  /-- A misspelt `null`, `true` or `false`. -/
  | wordDue
  /-- A comma before a closing bracket or brace. -/
  | trailingComma
  /-- Something else than a string where a name is due. -/
  | nameDue
  /-- A number that is not written as JSON wants it. -/
  | badNumber
  /-- A number beyond the finite doubles. -/
  | numberRange
  /-- A raw control character inside a string. -/
  | controlCharacter
  /-- An unknown escape, or a hexadecimal digit that is none. -/
  | badEscape
  /-- A leading surrogate with no second escape. -/
  | halfEscape
  /-- A surrogate without its partner. -/
  | loneSurrogate
  /-- Lists and objects nested too deeply. -/
  | tooDeep
  /-- Text after the last field of a list that holds a record. -/
  | trailingText
deriving DecidableEq, Inhabited

/-- The wording of a fault. -/
def Fault.message : Fault → String
  | .endInValue => "EOF while parsing a value"
  | .endInObject => "EOF while parsing an object"
  | .endInList => "EOF while parsing a list"
  | .endInString => "EOF while parsing a string"
  | .memberEndDue => "expected `,` or `\x7d`"
  | .itemEndDue => "expected `,` or `]`"
  | .colonDue => "expected `:`"
  | .valueDue => "expected value"
  | .wordDue => "expected ident"
  | .trailingComma => "trailing comma"
  | .nameDue => "key must be a string"
  | .badNumber => "invalid number"
  | .numberRange => "number out of range"
  | .controlCharacter => "control character (\\u0000-\\u001F) found while parsing a string"
  | .badEscape => "invalid escape"
  | .halfEscape => "unexpected end of hex escape"
  | .loneSurrogate => "lone leading surrogate in hex escape"
  | .tooDeep => "recursion limit exceeded"
  | .trailingText => "trailing characters"

/-- How a list ends. A list whose last item cannot be read counts as closed, since no reader gets
past the item. -/
inductive ListEnd where
  /-- With its bracket. -/
  | closed
  /-- With a fault. -/
  | fault (fault : Fault)
deriving DecidableEq, Inhabited

/-- How an object ends. An object whose last member can neither be read nor passed over counts as
closed, since no reader gets past the member. -/
inductive ObjectEnd where
  /-- With its brace. -/
  | closed
  /-- Before it starts, because it is nested too deeply. -/
  | tooDeep
  /-- Where a name, a comma or the brace is due. -/
  | atName (fault : Fault)
  /-- Behind this name, where its colon is due. -/
  | atColon (name : String) (fault : Fault)
deriving DecidableEq, Inhabited

/-- A part that has a name. -/
structure NamedPart (α : Type) where
  /-- The name. -/
  name : String
  /-- The part. -/
  part : α
  /-- What keeps a reader from passing over the part, if it cannot be read either. -/
  obstacle : Option Fault

/-- What a text holds when it is read as JSON, as far as it can be read. Members keep repeated
names. -/
inductive Document where
  /-- The null value. -/
  | null
  /-- A truth value. -/
  | bool (value : Bool)
  /-- A number. -/
  | num (value : Number)
  /-- A string. -/
  | str (value : String)
  /-- A list and how it ends. -/
  | arr (items : List Document) (ending : ListEnd)
  /-- An object and how it ends. -/
  | obj (members : List (NamedPart Document)) (ending : ObjectEnd)
  /-- No value can be read here. -/
  | broken (fault : Fault)
deriving Inhabited

/-! ### Paths and misfits -/

/-- One step of a path. -/
inductive PathStep where
  /-- To the member of this name. -/
  | name (name : String)
  /-- To the item at this index. -/
  | index (index : Nat)
  /-- To a member whose name could not be read. -/
  | unknown
deriving DecidableEq, Inhabited

/-- The text of a path behind its first step. -/
def PathStep.rest : List PathStep → String
  | [] => ""
  | .name n :: steps => "." ++ n ++ rest steps
  | .index i :: steps => "[" ++ toString i ++ "]" ++ rest steps
  | .unknown :: steps => ".?" ++ rest steps

/-- The text of a path: names joined with dots, indices in brackets, and a dot alone for the
whole. -/
def PathStep.text : List PathStep → String
  | [] => "."
  | .name n :: steps => n ++ rest steps
  | .index i :: steps => "[" ++ toString i ++ "]" ++ rest steps
  | .unknown :: steps => "?" ++ rest steps

/-- What stands where something else was wanted. -/
inductive Found where
  /-- The null value. -/
  | null
  /-- A truth value. -/
  | bool (value : Bool)
  /-- A number. -/
  | num (value : Number)
  /-- A string. -/
  | str (value : String)
  /-- A list. -/
  | list
  /-- An object. -/
  | object
deriving DecidableEq, Inhabited

/-- Why a document does not have the shape that its reader wants. -/
inductive Reason where
  /-- The text itself is at fault. -/
  | fault (fault : Fault)
  /-- Another kind of value is wanted. -/
  | wrongKind (found : Found) (wanted : String)
  /-- An integer is beyond the wanted range. -/
  | outOfRange (value : Int) (wanted : String)
  /-- A record has no such field. -/
  | unknownField (name : String) (fields : List String)
  /-- A record names this field twice. -/
  | duplicateField (name : String)
  /-- A record lacks this field. -/
  | missingField (name : String)
  /-- A list that holds a record has too few items. -/
  | tooFew (count : Nat) (record : String) (fields : Nat)
  /-- A list that holds a record has too many items. -/
  | tooMany (count : Nat)
  /-- An argument declaration is neither a string nor a pair that starts with one. -/
  | noArgument
deriving DecidableEq, Inhabited

/-- A problem with a document: the path of the value that was being read, and the reason. -/
structure Misfit where
  /-- The steps from the whole document to the value. -/
  path : List PathStep
  /-- The reason. -/
  reason : Reason
deriving DecidableEq, Inhabited

namespace Misfit

/-- A misfit of the value at hand. -/
def here (reason : Reason) : Misfit := ⟨[], reason⟩

/-- The same misfit, seen from one step further out. -/
def under (step : PathStep) (misfit : Misfit) : Misfit :=
  { misfit with path := step :: misfit.path }

end Misfit

/-- Reads a part of a document: its misfits are those of the whole, one step further down. -/
def within {α : Type} (step : PathStep) (result : Except Misfit α) : Except Misfit α :=
  result.mapError (Misfit.under step)

/-- Passes the end of a list. -/
def ListEnd.check : ListEnd → Except Misfit Unit
  | .closed => .ok ()
  | .fault f => .error (.here (.fault f))

/-- Passes the end of an object. Where a name is due the path has a last step that cannot be
named. -/
def ObjectEnd.check : ObjectEnd → Except Misfit Unit
  | .closed => .ok ()
  | .tooDeep => .error (.here (.fault .tooDeep))
  | .atName fault => .error ((Misfit.here (.fault fault)).under .unknown)
  | .atColon _ fault => .error (.here (.fault fault))

namespace Document

/-! ### Documents and values -/

mutual

/-- The document of a value. -/
def ofJson : Json → Document
  | .null => .null
  | .bool b => .bool b
  | .num n => .num n
  | .str s => .str s
  | .arr items => .arr (ofItems items) .closed
  | .obj members => .obj (ofMembers members) .closed

/-- The documents of items. -/
def ofItems : List Json → List Document
  | [] => []
  | item :: rest => ofJson item :: ofItems rest

/-- The documents of members. -/
def ofMembers : List (String × Json) → List (NamedPart Document)
  | [] => []
  | (name, value) :: rest => ⟨name, ofJson value, none⟩ :: ofMembers rest

end

mutual

/-- The value of a document, or its first fault. A repeated name keeps its first place and its last
value. -/
def value : Document → Except Misfit Json
  | .null => .ok .null
  | .bool b => .ok (.bool b)
  | .num n => .ok (.num n)
  | .str s => .ok (.str s)
  | .broken fault => .error (.here (.fault fault))
  | .arr items ending => do
    let values ← itemValues 0 items
    ending.check
    return .arr values
  | .obj members ending => do
    let fields ← memberValues [] members
    ending.check
    return .obj fields

/-- The values of items from this index on. -/
def itemValues (index : Nat) : List Document → Except Misfit (List Json)
  | [] => .ok []
  | item :: rest => do
    let first ← within (.index index) (value item)
    let others ← itemValues (index + 1) rest
    return first :: others

/-- Puts the values of members, from left to right. -/
def memberValues (fields : Fields Json) : List (NamedPart Document) → Except Misfit (Fields Json)
  | [] => .ok fields
  | ⟨name, member, _⟩ :: rest => do
    let first ← within (.name name) (value member)
    memberValues (fields.put name first) rest

end

/-- What keeps a reader from passing over a member: what can be read can be passed over. -/
def obstacle? (member : NamedPart Document) : Option Fault :=
  match member.part.value with
  | .ok _ => none
  | .error _ => member.obstacle

end Document

end BuilderApi
