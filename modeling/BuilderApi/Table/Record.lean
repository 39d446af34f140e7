import BuilderApi.Json.Misfit

/-!
# Reading records from documents

A declared table is a document of known shape. The readers below walk a document in its own order
and stop at the first problem, so a fault of the text and a value of the wrong kind compete only by
their place.

A record is written as an object of its fields, or as a list of their values in declared order. In
an object the order is free, a field may not be named twice, and a required field that is missing is
noticed at the end. In a list the fields at the end may be cut off, as long as they are not
required.
-/

namespace BuilderApi

/-- Where a document comes from. The two differ in one wording only. -/
inductive Origin where
  /-- From a text. -/
  | text
  /-- From a value. -/
  | value
deriving DecidableEq, Inhabited

namespace Document

variable {α β : Type}

/-! ### Plain values -/

/-- The misfit of a document that is not what its reader wants: its own fault, if it has one
here. -/
def misfit (wanted : String) : Document → Misfit
  | .null => .here (.wrongKind .null wanted)
  | .bool b => .here (.wrongKind (.bool b) wanted)
  | .num n => .here (.wrongKind (.num n) wanted)
  | .str s => .here (.wrongKind (.str s) wanted)
  | .arr _ _ => .here (.wrongKind .list wanted)
  | .obj _ _ => .here (.wrongKind .object wanted)
  | .broken fault => .here (.fault fault)

/-- A string. -/
def string : Document → Except Misfit String
  | .str s => .ok s
  | document => .error (document.misfit "a string")

/-- A natural number below a limit. -/
def natBelow (limit : Nat) (wanted : String) : Document → Except Misfit Nat
  | .num (.int n) =>
    if 0 ≤ n ∧ n < limit then .ok n.toNat else .error (.here (.outOfRange n wanted))
  | document => .error (document.misfit wanted)

/-- A number of eight bits. -/
def byte : Document → Except Misfit Nat := natBelow UInt8.size "u8"

/-- A number of 64 bits. -/
def count : Document → Except Misfit Nat := natBelow UInt64.size "usize"

/-- Null for nothing, or what `read` reads. -/
def optional (read : Document → Except Misfit α) : Document → Except Misfit (Option α)
  | .null => .ok none
  | document => do return some (← read document)

/-! ### Lists and maps -/

/-- Reads items, the first of which has this index. -/
def eachItem (read : Document → Except Misfit α) (index : Nat) :
    List Document → Except Misfit (List α)
  | [] => .ok []
  | item :: rest => do
    let first ← within (.index index) (read item)
    return first :: (← eachItem read (index + 1) rest)

/-- A list of what `read` reads. -/
def listOf (read : Document → Except Misfit α) : Document → Except Misfit (List α)
  | .arr items ending => do
    let values ← eachItem read 0 items
    ending.check
    return values
  | document => .error (document.misfit "a sequence")

/-- Reads members and puts them in order. -/
def eachMember (read : Document → Except Misfit α) (fields : Fields α) :
    List (NamedPart Document) → Except Misfit (Fields α)
  | [] => .ok fields
  | ⟨name, member, _⟩ :: rest => do
    let value ← within (.name name) (read member)
    eachMember read (fields.put name value) rest

/-- A map to what `read` reads. -/
def mapOf (read : Document → Except Misfit α) : Document → Except Misfit (Fields α)
  | .obj members ending => do
    let fields ← eachMember read [] members
    ending.check
    return fields
  | document => .error (document.misfit "a map")

end Document

/-! ### Records -/

/-- A field of a record: its name, whether it has to be there, and how it is read into the
record. -/
structure RecordField (α : Type) where
  /-- The name. -/
  name : String
  /-- Does it have to be there? -/
  required : Bool
  /-- Reads the field. -/
  read : Document → α → Except Misfit α

/-- The shape of a record. -/
structure RecordShape (α : Type) where
  /-- What the record is called in messages. -/
  name : String
  /-- The fields in declared order. -/
  fields : List (RecordField α)
  /-- Are members that are no fields passed over? -/
  lenient : Bool
  /-- The record before any field is read. -/
  start : α

namespace RecordShape

variable {α : Type}

/-- The field of this name. -/
def field? (shape : RecordShape α) (name : String) : Option (RecordField α) :=
  shape.fields.find? fun field => field.name == name

/-- The misfit of a member that is no field. -/
def unknown (shape : RecordShape α) (name : String) : Misfit :=
  (Misfit.here (.unknownField name (shape.fields.map RecordField.name))).under (.name name)

/-- Checks a name before its value is read: it is a field that was not yet named, or may be passed
over. -/
def checkName (shape : RecordShape α) (seen : List String) (name : String) :
    Except Misfit (Option (RecordField α)) :=
  match shape.field? name with
  | some field =>
    if name ∈ seen then .error (.here (.duplicateField name)) else .ok (some field)
  | none => if shape.lenient then .ok none else .error (shape.unknown name)

/-- Reads the members of an object, given the names seen before; the result holds all names seen. -/
def readMembers (shape : RecordShape α) (seen : List String) (record : α) :
    List (NamedPart Document) → Except Misfit (List String × α)
  | [] => .ok (seen, record)
  | member :: rest => do
    match ← shape.checkName seen member.name with
    | some field =>
      let record ← within (.name member.name) (field.read member.part record)
      shape.readMembers (member.name :: seen) record rest
    | none =>
      match Document.obstacle? member with
      | some fault => .error ((Misfit.here (.fault fault)).under (.name member.name))
      | none => shape.readMembers seen record rest

/-- Passes the end of an object. A name without a colon is still checked first. -/
def checkEnd (shape : RecordShape α) (seen : List String) : ObjectEnd → Except Misfit Unit
  | .atColon name fault => do
    let _ ← shape.checkName seen name
    .error (.here (.fault fault))
  | ending => ending.check

/-- Are all required fields among the names seen? -/
def checkMissing (shape : RecordShape α) (seen : List String) : Except Misfit Unit :=
  match shape.fields.find? fun field => field.required && !seen.contains field.name with
  | some field => .error (.here (.missingField field.name))
  | none => .ok ()

/-- What follows the last field in a list: nothing but its bracket may. -/
def checkSurplus (origin : Origin) (count : Nat) : List Document → ListEnd → Except Misfit Unit
  | [], .closed => .ok ()
  | [], .fault .trailingComma => .error (.here (.fault .trailingComma))
  | [], .fault .endInList => .error (.here (.fault .endInList))
  | _, _ =>
    match origin with
    | .text => .error (.here (.fault .trailingText))
    | .value => .error (.here (.tooMany count))

/-- Reads the fields of a list from this index on; `count` is the length of the list. -/
def readItems (shape : RecordShape α) (origin : Origin) (count : Nat) (ending : ListEnd)
    (index : Nat) :
    List (RecordField α) → List Document → α → Except Misfit α
  | [], items, record => do
    checkSurplus origin count items ending
    return record
  | field :: fields, item :: items, record => do
    let record ← within (.index index) (field.read item record)
    shape.readItems origin count ending (index + 1) fields items record
  | field :: fields, [], record => do
    ending.check
    if field.required then .error (.here (.tooFew index shape.name shape.fields.length))
    else shape.readItems origin count ending (index + 1) fields [] record

/-- Reads a record. -/
def read (shape : RecordShape α) (origin : Origin) : Document → Except Misfit α
  | .obj members ending => do
    let (seen, record) ← shape.readMembers [] shape.start members
    shape.checkEnd seen ending
    shape.checkMissing seen
    return record
  | .arr items ending => shape.readItems origin items.length ending 0 shape.fields items shape.start
  | document => .error (document.misfit ("struct " ++ shape.name))

end RecordShape

end BuilderApi
