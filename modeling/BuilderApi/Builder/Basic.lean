import BuilderApi.Json.Merge
import BuilderApi.Table.Member

/-!
# Builders

A builder is a value: the entry that it belongs to, its properties, and its hidden fields, which are
never serialized by themselves. An argument of a call is a JSON value or another builder.

A builder belongs to a session, which holds the table, the shapes of its entries, and the external
functions that invocations call.
-/

namespace BuilderApi

/-- A builder. -/
structure Builder where
  /-- The entry that it belongs to. -/
  entry : String
  /-- Its properties. -/
  props : Fields Json
  /-- Its hidden fields. -/
  hidden : Fields Json
deriving Inhabited

/-- An argument of a call. -/
inductive Arg where
  /-- A JSON value. -/
  | json (value : Json)
  /-- A builder. -/
  | builder (builder : Builder)
deriving Inhabited

/-- An external function: it is given the serialized form of a builder and the arguments. -/
abbrev ExternalFunction := Json → List Json → Json

/-- What builders are run against. -/
structure Session where
  /-- The table. -/
  table : Table
  /-- The shapes of its entries. -/
  shapes : Shapes
  /-- The external functions by name. -/
  functions : Fields ExternalFunction
deriving Inhabited

namespace Builder

/-- A builder without properties. -/
def empty (entry : String) : Builder := ⟨entry, [], []⟩

/-- The value of a property. -/
def get? (b : Builder) (prop : String) : Option Json := b.props.get? prop

/-- The value of a hidden field. -/
def hidden? (b : Builder) (field : String) : Option Json := b.hidden.get? field

/-- Sets a property. -/
def put (b : Builder) (prop : String) (value : Json) : Builder :=
  { b with props := b.props.put prop value }

/-- Sets a hidden field. -/
def putHidden (b : Builder) (field : String) (value : Json) : Builder :=
  { b with hidden := b.hidden.put field value }

/-- Makes fixed assignments. -/
def apply (b : Builder) (set : Fields Json) : Builder :=
  { b with props := b.props.putAll set }

/-- Takes over the state of another builder, or the members of an object. -/
def assign (b : Builder) : Arg → Builder
  | .builder other =>
    { b with props := b.props.putAll other.props, hidden := b.hidden.putAll other.hidden }
  | .json (.obj members) => { b with props := b.props.putAll members }
  | .json _ => b

/-- The value of a property for a reader, null if there is none. -/
def read (b : Builder) (prop : String) : Json := (b.get? prop).getD .null

/-! ### Serialized forms -/

/-- The name that a reference stands for. -/
def keyName (b : Builder) : KeyRef → String
  | .hidden field =>
    match b.hidden? field with
    | some (.str s) => s
    | some value => value.text
    | none => ""
  | .literal text => text

/-- The value that a reference stands for: a literal is JSON text, and otherwise a plain string. -/
def keyValue (b : Builder) : KeyRef → Json
  | .hidden field => (b.hidden? field).getD .null
  | .literal text => (Json.parse? text).getD (.str text)

/-- The record in the shape of a serialized form. -/
def shaped (b : Builder) (keyed : Bool) : KeyShape → Json
  | .plain => .obj b.props
  | .wrap ref => .obj [(b.keyName ref, .obj b.props)]
  | .fields refs => .obj (refs.map fun (name, ref) => (name, b.keyValue ref))
  | .flagged unset set => if keyed then b.shaped keyed set else b.shaped keyed unset

/-- A builder in the serialized form that an entry declares. -/
def serialize (b : Builder) (keyed : Bool) : Option Serialization → Json
  | none => .obj b.props
  | some serial =>
    match serial.nest with
    | none => b.shaped keyed serial.key
    | some nest => Json.nest nest.keys nest.rest (b.shaped keyed serial.key)

end Builder

namespace Session

/-- The serialized form of a builder; a set flag selects its keyed variant. -/
def toJson (s : Session) (b : Builder) (keyed : Bool) : Json :=
  b.serialize keyed ((s.table.method? b.entry).bind MethodSpec.serial)

/-- The value of an argument. -/
def value (s : Session) (keyed : Bool) : Arg → Json
  | .json v => v
  | .builder b => s.toJson b keyed

end Session

namespace Arg

/-- Opens the arrays among arguments at every depth; builders stay whole. -/
def flatten (args : List Arg) : List Arg :=
  args.flatMap fun arg =>
    match arg with
    | .json v => v.leaves.map .json
    | .builder b => [.builder b]

/-- Applies a dispatch table to a JSON argument; builders pass through. -/
def dispatch (types : Option TypeTable) : Arg → Arg
  | .json v =>
    match types with
    | some table => .json (TypeTable.apply table v)
    | none => .json v
  | .builder b => .builder b

end Arg

namespace Session

/-- What an argument contributes to a merge: the items of an array, or its value. -/
def mergeItems (s : Session) (keyed : Bool) : Arg → List Json
  | .json (.arr items) => items
  | arg => [s.value keyed arg]

/-- Merges arguments. The joining policy asks builders for their keyed form. -/
def merge (s : Session) (policy : MergePolicy) (args : List Arg) : Json :=
  Json.mergeAll policy (args.flatMap (s.mergeItems (policy == .concat)))

end Session

end BuilderApi
