import BuilderApi.Json.Merge
import BuilderApi.Schema.Search
import BuilderApi.Table.Binding
import BuilderApi.Table.Dispatch
import BuilderApi.Table.Name

/-!
# The specification table

A table maps names to entries. A method entry describes a builder: how its constructor binds
arguments, which accessors it carries beside those of its schema shape, and how it is serialized. An
external entry re-exports a name of another module.
-/

namespace BuilderApi

/-- A reference to a name or a value in a serialized form. -/
inductive KeyRef where
  /-- A hidden field. -/
  | hidden (field : String)
  /-- A literal. -/
  | literal (text : String)
deriving DecidableEq, Inhabited

/-- A reference that starts with an underscore is a hidden field. -/
def KeyRef.parse (text : String) : KeyRef :=
  if (behind? "_" text).isSome then .hidden text else .literal text

/-- The shape of a serialized form. -/
inductive KeyShape where
  /-- The plain property record. -/
  | plain
  /-- The record under one key. -/
  | wrap (key : KeyRef)
  /-- An object of references, without the record. -/
  | fields (fields : List (String × KeyRef))
  /-- One shape when the flag is unset, another when it is set. -/
  | flagged (unset set : KeyShape)
deriving DecidableEq, Inhabited

/-- Keeps some fields at the top and moves the others one level down. -/
structure Nest where
  /-- The fields that stay. -/
  keys : List String
  /-- The name under which the others go. -/
  rest : String
deriving DecidableEq, Inhabited

/-- How a builder is serialized. -/
structure Serialization where
  /-- The shape. -/
  key : KeyShape
  /-- The regrouping, if there is one. -/
  nest : Option Nest
deriving DecidableEq, Inhabited

/-- An accessor beside those of the schema shape. -/
structure Extension where
  /-- How its arguments reach its property. -/
  binding : ExtBinding
  /-- A literal in front of the arguments. -/
  pre : Option Json
  /-- The dispatch table of its arguments. -/
  types : Option TypeTable
  /-- How it merges. -/
  policy : MergePolicy
  /-- Assignments after the write. -/
  set : Fields Json
  /-- Its description. -/
  desc : Option String
deriving Inhabited

/-- An accessor that constructs a companion builder, hands it this builder's state, and forwards the
call. -/
structure Delegation where
  /-- The entry of the companion. -/
  call : String
  /-- The module that the entry comes from, if it is not its own. -/
  source? : Option String
  /-- How many arguments are forwarded, if not all. -/
  args : Option Nat
  /-- The accessor of the companion that takes the arguments. -/
  prop : Option String
  /-- The accessor of the companion that takes this builder. -/
  selfMethod : Option String
  /-- Its description. -/
  desc : Option String
deriving Inhabited

/-- An accessor that forwards its arguments to an external function. -/
structure Invocation where
  /-- The function. -/
  call : String
  /-- The module that the function comes from, if it is not its own. -/
  source? : Option String
  /-- How many arguments are forwarded, if not all. -/
  args : Option Nat
  /-- Its description. -/
  desc : Option String
deriving Inhabited

/-- A constructor that is another entry's constructor with something fixed. -/
structure Proxy where
  /-- The other entry. -/
  call : String
  /-- The module that the entry comes from, if it is not its own. -/
  source? : Option String
  /-- A fixed first argument. -/
  arg : Option Json
deriving Inhabited

/-- The module that a companion comes from. -/
def Delegation.source (d : Delegation) : String := d.source?.getD d.call

/-- The module that a function comes from. -/
def Invocation.source (i : Invocation) : String := i.source?.getD i.call

/-- The module that a proxy's target comes from. -/
def Proxy.source (p : Proxy) : String := p.source?.getD p.call

/-- An entry that describes a builder. -/
structure MethodSpec where
  /-- Its description. -/
  desc : Option String
  /-- Its category in the documentation index. -/
  doc : Option String
  /-- The definition that its instances conform to. -/
  def? : Option String
  /-- The bindings of its constructor; without them it takes objects of properties. -/
  args : Option (List ArgBinding)
  /-- Assignments at construction. -/
  set : Fields Json
  /-- The dispatch tables of the argument positions. -/
  types : List (Option TypeTable)
  /-- Extensions; a null one only takes the place of a schema property. -/
  ext : Fields (Option Extension)
  /-- Delegations. -/
  pass : Fields (Option Delegation)
  /-- Invocations. -/
  call : Fields (Option Invocation)
  /-- The serialized form, if it is not the plain record. -/
  serial : Option Serialization
  /-- The constructor that it stands for, if it is a proxy. -/
  ctr : Option Proxy
deriving Inhabited

/-- The dispatch table of an argument position. -/
def MethodSpec.typeTable (spec : MethodSpec) (position : Nat) : Option TypeTable :=
  spec.types[position]?.join

/-- Is the entry a proxy? -/
def MethodSpec.isProxy (spec : MethodSpec) : Bool := spec.ctr.isSome

/-- An entry that re-exports a name of another module. -/
structure ExternalSpec where
  /-- Its description. -/
  desc : Option String
  /-- Its category in the documentation index. -/
  doc : Option String
  /-- The other module. -/
  src : String
  /-- The name there, if it differs. -/
  name : Option String
  /-- The bindings that its documentation shows. -/
  args : Option (List ArgBinding)
deriving Inhabited

/-- An entry of a table. -/
inductive Entry where
  /-- A builder. -/
  | method (spec : MethodSpec)
  /-- A re-export. -/
  | external (spec : ExternalSpec)
deriving Inhabited

namespace Entry

/-- The description of an entry. -/
def desc : Entry → Option String
  | .method spec => spec.desc
  | .external spec => spec.desc

/-- The category of an entry. -/
def category : Entry → Option String
  | .method spec => spec.doc
  | .external spec => spec.doc

/-- The bindings that the documentation of an entry shows. -/
def args : Entry → Option (List ArgBinding)
  | .method spec => spec.args
  | .external spec => spec.args

/-- The definition that a method entry's instances conform to. -/
def def? : Entry → Option String
  | .method spec => spec.def?
  | .external _ => none

/-- The builder that an entry describes. -/
def method? : Entry → Option MethodSpec
  | .method spec => some spec
  | .external _ => none

end Entry

/-- A table: entries by name, in order. -/
abbrev Table := Fields Entry

/-- The shapes of the entries of a table. -/
abbrev Shapes := Fields Properties

namespace Table

/-- The builder of this name. -/
def method? (table : Table) (name : String) : Option MethodSpec :=
  (Fields.get? table name).bind Entry.method?

/-- The shape of every entry; external entries and those without a definition have an empty one. -/
def shapes (table : Table) (schema : Schema) : Except Cycle Shapes :=
  table.mapM fun (name, entry) => do return (name, ← schema.definitionProps entry.def?)

end Table

namespace Shapes

/-- The shape of an entry; empty for one that has none. -/
def shape (shapes : Shapes) (name : String) : Properties :=
  (Fields.get? shapes name).getD []

end Shapes

end BuilderApi
