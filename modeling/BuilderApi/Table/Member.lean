import BuilderApi.Schema.ArrayShape
import BuilderApi.Table.Entry

/-!
# The member plan: which accessors a builder carries

Generated modules, reference pages and running builders all read one list of members, so they always
agree. Four kinds compete for a name, and a later kind takes it from an earlier one, together with
its place: schema properties, extensions, delegations, invocations. A name that the entry lists
among its extensions, even as null, is no schema property. A proxy has no members of its own.
-/

namespace BuilderApi

/-- What a member does. -/
inductive MemberKind where
  /-- Reads or writes a property of the schema shape. -/
  | property (schema : Json) (array : Bool)
  /-- Follows an extension. -/
  | extension (extension : Extension)
  /-- Follows a delegation. -/
  | delegation (delegation : Delegation)
  /-- Follows an invocation. -/
  | invocation (invocation : Invocation)
deriving Inhabited

/-- A member of a builder. -/
structure Member where
  /-- Its name. -/
  name : String
  /-- What it does. -/
  kind : MemberKind
deriving Inhabited

/-- The description of a schema node. -/
def Json.description (node : Json) : Option String :=
  (node.get? "description").bind Json.str?

/-- The member's own description. -/
def Member.desc (member : Member) : Option String :=
  match member.kind with
  | .property schema _ => schema.description
  | .extension e => e.desc
  | .delegation d => d.desc
  | .invocation i => i.desc

namespace Member

/-- Gives a name to a kind: whoever had it before loses it, and the name moves to the end. -/
def place (plan : Fields MemberKind) (name : String) (kind : MemberKind) : Fields MemberKind :=
  plan.erase name ++ [(name, kind)]

/-- Places the named kinds of a list, from left to right. -/
def placeAll (plan : Fields MemberKind) (kinds : Fields MemberKind) : Fields MemberKind :=
  kinds.foldl (fun acc field => place acc field.1 field.2) plan

/-- The schema properties that no extension claims. -/
def properties (spec : MethodSpec) (shape : Properties) : Fields MemberKind :=
  (shape.filter fun field => !spec.ext.has field.1).map fun (name, schema) =>
    (name, .property schema (isArrayType schema))

/-- The declarations that are not null. -/
def declared {α : Type} (wrap : α → MemberKind) (fields : Fields (Option α)) : Fields MemberKind :=
  fields.filterMap fun (name, value) => value.map fun v => (name, wrap v)

/-- The members of a builder, in generation order. -/
def plan (spec : MethodSpec) (shape : Properties) : List Member :=
  if spec.isProxy then []
  else
    let fields := placeAll [] (properties spec shape ++ declared .extension spec.ext ++
      declared .delegation spec.pass ++ declared .invocation spec.call)
    fields.map fun (name, kind) => ⟨name, kind⟩

/-- The members of a builder, in documentation order: by the code points of their names. -/
def sorted (spec : MethodSpec) (shape : Properties) : List Member :=
  (plan spec shape).mergeSort fun a b => decide (a.name ≤ b.name)

/-- The member of this name. -/
def find (spec : MethodSpec) (shape : Properties) (name : String) : Option Member :=
  (plan spec shape).find? fun member => member.name == name

end Member

end BuilderApi
