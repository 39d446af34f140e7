import BuilderApi.Json.Basic
import BuilderApi.Text.Split

/-!
# Schema documents

A schema is a JSON value; a node of it is a reference, a concrete shape, or a combinator over other
nodes. A reference is a pointer into the same document, `#/a/b`, whose segments are member names.

The references that occur anywhere in a document are collected once, without repetition: a search
can follow no others, which is why it ends.
-/

namespace BuilderApi

/-- The properties of an object shape, in declared order. -/
abbrev Properties := Fields Json

/-- The member that makes a node a reference. -/
def referenceName : String := "$ref"

/-- The reference that a node is, if it is one. -/
def Json.reference? (node : Json) : Option String :=
  (node.get? referenceName).bind Json.str?

namespace Json

mutual

/-- The references that occur in a value. -/
def references : Json → List String
  | .arr items => itemReferences items
  | .obj members => memberReferences members
  | _ => []

/-- The references that occur in items. -/
def itemReferences : List Json → List String
  | [] => []
  | item :: rest => references item ++ itemReferences rest

/-- The references that occur in members, where a member of the name `$ref` may be one itself. -/
def memberReferences : List (String × Json) → List String
  | [] => []
  | (name, value) :: rest =>
    (match value with
      | .str s => if name = referenceName then [s] else []
      | _ => references value) ++ memberReferences rest

end

end Json

/-- A schema document, with its references. -/
structure Schema where
  /-- The whole document. -/
  root : Json
  /-- The references that occur in it, each once. -/
  references : List String := root.references.eraseDups
  /-- No other references occur. -/
  references_eq : references = root.references.eraseDups := by rfl

namespace Schema

/-- The schema of a document. -/
def ofJson (root : Json) : Schema := { root }

instance : Inhabited Schema := ⟨ofJson .null⟩

/-- The segments of a pointer: what stands behind each slash. -/
def segments (reference : String) : List String :=
  (slashParts reference).drop 1

/-- The node that a pointer leads to, if all its segments are there. -/
def lookup (schema : Schema) (reference : String) : Option Json :=
  schema.root.getPath? (segments reference)

/-- The reference to a named definition. -/
def definition (name : String) : String := "#/definitions/" ++ name

/-- The node that refers to a named definition. -/
def definitionNode (name : String) : Json :=
  .obj [(referenceName, .str (definition name))]

end Schema

end BuilderApi
