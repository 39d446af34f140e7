import BuilderApi.Script.Literal
import BuilderApi.Table.Entry

/-!
# Script expressions

The expressions of a generated module that depend on its entry: the conditional cascade of a
dispatch table, and the serialized form of a builder. They are built as trees, which say what they
compute and which helper functions they call, and then written out.
-/

namespace BuilderApi

/-- An expression of a generated module. -/
inductive ScriptExpr where
  /-- A variable. -/
  | ident (name : String)
  /-- An argument of the constructor, by its position. -/
  | argument (position : Nat)
  /-- A literal. -/
  | literal (value : Json)
  /-- An object. -/
  | record (members : List (String × ScriptExpr))
  /-- One of two expressions, by the type of a third. -/
  | check (check : TypeCheck) (subject yes no : ScriptExpr)
  /-- An array whose items are computed from those of another, under the name `_`. -/
  | mapItems (subject body : ScriptExpr)
  /-- One of two expressions, by the flag of the serializer. -/
  | byFlag (set unset : ScriptExpr)
  /-- The plain property record of the builder. -/
  | properties
  /-- A hidden field of the builder. -/
  | hidden (field : String)
  /-- An object whose one key is the value of a hidden field. -/
  | underHidden (field : String) (value : ScriptExpr)
  /-- Text of the table, as it is. -/
  | source (text : String)
  /-- A record whose other fields move one level down. -/
  | nest (value : ScriptExpr) (keys : List String) (rest : String)
deriving Inhabited

namespace ScriptExpr

mutual

/-- The text of an expression. -/
def text : ScriptExpr → String
  | .ident name => name
  | .argument position => "args[" ++ toString position ++ "]"
  | .literal value => Script.literal value
  | .record members => "\x7b" ++ memberText members ++ "\x7d"
  | .check test subject yes no =>
    test.helper ++ "(" ++ text subject ++ ") ? " ++ text yes ++ " : " ++ text no
  | .mapItems subject body => text subject ++ ".map(_ => \x7b return " ++ text body ++ "; \x7d)"
  | .byFlag set unset => "flag ? " ++ text set ++ " : " ++ text unset
  | .properties => "proto().toJSON.call(this)"
  | .hidden field => "this[" ++ Script.quoted field ++ "]"
  | .underHidden field value =>
    "\x7b[this[" ++ Script.quoted field ++ "]]: " ++ text value ++ "\x7d"
  | .source text => text
  | .nest value keys rest =>
    "nest(" ++ text value ++ ", " ++ Script.literal (Json.strs keys) ++ ", " ++
      Script.quoted rest ++ ")"

/-- The members of an object, with commas between them. -/
def memberText : List (String × ScriptExpr) → String
  | [] => ""
  | [(name, value)] => name ++ ": " ++ text value
  | (name, value) :: next :: rest => name ++ ": " ++ text value ++ ", " ++ memberText (next :: rest)

end

mutual

/-- The helper functions that an expression calls. -/
def helpers : ScriptExpr → List String
  | .record members => memberHelpers members
  | .check test subject yes no => test.helper :: helpers subject ++ helpers yes ++ helpers no
  | .mapItems subject body => helpers subject ++ helpers body
  | .byFlag set unset => helpers set ++ helpers unset
  | .properties => ["proto"]
  | .underHidden _ value => helpers value
  | .nest value _ _ => "nest" :: helpers value
  | _ => []

/-- The helper functions that the members of an object call. -/
def memberHelpers : List (String × ScriptExpr) → List String
  | [] => []
  | (_, value) :: rest => helpers value ++ memberHelpers rest

end

end ScriptExpr

/-! ### Dispatch tables -/

namespace TypeTable

mutual

/-- The cascade of a table: the first check that holds picks the branch, and a value that none fits
stays as it is. -/
def cascade : List (TypeCheck × TypeRule) → ScriptExpr → ScriptExpr
  | [], subject => subject
  | (check, rule) :: rest, subject =>
    .check check subject (branch rule subject) (cascade rest subject)

/-- The branch of a rule. -/
def branch : TypeRule → ScriptExpr → ScriptExpr
  | .key key set, subject =>
    .record ((key, subject) :: set.map fun (name, value) => (name, ScriptExpr.literal value))
  | .map cases, subject => .mapItems subject (cascade cases (.ident "_"))

end

end TypeTable

/-! ### Serialized forms -/

/-- The value of a reference. -/
def KeyRef.expr : KeyRef → ScriptExpr
  | .hidden field => .hidden field
  | .literal text => .source text

/-- The serialized form of a shape. -/
def KeyShape.expr : KeyShape → ScriptExpr
  | .plain => .properties
  | .wrap (.hidden field) => .underHidden field .properties
  | .wrap (.literal name) => .record [(name, .properties)]
  | .fields members => .record (members.map fun (name, ref) => (name, ref.expr))
  | .flagged unset set => .byFlag set.expr unset.expr

/-- Does the shape depend on the flag? -/
def KeyShape.isFlagged : KeyShape → Bool
  | .flagged _ _ => true
  | _ => false

/-- The serialized form of a builder. -/
def Serialization.expr (serial : Serialization) : ScriptExpr :=
  match serial.nest with
  | none => serial.key.expr
  | some nest => .nest serial.key.expr nest.keys nest.rest

end BuilderApi
