import BuilderApi.Json.Reader
import BuilderApi.Table.Error
import BuilderApi.Text.Prose

/-!
# Bindings: where arguments go

A constructor binds each argument position to a property or to a hidden field; an extension says how
its arguments reach its one property. Tables spell both with sigils, which are read here, once.

A spread or a merge takes **all** arguments, so it can only be the sole binding of a constructor.
-/

namespace BuilderApi

/-- How one argument position of a constructor is bound. -/
inductive ArgBinding where
  /-- To a property, when the argument is there. -/
  | positional (prop : String)
  /-- To a property, with a value for an absent argument. -/
  | withDefault (prop : String) (value : Json)
  /-- To a hidden field, which is never serialized; with a base, an absent argument becomes a new
  identifier. -/
  | hidden (field : String) (autogen : Option String)
  /-- All arguments, flattened, to one array property. -/
  | spread (prop : String)
  /-- All arguments, merged into one property. -/
  | merge (prop : String)
deriving Inhabited

/-- How one argument position is declared: a name with its sigil, or a name and a default. -/
inductive ArgDecl where
  /-- A name with its sigil. -/
  | sigil (text : String)
  /-- A property and its default. -/
  | withDefault (prop : String) (value : Json)
deriving Inhabited

namespace ArgBinding

/-- Reads a name with its sigil. -/
def parse (text : String) : ArgBinding :=
  match behind? ":::" text, behind? "..." text, behind? "^" text, behind? "_" text with
  | some prop, _, _, _ => .merge prop
  | none, some prop, _, _ => .spread prop
  | none, none, some field, _ => .hidden field (some (without "_" field))
  | none, none, none, some _ => .hidden text none
  | none, none, none, none => .positional text

/-- Does the binding name what it fills? A hidden field needs more than underscores. -/
def isNamed : ArgBinding → Bool
  | .positional prop | .withDefault prop _ | .spread prop | .merge prop => prop ≠ ""
  | .hidden field _ => field.toList.any (· ≠ '_')

/-- Does the binding take all arguments? -/
def isTerminal : ArgBinding → Bool
  | .spread _ | .merge _ => true
  | _ => false

/-- The argument's name in documentation. -/
def displayName : ArgBinding → String
  | .positional prop | .withDefault prop _ => prop
  | .hidden field _ => without "_" field
  | .spread prop | .merge prop => "..." ++ prop

/-- The argument's name in messages. -/
def sigil : ArgBinding → String
  | .merge prop => ":::" ++ prop
  | binding => binding.displayName

end ArgBinding

/-- The value of a default: text is read as JSON, anything else stands for itself. -/
def defaultLiteral (method : String) : Json → Except TableError Json
  | .str text =>
    match Json.parse? text with
    | some value => .ok value
    | none => .error (.invalidDefault method text)
  | value => .ok value

/-- The binding that a declaration describes. -/
def ArgDecl.binding (method : String) : ArgDecl → Except TableError ArgBinding
  | .sigil text =>
    let binding := ArgBinding.parse text
    if binding.isNamed then .ok binding else .error (.malformedBinding method text)
  | .withDefault prop value =>
    match ArgBinding.parse prop with
    | .positional _ =>
      if prop = "" then .error (.malformedBinding method prop)
      else do return .withDefault prop (← defaultLiteral method value)
    | _ => .error (.malformedBinding method prop)

/-- Reads declarations from this position on; a terminal binding may only stand at position zero. -/
def readBindings (method : String) (index : Nat) :
    List ArgDecl → Except TableError (List ArgBinding)
  | [] => .ok []
  | decl :: rest => do
    let binding ← decl.binding method
    if binding.isTerminal ∧ index ≠ 0 then
      .error (.terminalNotFirst method binding.sigil index)
    else
      return binding :: (← readBindings method (index + 1) rest)

/-- The bindings of a constructor. -/
def parseBindings (method : String) (decls : List ArgDecl) :
    Except TableError (List ArgBinding) := do
  match ← readBindings method 0 decls with
  | first :: second :: rest =>
    if first.isTerminal then .error (.trailingBinding method first.sigil)
    else return first :: second :: rest
  | bindings => return bindings

/-- How the merged arguments of an extension are combined with the value that is there. -/
inductive Accretion where
  /-- They replace it. -/
  | replace
  /-- They are merged into it. -/
  | object
  /-- They become a new element behind it. -/
  | array
deriving DecidableEq, Inhabited

/-- How the arguments of an extension reach its property. -/
inductive ExtBinding where
  /-- No argument: a copy. -/
  | copy
  /-- All arguments, merged. -/
  | merge (accretion : Accretion) (prop : String)
  /-- All arguments, flattened into an array. -/
  | spread (prop : String)
  /-- The first argument, as it is. -/
  | plain (prop : String)
deriving DecidableEq, Inhabited

namespace ExtBinding

/-- Reads a name with its sigil. -/
def ofSigil (text : String) : ExtBinding :=
  match behind? ":::" text, behind? "+::" text, behind? "+++" text, behind? "..." text with
  | some prop, _, _, _ => .merge .replace prop
  | none, some prop, _, _ => .merge .object prop
  | none, none, some prop, _ => .merge .array prop
  | none, none, none, some prop => .spread prop
  | none, none, none, none => .plain text

/-- The binding of an extension: it names at most one argument. -/
def parse (method extension : String) : Option (List String) → Except TableError ExtBinding
  | none | some [] => .ok .copy
  | some [text] => .ok (ofSigil text)
  | some args => .error (.extensionArity method extension args.length)

/-- The property that is written, if there is one. -/
def prop? : ExtBinding → Option String
  | .copy => none
  | .merge _ prop | .spread prop | .plain prop => some prop

/-- The argument's name in documentation. -/
def displayName : ExtBinding → String
  | .copy => ""
  | .merge _ prop | .spread prop => "..." ++ prop
  | .plain prop => without "_" prop

end ExtBinding

end BuilderApi
