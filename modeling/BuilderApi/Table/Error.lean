import BuilderApi.Json.Misfit
import BuilderApi.Json.Printer

/-!
# What can be wrong with a table

A table is rejected as a whole, at its first fault: either it does not have the declared form, or
one of its entries says something that has no meaning.
-/

namespace BuilderApi

/-- Why a type rule is malformed. -/
inductive RuleFault where
  /-- A table is not an object. -/
  | noTable (found : Json)
  /-- A rule has neither a key nor a map. -/
  | noKeyOrMap
  /-- The assignments of a rule are not an object. -/
  | noAssignments
deriving Inhabited

/-- What is wrong with a table. -/
inductive TableError where
  /-- A binding that takes all arguments is not the first. -/
  | terminalNotFirst (method binding : String) (index : Nat)
  /-- Bindings follow one that takes all arguments. -/
  | trailingBinding (method binding : String)
  /-- An extension names more than one argument. -/
  | extensionArity (method extension : String) (count : Nat)
  /-- A type check of this name does not exist. -/
  | unknownTypeCheck (method check : String)
  /-- A type rule is malformed. -/
  | malformedTypeRule (method check : String) (fault : RuleFault)
  /-- A binding names nothing, or a default has a sigil. -/
  | malformedBinding (method binding : String)
  /-- A default that is written as text is not JSON. -/
  | invalidDefault (method literal : String)
  /-- A serialization key has no meaning. -/
  | malformedKey (method : String) (key : Json)
  /-- The table does not have the declared form. -/
  | misfit (misfit : Misfit)
deriving Inhabited

/-- The wording of a rule's fault. -/
def RuleFault.message : RuleFault → String
  | .noTable found => "expected an object, got " ++ found.text
  | .noKeyOrMap => "expected `key` or `map`"
  | .noAssignments => "`set` must be an object"

/-- The wording of a table's error. -/
def TableError.message : TableError → String
  | .terminalNotFirst method binding index =>
    "method `" ++ method ++ "`: `" ++ binding ++
      "` must be the first argument binding (found at position " ++ toString index ++ ")"
  | .trailingBinding method binding =>
    "method `" ++ method ++ "`: no argument bindings may follow the terminal binding `" ++
      binding ++ "`"
  | .extensionArity method extension count =>
    "extension `" ++ method ++ "." ++ extension ++ "` must take 0-1 named arguments (found " ++
      toString count ++ ")"
  | .unknownTypeCheck method check =>
    "method `" ++ method ++ "`: unknown type check `" ++ check ++
      "` (expected array, string, number, boolean or object)"
  | .malformedTypeRule method check fault =>
    "method `" ++ method ++ "`: malformed type rule for `" ++ check ++ "`: " ++ fault.message
  | .malformedBinding method binding =>
    "method `" ++ method ++ "`: malformed argument binding " ++ shown binding
  | .invalidDefault method literal =>
    "method `" ++ method ++ "`: invalid default literal `" ++ literal ++ "`"
  | .malformedKey method key =>
    "method `" ++ method ++ "`: malformed serialization key " ++ key.text
  | .misfit m => "failed to parse specification table " ++ m.message

end BuilderApi
