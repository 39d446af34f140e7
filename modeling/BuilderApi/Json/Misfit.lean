import BuilderApi.Json.Document
import BuilderApi.Text.Quoted

/-!
# The wording of misfits

A misfit names the path of the value at fault and the reason. What was found is shown as it was
written, except that a string is quoted for a message.
-/

namespace BuilderApi

/-- What was found, in words. -/
def Found.text : Found → String
  | .null => "null"
  | .bool true => "boolean `true`"
  | .bool false => "boolean `false`"
  | .num (.int n) => "integer `" ++ toString n ++ "`"
  | .num (.double x) => "floating point `" ++ String.ofList x.chars ++ "`"
  | .str s => "string " ++ shown s
  | .list => "sequence"
  | .object => "map"

/-- The names of the fields that a record has. -/
def fieldChoice (fields : List String) : String :=
  match fields with
  | [] => "there are no fields"
  | [a] => "expected `" ++ a ++ "`"
  | [a, b] => "expected `" ++ a ++ "` or `" ++ b ++ "`"
  | _ => "expected one of " ++ ", ".intercalate (fields.map fun f => "`" ++ f ++ "`")

/-- The wording of a reason. -/
def Reason.message : Reason → String
  | .fault f => f.message
  | .wrongKind found wanted => "invalid type: " ++ found.text ++ ", expected " ++ wanted
  | .outOfRange n wanted => "invalid value: integer `" ++ toString n ++ "`, expected " ++ wanted
  | .unknownField name fields => "unknown field `" ++ name ++ "`, " ++ fieldChoice fields
  | .duplicateField name => "duplicate field `" ++ name ++ "`"
  | .missingField name => "missing field `" ++ name ++ "`"
  | .tooFew count record fields =>
    "invalid length " ++ toString count ++ ", expected struct " ++ record ++ " with " ++
      toString fields ++ " elements"
  | .tooMany count =>
    "invalid length " ++ toString count ++ ", expected fewer elements in array"
  | .noArgument => "data did not match any variant of untagged enum ArgDecl"

/-- The wording of a misfit. -/
def Misfit.message (misfit : Misfit) : String :=
  "at JSON path " ++ PathStep.text misfit.path ++ " → " ++ misfit.reason.message

end BuilderApi
