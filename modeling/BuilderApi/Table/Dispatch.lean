import BuilderApi.Table.Error

/-!
# Dispatch tables

A table is a list of cases, each a check on the type of a value and a rule. The first case whose
check holds decides: its rule wraps the value under a key, or applies another table to every item of
an array. A value that no case fits passes through.
-/

namespace BuilderApi

/-- A check on the type of a value. An object is no array. -/
inductive TypeCheck where
  /-- Arrays. -/
  | array
  /-- Strings. -/
  | string
  /-- Numbers. -/
  | number
  /-- Truth values. -/
  | boolean
  /-- Objects. -/
  | object
deriving DecidableEq, Inhabited

namespace TypeCheck

/-- The name of a check in tables and documentation. -/
def name : TypeCheck → String
  | .array => "array"
  | .string => "string"
  | .number => "number"
  | .boolean => "boolean"
  | .object => "object"

/-- The script function that performs a check. -/
def helper : TypeCheck → String
  | .array => "isArray"
  | .string => "isString"
  | .number => "isNumber"
  | .boolean => "isBoolean"
  | .object => "isObject"

/-- All checks. -/
def all : List TypeCheck := [.array, .string, .number, .boolean, .object]

/-- The check of this name. -/
def ofName? (name : String) : Option TypeCheck :=
  all.find? fun check => check.name == name

/-- Does the check hold of a value? -/
def holds : TypeCheck → Json → Bool
  | .array, .arr _ => true
  | .string, .str _ => true
  | .number, .num _ => true
  | .boolean, .bool _ => true
  | .object, .obj _ => true
  | _, _ => false

end TypeCheck

/-- What happens to a value that a check fits. -/
inductive TypeRule where
  /-- It is wrapped under a key, beside fixed assignments. -/
  | key (key : String) (set : List (String × Json))
  /-- A table is applied to every item. -/
  | map (cases : List (TypeCheck × TypeRule))
deriving Inhabited

/-- A dispatch table: cases in order. -/
abbrev TypeTable := List (TypeCheck × TypeRule)

namespace TypeTable

/-! ### Applying a table -/

mutual

/-- Applies the first case that fits. -/
def apply : List (TypeCheck × TypeRule) → Json → Json
  | [], value => value
  | (check, rule) :: rest, value =>
    if check.holds value then applyRule rule value else apply rest value

/-- Applies a rule. -/
def applyRule : TypeRule → Json → Json
  | .key key set, value => .obj (Fields.putAll [(key, value)] set)
  | .map cases, .arr items => .arr (items.map (apply cases))
  | .map _, value => value

end

/-! ### Reading a table -/

/-- A rule that wraps: its key, and its assignments if it has any. -/
def parseKeyRule (method check : String) (members : Fields Json) : Except TableError TypeRule :=
  match (members.get? "key").bind Json.str? with
  | none => .error (.malformedTypeRule method check .noKeyOrMap)
  | some key =>
    match members.get? "set" with
    | none | some .null => .ok (.key key [])
    | some (.obj set) => .ok (.key key set)
    | some _ => .error (.malformedTypeRule method check .noAssignments)

mutual

/-- Reads a table. -/
def parse (method : String) : Json → Except TableError TypeTable
  | .obj members => parseCases method members
  | value => .error (.malformedTypeRule method "*" (.noTable value))

/-- Reads the cases of a table. -/
def parseCases (method : String) : List (String × Json) → Except TableError TypeTable
  | [] => .ok []
  | (name, value) :: rest =>
    match TypeCheck.ofName? name with
    | none => .error (.unknownTypeCheck method name)
    | some check => do
      let rule ← parseRule method name value
      let cases ← parseCases method rest
      return (check, rule) :: cases

/-- Reads a rule: a map, if it has one, else a key. -/
def parseRule (method check : String) : Json → Except TableError TypeRule
  | .obj members =>
    match parseMap method members with
    | some table => do return .map (← table)
    | none => parseKeyRule method check members
  | _ => .error (.malformedTypeRule method check .noKeyOrMap)

/-- Reads the table under the name `map`, if there is one. -/
def parseMap (method : String) : List (String × Json) → Option (Except TableError TypeTable)
  | [] => none
  | (name, value) :: rest =>
    if name = "map" then some (parse method value) else parseMap method rest

end

/-- Reads a table per argument position: null is none, a list holds one table or null for each
position, and anything else is the table of position zero. -/
def parsePositions (method : String) : Json → Except TableError (List (Option TypeTable))
  | .null => .ok []
  | .arr items =>
    items.mapM fun item =>
      match item with
      | .null => .ok none
      | value => do return some (← parse method value)
  | value => do return [some (← parse method value)]

end TypeTable

/-! ### Documented cases -/

/-- A case as it is documented. -/
structure DocCase where
  /-- The type of the argument, or of its items. -/
  check : TypeCheck
  /-- Does the case apply to the items of an array? -/
  onItems : Bool
  /-- The key that is set. -/
  key : String
deriving DecidableEq, Inhabited

/-- The documented cases of a rule: a key, or the keys one level down. -/
def TypeRule.docCases (check : TypeCheck) : TypeRule → List DocCase
  | .key name _ => [⟨check, false, name⟩]
  | .map cases =>
    cases.filterMap fun (inner, rule) =>
      match rule with
      | .key name _ => some ⟨inner, true, name⟩
      | .map _ => none

/-- Cases on items come before direct ones, and each group is in the order of type names. -/
def DocCase.before (a b : DocCase) : Bool :=
  if a.onItems = b.onItems then decide (a.check.name ≤ b.check.name) else a.onItems

/-- The cases of a table in documentation order. -/
def TypeTable.docCases (table : TypeTable) : List DocCase :=
  (table.flatMap fun (check, rule) => rule.docCases check).mergeSort DocCase.before

end BuilderApi
