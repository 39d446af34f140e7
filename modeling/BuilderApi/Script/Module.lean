import BuilderApi.Script.Expr
import BuilderApi.Script.Listing
import BuilderApi.Table.Member

/-!
# Generated modules

Every method entry becomes one script module: a constructor, a prototype with one accessor per
member, the serializer if the entry declares one, and the exported factory. A proxy is a factory
alone. Every accessor works on a copy, so a builder never changes.

Each piece below is a listing, and records the helper functions that its own lines call.
-/

namespace BuilderApi

namespace Script

/-- The module of the helper functions. -/
def helperModule : String := "__util__"

/-! ### Small pieces -/

/-- Needs the helper functions of an expression. -/
def useHelpers (expr : ScriptExpr) : ListingStep := Listing.useAll expr.helpers

/-- A line that sets a property of an object. -/
def setLine (object prop value : String) : ListingStep :=
  .line ("set(" ++ object ++ ", " ++ quoted prop ++ ", " ++ value ++ ");")

/-- Lines that set fixed properties of an object. -/
def setLines (object : String) (set : Fields Json) : Listing :=
  set.map fun (prop, value) => setLine object prop (literal value)

/-- Needs `set` if there is anything to set. -/
def useSet (set : Fields Json) : Listing :=
  if set.isEmpty then [] else [Listing.use "set"]

/-- A line that maps the items of a list through a dispatch table, and the helpers of the table. -/
def mapLine (target list item : String) (table : TypeTable) : Listing :=
  let cascade := TypeTable.cascade table (.ident item)
  [useHelpers cascade,
    .line (target ++ " = " ++ list ++ ".map(" ++ item ++ " => " ++ cascade.text ++ ");")]

/-- An exported factory. -/
def factory (name : String) (body : Listing) : Listing :=
  Listing.block ("export function " ++ name ++ "(...args) \x7b") body "\x7d"

/-! ### Constructors -/

/-- The factory of a proxy: the target's factory with its fixed argument in front, and then the
fixed properties of the proxy. -/
def proxyModule (name : String) (spec : MethodSpec) (proxy : Proxy) : Listing :=
  let fixed := match proxy.arg with
    | some arg => literal arg ++ ", "
    | none => ""
  let construction := proxy.call ++ "(" ++ fixed ++ "...args);"
  Listing.useFrom proxy.call proxy.source ::
    if spec.set.isEmpty then
      factory name [.line ("return " ++ construction)]
    else
      Listing.use "set" :: factory name
        (.line ("const obj = " ++ construction) :: setLines "obj" spec.set ++ [.line "return obj;"])

/-- An argument of the constructor, or another value when it is absent. -/
def argumentOr (argument other : String) : String :=
  argument ++ " !== undefined ? " ++ argument ++ " : " ++ other

/-- The lines that bind the arguments from this position on. A binding that takes all arguments is
the last one. -/
def bindingLines (spec : MethodSpec) (position : Nat) : List ArgBinding → Listing
  | [] => []
  | .merge prop :: _ =>
    Listing.useAll ["get", "set", "merge"] ::
      (match spec.typeTable position with
        | some table => mapLine "args" "args" "_" table
        | none => []) ++
      [setLine "this" prop ("merge(0, get(this, " ++ quoted prop ++ "), args)")]
  | .spread prop :: _ =>
    Listing.useAll ["set", "flat"] ::
      (match spec.typeTable position with
        | some table => mapLine "args" "flat(args)" "_" table
        | none => [.line "args = flat(args);"]) ++
      [setLine "this" prop "args"]
  | .withDefault prop value :: rest =>
    let argument := (ScriptExpr.argument position).text
    Listing.use "set" :: setLine "this" prop (argumentOr argument (literal value)) ::
      bindingLines spec (position + 1) rest
  | .hidden field (some base) :: rest =>
    let argument := (ScriptExpr.argument position).text
    Listing.use "id" ::
      .line ("this[" ++ quoted field ++ "] = " ++
        argumentOr argument ("id(" ++ quoted base ++ ")") ++ ";") ::
      bindingLines spec (position + 1) rest
  | .hidden field none :: rest =>
    let argument := (ScriptExpr.argument position).text
    .line ("if (" ++ argument ++ " !== undefined) this[" ++ quoted field ++ "] = " ++
      argument ++ ";") :: bindingLines spec (position + 1) rest
  | .positional prop :: rest =>
    let argument := ScriptExpr.argument position
    let value := match spec.typeTable position with
      | some table => TypeTable.cascade table argument
      | none => argument
    Listing.use "set" :: useHelpers value ::
      .line ("if (" ++ argument.text ++ " !== undefined) set(this, " ++ quoted prop ++ ", " ++
        value.text ++ ");") ::
      bindingLines spec (position + 1) rest

/-- The lines that take the arguments of a constructor. Without bindings they are objects of
properties. -/
def argumentLines (spec : MethodSpec) : Listing :=
  match spec.args with
  | some bindings => bindingLines spec 0 bindings
  | none =>
    Listing.use "assign" ::
      (match spec.typeTable 0 with
        | some table => mapLine "args" "args" "_" table
        | none => []) ++
      [.line "assign(this, ...args);"]

/-- The constructor. -/
def constructor (className : String) (spec : MethodSpec) : Listing :=
  Listing.block ("function " ++ className ++ "(...args) \x7b")
    (Listing.use "init" :: .line "init(this);" :: useSet spec.set ++ setLines "this" spec.set ++
      argumentLines spec) "\x7d" ++ [Listing.blank]

/-! ### Accessors -/

/-- An accessor. -/
def accessor (name params : String) (body : Listing) : Listing :=
  Listing.block ("prototype." ++ name ++ " = function(" ++ params ++ ") \x7b") body "\x7d;" ++
    [Listing.blank]

/-- An accessor that writes when it is called with arguments and reads when it is not. -/
def readOrWrite (prop : String) (write : Listing) : Listing :=
  .line "if (arguments.length) \x7b" :: .indent :: write ++
    .outdent :: Listing.block "\x7d else \x7b"
      [.line ("return get(this, " ++ quoted prop ++ ");")] "\x7d"

/-- The accessor of a copy with fixed assignments. -/
def copyAccessor (name : String) (set : Fields Json) : Listing :=
  Listing.use "copy" :: useSet set ++
    accessor name "" (.line "const obj = copy(this);" :: setLines "obj" set ++
      [.line "return obj;"])

/-- What a value accessor does to its value before it is set. -/
def valueLines (spread : Bool) (types : Option TypeTable) : Listing :=
  match spread, types with
  | true, some table => mapLine "value" "flat(value)" "v" table
  | true, none => [.line "value = flat(value);"]
  | false, some table =>
    let cascade := TypeTable.cascade table (.ident "value")
    [useHelpers cascade, .line ("value = " ++ cascade.text ++ ";")]
  | false, none => []

/-- The accessor of a property: its one value, or all its arguments flattened. -/
def valueAccessor (name prop : String) (spread : Bool) (types : Option TypeTable)
    (set : Fields Json) :
    Listing :=
  Listing.useAll ["copy", "get", "set"] :: (if spread then [Listing.use "flat"] else []) ++
    accessor name (if spread then "...value" else "value")
      (readOrWrite prop
        (.line "const obj = copy(this);" :: valueLines spread types ++
          setLine "obj" prop "value" :: setLines "obj" set ++ [.line "return obj;"]))

/-- The lines that store merged arguments. -/
def storeLines (prop : String) (flag : Nat) : Accretion → Listing
  | .replace =>
    [.line "const obj = copy(this);",
      setLine "obj" prop ("merge(" ++ toString flag ++ ", values)")]
  | .object =>
    [.line ("const val = get(this, " ++ quoted prop ++ ");"),
      .line "const obj = copy(this);",
      .line "if (val) values = [val].concat(values);",
      setLine "obj" prop ("merge(" ++ toString flag ++ ", values)")]
  | .array =>
    [.line ("const val = get(this, " ++ quoted prop ++ ") || [];"),
      .line "const obj = copy(this);",
      .line ("values = [].concat(val, merge(" ++ toString flag ++ ", values));"),
      setLine "obj" prop "values.length > 1 ? values : values[0]"]

/-- The accessor that merges its arguments. With a literal in front it always writes. -/
def mergingAccessor (name prop : String) (ext : Extension) (accretion : Accretion) : Listing :=
  let write :=
    (match ext.types with
      | some table => mapLine "values" "values" "v" table
      | none => []) ++
    storeLines prop ext.policy.flag accretion ++ setLines "obj" ext.set ++ [.line "return obj;"]
  Listing.useAll ["copy", "get", "merge", "set"] ::
    accessor name "...values"
      (match ext.pre with
        | some pre => .line ("values = [" ++ literal pre ++ "].concat(values);") :: write
        | none => readOrWrite prop write)

/-- The accessor of an extension. -/
def extensionAccessor (name : String) (ext : Extension) : Listing :=
  match ext.binding with
  | .copy => copyAccessor name ext.set
  | .plain prop => valueAccessor name prop false ext.types ext.set
  | .spread prop => valueAccessor name prop true ext.types ext.set
  | .merge accretion prop => mergingAccessor name prop ext accretion

/-- The line that cuts the arguments off, if they are limited. -/
def sliceLine (args : Option Nat) : Listing :=
  match args with
  | some n => [.line ("values = values.slice(0, " ++ toString n ++ ");")]
  | none => []

/-- The accessor of a delegation. -/
def delegationAccessor (name : String) (pass : Delegation) : Listing :=
  let handover := match pass.selfMethod with
    | some method => "obj." ++ method ++ "(this);"
    | none => "assign(obj, this);"
  Listing.useFrom pass.call pass.source ::
    (if pass.selfMethod.isNone then [Listing.use "assign"] else []) ++
    accessor name "...values"
      (sliceLine pass.args ++
        match pass.prop with
        | some prop =>
          [.line ("let obj = " ++ pass.call ++ "();"),
            .line ("obj = " ++ handover),
            .line ("return obj." ++ prop ++ "(...values);")]
        | none =>
          [.line ("const obj = " ++ pass.call ++ "(...values);"),
            .line ("return " ++ handover)])

/-- The accessor of an invocation. -/
def invocationAccessor (name : String) (call : Invocation) : Listing :=
  Listing.useFrom call.call call.source ::
    accessor name "...values"
      (sliceLine call.args ++ [.line ("return " ++ call.call ++ ".apply(this, values);")])

/-- The accessor of a member. -/
def memberAccessor (member : Member) : Listing :=
  match member.kind with
  | .property _ array => valueAccessor member.name member.name array none []
  | .extension ext => extensionAccessor member.name ext
  | .delegation pass => delegationAccessor member.name pass
  | .invocation call => invocationAccessor member.name call

/-! ### Modules -/

/-- The serializer. -/
def serializer (serial : Serialization) : Listing :=
  useHelpers serial.expr ::
    accessor "toJSON" (if serial.key.isFlagged then "flag" else "")
      [.line ("return " ++ serial.expr.text ++ ";")]

/-- The module of a builder that is no proxy. -/
def builderModule (shape : Properties) (name : String) (spec : MethodSpec) : Listing :=
  let className := "_" ++ name
  constructor className spec ++
    [Listing.use "proto",
      .line "// eslint-disable-next-line no-unused-vars",
      .line ("const prototype = proto(" ++ className ++ ");"),
      Listing.blank] ++
    (Member.plan spec shape).flatMap memberAccessor ++
    (match spec.serial with
      | some serial => serializer serial
      | none => []) ++
    factory name [.line ("return new " ++ className ++ "(...args);")]

/-- The listing of a method entry. -/
def methodListing (shape : Properties) (name : String) (spec : MethodSpec) : Listing :=
  match spec.ctr with
  | some proxy => proxyModule name spec proxy
  | none => builderModule shape name spec

/-- The module of a method entry. -/
def methodModule (shape : Properties) (name : String) (spec : MethodSpec) : String :=
  (methodListing shape name spec).text helperModule

/-- The line of the index that exports an entry; private entries have none. -/
def exportLine (name : String) (entry : Entry) : Option String :=
  match Visibility.of name, entry with
  | .isPrivate, _ => none
  | .isExternal, .external spec =>
    let base := match spec.name with
      | some base => base ++ " as "
      | none => ""
    some ("export \x7b" ++ base ++ publicName name ++ "\x7d from \"./" ++ spec.src ++ "\";\n")
  | _, _ => some ("export \x7b" ++ name ++ "\x7d from \"./" ++ name ++ "\";\n")

/-- The index module: every entry that is not private, in table order. -/
def indexModule (table : Table) : String :=
  String.join (table.filterMap fun (name, entry) => exportLine name entry)

end Script

end BuilderApi
