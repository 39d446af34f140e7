import BuilderApi.Catalog.Operators
import BuilderApi.Json.Basic
import BuilderApi.Text.Prose

/-!
# Entries of the catalog

One function per family of entries. Each gives the declared form of an entry, in the same notation
that a table file uses, so the catalog goes through the same validation as any other table.
-/

namespace BuilderApi

namespace Catalog

/-! ### Notation for declarations -/

/-- An object. -/
def object (members : List (String × Json)) : Json := .obj members

/-- An array. -/
def array (items : List Json) : Json := .arr items

/-- An integer. -/
def int (n : Int) : Json := .num (.int n)

/-- Puts the members of one object into another. -/
def extend (members more : Fields Json) : Fields Json := members.putAll more

/-- An optional list of strings. -/
def optionalStrs : Option (List String) → Json
  | some items => .strs items
  | none => .null

/-- A description. -/
def described (desc : String) (doc : String) (more : Fields Json) : Json :=
  object (("desc", .str desc) :: ("doc", .str doc) :: more)

/-- An extension of one argument. -/
def argExt (name arg : String) (more : Fields Json) (desc : String) : String × Json :=
  (name, object (("arg", .strs [arg]) :: more ++ [("desc", .str desc)]))

/-! ### Types of fields -/

/-- Categories. -/
def nominal : String := "nominal"

/-- Ranks. -/
def ordinal : String := "ordinal"

/-- Amounts. -/
def quantitative : String := "quantitative"

/-- Times. -/
def temporal : String := "temporal"

/-! ### Transformations -/

/-- The category of transformations. -/
def transformCategory : String := "Data Transformations"

/-- A transformation. -/
def transform (name definition : String) (args : List Json) : Json :=
  described (transformDescription name) transformCategory
    [("def", .str definition), ("arg", array args)]

/-- The grouping of a transformation. -/
def groupby : Json :=
  let pass (name call word : String) : String × Json :=
    (name, object [("call", .str call),
      ("desc", .str ("Specify and return " ++ word ++ " " ++ link call ++ " transform."))])
  described (transformDescription "groupby") transformCategory
    [("arg", .strs ["...groupby"]),
      ("pass", object
        [pass "aggregate" "aggregate" "an", pass "join" "joinaggregate" "a",
          pass "joinaggregate" "joinaggregate" "a", pass "window" "window" "a"])]

/-! ### Operators -/

/-- The extension that declares a sort order. -/
def orderExt (arg subject : String) : String × Json :=
  argExt "order" arg [] ("Indicates the sort order. One of `\"ascending\"` or `\"descending\"`. " ++
    "Only applicable if the " ++ subject ++ " is being used as a sort parameter.")

/-- An aggregate operation. -/
def aggregateOp (op : String) (args : List String) : Json :=
  described ("Specify " ++ article op ++ " " ++ code op ++ " aggregate operation.")
    "Aggregate Operations"
    [("def", .str "AggregatedFieldDef"), ("set", object [("op", .str op)]), ("arg", .strs args),
      ("ext", object [orderExt "order" "operation"])]

/-- A window operation. -/
def windowOp (op : String) (args : List String) : Json :=
  described ("A " ++ code op ++ " window operation.") "Window Operations"
    [("def", .str "WindowFieldDef"), ("set", object [("op", .str op)]), ("arg", .strs args)]

/-- The comparisons of a field. -/
def logicExt : Fields Json :=
  [argExt "equals" "equal" [] "Logical equals (==) comparison.",
    argExt "gte" "gte" [] "Logical greater than or equal to (>=) comparison.",
    argExt "gt" "gt" [] "Logical greater than (>) comparison.",
    argExt "lte" "lte" [] "Logical less than or equal to (<=) comparison.",
    argExt "lt" "lt" [] "Logical less than (<) comparison.",
    argExt "oneOf" "...oneOf" [] "Logical set membership test.",
    argExt "inRange" "...range" [] "Logical value in range test.",
    argExt "valid" "valid" [] "Logical valid value test."]

/-- A time unit operation. -/
def timeUnitOp (unit : String) (args : List String) : Json :=
  described ("A time unit operation for " ++ code unit ++ ".") "TimeUnit Operations"
    [("def", .str "TimeUnitTransform"), ("set", object [("timeUnit", .str unit)]),
      ("arg", .strs args), ("ext", object logicExt)]

/-- A logical operation. -/
def logicOp (name : String) (arg : String) : Json :=
  described ("Logical " ++ name ++ " operation.") "Logical Operations" [("arg", .strs [arg])]

/-! ### References -/

/-- A reference to a data field. -/
def field : Json :=
  described "A reference to a data field." "References"
    [("arg", .strs ["field"]),
      ("ext", object (extend
        [orderExt "order" "field",
          argExt "type" "type" []
            ("The data type of the field. One of `\"nominal\"`, `\"ordinal\"`, " ++
            "`\"quantitative\"`, or `\"temporal\"`.")] logicExt))]

/-- A reference to a data field of this type. -/
def fieldOfType (type : String) : Json :=
  described ("A reference to " ++ article type ++ " " ++ type ++ " data field.") "References"
    [("ctr", object [("call", .str "field")]), ("set", object [("type", .str type)])]

/-- A reference to an encoding channel. -/
def encoding : Json :=
  described "A reference to an encoding channel." "References"
    [("arg", .strs ["encoding"]),
      ("ext", object [argExt "order" "encoding" []
        "Indicates a sort order for encoded values. One of `\"ascending\"` or `\"descending\"`."])]

/-- A reference of one argument. -/
def reference (desc : String) (definition : Option String) (arg : String) : Json :=
  described desc "References"
    [("def", (definition.map Json.str).getD .null), ("arg", .strs [arg])]

/-! ### Selections -/

/-- A selection. -/
def selection (type : String) : Json :=
  described ("Define a new " ++ code type ++ " selection.") "Selections"
    [("def", .str (capitalize type ++ "Selection")), ("set", object [("type", .str type)]),
      ("arg", .strs ["^_sel"]),
      ("key", array [object [("selection", .str "_sel")], .str "_sel"])]

/-- An input element of a selection. -/
def inputElement (definition input : String) (args : Option (List String)) : Json :=
  described ("Define a new HTML " ++ code input ++ " input element binding.") "Selection Bindings"
    [("def", .str definition), ("set", object [("input", .str input)]), ("arg", optionalStrs args)]

/-! ### Encoding channels -/

/-- An extension of a channel that encodes a field as this type. -/
def fieldExt (name type : String) : String × Json :=
  argExt name "field" [("set", object [("type", .str type)])]
    ("Encode the field as " ++ article type ++ " " ++ type ++ " data type.")

/-- The extension of a channel that applies an aggregate operator. -/
def aggregateExt (op : String × List String) : String × Json :=
  (op.1, object
    [("arg", .strs (op.2.take 1)),
      ("set", object [("type", .str quantitative), ("aggregate", .str op.1)]),
      ("desc", .str ("Apply the " ++ code op.1 ++ " aggregate operation prior to encoding."))])

/-- The extension of a channel that applies a time unit. -/
def timeUnitExt (op : String × String) : String × Json :=
  argExt op.1 "field" [("set", object [("type", .str temporal), ("timeUnit", .str op.2)])]
    ("Apply the " ++ code op.2 ++ " timeUnit operation prior to encoding.")

/-- The extensions of a channel. -/
def channelExt : Fields Json :=
  extend (extend
    [fieldExt "fieldN" nominal, fieldExt "fieldO" ordinal, fieldExt "fieldQ" quantitative,
      fieldExt "fieldT" temporal,
      argExt "if" "+++condition" [("flag", int 0)]
        ("Perform a conditional encoding. If the provided condition (first argument) evaluates " ++
          "to true, apply the provided encoding (second argument).")]
    (aggregateOps.map aggregateExt)) (timeUnitOps.map timeUnitExt)

/-- The rule that takes a value for a field of this type. -/
def fieldRule (type : String) : Json :=
  object [("key", .str "field"), ("set", object [("type", .str type)])]

/-- The channels whose strings are fields of a fixed type, with that type. -/
def channelTypes : List (String × String) :=
  [("href", nominal), ("key", nominal), ("shape", nominal), ("text", nominal), ("column", ordinal),
    ("facet", ordinal), ("order", ordinal), ("row", ordinal), ("latitude", quantitative),
    ("longitude", quantitative), ("latitude2", quantitative), ("longitude2", quantitative)]

/-- The dispatch table of a channel. -/
def channelTable (name : String) : Json :=
  if name = "detail" ∨ name = "tooltip" then
    object
      [("array", object [("map", object [("string", fieldRule nominal)])]),
        ("string", fieldRule nominal)]
  else
    match channelTypes.lookup name with
    | some type => object [("string", fieldRule type)]
    | none => .null

/-- An encoding channel. -/
def channel (name : String) : Json :=
  described ("Specify the " ++ code name ++ " encoding channel.") "Encodings"
    [("def", .str ("FacetedEncoding/properties/" ++ name)), ("key", array [.null, .str name]),
      ("type", channelTable name), ("ext", object channelExt)]

/-! ### Data -/

/-- The rules of a data argument: an array holds values, a string is an address. -/
def dataRules : Fields Json :=
  [("array", object [("key", .str "values")]), ("string", object [("key", .str "url")])]

/-- The dispatch table of a data argument. -/
def dataTypes : Json := array [object dataRules]

/-- The definition of a data format, which some formats share. -/
def formatDefinition (format : String) : String :=
  let base := if format = "tsv" then "csv" else if format = "topojson" then "topo" else format
  capitalize base ++ "DataFormat"

/-- A data source. -/
def source (name : String) (args : List String) : Json :=
  described ("Define a " ++ name ++ " data source.") "Data"
    [("def", .str (capitalize name ++ "Data")), ("arg", .strs args)]

/-- A data source of this format. -/
def formatSource (format : String) : Json :=
  described ("Define a data source for " ++ code format ++ " format data.") "Data"
    [("def", .str (formatDefinition format)),
      ("type", object (extend [("object", object [("key", .str "values")])] dataRules)),
      ("set", object [("type", .str format)]),
      ("nest", object [("keys", .strs ["url", "values", "name"]), ("rest", .str "format")]),
      ("ext", object
        [argExt "url" "url" [] "A URL from which to load the data.",
          argExt "values" "values" [] "Provide loaded data values directly.",
          argExt "name" "name" []
            ("A name for this data source. Use this name to update the data via " ++
            "the runtime API.")])]

/-- The parsing of this format. -/
def formatSpec (format : String) : Json :=
  described ("Specify parsing of " ++ code format ++ " format data.") "Data"
    [("def", .str (formatDefinition format)), ("set", object [("type", .str format)])]

/-- A lookup in a second data source. -/
def lookupData : Json :=
  described "Specify a lookup on a secondary data source." "Data"
    [("def", .str "LookupData"), ("arg", .strs ["data"]), ("type", dataTypes)]

/-- A data generator. -/
def generator (name : String) : Json :=
  described ("Define a " ++ code name ++ " data generator.") "Data"
    [("def", .str (capitalize name ++ "Params")), ("key", .str name),
      ("arg", if name = "sequence" then .strs ["start", "stop", "step"] else .null)]

/-! ### Charts -/

/-- The extensions of every chart. -/
def specExt : Fields Json :=
  [argExt "data" "data" [("type", dataTypes)] ("The input " ++ link "data" ++ " specification."),
    argExt "transform" "...transform" [] "The data transformations to apply.", ("$schema", .null)]

/-- The extensions of a layered chart. -/
def layerExt : Fields Json :=
  extend
    [("projection", .null),
      argExt "project" "projection" []
        ("The cartographic " ++ link "projection" ++ " to apply to geographical data.")] specExt

/-- The dispatch table of a mark argument: a string is its type. -/
def markTypes : Json := array [object [("string", object [("key", .str "type")])]]

/-- The extensions of a chart with one mark. -/
def unitExt : Fields Json :=
  extend
    [argExt "mark" ":::mark" [("type", markTypes)]
      "Set the mark type and default visual properties.",
      ("encoding", .null),
      argExt "encode" "+::encoding" [("flag", int 1)] "Specify visual encodings for the mark.",
      ("selection", .null),
      argExt "select" "+::selection" [("flag", int 1)]
        "Register interactive selections on the mark."]
    layerExt

/-- The delegation that repeats a chart. -/
def repeatPass : Json :=
  object [("call", .str "_repeat"), ("args", int 1), ("self", .str "spec"),
    ("desc", .str "Repeat a chart template to generate multiple plots.")]

/-- The delegations that make several charts of one. -/
def multiPass : Fields Json :=
  [("facet", object [("call", .str "_facet"), ("args", int 1), ("self", .str "spec"),
      ("desc", .str "Facet a chart into sub-plots by partitioning data values.")]),
    ("repeat", repeatPass)]

/-- The module of the functions that show a chart. -/
def viewModule : String := "__view__"

/-- The invocations of every chart. -/
def specCall : Fields Json :=
  let call (name desc : String) : String × Json :=
    (name, object [("call", .str name), ("from", .str viewModule), ("desc", .str desc)])
  [call "render" ("Compile and render the Vega-Lite visualization and return the DOM element " ++
      "containing the Vega View."),
    call "toView" "Compile the Vega-Lite specification and return the resulting Vega View object.",
    call "toSpec" "Return the Vega-Lite specification as a JavaScript object.",
    call "toString" "Return the Vega-Lite specification as a JSON string."]

/-- The category of charts. -/
def chartCategory : String := "Chart Constructors"

/-- The name of the entry of a mark type. -/
def markName (type : String) : String := "mark" ++ capitalize type

/-- The extension that sets a mark type. -/
def markExt (type : String) : String × Json :=
  (markName type,
    object [("arg", .strs [":::mark"]), ("pre", array [object [("type", .str type)]])])

/-- A chart with one mark. -/
def unit (marks : List String) : Json :=
  described "Create a new mark of unspecified type." chartCategory
    [("def", .str "TopLevelUnitSpec"), ("arg", .strs [":::mark"]), ("type", markTypes),
      ("ext", object (extend unitExt (marks.map markExt))), ("call", object specCall),
      ("pass", object multiPass)]

/-- A chart with a mark of this type. -/
def mark (type : String) : Json :=
  described ("Create a new " ++ code type ++ " mark.") chartCategory
    [("ctr", object [("call", .str "mark"), ("arg", object [("type", .str type)])])]

/-- A layered chart. -/
def layer (args : List String) : Json :=
  described "Create a new layered chart." chartCategory
    [("def", .str "TopLevelLayerSpec"), ("arg", .strs args), ("ext", object layerExt),
      ("call", object specCall), ("pass", object multiPass)]

/-- A chart of charts. One that repeats a chart is not repeated itself. -/
def composite (verb definition : String) (args : List String) : Json :=
  let again := if definition = "TopLevelRepeatSpec" then .null else repeatPass
  described (verb ++ " charts.") chartCategory
    [("def", .str definition), ("arg", .strs args), ("ext", object specExt),
      ("call", object specCall), ("pass", object [("repeat", again)])]

/-- A data reference for charts and lookups. -/
def data : Json :=
  let pass (name call desc : String) (prop : Option String) : String × Json :=
    (name, object (("call", .str call) ::
      (match prop with
        | some p => [("prop", .str p)]
        | none => []) ++ [("desc", .str desc)]))
  let visual (name article : String) (rest : String) : String × Json :=
    pass name name ("Create a " ++ article ++ link name ++ rest ++
      " that visualizes this data reference.")
      none
  described "Create a new data reference for a chart or lookup." "Data"
    [("def", .str "TopLevelUnitSpec"), ("arg", .strs ["data"]), ("type", dataTypes),
      ("ext", object unitExt), ("call", object specCall),
      ("pass", object (extend
        [pass "fields" "lookupData"
            ("Fields to retrieve in a " ++ link "lookupData" ++ " reference.")
            (some "fields"),
          pass "key" "lookupData" ("Key field to lookup in a " ++ link "lookupData" ++
            " reference.") (some "key"),
          visual "mark" "new " "", visual "layer" "" " chart", visual "hconcat" "" " chart",
          visual "vconcat" "" " chart"] multiPass))]

end Catalog

end BuilderApi
