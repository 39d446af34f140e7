import BuilderApi.Catalog.Entries
import BuilderApi.Schema.Search
import BuilderApi.Table.Validation

/-!
# The built-in catalog

Without a table of one's own the entries come from a catalog. It consists of fixed entries and of
families, one entry each for the mark types, data formats, generators, encoding channels and
selection types that the schema enumerates. An entry that is declared twice keeps its first place
and its last declaration.
-/

namespace BuilderApi

namespace Catalog

/-- The title of the reference index. -/
def title : String := "Vega-Lite API Reference"

/-- What stands in front of documented names. -/
def lead : String := "vl."

/-- What a schema enumerates for the catalog. -/
structure Families where
  /-- The mark types. -/
  marks : List String
  /-- The data formats. -/
  formats : List String
  /-- The data generators. -/
  generators : List String
  /-- The encoding channels. -/
  channels : List String
  /-- The selection types. -/
  selections : List String
deriving Inhabited

/-- The families of a schema. -/
def families (schema : Schema) : Except Cycle Families := do
  let marks ← schema.enums (Schema.definitionNode "AnyMark")
  let formats ← schema.discriminants (Schema.definitionNode "DataFormat")
  let generators ← schema.definitionProps (some "Generator")
  let channels ← schema.definitionProps (some "FacetedEncoding")
  let selections ← schema.discriminants (Schema.definitionNode "SelectionDef")
  return {
    marks := marks
    formats := formats
    generators := (Fields.names generators).filter (· ≠ "name")
    channels := Fields.names channels
    selections := selections }

/-- Charts. -/
def charts (f : Families) : List (String × Json) :=
  ("mark", unit f.marks) :: f.marks.map (fun m => (markName m, mark m)) ++
    [("layer", layer ["...layer"]),
      ("hconcat", composite "Horizontally concatenate" "TopLevelHConcatSpec" ["...hconcat"]),
      ("vconcat", composite "Vertically concatenate" "TopLevelVConcatSpec" ["...vconcat"]),
      ("_repeat", composite "Repeat" "TopLevelRepeatSpec" ["repeat", "spec"]),
      ("_facet", composite "Facet" "TopLevelFacetSpec" ["facet", "spec"])]

/-- Names of the view module. -/
def externals : List (String × Json) :=
  [("$register", described "Register Vega and Vega-Lite with the API." "Utilities"
      [("arg", .strs ["vega", "vegalite", "options"]), ("src", .str viewModule)]),
    ("$vega", described "Access the registered Vega instance." "Utilities"
      [("src", .str viewModule), ("name", .str "_vega")]),
    ("$vegalite", described "Access the registered Vega-Lite instance." "Utilities"
      [("src", .str viewModule), ("name", .str "_vegalite")])]

/-- Data sources and formats. -/
def dataEntries (f : Families) : List (String × Json) :=
  [("data", data), ("url", source "url" ["url"]), ("values", source "inline" ["values"])] ++
    f.generators.map (fun g => (g, generator g)) ++
    f.formats.map (fun x => (x, formatSource x)) ++
    f.formats.map (fun x => (x ++ "Format", formatSpec x)) ++
    [("lookupData", lookupData)]

/-- Encoding channels and references. -/
def encodings (f : Families) : List (String × Json) :=
  f.channels.map (fun c => (c, channel c)) ++
    [("field", field), ("fieldN", fieldOfType nominal), ("fieldO", fieldOfType ordinal),
      ("fieldQ", fieldOfType quantitative), ("fieldT", fieldOfType temporal),
      ("encoding", encoding),
      ("repeat", reference "A field variable reference for a repeated chart."
        (some "RepeatRef") "repeat"),
      ("value", reference "A constant encoding value." none "value"),
      ("projection",
        described "Define a cartographic projection for longitude, latitude coordinates."
        "Projections" [("def", .str "Projection"), ("arg", .strs ["type"])])]

/-- Selections, input elements and logical operations. -/
def interactions (f : Families) : List (String × Json) :=
  f.selections.map (fun x => ("select" ++ capitalize x, selection x)) ++
    [("checkbox", inputElement "BindCheckbox" "checkbox" none),
      ("menu", inputElement "BindRadioSelect" "select" (some ["...options"])),
      ("radio", inputElement "BindRadioSelect" "radio" (some ["...options"])),
      ("slider", inputElement "BindRange" "range" (some ["min", "max", "step"])),
      ("not", logicOp "NOT" "not"), ("and", logicOp "AND" "...and"), ("or", logicOp "OR" "...or")]

/-- Data transformations. -/
def transforms : List (String × Json) :=
  let one (name definition : String) (args : List String) : String × Json :=
    (name, transform name definition (args.map .str))
  [one "aggregate" "AggregateTransform" ["...aggregate"],
    ("bin", transform "bin" "BinTransform" [.str "field", array [.str "bin", .bool true]]),
    one "calculate" "CalculateTransform" ["calculate"],
    one "filter" "FilterTransform" ["filter"],
    one "flatten" "FlattenTransform" ["...flatten"],
    one "fold" "FoldTransform" ["...fold"],
    one "impute" "ImputeTransform" ["impute", "key"],
    one "joinaggregate" "JoinAggregateTransform" ["...joinaggregate"],
    one "join" "JoinAggregateTransform" ["...joinaggregate"],
    one "lookup" "LookupTransform" ["lookup"],
    one "sample" "SampleTransform" ["sample"],
    one "stack" "StackTransform" ["stack"],
    one "timeUnit" "TimeUnitTransform" ["timeUnit", "field"],
    one "window" "WindowTransform" ["...window"],
    ("groupby", groupby)]

/-- Operations. -/
def operations : List (String × Json) :=
  aggregateOps.map (fun op => (op.1, aggregateOp op.1 (op.2 ++ ["as"]))) ++
    windowOps.map (fun op => (op.1, windowOp op.1 (op.2 ++ ["as"]))) ++
    timeUnitOps.map (fun op => (op.1, timeUnitOp op.2 ["field", "as"]))

/-- The declared form of the catalog. -/
def declared (f : Families) : Fields Json :=
  Fields.ofList (charts f ++ externals ++ dataEntries f ++ encodings f ++ interactions f ++
    transforms ++ operations)

/-- What can go wrong with the catalog of a schema. -/
inductive Failure where
  /-- The schema has a reference that leads back to itself. -/
  | cycle (cycle : Cycle)
  /-- The declared form is rejected. -/
  | table (error : TableError)
deriving Inhabited

/-- The catalog of a schema. -/
def table (schema : Schema) : Except Failure Table := do
  let f ← (families schema).mapError Failure.cycle
  (Table.ofJson (.obj (declared f))).mapError Failure.table

end Catalog

end BuilderApi
