import BuilderApi.Catalog.Table
import BuilderApi.Output.Artifact

/-!
# Building and checking

A build reads a schema and a table, generates all artifacts, and writes them; a check stops before
the writing. The shapes of the entries are resolved once, for both sets of artifacts.
-/

namespace BuilderApi

/-- What can go wrong with a schema. -/
inductive SchemaError where
  /-- A reference leads back to itself. -/
  | cycle (cycle : Cycle)
  /-- The document cannot be read. -/
  | read (path : String) (cause : FileError)
  /-- The document is no JSON. -/
  | parse (path : String) (misfit : Misfit)
deriving Inhabited

/-- What can go wrong in a build. -/
inductive BuildError where
  /-- The schema is at fault. -/
  | schema (error : SchemaError)
  /-- The table file cannot be read. -/
  | readTable (path : String) (cause : FileError)
  /-- The table is at fault. -/
  | table (error : TableError)
  /-- An artifact cannot be written. -/
  | write (error : WriteError)
deriving Inhabited

/-- The wording of a cycle. -/
def Cycle.message (c : Cycle) : String := "schema reference cycle through `" ++ c.reference ++ "`"

/-- The wording of a schema's error. -/
def SchemaError.message : SchemaError → String
  | .cycle c => c.message
  | .read path cause => "failed to read schema document '" ++ path ++ "': " ++ cause.message
  | .parse path m => "failed to parse schema document (" ++ path ++ ") " ++ m.message

/-- The wording of a build's error. -/
def BuildError.message : BuildError → String
  | .schema e => e.message
  | .readTable path cause =>
    "failed to read specification table '" ++ path ++ "': " ++ cause.message
  | .table e => e.message
  | .write e => e.message

/-- The file error behind a build's error, if there is one. -/
def BuildError.cause : BuildError → Option FileError
  | .schema (.read _ cause) => some cause
  | .readTable _ cause => some cause
  | .write e => some e.cause
  | _ => none

/-- The error of a catalog as one of a build. -/
def Catalog.Failure.buildError : Catalog.Failure → BuildError
  | .cycle c => .schema (.cycle c)
  | .table e => .table e

/-- What to build, and where. -/
structure BuildConfig where
  /-- The schema document. -/
  schema : String
  /-- The table; the catalog without one. -/
  api : Option String
  /-- The directory of the modules. -/
  src : String
  /-- The directory of the pages. -/
  docs : String
  /-- What stands in front of documented names. -/
  lead : String
  /-- The title of the category index. -/
  title : String
deriving Inhabited

/-- How much was built. -/
structure BuildReport where
  /-- The entries of the table. -/
  entries : Nat
  /-- The modules, with their index. -/
  modules : Nat
  /-- The pages, with their index. -/
  pages : Nat
deriving DecidableEq, Inhabited

/-- What a build generates. -/
structure Generated where
  /-- The modules. -/
  modules : List Artifact
  /-- The pages. -/
  pages : List Artifact
  /-- The number of entries. -/
  entries : Nat
deriving Inhabited

/-- The report on what was generated. -/
def Generated.report (g : Generated) : BuildReport := ⟨g.entries, g.modules.length, g.pages.length⟩

/-- The artifacts of a table against a schema. -/
def generate (config : BuildConfig) (schema : Schema) (table : Table) :
    Except BuildError Generated := do
  let shapes ← (table.shapes schema).mapError fun c => .schema (.cycle c)
  return {
    modules := moduleArtifacts table shapes
    pages := pageArtifacts table shapes config.title config.lead
    entries := table.length }

/-- The schema of a document's text. -/
def Schema.ofText (path text : String) : Except SchemaError Schema :=
  match (Document.ofText text).value with
  | .ok root => .ok (Schema.ofJson root)
  | .error m => .error (.parse path m)

namespace Disk

variable {m : Type → Type} [Monad m]

/-- Loads a schema document. -/
def loadSchema (disk : Disk m) (path : String) : ExceptT BuildError m Schema := do
  match ← disk.readText path with
  | .error cause => throw (.schema (.read path cause))
  | .ok text => ExceptT.mk (pure ((Schema.ofText path text).mapError BuildError.schema))

/-- Loads a table, or takes the catalog of the schema. -/
def loadTable (disk : Disk m) (api : Option String) (schema : Schema) :
    ExceptT BuildError m Table := do
  match api with
  | none => ExceptT.mk (pure ((Catalog.table schema).mapError Catalog.Failure.buildError))
  | some path =>
    match ← disk.readText path with
    | .error cause => throw (.readTable path cause)
    | .ok text => ExceptT.mk (pure ((Table.ofText text).mapError BuildError.table))

/-- Generates all artifacts. -/
def generateAll (disk : Disk m) (config : BuildConfig) : ExceptT BuildError m Generated := do
  let schema ← disk.loadSchema config.schema
  let table ← disk.loadTable config.api schema
  ExceptT.mk (pure (generate config schema table))

/-- Generates all artifacts and writes none. -/
def check (disk : Disk m) (config : BuildConfig) : ExceptT BuildError m BuildReport := do
  return (← disk.generateAll config).report

/-- Generates all artifacts and writes them. -/
def build (disk : Disk m) (config : BuildConfig) : ExceptT BuildError m BuildReport := do
  let generated ← disk.generateAll config
  let batch := generated.modules.map (fun a => (config.src, a)) ++
    generated.pages.map (fun a => (config.docs, a))
  match ← disk.writeBatch batch with
  | .ok () => return generated.report
  | .error e => throw (.write e)

end Disk

end BuilderApi
