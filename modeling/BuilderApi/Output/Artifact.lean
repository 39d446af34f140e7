import BuilderApi.Files.Disk
import BuilderApi.Reference.Index
import BuilderApi.Reference.Page
import BuilderApi.Script.Module

/-!
# Artifacts

The generated texts with their paths: one module per method entry and the index module, one page per
entry that is not private and the category index. A batch of artifacts is written as a whole: a
write that fails does not keep the others from being tried, and the first failure in batch order is
reported.
-/

namespace BuilderApi

/-- A text with its path below an output directory. -/
structure Artifact where
  /-- The path. -/
  path : String
  /-- The text. -/
  text : String
deriving DecidableEq, Inhabited

/-- The modules of a table, and its index module. -/
def moduleArtifacts (table : Table) (shapes : Shapes) : List Artifact :=
  table.filterMap (fun (name, entry) =>
    entry.method?.map fun spec =>
      ⟨name ++ ".js", Script.methodModule (shapes.shape name) name spec⟩) ++
    [⟨"index.js", Script.indexModule table⟩]

/-- The page of an entry, unless it is private. -/
def pageArtifact (shapes : Shapes) (lead name : String) (entry : Entry) : Option Artifact :=
  if Visibility.of name = .isPrivate then none
  else some ⟨publicName name ++ ".md",
    Reference.page (publicName name) entry (shapes.shape name) lead⟩

/-- The pages of a table, and its category index. -/
def pageArtifacts (table : Table) (shapes : Shapes) (title lead : String) : List Artifact :=
  table.filterMap (fun (name, entry) => pageArtifact shapes lead name entry) ++
    [⟨"index.md", Reference.index table title lead⟩]

/-! ### Writing -/

/-- A failed write. -/
structure WriteError where
  /-- The path at which it failed. -/
  path : String
  /-- The cause. -/
  cause : FileError
deriving DecidableEq, Inhabited

/-- The wording of a failed write. -/
def WriteError.message (e : WriteError) : String :=
  "failed to write artifact '" ++ e.path ++ "': " ++ e.cause.message

namespace Disk

variable {m : Type → Type} [Monad m]

/-- Makes the directory of a path. -/
def makeParent (disk : Disk m) (path : String) : m (Except WriteError Unit) := do
  match Path.parent? path with
  | none => return .ok ()
  | some parent => return (← disk.makeDirs parent).mapError (WriteError.mk parent)

/-- Writes an artifact below a root, over a file that is there. -/
def writeArtifact (disk : Disk m) (root : String) (artifact : Artifact) :
    m (Except WriteError Unit) := do
  let path := Path.join root artifact.path
  match ← disk.makeParent path with
  | .error e => return .error e
  | .ok () => return (← disk.write path artifact.text.toUTF8).mapError (WriteError.mk path)

/-- Writes artifacts below their roots. -/
def writeBatch (disk : Disk m) : List (String × Artifact) → m (Except WriteError Unit)
  | [] => return .ok ()
  | (root, artifact) :: rest => do
    let first ← disk.writeArtifact root artifact
    let others ← disk.writeBatch rest
    match first with
    | .error e => return .error e
    | .ok () => return others

end Disk

end BuilderApi
