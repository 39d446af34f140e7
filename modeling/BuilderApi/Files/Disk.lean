import BuilderApi.Files.Tree

/-!
# Disks

What the program needs of a disk are four operations. They are given by a record, so the same
program runs on a file system that is a value and on a real one.
-/

namespace BuilderApi

/-- The file operations of a disk. -/
structure Disk (m : Type → Type) where
  /-- Reads the bytes of a file. -/
  read : String → m (Except FileError ByteArray)
  /-- Makes one directory. -/
  makeDir : String → m (Except FileError Unit)
  /-- Is the path a directory? -/
  isDir : String → m Bool
  /-- Writes a file. -/
  write : String → ByteArray → m (Except FileError Unit)

/-- The disk of a file system that is a value. -/
def FileSystem.disk : Disk (StateM FileSystem) where
  read path := do return (← get).read path
  makeDir path := modifyGet fun fs =>
    match fs.makeDir path with
    | .ok fs => (.ok (), fs)
    | .error e => (.error e, fs)
  isDir path := do return (← get).isDir path
  write path content := modifyGet fun fs =>
    match fs.write path content with
    | .ok fs => (.ok (), fs)
    | .error e => (.error e, fs)

namespace Disk

variable {m : Type → Type} [Monad m]

/-- Reads a file as text. -/
def readText (disk : Disk m) (path : String) : m (Except FileError String) := do
  match ← disk.read path with
  | .error e => return .error e
  | .ok bytes =>
    match String.fromUTF8? bytes with
    | some text => return .ok text
    | none => return .error .notText

/-- Makes a directory that may be there already. -/
def ensureDir (disk : Disk m) (path : String) : m (Except FileError Unit) := do
  match ← disk.makeDir path with
  | .error .alreadyExists =>
    if ← disk.isDir path then return .ok () else return .error .alreadyExists
  | result => return result

/-- Makes a directory and, if need be, those above it; the list is the path and its ancestors. The
empty path and the root are there already. -/
def makeDirsAlong (disk : Disk m) : List String → m (Except FileError Unit)
  | [] => return .ok ()
  | path :: above => do
    if path = "" ∨ path = "/" then return .ok ()
    else
      match ← disk.ensureDir path with
      | .error .notFound =>
        match ← disk.makeDirsAlong above with
        | .error e => return .error e
        | .ok () => disk.ensureDir path
      | result => return result

/-- Makes a directory and those above it. -/
def makeDirs (disk : Disk m) (path : String) : m (Except FileError Unit) :=
  disk.makeDirsAlong (path :: Path.ancestors path)

end Disk

end BuilderApi
