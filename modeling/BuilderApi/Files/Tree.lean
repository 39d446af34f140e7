import BuilderApi.Fields
import BuilderApi.Files.Path

/-!
# File trees

A file tree is a file with its bytes, or a directory of named trees. Paths are followed name by name
from the working directory or, if they are absolute, from the root; every name but the last has to
be a directory. There are no links.
-/

namespace BuilderApi

/-- Why a file operation fails. -/
inductive FileError where
  /-- A name on the path does not exist. -/
  | notFound
  /-- The name is taken. -/
  | alreadyExists
  /-- A name on the path is no directory. -/
  | notDirectory
  /-- The name is a directory. -/
  | isDirectory
  /-- A name or the path is too long. -/
  | nameTooLong
  /-- The path has a NUL character. -/
  | nulInPath
  /-- The bytes are no text. -/
  | notText
  /-- Something that happens to real disks only, as the machine words it. -/
  | other (text : String)
deriving DecidableEq, Inhabited

/-- The wording of a file error. -/
def FileError.message : FileError → String
  | .notFound => "No such file or directory (os error 2)"
  | .alreadyExists => "File exists (os error 17)"
  | .notDirectory => "Not a directory (os error 20)"
  | .isDirectory => "Is a directory (os error 21)"
  | .nameTooLong => "File name too long (os error 36)"
  | .nulInPath => "file name contained an unexpected NUL byte"
  | .notText => "stream did not contain valid UTF-8"
  | .other text => text

/-- A file, or a directory of named trees. -/
inductive FileTree where
  /-- A file. -/
  | file (content : ByteArray)
  /-- A directory. -/
  | dir (entries : List (String × FileTree))
deriving Inhabited

namespace FileTree

/-- The tree below a list of names. -/
def at? (tree : FileTree) : List String → Option FileTree
  | [] => some tree
  | name :: rest =>
    match tree with
    | .dir entries => (Fields.get? entries name).bind (·.at? rest)
    | .file _ => none

/-- Puts a tree below a list of names. A directory that is not there is made; a file on the way
stays. -/
def put (tree new : FileTree) : List String → FileTree
  | [] => new
  | name :: rest =>
    match tree with
    | .dir entries =>
      .dir (Fields.put entries name (((Fields.get? entries name).getD (.dir [])).put new rest))
    | .file content => .file content

mutual

/-- The files of a tree with their paths below it; `lead` is the path of the tree and a slash. -/
def files (lead : String) : FileTree → List (String × ByteArray)
  | .file content => [(lead, content)]
  | .dir entries => filesOf lead entries

/-- The files of the entries of a directory. -/
def filesOf (lead : String) : List (String × FileTree) → List (String × ByteArray)
  | [] => []
  | (name, .file content) :: rest => (lead ++ name, content) :: filesOf lead rest
  | (name, .dir entries) :: rest => filesOf (lead ++ name ++ "/") entries ++ filesOf lead rest

end

end FileTree

/-- A tree and a working directory in it. -/
structure FileSystem where
  /-- The whole tree. -/
  tree : FileTree
  /-- The names of the working directory, from the root. -/
  work : List String
deriving Inhabited

namespace FileSystem

/-- A file system whose working directory is empty. -/
def fresh : FileSystem := ⟨.dir [("work", .dir [])], ["work"]⟩

/-- Is the place a directory? -/
def isDirAt (fs : FileSystem) (place : List String) : Bool :=
  match fs.tree.at? place with
  | some (.dir _) => true
  | _ => false

/-- Checks the length of a name. -/
def checkName (name : String) : Except FileError Unit :=
  if name.utf8ByteSize > 255 then .error .nameTooLong else .ok ()

/-- Goes one name further from a place, which has to be a directory. -/
def step (fs : FileSystem) (place : List String) (name : String) : Except FileError (List String) :=
  match fs.tree.at? place with
  | none => .error .notFound
  | some (.file _) => .error .notDirectory
  | some (.dir entries) =>
    if name = "." then .ok place
    else if name = ".." then .ok place.dropLast
    else do
      checkName name
      if Fields.has entries name then return place ++ [name] else .error .notFound

/-- Follows names from a place. -/
def follow (fs : FileSystem) (place : List String) : List String → Except FileError (List String)
  | [] => .ok place
  | name :: rest => do fs.follow (← fs.step place name) rest

/-- The place that a path starts from. -/
def start (fs : FileSystem) (path : String) : List String :=
  if Path.isAbsolute path then [] else fs.work

/-- Checks the form of a path. -/
def checkPath (path : String) : Except FileError Unit :=
  if path.toList.contains '\x00' then .error .nulInPath
  else if path = "" then .error .notFound
  else if path.utf8ByteSize ≥ 4096 then .error .nameTooLong
  else .ok ()

/-- The directory of a path and its last name, which need not exist or even be possible; the root
has no last name. -/
def locate (fs : FileSystem) (path : String) : Except FileError (List String × Option String) := do
  checkPath path
  match (Path.steps path).reverse with
  | [] => return ([], none)
  | last :: before =>
    let place ← fs.follow (fs.start path) before.reverse
    if fs.isDirAt place then return (place, some last) else .error .notDirectory

/-- Is the last name of a path one that every directory has? -/
def isDots (name : String) : Bool := name == "." || name == ".."

/-- Makes a directory. -/
def makeDir (fs : FileSystem) (path : String) : Except FileError FileSystem := do
  match ← fs.locate path with
  | (_, none) => .error .alreadyExists
  | (place, some name) =>
    if isDots name ∨ (fs.tree.at? (place ++ [name])).isSome then .error .alreadyExists
    else
      checkName name
      return { fs with tree := fs.tree.put (.dir []) (place ++ [name]) }

/-- Is the path a directory? -/
def isDir (fs : FileSystem) (path : String) : Bool :=
  match checkPath path, fs.follow (fs.start path) (Path.steps path) with
  | .ok _, .ok place => fs.isDirAt place
  | _, _ => false

/-- Writes a file, over one that is there. A path that ends with a slash can only be a directory,
whatever its last name. -/
def write (fs : FileSystem) (path : String) (content : ByteArray) :
    Except FileError FileSystem := do
  match ← fs.locate path with
  | (_, none) => .error .isDirectory
  | (place, some name) =>
    if isDots name ∨ Path.endsWithSlash path ∨ fs.isDirAt (place ++ [name]) then .error .isDirectory
    else
      checkName name
      return { fs with tree := fs.tree.put (.file content) (place ++ [name]) }

/-- Reads a file. -/
def read (fs : FileSystem) (path : String) : Except FileError ByteArray := do
  checkPath path
  match fs.tree.at? (← fs.follow (fs.start path) (Path.steps path)) with
  | some (.file content) => if Path.endsWithSlash path then .error .notDirectory else return content
  | some (.dir _) => .error .isDirectory
  | none => .error .notFound

/-- The files below the working directory, by the order of their paths. -/
def files (fs : FileSystem) : List (String × ByteArray) :=
  match fs.tree.at? fs.work with
  | some tree => (tree.files "").mergeSort fun a b => decide (a.1 ≤ b.1)
  | none => []

end FileSystem

end BuilderApi
