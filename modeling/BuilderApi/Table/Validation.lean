import BuilderApi.Table.Declaration

/-!
# From declarations to a table

A declared entry is validated in a fixed order: its argument bindings, and then, unless it is
external, its dispatch tables, its extensions one by one, and its serialization key. The first fault
of the first faulty entry rejects the table.
-/

namespace BuilderApi

/-- The references of an object of names; `none` when a member is no string. -/
def parseKeyFields (fields : Fields KeyRef) : List (String × Json) → Option (Fields KeyRef)
  | [] => some fields
  | (name, .str text) :: rest => parseKeyFields (fields.put name (KeyRef.parse text)) rest
  | _ :: _ => none

/-- The shape of a serialized form: null is the plain record, a string a key, an object an object of
references, and a pair one shape for each value of the flag. -/
def parseKey (method : String) : Json → Except TableError KeyShape
  | .null => .ok .plain
  | .str text => .ok (.wrap (KeyRef.parse text))
  | .obj members =>
    match parseKeyFields [] members with
    | some fields => .ok (.fields fields)
    | none => .error (.malformedKey method (.obj members))
  | .arr [unset, set] => do
    let unset ← parseKey method unset
    return .flagged unset (← parseKey method set)
  | key => .error (.malformedKey method key)

/-- The dispatch tables that a declaration gives, none if it gives none. -/
def parseTypes (method : String) : Option Json → Except TableError (List (Option TypeTable))
  | none => .ok []
  | some types => TypeTable.parsePositions method types

/-- The extension that a declaration describes. -/
def ExtensionDecl.extension (method name : String) (decl : ExtensionDecl) :
    Except TableError Extension := do
  let binding ← ExtBinding.parse method name decl.arg
  let types ← parseTypes method decl.types
  return {
    binding := binding
    pre := decl.pre.bind List.head?
    types := types.head?.join
    policy := MergePolicy.ofFlag (decl.flag.getD 0)
    set := decl.set.getD []
    desc := decl.desc }

/-- The extensions that declarations describe; null stays null. -/
def parseExtensions (method : String) :
    Fields (Option ExtensionDecl) → Except TableError (Fields (Option Extension))
  | [] => .ok []
  | (name, none) :: rest => do return (name, none) :: (← parseExtensions method rest)
  | (name, some decl) :: rest => do
    let extension ← decl.extension method name
    return (name, some extension) :: (← parseExtensions method rest)

/-- The serialized form that a key and a nest describe, if there is one of them. -/
def parseSerialization (method : String) (key : Option Json) (nest : Option Nest) :
    Except TableError (Option Serialization) := do
  match key, nest with
  | none, none => return none
  | none, nest => return some ⟨.plain, nest⟩
  | some key, nest => return some ⟨← parseKey method key, nest⟩

/-- The entry that a declaration describes. -/
def MethodDecl.entry (name : String) (decl : MethodDecl) : Except TableError Entry := do
  let args ← decl.arg.mapM (parseBindings name)
  if Visibility.of name = .isExternal then
    return .external {
      desc := decl.desc
      doc := decl.doc
      src := decl.src.getD (publicName name)
      name := decl.name
      args := args }
  else
    let types ← parseTypes name decl.types
    let ext ← parseExtensions name (decl.ext.getD [])
    let serial ← parseSerialization name decl.key decl.nest
    return .method {
      desc := decl.desc
      doc := decl.doc
      def? := decl.def?
      args := args
      set := decl.set.getD []
      types := types
      ext := ext
      pass := decl.pass.getD []
      call := decl.call.getD []
      serial := serial
      ctr := decl.ctr }

namespace Table

/-- The table that declarations describe. -/
def ofDeclarations : Fields MethodDecl → Except TableError Table
  | [] => .ok []
  | (name, decl) :: rest => do
    let entry ← decl.entry name
    return (name, entry) :: (← ofDeclarations rest)

/-- Reads a table from a document. -/
def ofDocument (origin : Origin) (document : Document) : Except TableError Table := do
  let decls ← (Declaration.table origin document).mapError TableError.misfit
  ofDeclarations decls

/-- Reads a table from a text. -/
def ofText (text : String) : Except TableError Table :=
  ofDocument .text (.ofText text)

/-- Reads a table from a value. -/
def ofJson (value : Json) : Except TableError Table :=
  ofDocument .value (.ofJson value)

end Table

end BuilderApi
