import BuilderApi.Table.Entry
import BuilderApi.Table.Record

/-!
# The declared form of a table

A table is declared as a map of method declarations. The records below have the fields that a
declaration may name, all of them optional but the called entry of a delegation, an invocation or a
proxy and the two fields of a nest. What needs no validation is read into its final type at once.
-/

namespace BuilderApi

/-- The declaration of an extension. -/
structure ExtensionDecl where
  /-- The arguments that it names. -/
  arg : Option (List String) := none
  /-- Literals in front of its arguments; the first one counts. -/
  pre : Option (List Json) := none
  /-- Its dispatch tables. -/
  types : Option Json := none
  /-- Its merge flag. -/
  flag : Option Nat := none
  /-- Its assignments. -/
  set : Option (Fields Json) := none
  /-- Its description. -/
  desc : Option String := none
deriving Inhabited

/-- The declaration of an entry. -/
structure MethodDecl where
  /-- Its description. -/
  desc : Option String := none
  /-- Its category. -/
  doc : Option String := none
  /-- Its definition. -/
  def? : Option String := none
  /-- Its argument bindings. -/
  arg : Option (List ArgDecl) := none
  /-- Its assignments. -/
  set : Option (Fields Json) := none
  /-- Its dispatch tables. -/
  types : Option Json := none
  /-- Its extensions. -/
  ext : Option (Fields (Option ExtensionDecl)) := none
  /-- Its delegations. -/
  pass : Option (Fields (Option Delegation)) := none
  /-- Its invocations. -/
  call : Option (Fields (Option Invocation)) := none
  /-- Its serialization key. -/
  key : Option Json := none
  /-- Its regrouping. -/
  nest : Option Nest := none
  /-- The constructor that it stands for. -/
  ctr : Option Proxy := none
  /-- The module of an external entry. -/
  src : Option String := none
  /-- The name of an external entry in its module. -/
  name : Option String := none
deriving Inhabited

namespace Declaration

variable {α β : Type}

/-- A field that may be absent or null. -/
def optionalField (name : String) (read : Document → Except Misfit β) (put : Option β → α → α) :
    RecordField α where
  name := name
  required := false
  read document record := do return put (← document.optional read) record

/-- A field that has to be there. -/
def requiredField (name : String) (read : Document → Except Misfit β) (put : β → α → α) :
    RecordField α where
  name := name
  required := true
  read document record := do return put (← read document) record

/-- An argument declaration. All of it is read before its form is considered. -/
def argument (document : Document) : Except Misfit ArgDecl := do
  match ← document.value with
  | .str text => return .sigil text
  | .arr [.str prop, value] => return .withDefault prop value
  | _ => .error (.here .noArgument)

/-- The shape of an extension. -/
def extension : RecordShape ExtensionDecl where
  name := "ExtensionDecl"
  fields :=
    [optionalField "arg" (Document.listOf Document.string) fun v r => { r with arg := v },
      optionalField "pre" (Document.listOf Document.value) fun v r => { r with pre := v },
      optionalField "type" Document.value fun v r => { r with types := v },
      optionalField "flag" Document.byte fun v r => { r with flag := v },
      optionalField "set" (Document.mapOf Document.value) fun v r => { r with set := v },
      optionalField "desc" Document.string fun v r => { r with desc := v }]
  lenient := false
  start := {}

/-- The shape of a delegation. -/
def delegation : RecordShape Delegation where
  name := "DelegationDecl"
  fields :=
    [requiredField "call" Document.string fun v r => { r with call := v },
      optionalField "from" Document.string fun v r => { r with source? := v },
      optionalField "args" Document.count fun v r => { r with args := v },
      optionalField "prop" Document.string fun v r => { r with prop := v },
      optionalField "self" Document.string fun v r => { r with selfMethod := v },
      optionalField "desc" Document.string fun v r => { r with desc := v }]
  lenient := false
  start := ⟨"", none, none, none, none, none⟩

/-- The shape of an invocation. -/
def invocation : RecordShape Invocation where
  name := "InvocationDecl"
  fields :=
    [requiredField "call" Document.string fun v r => { r with call := v },
      optionalField "from" Document.string fun v r => { r with source? := v },
      optionalField "args" Document.count fun v r => { r with args := v },
      optionalField "desc" Document.string fun v r => { r with desc := v }]
  lenient := false
  start := ⟨"", none, none, none⟩

/-- The shape of a proxy. -/
def proxy : RecordShape Proxy where
  name := "ProxyDecl"
  fields :=
    [requiredField "call" Document.string fun v r => { r with call := v },
      optionalField "from" Document.string fun v r => { r with source? := v },
      optionalField "arg" Document.value fun v r => { r with arg := v }]
  lenient := false
  start := ⟨"", none, none⟩

/-- The shape of a nest, which passes over what it does not know. -/
def nest : RecordShape Nest where
  name := "Nest"
  fields :=
    [requiredField "keys" (Document.listOf Document.string) fun v r => { r with keys := v },
      requiredField "rest" Document.string fun v r => { r with rest := v }]
  lenient := true
  start := ⟨[], ""⟩

/-- The shape of an entry. -/
def method (origin : Origin) : RecordShape MethodDecl where
  name := "MethodDecl"
  fields :=
    [optionalField "desc" Document.string fun v r => { r with desc := v },
      optionalField "doc" Document.string fun v r => { r with doc := v },
      optionalField "def" Document.string fun v r => { r with def? := v },
      optionalField "arg" (Document.listOf argument) fun v r => { r with arg := v },
      optionalField "set" (Document.mapOf Document.value) fun v r => { r with set := v },
      optionalField "type" Document.value fun v r => { r with types := v },
      optionalField "ext" (Document.mapOf (Document.optional (extension.read origin))) fun v r =>
        { r with ext := v },
      optionalField "pass" (Document.mapOf (Document.optional (delegation.read origin))) fun v r =>
        { r with pass := v },
      optionalField "call" (Document.mapOf (Document.optional (invocation.read origin))) fun v r =>
        { r with call := v },
      optionalField "key" Document.value fun v r => { r with key := v },
      optionalField "nest" (nest.read origin) fun v r => { r with nest := v },
      optionalField "ctr" (proxy.read origin) fun v r => { r with ctr := v },
      optionalField "src" Document.string fun v r => { r with src := v },
      optionalField "name" Document.string fun v r => { r with name := v }]
  lenient := false
  start := {}

/-- The declarations of a table. -/
def table (origin : Origin) : Document → Except Misfit (Fields MethodDecl) :=
  Document.mapOf ((method origin).read origin)

end Declaration

end BuilderApi
