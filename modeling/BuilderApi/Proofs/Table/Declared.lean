import BuilderApi.Proofs.Table.Accepted

/-!
# Values that declare tables

Whether a value can be read as a declaration is decided part by part: a map can be read if all of
its members can (`BuilderApi.Reads.mapOf`), and a record if each member is **taken** by a field, the
names are distinct, and nothing that has to be there is missing (`BuilderApi.Reads.record`). What is
read then has a property that fields keep, so the same walk that shows that a value is read shows
what is read from it.

The property of a declared entry is that it is **sound** (`BuilderApi.MethodDecl.Sound`): it is well
formed under every name, and its references stay within companions and a module that are given. So a
value whose members declare sound entries is a table, whatever their names are
(`BuilderApi.Table.exists_ofJson`), and its entries refer to nothing else
(`BuilderApi.Table.within_of_ofJson`).
-/

namespace BuilderApi

/-- The value is read, and what is read is good. -/
def Reads {α : Type} (read : Document → Except Misfit α) (good : α → Prop) (value : Json) : Prop :=
  ∃ a, read (.ofJson value) = .ok a ∧ good a

/-- A member is read by a field of its name, which keeps records good. -/
def RecordShape.Takes {α : Type} (shape : RecordShape α) (good : α → Prop)
    (member : String × Json) : Prop :=
  ∃ field, shape.field? member.1 = some field ∧
    ∀ record, good record → Reads (field.read · record) good member.2

/-- A list whose items are read one by one. -/
theorem Document.listOf_map {α β : Type} {read : Document → Except Misfit α}
    {f : β → Json} {g : β → α} (h : ∀ b, read (.ofJson (f b)) = .ok (g b)) (bs : List β) :
    listOf read (.ofJson (.arr (bs.map f))) = .ok (bs.map g) := by
  have hitems : ∀ index, eachItem read index (ofItems (bs.map f)) = .ok (bs.map g) := by
    induction bs with
    | nil => exact fun _ => rfl
    | cons b bs ih =>
      intro index
      rw [List.map_cons, ofItems, eachItem, h b, ih (index + 1)]
      rfl
  rw [ofJson, listOf, hitems]
  rfl

namespace Reads

variable {α : Type} {read : Document → Except Misfit α} {good : α → Prop}

/-! ### Lists and maps -/

/-- Null is read, and anything else as before. -/
theorem optional {value : Json} (h : Reads read good value) :
    Reads (Document.optional read) (fun out => ∀ a ∈ out, good a) value := by
  obtain ⟨a, ha, hgood⟩ := h
  cases value with
  | null => exact ⟨none, rfl, nofun⟩
  | _ => exact ⟨some a, by rw [Document.optional, ha]; rfl; rintro ⟨⟩, by rintro _ ⟨⟩; exact hgood⟩

/-- A map is read if each of its values is. -/
theorem mapOf {members : List (String × Json)} (h : ∀ member ∈ members, Reads read good member.2) :
    Reads (Document.mapOf read) (fun fields => ∀ field ∈ fields, good field.2) (.obj members) := by
  have hmembers : ∀ fields : Fields α, (∀ field ∈ fields, good field.2) →
      ∃ out, Document.eachMember read fields (Document.ofMembers members) = .ok out ∧
        ∀ field ∈ out, good field.2 := by
    induction members with
    | nil => exact fun fields hfields => ⟨fields, rfl, hfields⟩
    | cons member rest ih =>
      intro fields hfields
      obtain ⟨⟨a, ha, hgood⟩, hrest⟩ := List.forall_mem_cons.1 h
      obtain ⟨out, hout, hout'⟩ := ih hrest (fields.put member.1 a) fun field hfield => by
        rcases Fields.mem_put hfield with hfield | rfl
        · exact hfields field hfield
        · exact hgood
      refine ⟨out, ?_, hout'⟩
      rw [Document.ofMembers, Document.eachMember, ha]
      exact hout
  obtain ⟨out, hout, hgood⟩ := hmembers [] (List.forall_mem_nil _)
  refine ⟨out, ?_, hgood⟩
  rw [Document.ofJson, Document.mapOf, hout]
  rfl

/-! ### Records -/

variable {shape : RecordShape α}

/-- Members are read into a record that stays good, as long as no name is repeated. -/
theorem readMembers {members : List (String × Json)} (hnames : (Fields.names members).Nodup)
    (h : ∀ member ∈ members, shape.Takes good member) {seen : List String}
    (hseen : ∀ name ∈ Fields.names members, name ∉ seen) {record : α} (hrecord : good record) :
    ∃ out, shape.readMembers seen record (Document.ofMembers members) = .ok out ∧ good out.2 := by
  induction members generalizing seen record with
  | nil => exact ⟨_, rfl, hrecord⟩
  | cons member rest ih =>
    obtain ⟨hname, hnames⟩ := List.nodup_cons.1 hnames
    obtain ⟨⟨field, hfield, htakes⟩, hrest⟩ := List.forall_mem_cons.1 h
    obtain ⟨hfirst, hothers⟩ := List.forall_mem_cons.1 hseen
    obtain ⟨next, hnext, hgood⟩ := htakes record hrecord
    have hseen' : ∀ name ∈ Fields.names rest, name ∉ member.1 :: seen := by
      intro name hmem
      rw [List.mem_cons, not_or]
      exact ⟨fun heq => hname (heq ▸ hmem), hothers name hmem⟩
    obtain ⟨out, hout, hgood⟩ := ih hnames hrest hseen' hgood
    have hcheck : shape.checkName seen member.1 = .ok (some field) := by
      simp only [RecordShape.checkName, hfield, if_neg hfirst]
    have hnext : field.read (.ofJson member.2) record = .ok next := hnext
    have hread : within (.name member.1) (field.read (.ofJson member.2) record) = .ok next := by
      rw [hnext]
      rfl
    refine ⟨out, ?_, hgood⟩
    simp only [Document.ofMembers, RecordShape.readMembers, hcheck, bind, Except.bind, hread, hout]

/-- **A record without required fields is read** if its members have distinct names and are all
taken. -/
theorem record {origin : Origin} {members : List (String × Json)}
    (hnames : (Fields.names members).Nodup) (h : ∀ member ∈ members, shape.Takes good member)
    (hrequired : shape.fields.all (!·.required) = true) (hstart : good shape.start) :
    Reads (shape.read origin) good (.obj members) := by
  obtain ⟨⟨seen, record⟩, hout, hgood⟩ := readMembers hnames h (fun _ _ => List.not_mem_nil) hstart
  have hmissing : shape.checkMissing seen = .ok () := by
    have hnone :
        (shape.fields.find? fun field => field.required && !seen.contains field.name) = none := by
      rw [List.find?_eq_none]
      intro field hfield
      have := List.all_eq_true.1 hrequired field hfield
      simp_all
    simp only [RecordShape.checkMissing, hnone]
  refine ⟨record, ?_, hgood⟩
  simp only [Document.ofJson, RecordShape.read, hout, bind, Except.bind, RecordShape.checkEnd,
    ObjectEnd.check, hmissing]
  rfl

end Reads

/-- A field that may be absent takes what it can read, if the record stays good. -/
theorem RecordShape.takes_optional {α β : Type} {shape : RecordShape α} {good : α → Prop}
    {name : String} {read : Document → Except Misfit β} {put : Option β → α → α}
    {property : Option β → Prop} {value : Json}
    (hfield : shape.field? name = some (Declaration.optionalField name read put))
    (hread : Reads (Document.optional read) property value)
    (hput : ∀ out record, property out → good record → good (put out record)) :
    shape.Takes good (name, value) := by
  obtain ⟨out, hout, hproperty⟩ := hread
  refine ⟨_, hfield, fun record hrecord => ⟨put out record, ?_, hput out record hproperty hrecord⟩⟩
  simp only [Declaration.optionalField, hout]
  rfl

/-! ### Sound declarations -/

/-- A declaration that is well formed under every name, and whose references stay inside: its proxy
and its delegations lead to companions in modules of their own, and its invocations to one given
module. -/
structure MethodDecl.Sound (companions : List String) (functions : String)
    (decl : MethodDecl) : Prop where
  /-- Its arguments. -/
  arg : ∀ decls ∈ decl.arg, ArgDecl.AllWellFormed decls
  /-- Its dispatch tables. -/
  types : ∀ value ∈ decl.types, value.AreTables Json.WrapsAlone
  /-- Its extensions; null is none. -/
  ext : ∀ exts ∈ decl.ext, ∀ entry ∈ exts, ∀ ext ∈ entry.2, ext.WellFormed Json.WrapsAlone
  /-- Its serialization key. -/
  key : ∀ value ∈ decl.key, value.IsKey
  /-- The constructor that it stands for. -/
  ctr : ∀ proxy ∈ decl.ctr, proxy.source? = none ∧ proxy.call ∈ companions
  /-- Its delegations. -/
  pass : ∀ passes ∈ decl.pass, ∀ entry ∈ passes, ∀ pass ∈ entry.2, pass.source? = none ∧
    pass.call ∈ companions
  /-- Its invocations. -/
  call : ∀ calls ∈ decl.call, ∀ entry ∈ calls, ∀ call ∈ entry.2, call.source? = some functions

section Sound

variable {companions : List String} {functions : String} {decl : MethodDecl}

/-- A sound declaration is well formed under each name. -/
theorem MethodDecl.Sound.wellFormed (h : decl.Sound companions functions) (name : String) :
    decl.WellFormed Json.WrapsAlone name :=
  ⟨h.arg, fun _ => ⟨h.types, h.ext, h.key⟩⟩

/-- An entry whose references stay inside. -/
structure MethodSpec.Within (companion : String → Prop) (functions : String)
    (spec : MethodSpec) : Prop where
  /-- The constructor that it stands for. -/
  ctr : ∀ proxy ∈ spec.ctr, proxy.source? = none ∧ companion proxy.call
  /-- Its delegations. -/
  pass : ∀ entry ∈ spec.pass, ∀ pass ∈ entry.2, pass.source? = none ∧ companion pass.call
  /-- Its invocations. -/
  call : ∀ entry ∈ spec.call, ∀ call ∈ entry.2, call.source? = some functions

/-- References stay inside of what is larger. -/
theorem MethodSpec.Within.mono {companion other : String → Prop} {spec : MethodSpec}
    (h : spec.Within companion functions) (hother : ∀ name, companion name → other name) :
    spec.Within other functions where
  ctr proxy hproxy := (h.ctr proxy hproxy).imp_right (hother _)
  pass entry hentry pass hpass := (h.pass entry hentry pass hpass).imp_right (hother _)
  call := h.call

/-- The name is that of a builder of the table. -/
def Table.HasBuilder (table : Table) (name : String) : Prop := (table.method? name).isSome

/-- What is a builder is found as one. -/
theorem Table.HasBuilder.exists_get? {table : Table} {name : String} (h : table.HasBuilder name) :
    ∃ spec, Fields.get? table name = some (.method spec) := by
  obtain ⟨spec, hspec⟩ := Option.isSome_iff_exists.1 h
  obtain ⟨entry, hget, hentry⟩ := Option.bind_eq_some_iff.1 hspec
  cases entry with
  | external => cases hentry
  | method other =>
    cases hentry
    exact ⟨spec, hget⟩

/-- **A closed table**: proxies and delegations lead to builders of the table in modules of their
own, and invocations to one given module. -/
def Table.Closed (table : Table) (functions : String) : Prop :=
  ∀ name spec, (name, .method spec) ∈ table → spec.Within table.HasBuilder functions

/-- The entry of a sound declaration refers to companions and to one module of functions. -/
theorem MethodDecl.Sound.within (h : decl.Sound companions functions) {name : String}
    {spec : MethodSpec} (hentry : decl.entry name = .ok (.method spec)) :
    spec.Within (· ∈ companions) functions := by
  obtain ⟨-, hpass, hcall, hctr⟩ := MethodDecl.taken_eq hentry
  constructor
  · exact hctr ▸ h.ctr
  · rw [hpass]
    cases hdecl : decl.pass with
    | none => exact List.forall_mem_nil _
    | some passes => exact h.pass passes hdecl
  · rw [hcall]
    cases hdecl : decl.call with
    | none => exact List.forall_mem_nil _
    | some calls => exact h.call calls hdecl

/-! ### Parts of a declared entry -/

/-- The value is read as dispatch tables, or null. -/
def Tabulates (value : Json) : Prop :=
  Reads (Document.optional Document.value) (fun out =>
    ∀ types ∈ out, types.AreTables Json.WrapsAlone) value

/-- The value is read as argument bindings, or null. -/
def Binds (value : Json) : Prop :=
  Reads (Document.optional (Document.listOf Declaration.argument)) (fun out =>
    ∀ decls ∈ out, ArgDecl.AllWellFormed decls)
    value

/-- The value is read as a serialization key, or null. -/
def Keys (value : Json) : Prop :=
  Reads (Document.optional Document.value) (fun out => ∀ key ∈ out, key.IsKey) value

/-- The value is read as an extension, or null. -/
def Extends (value : Json) : Prop :=
  Reads (Document.optional (Declaration.extension.read .value))
    (fun out => ∀ ext ∈ out, ext.WellFormed Json.WrapsAlone) value

/-- The value is read as a delegation to a companion, or null. -/
def Passes (companions : List String) (value : Json) : Prop :=
  Reads (Document.optional (Declaration.delegation.read .value))
    (fun out => ∀ pass ∈ out, pass.source? = none ∧ pass.call ∈ companions) value

/-- The value is read as an invocation of a function of a module, or null. -/
def Invokes (functions : String) (value : Json) : Prop :=
  Reads (Document.optional (Declaration.invocation.read .value))
    (fun out => ∀ call ∈ out, call.source? = some functions) value

/-- The value declares a sound entry. -/
def Declares (companions : List String) (functions : String) (value : Json) : Prop :=
  Reads ((Declaration.method .value).read .value) (MethodDecl.Sound companions functions) value

theorem tabulates_null : Tabulates .null := ⟨none, rfl, nofun⟩

/-- A value that is parsed as tables under one name is accepted under all. -/
theorem tabulates_of_parse {value types : Json} {tables : List (Option TypeTable)}
    (hvalue : (Document.ofJson value).value = .ok types)
    (h : TypeTable.parsePositions "" types = .ok tables) :
    Tabulates value :=
  Reads.optional ⟨types, hvalue, (TypeTable.judges_parsePositions types).ok_iff.1 ⟨tables, h⟩⟩

theorem binds_null : Binds .null := ⟨none, rfl, nofun⟩

/-- A value that is parsed as bindings under one name is accepted under all. -/
theorem binds_of_parse {value : Json} {decls : List ArgDecl} {bindings : List ArgBinding}
    (hvalue : Document.listOf Declaration.argument (.ofJson value) = .ok decls)
    (h : parseBindings "" decls = .ok bindings) : Binds value :=
  Reads.optional ⟨decls, hvalue, (judges_parseBindings decls).ok_iff.1 ⟨bindings, h⟩⟩

/-- Texts are bindings if they can be parsed. -/
theorem binds_strs {args : List String} (h : (parseBindings "" (args.map .sigil)).isOk = true) :
    Binds (.strs args) := by
  cases hparse : parseBindings "" (args.map .sigil) with
  | error e =>
    rw [hparse] at h
    cases h
  | ok bindings =>
    have hread : ∀ text, Declaration.argument (.ofJson (.str text)) = .ok (.sigil text) :=
      fun _ => rfl
    exact binds_of_parse (Document.listOf_map hread args) hparse

/-- A value that is parsed as a key under one name is accepted under all. -/
theorem keys_of_parse {value key : Json} {shape : KeyShape}
    (hvalue : (Document.ofJson value).value = .ok key) (h : parseKey "" key = .ok shape) :
    Keys value :=
  Reads.optional ⟨key, hvalue, (judges_parseKey key).ok_iff.1 ⟨shape, h⟩⟩

theorem passes_null : Passes companions .null := ⟨none, rfl, nofun⟩

/-- A delegation to a companion without a source of its own stays inside. -/
theorem passes_of_read {value : Json} {pass : Delegation}
    (hvalue : Declaration.delegation.read .value (.ofJson value) = .ok pass)
    (hsource : pass.source? = none) (hcall : pass.call ∈ companions) : Passes companions value :=
  Reads.optional ⟨pass, hvalue, hsource, hcall⟩

/-- An invocation of a function of the one module stays inside. -/
theorem invokes_of_read {value : Json} {call : Invocation}
    (hvalue : Declaration.invocation.read .value (.ofJson value) = .ok call)
    (hsource : call.source? = some functions) :
    Invokes functions value :=
  Reads.optional ⟨call, hvalue, hsource⟩

/-! ### Members of an extension -/

theorem extends_null : Extends .null := ⟨none, rfl, nofun⟩

/-- An extension is accepted if each of its members is and no name is repeated. -/
theorem extends_object {members : List (String × Json)} (hnames : (Fields.names members).Nodup)
    (h : ∀ member ∈ members,
      Declaration.extension.Takes (ExtensionDecl.WellFormed Json.WrapsAlone) member) :
    Extends (.obj members) :=
  (Reads.record hnames h rfl ⟨nofun, nofun⟩).optional

namespace ExtensionDecl

/-- At most one argument. -/
theorem takes_arg {args : List String} {value : Json}
    (hvalue : Document.listOf Document.string (.ofJson value) = .ok args) (h : args.length ≤ 1) :
    Declaration.extension.Takes (WellFormed Json.WrapsAlone) ("arg", value) := by
  have hread : Reads (Document.listOf Document.string) (· = args) value := ⟨args, hvalue, rfl⟩
  refine RecordShape.takes_optional rfl hread.optional fun out decl hout hdecl => ?_
  refine ⟨?_, hdecl.types⟩
  rintro _ rfl
  obtain rfl := hout _ rfl
  exact h

theorem takes_types {value : Json} (h : Tabulates value) :
    Declaration.extension.Takes (WellFormed Json.WrapsAlone) ("type", value) :=
  RecordShape.takes_optional rfl h fun _ _ hout hdecl => ⟨hdecl.arg, hout⟩

/-- A field that needs no validation. -/
theorem takes_free {name : String} {value : Json} {β : Type} {read : Document → Except Misfit β}
    {put : Option β → ExtensionDecl → ExtensionDecl} {out : Option β}
    (hfield : Declaration.extension.field? name = some (Declaration.optionalField name read put))
    (hread : Document.optional read (.ofJson value) = .ok out)
    (hput : ∀ decl, (put out decl).arg = decl.arg ∧ (put out decl).types = decl.types) :
    Declaration.extension.Takes (WellFormed Json.WrapsAlone) (name, value) := by
  have hread : Reads (Document.optional read) (· = out) value := ⟨out, hread, rfl⟩
  refine RecordShape.takes_optional hfield hread ?_
  rintro _ decl rfl h
  exact ⟨(hput decl).1 ▸ h.arg, (hput decl).2 ▸ h.types⟩

end ExtensionDecl

/-! ### Members of an entry -/

/-- A member of an entry that keeps it sound. -/
abbrev Declaration.Takes (companions : List String) (functions : String)
    (member : String × Json) : Prop :=
  (Declaration.method .value).Takes (MethodDecl.Sound companions functions) member

/-- An entry is declared if each of its members is and no name is repeated. -/
theorem declares_object {members : List (String × Json)} (hnames : (Fields.names members).Nodup)
    (h : ∀ member ∈ members, Declaration.Takes companions functions member) :
    Declares companions functions (.obj members) :=
  Reads.record hnames h rfl ⟨nofun, nofun, nofun, nofun, nofun, nofun, nofun⟩

namespace Declaration

variable {value : Json}

/-- The fields that hold texts. -/
theorem takes_text {name : String} (hname : name ∈ ["desc", "doc", "def", "src", "name"])
    (text : Option String) :
    Takes companions functions (name, (text.map Json.str).getD .null) := by
  have hread : Reads (Document.optional Document.string) (fun _ => True)
      ((text.map Json.str).getD .null) := by
    cases text <;> exact ⟨_, rfl, trivial⟩
  simp only [List.mem_cons, List.not_mem_nil, or_false] at hname
  rcases hname with rfl | rfl | rfl | rfl | rfl <;>
    exact RecordShape.takes_optional rfl hread fun _ _ _ h => { h with }

/-- One assignment of a text. -/
theorem takes_set (name text : String) :
    Takes companions functions ("set", .obj [(name, .str text)]) := by
  have hread : Reads (Document.mapOf Document.value) (fun _ => True) (.obj [(name, .str text)]) :=
    ⟨_, rfl, trivial⟩
  exact RecordShape.takes_optional rfl hread.optional fun _ _ _ h => { h with }

theorem takes_nest {nest : Nest}
    (hvalue : Declaration.nest.read .value (.ofJson value) = .ok nest) :
    Takes companions functions ("nest", value) := by
  have hread : Reads (Declaration.nest.read .value) (· = nest) value := ⟨nest, hvalue, rfl⟩
  exact RecordShape.takes_optional rfl hread.optional fun _ _ _ h => { h with }

theorem takes_arg (h : Binds value) : Takes companions functions ("arg", value) :=
  RecordShape.takes_optional rfl h fun _ _ hout h => { h with arg := hout }

theorem takes_types (h : Tabulates value) : Takes companions functions ("type", value) :=
  RecordShape.takes_optional rfl h fun _ _ hout h => { h with types := hout }

theorem takes_key (h : Keys value) : Takes companions functions ("key", value) :=
  RecordShape.takes_optional rfl h fun _ _ hout h => { h with key := hout }

/-- Extensions are taken if each of them is accepted. -/
theorem takes_ext {members : List (String × Json)} (h : ∀ member ∈ members, Extends member.2) :
    Takes companions functions ("ext", .obj members) :=
  RecordShape.takes_optional rfl (Reads.mapOf h).optional fun _ _ hout h => { h with ext := hout }

/-- Delegations are taken if each of them stays inside. -/
theorem takes_pass {members : List (String × Json)}
    (h : ∀ member ∈ members, Passes companions member.2) :
    Takes companions functions ("pass", .obj members) :=
  RecordShape.takes_optional rfl (Reads.mapOf h).optional fun _ _ hout h => { h with pass := hout }

/-- Invocations are taken if each of them stays inside. -/
theorem takes_call {members : List (String × Json)}
    (h : ∀ member ∈ members, Invokes functions member.2) :
    Takes companions functions ("call", .obj members) :=
  RecordShape.takes_optional rfl (Reads.mapOf h).optional fun _ _ hout h => { h with call := hout }

/-- A proxy of a companion. -/
theorem takes_ctr {proxy : Proxy}
    (hvalue : Declaration.proxy.read .value (.ofJson value) = .ok proxy)
    (hsource : proxy.source? = none) (hcall : proxy.call ∈ companions) :
    Takes companions functions ("ctr", value) := by
  have hread : Reads (Declaration.proxy.read .value) (· = proxy) value := ⟨proxy, hvalue, rfl⟩
  refine RecordShape.takes_optional rfl hread.optional fun out decl hout h => { h with ctr := ?_ }
  rintro _ rfl
  obtain rfl := hout _ rfl
  exact ⟨hsource, hcall⟩

end Declaration

/-! ### Tables -/

namespace Table

variable {members : List (String × Json)}

/-- A table of sound declarations is read. -/
theorem reads_table (h : ∀ member ∈ members, Declares companions functions member.2) :
    Reads (Declaration.table .value)
      (fun decls => ∀ field ∈ decls, field.2.Sound companions functions) (.obj members) :=
  Reads.mapOf h

/-- **A value whose members declare sound entries is a table**, whatever the names are. -/
theorem exists_ofJson (h : ∀ member ∈ members, Declares companions functions member.2) :
    ∃ table, ofJson (.obj members) = .ok table := by
  obtain ⟨decls, hdecls, hsound⟩ := reads_table h
  obtain ⟨table, htable⟩ := (exists_ok_iff decls).2 fun field hfield =>
    (hsound field hfield).wellFormed field.1
  refine ⟨table, ?_⟩
  rw [ofJson, ofDocument, hdecls]
  exact htable

/-- **The entries of such a table refer to nothing but companions and functions of the module.** -/
theorem within_of_ofJson (h : ∀ member ∈ members, Declares companions functions member.2)
    {table : Table} (htable : ofJson (.obj members) = .ok table) {name : String} {spec : MethodSpec}
    (hentry : (name, .method spec) ∈ table) : spec.Within (· ∈ companions) functions := by
  obtain ⟨decls, hdecls, hsound⟩ := reads_table h
  obtain ⟨others, hothers, htable⟩ := exists_decls_of_ofDocument htable
  obtain rfl := Except.ok.inj (hdecls.symm.trans hothers)
  obtain ⟨decl, hdecl, hentry⟩ := exists_decl_of_mem htable hentry
  exact (hsound _ hdecl).within hentry

/-- What is declared under a name stands in the table under this name. -/
theorem get?_of_ofDeclarations {decls : Fields MethodDecl} {table : Table}
    (h : ofDeclarations decls = .ok table) {name : String} {decl : MethodDecl}
    (hdecl : Fields.get? decls name = some decl) :
    ∃ entry, decl.entry name = .ok entry ∧ Fields.get? table name = some entry := by
  induction decls generalizing table with
  | nil => cases hdecl
  | cons field rest ih =>
    rw [ofDeclarations_cons] at h
    obtain ⟨first, hfirst, h⟩ := exists_of_bind_eq_ok h
    obtain ⟨others, hothers, h⟩ := exists_of_bind_eq_ok h
    cases h
    by_cases hname : field.1 = name
    · rw [Fields.get?, if_pos hname] at hdecl
      cases hdecl
      exact ⟨first, hname ▸ hfirst, by rw [Fields.get?, if_pos hname]⟩
    · rw [Fields.get?, if_neg hname] at hdecl
      obtain ⟨entry, hentry, hget⟩ := ih hothers hdecl
      exact ⟨entry, hentry, by rw [Fields.get?, if_neg hname, hget]⟩

/-- **Each member of a value declares its entry alone.** -/
theorem exists_entry_of_mem (hnames : (Fields.names members).Nodup) {table : Table}
    (h : ofJson (.obj members) = .ok table) {name : String} {value : Json}
    (hmember : (name, value) ∈ members) :
    ∃ entry, ofJson (.obj [(name, value)]) = .ok [(name, entry)] ∧
      Fields.get? table name = some entry := by
  obtain ⟨decls, hdecls, htable⟩ := exists_decls_of_ofDocument h
  obtain ⟨decl, hread, hdecl⟩ := Document.exists_of_mem_mapOf hnames hdecls hmember
  obtain ⟨entry, hentry, hget⟩ := get?_of_ofDeclarations htable hdecl
  refine ⟨entry, ?_, hget⟩
  have hsingle :
      Declaration.table .value (.ofJson (.obj [(name, value)])) = .ok [(name, decl)] := by
    simp only [Declaration.table, Document.ofJson, Document.ofMembers, Document.mapOf,
      Document.eachMember, hread]
    rfl
  rw [ofJson, ofDocument, hsingle]
  simp only [Except.mapError, bind, Except.bind, ofDeclarations, hentry]
  rfl

/-- A table has the names of its document, and no others. -/
theorem mem_names_ofJson (hnames : (Fields.names members).Nodup) {table : Table}
    (h : ofJson (.obj members) = .ok table) (name : String) :
    name ∈ Fields.names table ↔ name ∈ Fields.names members := by
  constructor
  · intro hname
    by_contra hnone
    obtain ⟨decls, hdecls, htable⟩ := exists_decls_of_ofDocument h
    rw [names_of_ofDeclarations htable] at hname
    exact Fields.get?_eq_none_iff.1 (Document.get?_mapOf_eq_none hdecls hnone) hname
  · intro hname
    obtain ⟨⟨name, value⟩, hmember, rfl⟩ := List.mem_map.1 hname
    obtain ⟨entry, -, hget⟩ := exists_entry_of_mem hnames h hmember
    exact List.mem_map_of_mem (Fields.mem_of_get? hget)

end Table

end Sound

end BuilderApi
