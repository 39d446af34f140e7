import BuilderApi.Catalog.Table
import BuilderApi.Proofs.Fields
import BuilderApi.Proofs.Table.Reading
import BuilderApi.Proofs.Table.WellFormed

/-!
# Accepted tables

A table comes from a text or from a value; the catalog of a schema comes from a value too. Whichever
it was, no name is repeated in it (`BuilderApi.Table.Accepted.nodup_names`) or among the members of
a builder (`BuilderApi.Table.Accepted.nodup_members`), and an entry is a re-export exactly if its
name has the external marker (`BuilderApi.Table.Accepted.isExternal_iff`).
-/

namespace BuilderApi

/-! ### Visibility -/

theorem visibility_external (name : String) : Visibility.of ("$" ++ name) = .isExternal :=
  visibility_eq_isExternal_iff.2 ⟨name, rfl⟩

theorem publicName_external (name : String) : publicName ("$" ++ name) = name := by
  have hbehind : behind? "$" ("$" ++ name) = some name := behind?_eq_some_iff.2 rfl
  rw [publicName, without, hbehind, Option.getD_some]

theorem publicName_eq_self {name : String} (h : Visibility.of name ≠ .isExternal) :
    publicName name = name := by
  have hbehind : behind? "$" name = none := by
    rw [Option.eq_none_iff_forall_ne_some]
    intro rest hrest
    exact h (visibility_eq_isExternal_iff.2 ⟨rest, behind?_eq_some_iff.1 hrest⟩)
  rw [publicName, without, hbehind, Option.getD_none]

/-- A public name tells the entry once it is known whether the entry has the external marker. -/
theorem eq_of_publicName_eq {name other : String}
    (hsame : Visibility.of name = .isExternal ↔ Visibility.of other = .isExternal)
    (h : publicName name = publicName other) : name = other := by
  by_cases hexternal : Visibility.of name = .isExternal
  · obtain ⟨rest, rfl⟩ := visibility_eq_isExternal_iff.1 hexternal
    obtain ⟨rest', rfl⟩ := visibility_eq_isExternal_iff.1 (hsame.1 hexternal)
    rw [publicName_external, publicName_external] at h
    rw [h]
  · rwa [publicName_eq_self hexternal, publicName_eq_self (mt hsame.2 hexternal)] at h

/-- A declaration makes a re-export exactly if the name says so. -/
theorem MethodDecl.method?_eq_none_iff {name : String} {decl : MethodDecl} {entry : Entry}
    (h : decl.entry name = .ok entry) :
    entry.method? = none ↔ Visibility.of name = .isExternal := by
  unfold MethodDecl.entry at h
  obtain ⟨args, -, h⟩ := exists_of_bind_eq_ok h
  split at h
  · next hname =>
    cases h
    exact iff_of_true rfl hname
  · next hname =>
    obtain ⟨types, -, h⟩ := exists_of_bind_eq_ok h
    obtain ⟨ext, -, h⟩ := exists_of_bind_eq_ok h
    obtain ⟨serial, -, h⟩ := exists_of_bind_eq_ok h
    cases h
    exact iff_of_false (Option.some_ne_none _) hname

/-! ### Assignments and bindings -/

theorem MethodDecl.mapM_arg_eq {name : String} {decl : MethodDecl} {spec : MethodSpec}
    (h : decl.entry name = .ok (.method spec)) :
    decl.arg.mapM (parseBindings name) = .ok spec.args := by
  unfold MethodDecl.entry at h
  obtain ⟨args, hargs, h⟩ := exists_of_bind_eq_ok h
  split at h
  · cases h
  · obtain ⟨types, -, h⟩ := exists_of_bind_eq_ok h
    obtain ⟨ext, -, h⟩ := exists_of_bind_eq_ok h
    obtain ⟨serial, -, h⟩ := exists_of_bind_eq_ok h
    cases h
    exact hargs

/-- What needs no validation is taken over as it is declared. -/
theorem MethodDecl.taken_eq {name : String} {decl : MethodDecl} {spec : MethodSpec}
    (h : decl.entry name = .ok (.method spec)) :
    spec.set = decl.set.getD [] ∧ spec.pass = decl.pass.getD [] ∧ spec.call = decl.call.getD [] ∧
      spec.ctr = decl.ctr := by
  unfold MethodDecl.entry at h
  obtain ⟨args, -, h⟩ := exists_of_bind_eq_ok h
  split at h
  · cases h
  · obtain ⟨types, -, h⟩ := exists_of_bind_eq_ok h
    obtain ⟨ext, -, h⟩ := exists_of_bind_eq_ok h
    obtain ⟨serial, -, h⟩ := exists_of_bind_eq_ok h
    cases h
    exact ⟨rfl, rfl, rfl, rfl⟩

theorem MethodDecl.parseExtensions_eq {name : String} {decl : MethodDecl} {spec : MethodSpec}
    (h : decl.entry name = .ok (.method spec)) :
    parseExtensions name (decl.ext.getD []) = .ok spec.ext := by
  unfold MethodDecl.entry at h
  obtain ⟨args, -, h⟩ := exists_of_bind_eq_ok h
  split at h
  · cases h
  · obtain ⟨types, -, h⟩ := exists_of_bind_eq_ok h
    obtain ⟨ext, hext, h⟩ := exists_of_bind_eq_ok h
    obtain ⟨serial, -, h⟩ := exists_of_bind_eq_ok h
    cases h
    exact hext

/-- Reading extensions keeps their names. -/
theorem names_parseExtensions {method : String} {decls : Fields (Option ExtensionDecl)}
    {ext : Fields (Option Extension)} (h : parseExtensions method decls = .ok ext) :
    Fields.names ext = Fields.names decls := by
  induction decls generalizing ext with
  | nil =>
    cases h
    rfl
  | cons decl rest ih =>
    obtain ⟨name, decl?⟩ := decl
    cases decl? with
    | none =>
      obtain ⟨others, hothers, h⟩ := exists_of_bind_eq_ok h
      cases h
      exact congrArg (name :: ·) (ih hothers)
    | some decl =>
      obtain ⟨extension, -, h⟩ := exists_of_bind_eq_ok h
      obtain ⟨others, hothers, h⟩ := exists_of_bind_eq_ok h
      cases h
      exact congrArg (name :: ·) (ih hothers)

/-- A map that may be absent repeats no name if it repeats none where it is present. -/
theorem Fields.nodup_names_getD {α : Type} {fields? : Option (Fields α)}
    (h : ∀ fields ∈ fields?, (Fields.names fields).Nodup) :
    (Fields.names (fields?.getD [])).Nodup := by
  cases fields? with
  | none => exact List.nodup_nil
  | some fields => exact h fields rfl

section Bindings

variable {method : String} {decls : List ArgDecl} {bindings : List ArgBinding}

/-- Behind the first binding none takes all arguments. -/
theorem not_isTerminal_readBindings {index : Nat} (hindex : index ≠ 0)
    (h : readBindings method index decls = .ok bindings) :
    ∀ b ∈ bindings, b.isTerminal = false := by
  induction decls generalizing index bindings with
  | nil =>
    cases h
    exact List.forall_mem_nil _
  | cons decl rest ih =>
    rw [readBindings_cons] at h
    obtain ⟨b, -, h⟩ := exists_of_bind_eq_ok h
    split at h
    · cases h
    · next hterminal =>
      obtain ⟨others, hothers, h⟩ := exists_of_bind_eq_ok h
      cases h
      refine List.forall_mem_cons.2 ⟨?_, ih (Nat.succ_ne_zero index) hothers⟩
      simpa [hindex] using hterminal

/-- A binding that takes all arguments stands alone. -/
theorem eq_singleton_or_not_isTerminal (h : parseBindings method decls = .ok bindings) :
    (∃ b, bindings = [b]) ∨ ∀ b ∈ bindings, b.isTerminal = false := by
  obtain ⟨read, hread, h⟩ := exists_of_bind_eq_ok h
  have hrest : ∀ first rest, read = first :: rest → ∀ b ∈ rest, b.isTerminal = false := by
    rintro first rest rfl
    cases decls with
    | nil => cases hread
    | cons decl others =>
      obtain ⟨b, bs, -, hbs, heq⟩ := exists_of_readBindings_cons hread
      cases heq
      exact not_isTerminal_readBindings (Nat.succ_ne_zero 0) hbs
  match read with
  | [] =>
    cases h
    exact .inr (List.forall_mem_nil _)
  | [b] =>
    cases h
    exact .inl ⟨b, rfl⟩
  | first :: second :: rest =>
    dsimp only at h
    split at h
    · cases h
    · next hfirst =>
      cases h
      exact .inr (List.forall_mem_cons.2 ⟨by simpa using hfirst, hrest first _ rfl⟩)

end Bindings

namespace Table

/-- A table that was read from a text or from a value. -/
def Accepted (table : Table) : Prop :=
  (∃ text, ofText text = .ok table) ∨ ∃ value, ofJson value = .ok table

variable {table : Table} {name : String} {entry : Entry}

theorem exists_decls_of_ofDocument {origin : Origin} {document : Document}
    (h : ofDocument origin document = .ok table) :
    ∃ decls, Declaration.table origin document = .ok decls ∧ ofDeclarations decls = .ok table := by
  obtain ⟨decls, hdecls, h⟩ := exists_of_bind_eq_ok h
  exact ⟨decls, eq_ok_of_mapError hdecls, h⟩

/-- The catalog of a schema is accepted. -/
theorem accepted_catalog {schema : Schema} (h : Catalog.table schema = .ok table) :
    Accepted table := by
  obtain ⟨families, -, h⟩ := exists_of_bind_eq_ok h
  exact .inr ⟨_, eq_ok_of_mapError h⟩

namespace Accepted

/-- The declarations that a table was read from. -/
theorem exists_source (h : Accepted table) : ∃ origin document decls,
    Declaration.table origin document = .ok decls ∧ ofDeclarations decls = .ok table := by
  rcases h with ⟨text, h⟩ | ⟨value, h⟩
  · exact ⟨_, _, exists_decls_of_ofDocument h⟩
  · exact ⟨_, _, exists_decls_of_ofDocument h⟩

/-- An accepted table is read from declarations that repeat no name. -/
theorem exists_decls (h : Accepted table) :
    ∃ decls, (Fields.names decls).Nodup ∧ ofDeclarations decls = .ok table := by
  obtain ⟨_, _, decls, hdecls, h⟩ := h.exists_source
  exact ⟨decls, Document.nodup_names_mapOf hdecls, h⟩

/-- No name of an accepted table is repeated. -/
theorem nodup_names (h : Accepted table) : (Fields.names table).Nodup := by
  obtain ⟨decls, hdecls, h⟩ := h.exists_decls
  exact names_of_ofDeclarations h ▸ hdecls

/-- The name of an entry says whether the entry is a re-export. -/
theorem isExternal_iff (h : Accepted table) (hentry : (name, entry) ∈ table) :
    Visibility.of name = .isExternal ↔ entry.method? = none := by
  obtain ⟨decls, -, h⟩ := h.exists_decls
  obtain ⟨decl, -, hdecl⟩ := exists_decl_of_mem h hentry
  exact (MethodDecl.method?_eq_none_iff hdecl).symm

/-- A binding of a builder that takes all arguments is its only one. -/
theorem bindings_eq_singleton_or (h : Accepted table) {spec : MethodSpec}
    (hentry : (name, .method spec) ∈ table) :
    (∃ b, spec.args.getD [] = [b]) ∨ ∀ b ∈ spec.args.getD [], b.isTerminal = false := by
  obtain ⟨decls, -, h⟩ := h.exists_decls
  obtain ⟨decl, -, hdecl⟩ := exists_decl_of_mem h hentry
  have hargs := MethodDecl.mapM_arg_eq hdecl
  cases harg : decl.arg with
  | none =>
    rw [harg] at hargs
    have hnone : none = spec.args := Except.ok.inj hargs
    rw [← hnone]
    exact .inr (List.forall_mem_nil _)
  | some decls =>
    rw [harg] at hargs
    cases hparse : parseBindings name decls with
    | error e =>
      rw [Option.mapM_some, hparse] at hargs
      cases hargs
    | ok bindings =>
      rw [Option.mapM_some, hparse] at hargs
      have hsome : some bindings = spec.args := Except.ok.inj hargs
      rw [← hsome]
      exact eq_singleton_or_not_isTerminal hparse

/-- An entry comes from a declaration that repeats no name in a map. -/
theorem exists_mapsDistinct (h : Accepted table) (hentry : (name, entry) ∈ table) :
    ∃ decl : MethodDecl, decl.MapsDistinct ∧ decl.entry name = .ok entry := by
  obtain ⟨origin, document, decls, hdecls, h⟩ := h.exists_source
  obtain ⟨decl, hdecl, hentry⟩ := exists_decl_of_mem h hentry
  exact ⟨decl,
    Document.forall_mem_mapOf (fun _ _ => Declaration.mapsDistinct_of_read) hdecls _ hdecl, hentry⟩

/-- No builder assigns a property twice. -/
theorem nodup_set (h : Accepted table) {spec : MethodSpec} (hentry : (name, .method spec) ∈ table) :
    (Fields.names spec.set).Nodup := by
  obtain ⟨decl, hdistinct, hentry⟩ := h.exists_mapsDistinct hentry
  rw [(MethodDecl.taken_eq hentry).1]
  exact Fields.nodup_names_getD hdistinct.set

/-- No builder names two extensions, two delegations or two invocations alike. -/
theorem nodup_members (h : Accepted table) {spec : MethodSpec}
    (hentry : (name, .method spec) ∈ table) :
    (Fields.names spec.ext).Nodup ∧ (Fields.names spec.pass).Nodup ∧
    (Fields.names spec.call).Nodup := by
  obtain ⟨decl, hdistinct, hentry⟩ := h.exists_mapsDistinct hentry
  obtain ⟨-, hpass, hcall, -⟩ := MethodDecl.taken_eq hentry
  rw [names_parseExtensions (MethodDecl.parseExtensions_eq hentry), hpass, hcall]
  exact ⟨Fields.nodup_names_getD hdistinct.ext, Fields.nodup_names_getD hdistinct.pass,
    Fields.nodup_names_getD hdistinct.call⟩

end Accepted

end Table

end BuilderApi
