import BuilderApi.Proofs.Fields
import BuilderApi.Proofs.Json.Keyed
import BuilderApi.Proofs.Results
import BuilderApi.Table.Declaration

/-!
# What reading establishes

A reader builds its record field by field, so what is true of the empty record and kept by each
field is true of the record in the end (`BuilderApi.RecordShape.Keeps.read`), whether it was written
as an object or as a list. A map is built by puts, which never repeat a name
(`BuilderApi.Document.nodup_names_mapOf`). Together they say that no declared entry assigns a
property twice (`BuilderApi.Declaration.setDistinct_of_read`).
-/

namespace BuilderApi

/-! ### Maps that are read -/

namespace Document

variable {α : Type} {read : Document → Except Misfit α} {fields out : Fields α}

theorem nodup_names_eachMember {members : List (NamedPart Document)}
    (hfields : (Fields.names fields).Nodup) (h : eachMember read fields members = .ok out) :
    (Fields.names out).Nodup := by
  induction members generalizing fields with
  | nil =>
    cases h
    exact hfields
  | cons member rest ih =>
    obtain ⟨value, -, hrest⟩ := exists_of_bind_eq_ok h
    exact ih (Fields.nodup_names_put hfields _ _) hrest

/-- A map that is read has no repeated name, also if the document has. -/
theorem nodup_names_mapOf {document : Document} (h : mapOf read document = .ok out) :
    (Fields.names out).Nodup := by
  cases document with
  | obj members ending =>
    obtain ⟨fields, hfields, h⟩ := exists_of_bind_eq_ok h
    obtain ⟨_, -, h⟩ := exists_of_bind_eq_ok h
    cases h
    have hnone : (Fields.names ([] : Fields α)).Nodup := List.nodup_nil
    exact nodup_names_eachMember hnone hfields
  | _ => cases h

/-- What is true of all that is read is true of a map of it. -/
theorem forall_mem_mapOf {property : α → Prop}
    (hread : ∀ document value, read document = .ok value → property value)
    {document : Document} (h : mapOf read document = .ok out) :
    ∀ field ∈ out, property field.2 := by
  have hmembers : ∀ {members : List (NamedPart Document)} {fields out : Fields α},
      (∀ field ∈ fields, property field.2) → eachMember read fields members = .ok out →
      ∀ field ∈ out, property field.2 := by
    intro members
    induction members with
    | nil =>
      rintro fields out hfields ⟨⟩
      exact hfields
    | cons member rest ih =>
      intro fields out hfields h
      obtain ⟨value, hvalue, hrest⟩ := exists_of_bind_eq_ok h
      refine ih (fun field hfield => ?_) hrest
      rcases Fields.mem_put hfield with hfield | rfl
      · exact hfields field hfield
      · exact hread _ _ (ok_of_within hvalue)
  cases document with
  | obj members ending =>
    obtain ⟨fields, hfields, h⟩ := exists_of_bind_eq_ok h
    obtain ⟨_, -, h⟩ := exists_of_bind_eq_ok h
    cases h
    exact hmembers (List.forall_mem_nil _) hfields
  | _ => cases h

theorem get?_eachMember {members : List (String × Json)}
    (h : eachMember read fields (ofMembers members) = .ok out)
    {name : String} (hname : name ∉ Fields.names members) :
    Fields.get? out name = Fields.get? fields name := by
  induction members generalizing fields with
  | nil =>
    cases h
    rfl
  | cons member rest ih =>
    obtain ⟨value, -, hrest⟩ := exists_of_bind_eq_ok h
    obtain ⟨hfirst, hothers⟩ := not_or.1 (mt List.mem_cons.2 hname)
    rw [ih hrest hothers, Fields.get?_put, if_neg (Ne.symm hfirst)]

theorem exists_of_mem_eachMember {members : List (String × Json)}
    (hnames : (Fields.names members).Nodup)
    (h : eachMember read fields (ofMembers members) = .ok out) {name : String} {value : Json}
    (hmember : (name, value) ∈ members) :
    ∃ a, read (.ofJson value) = .ok a ∧ Fields.get? out name = some a := by
  induction members generalizing fields with
  | nil => cases hmember
  | cons member rest ih =>
    obtain ⟨hfirst, hrest⟩ := List.nodup_cons.1 hnames
    obtain ⟨a, ha, h⟩ := exists_of_bind_eq_ok h
    rcases List.mem_cons.1 hmember with rfl | hmember
    · exact ⟨a, ok_of_within ha, by rw [get?_eachMember h hfirst, Fields.get?_put_self]⟩
    · exact ih hrest h hmember

/-- A map that is read has no other names. -/
theorem get?_mapOf_eq_none {members : List (String × Json)}
    (h : mapOf read (.ofJson (.obj members)) = .ok out) {name : String}
    (hname : name ∉ Fields.names members) : Fields.get? out name = none := by
  obtain ⟨fields, hfields, h⟩ := exists_of_bind_eq_ok h
  obtain ⟨_, -, h⟩ := exists_of_bind_eq_ok h
  cases h
  exact get?_eachMember hfields hname

/-- With distinct names, a map that is read has what each member alone is read as. -/
theorem exists_of_mem_mapOf {members : List (String × Json)} (hnames : (Fields.names members).Nodup)
    (h : mapOf read (.ofJson (.obj members)) = .ok out) {name : String} {value : Json}
    (hmember : (name, value) ∈ members) :
    ∃ a, read (.ofJson value) = .ok a ∧ Fields.get? out name = some a := by
  obtain ⟨fields, hfields, h⟩ := exists_of_bind_eq_ok h
  obtain ⟨_, -, h⟩ := exists_of_bind_eq_ok h
  cases h
  exact exists_of_mem_eachMember hnames hfields hmember

/-- A map that may be absent repeats no name either. -/
theorem nodup_names_optional_mapOf {document : Document} {out? : Option (Fields α)}
    (h : optional (mapOf read) document = .ok out?) : ∀ out ∈ out?, (Fields.names out).Nodup := by
  rintro out rfl
  unfold optional at h
  split at h
  · cases h
  · obtain ⟨fields, hfields, h⟩ := exists_of_bind_eq_ok h
    cases h
    exact nodup_names_mapOf hfields

end Document

/-! ### Records that are read -/

namespace RecordShape

variable {α : Type} {shape : RecordShape α} {property : α → Prop}

/-- The fields of a shape keep the property of a record. -/
def Keeps (shape : RecordShape α) (property : α → Prop) : Prop :=
  ∀ field ∈ shape.fields, ∀ document record record', field.read document record = .ok record' →
    property record → property record'

theorem Keeps.readMembers (hkeeps : shape.Keeps property) {members : List (NamedPart Document)}
    {seen : List String} {record : α} {out : List String × α} (hrecord : property record)
    (h : shape.readMembers seen record members = .ok out) : property out.2 := by
  induction members generalizing seen record with
  | nil =>
    cases h
    exact hrecord
  | cons member rest ih =>
    obtain ⟨field?, hfield, h⟩ := exists_of_bind_eq_ok h
    cases field? with
    | some field =>
      obtain ⟨record', hrecord', h⟩ := exists_of_bind_eq_ok h
      have hmem : field ∈ shape.fields := by
        unfold checkName at hfield
        split at hfield
        · next hfind =>
          split at hfield
          · cases hfield
          · cases hfield
            exact List.mem_of_find?_eq_some hfind
        · split at hfield <;> cases hfield
      exact ih (hkeeps field hmem _ _ _ (Document.ok_of_within hrecord') hrecord) h
    | none =>
      dsimp only at h
      split at h
      · cases h
      · exact ih hrecord h

theorem Keeps.readItems (hkeeps : shape.Keeps property) {origin : Origin} {count index : Nat}
    {ending : ListEnd} {fields : List (RecordField α)} (hfields : fields ⊆ shape.fields)
    {items : List Document} {record out : α} (hrecord : property record)
    (h : shape.readItems origin count ending index fields items record = .ok out) :
    property out := by
  induction fields generalizing index items record with
  | nil =>
    obtain ⟨_, -, h⟩ := exists_of_bind_eq_ok h
    cases h
    exact hrecord
  | cons field fields ih =>
    obtain ⟨hfield, hfields⟩ := List.cons_subset.1 hfields
    cases items with
    | cons item items =>
      obtain ⟨record', hrecord', h⟩ := exists_of_bind_eq_ok h
      exact ih hfields (hkeeps field hfield _ _ _ (Document.ok_of_within hrecord') hrecord) h
    | nil =>
      obtain ⟨_, -, h⟩ := exists_of_bind_eq_ok h
      split at h
      · cases h
      · exact ih hfields hrecord h

/-- **What holds in the beginning and is kept by every field holds of a record that is read.** -/
theorem Keeps.read (hkeeps : shape.Keeps property) (hstart : property shape.start) {origin : Origin}
    {document : Document} {record : α} (h : shape.read origin document = .ok record) :
    property record := by
  cases document with
  | obj members ending =>
    obtain ⟨out, hout, h⟩ := exists_of_bind_eq_ok h
    obtain ⟨_, -, h⟩ := exists_of_bind_eq_ok h
    obtain ⟨_, -, h⟩ := exists_of_bind_eq_ok h
    cases h
    exact hkeeps.readMembers hstart hout
  | arr items ending => exact hkeeps.readItems (List.Subset.refl _) hstart h
  | _ => cases h

end RecordShape

/-! ### Maps of declarations -/

/-- No name is repeated in the assignments of a declaration. -/
def MethodDecl.SetDistinct (decl : MethodDecl) : Prop := ∀ set ∈ decl.set, (Fields.names set).Nodup

/-- No name is repeated in a map of a declaration. -/
structure MethodDecl.MapsDistinct (decl : MethodDecl) : Prop where
  /-- The assignments. -/
  set : decl.SetDistinct
  /-- The extensions. -/
  ext : ∀ ext ∈ decl.ext, (Fields.names ext).Nodup
  /-- The delegations. -/
  pass : ∀ pass ∈ decl.pass, (Fields.names pass).Nodup
  /-- The invocations. -/
  call : ∀ call ∈ decl.call, (Fields.names call).Nodup

theorem Declaration.mapsDistinct_of_read {origin : Origin} {document : Document} {decl : MethodDecl}
    (h : (method origin).read origin document = .ok decl) : decl.MapsDistinct := by
  have hkeeps : (method origin).Keeps MethodDecl.MapsDistinct := by
    intro field hfield document record record' hread hrecord
    simp only [method, List.mem_cons, List.not_mem_nil, or_false] at hfield
    -- a field that reads a map replaces the map; the others leave all four alone
    rcases hfield
      with rfl | rfl | rfl | rfl | hset | rfl | hext | hpass | hcall | rfl | rfl | rfl | rfl | rfl
    case inr.inr.inr.inr.inl =>
      subst hset
      obtain ⟨set?, hset?, h⟩ := exists_of_bind_eq_ok hread
      cases h
      exact { hrecord with set := Document.nodup_names_optional_mapOf hset? }
    case inr.inr.inr.inr.inr.inr.inl =>
      subst hext
      obtain ⟨ext?, hext?, h⟩ := exists_of_bind_eq_ok hread
      cases h
      exact { hrecord with ext := Document.nodup_names_optional_mapOf hext? }
    case inr.inr.inr.inr.inr.inr.inr.inl =>
      subst hpass
      obtain ⟨pass?, hpass?, h⟩ := exists_of_bind_eq_ok hread
      cases h
      exact { hrecord with pass := Document.nodup_names_optional_mapOf hpass? }
    case inr.inr.inr.inr.inr.inr.inr.inr.inl =>
      subst hcall
      obtain ⟨call?, hcall?, h⟩ := exists_of_bind_eq_ok hread
      cases h
      exact { hrecord with call := Document.nodup_names_optional_mapOf hcall? }
    all_goals
      obtain ⟨value, -, h⟩ := exists_of_bind_eq_ok hread
      cases h
      exact ⟨hrecord.set, hrecord.ext, hrecord.pass, hrecord.call⟩
  exact hkeeps.read ⟨nofun, nofun, nofun, nofun⟩ h

end BuilderApi
