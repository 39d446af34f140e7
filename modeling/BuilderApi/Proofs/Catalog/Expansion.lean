import BuilderApi.Catalog.Table
import BuilderApi.Proofs.Catalog.Entries

/-!
# The catalog of a schema

A schema chooses names and texts of the catalog, but not its declarations: each of them declares a
sound entry (`BuilderApi.Catalog.isEntry_of_mem_insertions`), whatever it is called. So the catalog
is never refused, and the only thing that can go wrong is one of the queries to the schema
(`BuilderApi.Catalog.table_total`).

The names share one table, which is filled by insertions, and an insertion overwrites what stands
under its name. So an entry is what the **last** insertion of its name declares, and the catalog has
all that is inserted exactly if insertions of one name declare the same
(`BuilderApi.Catalog.expands`). A schema can make two of them differ: a data generator of the name
`url` replaces the data source `url` (`BuilderApi.Catalog.generator_replaces_source`). Where no
schema can do this is behind the channels: only selections are inserted there for the schema, with
names that no other entry has.
-/

namespace BuilderApi

namespace Catalog

/-! ### Insertions -/

/-- What is inserted into the catalog, in order. -/
def insertions (f : Families) : List (String × Json) :=
  charts f ++ externals ++ dataEntries f ++ encodings f ++ interactions f ++
    transforms ++ operations

/-- All charts are read. -/
theorem isEntry_of_mem_charts (f : Families) : ∀ entry ∈ charts f, IsEntry entry.2 := by
  simp only [charts, List.forall_mem_append, List.forall_mem_cons, List.forall_mem_map]
  exact ⟨⟨isEntry_unit _, fun type _ => isEntry_mark type⟩, isEntry_layer (binds_of_parse rfl rfl),
    isEntry_composite _ _ (binds_of_parse rfl rfl), isEntry_composite _ _ (binds_of_parse rfl rfl),
    isEntry_composite _ _ (binds_of_parse rfl rfl), isEntry_composite _ _ (binds_of_parse rfl rfl),
    List.forall_mem_nil _⟩

theorem isEntry_of_mem_externals : ∀ entry ∈ externals, IsEntry entry.2 := by
  have hname (name : String) : IsMember ("name", .str name) :=
    Declaration.takes_text (by decide) (some name)
  have harg : IsMember ("arg", .strs ["vega", "vegalite", "options"]) :=
    Declaration.takes_arg (binds_of_parse rfl rfl)
  have hsrc : IsMember ("src", .str viewModule) := isMember_src _
  simp only [externals, List.forall_mem_cons]
  refine ⟨isEntry_described (by simp [Fields.names]) ?_,
    isEntry_described (by simp [Fields.names]) ?_,
    isEntry_described (by simp [Fields.names]) ?_, List.forall_mem_nil _⟩ <;>
    simp only [List.forall_mem_cons]
  · exact ⟨harg, hsrc, List.forall_mem_nil _⟩
  · exact ⟨hsrc, hname _, List.forall_mem_nil _⟩
  · exact ⟨hsrc, hname _, List.forall_mem_nil _⟩

theorem isEntry_of_mem_dataEntries (f : Families) : ∀ entry ∈ dataEntries f, IsEntry entry.2 := by
  simp only [dataEntries, List.forall_mem_append, List.forall_mem_cons, List.forall_mem_map]
  exact ⟨⟨⟨⟨⟨isEntry_data, isEntry_source _ (binds_of_parse rfl rfl),
    isEntry_source _ (binds_of_parse rfl rfl),
    List.forall_mem_nil _⟩, fun name _ => isEntry_generator name⟩, fun format _ =>
      isEntry_formatSource format⟩,
    fun format _ => isEntry_formatSpec format⟩, isEntry_lookupData, List.forall_mem_nil _⟩

/-- All encodings are read. -/
theorem isEntry_of_mem_encodings (f : Families) : ∀ entry ∈ encodings f, IsEntry entry.2 := by
  have hprojection :
      IsEntry (described "Define a cartographic projection for longitude, latitude coordinates."
      "Projections" [("def", .str "Projection"), ("arg", .strs ["type"])]) := by
    refine isEntry_described (by simp [Fields.names]) ?_
    simp only [List.forall_mem_cons]
    exact ⟨isMember_def _, Declaration.takes_arg (binds_of_parse rfl rfl), List.forall_mem_nil _⟩
  simp only [encodings, List.forall_mem_append, List.forall_mem_cons, List.forall_mem_map]
  exact ⟨fun name _ => isEntry_channel name, isEntry_field, isEntry_fieldOfType _,
    isEntry_fieldOfType _,
    isEntry_fieldOfType _, isEntry_fieldOfType _, isEntry_encoding,
    isEntry_reference _ _ (binds_of_parse rfl rfl),
    isEntry_reference _ _ (binds_of_parse rfl rfl), hprojection, List.forall_mem_nil _⟩

theorem isEntry_of_mem_interactions (f : Families) : ∀ entry ∈ interactions f, IsEntry entry.2 := by
  simp only [interactions, List.forall_mem_append, List.forall_mem_cons, List.forall_mem_map]
  exact ⟨fun type _ => isEntry_selection type, isEntry_inputElement _ _ binds_null,
    isEntry_inputElement _ _ (binds_of_parse rfl rfl),
    isEntry_inputElement _ _ (binds_of_parse rfl rfl),
    isEntry_inputElement _ _ (binds_of_parse rfl rfl), isEntry_logicOp _ (binds_of_parse rfl rfl),
    isEntry_logicOp _ (binds_of_parse rfl rfl), isEntry_logicOp _ (binds_of_parse rfl rfl),
      List.forall_mem_nil _⟩

/-- **Whatever is inserted declares a sound entry.** -/
theorem isEntry_of_mem_insertions (f : Families) : ∀ entry ∈ insertions f, IsEntry entry.2 := by
  simp only [insertions, List.forall_mem_append]
  exact ⟨⟨⟨⟨⟨⟨isEntry_of_mem_charts f, isEntry_of_mem_externals⟩, isEntry_of_mem_dataEntries f⟩,
    isEntry_of_mem_encodings f⟩, isEntry_of_mem_interactions f⟩, isEntry_of_mem_transforms⟩,
      isEntry_of_mem_operations⟩

/-- What is inserted under one name twice is declared once, where it stands first. -/
theorem names_declared (f : Families) :
    Fields.names (declared f) = (Fields.names (insertions f)).eraseDups :=
  Fields.names_ofList _

theorem nodup_names_declared (f : Families) : (Fields.names (declared f)).Nodup :=
  Fields.nodup_names_ofList _

/-- All declarations are read, whatever the schema calls its families. -/
theorem isEntry_of_mem_declared (f : Families) : ∀ entry ∈ declared f, IsEntry entry.2 :=
  fun entry hentry =>
    (Fields.mem_putAll hentry).elim (absurd · List.not_mem_nil) (isEntry_of_mem_insertions f entry)

/-! ### What can go wrong -/

/-- A query of the catalog meets a cycle of the schema. -/
inductive QueryFails (schema : Schema) (cycle : Cycle) : Prop where
  /-- The query for mark types. -/
  | marks (h : schema.enums (Schema.definitionNode "AnyMark") = .error cycle)
  /-- The query for data formats. -/
  | formats (h : schema.discriminants (Schema.definitionNode "DataFormat") = .error cycle)
  /-- The query for data generators. -/
  | generators (h : schema.definitionProps (some "Generator") = .error cycle)
  /-- The query for encoding channels. -/
  | channels (h : schema.definitionProps (some "FacetedEncoding") = .error cycle)
  /-- The query for selection types. -/
  | selections (h : schema.discriminants (Schema.definitionNode "SelectionDef") = .error cycle)

variable {schema : Schema} {f : Families} {table : Table}

/-- If there are no families, one of the queries met a cycle. -/
theorem queryFails_of_families {cycle : Cycle} (h : families schema = .error cycle) :
    QueryFails schema cycle := by
  rcases error_or_of_bind_eq_error h with h | ⟨_, -, h⟩
  · exact .marks h
  rcases error_or_of_bind_eq_error h with h | ⟨_, -, h⟩
  · exact .formats h
  rcases error_or_of_bind_eq_error h with h | ⟨_, -, h⟩
  · exact .generators h
  rcases error_or_of_bind_eq_error h with h | ⟨_, -, h⟩
  · exact .channels h
  rcases error_or_of_bind_eq_error h with h | ⟨_, -, h⟩
  · exact .selections h
  · cases h

/-- The table exists as soon as the families do. -/
theorem exists_table (h : families schema = .ok f) : ∃ table, Catalog.table schema = .ok table := by
  obtain ⟨table, htable⟩ := Table.exists_ofJson (isEntry_of_mem_declared f)
  refine ⟨table, ?_⟩
  rw [Catalog.table, h]
  simp only [Except.mapError, bind, Except.bind, htable]

/-- **The catalog is never refused.** It is a table, or a query to the schema meets a cycle. -/
theorem table_total (schema : Schema) : (∃ table, Catalog.table schema = .ok table) ∨
    ∃ cycle, Catalog.table schema = .error (.cycle cycle) ∧ QueryFails schema cycle := by
  cases hfamilies : families schema with
  | ok f => exact .inl (exists_table hfamilies)
  | error cycle =>
    refine .inr ⟨cycle, ?_, queryFails_of_families hfamilies⟩
    rw [Catalog.table, hfamilies]
    rfl

/-- A catalog is the table of its declared form. -/
theorem exists_families (h : Catalog.table schema = .ok table) :
    ∃ f, families schema = .ok f ∧ Table.ofJson (.obj (declared f)) = .ok table := by
  obtain ⟨f, hf, h⟩ := exists_of_bind_eq_ok h
  exact ⟨f, eq_ok_of_mapError hf, eq_ok_of_mapError h⟩

/-! ### What is kept of the insertions -/

/-- The entry that is inserted is the one that the table has under its name. -/
def Kept (table : Table) (insertion : String × Json) : Prop :=
  ∃ entry, Table.ofJson (.obj [insertion]) = .ok [(insertion.1, entry)] ∧
    Fields.get? table insertion.1 = some entry

/-- Two insertions of one name are both kept only if they declare the same entry. -/
theorem Kept.ofJson_eq {first second : String × Json} (h : Kept table first)
    (h' : Kept table second) (hname : first.1 = second.1) :
    Table.ofJson (.obj [first]) = Table.ofJson (.obj [second]) := by
  obtain ⟨entry, hentry, hget⟩ := h
  obtain ⟨other, hother, hget'⟩ := h'
  rw [hname] at hentry hget
  obtain rfl := Option.some.inj (hget.symm.trans hget')
  rw [hentry, hother]

/-- A schema that enumerates nothing. -/
def noFamilies : Families := ⟨[], [], [], [], []⟩

/-- The insertions between channels and selections. -/
def references : List (String × Json) := encodings noFamilies

/-- The insertions behind the selections. -/
def closing : List (String × Json) := interactions noFamilies ++ transforms ++ operations

/-- The insertions behind the channels that do not depend on a schema. -/
def settled : List (String × Json) := references ++ closing

/-- No settled name is repeated. -/
theorem nodup_names_settled : (Fields.names settled).Nodup := by
  decide +kernel

/-- No settled name is that of a selection, whatever the selection is called. -/
theorem ne_select_of_mem_settled {insertion : String × Json} (h : insertion ∈ settled)
    (rest : String) :
    insertion.1 ≠ "select" ++ rest := by
  have hnone : ∀ name ∈ Fields.names settled, behind? "select" name = none := by
    decide +kernel
  exact behind?_eq_none_iff.1 (hnone _ (List.mem_map_of_mem h)) rest

/-- The last insertion of a name is kept. -/
theorem kept_of_last (h : Table.ofJson (.obj (declared f)) = .ok table) {name : String}
    {json : Json} (hlast : Fields.get? (insertions f).reverse name = some json) :
    Kept table (name, json) := by
  have hmem : (name, json) ∈ declared f :=
    Fields.mem_of_get? ((Fields.get?_ofList _ name).trans hlast)
  exact Table.exists_entry_of_mem (nodup_names_declared f) h hmem

theorem insertions_eq (f : Families) : insertions f =
    (charts f ++ externals ++ dataEntries f ++ f.channels.map fun c => (c, channel c)) ++
      references ++ (f.selections.map fun x => ("select" ++ capitalize x, selection x)) ++
        closing := by
  simp [insertions, encodings, interactions, references, closing, noFamilies]

theorem names_selections (f : Families) :
    Fields.names (f.selections.map fun x => ("select" ++ capitalize x, selection x)) =
      f.selections.map fun x => "select" ++ capitalize x := by
  simp [Fields.names]

/-- The settled insertions are the last ones of their names. -/
theorem last_of_mem_settled (f : Families) {insertion : String × Json} (h : insertion ∈ settled) :
    Fields.get? (insertions f).reverse insertion.1 = some insertion.2 := by
  have hselections : insertion.1 ∉ f.selections.map fun x => "select" ++ capitalize x := by
    intro hmem
    obtain ⟨x, -, heq⟩ := List.mem_map.1 hmem
    exact ne_select_of_mem_settled h (capitalize x) heq.symm
  rw [insertions_eq]
  exact Fields.get?_reverse_of_mem nodup_names_settled h (names_selections f ▸ hselections) _

/-- What the catalog is made of. -/
structure Expands (f : Families) (table : Table) : Prop where
  /-- The names are those of the insertions. -/
  names : ∀ name, name ∈ Fields.names table ↔ name ∈ Fields.names (insertions f)
  /-- The last insertion of a name is kept. -/
  last : ∀ name json, Fields.get? (insertions f).reverse name = some json → Kept table (name, json)
  /-- All insertions are kept exactly if those of one name declare the same entry. -/
  kept_iff : (∀ insertion ∈ insertions f, Kept table insertion) ↔
    ∀ first ∈ insertions f, ∀ second ∈ insertions f, first.1 = second.1 →
      Table.ofJson (.obj [first]) = Table.ofJson (.obj [second])
  /-- Behind the channels, what does not depend on a schema is always kept. -/
  settled : ∀ insertion ∈ settled, insertion ∈ insertions f ∧ Kept table insertion

/-- **The catalog of a schema is what its insertions leave.** -/
theorem expands (h : Catalog.table schema = .ok table) :
    ∃ f, families schema = .ok f ∧ Expands f table := by
  obtain ⟨f, hf, htable⟩ := exists_families h
  have hlast : ∀ name json, Fields.get? (insertions f).reverse name = some json →
      Kept table (name, json) :=
    fun _ _ => kept_of_last htable
  refine ⟨f, hf, ?_, hlast,
    ⟨fun hkept first hfirst second hsecond => ?_, fun hsame insertion hmem => ?_⟩,
    fun insertion hmem => ?_⟩
  · intro name
    rw [Table.mem_names_ofJson (nodup_names_declared f) htable, names_declared, List.mem_eraseDups]
  · exact (hkept first hfirst).ofJson_eq (hkept second hsecond)
  · obtain ⟨json, hjson⟩ := Fields.exists_get?_reverse (List.mem_map_of_mem hmem)
    obtain ⟨entry, hentry, hget⟩ := hlast _ _ hjson
    have hmem' : (insertion.1, json) ∈ insertions f := List.mem_reverse.1 (Fields.mem_of_get? hjson)
    exact ⟨entry, (hsame insertion hmem _ hmem' rfl).trans hentry, hget⟩
  · have hsettled := last_of_mem_settled f hmem
    exact ⟨List.mem_reverse.1 (Fields.mem_of_get? hsettled), hlast _ _ hsettled⟩

/-- A schema with one mark type. -/
def barSchema : Schema :=
  .ofJson (.obj [("definitions", .obj [("AnyMark", .obj [("enum", .arr [.str "bar"])])])])

theorem families_barSchema : families barSchema = .ok ⟨["bar"], [], [], [], []⟩ := by cbv

theorem expands_barSchema : ∃ table, Catalog.table barSchema = .ok table ∧
    ∃ f, families barSchema = .ok f ∧ f.marks = ["bar"] ∧ Expands f table := by
  obtain ⟨table, htable⟩ := exists_table families_barSchema
  obtain ⟨f, hf, hexpands⟩ := expands htable
  obtain rfl := Except.ok.inj (families_barSchema.symm.trans hf)
  exact ⟨table, htable, _, hf, rfl, hexpands⟩

/-- A schema with a data generator that is called like a data source. -/
def urlSchema : Schema :=
  .ofJson (.obj [("definitions", .obj [("Generator",
    .obj [("type", .str "object"), ("properties", .obj [("url", .obj [])])])])])

theorem last_url :
    Fields.get? (insertions ⟨[], [], ["url"], [], []⟩).reverse "url" = some (generator "url") := by
  have hdata : Fields.get? (dataEntries ⟨[], [], ["url"], [], []⟩).reverse "url" =
    some (generator "url") := rfl
  have hsettled : Fields.get? (references ++ closing).reverse "url" = none :=
    Fields.get?_reverse_eq_none_iff.2 (by decide +kernel)
  rw [Fields.get?_reverse_append, Option.or_eq_none_iff] at hsettled
  simp only [insertions_eq, Fields.get?_reverse_append, hsettled, hdata, List.map_nil,
    List.reverse_nil, Fields.get?_nil, Option.none_or, Option.some_or]

/-- The generator is inserted behind the data source, and takes its place. -/
theorem generator_replaces_source :
    ∃ f table, families urlSchema = .ok f ∧ Catalog.table urlSchema = .ok table ∧
    ("url", source "url" ["url"]) ∈ insertions f ∧ ¬Kept table ("url", source "url" ["url"]) := by
  have hfamilies : families urlSchema = .ok ⟨[], [], ["url"], [], []⟩ := by cbv
  obtain ⟨table, htable⟩ := exists_table hfamilies
  obtain ⟨f, hf, hread⟩ := exists_families htable
  obtain rfl := Except.ok.inj (hfamilies.symm.trans hf)
  have hmem : ∀ f, ("url", source "url" ["url"]) ∈ insertions f :=
    fun f => by simp [insertions, dataEntries]
  refine ⟨_, table, hfamilies, htable, hmem _, fun hsource => ?_⟩
  have hsame := hsource.ofJson_eq (kept_of_last hread last_url) rfl
  -- the two declare instances of different definitions
  obtain ⟨entry, hentry, hdef⟩ :
      ∃ e, Table.ofJson (.obj [("url", source "url" ["url"])]) = .ok [("url", e)] ∧
      e.def? = some "UrlData" := ⟨_, rfl, rfl⟩
  obtain ⟨other, hother, hdef'⟩ :
      ∃ e, Table.ofJson (.obj [("url", generator "url")]) = .ok [("url", e)] ∧
      e.def? = some "UrlParams" := ⟨_, rfl, rfl⟩
  rw [hentry, hother] at hsame
  cases hsame
  rw [hdef] at hdef'
  simp at hdef'

end Catalog

end BuilderApi
