import BuilderApi.Output.Artifact
import BuilderApi.Proofs.Reference.Outline
import BuilderApi.Proofs.Script.Exports

/-!
# Modules, pages and indexes

The modules, the pages, the index module and the category index of a table come from four walks over
its entries, and each of them decides in its own way which entries it takes: by what the entry is,
by its name, or by both. For an accepted table the four agree (`BuilderApi.artifacts_correspond`),
since its re-exports are the entries whose names have the external marker. So no entry is lost or
listed twice, and nothing is linked that is not there.
-/

namespace BuilderApi

open Reference.Written

/-- The names of the builders of a table, private ones among them. -/
def Table.builderNames (table : Table) : List String :=
  Fields.names (table.filter fun field => field.2.method?.isSome)

/-- The names under which the entries of a table are documented. -/
def Table.publicNames (table : Table) : List String :=
  table.exposed.map fun field => publicName field.1

/-- The modules, the pages and the indexes of a table have the same entries. -/
structure Corresponds (table : Table) (shapes : Shapes) (title lead : String) : Prop where
  /-- There is one module for each builder, in table order, and the index module behind them. -/
  modules : (moduleArtifacts table shapes).map Artifact.path =
    table.builderNames.map (· ++ ".js") ++ ["index.js"]
  /-- The builders are the entries without the external marker. -/
  builders : table.builderNames = (Fields.names table).filter fun name =>
    Visibility.of name ≠ .isExternal
  /-- There is one page for each entry that is not private, in table order, and the category index
  behind them. -/
  pages : (pageArtifacts table shapes title lead).map Artifact.path =
    table.publicNames.map (· ++ ".md") ++ ["index.md"]
  /-- The index module is the text that the exports are read off. -/
  indexModule :
    (moduleArtifacts table shapes).getLast? = some ⟨"index.js", text (Script.writtenIndex table)⟩
  /-- The index module has one export for each entry that is not private, in table order. -/
  exports : Script.exports (Script.writtenIndex table) = table.exposed.map fun field =>
    field.2.exported field.1
  /-- A builder is exported from a module that is there. -/
  builderExports : ∀ name spec, (name, .method spec) ∈ table.exposed →
    (⟨((Entry.method spec).exported name).source ++ ".js",
      Script.methodModule (shapes.shape name) name spec⟩ : Artifact) ∈ moduleArtifacts table shapes
  /-- A re-export comes from the module that it declares. -/
  reexports : ∀ name spec, (name, .external spec) ∈ table.exposed →
    ((Entry.external spec).exported name).source = spec.src
  /-- The category index is the text that the sections and bullets are read off. -/
  indexPage : (pageArtifacts table shapes title lead).getLast? =
    some ⟨"index.md", text (index table title lead)⟩
  /-- There is one section for each category, in the order in which the categories first occur, and
  in it the entries of the category in table order. -/
  outline : outline (index table title lead) = (Reference.categories table).map fun category =>
    (category, (table.exposed.filter fun field => Reference.sectionOf field.2 = category).map
      fun field => publicName field.1)
  /-- No category has two sections. -/
  categories : (Reference.categories table).Nodup
  /-- All bullets stand in sections. -/
  bullets : entryNames (index table title lead) =
    (Reference.Written.outline (index table title lead)).flatMap Prod.snd
  /-- There is one bullet for each page but the index. -/
  bulletPages : ((entryNames (index table title lead)).map (· ++ ".md") ++ ["index.md"]).Perm
    ((pageArtifacts table shapes title lead).map Artifact.path)

theorem paths_moduleArtifacts (table : Table) (shapes : Shapes) :
    (moduleArtifacts table shapes).map Artifact.path =
    table.builderNames.map (· ++ ".js") ++ ["index.js"] := by
  rw [moduleArtifacts, List.map_append]
  refine congrArg (· ++ ["index.js"]) ?_
  unfold Table.builderNames Fields.names
  induction table with
  | nil => rfl
  | cons field rest ih =>
    obtain ⟨name, entry⟩ := field
    cases entry <;> simpa [Entry.method?] using ih

theorem paths_pageArtifacts (table : Table) (shapes : Shapes) (title lead : String) :
    (pageArtifacts table shapes title lead).map Artifact.path =
    table.publicNames.map (· ++ ".md") ++ ["index.md"] := by
  rw [pageArtifacts, List.map_append]
  refine congrArg (· ++ ["index.md"]) ?_
  unfold Table.publicNames Table.exposed
  induction table with
  | nil => rfl
  | cons field rest ih =>
    obtain ⟨name, entry⟩ := field
    by_cases hname : Visibility.of name = .isPrivate <;> simpa [pageArtifact, hname] using ih

theorem mem_moduleArtifacts {table : Table} {shapes : Shapes} {name : String} {spec : MethodSpec}
    (h : (name, .method spec) ∈ table) :
    ⟨name ++ ".js", Script.methodModule (shapes.shape name) name spec⟩ ∈
    moduleArtifacts table shapes :=
  List.mem_append_left _ (List.mem_filterMap.2 ⟨_, h, rfl⟩)

/-- The builders of an accepted table are the entries without the external marker. -/
theorem Table.Accepted.builderNames_eq {table : Table} (h : table.Accepted) :
    table.builderNames = (Fields.names table).filter fun name =>
    Visibility.of name ≠ .isExternal := by
  rw [Table.builderNames, Fields.names, Fields.names, List.filter_map]
  refine congrArg _ (List.filter_congr fun field hfield => ?_)
  rw [Function.comp_apply, Bool.eq_iff_iff, Option.isSome_iff_ne_none, decide_eq_true_iff]
  exact not_congr (h.isExternal_iff hfield).symm

/-- The documented names of a section. -/
theorem map_filter_documented (table : Table) (category : String) :
    ((Reference.documented table).filter
        fun item => Reference.sectionOf item.2 = category).map Prod.fst =
      (table.exposed.filter fun field => Reference.sectionOf field.2 = category).map
        fun field => publicName field.1 := by
  rw [Reference.documented, List.filter_map, List.map_map]
  rfl

/-- **Modules, pages and indexes correspond.** -/
theorem artifacts_correspond {table : Table} (h : table.Accepted) (shapes : Shapes)
    (title lead : String) :
    Corresponds table shapes title lead where
  modules := paths_moduleArtifacts table shapes
  builders := h.builderNames_eq
  pages := paths_pageArtifacts table shapes title lead
  indexModule := by
    rw [Script.text_writtenIndex h]
    exact List.getLast?_concat
  exports := Script.exports_writtenIndex table
  builderExports name spec hfield := mem_moduleArtifacts (List.mem_filter.1 hfield).1
  reexports name spec hfield := rfl
  indexPage := by
    rw [text_index]
    exact List.getLast?_concat
  outline := by
    rw [outline_index, Reference.sections_eq, List.map_map]
    exact List.map_congr_left fun category _ => Prod.ext rfl (map_filter_documented table category)
  categories := nodup_eraseDups _
  bullets := by
    rw [entryNames_index, outline_index, List.flatMap_map]
  bulletPages := by
    rw [entryNames_index, paths_pageArtifacts]
    refine List.Perm.append_right _ (List.Perm.map _ ?_)
    have hperm := (Reference.sections_perm table).map Prod.fst
    rw [List.map_flatMap, Reference.documented, List.map_map] at hperm
    exact hperm

/-- A private entry, a re-export under another name, and two entries of which one names its
category. -/
def smallTable : Table :=
  [("_hidden", .method default),
    ("$vega", .external ⟨none, some "Utilities", "view", some "_vega", none⟩),
    ("mark", .method default),
      ("register", .method { (default : MethodSpec) with doc := some "Utilities" })]

theorem accepted_smallTable : smallTable.Accepted :=
  .inr ⟨.obj [("_hidden", .obj []), ("$vega", .obj [("doc", .str "Utilities"), ("src", .str "view"),
    ("name", .str "_vega")]), ("mark", .obj []), ("register",
    .obj [("doc", .str "Utilities")])], rfl⟩

theorem artifacts_correspond_smallTable :
    smallTable.Accepted ∧ Corresponds smallTable [] "Reference" "vl." :=
  ⟨accepted_smallTable, artifacts_correspond accepted_smallTable [] "Reference" "vl."⟩

end BuilderApi
