import BuilderApi.Proofs.Files.Parents
import BuilderApi.Proofs.Output.Correspondence

/-!
# The paths of artifacts

The path of an artifact is made from the name of an entry, and the two indexes have fixed paths.
Nothing keeps a table from having an entry whose name is that of an index, or a builder and a
re-export of one public name; such entries share a path, and the last one written is what stays.
These are the only collisions (`BuilderApi.paths_distinct_iff`): without them the paths of a batch
are distinct, and as long as no name has a slash, so are the files that a build writes.
-/

namespace BuilderApi

open Reference.Written

/-! ### Files of a batch -/

namespace Path

/-- The name of the file that a path leads to. -/
def fileName? (path : String) : Option String := (steps path).getLast?

theorem fileName?_eq_self {path : String} (hpath : '/' ∉ path.toList) (hne : path ≠ "") :
    fileName? path = some path := by
  simp [fileName?, steps, slashParts, splitSlashes_eq_singleton hpath, hne]

/-- A file has the name with which its path ends, whatever the root. -/
theorem fileName?_join (root : String) {path : String} (hpath : '/' ∉ path.toList)
    (hne : path ≠ "") :
    fileName? (join root path) = some path := by
  have hrelative : isAbsolute path = false := by
    unfold isAbsolute
    cases hchars : path.toList with
    | nil => rfl
    | cons c rest =>
      rw [hchars, List.mem_cons, not_or] at hpath
      simpa using Ne.symm hpath.1
  have hslash : ∀ before : List Char, fileName? (String.ofList (before ++ '/' :: path.toList)) =
      some path := by
    intro before
    simp [fileName?, steps, slashParts, splitSlashes_append, splitSlashes_eq_singleton hpath, hne]
  unfold join
  split
  · exact fileName?_eq_self hpath hne
  · split
    · next hroot =>
      obtain ⟨before, hbefore⟩ := List.getLast?_eq_some_iff.1 hroot
      have hpaths : root ++ path = String.ofList (before ++ '/' :: path.toList) :=
        String.toList_inj.1 (by simp [hbefore])
      rw [hpaths, hslash]
    · have hpaths : root ++ "/" ++ path = String.ofList (root.toList ++ '/' :: path.toList) :=
        String.toList_inj.1 (by simp)
      rw [hpaths, hslash]

end Path

/-! ### Paths of one set -/

theorem nodup_concat_map_iff (names : List String) (ending index : String) :
    (names.map (· ++ ending) ++ [index ++ ending]).Nodup ↔ names.Nodup ∧ index ∉ names := by
  have hinjective : Function.Injective fun name : String => name ++ ending :=
    fun _ _ h => (String.append_left_inj ending).1 h
  have hmap : names.map (· ++ ending) ++ [index ++ ending] =
    (names ++ [index]).map (· ++ ending) := by simp
  rw [hmap, List.nodup_map_iff hinjective, List.nodup_append_comm, List.singleton_append,
    List.nodup_cons, and_comm]

namespace Table

/-- Two entries of the table, one of them a re-export, have one public name. -/
def Doubles (table : Table) : Prop :=
  ∃ name, Visibility.of name = .isPublic ∧ name ∈ Fields.names table ∧
    "$" ++ name ∈ Fields.names table

variable {table : Table} {name : String}

/-- The names of the exposed entries. -/
theorem names_exposed (table : Table) :
    Fields.names table.exposed = (Fields.names table).filter fun name =>
    Visibility.of name ≠ .isPrivate := by
  rw [Fields.names, Fields.names, List.filter_map]
  rfl

theorem publicNames_eq (table : Table) :
    table.publicNames = (Fields.names table.exposed).map publicName := by
  rw [publicNames, Fields.names, List.map_map]
  rfl

theorem mem_names_exposed : name ∈ Fields.names table.exposed ↔
    name ∈ Fields.names table ∧ Visibility.of name ≠ .isPrivate := by
  simp [names_exposed]

theorem isPublic_of_exposed (h : name ∈ Fields.names table.exposed)
    (hexternal : Visibility.of name ≠ .isExternal) :
    Visibility.of name = .isPublic := by
  have hprivate := (mem_names_exposed.1 h).2
  cases hvisibility : Visibility.of name
  · rfl
  · exact absurd hvisibility hprivate
  · exact absurd hvisibility hexternal

theorem mem_publicNames_iff : name ∈ table.publicNames ↔
    Visibility.of name = .isPublic ∧ name ∈ Fields.names table ∨
    "$" ++ name ∈ Fields.names table := by
  rw [publicNames_eq, List.mem_map]
  constructor
  · rintro ⟨other, hother, hname⟩
    obtain ⟨hmem, hprivate⟩ := mem_names_exposed.1 hother
    by_cases hexternal : Visibility.of other = .isExternal
    · obtain ⟨rest, rfl⟩ := visibility_eq_isExternal_iff.1 hexternal
      rw [publicName_external] at hname
      exact .inr (hname ▸ hmem)
    · rw [publicName_eq_self hexternal] at hname
      exact .inl ⟨hname ▸ isPublic_of_exposed hother hexternal, hname ▸ hmem⟩
  · rintro (⟨hpublic, hmem⟩ | hmem)
    · exact ⟨name, mem_names_exposed.2 ⟨hmem, by simp [hpublic]⟩,
        publicName_eq_self (by simp [hpublic])⟩
    · exact ⟨"$" ++ name, mem_names_exposed.2 ⟨hmem, by simp [visibility_external]⟩,
        publicName_external name⟩

/-- A re-export and a builder that are exposed under one name are a double. -/
theorem doubles_of_publicName_eq {other : String} (hname : name ∈ Fields.names table.exposed)
    (hother : other ∈ Fields.names table.exposed) (hexternal : Visibility.of name = .isExternal)
    (hbuilder : Visibility.of other ≠ .isExternal) (h : publicName name = publicName other) :
    table.Doubles := by
  obtain ⟨rest, rfl⟩ := visibility_eq_isExternal_iff.1 hexternal
  rw [publicName_external, publicName_eq_self hbuilder] at h
  subst h
  exact ⟨rest, isPublic_of_exposed hother hbuilder, (mem_names_exposed.1 hother).1,
    (mem_names_exposed.1 hname).1⟩

/-- The public names are distinct unless a builder and a re-export share one. -/
theorem nodup_publicNames_iff (h : (Fields.names table).Nodup) :
    table.publicNames.Nodup ↔ ¬table.Doubles := by
  have hexposed : (Fields.names table.exposed).Nodup := names_exposed table ▸ h.filter _
  rw [publicNames_eq, List.nodup_map_iff_inj_on hexposed]
  constructor
  · rintro hinj ⟨name, hpublic, hmem, hexternal⟩
    have hname := mem_names_exposed.2 ⟨hmem, by simp [hpublic]⟩
    have hother := mem_names_exposed.2 ⟨hexternal, by simp [visibility_external]⟩
    have heq := hinj _ hname _ hother
      ((publicName_eq_self (by simp [hpublic])).trans (publicName_external name).symm)
    rw [heq, visibility_external] at hpublic
    cases hpublic
  · intro hdoubles name hname other hother heq
    by_cases hleft : Visibility.of name = .isExternal
    · by_cases hright : Visibility.of other = .isExternal
      · exact eq_of_publicName_eq (iff_of_true hleft hright) heq
      · exact (hdoubles (doubles_of_publicName_eq hname hother hleft hright heq)).elim
    · by_cases hright : Visibility.of other = .isExternal
      · exact (hdoubles (doubles_of_publicName_eq hother hname hright hleft heq.symm)).elim
      · exact eq_of_publicName_eq (iff_of_false hleft hright) heq

end Table

/-! ### Distinct paths -/

section Batch

variable {table : Table} (shapes : Shapes) (title lead : String)

/-- Two modules share a path only if a builder is called like the index module. -/
theorem nodup_modulePaths_iff (h : table.Accepted) :
    ((moduleArtifacts table shapes).map Artifact.path).Nodup ↔ "index" ∉ Fields.names table := by
  have hindex : Visibility.of "index" ≠ .isExternal := by decide
  rw [paths_moduleArtifacts, show "index.js" = "index" ++ ".js" from rfl, nodup_concat_map_iff,
    h.builderNames_eq, List.mem_filter]
  simp [h.nodup_names.filter _, hindex]

/-- Two pages share a path only if they share their public name, or if one is called like the
category index. -/
theorem nodup_pagePaths_iff (h : table.Accepted) :
    ((pageArtifacts table shapes title lead).map Artifact.path).Nodup ↔
      ¬table.Doubles ∧ "index" ∉ Fields.names table ∧ "$index" ∉ Fields.names table := by
  have hindex : Visibility.of "index" = .isPublic := by decide
  have hmem := @Table.mem_publicNames_iff table "index"
  rw [paths_pageArtifacts, show "index.md" = "index" ++ ".md" from rfl, nodup_concat_map_iff,
    Table.nodup_publicNames_iff h.nodup_names, hmem, not_or]
  simp [hindex]

/-- The names of the exports are the public names. -/
theorem map_name_exports (h : table.Accepted) :
    (Script.exports (Script.writtenIndex table)).map Export.name = table.publicNames := by
  rw [Script.exports_writtenIndex, List.map_map, Table.publicNames]
  refine List.map_congr_left fun field hfield => ?_
  obtain ⟨name, entry⟩ := field
  cases entry with
  | external spec => rfl
  | method spec =>
    have hname := h.isExternal_iff (List.mem_filter.1 hfield).1
    exact (publicName_eq_self fun hexternal => by cases hname.1 hexternal).symm

theorem mem_modulePaths {path : String} (h : table.Accepted)
    (hpath : path ∈ (moduleArtifacts table shapes).map Artifact.path) :
    ∃ name, (name ∈ Fields.names table ∨ name = "index") ∧ path = name ++ ".js" := by
  rw [paths_moduleArtifacts, List.mem_append, List.mem_map, h.builderNames_eq] at hpath
  rcases hpath with ⟨name, hname, rfl⟩ | hindex
  · exact ⟨name, .inl (List.mem_filter.1 hname).1, rfl⟩
  · exact ⟨"index", .inr rfl, List.mem_singleton.1 hindex⟩

theorem mem_pagePaths {path : String}
    (hpath : path ∈ (pageArtifacts table shapes title lead).map Artifact.path) :
    ∃ name, (name ∈ Fields.names table ∨ "$" ++ name ∈ Fields.names table ∨ name = "index") ∧
      path = name ++ ".md" := by
  rw [paths_pageArtifacts, List.mem_append, List.mem_map] at hpath
  rcases hpath with ⟨name, hname, rfl⟩ | hindex
  · refine ⟨name, ?_, rfl⟩
    rcases Table.mem_publicNames_iff.1 hname with ⟨-, hmem⟩ | hmem
    · exact .inl hmem
    · exact .inr (.inl hmem)
  · exact ⟨"index", .inr (.inr rfl), List.mem_singleton.1 hindex⟩

/-- The names of the files that a build writes below its two directories. -/
def fileNames (src docs : String) (modules pages : List Artifact) : List (Option String) :=
  (modules.map fun artifact => Path.fileName? (Path.join src artifact.path)) ++
    pages.map fun artifact => Path.fileName? (Path.join docs artifact.path)

/-- Artifacts whose paths have no slash go to files of these names. -/
theorem map_fileName? (root : String) {artifacts : List Artifact}
    (h : ∀ path ∈ artifacts.map Artifact.path, '/' ∉ path.toList ∧ path ≠ "") :
    (artifacts.map fun artifact => Path.fileName? (Path.join root artifact.path)) =
      (artifacts.map Artifact.path).map some := by
  rw [List.map_map]
  refine List.map_congr_left fun artifact hartifact => ?_
  obtain ⟨hslash, hne⟩ := h _ (List.mem_map_of_mem hartifact)
  exact Path.fileName?_join root hslash hne

/-- **Distinct paths are distinct files** as long as no name has a slash, also if modules and pages
go to the same directory. -/
theorem nodup_fileNames (h : table.Accepted)
    (hnames : ∀ name ∈ Fields.names table, '/' ∉ name.toList)
    (hmodules : ((moduleArtifacts table shapes).map Artifact.path).Nodup)
    (hpages : ((pageArtifacts table shapes title lead).map Artifact.path).Nodup)
    (src docs : String) :
    (fileNames src docs (moduleArtifacts table shapes)
      (pageArtifacts table shapes title lead)).Nodup := by
  have hmodule : ∀ path ∈ (moduleArtifacts table shapes).map Artifact.path, '/' ∉ path.toList ∧
      path ≠ "" := by
    intro path hpath
    obtain ⟨name, hname, rfl⟩ := mem_modulePaths shapes h hpath
    have hslash : '/' ∉ name.toList := hname.elim (hnames name) fun hindex => hindex ▸ by decide
    exact ⟨by simpa using hslash, by simp⟩
  have hpage : ∀ path ∈ (pageArtifacts table shapes title lead).map Artifact.path,
      '/' ∉ path.toList ∧ path ≠ "" := by
    intro path hpath
    obtain ⟨name, hname, rfl⟩ := mem_pagePaths shapes title lead hpath
    have hslash : '/' ∉ name.toList := by
      rcases hname with hname | hname | rfl
      · exact hnames name hname
      · have := hnames _ hname
        simp_all
      · decide
    exact ⟨by simpa using hslash, by simp⟩
  rw [fileNames, map_fileName? src hmodule, map_fileName? docs hpage, ← List.map_append,
    List.nodup_map_iff fun _ _ => Option.some.inj, List.nodup_append]
  refine ⟨hmodules, hpages, fun path hpath other hother heq => ?_⟩
  -- the endings tell modules from pages
  obtain ⟨name, -, rfl⟩ := mem_modulePaths shapes h hpath
  obtain ⟨name', -, rfl⟩ := mem_pagePaths shapes title lead hother
  have hlast := congrArg (fun text => text.toList.getLast?) heq
  simp at hlast

/-- **Which artifacts share a path.** Two modules do exactly if an entry is called like the index
module; two exports have one name exactly if a builder and a re-export share a public name; and two
pages share a path exactly if one of these is so or if a re-export is documented under the name of
the index. If nothing of this is so and no name has a slash, then a build writes no file twice. -/
theorem paths_distinct_iff (h : table.Accepted) :
    (((moduleArtifacts table shapes).map Artifact.path).Nodup ↔ "index" ∉ Fields.names table) ∧
    (((Script.exports (Script.writtenIndex table)).map Export.name).Nodup ↔ ¬table.Doubles) ∧
    (((pageArtifacts table shapes title lead).map Artifact.path).Nodup ↔
      ¬table.Doubles ∧ "index" ∉ Fields.names table ∧ "$index" ∉ Fields.names table) ∧
    (¬table.Doubles ∧ "index" ∉ Fields.names table ∧ "$index" ∉ Fields.names table →
      (∀ name ∈ Fields.names table, '/' ∉ name.toList) → ∀ src docs,
        (fileNames src docs (moduleArtifacts table shapes)
          (pageArtifacts table shapes title lead)).Nodup) := by
  have hmodules := nodup_modulePaths_iff shapes h
  have hpages := nodup_pagePaths_iff shapes title lead h
  refine ⟨hmodules, ?_, hpages, fun hdistinct hnames src docs => ?_⟩
  · rw [map_name_exports h, Table.nodup_publicNames_iff h.nodup_names]
  · exact nodup_fileNames shapes title lead h hnames (hmodules.2 hdistinct.2.1)
      (hpages.2 hdistinct) src docs

end Batch

/-- Nothing is wrong with the names of this table. -/
theorem paths_distinct_smallTable :
    ((moduleArtifacts smallTable []).map Artifact.path).Nodup ∧
    ((Script.exports (Script.writtenIndex smallTable)).map Export.name).Nodup ∧
    ((pageArtifacts smallTable [] "Reference" "vl.").map Artifact.path).Nodup ∧
    (fileNames "out" "out" (moduleArtifacts smallTable [])
      (pageArtifacts smallTable [] "Reference" "vl.")).Nodup := by
  have hdoubles : ¬smallTable.Doubles :=
    (Table.nodup_publicNames_iff accepted_smallTable.nodup_names).1 (by decide)
  have hdistinct : ¬smallTable.Doubles ∧ "index" ∉ Fields.names smallTable ∧
      "$index" ∉ Fields.names smallTable :=
    ⟨hdoubles, by decide, by decide⟩
  obtain ⟨hmodules, hexports, hpages, hfiles⟩ :=
    paths_distinct_iff [] "Reference" "vl." accepted_smallTable
  exact ⟨hmodules.2 hdistinct.2.1, hexports.2 hdoubles, hpages.2 hdistinct,
    hfiles hdistinct (by decide) "out" "out"⟩

/-- An entry with the name of the indexes, and a builder and a re-export with one public name. -/
def collidingTable : Table :=
  [("index", .method default), ("vega", .method default),
    ("$vega", .external ⟨none, none, "vega", none, none⟩)]

/-- Modules, exports and pages collide. -/
theorem paths_collide : collidingTable.Accepted ∧
    ¬((moduleArtifacts collidingTable []).map Artifact.path).Nodup ∧
    ¬((Script.exports (Script.writtenIndex collidingTable)).map Export.name).Nodup ∧
    ¬((pageArtifacts collidingTable [] Catalog.title Catalog.lead).map Artifact.path).Nodup := by
  have haccepted : collidingTable.Accepted :=
    .inr ⟨.obj [("index", .obj []), ("vega", .obj []), ("$vega", .obj [])], rfl⟩
  have hdoubles : collidingTable.Doubles := ⟨"vega", by decide, by decide, by decide⟩
  refine ⟨haccepted, ?_, ?_, ?_⟩
  · rw [nodup_modulePaths_iff [] haccepted]
    decide
  · rw [map_name_exports haccepted, Table.nodup_publicNames_iff haccepted.nodup_names]
    exact not_not.2 hdoubles
  · rw [nodup_pagePaths_iff [] _ _ haccepted]
    exact fun h => h.1 hdoubles

end BuilderApi
