import BuilderApi.Proofs.Builder.Closed
import BuilderApi.Proofs.Catalog.Expansion
import BuilderApi.Proofs.Output.Links

/-!
# The catalog refers to itself

The references of the catalog are written into its declarations, and a schema cannot add any:
whatever it calls its entries, they refer to the companions that the declarations name
(`BuilderApi.Catalog.isEntry_of_mem_declared`). These are always inserted. A schema may put entries
of its own in their place, but never take a name away, and never turn an entry into a re-export,
since a re-export has a name with the external marker. So the catalog of each schema is closed
(`BuilderApi.Catalog.refers_to_itself`).
-/

namespace BuilderApi

namespace Catalog

variable {schema : Schema} {table : Table}

/-! ### Companions -/

theorem mem_names_insertions_of_settled (f : Families) {name : String}
    (h : name ∈ Fields.names settled) :
    name ∈ Fields.names (insertions f) := by
  obtain ⟨insertion, hmem, rfl⟩ := List.mem_map.1 h
  exact List.mem_map_of_mem (List.mem_reverse.1 (Fields.mem_of_get? (last_of_mem_settled f hmem)))

/-- Companions are inserted for each schema. -/
theorem mem_names_insertions (f : Families) :
    ∀ name ∈ companions, name ∈ Fields.names (insertions f) := by
  have hsettled :
      ∀ name ∈ ["field", "aggregate", "joinaggregate", "window"], name ∈ Fields.names settled := by
    decide +kernel
  have hbefore :
      ∀ name ∈ ["mark", "layer", "hconcat", "vconcat", "_repeat", "_facet", "lookupData"],
      name ∈ Fields.names (insertions f) := by
    simp [insertions, charts, dataEntries, Fields.names]
  have hcompanions :
      companions = ["mark", "layer", "hconcat", "vconcat", "_repeat", "_facet", "lookupData"] ++
      ["field", "aggregate", "joinaggregate", "window"] := rfl
  rw [hcompanions, List.forall_mem_append]
  exact ⟨hbefore, fun name hname => mem_names_insertions_of_settled f (hsettled name hname)⟩

/-- The name of a companion has no external marker, so what stands under it is a builder. -/
theorem hasBuilder_of_mem_companions (h : Catalog.table schema = .ok table) :
    ∀ name ∈ companions, table.HasBuilder name := by
  intro name hname
  obtain ⟨f, -, hread⟩ := exists_families h
  have hmem : name ∈ Fields.names table := by
    rw [Table.mem_names_ofJson (nodup_names_declared f) hread, names_declared, List.mem_eraseDups]
    exact mem_names_insertions f name hname
  have hinternal : ∀ name ∈ companions, Visibility.of name ≠ .isExternal := by decide
  have haccepted := Table.accepted_catalog h
  obtain ⟨⟨name, entry⟩, hentry, rfl⟩ := List.mem_map.1 hmem
  rw [Table.HasBuilder, Table.method?, Fields.get?_of_mem haccepted.nodup_names hentry,
    Option.bind_some, Option.isSome_iff_ne_none]
  exact mt (haccepted.isExternal_iff hentry).2 (hinternal _ hname)

theorem within_companions (h : Catalog.table schema = .ok table) {name : String} {spec : MethodSpec}
    (hentry : (name, .method spec) ∈ table) : spec.Within (· ∈ companions) viewModule := by
  obtain ⟨f, -, hread⟩ := exists_families h
  exact Table.within_of_ofJson (isEntry_of_mem_declared f) hread hentry

/-! ### The catalog -/

/-- A table whose references stay inside, with what follows for its modules and its builders. -/
structure RefersToItself (table : Table) : Prop where
  /-- Proxies and delegations lead to builders of the table, and invocations to the view module. -/
  closed : table.Closed viewModule
  /-- What a module imports, in the import lines of its text, is supplied by the modules of the
  table, unless it is a helper or a function of the view module. -/
  supplied : ∀ shapes name spec, (name, .method spec) ∈ table →
    Script.LaidOut (Shapes.shape shapes name) name spec ∧
      ∀ imported ∈ Listing.ledger Script.helperModule
        (Script.methodListing (Shapes.shape shapes name) name spec),
      imported.1 = Script.helperModule ∨ imported.1 = viewModule ∨
        ∃ target, Supplies table shapes imported target
  /-- Constructors and calls, delegations among them, never fail because an entry is unknown or
  external. -/
  complete : ∀ shapes functions, Session.Complete ⟨table, shapes, functions⟩

/-- **The catalog of each schema refers to itself.** -/
theorem refers_to_itself (h : Catalog.table schema = .ok table) : RefersToItself table := by
  have hcompanions := hasBuilder_of_mem_companions h
  have hindex : ∀ name ∈ companions, name ≠ "index" := by decide
  have hclosed : table.Closed viewModule :=
    fun name spec hentry => (within_companions h hentry).mono hcompanions
  refine ⟨hclosed, fun shapes name spec hentry =>
    ⟨Script.laidOut _ _ _, fun imported himported => ?_⟩, fun shapes functions => ?_⟩
  · exact supplies_of_within (Table.accepted_catalog h).nodup_names
      (fun name hname => ⟨hindex name hname, hcompanions name hname⟩)
      (within_companions h hentry) himported
  · exact Table.Closed.complete (s := ⟨table, shapes, functions⟩) hclosed

/-- In the catalog of one mark type, the proxy `fieldN` stands for the entry `field`. -/
theorem refers_to_itself_barSchema :
    ∃ table, Catalog.table barSchema = .ok table ∧ RefersToItself table ∧
    ∃ spec, ("fieldN", .method spec) ∈ table ∧ spec.ctr = some ⟨"field", none, none⟩ := by
  obtain ⟨table, htable⟩ := exists_table families_barSchema
  obtain ⟨f, -, hread⟩ := exists_families htable
  have hsettled : ("fieldN", fieldOfType nominal) ∈ settled := by
    simp [settled, references, encodings]
  obtain ⟨entry, hentry, hget⟩ := kept_of_last hread (last_of_mem_settled f hsettled)
  obtain ⟨spec, hspec, hctr⟩ : ∃ spec, Table.ofJson (.obj [("fieldN", fieldOfType nominal)]) =
      .ok [("fieldN", .method spec)] ∧ spec.ctr = some ⟨"field", none, none⟩ := ⟨_, rfl, rfl⟩
  rw [hspec] at hentry
  cases hentry
  exact ⟨table, htable, refers_to_itself htable, spec, Fields.mem_of_get? hget, hctr⟩

end Catalog

end BuilderApi
