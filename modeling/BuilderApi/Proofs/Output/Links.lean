import BuilderApi.Proofs.Output.Correspondence
import BuilderApi.Proofs.Script.Sources
import BuilderApi.Proofs.Table.Declared

/-!
# Modules that import from each other

A module that imports from another one names it by its path, and relies on what it exports. Each
module of a batch exports its own factory, and a module imports nothing but helpers and its targets;
so where references stay among the builders of the table, what is imported is **supplied** by the
batch (`BuilderApi.supplies_of_within`).

The index module has a path as well, and an entry `index` has the same one. So that a path names one
module, nothing may be imported from there.
-/

namespace BuilderApi

open Script Listing

/-- What is imported is supplied: the path names one module of the batch, which exports all the
symbols. -/
structure Supplies (table : Table) (shapes : Shapes) (imported : String × List String)
    (spec : MethodSpec) : Prop where
  /-- The source is a builder of the table. -/
  entry : (imported.1, .method spec) ∈ table
  /-- Its module, and no other one, is found under the path. -/
  found : ∀ artifact,
    (artifact ∈ moduleArtifacts table shapes ∧ artifact.path = imported.1 ++ ".js") ↔
    artifact = ⟨imported.1 ++ ".js", methodModule (shapes.shape imported.1) imported.1 spec⟩
  /-- The text of the module consists of the lines in which the symbols are looked for. -/
  laidOut : LaidOut (shapes.shape imported.1) imported.1 spec
  /-- The module exports what is imported. -/
  exported : ∀ symbol ∈ imported.2,
    Exports (moduleLines (shapes.shape imported.1) imported.1 spec) symbol

variable {table : Table} {shapes : Shapes} {name : String} {spec : MethodSpec}

/-- A path that is not that of the index names one module. -/
theorem mem_moduleArtifacts_iff (hnames : (Fields.names table).Nodup) (hindex : name ≠ "index")
    (h : (name, .method spec) ∈ table) (artifact : Artifact) :
    (artifact ∈ moduleArtifacts table shapes ∧ artifact.path = name ++ ".js") ↔
      artifact = ⟨name ++ ".js", methodModule (shapes.shape name) name spec⟩ := by
  constructor
  · rintro ⟨hmem, hpath⟩
    rcases List.mem_append.1 hmem with hmem | hmem
    · obtain ⟨⟨other, entry⟩, hfield, heq⟩ := List.mem_filterMap.1 hmem
      obtain ⟨otherSpec, hspec, rfl⟩ := Option.map_eq_some_iff.1 heq
      obtain rfl := (String.append_left_inj _).1 hpath
      obtain rfl := congrArg Prod.snd (List.inj_on_of_nodup_map hnames hfield h rfl)
      cases hspec
      rfl
    · cases List.mem_singleton.1 hmem
      have hpath : "index" ++ ".js" = name ++ ".js" := hpath
      exact absurd ((String.append_left_inj _).1 hpath).symm hindex
  · rintro rfl
    exact ⟨mem_moduleArtifacts h, rfl⟩

theorem MethodSpec.Within.of_mem_targets {companion : String → Prop} {functions : String}
    {shape : Properties} (h : spec.Within companion functions) {target : String × String}
    (htarget : target ∈ targets shape spec) :
    target.2 = functions ∨ target.2 = target.1 ∧ companion target.1 := by
  unfold targets at htarget
  split at htarget
  · next proxy hctr =>
    obtain rfl := List.mem_singleton.1 htarget
    obtain ⟨hsource, hcall⟩ := h.ctr proxy hctr
    exact .inr ⟨by rw [Proxy.source, hsource]; rfl, hcall⟩
  · obtain ⟨member, hmember, htarget⟩ := List.mem_filterMap.1 htarget
    have hfrom := Member.isFrom_of_mem_plan hmember
    unfold Member.IsFrom at hfrom
    unfold target? at htarget
    cases hkind : member.kind with
    | delegation pass =>
      rw [hkind] at hfrom htarget
      cases htarget
      obtain ⟨hsource, hcall⟩ := h.pass _ hfrom pass rfl
      exact .inr ⟨by rw [Delegation.source, hsource]; rfl, hcall⟩
    | invocation call =>
      rw [hkind] at hfrom htarget
      cases htarget
      exact .inl (by rw [Invocation.source, h.call _ hfrom call rfl]; rfl)
    | _ =>
      rw [hkind] at htarget
      cases htarget

/-- **What a module imports is supplied**, if its entry refers to nothing but builders and functions
of one module. -/
theorem supplies_of_within (hnames : (Fields.names table).Nodup) {companion : String → Prop}
    {functions : String}
    (hcompanion : ∀ name, companion name → name ≠ "index" ∧ table.HasBuilder name)
    (hwithin : spec.Within companion functions) {shape : Properties}
    {imported : String × List String}
    (h : imported ∈ ledger helperModule (methodListing shape name spec)) :
    imported.1 = helperModule ∨ imported.1 = functions ∨
    ∃ target, Supplies table shapes imported target := by
  by_cases hhelper : imported.1 = helperModule
  · exact .inl hhelper
  · by_cases hfunctions : imported.1 = functions
    · exact .inr (.inl hfunctions)
    · obtain ⟨⟨call, hcall⟩, hsymbols⟩ := targets_of_mem_ledger h hhelper
      -- without a source of its own a target is imported from the module of its name
      have hself : ∀ symbol, (symbol, imported.1) ∈ targets shape spec →
          imported.1 = symbol ∧ companion symbol :=
        fun symbol hsymbol => (hwithin.of_mem_targets hsymbol).resolve_left hfunctions
      obtain ⟨rfl, hcompanion'⟩ := hself call hcall
      obtain ⟨hindex, htarget⟩ := hcompanion _ hcompanion'
      obtain ⟨target, hget⟩ := htarget.exists_get?
      have hmem := Fields.mem_of_get? hget
      refine .inr (.inr ⟨target, hmem, mem_moduleArtifacts_iff hnames hindex hmem, laidOut _ _ _,
        fun symbol hsymbol => ?_⟩)
      rw [← (hself symbol (hsymbols symbol hsymbol)).1]
      exact exports_factory

end BuilderApi
