import BuilderApi.Proofs.Script.Helpers
import BuilderApi.Proofs.Script.Skeleton
import BuilderApi.Proofs.Table.Accepted

/-!
# The names at the top level of a module

A script module may bind a name at its top level only once. The names that a generated module binds
there have three origins: the helper functions it needs, the targets of its members or of its proxy,
and what it declares itself, which can be read off the lines at column zero. Imports from one source
never repeat a symbol, and among helpers alone nothing can clash. But the names of entries and of
targets are free, and nothing keeps them apart from each other or from the rest. When they are apart
is `BuilderApi.Script.Apart`, and then, and only then, every name is bound once
(`BuilderApi.Script.nodup_boundNames_iff`).
-/

namespace BuilderApi

namespace Script

open Listing

variable {shape : Properties} {name : String} {spec : MethodSpec}

/-! ### What is imported -/

/-- **A module imports its helpers and its targets**, the helpers from the helper module and every
target from its own source. -/
theorem lists_methodListing_iff {source symbol : String} :
    Lists (ledger helperModule (methodListing shape name spec)) source symbol ↔
      (source = helperModule ∧ symbol ∈ moduleHelpers shape spec) ∨
      (symbol, source) ∈ targets shape spec := by
  rw [lists_ledger_iff, ← helpers_methodListing shape name spec, mem_helpers_iff]
  constructor
  · rintro ⟨source?, symbols, hneed, rfl, hsymbol⟩
    cases source? with
    | none => exact .inl ⟨rfl, symbols, hneed, hsymbol⟩
    | some source =>
      have hforeign := mem_foreign_iff.2 hneed
      rw [foreign_methodListing] at hforeign
      obtain ⟨target, htarget, heq⟩ := List.mem_map.1 hforeign
      cases heq
      cases List.mem_singleton.1 hsymbol
      exact .inr htarget
  · rintro (⟨rfl, symbols, hneed, hsymbol⟩ | htarget)
    · exact ⟨none, symbols, hneed, rfl, hsymbol⟩
    · have hforeign : needed (symbol, source) ∈ foreign (methodListing shape name spec) := by
        rw [foreign_methodListing]
        exact List.mem_map_of_mem htarget
      exact ⟨some source, [symbol], mem_foreign_iff.1 hforeign, rfl, List.mem_singleton_self _⟩

/-- The symbols of all imports, in order. -/
def imported (shape : Properties) (name : String) (spec : MethodSpec) : List String :=
  (ledger helperModule (methodListing shape name spec)).flatMap Prod.snd

theorem mem_imported_iff {symbol : String} : symbol ∈ imported shape name spec ↔
    symbol ∈ moduleHelpers shape spec ∨ ∃ target ∈ targets shape spec, target.1 = symbol := by
  have hlists : symbol ∈ imported shape name spec ↔
      ∃ source, Lists (ledger helperModule (methodListing shape name spec)) source symbol := by
    rw [imported, List.mem_flatMap]
    constructor
    · rintro ⟨field, hfield, hsymbol⟩
      exact ⟨field.1, field.2, Fields.get?_of_mem kept_ledger.sources hfield, hsymbol⟩
    · rintro ⟨source, symbols, hget, hsymbol⟩
      exact ⟨_, Fields.mem_of_get? hget, hsymbol⟩
  simp only [hlists, lists_methodListing_iff]
  constructor
  · rintro ⟨source, ⟨-, hhelper⟩ | htarget⟩
    · exact .inl hhelper
    · exact .inr ⟨_, htarget, rfl⟩
  · rintro (hhelper | ⟨target, htarget, rfl⟩)
    · exact ⟨_, .inl ⟨rfl, hhelper⟩⟩
    · exact ⟨_, .inr htarget⟩

/-- Imports repeat a name exactly if two targets of that name have different sources, or a target
has the name of a helper and is not one. -/
theorem nodup_imported_iff : (imported shape name spec).Nodup ↔
    (∀ a ∈ targets shape spec, ∀ b ∈ targets shape spec, a.1 = b.1 → a.2 = b.2) ∧
      ∀ target ∈ targets shape spec, target.1 ∈ moduleHelpers shape spec →
        target.2 = helperModule := by
  rw [imported, kept_ledger.nodup_symbols_iff]
  simp only [lists_methodListing_iff]
  constructor
  · intro h
    refine ⟨fun a ha b hb heq =>
      h a.1 a.2 b.2 (.inr ha) (.inr (heq ▸ hb)), fun target htarget hhelper => ?_⟩
    exact h target.1 target.2 helperModule (.inr htarget) (.inl ⟨rfl, hhelper⟩)
  · rintro ⟨htargets, hhelpers⟩ symbol source other (⟨rfl, hhelper⟩ | hsource)
      (⟨rfl, hhelper'⟩ | hother)
    · rfl
    · exact (hhelpers _ hother hhelper).symm
    · exact hhelpers _ hsource hhelper'
    · exact htargets _ hsource _ hother rfl

/-! ### What is declared -/

/-- The name of a function, from the text between the keyword and the body. -/
def functionName (rest : String) : String := String.ofList (frontOfLast '(' rest.toList)

/-- The name that a line at column zero declares: that of a function, exported or not, or of a
constant. -/
def declared? (line : String) : Option String :=
  (behind? "export function " line).map functionName <|>
    (behind? "function " line).map functionName <|>
    (behind? "const " line).map fun rest => String.ofList (rest.toList.takeWhile (· != ' '))

theorem behind?_eq_none_of_head {sigil line : String} {c : Char}
    (hsigil : sigil.toList.head? = some c) (h : line.toList.head? ≠ some c) :
    behind? sigil line = none := by
  rw [behind?_eq_none_iff]
  rintro rest rfl
  exact h (by rw [String.toList_append, List.head?_append, hsigil, Option.some_or])

/-- A line that begins otherwise declares nothing. -/
theorem declared?_eq_none {line : String} (hexport : line.toList.head? ≠ some 'e')
    (hfunction : line.toList.head? ≠ some 'f') (hconst : line.toList.head? ≠ some 'c') :
    declared? line = none := by
  rw [declared?, behind?_eq_none_of_head rfl hexport, behind?_eq_none_of_head rfl hfunction,
    behind?_eq_none_of_head rfl hconst]
  rfl

theorem functionName_append (name : String) : functionName (name ++ "(...args) \x7b") = name := by
  have htext :
      (name ++ "(...args) \x7b").toList = name.toList ++ '(' :: "...args) \x7b".toList := by
    simp
  rw [functionName, htext, frontOfLast_append (by decide), String.ofList_toList]

theorem declared?_factoryOpening (name : String) : declared? (factoryOpening name) = some name := by
  have hbehind :
      behind? "export function " (factoryOpening name) = some (name ++ "(...args) \x7b") :=
    behind?_eq_some_iff.2 (String.append_assoc ..)
  rw [declared?, hbehind, Option.map_some, functionName_append]
  rfl

theorem declared?_constructorOpening (className : String) :
    declared? (constructorOpening className) = some className := by
  have hexport : behind? "export function " (constructorOpening className) = none :=
    behind?_eq_none_of_head (c := 'e') rfl (by simp [constructorOpening])
  have hbehind :
      behind? "function " (constructorOpening className) = some (className ++ "(...args) \x7b") :=
    behind?_eq_some_iff.2 (String.append_assoc ..)
  rw [declared?, hexport, hbehind, Option.map_some, functionName_append]
  rfl

theorem declared?_prototype (className : String) :
    declared? ("const prototype = proto(" ++ className ++ ");") = some "prototype" := by
  have hexport :
      behind? "export function " ("const prototype = proto(" ++ className ++ ");") = none :=
    behind?_eq_none_of_head (c := 'e') rfl (by simp)
  have hfunction : behind? "function " ("const prototype = proto(" ++ className ++ ");") = none :=
    behind?_eq_none_of_head (c := 'f') rfl (by simp)
  have hconst : behind? "const " ("const prototype = proto(" ++ className ++ ");") =
      some ("prototype = proto(" ++ className ++ ");") :=
        behind?_eq_some_iff.2 (by simp [← String.toList_inj])
  rw [declared?, hexport, hfunction, hconst]
  simp [List.takeWhile]

/-- The names that a module declares itself: its constructor and its prototype, unless it is that of
a proxy, and its factory. -/
def ownNames (name : String) (spec : MethodSpec) : List String :=
  (if spec.isProxy then [] else ["_" ++ name, "prototype"]) ++ [name]

/-- The lines that belong to accessors declare nothing. -/
theorem declared_accessorSkeleton (name params : String) :
    (accessorSkeleton name params).filterMap declared? = [] := by
  have hopening : declared? (opening name params) = none := by
    apply declared?_eq_none <;> simp [opening]
  have hclosing : declared? "\x7d;" = none := by
    apply declared?_eq_none <;> simp
  simp [accessorSkeleton, hopening, hclosing]

/-- What a module declares, at column zero of its lines. -/
theorem declared_moduleLines (shape : Properties) (name : String) (spec : MethodSpec) :
    (margin (moduleLines shape name spec)).filterMap declared? = ownNames name spec := by
  have himports : (margin ((ledger helperModule (methodListing shape name spec)).map
      fun field => importLine field.1 field.2)).filterMap declared? = [] := by
    rw [List.filterMap_eq_nil_iff]
    intro line hline
    obtain ⟨field, -, rfl⟩ := List.mem_map.1 (List.mem_of_mem_filter hline)
    apply declared?_eq_none <;> simp [importLine]
  have hmembers : ((Member.plan spec shape).flatMap fun member =>
      accessorSkeleton member.name (memberParams member)).filterMap declared? = [] := by
    simp [List.filterMap_flatMap, declared_accessorSkeleton]
  have hserial : (spec.serial.toList.flatMap fun serial =>
      accessorSkeleton "toJSON" (serializerParams serial)).filterMap declared? = [] := by
    simp [List.filterMap_flatMap, declared_accessorSkeleton]
  have hclosing : declared? "\x7d" = none := by
    apply declared?_eq_none <;> simp
  have hcomment : declared? "// eslint-disable-next-line no-unused-vars" = none := by
    apply declared?_eq_none <;> simp
  have hmargin : margin (moduleLines shape name spec) =
      margin ((ledger helperModule (methodListing shape name spec)).map
      fun field => importLine field.1 field.2) ++ skeleton shape name spec := by
    rw [moduleLines, margin_append, ← margin_methodListing]
    rfl
  rw [hmargin, List.filterMap_append, himports, List.nil_append, skeleton, ownNames]
  cases spec.isProxy with
  | true => simp [declared?_factoryOpening, hclosing]
  | false =>
    simp [hmembers, hserial, declared?_constructorOpening, declared?_prototype,
      declared?_factoryOpening, hclosing,
      hcomment]

/-! ### What is bound -/

/-- The names that a module binds at its top level: all that it imports, and all that it
declares. -/
def boundNames (shape : Properties) (name : String) (spec : MethodSpec) : List String :=
  imported shape name spec ++ (margin (moduleLines shape name spec)).filterMap declared?

/-- The names that a module binds are kept apart. -/
structure Apart (shape : Properties) (name : String) (spec : MethodSpec) : Prop where
  /-- Targets of one name come from one source. -/
  sources : ∀ a ∈ targets shape spec, ∀ b ∈ targets shape spec, a.1 = b.1 → a.2 = b.2
  /-- A target that has the name of a helper is the helper. -/
  helpers : ∀ target ∈ targets shape spec, target.1 ∈ moduleHelpers shape spec →
    target.2 = helperModule
  /-- No target has a name that the module declares. -/
  declared : ∀ target ∈ targets shape spec, target.1 ∉ ownNames name spec
  /-- The entry does not have the name of a helper. -/
  entry : name ∉ moduleHelpers shape spec
  /-- A builder is not called `prototype`. -/
  prototype : spec.isProxy = false → name ≠ "prototype"

theorem nodup_ownNames_iff :
    (ownNames name spec).Nodup ↔ (spec.isProxy = false → name ≠ "prototype") := by
  have hclass : ∀ text : String, "_" ++ text ≠ text := by
    intro text heq
    have hlength := congrArg String.length heq
    rw [String.length_append] at hlength
    exact absurd hlength (by simp)
  have hprototype : "_" ++ name ≠ "prototype" := by
    intro heq
    simpa using congrArg (fun text => text.toList.head?) heq
  unfold ownNames
  cases spec.isProxy with
  | true => simp
  | false => simp [hclass, hprototype, eq_comm]

/-- Of the names that a module declares, only that of its factory can be the name of a helper. -/
theorem forall_ownNames_not_helper_iff (shape : Properties) (name : String) (spec : MethodSpec) :
    (∀ own ∈ ownNames name spec, own ∉ moduleHelpers shape spec) ↔
    name ∉ moduleHelpers shape spec := by
  have hclass : "_" ++ name ∉ helperFunctions := by
    have hheads : ∀ helper ∈ helperFunctions, helper.toList.head? ≠ some '_' := by decide
    exact fun h => hheads _ h (by simp)
  have hprototype : "prototype" ∉ helperFunctions := by decide
  have hsubset := moduleHelpers_subset shape spec
  unfold ownNames
  cases spec.isProxy with
  | true => simp
  | false => simp [mt (hsubset ·) hclass, mt (hsubset ·) hprototype]

/-- **Which names are bound twice.** The top level of a module binds what it imports and what it
declares itself: its factory and, for a builder, its constructor and its prototype. Every name is
bound once exactly if these are kept apart. What is imported stands in the import lines of the text,
and what is declared at column zero of its lines. -/
theorem nodup_boundNames_iff (shape : Properties) (name : String) (spec : MethodSpec) :
    LaidOut shape name spec ∧
      boundNames shape name spec = imported shape name spec ++ ownNames name spec ∧
      ((boundNames shape name spec).Nodup ↔ Apart shape name spec) := by
  have hbound : boundNames shape name spec = imported shape name spec ++ ownNames name spec := by
    rw [boundNames, declared_moduleLines]
  have hdisjoint : (∀ symbol ∈ imported shape name spec, ∀ own ∈ ownNames name spec, symbol ≠ own) ↔
      (∀ target ∈ targets shape spec, target.1 ∉ ownNames name spec) ∧
      name ∉ moduleHelpers shape spec := by
    rw [← forall_ownNames_not_helper_iff shape name spec]
    constructor
    · intro h
      refine ⟨fun target htarget hown => ?_, fun own hown hhelper => ?_⟩
      · exact h _ (mem_imported_iff.2 (.inr ⟨target, htarget, rfl⟩)) _ hown rfl
      · exact h own (mem_imported_iff.2 (.inl hhelper)) own hown rfl
    · rintro ⟨htargets, hhelpers⟩ symbol hsymbol own hown rfl
      rcases mem_imported_iff.1 hsymbol with hhelper | ⟨target, htarget, rfl⟩
      · exact hhelpers symbol hown hhelper
      · exact htargets target htarget hown
  refine ⟨laidOut shape name spec, hbound, ?_⟩
  rw [hbound, List.nodup_append, nodup_imported_iff, nodup_ownNames_iff, hdisjoint]
  constructor
  · rintro ⟨⟨htargets, hhelpers⟩, hprototype, hown, hname⟩
    exact ⟨htargets, hhelpers, hown, hname, hprototype⟩
  · intro h
    exact ⟨⟨h.sources, h.helpers⟩, h.prototype, h.declared, h.entry⟩

/-- An entry with invocations of two functions of one name. -/
def rivalCalls : MethodSpec :=
  ⟨none, none, none, none, [], [], [], [],
    [("x", some ⟨"render", some "a", none, none⟩), ("y", some ⟨"render", some "b", none, none⟩)],
    none, none⟩

/-- **Targets of one name are imported twice**: the table is accepted, and its module binds `render`
from both sources. -/
theorem rivalCalls_bound_twice : Table.Accepted [("m", .method rivalCalls)] ∧
    importLine "a" ["render"] ∈ moduleLines [] "m" rivalCalls ∧
    importLine "b" ["render"] ∈ moduleLines [] "m" rivalCalls ∧
    ¬(boundNames [] "m" rivalCalls).Nodup := by
  have haccepted : Table.Accepted [("m", .method rivalCalls)] :=
    .inr ⟨.obj [("m", .obj [("call", .obj [
      ("x", .obj [("call", .str "render"), ("from", .str "a")]),
      ("y", .obj [("call", .str "render"), ("from", .str "b")])])])], rfl⟩
  have htargets : targets [] rivalCalls = [("render", "a"), ("render", "b")] := rfl
  have hledger : ledger helperModule (methodListing [] "m" rivalCalls) =
      [(helperModule, ["assign", "init", "proto"]), ("a", ["render"]), ("b", ["render"])] :=
    rfl
  refine ⟨haccepted, ?_, ?_, fun hnodup => ?_⟩
  · simp [moduleLines, hledger]
  · simp [moduleLines, hledger]
  · have himported : (imported [] "m" rivalCalls).Nodup :=
      hnodup.sublist (List.sublist_append_left _ _)
    have hsource :=
      (nodup_imported_iff.1 himported).1 ("render", "a") (by simp [htargets]) ("render", "b")
      (by simp [htargets]) rfl
    exact absurd hsource (by decide)

end Script

end BuilderApi
