import BuilderApi.Proofs.Script.Ledger
import BuilderApi.Proofs.Script.Skeleton
import BuilderApi.Proofs.Script.Soundness

/-!
# The functions that a generated module calls

A generated module calls no function that it neither declares nor imports
(`BuilderApi.Script.calls_bound`). What a listing needs is imported, each symbol from the source
that it was needed from (`BuilderApi.Script.imports_of_need`); so in a sound listing, what is called
is imported or declared.
-/

namespace BuilderApi

open Script Listing

variable {letters : Letters} {allowed : String → Prop}

/-! ### The text of a ledger -/

namespace Listing

/-- The text of a ledger has no parentheses. -/
def InertLedger (ledger : Fields (List String)) : Prop :=
  ∀ field ∈ ledger, Inert field.1 ∧ ∀ symbol ∈ field.2, Inert symbol

theorem inertLedger_ledger {main : String} {listing : Listing} (hmain : Inert main)
    (hlisting : ∀ step ∈ listing, StepSound letters allowed step) :
    InertLedger (Listing.ledger main listing) := by
  refine forall_mem_ledger (p := fun _ symbol => Inert symbol) hmain fun source? symbols hneed => ?_
  obtain ⟨hsource, hsymbols⟩ := hlisting _ hneed
  refine ⟨?_, hsymbols⟩
  cases source? with
  | none => exact hmain
  | some source => exact hsource source rfl

end Listing

/-! ### The text of a sound listing -/

namespace Script

theorem inert_intercalate {separator : String} (hseparator : Inert separator) {texts : List String}
    (h : ∀ text ∈ texts, Inert text) : Inert (separator.intercalate texts) := by
  induction texts with
  | nil =>
    rw [String.intercalate_nil]
    decide
  | cons text rest ih =>
    rw [List.forall_mem_cons] at h
    cases rest with
    | nil => simpa using h.1
    | cons next rest =>
      rw [String.intercalate_cons_cons]
      exact (h.1.append hseparator).append (ih h.2)

theorem inert_importLine {field : String × List String} (hsource : Inert field.1)
    (hsymbols : ∀ symbol ∈ field.2, Inert symbol) : Inert (importLine field.1 field.2) := by
  have hfront : Inert "import \x7b" := by decide
  have hcomma : Inert ", " := by decide
  exact (((hfront.append (inert_intercalate hcomma hsymbols)).append (by decide)).append
    hsource).append (by decide)

theorem callsOnly_indented {text : String} (depth : Nat) (h : CallsOnly letters allowed text) :
    CallsOnly letters allowed (indentation depth ++ text) := by
  have hinert : Inert (indentation depth) := by simp [Inert, indentation]
  cases depth with
  | zero => simpa [indentation] using h
  | succ depth =>
    have hstops : Stops letters (indentation (depth + 1)) :=
      ⟨' ', by simp [indentation, List.getLast?_replicate], by simp [Letters.isPart]⟩
    exact (Firm.of_inert hinert).callsOnly.append h hstops

/-- The lines of a sound listing call only what is allowed. -/
theorem callsOnly_body {listing : Listing} (h : ∀ step ∈ listing, StepSound letters allowed step)
    (depth : Nat) :
    ∀ line ∈ Listing.body depth listing, CallsOnly letters allowed line := by
  induction listing generalizing depth with
  | nil => exact List.forall_mem_nil _
  | cons step rest ih =>
    rw [List.forall_mem_cons] at h
    cases step with
    | line text =>
      refine List.forall_mem_cons.2 ⟨?_, ih h.2 depth⟩
      split
      · exact callsOnly_own [] (List.forall_mem_nil _) (by decide)
      · exact callsOnly_indented depth h.1
    | _ => exact ih h.2 _

/-- Lines that call only what is allowed do so when they are joined. -/
theorem callsOnly_lines {lines : List String} (h : ∀ line ∈ lines, CallsOnly letters allowed line) :
    CallsOnly letters allowed ("\n".intercalate lines) := by
  induction lines with
  | nil => exact callsOnly_own [] (List.forall_mem_nil _) (by decide)
  | cons line rest ih =>
    rw [List.forall_mem_cons] at h
    cases rest with
    | nil => simpa using h.1
    | cons next rest =>
      rw [String.intercalate_cons_cons]
      exact (h.1.append_inert (by decide)).append (ih h.2) (stops_behind (by decide))

end Script

/-- An entry whose names are names, and whose other texts are without parentheses. Of the names of
members and keys, no more is wanted than of other texts. -/
structure MethodSpec.IsNamed (letters : Letters) (shape : Properties) (name : String)
    (spec : MethodSpec) : Prop where
  /-- The entry. -/
  name : letters.isName name.toList = true
  /-- The properties of its shape. -/
  properties : ∀ field ∈ shape, Inert field.1
  /-- The bindings of its constructor. -/
  args : ∀ bindings ∈ spec.args, ∀ binding ∈ bindings, binding.IsInert
  /-- Its assignments. -/
  set : InertFields spec.set
  /-- Its dispatch tables. -/
  types : ∀ table, some table ∈ spec.types → table.IsInert
  /-- Its extensions. -/
  ext : ∀ field ∈ spec.ext, Inert field.1 ∧ ∀ ext ∈ field.2, ext.IsInert
  /-- Its delegations. -/
  pass : ∀ field ∈ spec.pass, Inert field.1 ∧ ∀ pass ∈ field.2, pass.IsNamed letters
  /-- Its invocations. -/
  call : ∀ field ∈ spec.call, Inert field.1 ∧ ∀ call ∈ field.2, call.IsNamed letters
  /-- Its serialized form. -/
  serial : ∀ serial ∈ spec.serial, serial.IsInert
  /-- The constructor that it stands for. -/
  ctr : ∀ proxy ∈ spec.ctr, proxy.IsNamed letters

/-! ### The listing of an entry -/

namespace Script

/-- The members of a named entry are named. -/
theorem memberNamed_of_mem_plan {shape : Properties} {name : String} {spec : MethodSpec}
    (hspec : spec.IsNamed letters shape name) {member : Member}
    (hmember : member ∈ Member.plan spec shape) :
    memberNamed letters member := by
  have hfrom := Member.isFrom_of_mem_plan hmember
  unfold Member.IsFrom at hfrom
  unfold memberNamed
  cases hkind : member.kind with
  | property schema array =>
    rw [hkind] at hfrom
    exact ⟨hspec.properties _ hfrom, trivial⟩
  | extension ext =>
    rw [hkind] at hfrom
    exact ⟨(hspec.ext _ hfrom).1, (hspec.ext _ hfrom).2 ext rfl⟩
  | delegation pass =>
    rw [hkind] at hfrom
    exact ⟨(hspec.pass _ hfrom).1, (hspec.pass _ hfrom).2 pass rfl⟩
  | invocation call =>
    rw [hkind] at hfrom
    exact ⟨(hspec.call _ hfrom).1, (hspec.call _ hfrom).2 call rfl⟩

theorem isInert_typeTable {shape : Properties} {name : String} {spec : MethodSpec}
    (hspec : spec.IsNamed letters shape name) (position : Nat) :
    ∀ table ∈ spec.typeTable position, table.IsInert := by
  intro table htable
  exact hspec.types table (List.mem_of_getElem? (Option.join_eq_some_iff.1 htable))

/-- The argument that a proxy fixes is harmless in front of the others. -/
theorem inert_fixed : ∀ arg : Option Json, (∀ value ∈ arg, value.isInert = true) →
    Inert (match arg with
      | some value => literal value ++ ", "
      | none => "")
  | none, _ => by decide
  | some value, harg => (inert_literal (harg value rfl)).append (by decide)

/-- The module of a proxy is sound. -/
theorem sound_proxyModule {shape : Properties} {name : String} {spec : MethodSpec} {proxy : Proxy}
    (hletters : ∀ c, letters.isStart c = true → letters.isPart c = true)
    (hspec : spec.IsNamed letters shape name) (hproxy : proxy.IsNamed letters)
    (hallowed : allowed name) :
    Sound letters allowed (proxyModule name spec proxy) := by
  have hname := parts_of_isName hletters hspec.name
  have hcall := parts_of_isName hletters hproxy.call
  refine sound_target hcall hproxy.source fun htarget => ?_
  have hfixed := inert_fixed proxy.arg hproxy.arg
  have htarget' : CallsOnly letters allowed (proxy.call ++ "(") :=
    callsOnly_call hcall htarget rfl (by decide)
  have hconstruction := (htarget'.append_inert hfixed).append_inert (b := "...args);") (by decide)
  have hreturn : CallsOnly letters allowed "return " :=
    callsOnly_own [] (List.forall_mem_nil _) (by decide)
  have hconst : CallsOnly letters allowed "const obj = " :=
    callsOnly_own [] (List.forall_mem_nil _) (by decide)
  split
  · exact sound_factory hname hallowed
      (.line (hreturn.append hconstruction (stops_own (by decide))) .nil)
  · refine .use (by decide) fun hset => sound_factory hname hallowed (.line ?_ ?_)
    · exact hconst.append hconstruction (stops_own (by decide))
    · exact sound_returnLines (fun _ => hset) hspec.set

/-- The module of a builder is sound. -/
theorem sound_builderModule {shape : Properties} {name : String} {spec : MethodSpec}
    (hletters : ∀ c, letters.isStart c = true → letters.isPart c = true)
    (hspec : spec.IsNamed letters shape name) (hfunction : allowed "function")
    (hallowed : allowed name) (hclass : allowed ("_" ++ name)) :
    Sound letters allowed (builderModule shape name spec) := by
  have hname := parts_of_isName hletters hspec.name
  have hclassName : ∀ c ∈ ("_" ++ name).toList, letters.isPart c = true := by
    rw [String.toList_append]
    exact List.forall_mem_append.2 ⟨by simp [Letters.isPart], hname⟩
  have hmodule : CallsOnly letters allowed "return new " :=
    callsOnly_own [] (List.forall_mem_nil _) (by decide)
  have hfactory : Sound letters allowed
      (factory name [.line ("return new " ++ ("_" ++ name) ++ "(...args);")]) :=
    sound_factory hname hallowed
      (.line (callsOnly_named hmodule hclassName hclass rfl (by decide) (stops_own (by decide)))
        .nil)
  have hprototype : Sound letters allowed [Listing.use "proto",
      .line "// eslint-disable-next-line no-unused-vars",
      .line ("const prototype = proto(" ++ ("_" ++ name) ++ ");"), Listing.blank] := by
    have hcomment : CallsOnly letters allowed "// eslint-disable-next-line no-unused-vars" :=
      callsOnly_own [] (List.forall_mem_nil _) (by decide)
    have hblank : CallsOnly letters allowed "" :=
      callsOnly_own [] (List.forall_mem_nil _) (by decide)
    refine .use (by decide) fun hproto => .line hcomment (.line ?_ (.line hblank .nil))
    have hcall : CallsOnly letters allowed "const prototype = proto(" :=
      callsOnly_own ["proto"] (by simpa using hproto) (by decide)
    exact (hcall.append_inert (inert_of_parts hclassName)).append_inert (by decide)
  have hconstructor : Sound letters allowed (constructor ("_" ++ name) spec) :=
    sound_constructor hclassName hclass hspec.set (isInert_typeTable hspec) hspec.args
  have hmembers := sound_members hletters hfunction fun member => memberNamed_of_mem_plan hspec
  refine (((hconstructor.append fun _ => hprototype).append
    fun _ => hmembers).append fun _ => ?_).append fun _ => hfactory
  cases hserial : spec.serial with
  | none => exact .nil
  | some serial => exact sound_serializer hfunction (hspec.serial serial hserial)

/-- **The listing of a named entry is sound**, if the names that its module declares are allowed. -/
theorem sound_methodListing {shape : Properties} {name : String} {spec : MethodSpec}
    (hletters : ∀ c, letters.isStart c = true → letters.isPart c = true)
    (hspec : spec.IsNamed letters shape name) (hfunction : allowed "function")
    (hallowed : allowed name) (hclass : spec.ctr = none → allowed ("_" ++ name)) :
    Sound letters allowed (methodListing shape name spec) := by
  unfold methodListing
  cases hctr : spec.ctr with
  | some proxy => exact sound_proxyModule hletters hspec (hspec.ctr proxy hctr) hallowed
  | none => exact sound_builderModule hletters hspec hfunction hallowed (hclass hctr)

/-! ### What a module declares and imports -/

/-- Some line declares a function of this name. -/
def Declares (lines : List String) (name : String) : Prop :=
  "function " ++ name ++ "(...args) \x7b" ∈ lines ∨
    "export function " ++ name ++ "(...args) \x7b" ∈ lines

/-- Some line imports the name from the source. -/
def Imports (lines : List String) (source name : String) : Prop :=
  ∃ symbols, importLine source symbols ∈ lines ∧ name ∈ symbols

/-- The keyword, a function that the lines declare, or one that they import. -/
def Bound (lines : List String) (name : String) : Prop :=
  name = "function" ∨ Declares lines name ∨ ∃ source, Imports lines source name

section

variable {shape : Properties} {name : String} {spec : MethodSpec}

/-- A module imports what its listing needs. -/
theorem imports_of_need {source? : Option String} {symbols : List String} {symbol : String}
    (h : .need source? symbols ∈ methodListing shape name spec) (hsymbol : symbol ∈ symbols) :
    Imports (moduleLines shape name spec) (source?.getD helperModule) symbol := by
  obtain ⟨listed, hlisted, hmem⟩ := lists_of_need h hsymbol
  refine ⟨listed, List.mem_append_left _ ?_, hmem⟩
  exact List.mem_map.2 ⟨_, Fields.mem_of_get? hlisted, rfl⟩

/-- Some line exports a function of this name. -/
def Exports (lines : List String) (name : String) : Prop :=
  "export function " ++ name ++ "(...args) \x7b" ∈ lines

/-- **Every module exports its factory.** -/
theorem exports_factory : Exports (moduleLines shape name spec) name :=
  mem_moduleLines_of_mem_skeleton (List.mem_append_right _ List.mem_cons_self)

/-- Every module declares its factory. -/
theorem declares_factory : Declares (moduleLines shape name spec) name := .inr exports_factory

/-- The module of a builder declares its constructor. -/
theorem declares_constructor (hctr : spec.ctr = none) :
    Declares (moduleLines shape name spec) ("_" ++ name) := by
  have hproxy : ¬spec.isProxy = true := by simp [MethodSpec.isProxy, hctr]
  refine .inl (mem_moduleLines_of_mem_skeleton (List.mem_append_left _ ?_))
  rw [if_neg hproxy, List.append_assoc]
  exact List.mem_cons_self

/-- The target of a member's call and the source that it is declared with. -/
def target? (member : Member) : Option (String × String) :=
  match member.kind with
  | .delegation pass => some (pass.call, pass.source)
  | .invocation call => some (call.call, call.source)
  | .property _ _ | .extension _ => none

/-- The accessor of a member needs its target. -/
theorem need_of_target {member : Member} {target : String × String}
    (h : target? member = some target) :
    .need (some target.2) [target.1] ∈ memberAccessor member := by
  unfold target? at h
  unfold memberAccessor
  cases hkind : member.kind with
  | delegation pass =>
    rw [hkind] at h
    cases h
    exact List.mem_cons_self
  | invocation call =>
    rw [hkind] at h
    cases h
    exact List.mem_cons_self
  | _ => rw [hkind] at h; cases h

/-- **The functions that a module calls are bound.** In the module of an entry whose names are names
and whose other texts have no parenthesis, whatever is called is the keyword `function`, or declared
or imported by the module itself; and the targets of delegations, invocations and proxies are
imported from their own sources, in import lines of the text. -/
theorem calls_bound (hletters : ∀ c, letters.isStart c = true → letters.isPart c = true)
    (hspec : spec.IsNamed letters shape name) :
    LaidOut shape name spec ∧
      (∀ called ∈ calls letters (methodModule shape name spec),
        Bound (moduleLines shape name spec) called) ∧
      (∀ member ∈ Member.plan spec shape, ∀ target ∈ target? member,
        Imports (moduleLines shape name spec) target.2 target.1) ∧
      ∀ proxy ∈ spec.ctr, Imports (moduleLines shape name spec) proxy.source proxy.call := by
  refine ⟨laidOut shape name spec, ?_, ?_, ?_⟩
  · have hgrants : Grants (Bound (moduleLines shape name spec)) (methodListing shape name spec) :=
      fun source symbols hneed symbol hsymbol => .inr (.inr ⟨_, imports_of_need hneed hsymbol⟩)
    have hsound :
        Sound letters (Bound (moduleLines shape name spec)) (methodListing shape name spec) :=
      sound_methodListing hletters hspec (.inl rfl) (.inr (.inl declares_factory))
        fun hctr => .inr (.inl (declares_constructor hctr))
    have hsteps := hsound hgrants
    rw [methodModule_eq]
    refine callsOnly_lines fun line hline => ?_
    rcases List.mem_append.1 hline with hline | hline
    · obtain ⟨field, hfield, rfl⟩ := List.mem_map.1 hline
      have hinert := inertLedger_ledger (by decide) hsteps field hfield
      exact (Firm.of_inert (inert_importLine hinert.1 hinert.2)).callsOnly
    · rcases List.mem_cons.1 hline with rfl | hline
      · exact callsOnly_own [] (List.forall_mem_nil _) (by decide)
      · exact callsOnly_body hsteps 0 line hline
  · intro member hmember target htarget
    have hproxy : spec.isProxy = false := by
      by_contra h
      rw [Member.plan_of_isProxy (by simpa using h)] at hmember
      cases hmember
    have hctr : spec.ctr = none := by simpa [MethodSpec.isProxy] using hproxy
    have hneed := List.mem_flatMap.2 ⟨member, hmember, need_of_target htarget⟩
    refine imports_of_need (?_ : ListingStep.need (some target.2) [target.1] ∈ _)
      (List.mem_singleton.2 rfl)
    simp only [methodListing, hctr, builderModule, List.mem_append]
    exact .inl (.inl (.inr hneed))
  · intro proxy hproxy
    refine imports_of_need (?_ : ListingStep.need (some proxy.source) [proxy.call] ∈ _)
      (List.mem_singleton.2 rfl)
    rw [methodListing, Option.mem_def.1 hproxy]
    exact List.mem_cons_self

end

/-- A builder with an identifier, a dispatched argument, a delegation and a serialized form. -/
def mark : MethodSpec where
  desc := none
  doc := none
  def? := none
  args := some [.hidden "_id" (some "x"), .positional "data"]
  set := [("size", .num (.int 3))]
  types := [none, some [(.string, .key "url" [])]]
  ext := []
  pass := [("plot", some ⟨"vega", some "./v", none, some "render", none, none⟩)]
  call := []
  serial := some ⟨.wrap (.hidden "_id"), none⟩
  ctr := none

theorem isPart_of_isStart_ascii (c : Char) (h : asciiLetters.isStart c = true) :
    asciiLetters.isPart c = true := by
  unfold Letters.isStart at h
  unfold Letters.isPart
  split at h
  · next hc =>
    rw [if_pos hc]
    simp only [Bool.or_eq_true] at h ⊢
    exact h.imp_left (Or.imp_left fun halpha => by simp [Char.isAlphanum, halpha])
  · cases h

/-- Its delegation is imported, and whatever its module calls is bound. -/
theorem calls_mark : mark.IsNamed asciiLetters [("size", .null)] "mark" ∧
    (∀ called ∈ calls asciiLetters (methodModule [("size", .null)] "mark" mark),
      Bound (moduleLines [("size", .null)] "mark" mark) called) ∧
    Imports (moduleLines [("size", .null)] "mark" mark) "./v" "vega" := by
  have hmark : mark.IsNamed asciiLetters [("size", .null)] "mark" := by
    refine ⟨by decide, ?_, ?_, ?_, ?_, List.forall_mem_nil _, ?_, List.forall_mem_nil _, ?_,
      by simp [mark]⟩
    · simpa using (by decide : Inert "size")
    · rintro _ ⟨⟩ binding hbinding
      simp only [List.mem_cons, List.not_mem_nil, or_false] at hbinding
      rcases hbinding with rfl | rfl
      · exact ⟨by decide, by simpa using (by decide : Inert "x")⟩
      · exact (by decide : Inert "data")
    · exact fun field hfield => List.mem_singleton.1 hfield ▸ ⟨by decide, by decide⟩
    · intro table htable
      simp only [mark, List.mem_cons, List.not_mem_nil, or_false, Option.some.injEq, reduceCtorEq,
        false_or] at htable
      subst htable
      exact ⟨⟨by decide, List.forall_mem_nil _⟩, trivial, trivial⟩
    · intro field hfield
      cases List.mem_singleton.1 hfield
      refine ⟨by decide, ?_⟩
      rintro _ ⟨⟩
      exact ⟨by decide, by simpa using (by decide : Inert "./v"), by simp; decide, by simp⟩
    · rintro _ ⟨⟩
      exact ⟨(by decide : Inert "_id"), by simp⟩
  obtain ⟨-, hcalls, htargets, -⟩ := calls_bound isPart_of_isStart_ascii hmark
  have hplot : (Member.plan mark [("size", .null)])[1]? =
      some ⟨"plot", .delegation ⟨"vega", some "./v", none, some "render", none, none⟩⟩ := rfl
  exact ⟨hmark, hcalls, htargets _ (List.mem_of_getElem? hplot) ("vega", "./v") rfl⟩

end Script

end BuilderApi
