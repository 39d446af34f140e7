import BuilderApi.Proofs.Builder.Standing
import BuilderApi.Proofs.Json.Rearranged
import Mathlib.Data.List.Lattice

/-!
# What accessors write

An accessor of a schema property or an extension either reads its property, or makes a list of
assignments: its property first, if it has one, and then the fixed ones. The six ways to do so
differ in the value of the first assignment alone, so a call is described once, by its assignments
(`BuilderApi.Session.outcome_call`). Their names are the **footprint** of the accessor
(`BuilderApi.Member.footprint`), and their values depend on the receiver through the one property
that the accessor has (`BuilderApi.Session.assignments_congr`).

Both halves of the main statement (`BuilderApi.Session.accessors_keep_to_footprint`) come from
there. Outside the footprint nothing changes. And of two accessors with disjoint footprints neither
changes what the other one depends on, so their assignments are the same in either order, and lists
of assignments without a common name may be swapped, up to the places of new names. The serialized
forms see these places and nothing else.

The receiver is any builder whose entry has the accessors; how it was made does not matter.
-/

namespace BuilderApi

/-! ### Footprints -/

/-- Does a call of the extension with these arguments only read? -/
def Extension.reads (ext : Extension) (args : List Arg) : Bool :=
  match ext.binding with
  | .copy => false
  | .plain _ | .spread _ => args.isEmpty
  | .merge _ _ => ext.pre.isNone && args.isEmpty

/-- What an extension merges: its literal and the arguments of the call, each dispatched. -/
def Extension.given (ext : Extension) (args : List Arg) : List Arg :=
  (ext.pre.toList.map Arg.json ++ args).map (Arg.dispatch ext.types)

namespace Member

/-- The property that an accessor reads or writes, if it has one. -/
def target? (member : Member) : Option String :=
  match member.kind with
  | .property _ _ => some member.name
  | .extension ext => ext.binding.prop?
  | .delegation _ | .invocation _ => none

/-- The fixed assignments that an accessor makes. -/
def set (member : Member) : Fields Json :=
  match member.kind with
  | .extension ext => ext.set
  | .property _ _ | .delegation _ | .invocation _ => []

/-- **The footprint of an accessor**: its property, and those of its fixed assignments. -/
def footprint (member : Member) : List String := member.target?.toList ++ Fields.names member.set

/-- Does a call of the accessor with these arguments only read? -/
def reads (member : Member) (args : List Arg) : Bool :=
  match member.kind with
  | .property _ _ => args.isEmpty
  | .extension ext => ext.reads args
  | .delegation _ | .invocation _ => false

end Member

namespace Session

variable {s : Session} {b b' out : Builder} {member : Member} {args : List Arg}

/-! ### Assignments of a call -/

/-- The value of an accessor that takes one argument, or all of them flattened. -/
def accessed (s : Session) (spread : Bool) (types : Option TypeTable) (args : List Arg) : Json :=
  if spread then .arr ((Arg.flatten args).map fun arg => s.value false (arg.dispatch types))
  else s.value false ((args.headD (.json .null)).dispatch types)

/-- The value that a call of the accessor leaves in its property. -/
def written (s : Session) (b : Builder) (prop : String) (member : Member)
    (args : List Arg) : Json :=
  match member.kind with
  | .property _ array => s.accessed array none args
  | .extension ext =>
    match ext.binding with
    | .plain _ => s.accessed false ext.types args
    | .spread _ => s.accessed true ext.types args
    | .merge accretion _ => s.stored b prop ext.policy accretion (ext.given args)
    | .copy => .null
  | .delegation _ | .invocation _ => .null

/-- **The assignments that a call of the accessor makes**, in their order. -/
def assignments (s : Session) (b : Builder) (member : Member) (args : List Arg) : Fields Json :=
  member.target?.toList.map (fun prop => (prop, s.written b prop member args)) ++ member.set

/-- A call assigns to the footprint of the member, whatever its arguments. -/
theorem names_assignments (s : Session) (b : Builder) (member : Member) (args : List Arg) :
    Fields.names (s.assignments b member args) = member.footprint := by
  simp [assignments, Fields.names, Member.footprint, Function.comp_def]

/-- What is stored depends on what stands under the property. -/
theorem stored_congr {prop : String} (h : b.get? prop = b'.get? prop) (policy : MergePolicy)
    (accretion : Accretion) (values : List Arg) :
    s.stored b prop policy accretion values = s.stored b' prop policy accretion values := by
  unfold stored standing
  rw [h]

/-- **Assignments depend on the receiver through the value of the accessor's property.** -/
theorem assignments_congr (h : member.target?.bind b.get? = member.target?.bind b'.get?)
    (args : List Arg) :
    s.assignments b member args = s.assignments b' member args := by
  unfold assignments
  cases htarget : member.target? with
  | none => rfl
  | some prop =>
    have hprop : b.get? prop = b'.get? prop := by simpa [htarget] using h
    have hwritten : s.written b prop member args = s.written b' prop member args := by
      unfold written
      split
      · rfl
      · split
        · rfl
        · rfl
        · exact stored_congr hprop _ _ _
        · rfl
      · rfl
      · rfl
    rw [Option.toList_some, List.map_singleton, List.map_singleton, hwritten]

/-! ### What a call does -/

theorem access_eq (s : Session) (b : Builder) (prop : String) (spread : Bool)
    (types : Option TypeTable) (set : Fields Json) (args : List Arg) :
    s.access b prop spread types set args =
      if args.isEmpty then .json (b.read prop)
      else .builder (b.apply ((prop, s.accessed spread types args) :: set)) := by
  cases args <;> rfl

/-- What a call of an accessor gives. -/
def effect (s : Session) (b : Builder) (member : Member) (args : List Arg) : Arg :=
  if member.reads args then .json ((member.target?.bind b.get?).getD .null)
  else .builder (b.apply (s.assignments b member args))

theorem access_eq_effect {schema : Json} {array : Bool}
    (hkind : member.kind = .property schema array) :
    s.access b member.name array none [] args = s.effect b member args := by
  simp only [access_eq, effect, assignments, written, Member.reads, Member.target?,
    Member.set, hkind]
  rfl

theorem extend_eq_effect {ext : Extension} (hkind : member.kind = .extension ext) :
    s.extend b ext args = s.effect b member args := by
  unfold extend
  cases hbinding : ext.binding with
  | copy =>
    simp only [effect, assignments, Member.reads, Extension.reads, Member.target?, Member.set,
      hkind, hbinding, ExtBinding.prop?]
    rfl
  | plain prop | spread prop =>
    simp only [access_eq, effect, assignments, written, Member.reads, Extension.reads,
      Member.target?, Member.set, hkind,
      hbinding, ExtBinding.prop?]
    rfl
  | merge accretion prop =>
    simp only [merging, effect, assignments, written, Member.reads, Extension.reads, Member.target?,
      Member.set, hkind, hbinding, ExtBinding.prop?]
    rfl

/-- The entry of the builder has the accessor. -/
def Offers (s : Session) (b : Builder) (member : Member) : Prop :=
  ∃ spec, s.table.builder b.entry = .ok spec ∧ member ∈ Member.plan spec (s.shapes.shape b.entry) ∧
    member.kind.isAccessor = true

theorem Offers.of_entry_eq (h : s.Offers b member) (hentry : b'.entry = b.entry) :
    s.Offers b' member := by
  unfold Offers
  rwa [hentry]

/-- **A call of an accessor reads its property or makes its assignments**, whatever was counted. -/
theorem outcome_call (h : s.Offers b member) (args : List Arg) (count : Nat) :
    (s.call b member.name args).outcome count = .ok (s.effect b member args) := by
  obtain ⟨spec, hspec, hmember, haccessor⟩ := h
  cases hkind : member.kind with
  | property schema array =>
    rw [call_property (method?_of_builder hspec) hmember hkind, access_eq_effect hkind]
  | extension ext => rw [call_extension hspec hmember hkind, extend_eq_effect hkind]
  | delegation pass => simp [hkind, MemberKind.isAccessor] at haccessor
  | invocation invocation => simp [hkind, MemberKind.isAccessor] at haccessor

/-- The call gives this builder, whatever was counted. -/
def Gives (s : Session) (b : Builder) (member : Member) (args : List Arg) (out : Builder) : Prop :=
  ∀ count, (s.call b member.name args).outcome count = .ok (.builder out)

/-- A call that writes gives the builder with the assignments applied. -/
theorem gives_of_not_reads (h : s.Offers b member) (hreads : member.reads args = false) :
    s.Gives b member args (b.apply (s.assignments b member args)) := by
  intro count
  rw [outcome_call h, effect, if_neg (by simp [hreads])]

/-- A call that gives a builder makes its assignments. -/
theorem eq_apply_of_outcome (h : s.Offers b member) {count : Nat}
    (hout : (s.call b member.name args).outcome count = .ok (.builder out)) :
    member.reads args = false ∧ out = b.apply (s.assignments b member args) := by
  rw [outcome_call h, effect] at hout
  split at hout
  · cases hout
  · next hreads =>
    cases hout
    exact ⟨by simpa using hreads, rfl⟩

end Session

namespace Builder

variable {b b' : Builder} {set : Fields Json} {prop : String}

/-- Assignments leave other properties alone. -/
theorem get?_apply_of_not_mem (h : prop ∉ Fields.names set) :
    (b.apply set).get? prop = b.get? prop := by
  rw [get?, apply, Fields.get?_putAll, Fields.get?_reverse_eq_none_iff.2 h, Option.none_or]
  rfl

/-- What is assigned does not depend on what was there. -/
theorem get?_apply_of_mem (h : prop ∈ Fields.names set) :
    (b.apply set).get? prop = (b'.apply set).get? prop := by
  obtain ⟨value, hvalue⟩ := Fields.exists_get?_reverse h
  rw [get?, get?, apply, apply, Fields.get?_putAll, Fields.get?_putAll, hvalue, Option.some_or,
    Option.some_or]

/-- Assignments without a common name may be made in either order. -/
theorem apply_apply_rearranges (b : Builder) {more : Fields Json}
    (hdisjoint : (Fields.names set).Disjoint (Fields.names more)) :
    ((b.apply set).apply more).props.Rearranges Eq ((b.apply more).apply set).props :=
  Fields.putAll_putAll_rearranges (fun _ => rfl) b.props hdisjoint

/-! ### Serialized forms of builders that differ in arrangement -/

theorem shaped_rearranges (hhidden : b.hidden = b'.hidden) (hprops : b.props.Rearranges Eq b'.props)
    (keyed : Bool) (key : KeyShape) : (b.shaped keyed key).Rearranges (b'.shaped keyed key) := by
  have hobj : (Json.obj b.props).Rearranges (.obj b'.props) := by
    refine .obj (hprops.mono ?_)
    rintro value _ rfl
    exact .refl value
  -- what a reference stands for is read from the hidden fields
  have hname : ∀ ref, b.keyName ref = b'.keyName ref := by
    intro ref
    simp only [keyName, hidden?, hhidden]
  have hvalue : ∀ ref, b.keyValue ref = b'.keyValue ref := by
    intro ref
    simp only [keyValue, hidden?, hhidden]
  induction key with
  | plain => exact hobj
  | wrap ref =>
    rw [shaped, shaped, hname]
    exact .obj (.cons hobj .nil)
  | fields refs =>
    simp only [shaped, hvalue]
    exact .refl _
  | flagged unset set ihUnset ihSet =>
    cases keyed with
    | true => exact ihSet
    | false => exact ihUnset

/-- **Serialized forms see the arrangement of the properties and nothing else.** -/
theorem serialize_rearranges (hhidden : b.hidden = b'.hidden)
    (hprops : b.props.Rearranges Eq b'.props) (keyed : Bool)
    (serial : Option Serialization) :
    (b.serialize keyed serial).Rearranges (b'.serialize keyed serial) := by
  cases serial with
  | none => exact shaped_rearranges hhidden hprops keyed .plain
  | some serial =>
    have hshaped := shaped_rearranges hhidden hprops keyed serial.key
    unfold serialize
    cases hnest : serial.nest with
    | none => simpa only [hnest] using hshaped
    | some nest => simpa only [hnest] using hshaped.nest nest.keys nest.rest

end Builder

namespace Session

variable {s : Session} {b out : Builder} {member : Member} {args : List Arg}

/-! ### Calls keep to their footprints -/

/-- What a call of an accessor does to its receiver when it gives a builder. -/
structure KeepsTo (s : Session) (b : Builder) (member : Member) (args : List Arg)
    (out : Builder) : Prop where
  /-- The entry is the same. -/
  entry : out.entry = b.entry
  /-- The hidden fields are the same. -/
  hidden : out.hidden = b.hidden
  /-- A property outside the footprint keeps its value. -/
  kept : ∀ prop ∉ member.footprint, out.get? prop = b.get? prop
  /-- The names that were there keep their order, and behind them come the new ones of the
  footprint. -/
  names : Fields.names out.props = Fields.names b.props ++
    (member.footprint.removeAll (Fields.names b.props)).eraseDups
  /-- On a builder with the same value of the accessor's property the call writes the same. -/
  written : ∀ b', s.Offers b' member → member.target?.bind b'.get? = member.target?.bind b.get? →
    ∃ out', s.Gives b' member args out' ∧ ∀ prop ∈ member.footprint, out'.get? prop = out.get? prop

/-- Whatever a call gives keeps to the footprint. -/
theorem keepsTo_of_outcome (h : s.Offers b member) {count : Nat}
    (hout : (s.call b member.name args).outcome count = .ok (.builder out)) :
    s.KeepsTo b member args out := by
  obtain ⟨hreads, rfl⟩ := eq_apply_of_outcome h hout
  have hnames := names_assignments s b member args
  refine ⟨rfl, rfl, fun prop hprop => ?_, ?_, fun b' hb' hsame => ?_⟩
  · exact Builder.get?_apply_of_not_mem (hnames ▸ hprop)
  · rw [← hnames]
    exact Fields.names_putAll_eq_append _ _
  · refine ⟨_, gives_of_not_reads hb' hreads, fun prop hprop => ?_⟩
    rw [assignments_congr hsame]
    exact Builder.get?_apply_of_mem (hnames ▸ hprop)

/-- A call leaves the property of an accessor alone that is outside its footprint. -/
theorem bind_target?_apply {other : Member} (hdisjoint : member.footprint.Disjoint other.footprint)
    (b : Builder) (args : List Arg) :
    other.target?.bind (b.apply (s.assignments b member args)).get? =
      other.target?.bind b.get? := by
  cases htarget : other.target? with
  | none => rfl
  | some prop =>
    have hprop : prop ∈ other.footprint := by simp [Member.footprint, htarget]
    exact Builder.get?_apply_of_not_mem (names_assignments s b member args ▸ fun hmem =>
      hdisjoint hmem hprop)

/-- Builders that differ at most in the order of their properties. -/
structure Agree (s : Session) (b b' : Builder) : Prop where
  /-- The entry is the same. -/
  entry : b.entry = b'.entry
  /-- The hidden fields are the same. -/
  hidden : b.hidden = b'.hidden
  /-- The properties are the same as a finite map. -/
  props : ∀ prop, b.get? prop = b'.get? prop
  /-- The serialized forms are the same up to the order of members. -/
  json : ∀ keyed, (s.toJson b keyed).Rearranges (s.toJson b' keyed)

/-- Builders that differ in the order of their properties agree. -/
theorem agree_of_rearranges {b b' : Builder} (hentry : b.entry = b'.entry)
    (hhidden : b.hidden = b'.hidden) (hprops : b.props.Rearranges Eq b'.props) : s.Agree b b' where
  entry := hentry
  hidden := hhidden
  props := hprops.get?_eq
  json keyed := by
    rw [toJson, toJson, hentry]
    exact Builder.serialize_rearranges hhidden hprops keyed _

/-- **Accessors keep to their footprints**: a call that gives a builder changes nothing outside of
its footprint, and what it writes depends on the receiver through the property of the accessor
alone; so calls with disjoint footprints may be made in either order. -/
theorem accessors_keep_to_footprint (s : Session) (b : Builder) :
    (∀ member args out count, s.Offers b member →
      (s.call b member.name args).outcome count = .ok (.builder out) →
      s.KeepsTo b member args out) ∧
    ∀ first args out second args' out' count count', s.Offers b first → s.Offers b second →
      first.footprint.Disjoint second.footprint →
      (s.call b first.name args).outcome count = .ok (.builder out) →
      (s.call b second.name args').outcome count' = .ok (.builder out') →
      ∃ both both', s.Gives out second args' both ∧ s.Gives out' first args both' ∧
        s.Agree both both' := by
  refine ⟨fun member args out count h hout => keepsTo_of_outcome h hout, ?_⟩
  intro first args out second args' out' count count' hfirst hsecond hdisjoint hout hout'
  obtain ⟨hwrites, rfl⟩ := eq_apply_of_outcome hfirst hout
  obtain ⟨hwrites', rfl⟩ := eq_apply_of_outcome hsecond hout'
  refine ⟨_, _, gives_of_not_reads (hsecond.of_entry_eq rfl) hwrites',
    gives_of_not_reads (hfirst.of_entry_eq rfl) hwrites,
    ?_⟩
  -- neither call changes what the other one assigns
  rw [assignments_congr (bind_target?_apply hdisjoint b args),
    assignments_congr (bind_target?_apply hdisjoint.symm b args')]
  refine agree_of_rearranges rfl rfl (b.apply_apply_rearranges ?_)
  rwa [names_assignments, names_assignments]

/-- An extension that merges into one property and sets another one. -/
def encodeExtension : Extension :=
  ⟨.merge .object "encoding", none, none, .concat, [("kind", .str "plot")], none⟩

/-- An entry with that extension, which keeps two properties at the top when it is serialized. -/
def plotSpec : MethodSpec :=
  { (default : MethodSpec) with
    ext := [("encode", some encodeExtension)]
    serial := some ⟨.plain, some ⟨["encoding", "kind"], "rest"⟩⟩ }

/-- A session with that entry and a property beside the extension. -/
def plotSession : Session := ⟨[("plot", .method plotSpec)], [("plot", [("width", .null)])], []⟩

theorem offers_encode : plotSession.Offers (.empty "plot") ⟨"encode", .extension encodeExtension⟩ :=
  ⟨plotSpec, rfl, .tail _ (.head _), rfl⟩

theorem offers_width : plotSession.Offers (.empty "plot") ⟨"width", .property .null false⟩ :=
  ⟨plotSpec, rfl, .head _, rfl⟩

/-- The extension and the property write in either order. -/
theorem accessors_keep_to_footprint_plotSession :
    let encodeArgs := [Arg.json (.obj [("x", .null), ("y", .bool true)])]
    let widthArgs := [Arg.json (.str "wide")]
    ∃ out out', plotSession.KeepsTo (.empty "plot") ⟨"encode",
      .extension encodeExtension⟩ encodeArgs out ∧
      plotSession.KeepsTo (.empty "plot") ⟨"width", .property .null false⟩ widthArgs out' ∧
      ∃ both both', plotSession.Gives out ⟨"width", .property .null false⟩ widthArgs both ∧
        plotSession.Gives out' ⟨"encode", .extension encodeExtension⟩ encodeArgs both' ∧
        plotSession.Agree both both' := by
  intro encodeArgs widthArgs
  have hout := outcome_call offers_encode encodeArgs 0
  have hout' := outcome_call offers_width widthArgs 0
  have hdisjoint : (["encoding", "kind"] : List String).Disjoint ["width"] := by simp
  obtain ⟨hkeeps, hcommute⟩ := accessors_keep_to_footprint plotSession (.empty "plot")
  exact ⟨_, _, hkeeps _ _ _ _ offers_encode hout, hkeeps _ _ _ _ offers_width hout',
    hcommute _ _ _ _ _ _ _ _ offers_encode offers_width hdisjoint hout hout'⟩

end Session

end BuilderApi
