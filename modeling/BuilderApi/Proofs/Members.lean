import BuilderApi.Proofs.Builder.Unknown
import BuilderApi.Proofs.Reference.Written
import BuilderApi.Proofs.Script.Accessors

/-!
# Three readings of one plan

A generated module, a reference page and a running builder each walk the members of an entry on
their own: the module in plan order, the page in the order of the names, the builder by looking a
name up. Here it is shown that they agree on which members there are, and on which schema properties
take many values (`BuilderApi.membersAgree`).

The three are compared where they can be observed: in the lines of the module that open an accessor,
in the marks of the page, and in the failures and results of calls. The entry is any entry, the
shape any shape, and neither is assumed to be free of repeated names.
-/

namespace BuilderApi

open Script Reference

/-! ### A running builder that flattens -/

namespace Session

/-- The accessor stores all its arguments in the property, flattened into one array. -/
def Flattens (s : Session) (b : Builder) (prop : String) : Prop :=
  ∀ args ≠ [], ∀ count, (s.call b prop args).outcome count =
    .ok (.builder (b.put prop (.arr ((Arg.flatten args).map (s.value false)))))

theorem dispatch_none (arg : Arg) : arg.dispatch none = arg := by
  cases arg <;> rfl

/-- An accessor of a schema property flattens when the property is an array, and only then. -/
theorem flattens_iff {s : Session} {b : Builder} {spec : MethodSpec}
    (hspec : s.table.method? b.entry = some spec) {member : Member}
    (hmember : member ∈ Member.plan spec (s.shapes.shape b.entry)) {schema : Json} {array : Bool}
    (hkind : member.kind = .property schema array) : s.Flattens b member.name ↔ array = true := by
  constructor
  · intro h
    -- one null tells the two accessors apart
    have hnull := h [.json .null] (by simp) 0
    rw [call_property hspec hmember hkind] at hnull
    cases array with
    | true => rfl
    | false =>
      simp only [access, Except.ok.injEq, Arg.builder.injEq] at hnull
      have hvalue := congrArg (fun b' : Builder => b'.props.get? member.name) hnull
      simp [Builder.apply, Fields.putAll, Builder.put, dispatch_none, Session.value] at hvalue
  · rintro rfl args hargs count
    rw [call_property hspec hmember hkind]
    cases args with
    | nil => exact absurd rfl hargs
    | cons first rest => simp [access, Builder.apply, Fields.putAll, dispatch_none]

end Session

/-! ### Agreement -/

/-- What the three readings of an entry have in common. -/
structure MembersAgree (shape : Properties) (name lead : String) (spec : MethodSpec) : Prop where
  /-- The plan has no name twice. -/
  distinct : (Member.names spec shape).Nodup
  /-- The accessors that the module opens are at column zero and in plan order, those of the members
  first. -/
  written : (moduleLines shape name spec).filter Listing.opens =
    (Member.plan spec shape).map (fun member => opening member.name (memberParams member)) ++
      if spec.isProxy then [] else serializerOpening spec
  /-- The bullets of the page have the same names. -/
  listed : (Written.bullets (Written.page name (.method spec) shape lead)).Perm
    (Member.names spec shape)
  /-- They are in code-point order. -/
  ordered : (Written.bullets (Written.page name (.method spec) shape lead)).Pairwise (· < ·)
  /-- The anchors of the page are in the order of the bullets. -/
  documented : (Written.anchors (Written.page name (.method spec) shape lead)).map Prod.fst =
    Written.bullets (Written.page name (.method spec) shape lead)
  /-- A builder of this entry knows no other members. -/
  called : ∀ (s : Session) (b : Builder), s.table.method? b.entry = some spec →
    s.shapes.shape b.entry = shape → ∀ method args count,
      ((s.call b method args).outcome count = .error (.unknownMember b.entry method) ↔
        method ∉ Member.names spec shape)
  /-- A schema property is written with a rest parameter exactly if it is documented with one. -/
  rest_iff : ∀ member ∈ Member.plan spec shape, ∀ schema array, member.kind =
    .property schema array → (opening member.name "...value" ∈ moduleLines shape name spec ↔
      (member.name, "...value") ∈ Written.anchors (Written.page name (.method spec) shape lead))
  /-- And it is documented with one exactly if a builder of this entry flattens its arguments. -/
  flattens_iff :
    ∀ member ∈ Member.plan spec shape, ∀ schema array, member.kind = .property schema array →
      ∀ (s : Session) (b : Builder), s.table.method? b.entry = some spec →
      s.shapes.shape b.entry = shape →
      ((member.name, "...value") ∈ Written.anchors (Written.page name (.method spec) shape lead) ↔
        s.Flattens b member.name)
  /-- The module and the page of a proxy have no members, and a builder of this entry knows none. -/
  proxy : spec.isProxy = true → (moduleLines shape name spec).filter Listing.opens = [] ∧
    Written.bullets (Written.page name (.method spec) shape lead) = [] ∧
    Written.anchors (Written.page name (.method spec) shape lead) = [] ∧
    ∀ (s : Session) (b : Builder), s.table.method? b.entry = some spec →
      s.shapes.shape b.entry = shape →
      ∀ method args count, (s.call b method args).outcome count =
        .error (.unknownMember b.entry method)

/-- The parameters of a schema property's accessor. -/
theorem memberParams_eq_rest_iff {member : Member} {schema : Json} {array : Bool}
    (hkind : member.kind = .property schema array) :
    memberParams member = "...value" ↔ array = true := by
  cases array <;> simp [memberParams, hkind, valueParams]

/-- The documented arguments of a schema property. -/
theorem mem_anchors_iff {shape : Properties} {spec : MethodSpec} {member : Member}
    (hmember : member ∈ Member.plan spec shape) (name lead : String) {schema : Json} {array : Bool}
    (hkind : member.kind = .property schema array) :
    (member.name, "...value") ∈ Written.anchors (Written.page name (.method spec) shape lead) ↔
      array = true := by
  rw [Written.anchors_page, List.mem_map]
  have hargs : memberArguments member = "...value" ↔ array = true := by
    cases array <;> simp [memberArguments, hkind]
  rw [← hargs]
  constructor
  · rintro ⟨other, hother, heq⟩
    rw [Prod.mk.injEq] at heq
    rw [← Member.eq_of_mem_of_name_eq (Member.sorted_perm.mem_iff.1 hother) hmember heq.1]
    exact heq.2
  · intro h
    exact ⟨member, Member.sorted_perm.mem_iff.2 hmember, by rw [h]⟩

/-- **Modules, pages and builders agree on the members of an entry.** -/
theorem membersAgree (shape : Properties) (name lead : String) (spec : MethodSpec) :
    (Written.page name (.method spec) shape lead).text =
    Reference.page name (.method spec) shape lead ∧
    methodModule shape name spec = "\n".intercalate (moduleLines shape name spec) ∧
    MembersAgree shape name lead spec := by
  refine ⟨Written.text_page _ _ _ _, methodModule_eq _ _ _, ?_⟩
  constructor
  case distinct => exact Member.nodup_plan spec shape
  case written => exact filter_opens_moduleLines shape name spec
  case listed =>
    rw [Written.bullets_page]
    exact Member.sorted_perm.map Member.name
  case ordered =>
    rw [Written.bullets_page]
    exact Member.pairwise_sorted
  case documented =>
    rw [Written.anchors_page, Written.bullets_page, List.map_map]
    rfl
  case called =>
    rintro s b hspec rfl method args count
    exact Session.callWithin_eq_unknownMember_iff hspec _ count method args
  case rest_iff =>
    intro member hmember schema array hkind
    rw [opening_mem_moduleLines_iff hmember name (by simp) (by simp),
      memberParams_eq_rest_iff hkind,
      mem_anchors_iff hmember name lead hkind]
  case flattens_iff =>
    rintro member hmember schema array hkind s b hspec rfl
    rw [mem_anchors_iff hmember name lead hkind, Session.flattens_iff hspec hmember hkind]
  case proxy =>
    intro h
    have hplan : Member.plan spec shape = [] := Member.plan_of_isProxy h
    have hsorted : Member.sorted spec shape = [] := by rw [Member.sorted, hplan, List.mergeSort_nil]
    refine ⟨?_, ?_, ?_, ?_⟩
    · simp [filter_opens_moduleLines, hplan, h]
    · rw [Written.bullets_page, hsorted, List.map_nil]
    · rw [Written.anchors_page, hsorted, List.map_nil]
    · rintro s b hspec rfl method args count
      exact (Session.callWithin_eq_unknownMember_iff hspec _ count method args).2
        (by simp [Member.names, hplan])

/-- An entry that declares nothing. -/
def bareSpec : MethodSpec := ⟨none, none, none, none, [], [], [], [], [], none, none⟩

/-- A shape with one property, an array. -/
def rowsShape : Properties := [("rows", .obj [("type", .str "array")])]

/-- A session with that entry and that shape. -/
def rowsSession : Session := ⟨[("table", .method bareSpec)], [("table", rowsShape)], []⟩

theorem call_rowsSession :
    rowsSession.table.method? "table" = some bareSpec ∧
    rowsSession.shapes.shape "table" = rowsShape ∧
    rowsSession.Flattens (Builder.empty "table") "rows" ∧
    (rowsSession.call (Builder.empty "table") "cols" []).outcome 0 =
      .error (.unknownMember "table" "cols") := by
  have hspec : rowsSession.table.method? "table" = some bareSpec := rfl
  have hshape : rowsSession.shapes.shape "table" = rowsShape := rfl
  have hplan : Member.plan bareSpec rowsShape =
    [⟨"rows", .property (.obj [("type", .str "array")]) true⟩] := rfl
  have hmember : ⟨"rows", .property (.obj [("type", .str "array")]) true⟩ ∈
      Member.plan bareSpec rowsShape := by
    simp [hplan]
  obtain ⟨-, -, hagree⟩ := membersAgree rowsShape "table" "" bareSpec
  refine ⟨hspec, hshape, ?_, ?_⟩
  · refine (hagree.flattens_iff _ hmember _ _ rfl rowsSession (Builder.empty "table") hspec
      hshape).1 ?_
    exact (mem_anchors_iff hmember "table" "" rfl).2 rfl
  · exact (hagree.called rowsSession (Builder.empty "table") hspec hshape "cols" [] 0).2
      (by simp [Member.names, hplan])

end BuilderApi
