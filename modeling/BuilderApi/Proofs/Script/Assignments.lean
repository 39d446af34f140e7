import BuilderApi.Proofs.Script.Skeleton
import BuilderApi.Proofs.Table.Accepted
import Mathlib.Data.List.DropRight

/-!
# What a module assigns to its prototype

The lines that open accessors assign them to names of the prototype, and a name that is assigned
twice keeps only what is assigned last. The names of the members are different from each other,
since the plan has no name twice; behind them stands the serializer, which is no member and always
has the name `toJSON`. So this is the one name that can be assigned twice, and it is exactly if a
builder that declares a serialized form has a member of that name
(`BuilderApi.Script.assignedNames_nodup_iff`). Then the accessor, although documented, is replaced
by the serializer.
-/

namespace BuilderApi

namespace Script

/-- The name that an accessor is assigned to, in the line that opens it. -/
def assignedName (line : String) : String :=
  String.ofList
    (((frontOfLast '(' line.toList).drop "prototype.".length).rdrop " = function".length)

theorem assignedName_opening (name : String) {params : String} (h : '(' ∉ params.toList) :
    assignedName (opening name params) = name := by
  have hsplit : (opening name params).toList =
      ("prototype.".toList ++ name.toList ++ " = function".toList) ++ '(' ::
      (params.toList ++ ") \x7b".toList) := by
    simp [opening]
  rw [assignedName, hsplit, frontOfLast_append (by simpa using h), List.append_assoc]
  have hlength : " = function".length = " = function".toList.length := rfl
  have hfront : "prototype.".length = "prototype.".toList.length := rfl
  rw [hfront, List.drop_left, hlength, List.rdrop, List.length_append, Nat.add_sub_cancel,
    List.take_left, String.ofList_toList]

variable (shape : Properties) (name : String) (spec : MethodSpec)

/-- The names of the prototype that a module assigns, in order. -/
def assignedNames : List String :=
  ((moduleLines shape name spec).filter Listing.opens).map assignedName

/-- The name of the serializer, if the entry is a builder that declares a serialized form. -/
def serializerNames : List String :=
  if spec.isProxy then [] else spec.serial.toList.map fun _ => "toJSON"

/-- The names that are assigned are those of the members, in plan order, and that of the
serializer. -/
theorem assignedNames_eq :
    assignedNames shape name spec = Member.names spec shape ++ serializerNames spec := by
  have hmembers : (Member.plan spec shape).map (fun member =>
      assignedName (opening member.name (memberParams member))) =
      Member.names spec shape :=
    List.map_congr_left fun member _ => assignedName_opening _ (not_mem_memberParams member)
  rw [assignedNames, filter_opens_moduleLines, List.map_append, List.map_map, ← hmembers]
  refine congrArg (_ ++ ·) ?_
  unfold serializerNames serializerOpening
  cases spec.isProxy with
  | true => rfl
  | false =>
    cases spec.serial with
    | none => rfl
    | some serial =>
      have hparams : '(' ∉ (if serial.key.isFlagged then "flag" else "").toList := by
        split <;> decide
      simp [assignedName_opening "toJSON" hparams]

/-- **Which names are assigned twice.** The text of a module assigns the members of its plan and,
behind them, the serializer. So every name but that of the serializer is assigned once, and all are
exactly if the entry is a proxy, declares no serialized form, or has no member with the name of the
serializer. -/
theorem assignedNames_nodup_iff :
    LaidOut shape name spec ∧
    assignedNames shape name spec = Member.names spec shape ++ serializerNames spec ∧
    (∀ x ∈ assignedNames shape name spec, x ≠ "toJSON" →
      (assignedNames shape name spec).count x = 1) ∧
    ((assignedNames shape name spec).Nodup ↔
      spec.isProxy = true ∨ spec.serial = none ∨ "toJSON" ∉ Member.names spec shape) := by
  have hmembers := Member.nodup_plan spec shape
  rw [assignedNames_eq]
  refine ⟨laidOut shape name spec, rfl, fun x hx hne => ?_, ?_⟩
  · have hserializer : x ∉ serializerNames spec := by
      unfold serializerNames
      split
      · exact List.not_mem_nil
      · simp [hne]
    rw [List.count_append, List.count_eq_zero_of_not_mem hserializer]
    exact List.count_eq_one_of_mem hmembers ((List.mem_append.1 hx).resolve_right hserializer)
  · unfold serializerNames
    cases spec.isProxy with
    | true => simp [hmembers]
    | false =>
      cases spec.serial with
      | none => simp [hmembers]
      | some serial =>
        have hother : (∀ x ∈ Member.names spec shape, ¬x = "toJSON") ↔
            "toJSON" ∉ Member.names spec shape :=
          ⟨fun h hx => h _ hx rfl, fun h x hx heq => h (heq ▸ hx)⟩
        simpa [List.nodup_append, hmembers] using hother

/-- An entry with a serialized form and a member of the serializer's name. -/
def rivalSerializer : MethodSpec :=
  ⟨none, none, none, none, [], [],
    [("toJSON", some ⟨.plain "x", none, none, .replace, [], none⟩)], [], [],
    some ⟨.wrap (.literal "k"), none⟩, none⟩

/-- **The serializer takes the name of a member**: the table is accepted, its builder has a member
`toJSON`, and the module assigns that name twice. -/
theorem serializer_replaces_member :
    Table.Accepted [("m", .method rivalSerializer)] ∧ rivalSerializer.isProxy = false ∧
    "toJSON" ∈ Member.names rivalSerializer [] ∧ ¬(assignedNames [] "m" rivalSerializer).Nodup := by
  have haccepted : Table.Accepted [("m", .method rivalSerializer)] :=
    .inr ⟨.obj [("m", .obj [("key", .str "k"),
      ("ext", .obj [("toJSON", .obj [("arg", .arr [.str "x"])])])])], rfl⟩
  have hnames : Member.names rivalSerializer [] = ["toJSON"] := rfl
  refine ⟨haccepted, rfl, by simp [hnames], ?_⟩
  rw [assignedNames_eq, hnames]
  decide

end Script

end BuilderApi
