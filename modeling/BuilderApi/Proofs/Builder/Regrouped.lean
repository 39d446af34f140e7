import BuilderApi.Proofs.Builder.Standing

/-!
# Fields that move one level down

A nest keeps the fields that it names at the top of a serialized form and moves the others into an
object of their own. Those that move are all found there, in their order, and nothing is added; if
none moves, no object is (`BuilderApi.Json.Regrouped`).

It may name the object like a field that it keeps, and no table is refused for that. Where both
occur in one form, the object takes the place of the field, and the value of the field is lost
(`BuilderApi.Session.nest_loses_field`). This is the one way to lose something
(`BuilderApi.Session.toJson_lossless_iff`).
-/

namespace BuilderApi

namespace Json

variable {keys : List String} {rest : String} {members out : Fields Json}

/-- The fields that stay where they are. -/
def inside (keys : List String) (members : Fields Json) : Fields Json :=
  members.filter fun field => keys.contains field.1

/-- The fields that move down. -/
def outside (keys : List String) (members : Fields Json) : Fields Json :=
  members.filter fun field => !keys.contains field.1

theorem mem_inside_iff {field : String × Json} :
    field ∈ inside keys members ↔ field ∈ members ∧ field.1 ∈ keys := by
  simp [inside]

theorem mem_outside_iff {field : String × Json} :
    field ∈ outside keys members ↔ field ∈ members ∧ field.1 ∉ keys := by
  simp [outside]

theorem get?_inside {name : String} (h : name ∈ keys) :
    (inside keys members).get? name = members.get? name := by
  rw [inside, Fields.get?_filter keys.contains, if_pos (by simpa using h)]

/-- Fields behind a nest, of which one may be lost: a field that stays, and has the name of the
object that the others go to. -/
structure Regrouped (keys : List String) (rest : String) (members out : Fields Json) : Prop where
  /-- The other fields that stay are found at the top. -/
  kept : ∀ name ∈ keys, name ≠ rest → out.get? name = members.get? name
  /-- The fields that move are found in the object, which has no others, in their order. -/
  moved : (∃ field ∈ members, field.1 ∉ keys) → ∃ inner, out.get? rest = some (.obj inner) ∧
    inner.Sublist members ∧ ∀ field, field ∈ inner ↔ field ∈ members ∧ field.1 ∉ keys
  /-- At the top there are only fields that stay, and the object for those that move. -/
  top : ∀ field ∈ out, field ∈ members ∧ field.1 ∈ keys ∨ field.1 = rest ∧
    ∃ other ∈ members, other.1 ∉ keys
  /-- The fields that stay keep their order. -/
  order : (out.filter fun field => field.1 ≠ rest).Sublist members
  /-- If none moves, nothing changes. -/
  absent : (∀ field ∈ members, field.1 ∈ keys) → out = members

/-- Fields behind a nest, of which none is lost. -/
structure Lossless (keys : List String) (rest : String) (members out : Fields Json) : Prop
    extends Regrouped keys rest members out where
  /-- A field that stays is found at the top also if it has the name of the object that the others
  go to. -/
  kept_rest : rest ∈ keys → ∀ value, members.get? rest = some value → out.get? rest = some value

/-- A nest under whose name there is a field that stays, while others move. -/
def Clashes (keys : List String) (rest : String) (members : Fields Json) : Prop :=
  rest ∈ keys ∧ outside keys members ≠ [] ∧
    ∃ value, members.get? rest = some value ∧ value ≠ .obj (outside keys members)

theorem outside_eq_nil_iff : outside keys members = [] ↔ ∀ field ∈ members, field.1 ∈ keys := by
  simp [outside, List.filter_eq_nil_iff]

/-- If all fields stay, the object stays as it is. -/
theorem nest_of_outside_nil (h : outside keys members = []) :
    nest keys rest (.obj members) = .obj members := by
  have hinside : inside keys members = members :=
    List.filter_eq_self.2 fun field hfield => by simpa using outside_eq_nil_iff.1 h field hfield
  unfold nest
  dsimp only
  rw [← outside, ← inside, h, hinside]
  rfl

/-- Otherwise the object for those that move is put behind those that stay, or among them. -/
theorem nest_of_outside_ne_nil (h : outside keys members ≠ []) :
    nest keys rest (.obj members) =
      .obj ((inside keys members).put rest (.obj (outside keys members))) := by
  unfold nest
  dsimp only
  rw [← outside, ← inside, if_neg (by simpa using h)]

theorem lossless_of_outside_nil (h : outside keys members = []) :
    Lossless keys rest members members := by
  have hkeys := outside_eq_nil_iff.1 h
  exact
    { kept := fun _ _ _ => rfl
      moved := fun ⟨field, hfield, hmoves⟩ => absurd (hkeys field hfield) hmoves
      top := fun field hfield => .inl ⟨hfield, hkeys field hfield⟩
      order := List.filter_sublist
      absent := fun _ => rfl
      kept_rest := fun _ _ hvalue => hvalue }

theorem regrouped_of_outside_ne_nil (h : outside keys members ≠ []) :
    Regrouped keys rest members ((inside keys members).put rest (.obj (outside keys members))) where
  kept name hname hne := by rw [Fields.get?_put, if_neg (Ne.symm hne), get?_inside hname]
  moved _ := ⟨outside keys members, by
    rw [Fields.get?_put, if_pos rfl], List.filter_sublist, fun _ => mem_outside_iff⟩
  top field hfield := by
    rcases Fields.mem_put hfield with hfield | rfl
    · exact .inl (mem_inside_iff.1 hfield)
    · have hmoves : ∃ other ∈ members, other.1 ∉ keys := by simpa using mt outside_eq_nil_iff.2 h
      exact .inr ⟨rfl, hmoves⟩
  order := by
    rw [Fields.filter_put]
    exact List.filter_sublist.trans List.filter_sublist
  absent hkeys := absurd (outside_eq_nil_iff.2 hkeys) h

/-- **A nest regroups**, and it loses nothing unless a field that stays has the name of the object
that others go to. -/
theorem exists_nest_regrouped (keys : List String) (rest : String) (members : Fields Json) :
    ∃ out, nest keys rest (.obj members) = .obj out ∧ Regrouped keys rest members out ∧
      (Lossless keys rest members out ↔ ¬Clashes keys rest members) := by
  by_cases hnil : outside keys members = []
  · have hlossless := @lossless_of_outside_nil keys rest members hnil
    exact ⟨members, nest_of_outside_nil hnil, hlossless.toRegrouped,
      iff_of_true hlossless fun hclash => hclash.2.1 hnil⟩
  · have hregrouped := @regrouped_of_outside_ne_nil keys rest members hnil
    refine ⟨_, nest_of_outside_ne_nil hnil, hregrouped, fun hlossless hclash => ?_, fun hclash =>
      ⟨hregrouped, ?_⟩⟩
    · -- what is found under the name is the object, and not the field
      obtain ⟨hrest, -, value, hvalue, hne⟩ := hclash
      have hfound := hlossless.kept_rest hrest value hvalue
      rw [Fields.get?_put, if_pos rfl] at hfound
      exact hne (Option.some.inj hfound).symm
    · intro hrest value hvalue
      have hsame : value = .obj (outside keys members) := by
        by_contra hne
        exact hclash ⟨hrest, hnil, value, hvalue, hne⟩
      rw [Fields.get?_put, if_pos rfl, hsame]

end Json

namespace Session

variable {s : Session} {b : Builder}

/-- **Nothing is lost in a nest but a field that stays under the name of the object that others go
to.** What a nest is given is an object, whatever the shape of the serialized form, and so is what
it gives, in which the fields are regrouped. -/
theorem toJson_lossless_iff {spec : MethodSpec} {serial : Serialization} {nest : Nest}
    (hspec : s.table.method? b.entry = some spec) (hserial : spec.serial = some serial)
    (hnest : serial.nest = some nest) (keyed : Bool) :
    ∃ members out, b.shaped keyed serial.key = .obj members ∧ s.toJson b keyed = .obj out ∧
      Json.Regrouped nest.keys nest.rest members out ∧
      (Json.Lossless nest.keys nest.rest members out ↔
        ¬Json.Clashes nest.keys nest.rest members) := by
  obtain ⟨members, hmembers⟩ := b.exists_shaped keyed serial.key
  obtain ⟨out, hout, hregrouped, hlossless⟩ :=
    Json.exists_nest_regrouped nest.keys nest.rest members
  refine ⟨members, out, hmembers, ?_, hregrouped, hlossless⟩
  rw [toJson, hspec, Option.bind_some, hserial, Builder.serialize]
  simp only [hnest, hmembers, hout]

/-- An entry that keeps the address of a source at the top, and moves the rest into its format. -/
def sourceSpec : MethodSpec :=
  { (default : MethodSpec) with serial := some ⟨.plain, some ⟨["url"], "format"⟩⟩ }

def sourceSession : Session := ⟨[("source", .method sourceSpec)], [], []⟩

def sourceBuilder : Builder :=
  ⟨"source", [("type", .str "csv"), ("url", .str "a.csv"), ("parse", .str "auto")], []⟩

/-- The fields that move keep their order. -/
theorem toJson_lossless_iff_sourceBuilder :
    sourceSession.table.method? sourceBuilder.entry = some sourceSpec ∧
    sourceSession.toJson sourceBuilder false =
      .obj [("url", .str "a.csv"),
        ("format", .obj [("type", .str "csv"), ("parse", .str "auto")])] ∧
    ∃ members out, sourceBuilder.shaped false .plain = .obj members ∧
      sourceSession.toJson sourceBuilder false = .obj out ∧
      Json.Lossless ["url"] "format" members out := by
  have hspec : sourceSession.table.method? sourceBuilder.entry = some sourceSpec := rfl
  obtain ⟨members, out, hmembers, hout, -, hlossless⟩ := toJson_lossless_iff hspec rfl rfl false
  refine ⟨hspec, rfl, members, out, hmembers, hout, hlossless.2 fun hclash => ?_⟩
  exact absurd hclash.1 (by decide)

/-- The same entry, if it keeps a field that is called like the object for the others. -/
def formatSpec : MethodSpec :=
  { (default : MethodSpec) with serial := some ⟨.plain, some ⟨["format"], "format"⟩⟩ }

/-- **A field that stays is replaced by the object that the others go to**: the table is accepted, a
builder of it is constructed, and nothing of the field is left. -/
theorem nest_loses_field :
    let s : Session := ⟨[("source", .method formatSpec)], [], []⟩
    let format : Json := .obj [("type", .str "csv"), ("url", .str "a.csv")]
    let given : Fields Json := [("format", format), ("url", .str "a.csv")]
    let b : Builder := ⟨"source", given, []⟩
    s.table.Accepted ∧ (s.construct "source" [.json (.obj given)]).outcome 0 = .ok b ∧
      (∀ keyed, s.toJson b keyed = .obj [("format", .obj [("url", .str "a.csv")])]) ∧
      ¬Json.Lossless ["format"] "format" given [("format", .obj [("url", .str "a.csv")])] := by
  intro s format given b
  have hbuilt : (s.construct "source" [.json (.obj given)]).outcome 0 = .ok b := by
    rw [outcome_construct, Table.chain, Table.follow_of_target rfl rfl]
    rfl
  refine ⟨.inr ⟨.obj [("source",
    .obj [("nest", .obj [("keys", .arr [.str "format"]), ("rest", .str "format")])])], rfl⟩,
    hbuilt, fun keyed => by cases keyed <;> rfl, fun hlossless => ?_⟩
  have hfound := hlossless.kept_rest (by simp) _ rfl
  simp [Fields.get?, format] at hfound

end Session

end BuilderApi
