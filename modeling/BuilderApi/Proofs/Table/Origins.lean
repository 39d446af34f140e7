import BuilderApi.Proofs.Json.Keyed
import BuilderApi.Table.Validation

/-!
# A table as text and as a value

A table is read from a text, or from the value that a text holds. The two readings agree
(`BuilderApi.Table.ofText_agrees_ofJson`): they make the same table or refuse it for the same
reason, except that a record written as a list that is too long is refused in two wordings, at the
same place.

A document of a text and the document of its value differ in one thing, as long as no name is
repeated: the text may say what keeps a reader from passing over a member. So a document is said to
**hold** a value (`BuilderApi.Document.Holds`), and two readers **read alike**
(`BuilderApi.ReadsAlike`) when they agree on every document and its value. Lists, maps and records
of readers that read alike read alike.
-/

namespace BuilderApi

/-! ### Documents that hold a value -/

namespace Document

mutual

/-- Does no object of the document repeat a name? -/
def isDistinct : Document → Bool
  | .arr items _ => itemsDistinct items
  | .obj members _ => decide (members.map NamedPart.name).Nodup && membersDistinct members
  | _ => true

/-- Does no object in the items repeat a name? -/
def itemsDistinct : List Document → Bool
  | [] => true
  | item :: rest => isDistinct item && itemsDistinct rest

/-- Does no object in the members repeat a name? -/
def membersDistinct : List (NamedPart Document) → Bool
  | [] => true
  | ⟨_, part, _⟩ :: rest => isDistinct part && membersDistinct rest

end

mutual

/-- The document holds the value: nothing is broken, and no name is repeated. -/
inductive Holds : Document → Json → Prop
  | null : Holds .null .null
  | bool (b : Bool) : Holds (.bool b) (.bool b)
  | num (n : Number) : Holds (.num n) (.num n)
  | str (s : String) : Holds (.str s) (.str s)
  | arr {items : List Document} {values : List Json} (h : ItemsHold items values) :
      Holds (.arr items .closed) (.arr values)
  | obj {members : List (NamedPart Document)} {fields : List (String × Json)}
      (h : MembersHold members fields)
      (hnames : (Fields.names fields).Nodup) : Holds (.obj members .closed) (.obj fields)

/-- The items hold the values, one by one. -/
inductive ItemsHold : List Document → List Json → Prop
  | nil : ItemsHold [] []
  | cons {item : Document} {value : Json} {items : List Document} {values : List Json}
      (h : Holds item value) (hrest : ItemsHold items values) :
      ItemsHold (item :: items) (value :: values)

/-- The members hold the fields, one by one. -/
inductive MembersHold : List (NamedPart Document) → List (String × Json) → Prop
  | nil : MembersHold [] []
  | cons {name : String} {part : Document} {obstacle : Option Fault} {value : Json}
      {members : List (NamedPart Document)} {fields : List (String × Json)}
      (h : Holds part value) (hrest : MembersHold members fields) :
      MembersHold (⟨name, part, obstacle⟩ :: members) ((name, value) :: fields)

end

/-- Only a closed list passes its end. -/
theorem check_eq_ok {ending : ListEnd} {u : Unit} (h : ending.check = .ok u) :
    ending = .closed := by
  cases ending with
  | closed => rfl
  | fault f => cases h

/-- Only a closed object passes its end. -/
theorem objectCheck_eq_ok {ending : ObjectEnd} {u : Unit} (h : ending.check = .ok u) :
    ending = .closed := by
  cases ending with
  | closed => rfl
  | _ => cases h

mutual

/-- A document whose value can be read holds it. -/
theorem holds_of_value : ∀ {document : Document} {value : Json}, document.isDistinct = true →
    document.value = .ok value → Holds document value
  | .null, _, _, h => by cases h; exact .null
  | .bool b, _, _, h => by cases h; exact .bool b
  | .num n, _, _, h => by cases h; exact .num n
  | .str s, _, _, h => by cases h; exact .str s
  | .broken _, _, _, h => by cases h
  | .arr items ending, value, hdistinct, h => by
    obtain ⟨values, hvalues, hrest⟩ := exists_of_bind_eq_ok h
    obtain ⟨_, hending, hvalue⟩ := exists_of_bind_eq_ok hrest
    cases hvalue
    rw [check_eq_ok hending]
    exact .arr (itemsHold_of_values hdistinct hvalues)
  | .obj members ending, value, hdistinct, h => by
    obtain ⟨fields, hfields, hrest⟩ := exists_of_bind_eq_ok h
    obtain ⟨_, hending, hvalue⟩ := exists_of_bind_eq_ok hrest
    cases hvalue
    rw [isDistinct, Bool.and_eq_true, decide_eq_true_iff] at hdistinct
    have hnodup : (Fields.names ([] : Fields Json) ++ members.map NamedPart.name).Nodup :=
      hdistinct.1
    obtain ⟨own, rfl, hown, hnames⟩ := membersHold_of_values hdistinct.2 hnodup hfields
    rw [objectCheck_eq_ok hending]
    exact .obj hown (hnames ▸ hdistinct.1)

/-- Items whose values can be read hold them. -/
theorem itemsHold_of_values : ∀ {index : Nat} {items : List Document} {values : List Json},
    itemsDistinct items = true → itemValues index items = .ok values → ItemsHold items values
  | _, [], _, _, h => by cases h; exact .nil
  | _, item :: rest, values, hdistinct, h => by
    rw [itemsDistinct, Bool.and_eq_true] at hdistinct
    obtain ⟨first, hfirst, hnext⟩ := exists_of_bind_eq_ok h
    obtain ⟨others, hothers, hvalues⟩ := exists_of_bind_eq_ok hnext
    cases hvalues
    exact .cons (holds_of_value hdistinct.1 (ok_of_within hfirst))
      (itemsHold_of_values hdistinct.2 hothers)

/-- Members whose values can be read hold them, behind what was read before. -/
theorem membersHold_of_values : ∀ {members : List (NamedPart Document)} {done out : Fields Json},
    membersDistinct members = true → (Fields.names done ++ members.map NamedPart.name).Nodup →
    memberValues done members = .ok out →
    ∃ own, out = done ++ own ∧ MembersHold members own ∧
      Fields.names own = members.map NamedPart.name
  | [], done, _, _, _, h => by
    cases h
    exact ⟨[], (List.append_nil _).symm, .nil, rfl⟩
  | ⟨name, part, obstacle⟩ :: rest, done, out, hdistinct, hnodup, h => by
    rw [membersDistinct, Bool.and_eq_true] at hdistinct
    obtain ⟨first, hfirst, hnext⟩ := exists_of_bind_eq_ok h
    have hnew : name ∉ Fields.names done := fun hmem =>
      List.disjoint_of_nodup_append hnodup hmem (by simp)
    rw [Fields.put_of_not_mem hnew] at hnext
    have hnodup' : (Fields.names (done ++ [(name, first)]) ++ rest.map NamedPart.name).Nodup := by
      simpa [Fields.names] using hnodup
    obtain ⟨own, rfl, hown, hnames⟩ := membersHold_of_values hdistinct.2 hnodup' hnext
    refine ⟨(name, first) :: own, by simp,
      .cons (holds_of_value hdistinct.1 (ok_of_within hfirst)) hown, ?_⟩
    simpa [Fields.names] using hnames

end

end Document

/-! ### Results that agree -/

/-- The value at the end of a path. -/
def Json.at? : Json → List PathStep → Option Json
  | value, [] => some value
  | .obj members, .name name :: path => (Fields.get? members name).bind (·.at? path)
  | .arr items, .index index :: path => items[index]?.bind (·.at? path)
  | _, _ :: _ => none

/-- What a reader reads where, as far as records are concerned. -/
inductive Layout
  /-- No record at all. -/
  | plain
  /-- A list whose items are all read in the same way. -/
  | items (each : Layout)
  /-- A map whose values are all read in the same way. -/
  | members (each : Layout)
  /-- A record, with the names of its fields in order and how each is read. -/
  | record (fields : List (String × Layout))

/-- What is read at the end of a path. A field of a record is found by its name or, if the record is
written as a list, by its index. -/
def Layout.at? : Layout → List PathStep → Option Layout
  | layout, [] => some layout
  | .items each, .index _ :: path => each.at? path
  | .members each, .name _ :: path => each.at? path
  | .record fields, .name name :: path => (Fields.get? fields name).bind (·.at? path)
  | .record fields, .index index :: path => fields[index]?.bind (·.2.at? path)
  | _, _ :: _ => none

/-- The path leads to a list where a record is read, and the list has more items than the record has
fields. -/
structure TooLong (layout : Layout) (value : Json) (path : List PathStep) (fields : Fields Layout)
    (items : List Json) : Prop where
  /-- The list at the end of the path. -/
  found : value.at? path = some (.arr items)
  /-- The record that is read there. -/
  record : layout.at? path = some (.record fields)
  /-- Some items are left over. -/
  long : fields.length < items.length

/-- What is read from the text and what is read from its value: the same, or two wordings for a list
that is too long. -/
inductive Agrees {α : Type} (layout : Layout) (value : Json) :
    Except Misfit α → Except Misfit α → Prop
  | same (result : Except Misfit α) : Agrees layout value result result
  | tooLong {path : List PathStep} {fields : Fields Layout} {items : List Json}
      (h : TooLong layout value path fields items) :
      Agrees layout value (.error ⟨path, .fault .trailingText⟩)
        (.error ⟨path, .tooMany items.length⟩)

namespace Agrees

variable {α β : Type} {layout : Layout} {value : Json} {a b : Except Misfit α}

/-- What is done next keeps the agreement, if it agrees for each result. -/
theorem bind {f g : α → Except Misfit β} (h : Agrees layout value a b)
    (hnext : ∀ x, Agrees layout value (f x) (g x)) : Agrees layout value (a >>= f) (b >>= g) := by
  cases h with
  | same =>
    cases a with
    | error e => exact .same _
    | ok x => exact hnext x
  | tooLong h => exact .tooLong h

theorem map (f : α → β) (h : Agrees layout value a b) :
    Agrees layout value (a >>= fun x => .ok (f x)) (b >>= fun x => .ok (f x)) :=
  h.bind fun _ => .same _

/-- What agrees on a part agrees on the whole, one step further down. -/
theorem within {inner : Layout} {part : Json} {step : PathStep}
    (hlayout : ∀ path, layout.at? (step :: path) = inner.at? path)
    (hpart : ∀ path, value.at? (step :: path) = part.at? path) (h : Agrees inner part a b) :
    Agrees layout value (within step a) (within step b) := by
  cases h with
  | same => exact .same _
  | tooLong h => exact .tooLong ⟨(hpart _).trans h.found, (hlayout _).trans h.record, h.long⟩

end Agrees

/-- The steps into an item of a list. -/
theorem at?_item (done : List Json) (item : Json) (rest : List Json) (path : List PathStep) :
    (Json.arr (done ++ item :: rest)).at? (.index done.length :: path) = item.at? path := by
  simp [Json.at?]

/-- The steps into a member of an object that repeats no name. -/
theorem at?_member {done : Fields Json} {name : String} (value : Json) (rest : Fields Json)
    (hnames : (Fields.names (done ++ (name, value) :: rest)).Nodup) (path : List PathStep) :
    (Json.obj (done ++ (name, value) :: rest)).at? (.name name :: path) = value.at? path := by
  have hnew : Fields.get? done name = none := by
    rw [Fields.get?_eq_none_iff]
    intro hmem
    rw [Fields.names, List.map_append] at hnames
    exact List.disjoint_of_nodup_append hnames hmem (by simp)
  simp [Json.at?, Fields.get?_append, hnew, Fields.get?]

/-! ### Readers that read alike -/

/-- The readers agree on every document and its value, and read records where the layout says. -/
def ReadsAlike {α : Type} (layout : Layout) (read read' : Document → Except Misfit α) : Prop :=
  ∀ document value, document.Holds value →
    Agrees layout value (read document) (read' (.ofJson value))

namespace Document

mutual

/-- A document that holds a value has that value. -/
theorem Holds.value_eq :
    ∀ {document : Document} {value : Json}, Holds document value → document.value = .ok value
  | _, _, .null | _, _, .bool _ | _, _, .num _ | _, _, .str _ => rfl
  | _, _, .arr hitems => by
    rw [Document.value, hitems.values_eq 0]
    rfl
  | _, _, .obj hmembers hnames => by
    rw [Document.value, hmembers.values_eq [] hnames]
    rfl

theorem ItemsHold.values_eq :
    ∀ {items : List Document} {values : List Json}, ItemsHold items values →
    ∀ index, itemValues index items = .ok values
  | _, _, .nil, _ => rfl
  | _, _, .cons hitem hrest, index => by
    rw [itemValues, hitem.value_eq, hrest.values_eq (index + 1)]
    rfl

theorem MembersHold.values_eq : ∀ {members : List (NamedPart Document)} {own : Fields Json},
    MembersHold members own → ∀ done : Fields Json, (Fields.names (done ++ own)).Nodup →
    memberValues done members = .ok (done ++ own)
  | _, _, .nil, done, _ => by rw [memberValues, List.append_nil]
  | _, _, @MembersHold.cons name _ _ value _ own hpart hrest, done, hnames => by
    have hnew : name ∉ Fields.names done := fun hmem => by
      rw [Fields.names, List.map_append] at hnames
      exact List.disjoint_of_nodup_append hnames hmem (by simp)
    have hnext := hrest.values_eq (done ++ [(name, value)])
    rw [List.append_assoc, List.singleton_append, ← Fields.put_of_not_mem hnew] at hnext
    rw [memberValues, hpart.value_eq]
    exact hnext hnames

end

mutual

/-- The document of a value holds it, if any document does. -/
theorem Holds.ofJson : ∀ {document : Document} {value : Json}, Holds document value →
    Holds (ofJson value) value
  | _, _, .null => .null
  | _, _, .bool b => .bool b
  | _, _, .num n => .num n
  | _, _, .str s => .str s
  | _, _, .arr hitems => .arr hitems.ofItems
  | _, _, .obj hmembers hnames => .obj hmembers.ofMembers hnames

theorem ItemsHold.ofItems : ∀ {items : List Document} {values : List Json}, ItemsHold items values →
    ItemsHold (ofItems values) values
  | _, _, .nil => .nil
  | _, _, .cons hitem hrest => .cons hitem.ofJson hrest.ofItems

theorem MembersHold.ofMembers : ∀ {members : List (NamedPart Document)} {own : Fields Json},
    MembersHold members own → MembersHold (ofMembers own) own
  | _, _, .nil => .nil
  | _, _, .cons hpart hrest => .cons hpart.ofJson hrest.ofMembers

end

end Document

namespace ReadsAlike

variable {α : Type} {layout : Layout} {read read' : Document → Except Misfit α}

theorem string : ReadsAlike .plain Document.string Document.string := by
  rintro _ _ (_ | _ | _ | _ | _ | _) <;> exact .same _

theorem natBelow (limit : Nat) (wanted : String) :
    ReadsAlike .plain (Document.natBelow limit wanted) (Document.natBelow limit wanted) := by
  rintro _ _ (_ | _ | _ | _ | _ | _) <;> exact .same _

/-- Values are read back as they are. -/
theorem value : ReadsAlike .plain Document.value Document.value := by
  intro document value hholds
  rw [hholds.value_eq, hholds.ofJson.value_eq]
  exact .same _

/-- Arguments are buffered, so both readers see a value. -/
theorem argument : ReadsAlike .plain Declaration.argument Declaration.argument := by
  intro document value hholds
  rw [Declaration.argument, Declaration.argument, hholds.value_eq, hholds.ofJson.value_eq]
  exact .same _

/-- Null is read in the same way by both. -/
theorem optional (h : ReadsAlike layout read read') :
    ReadsAlike layout (Document.optional read) (Document.optional read') := by
  intro document value hholds
  have hsome := (h document value hholds).map some
  cases hholds with
  | null => exact .same _
  | _ => exact hsome

/-- The items of a list are read alike behind those that are done. -/
theorem eachItem (h : ReadsAlike layout read read') (done : List Json) :
    ∀ {items : List Document} {values : List Json},
    Document.ItemsHold items values →
      Agrees (.items layout) (.arr (done ++ values)) (Document.eachItem read done.length items)
        (Document.eachItem read' done.length (Document.ofItems values))
  | _, _, .nil => .same _
  | _, _, @Document.ItemsHold.cons _ value _ values hitem hrest => by
    have hnext := h.eachItem (done ++ [value]) hrest
    rw [List.length_append, List.append_assoc] at hnext
    exact ((h _ _ hitem).within (fun _ => rfl) (at?_item done value values)).bind fun first =>
      hnext.map (first :: ·)

/-- Lists of what reads alike read alike. -/
theorem listOf (h : ReadsAlike layout read read') :
    ReadsAlike (.items layout) (Document.listOf read) (Document.listOf read') := by
  intro document value hholds
  cases hholds with
  | arr hitems => exact (h.eachItem [] hitems).map id
  | _ => exact .same _

/-- The members of a map are read alike behind those that are done. -/
theorem eachMember (h : ReadsAlike layout read read') (done : Fields Json) :
    ∀ {members : List (NamedPart Document)} {own : Fields Json} (fields : Fields α),
    Document.MembersHold members own → (Fields.names (done ++ own)).Nodup →
    Agrees (.members layout) (.obj (done ++ own)) (Document.eachMember read fields members)
      (Document.eachMember read' fields (Document.ofMembers own))
  | _, _, _, .nil, _ => .same _
  | _, _, fields, @Document.MembersHold.cons name _ _ value _ own hpart hrest, hnames => by
    refine ((h _ _ hpart).within (fun _ => rfl) (at?_member value own hnames)).bind fun first => ?_
    have hnext := h.eachMember (done ++ [(name, value)]) (fields.put name first) hrest
    rw [List.append_assoc] at hnext
    exact hnext hnames

/-- Maps of what reads alike read alike. -/
theorem mapOf (h : ReadsAlike layout read read') :
    ReadsAlike (.members layout) (Document.mapOf read) (Document.mapOf read') := by
  intro document value hholds
  cases hholds with
  | obj hmembers hnames => exact (h.eachMember [] [] hmembers hnames).map id
  | _ => exact .same _

end ReadsAlike

/-! ### Records -/

section

variable {α : Type}

/-- Two fields of one name that read alike. -/
structure FieldsAlike (name : String) (layout : Layout) (field field' : RecordField α) : Prop where
  /-- The name of the one. -/
  left : field.name = name
  /-- The name of the other. -/
  right : field'.name = name
  /-- Does it have to be there? -/
  required : field.required = field'.required
  /-- The readers. -/
  read : ∀ record, ReadsAlike layout (field.read · record) (field'.read · record)

/-- Two lists of fields that are alike one by one. -/
inductive ListsAlike : Fields Layout → List (RecordField α) → List (RecordField α) → Prop
  | nil : ListsAlike [] [] []
  | cons {name : String} {layout : Layout} {field field' : RecordField α} {layouts : Fields Layout}
      {fields fields' : List (RecordField α)} (h : FieldsAlike name layout field field')
      (hrest : ListsAlike layouts fields fields') :
      ListsAlike ((name, layout) :: layouts) (field :: fields) (field' :: fields')

/-- Two shapes of one record whose fields read alike. -/
structure ShapesAlike (layouts : Fields Layout) (shape shape' : RecordShape α) : Prop where
  /-- The name. -/
  name : shape.name = shape'.name
  /-- The fields. -/
  fields : ListsAlike layouts shape.fields shape'.fields
  /-- What is passed over. -/
  lenient : shape.lenient = shape'.lenient
  /-- The record before any field is read. -/
  start : shape.start = shape'.start

theorem optionalField_alike {β : Type} {layout : Layout} {read read' : Document → Except Misfit β}
    (name : String) (put : Option β → α → α) (h : ReadsAlike layout read read') :
    FieldsAlike name layout (Declaration.optionalField name read put)
      (Declaration.optionalField name read' put) :=
  ⟨rfl, rfl, rfl, fun record document value hholds =>
    (h.optional document value hholds).map fun b => put b record⟩

theorem requiredField_alike {β : Type} {layout : Layout} {read read' : Document → Except Misfit β}
    (name : String) (put : β → α → α) (h : ReadsAlike layout read read') :
    FieldsAlike name layout (Declaration.requiredField name read put)
      (Declaration.requiredField name read' put) :=
  ⟨rfl, rfl, rfl, fun record document value hholds => (h document value hholds).map fun b =>
    put b record⟩

namespace ListsAlike

variable {layouts : Fields Layout} {fields fields' : List (RecordField α)}

/-- The fields of one name are alike, and the layout has it as well. -/
theorem find?_name (h : ListsAlike layouts fields fields') (name : String) :
    Option.Rel (fun field field' => ∃ layout, Fields.get? layouts name = some layout ∧
        FieldsAlike name layout field field')
      (fields.find? fun field => field.name == name)
      (fields'.find? fun field => field.name == name) := by
  induction h with
  | nil => exact .none
  | @cons first layout field field' _ _ _ hfield _ ih =>
    rw [List.find?_cons, List.find?_cons, hfield.left, hfield.right, Fields.get?]
    by_cases hname : first = name
    · subst hname
      simp only [beq_self_eq_true, if_true]
      exact .some ⟨layout, rfl, hfield⟩
    · rw [beq_eq_false_iff_ne.2 hname, if_neg hname]
      exact ih

/-- The first field that is missing has the same name. -/
theorem find?_missing (h : ListsAlike layouts fields fields') (seen : List String) :
    Option.Rel (fun field field' => field.name = field'.name)
      (fields.find? fun field => field.required && !seen.contains field.name)
      (fields'.find? fun field => field.required && !seen.contains field.name) := by
  induction h with
  | nil => exact .none
  | @cons name _ field field' _ _ _ hfield _ ih =>
    rw [List.find?_cons, List.find?_cons, hfield.left, hfield.right, ← hfield.required]
    cases field.required && !seen.contains name
    · exact ih
    · exact .some (hfield.left.trans hfield.right.symm)

theorem map_name_eq (h : ListsAlike layouts fields fields') :
    fields.map RecordField.name = fields'.map RecordField.name := by
  induction h with
  | nil => rfl
  | cons hfield _ ih => rw [List.map_cons, List.map_cons, hfield.left, hfield.right, ih]

theorem length_eq (h : ListsAlike layouts fields fields') : fields.length = fields'.length := by
  simpa using congrArg List.length h.map_name_eq

end ListsAlike

namespace ShapesAlike

variable {layouts : Fields Layout} {shape shape' : RecordShape α}

/-- A name passes both checks, with alike fields, or is refused by both in the same words. -/
theorem checkName {β : Type} {layout : Layout} {value : Json}
    {next next' : Option (RecordField α) → Except Misfit β} (h : ShapesAlike layouts shape shape')
    (seen : List String) (name : String)
    (hsome : ∀ inner f f', Fields.get? layouts name = some inner → FieldsAlike name inner f f' →
      Agrees layout value (next (some f)) (next' (some f')))
    (hnone : Agrees layout value (next none) (next' none)) :
    Agrees layout value (shape.checkName seen name >>= next)
      (shape'.checkName seen name >>= next') := by
  have hfield := h.fields.find?_name name
  have hunknown : shape.unknown name = shape'.unknown name := by
    rw [RecordShape.unknown, RecordShape.unknown, h.fields.map_name_eq]
  rw [RecordShape.checkName, RecordShape.checkName, ← h.lenient, ← hunknown, RecordShape.field?,
    RecordShape.field?]
  generalize shape.fields.find? _ = found, shape'.fields.find? _ = found' at hfield
  cases hfield with
  | none =>
    cases shape.lenient
    · exact .same _
    · exact hnone
  | @some f f' hf =>
    obtain ⟨inner, hinner, hf⟩ := hf
    by_cases hseen : name ∈ seen
    · simp only [if_pos hseen]
      exact .same _
    · simp only [if_neg hseen]
      exact hsome inner f f' hinner hf

/-- The same field is found missing. -/
theorem checkMissing (h : ShapesAlike layouts shape shape') (seen : List String) :
    shape.checkMissing seen = shape'.checkMissing seen := by
  have hfield := h.fields.find?_missing seen
  rw [RecordShape.checkMissing, RecordShape.checkMissing]
  generalize shape.fields.find? _ = found, shape'.fields.find? _ = found' at hfield
  cases hfield with
  | none => rfl
  | some hname => simp only [hname]

/-- The members of a record are read alike behind those that are done. -/
theorem readMembers (h : ShapesAlike layouts shape shape') (done : Fields Json) :
    ∀ {members : List (NamedPart Document)} {own : Fields Json} (seen : List String) (record : α),
    Document.MembersHold members own → (Fields.names (done ++ own)).Nodup →
    Agrees (.record layouts) (.obj (done ++ own)) (shape.readMembers seen record members)
      (shape'.readMembers seen record (Document.ofMembers own))
  | _, _, _, _, .nil, _ => .same _
  | _, _, seen, record, @Document.MembersHold.cons name part obstacle value _ own hpart hrest,
      hnames => by
    have hnext := fun seen record => h.readMembers (done ++ [(name, value)]) seen record hrest
    simp only [List.append_assoc, List.singleton_append] at hnext
    refine h.checkName seen name (fun inner f f' hinner hf => ?_) ?_
    · have hlayout : ∀ path, (Layout.record layouts).at? (.name name :: path) = inner.at? path :=
          fun path => by
        rw [Layout.at?, hinner, Option.bind_some]
      exact ((hf.read record _ _ hpart).within hlayout (at?_member value own hnames)).bind
        fun record => hnext (name :: seen) record hnames
    · have hpassed : Document.obstacle? ⟨name, part, obstacle⟩ = none := by
        rw [Document.obstacle?, hpart.value_eq]
      have hpassed' : Document.obstacle? ⟨name, .ofJson value, none⟩ = none := by
        rw [Document.obstacle?, hpart.ofJson.value_eq]
      simp only [hpassed, hpassed']
      exact hnext seen record hnames

/-- Where the items end early, both readings go on alike. -/
theorem readItems_nil {rest : Fields Layout} {fields fields' : List (RecordField α)}
    (h : ShapesAlike layouts shape shape') (count count' : Nat) (index : Nat) (record : α)
    (hfields : ListsAlike rest fields fields') :
    shape.readItems .text count .closed index fields [] record =
      shape'.readItems .value count' .closed index fields' [] record := by
  induction hfields generalizing index with
  | nil => rfl
  | cons hfield _ ih =>
    rw [RecordShape.readItems, RecordShape.readItems, h.name, h.fields.length_eq,
      hfield.required, ih]

/-- The items behind those that are done are read into the fields behind those that have passed. -/
theorem readItems {rest : Fields Layout} {fields fields' : List (RecordField α)}
    {items : List Document} {values : List Json} (h : ShapesAlike layouts shape shape')
    (count : Nat) (done : List Json) (passed : Fields Layout)
    (hpassed : passed.length = done.length) (hlayouts : layouts = passed ++ rest) (record : α)
    (hfields : ListsAlike rest fields fields') (hitems : Document.ItemsHold items values) :
    Agrees (.record layouts) (.arr (done ++ values))
      (shape.readItems .text count .closed done.length fields items record)
      (shape'.readItems .value (done ++ values).length .closed done.length fields'
        (Document.ofItems values)
        record) := by
  induction hfields generalizing done passed items values record with
  | nil =>
    cases hitems with
    | nil =>
      rw [h.readItems_nil count _ _ record .nil]
      exact .same _
    | @cons _ value _ values _ _ =>
      have hlong : layouts.length < (done ++ value :: values).length := by
        simp only [hlayouts, List.append_nil, List.length_append, List.length_cons]
        omega
      exact .tooLong ⟨rfl, rfl, hlong⟩
  | @cons name inner _ _ rest _ _ hfield hfields ih =>
    cases hitems with
    | nil =>
      rw [h.readItems_nil count _ _ record (.cons hfield hfields)]
      exact .same _
    | @cons _ value _ values hitem hrest =>
      have hlayout : ∀ path, (Layout.record layouts).at? (.index done.length :: path) =
          inner.at? path := fun path => by
        simp [Layout.at?, hlayouts, ← hpassed]
      refine ((hfield.read record _ _ hitem).within hlayout (at?_item done value values)).bind
        fun record => ?_
      have hnext := ih (done ++ [value]) (passed ++ [(name, inner)]) (by simp [hpassed])
        (by simp [hlayouts]) record hrest
      simpa using hnext

end ShapesAlike

theorem length_ofItems (values : List Json) : (Document.ofItems values).length = values.length := by
  induction values with
  | nil => rfl
  | cons value rest ih => rw [Document.ofItems, List.length_cons, List.length_cons, ih]

/-- **Records of one shape read alike.** -/
theorem ReadsAlike.record {layouts : Fields Layout} {shape shape' : RecordShape α}
    (h : ShapesAlike layouts shape shape') :
    ReadsAlike (.record layouts) (shape.read .text) (shape'.read .value) := by
  intro document value hholds
  cases hholds with
  | obj hmembers hnames =>
    rw [Document.ofJson, RecordShape.read, RecordShape.read, ← h.start]
    refine (h.readMembers [] [] shape.start hmembers hnames).bind fun (seen, record) => ?_
    simp only [RecordShape.checkEnd, h.checkMissing]
    exact .same _
  | arr hitems =>
    rw [Document.ofJson, RecordShape.read, RecordShape.read, ← h.start, length_ofItems]
    exact h.readItems _ [] [] rfl rfl shape.start h.fields hitems
  | _ =>
    simp only [Document.ofJson, RecordShape.read, Document.misfit, h.name]
    exact .same _

end

/-! ### Tables -/

namespace Layout

/-- The fields of an extension. -/
def extension : Fields Layout :=
  [("arg", .items .plain), ("pre", .items .plain), ("type", .plain), ("flag", .plain),
    ("set", .members .plain), ("desc", .plain)]

/-- The fields of a delegation. -/
def delegation : Fields Layout :=
  [("call", .plain), ("from", .plain), ("args", .plain), ("prop", .plain), ("self", .plain),
    ("desc", .plain)]

/-- The fields of an invocation. -/
def invocation : Fields Layout :=
  [("call", .plain), ("from", .plain), ("args", .plain), ("desc", .plain)]

/-- The fields of a proxy. -/
def proxy : Fields Layout := [("call", .plain), ("from", .plain), ("arg", .plain)]

/-- The fields of a nest. -/
def nest : Fields Layout := [("keys", .items .plain), ("rest", .plain)]

/-- The fields of an entry. -/
def method : Fields Layout :=
  [("desc", .plain), ("doc", .plain), ("def", .plain), ("arg", .items .plain),
    ("set", .members .plain),
    ("type", .plain), ("ext", .members (.record extension)),
    ("pass", .members (.record delegation)),
    ("call", .members (.record invocation)), ("key", .plain), ("nest", .record nest),
    ("ctr", .record proxy), ("src", .plain), ("name", .plain)]

/-- The records of a table: its entries, and those inside them. -/
def table : Layout := .members (.record method)

end Layout

namespace Declaration

section

variable {α : Type}

theorem text_alike (name : String) (put : Option String → α → α) :
    FieldsAlike name .plain (optionalField name Document.string put)
      (optionalField name Document.string put) :=
  optionalField_alike name put .string

theorem call_alike (put : String → α → α) :
    FieldsAlike "call" .plain (requiredField "call" Document.string put)
      (requiredField "call" Document.string put) :=
  requiredField_alike "call" put .string

theorem value_alike (name : String) (put : Option Json → α → α) :
    FieldsAlike name .plain (optionalField name Document.value put)
      (optionalField name Document.value put) :=
  optionalField_alike name put .value

theorem assignments_alike (put : Option (Fields Json) → α → α) :
    FieldsAlike "set" (.members .plain) (optionalField "set" (Document.mapOf Document.value) put)
      (optionalField "set" (Document.mapOf Document.value) put) :=
  optionalField_alike "set" put (.mapOf .value)

theorem count_alike (put : Option Nat → α → α) :
    FieldsAlike "args" .plain (optionalField "args" Document.count put)
      (optionalField "args" Document.count put) :=
  optionalField_alike "args" put (.natBelow _ _)

end

theorem extension_alike :
    ReadsAlike (.record Layout.extension) (extension.read .text) (extension.read .value) := by
  refine .record ⟨rfl, ?_, rfl, rfl⟩
  refine .cons (optionalField_alike _ _ (.listOf .string)) ?_
  refine .cons (optionalField_alike _ _ (.listOf .value)) ?_
  refine .cons (value_alike _ _) ?_
  refine .cons (optionalField_alike _ _ (.natBelow _ _)) ?_
  exact .cons (assignments_alike _) (.cons (text_alike _ _) .nil)

theorem delegation_alike :
    ReadsAlike (.record Layout.delegation) (delegation.read .text) (delegation.read .value) := by
  refine .record ⟨rfl, ?_, rfl, rfl⟩
  refine .cons (call_alike _) (.cons (text_alike _ _) (.cons (count_alike _) ?_))
  exact .cons (text_alike _ _) (.cons (text_alike _ _) (.cons (text_alike _ _) .nil))

theorem invocation_alike :
    ReadsAlike (.record Layout.invocation) (invocation.read .text) (invocation.read .value) := by
  refine .record ⟨rfl, ?_, rfl, rfl⟩
  exact .cons (call_alike _)
    (.cons (text_alike _ _) (.cons (count_alike _) (.cons (text_alike _ _) .nil)))

theorem proxy_alike : ReadsAlike (.record Layout.proxy) (proxy.read .text) (proxy.read .value) := by
  refine .record ⟨rfl, ?_, rfl, rfl⟩
  exact .cons (call_alike _) (.cons (text_alike _ _) (.cons (value_alike _ _) .nil))

theorem nest_alike : ReadsAlike (.record Layout.nest) (nest.read .text) (nest.read .value) := by
  refine .record ⟨rfl, ?_, rfl, rfl⟩
  exact .cons (requiredField_alike _ _ (.listOf .string))
    (.cons (requiredField_alike _ _ .string) .nil)

/-- An entry has fourteen fields, and five of them hold records themselves. -/
theorem method_alike : ReadsAlike (.record Layout.method) ((method .text).read .text)
    ((method .value).read .value) := by
  refine .record ⟨rfl, ?_, rfl, rfl⟩
  refine .cons (text_alike _ _) (.cons (text_alike _ _) (.cons (text_alike _ _) ?_))
  refine .cons (optionalField_alike _ _ (.listOf .argument)) ?_
  refine .cons (assignments_alike _) (.cons (value_alike _ _) ?_)
  refine .cons (optionalField_alike _ _ (.mapOf (.optional extension_alike))) ?_
  refine .cons (optionalField_alike _ _ (.mapOf (.optional delegation_alike))) ?_
  refine .cons (optionalField_alike _ _ (.mapOf (.optional invocation_alike))) ?_
  refine .cons (value_alike _ _) ?_
  refine .cons (optionalField_alike _ _ nest_alike) ?_
  refine .cons (optionalField_alike _ _ proxy_alike) ?_
  exact .cons (text_alike _ _) (.cons (text_alike _ _) .nil)

/-- The declarations of a table read alike, and their records stand where `Layout.table` says. -/
theorem table_alike : ReadsAlike Layout.table (table .text) (table .value) := .mapOf method_alike

end Declaration

/-- A text that is one value from end to end is the document of that value. -/
theorem Json.holds_of_parse? {text : String} {value : Json} (hparse : Json.parse? text = some value)
    (hdistinct : (Document.ofText text).isDistinct = true) :
    (Document.ofText text).Holds value := by
  refine Document.holds_of_value hdistinct ?_
  unfold Json.parse? at hparse
  unfold Document.ofText
  split at hparse
  · next document rest hread =>
    split at hparse
    · rw [hread]
      cases hvalue : document.value with
      | error e => rw [hvalue] at hparse; cases hparse
      | ok v => rw [hvalue] at hparse; cases hparse; rfl
    · cases hparse
  · cases hparse

namespace Table

/-- **A table is the same as text and as a value.** The readings of a text that is one value without
repeated names are the same table or the same refusal; but where the declarations read a record and
the text has a list with more items than this record has fields, it is refused in the words of
each. -/
theorem ofText_agrees_ofJson {text : String} {value : Json} (hparse : Json.parse? text = some value)
    (hdistinct : (Document.ofText text).isDistinct = true) :
    ofText text = ofJson value ∨
      ∃ path fields items, TooLong Layout.table value path fields items ∧
        ofText text = .error (.misfit ⟨path, .fault .trailingText⟩) ∧
        ofJson value = .error (.misfit ⟨path, .tooMany items.length⟩) := by
  have hagrees := Declaration.table_alike _ _ (Json.holds_of_parse? hparse hdistinct)
  rw [ofText, ofJson, ofDocument, ofDocument]
  generalize Declaration.table .text (.ofText text) = a, Declaration.table .value (.ofJson value) =
    b at hagrees
  cases hagrees with
  | same => exact .inl rfl
  | tooLong h => exact .inr ⟨_, _, _, h, rfl, rfl⟩

/-- A nest has two fields, and this one lists three values. -/
def longNest : String := "\x7b\"m\":\x7b\"nest\":[[],\"a\",[]]\x7d\x7d"

/-- The value of `longNest`. -/
def longNestValue : Json := .obj [("m", .obj [("nest", .arr [.arr [], .str "a", .arr []])])]

/-- The nest is read at the end of the path, and the two refusals differ. -/
theorem refusals_longNest : Json.parse? longNest = some longNestValue ∧
    (Document.ofText longNest).isDistinct = true ∧ ofText longNest ≠ ofJson longNestValue ∧
    ∃ path fields items, TooLong Layout.table longNestValue path fields items ∧
      ofText longNest = .error (.misfit ⟨path, .fault .trailingText⟩) ∧
      ofJson longNestValue = .error (.misfit ⟨path, .tooMany items.length⟩) := by
  have hparse : Json.parse? longNest = some longNestValue := by cbv
  have hdistinct : (Document.ofText longNest).isDistinct = true := by cbv
  have htext :
    ofText longNest = .error (.misfit ⟨[.name "m", .name "nest"], .fault .trailingText⟩) := by cbv
  have hvalue :
    ofJson longNestValue = .error (.misfit ⟨[.name "m", .name "nest"], .tooMany 3⟩) := by cbv
  have hne : ofText longNest ≠ ofJson longNestValue := by
    rw [htext, hvalue]
    simp
  exact ⟨hparse, hdistinct, hne, (ofText_agrees_ofJson hparse hdistinct).resolve_left hne⟩

end Table

end BuilderApi
