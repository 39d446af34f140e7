import BuilderApi.Proofs.Json.Unfinished
import BuilderApi.Proofs.Table.Origins

/-!
# Tables are made of finished documents

A document in which reading broke off says so at one place, and no reader gets past that place:
whatever a declaration holds, the part that is broken off is read or has to be passed over, and
neither succeeds. So a table that is accepted comes from a document that was read to its end
(`BuilderApi.Declaration.refuses_table`), and so does a value (`BuilderApi.Refuses.value`). Lists,
maps and records of readers that refuse unfinished documents refuse them as well.
-/

namespace BuilderApi

/-- The reader accepts no document in which reading broke off. -/
def Refuses {α ε : Type} (read : Document → Except ε α) : Prop :=
  ∀ document, document.Unfinished → ∀ a, read document ≠ .ok a

/-- The field accepts no document in which reading broke off. -/
def RefusesField {α : Type} (field : RecordField α) : Prop :=
  ∀ record, Refuses (field.read · record)

variable {α β : Type}

/-! ### Parts of what is accepted -/

namespace Document

variable {read : Document → Except Misfit α}

/-- If a list is read, each of its items is. -/
theorem exists_of_eachItem {items : List Document} : ∀ {index : Nat} {values : List α},
    eachItem read index items = .ok values → ∀ item ∈ items, ∃ a, read item = .ok a := by
  induction items with
  | nil => exact fun _ => List.forall_mem_nil _
  | cons item rest ih =>
    intro index values h
    obtain ⟨first, hfirst, h⟩ := exists_of_bind_eq_ok h
    obtain ⟨others, hothers, -⟩ := exists_of_bind_eq_ok h
    exact List.forall_mem_cons.2 ⟨⟨first, ok_of_within hfirst⟩, ih hothers⟩

theorem exists_of_itemValues {items : List Document} : ∀ {index : Nat} {values : List Json},
    itemValues index items = .ok values → ∀ item ∈ items, ∃ value, item.value = .ok value := by
  induction items with
  | nil => exact fun _ => List.forall_mem_nil _
  | cons item rest ih =>
    intro index values h
    obtain ⟨first, hfirst, h⟩ := exists_of_bind_eq_ok h
    obtain ⟨others, hothers, -⟩ := exists_of_bind_eq_ok h
    exact List.forall_mem_cons.2 ⟨⟨first, ok_of_within hfirst⟩, ih hothers⟩

/-- If a map is read, each of its values is. -/
theorem exists_of_eachMember {members : List (NamedPart Document)} : ∀ {fields out : Fields α},
    eachMember read fields members = .ok out →
    ∀ member ∈ members, ∃ a, read member.part = .ok a := by
  induction members with
  | nil => exact fun _ => List.forall_mem_nil _
  | cons member rest ih =>
    intro fields out h
    obtain ⟨first, hfirst, h⟩ := exists_of_bind_eq_ok h
    exact List.forall_mem_cons.2 ⟨⟨first, ok_of_within hfirst⟩, ih h⟩

theorem exists_of_memberValues {members : List (NamedPart Document)} : ∀ {fields out : Fields Json},
    memberValues fields members = .ok out →
    ∀ member ∈ members, ∃ value, member.part.value = .ok value := by
  induction members with
  | nil => exact fun _ => List.forall_mem_nil _
  | cons member rest ih =>
    intro fields out h
    obtain ⟨first, hfirst, h⟩ := exists_of_bind_eq_ok h
    exact List.forall_mem_cons.2 ⟨⟨first, ok_of_within hfirst⟩, ih h⟩

end Document

/-! ### Readers -/

namespace Refuses

variable {read : Document → Except Misfit α}

theorem string : Refuses Document.string := by
  rintro _ (_ | _ | _ | _ | _) _ h <;> cases h

theorem natBelow (limit : Nat) (wanted : String) : Refuses (Document.natBelow limit wanted) := by
  rintro _ (_ | _ | _ | _ | _) _ h <;> cases h

/-- A value is read from a finished document only. -/
theorem value : Refuses Document.value := by
  intro document hunfinished
  induction hunfinished with
  | broken fault => exact nofun
  | list hending =>
    intro a h
    obtain ⟨values, -, h⟩ := exists_of_bind_eq_ok h
    obtain ⟨u, hcheck, -⟩ := exists_of_bind_eq_ok h
    exact hending (Document.check_eq_ok hcheck)
  | item hmem _ ih =>
    intro a h
    obtain ⟨values, hvalues, -⟩ := exists_of_bind_eq_ok h
    obtain ⟨value, hvalue⟩ := Document.exists_of_itemValues hvalues _ hmem
    exact ih value hvalue
  | object hending =>
    intro a h
    obtain ⟨fields, -, h⟩ := exists_of_bind_eq_ok h
    obtain ⟨u, hcheck, -⟩ := exists_of_bind_eq_ok h
    exact hending (Document.objectCheck_eq_ok hcheck)
  | member hmem _ _ ih =>
    intro a h
    obtain ⟨fields, hfields, -⟩ := exists_of_bind_eq_ok h
    obtain ⟨value, hvalue⟩ := Document.exists_of_memberValues hfields _ hmem
    exact ih value hvalue

/-- A reader that goes on from one that refuses refuses as well. -/
theorem bind (h : Refuses read) (next : α → Except Misfit β) :
    Refuses fun document => read document >>= next := by
  intro document hunfinished b hread
  obtain ⟨a, hfirst, -⟩ := exists_of_bind_eq_ok hread
  exact h document hunfinished a hfirst

/-- Arguments are buffered, so all of their document has to be there. -/
theorem argument : Refuses Declaration.argument := value.bind _

/-- Null is finished, and anything else is left to the reader inside. -/
theorem optional (h : Refuses read) : Refuses (Document.optional read) := by
  intro document hunfinished a hread
  have hsome := h.bind (fun a => .ok (some a)) document hunfinished a
  cases hunfinished <;> exact hsome hread

/-- A list of what refuses refuses. -/
theorem listOf (h : Refuses read) : Refuses (Document.listOf read) := by
  rintro document (_ | hending | ⟨hmem, hitem⟩ | _ | _) a hread
  · cases hread
  · obtain ⟨values, -, hread⟩ := exists_of_bind_eq_ok hread
    obtain ⟨u, hcheck, -⟩ := exists_of_bind_eq_ok hread
    exact hending (Document.check_eq_ok hcheck)
  · obtain ⟨values, hvalues, -⟩ := exists_of_bind_eq_ok hread
    obtain ⟨value, hvalue⟩ := Document.exists_of_eachItem hvalues _ hmem
    exact h _ hitem value hvalue
  · cases hread
  · cases hread

/-- A map of what refuses refuses. -/
theorem mapOf (h : Refuses read) : Refuses (Document.mapOf read) := by
  rintro document (_ | _ | _ | hending | ⟨hmem, hmember, -⟩) a hread
  · cases hread
  · cases hread
  · cases hread
  · obtain ⟨fields, -, hread⟩ := exists_of_bind_eq_ok hread
    obtain ⟨u, hcheck, -⟩ := exists_of_bind_eq_ok hread
    exact hending (Document.objectCheck_eq_ok hcheck)
  · obtain ⟨fields, hfields, -⟩ := exists_of_bind_eq_ok hread
    obtain ⟨value, hvalue⟩ := Document.exists_of_eachMember hfields _ hmem
    exact h _ hmember value hvalue

end Refuses

/-! ### Records -/

theorem refusesField_optional {read : Document → Except Misfit β} (name : String)
    (put : Option β → α → α) (h : Refuses read) :
    RefusesField (Declaration.optionalField name read put) := fun record =>
  h.optional.bind fun b => .ok (put b record)

theorem refusesField_required {read : Document → Except Misfit β} (name : String) (put : β → α → α)
    (h : Refuses read) : RefusesField (Declaration.requiredField name read put) := fun record =>
  h.bind fun b => .ok (put b record)

namespace RecordShape

variable {shape : RecordShape α}

/-- A name that passes is that of a field. -/
theorem mem_of_checkName {seen : List String} {name : String} {field : RecordField α}
    (h : shape.checkName seen name = .ok (some field)) : field ∈ shape.fields := by
  unfold checkName at h
  split at h
  · next hfield =>
    split at h
    · cases h
    · cases h
      exact List.mem_of_find?_eq_some hfield
  · split at h <;> cases h

/-- Every member of an accepted record is read or passed over. -/
theorem obstacle_eq_none_of_readMembers (hfields : ∀ field ∈ shape.fields, RefusesField field)
    {members : List (NamedPart Document)} :
    ∀ {seen : List String} {record : α} {out : List String × α},
    shape.readMembers seen record members = .ok out →
    ∀ member ∈ members, member.part.Unfinished → member.obstacle = none := by
  induction members with
  | nil => exact fun _ => List.forall_mem_nil _
  | cons member rest ih =>
    intro seen record out h
    obtain ⟨field, hname, h⟩ := exists_of_bind_eq_ok h
    cases field with
    | some field =>
      obtain ⟨record', hread, h⟩ := exists_of_bind_eq_ok h
      refine List.forall_mem_cons.2 ⟨fun hunfinished => ?_, ih h⟩
      exact absurd (Document.ok_of_within hread)
        (hfields field (mem_of_checkName hname) record member.part hunfinished record')
    | none =>
      dsimp only at h
      split at h
      · cases h
      · next hpassed =>
        refine List.forall_mem_cons.2 ⟨fun hunfinished => ?_, ih h⟩
        cases hvalue : member.part.value with
        | ok value => exact absurd hvalue (Refuses.value _ hunfinished value)
        | error misfit =>
          rw [Document.obstacle?, hvalue] at hpassed
          exact hpassed

/-- Only a closed object is left behind. -/
theorem checkEnd_eq_ok {seen : List String} {ending : ObjectEnd} {u : Unit}
    (h : shape.checkEnd seen ending = .ok u) :
    ending = .closed := by
  cases ending with
  | closed => rfl
  | tooDeep => cases h
  | atName fault => cases h
  | atColon name fault =>
    obtain ⟨field, -, h⟩ := exists_of_bind_eq_ok h
    cases h

/-- Behind the last field a list has to be closed. -/
theorem checkSurplus_eq_ok {origin : Origin} {count : Nat} {items : List Document}
    {ending : ListEnd} {u : Unit} (h : checkSurplus origin count items ending = .ok u) :
    items = [] ∧ ending = .closed := by
  unfold checkSurplus at h
  split at h
  · exact ⟨rfl, rfl⟩
  · cases h
  · cases h
  · cases origin <;> cases h

/-- Every item of an accepted record is read, and the list is closed. -/
theorem finished_of_readItems (origin : Origin) (count : Nat) {ending : ListEnd} :
    ∀ {fields : List (RecordField α)} {index : Nat} {items : List Document}
      {record out : α}, (∀ field ∈ fields, RefusesField field) →
    shape.readItems origin count ending index fields items record = .ok out →
    ending = .closed ∧ ∀ item ∈ items, ¬item.Unfinished
  | [], _, items, _, _, _, h => by
    obtain ⟨u, hsurplus, -⟩ := exists_of_bind_eq_ok h
    obtain ⟨rfl, hending⟩ := checkSurplus_eq_ok hsurplus
    exact ⟨hending, List.forall_mem_nil _⟩
  | field :: fields, index, item :: items, record, out, hfields, h => by
    rw [List.forall_mem_cons] at hfields
    obtain ⟨record', hread, h⟩ := exists_of_bind_eq_ok h
    obtain ⟨hending, hitems⟩ := finished_of_readItems origin count hfields.2 h
    refine ⟨hending, List.forall_mem_cons.2 ⟨fun hunfinished => ?_, hitems⟩⟩
    exact hfields.1 record item hunfinished record' (Document.ok_of_within hread)
  | field :: fields, index, [], record, out, hfields, h => by
    obtain ⟨u, hcheck, -⟩ := exists_of_bind_eq_ok h
    exact ⟨Document.check_eq_ok hcheck, List.forall_mem_nil _⟩

end RecordShape

/-- **A record whose fields refuse unfinished documents refuses them.** -/
theorem Refuses.record {shape : RecordShape α} (origin : Origin)
    (hfields : ∀ field ∈ shape.fields, RefusesField field) :
    Refuses (shape.read origin) := by
  rintro document (_ | hending | ⟨hmem, hitem⟩ | hending | ⟨hmem, hmember, hobstacle⟩) a hread
  · cases hread
  · exact hending (RecordShape.finished_of_readItems origin _ hfields hread).1
  · exact (RecordShape.finished_of_readItems origin _ hfields hread).2 _ hmem hitem
  · obtain ⟨⟨seen, record⟩, -, hread⟩ := exists_of_bind_eq_ok hread
    obtain ⟨u, hend, -⟩ := exists_of_bind_eq_ok hread
    exact hending (RecordShape.checkEnd_eq_ok hend)
  · obtain ⟨out, hmembers, -⟩ := exists_of_bind_eq_ok hread
    exact hobstacle (RecordShape.obstacle_eq_none_of_readMembers hfields hmembers _ hmem hmember)

/-! ### Tables -/

namespace Declaration

theorem refuses_extension (origin : Origin) : Refuses (extension.read origin) := by
  refine .record origin ?_
  simp only [extension, List.forall_mem_cons]
  refine ⟨refusesField_optional _ _ (.listOf .string), refusesField_optional _ _ (.listOf .value),
    refusesField_optional _ _ .value, refusesField_optional _ _ (.natBelow _ _),
    refusesField_optional _ _ (.mapOf .value), refusesField_optional _ _ .string,
      List.forall_mem_nil _⟩

theorem refuses_delegation (origin : Origin) : Refuses (delegation.read origin) := by
  refine .record origin ?_
  simp only [delegation, List.forall_mem_cons]
  exact ⟨refusesField_required _ _ .string, refusesField_optional _ _ .string,
    refusesField_optional _ _ (.natBelow _ _), refusesField_optional _ _ .string,
    refusesField_optional _ _ .string, refusesField_optional _ _ .string, List.forall_mem_nil _⟩

theorem refuses_invocation (origin : Origin) : Refuses (invocation.read origin) := by
  refine .record origin ?_
  simp only [invocation, List.forall_mem_cons]
  exact ⟨refusesField_required _ _ .string, refusesField_optional _ _ .string,
    refusesField_optional _ _ (.natBelow _ _), refusesField_optional _ _ .string,
      List.forall_mem_nil _⟩

theorem refuses_proxy (origin : Origin) : Refuses (proxy.read origin) := by
  refine .record origin ?_
  simp only [proxy, List.forall_mem_cons]
  exact ⟨refusesField_required _ _ .string, refusesField_optional _ _ .string,
    refusesField_optional _ _ .value,
    List.forall_mem_nil _⟩

theorem refuses_nest (origin : Origin) : Refuses (nest.read origin) := by
  refine .record origin ?_
  simp only [nest, List.forall_mem_cons]
  exact ⟨refusesField_required _ _ (.listOf .string), refusesField_required _ _ .string,
    List.forall_mem_nil _⟩

theorem refuses_method (origin : Origin) : Refuses ((method origin).read origin) := by
  have hext := refuses_extension origin
  have hpass := refuses_delegation origin
  have hcall := refuses_invocation origin
  refine .record origin ?_
  simp only [method, List.forall_mem_cons]
  exact ⟨refusesField_optional _ _ .string, refusesField_optional _ _ .string,
    refusesField_optional _ _ .string,
    refusesField_optional _ _ (.listOf .argument), refusesField_optional _ _ (.mapOf .value),
    refusesField_optional _ _ .value, refusesField_optional _ _ (.mapOf hext.optional),
    refusesField_optional _ _ (.mapOf hpass.optional),
    refusesField_optional _ _ (.mapOf hcall.optional),
    refusesField_optional _ _ .value, refusesField_optional _ _ (refuses_nest origin),
    refusesField_optional _ _ (refuses_proxy origin), refusesField_optional _ _ .string,
    refusesField_optional _ _ .string, List.forall_mem_nil _⟩

/-- **A table is declared by a finished document only.** -/
theorem refuses_table (origin : Origin) : Refuses (table origin) := .mapOf (refuses_method origin)

end Declaration

end BuilderApi
