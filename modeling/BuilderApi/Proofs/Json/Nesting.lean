import BuilderApi.Json.Reader
import BuilderApi.Proofs.Fields
import BuilderApi.Proofs.Json.Keyed
import BuilderApi.Proofs.Results

/-!
# How deep values are nested

The reader admits a limited number of levels of lists and objects, and gives up where a text has
more. So a value that is read is nested at most so deep, whatever the text
(`BuilderApi.Json.depth_le_of_parseWithin`). The limit is a parameter of the reader, and
`BuilderApi.Json.parse?` is the reader at one value of it.
-/

namespace BuilderApi

namespace Json

mutual

/-- How deep lists and objects are nested in a value. -/
def depth : Json → Nat
  | .arr items => itemsDepth items + 1
  | .obj members => membersDepth members + 1
  | _ => 0

/-- The depth of the deepest item. -/
def itemsDepth : List Json → Nat
  | [] => 0
  | item :: rest => max (depth item) (itemsDepth rest)

/-- The depth of the deepest member. -/
def membersDepth : List (String × Json) → Nat
  | [] => 0
  | (_, value) :: rest => max (depth value) (membersDepth rest)

end

variable {limit : Nat}

theorem itemsDepth_le_iff {items : List Json} :
    itemsDepth items ≤ limit ↔ ∀ item ∈ items, item.depth ≤ limit := by
  induction items with
  | nil => simp [itemsDepth]
  | cons item rest ih => rw [itemsDepth, Nat.max_le, ih, List.forall_mem_cons]

theorem membersDepth_le_iff {members : List (String × Json)} :
    membersDepth members ≤ limit ↔ ∀ member ∈ members, member.2.depth ≤ limit := by
  induction members with
  | nil => simp [membersDepth]
  | cons member rest ih => rw [membersDepth, Nat.max_le, ih, List.forall_mem_cons]

@[simp] theorem depth_arr_le_succ_iff {items : List Json} :
    (Json.arr items).depth ≤ limit + 1 ↔ ∀ item ∈ items, item.depth ≤ limit := by
  rw [depth, Nat.add_le_add_iff_right, itemsDepth_le_iff]

@[simp] theorem depth_obj_le_succ_iff {members : List (String × Json)} :
    (Json.obj members).depth ≤ limit + 1 ↔ ∀ member ∈ members, member.2.depth ≤ limit := by
  rw [depth, Nat.add_le_add_iff_right, membersDepth_le_iff]

/-- The value of a text that is one JSON value from end to end, nested at most so deep. -/
def parseWithin? (limit : Nat) (text : String) : Option Json :=
  match Reader.value text.toList.length limit text.toList with
  | (document, some rest) => if Reader.skipBlanks rest = [] then document.value.toOption else none
  | (_, none) => none

/-- Documents are parsed with a limit on their nesting. -/
theorem parse?_eq (text : String) : parse? text = parseWithin? Reader.depthLimit text := rfl

end Json

namespace Document

variable {limit : Nat}

/-- If the document has a value, it is nested at most so deep. -/
def NestedWithin (limit : Nat) (document : Document) : Prop :=
  ∀ value, document.value = .ok value → value.depth ≤ limit

/-- What has no value is nested as far as one likes. -/
theorem nestedWithin_of_error {document : Document} {misfit : Misfit}
    (h : document.value = .error misfit) :
    document.NestedWithin limit := by
  rintro value hvalue
  rw [h] at hvalue
  cases hvalue

theorem nestedWithin_of_value {document : Document} {value : Json} (h : document.value = .ok value)
    (hdepth : value.depth = 0) : document.NestedWithin limit := by
  rintro found hfound
  obtain rfl := Except.ok.inj (h.symm.trans hfound)
  exact hdepth ▸ Nat.zero_le limit

/-- The values of a list are those of its items. -/
theorem exists_of_mem_itemValues {index : Nat} {items : List Document} {values : List Json}
    (h : itemValues index items = .ok values) :
    ∀ value ∈ values, ∃ item ∈ items, item.value = .ok value := by
  induction items generalizing index values with
  | nil =>
    cases h
    simp
  | cons item rest ih =>
    obtain ⟨first, hfirst, h⟩ := exists_of_bind_eq_ok h
    obtain ⟨others, hothers, h⟩ := exists_of_bind_eq_ok h
    cases h
    intro value hvalue
    rcases List.mem_cons.1 hvalue with rfl | hvalue
    · exact ⟨item, List.mem_cons_self, ok_of_within hfirst⟩
    · obtain ⟨item', hitem', hread⟩ := ih hothers value hvalue
      exact ⟨item', List.mem_cons_of_mem _ hitem', hread⟩

theorem exists_of_mem_memberValues {members : List (NamedPart Document)} {fields out : Fields Json}
    (h : memberValues fields members = .ok out) :
    ∀ field ∈ out, field ∈ fields ∨ ∃ member ∈ members, member.part.value = .ok field.2 := by
  induction members generalizing fields with
  | nil =>
    cases h
    exact fun field hfield => .inl hfield
  | cons member rest ih =>
    obtain ⟨first, hfirst, h⟩ := exists_of_bind_eq_ok h
    intro field hfield
    rcases ih h field hfield with hmem | ⟨member', hmember', hread⟩
    · rcases Fields.mem_put hmem with hmem | rfl
      · exact .inl hmem
      · exact .inr ⟨member, List.mem_cons_self, ok_of_within hfirst⟩
    · exact .inr ⟨member', List.mem_cons_of_mem _ hmember', hread⟩

/-- A list is nested one level deeper than its items. -/
theorem nestedWithin_arr {items : List Document} {ending : ListEnd}
    (h : ∀ item ∈ items, item.NestedWithin limit) :
    (arr items ending).NestedWithin (limit + 1) := by
  intro value hvalue
  obtain ⟨values, hvalues, hvalue⟩ := exists_of_bind_eq_ok hvalue
  obtain ⟨-, -, hvalue⟩ := exists_of_bind_eq_ok hvalue
  cases hvalue
  refine Json.depth_arr_le_succ_iff.2 fun value hvalue => ?_
  obtain ⟨item, hitem, hread⟩ := exists_of_mem_itemValues hvalues value hvalue
  exact h item hitem value hread

/-- An object is nested one level deeper than its members. -/
theorem nestedWithin_obj {members : List (NamedPart Document)} {ending : ObjectEnd}
    (h : ∀ member ∈ members, member.part.NestedWithin limit) :
    (obj members ending).NestedWithin (limit + 1) := by
  intro value hvalue
  obtain ⟨fields, hfields, hvalue⟩ := exists_of_bind_eq_ok hvalue
  obtain ⟨-, -, hvalue⟩ := exists_of_bind_eq_ok hvalue
  cases hvalue
  refine Json.depth_obj_le_succ_iff.2 fun field hfield => ?_
  rcases exists_of_mem_memberValues hfields field hfield with hmem | ⟨member, hmember, hread⟩
  · cases hmem
  · exact h member hmember field.2 hread

end Document

namespace Reader

variable {read : List Char → Outcome} {limit : Nat}

theorem part_memberPart (name : String) (text : List Char) :
    (memberPart read name text).1.part = (read text).1 := by
  unfold memberPart
  split
  · next hread => rw [hread]
  · next hread =>
    rw [hread]
    split <;> rfl

/-- Whatever is read in a turn is an item. -/
theorem forall_mem_itemLoop {property : Document → Prop} (hread : ∀ text, property (read text).1)
    (turns : Nat) (text : List Char) : ∀ item ∈ (itemLoop read turns text).1, property item := by
  induction turns generalizing text with
  | zero => exact nofun
  | succ turns ih =>
    have hfirst := hread text
    unfold itemLoop
    split
    · next item hitem =>
      rw [hitem] at hfirst
      exact List.forall_mem_singleton.2 hfirst
    · next item rest hitem =>
      rw [hitem] at hfirst
      have hlast := List.forall_mem_singleton.2 hfirst
      split
      · exact hlast
      · exact hlast
      · split
        · exact hlast
        · exact hlast
        · exact List.forall_mem_cons.2 ⟨hfirst, ih _⟩
      · exact hlast

/-- Whatever is read in a turn, behind a name and its colon, is a member. -/
theorem forall_mem_memberLoop {property : Document → Prop} (hread : ∀ text, property (read text).1)
    (size turns : Nat) (text : List Char) :
    ∀ member ∈ (memberLoop read size turns text).1, property member.part := by
  induction turns generalizing text with
  | zero => exact nofun
  | succ turns ih =>
    unfold memberLoop
    split
    · exact nofun
    · next name rest _ =>
      split
      · exact nofun
      · next rest' _ =>
        have hfirst := hread rest'
        rw [← part_memberPart name] at hfirst
        split
        · next member hmember =>
          rw [hmember] at hfirst
          exact List.forall_mem_singleton.2 hfirst
        · next member behind hmember =>
          rw [hmember] at hfirst
          have hlast : ∀ other ∈ [member], property other.part := List.forall_mem_singleton.2 hfirst
          split
          · exact hlast
          · exact hlast
          · split
            · exact hlast
            · exact List.forall_mem_cons.2 ⟨hfirst, ih _⟩
            · exact hlast
            · exact hlast
          · exact hlast
      · exact nofun

theorem nestedWithin_leaf {α : Type} {wrap : α → Document}
    (hwrap : ∀ a, (wrap a).NestedWithin limit) (result : Except Fault (α × List Char)) :
    (leaf wrap result).1.NestedWithin limit := by
  cases result with
  | error fault => exact nofun
  | ok found => exact hwrap found.1

theorem nestedWithin_wordLeaf {document : Document} (h : document.NestedWithin limit)
    (result : Except Fault (List Char)) : (wordLeaf document result).1.NestedWithin limit := by
  cases result with
  | error fault => exact nofun
  | ok rest => exact h

/-- What is read as a list is nested one level deeper than what is read inside. -/
theorem nestedWithin_list (hread : ∀ text, (read text).1.NestedWithin limit) (bound : Nat)
    (text : List Char) :
    (list read bound text).1.NestedWithin (limit + 1) := by
  unfold list
  split
  · exact nofun
  · exact Document.nestedWithin_arr (List.forall_mem_nil _)
  · exact Document.nestedWithin_arr (forall_mem_itemLoop hread _ _)

/-- What is read as an object is nested one level deeper than what is read inside. -/
theorem nestedWithin_object (hread : ∀ text, (read text).1.NestedWithin limit) (bound : Nat)
    (text : List Char) :
    (object read bound text).1.NestedWithin (limit + 1) := by
  unfold object
  split
  · exact nofun
  · exact Document.nestedWithin_obj (List.forall_mem_nil _)
  · exact Document.nestedWithin_obj (forall_mem_memberLoop hread _ _ _)
  · exact nofun

/-- **What is read is nested at most as deep as the reader goes.** -/
theorem nestedWithin_value (bound limit : Nat) (text : List Char) :
    (value bound limit text).1.NestedWithin limit := by
  have hstr (limit : Nat) (s : String) :=
    @Document.nestedWithin_of_value limit (.str s) (.str s) rfl rfl
  have hnum (limit : Nat) (n : Number) :=
    @Document.nestedWithin_of_value limit (.num n) (.num n) rfl rfl
  have hbool (limit : Nat) (b : Bool) :=
    @Document.nestedWithin_of_value limit (.bool b) (.bool b) rfl rfl
  have hnull (limit : Nat) := @Document.nestedWithin_of_value limit .null .null rfl rfl
  induction limit generalizing text with
  | zero =>
    unfold value
    repeat' split
    all_goals first
      | contradiction
      | exact nestedWithin_leaf (hstr _) _
      | exact nestedWithin_leaf (hnum _) _
      | exact nestedWithin_wordLeaf (hbool _ _) _
      | exact nestedWithin_wordLeaf (hnull _) _
      | exact Document.nestedWithin_of_error rfl
  | succ limit ih =>
    unfold value
    repeat' split
    all_goals first
      | contradiction
      | next h => cases h; exact nestedWithin_list ih _ _
      | next h => cases h; exact nestedWithin_object ih _ _
      | exact nestedWithin_leaf (hstr _) _
      | exact nestedWithin_leaf (hnum _) _
      | exact nestedWithin_wordLeaf (hbool _ _) _
      | exact nestedWithin_wordLeaf (hnull _) _
      | exact Document.nestedWithin_of_error rfl

end Reader

/-- **A value that is read is nested at most as deep as the limit says.** -/
theorem Json.depth_le_of_parseWithin {limit : Nat} {text : String} {value : Json}
    (h : Json.parseWithin? limit text = some value) : value.depth ≤ limit := by
  have hnested := Reader.nestedWithin_value text.toList.length limit text.toList
  unfold Json.parseWithin? at h
  split at h
  · next document rest hread =>
    rw [hread] at hnested
    split at h
    · cases hvalue : document.value with
      | error misfit =>
        rw [hvalue] at h
        cases h
      | ok found =>
        rw [hvalue] at h
        cases h
        exact hnested value hvalue
    · cases h
  · cases h

end BuilderApi
