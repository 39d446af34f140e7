import BuilderApi.Json.Document
import BuilderApi.Proofs.Fields
import BuilderApi.Proofs.Results

/-!
# Values whose objects have no repeated name

The members of an object are kept as a list, which could name a member twice. No value that is read
does (`BuilderApi.Document.isKeyed_of_value`): a repeated name takes the place of its first
occurrence. Values without a repeated name at any depth are called **keyed**, and every part of a
keyed value is keyed.
-/

namespace BuilderApi

namespace Json

mutual

/-- Does no object in the value name a member twice? -/
def isKeyed : Json → Bool
  | .arr items => itemsKeyed items
  | .obj members => decide (Fields.names members).Nodup && membersKeyed members
  | _ => true

/-- Are all items keyed? -/
def itemsKeyed : List Json → Bool
  | [] => true
  | item :: rest => isKeyed item && itemsKeyed rest

/-- Are the values of all members keyed? -/
def membersKeyed : List (String × Json) → Bool
  | [] => true
  | (_, value) :: rest => isKeyed value && membersKeyed rest

end

theorem itemsKeyed_iff {items : List Json} :
    itemsKeyed items = true ↔ ∀ item ∈ items, item.isKeyed = true := by
  induction items with
  | nil => simp [itemsKeyed]
  | cons item rest ih => simp [itemsKeyed, ih]

theorem membersKeyed_iff {members : List (String × Json)} :
    membersKeyed members = true ↔ ∀ member ∈ members, member.2.isKeyed = true := by
  induction members with
  | nil => simp [membersKeyed]
  | cons member rest ih => simp [membersKeyed, ih]

@[simp] theorem isKeyed_arr {items : List Json} :
    (Json.arr items).isKeyed = true ↔ ∀ item ∈ items, item.isKeyed = true := by
  rw [isKeyed, itemsKeyed_iff]

@[simp] theorem isKeyed_obj {members : List (String × Json)} :
    (Json.obj members).isKeyed = true ↔
      (Fields.names members).Nodup ∧ ∀ member ∈ members, member.2.isKeyed = true := by
  rw [isKeyed, Bool.and_eq_true, decide_eq_true_iff, membersKeyed_iff]

/-! ### Parts of keyed values -/

/-- A member of a keyed object is keyed. -/
theorem isKeyed_of_get? {node value : Json} {name : String} (hnode : node.isKeyed = true)
    (h : node.get? name = some value) : value.isKeyed = true := by
  cases node with
  | obj members => exact (isKeyed_obj.1 hnode).2 (name, value) (Fields.mem_of_get? h)
  | _ => simp [get?] at h

/-- What stands at the end of a path through a keyed value is keyed. -/
theorem isKeyed_of_getPath? {path : List String} {node value : Json} (hnode : node.isKeyed = true)
    (h : node.getPath? path = some value) : value.isKeyed = true := by
  induction path generalizing node with
  | nil =>
    obtain rfl : node = value := by simpa [getPath?] using h
    exact hnode
  | cons name rest ih =>
    obtain ⟨next, hnext, hrest⟩ := Option.bind_eq_some_iff.1 h
    exact ih (isKeyed_of_get? hnode hnext) hrest

end Json

/-! ### What is read is keyed -/

theorem Json.isKeyed_put {members : List (String × Json)} {name : String} {value : Json}
    (hmembers : (Json.obj members).isKeyed = true) (hvalue : value.isKeyed = true) :
    (Json.obj (Fields.put members name value)).isKeyed = true := by
  rw [isKeyed_obj] at hmembers ⊢
  refine ⟨Fields.nodup_names_put hmembers.1 _ _, fun member hmember => ?_⟩
  rcases Fields.mem_put hmember with hmem | rfl
  · exact hmembers.2 member hmem
  · exact hvalue

namespace Document

theorem ok_of_within {α : Type} {step : PathStep} {result : Except Misfit α} {a : α}
    (h : within step result = .ok a) : result = .ok a := by
  cases result with
  | error e => cases h
  | ok b => exact h

mutual

/-- **A value that is read from a document is keyed.** -/
theorem isKeyed_of_value : ∀ {document : Document} {value : Json},
    document.value = .ok value → value.isKeyed = true
  | .null, _, h | .bool _, _, h | .num _, _, h | .str _, _, h => by
    cases h
    rfl
  | .broken _, _, h => by cases h
  | .arr items ending, value, h => by
    obtain ⟨values, hvalues, hrest⟩ := exists_of_bind_eq_ok h
    obtain ⟨-, -, hvalue⟩ := exists_of_bind_eq_ok hrest
    cases hvalue
    exact Json.isKeyed_arr.2 (isKeyed_of_itemValues hvalues)
  | .obj members ending, value, h => by
    obtain ⟨fields, hfields, hrest⟩ := exists_of_bind_eq_ok h
    obtain ⟨-, -, hvalue⟩ := exists_of_bind_eq_ok hrest
    cases hvalue
    exact isKeyed_of_memberValues rfl hfields

theorem isKeyed_of_itemValues : ∀ {index : Nat} {items : List Document} {values : List Json},
    itemValues index items = .ok values → ∀ value ∈ values, value.isKeyed = true
  | _, [], _, h => by
    cases h
    simp
  | index, item :: rest, values, h => by
    obtain ⟨first, hfirst, hnext⟩ := exists_of_bind_eq_ok h
    obtain ⟨others, hothers, hvalues⟩ := exists_of_bind_eq_ok hnext
    cases hvalues
    intro value hvalue
    rcases List.mem_cons.1 hvalue with rfl | hmem
    · exact isKeyed_of_value (ok_of_within hfirst)
    · exact isKeyed_of_itemValues hothers value hmem

theorem isKeyed_of_memberValues :
    ∀ {members : List (NamedPart Document)} {fields out : Fields Json},
    (Json.obj fields).isKeyed = true → memberValues fields members = .ok out →
    (Json.obj out).isKeyed = true
  | [], _, _, hfields, h => by
    cases h
    exact hfields
  | ⟨name, member, _⟩ :: rest, fields, out, hfields, h => by
    obtain ⟨first, hfirst, hnext⟩ := exists_of_bind_eq_ok h
    exact isKeyed_of_memberValues
      (Json.isKeyed_put hfields (isKeyed_of_value (ok_of_within hfirst))) hnext

end

end Document

end BuilderApi
