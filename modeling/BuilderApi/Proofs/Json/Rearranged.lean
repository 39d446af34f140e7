import BuilderApi.Json.Merge
import BuilderApi.Proofs.Fields

/-!
# Values up to the order of members

Two runs that put the same values under different names in different orders leave fields that differ
in the places of the names that are new, and in nothing else. Such fields are **rearranged**
(`BuilderApi.Fields.Rearranges`): they become one another by swapping neighbours with different
names. Values under the same name stay in their order, so nothing has to be known about repeated
names, and what is looked up is the same (`BuilderApi.Fields.Rearranges.get?_eq`).

The values under the names may in turn be related by something weaker than equality. With
rearranging itself in this place, values are equal up to the order of the members of objects at
every depth (`BuilderApi.Json.Rearranges`).
-/

namespace BuilderApi

namespace Fields

variable {α : Type} {R : α → α → Prop} {fields other : Fields α} {name : String} {value value' : α}

/-- Fields that become one another by swapping neighbours with different names, and by passing from
values to related ones. -/
inductive Rearranges (R : α → α → Prop) : Fields α → Fields α → Prop where
  /-- No fields. -/
  | nil : Rearranges R [] []
  /-- Related values under the same name. -/
  | cons {name : String} {value value' : α} {rest rest' : Fields α} (hvalue : R value value')
      (hrest : Rearranges R rest rest') :
      Rearranges R ((name, value) :: rest) ((name, value') :: rest')
  /-- Neighbours with different names. -/
  | swap {name name' : String} {value value' : α} {rest : Fields α} (hne : name ≠ name') :
      Rearranges R ((name, value) :: (name', value') :: rest)
        ((name', value') :: (name, value) :: rest)
  /-- One step after another. -/
  | trans {first second third : Fields α} (h : Rearranges R first second)
      (h' : Rearranges R second third) :
      Rearranges R first third

namespace Rearranges

theorem refl (hR : ∀ v, R v v) (fields : Fields α) : Rearranges R fields fields := by
  induction fields with
  | nil => exact .nil
  | cons field rest ih => exact .cons (hR field.2) ih

theorem mono {S : α → α → Prop} (hRS : ∀ v v', R v v' → S v v') (h : Rearranges R fields other) :
    Rearranges S fields other := by
  induction h with
  | nil => exact .nil
  | cons hvalue _ ih => exact .cons (hRS _ _ hvalue) ih
  | swap hne => exact .swap hne
  | trans _ _ ih ih' => exact .trans ih ih'

theorem symm (h : Rearranges R fields other) : Rearranges (fun v v' => R v' v) other fields := by
  induction h with
  | nil => exact .nil
  | cons hvalue _ ih => exact .cons hvalue ih
  | swap hne => exact .swap (Ne.symm hne)
  | trans _ _ ih ih' => exact ih'.trans ih

/-- What is looked up is related, or there is nothing on either side. -/
theorem get?_rel (hR : ∀ v, R v v) (htrans : ∀ u v w, R u v → R v w → R u w)
    (h : Rearranges R fields other) (name : String) :
    Option.Rel R (get? fields name) (get? other name) := by
  have hfound : ∀ found : Option α, Option.Rel R found found
    | none => .none
    | some v => .some (hR v)
  have hchain : ∀ {first second third : Option α},
      Option.Rel R first second → Option.Rel R second third → Option.Rel R first third
    | _, _, _, .none, .none => .none
    | _, _, _, .some h, .some h' => .some (htrans _ _ _ h h')
  induction h with
  | nil => exact .none
  | @cons k v v' _ _ hvalue _ ih =>
    by_cases hk : k = name
    · simpa [get?, hk] using Option.Rel.some hvalue
    · simpa [get?, hk] using ih
  | @swap k k' _ _ _ hne =>
    by_cases hk : k = name
    · simp [get?, hk, Ne.symm (hk ▸ hne), hfound]
    · simp [get?, hk, hfound]
  | trans _ _ ih ih' => exact hchain ih ih'

/-- **What is looked up does not depend on the arrangement.** -/
theorem get?_eq (h : Rearranges Eq fields other) (name : String) :
    get? fields name = get? other name := by
  have hrel := h.get?_rel (fun _ => rfl) (fun _ _ _ => Eq.trans) name
  generalize get? fields name = found, get? other name = found' at hrel
  cases hrel with
  | none => rfl
  | some hvalue => rw [hvalue]

theorem length_eq (h : Rearranges R fields other) : fields.length = other.length := by
  induction h with
  | nil => rfl
  | cons _ _ ih => rw [List.length_cons, List.length_cons, ih]
  | swap => rfl
  | trans _ _ ih ih' => exact ih.trans ih'

variable (hR : ∀ v, R v v)
include hR

/-- Leaving out the same names keeps an arrangement. -/
theorem filter (keep : String → Bool) (h : Rearranges R fields other) :
    Rearranges R (fields.filter fun field => keep field.1)
      (other.filter fun field => keep field.1) := by
  induction h with
  | nil => exact .nil
  | @cons k v v' rest rest' hvalue _ ih =>
    cases hk : keep k with
    | true => simpa [hk] using ih.cons hvalue
    | false => simpa [hk] using ih
  | @swap k k' v v' rest hne =>
    have hrest := refl hR (rest.filter fun field => keep field.1)
    cases hk : keep k <;> cases hk' :
      keep k' <;> simp only [List.filter_cons, hk, hk', reduceIte, Bool.false_eq_true]
    · exact hrest
    · exact hrest.cons (hR v')
    · exact hrest.cons (hR v)
    · exact .swap hne
  | trans _ _ ih ih' => exact ih.trans ih'

/-- A new name may stand in front as well as behind. -/
theorem cons_put (hname : name ∉ names fields) (value : α) :
    Rearranges R ((name, value) :: fields) (fields.put name value) := by
  induction fields with
  | nil => exact refl hR _
  | cons field rest ih =>
    obtain ⟨k, v⟩ := field
    obtain ⟨hne, hrest⟩ := not_or.1 (mt List.mem_cons.2 hname)
    rw [Fields.put, if_neg (Ne.symm hne)]
    exact (swap hne).trans ((ih hrest).cons (hR v))

/-- Related values may be put under one name. -/
theorem put_value (fields : Fields α) (name : String) (hvalue : R value value') :
    Rearranges R (fields.put name value) (fields.put name value') := by
  induction fields with
  | nil => exact .cons hvalue .nil
  | cons field rest ih =>
    obtain ⟨k, v⟩ := field
    by_cases hk : k = name
    · simpa [Fields.put, hk] using (refl hR rest).cons hvalue
    · simpa [Fields.put, hk] using ih.cons (hR v)

/-- **A put keeps an arrangement**: a name is replaced in its place or goes to the end, on either
side. -/
theorem put (h : Rearranges R fields other) (name : String) (value : α) :
    Rearranges R (fields.put name value) (other.put name value) := by
  induction h with
  | nil => exact refl hR _
  | @cons k v v' rest rest' hvalue hrest ih =>
    by_cases hk : k = name
    · simpa [Fields.put, hk] using hrest.cons (hR value)
    · simpa [Fields.put, hk] using ih.cons hvalue
  | @swap k k' v v' rest hne =>
    by_cases hk : k = name
    · subst hk
      simpa [Fields.put, Ne.symm hne] using swap hne
    · by_cases hk' : k' = name
      · subst hk'
        simpa [Fields.put, hne] using swap hne
      · simpa [Fields.put, hk, hk'] using swap hne
  | trans _ _ ih ih' => exact ih.trans ih'

theorem putAll (h : Rearranges R fields other) (pairs : List (String × α)) :
    Rearranges R (fields.putAll pairs) (other.putAll pairs) := by
  induction pairs generalizing fields other with
  | nil => exact h
  | cons pair pairs ih => exact ih (h.put hR pair.1 pair.2)

end Rearranges

/-! ### Puts under different names -/

/-- **Puts under different names may be swapped.** -/
theorem put_put_rearranges (hR : ∀ v, R v v) (fields : Fields α) {name name' : String}
    (hne : name ≠ name') (value value' : α) :
    ((fields.put name value).put name' value').Rearranges R
      ((fields.put name' value').put name value) := by
  induction fields with
  | nil => simpa [put, hne, Ne.symm hne] using Rearranges.swap hne
  | cons field rest ih =>
    obtain ⟨k, v⟩ := field
    by_cases hk : k = name
    · subst hk
      simpa [put, hne] using Rearranges.refl hR _
    · by_cases hk' : k = name'
      · subst hk'
        simpa [put, hk] using Rearranges.refl hR _
      · simpa [put, hk, hk'] using ih.cons (hR v)

theorem putAll_put_rearranges (hR : ∀ v, R v v) (fields : Fields α) {name : String} (value : α)
    {pairs : List (String × α)} (hname : name ∉ names pairs) :
    ((fields.put name value).putAll pairs).Rearranges R ((fields.putAll pairs).put name value) := by
  induction pairs generalizing fields with
  | nil => exact .refl hR _
  | cons pair pairs ih =>
    obtain ⟨hne, hname⟩ := not_or.1 (mt List.mem_cons.2 hname)
    exact ((put_put_rearranges hR fields hne value pair.2).putAll hR pairs).trans
      (ih (fields.put pair.1 pair.2) hname)

/-- **Lists of pairs without a common name may be put in either order.** -/
theorem putAll_putAll_rearranges (hR : ∀ v, R v v) (fields : Fields α)
    {pairs more : List (String × α)} (hdisjoint : (names pairs).Disjoint (names more)) :
    ((fields.putAll pairs).putAll more).Rearranges R ((fields.putAll more).putAll pairs) := by
  induction pairs generalizing fields with
  | nil => exact .refl hR _
  | cons pair pairs ih =>
    obtain ⟨hname, hdisjoint⟩ := List.disjoint_cons_left.1 hdisjoint
    exact (ih (fields.put pair.1 pair.2) hdisjoint).trans
      ((putAll_put_rearranges hR fields pair.2 hname).putAll hR pairs)

end Fields

/-! ### Values -/

theorem forall₂_comp {α : Type} {R S T : α → α → Prop} (hcomp : ∀ a b c, R a b → S b c → T a c) :
    ∀ {as bs cs : List α}, List.Forall₂ R as bs → List.Forall₂ S bs cs → List.Forall₂ T as cs
  | _, _, _, .nil, .nil => .nil
  | _, _, _, .cons h hrest, .cons h' hrest' =>
    .cons (hcomp _ _ _ h h') (forall₂_comp hcomp hrest hrest')

/-- Values that are equal up to the order of the members of objects, at any depth. -/
inductive Json.Rearranges : Json → Json → Prop where
  /-- Equal values. -/
  | refl (value : Json) : Rearranges value value
  /-- Arrays, item by item. -/
  | arr {items items' : List Json} (h : List.Forall₂ Json.Rearranges items items') :
      Rearranges (.arr items) (.arr items')
  /-- Objects, whose members may be rearranged. -/
  | obj {members members' : Fields Json} (h : members.Rearranges Json.Rearranges members') :
      Rearranges (.obj members) (.obj members')

namespace Json.Rearranges

variable {value value' value'' : Json} {items items' : List Json} {members members' : Fields Json}

/-- Induction on an arrangement, with what holds of the parts that are related. -/
theorem induct {P : Json → Json → Prop} (hrefl : ∀ value, P value value)
    (harr : ∀ items items' : List Json,
      List.Forall₂ (fun v v' => v.Rearranges v' ∧ P v v') items items' → P (.arr items)
      (.arr items'))
    (hobj : ∀ members members' : Fields Json,
      Fields.Rearranges (fun v v' => v.Rearranges v' ∧ P v v') members members' → P (.obj members)
      (.obj members'))
    (h : value.Rearranges value') : P value value' := by
  refine (@Json.Rearranges.rec (fun v v' _ => v.Rearranges v' ∧ P v v')
    (fun items items' _ => List.Forall₂ (fun v v' => v.Rearranges v' ∧ P v v') items items')
    (fun members members' _ =>
      Fields.Rearranges (fun v v' => v.Rearranges v' ∧ P v v') members members')
    ?refl ?arr ?obj ?nil ?cons ?noFields ?field ?swap ?trans _ _ h).2
  case refl => exact fun v => ⟨.refl v, hrefl v⟩
  case arr => exact fun h ih => ⟨.arr h, harr _ _ ih⟩
  case obj => exact fun h ih => ⟨.obj h, hobj _ _ ih⟩
  case nil => exact .nil
  case cons => exact fun _ _ ih ihrest => .cons ih ihrest
  case noFields => exact .nil
  case field => exact fun _ _ ih ihrest => .cons ih ihrest
  case swap => exact .swap
  case trans => exact fun _ _ => .trans

theorem symm (h : value.Rearranges value') : value'.Rearranges value := by
  refine induct (P := fun v v' => v'.Rearranges v) .refl (fun items items' hitems => ?_)
    (fun members members' hmembers => ?_) h
  · exact .arr (List.Forall₂.flip (hitems.imp fun _ _ hpart => hpart.2))
  · exact .obj (hmembers.symm.mono fun _ _ hpart => hpart.2)

theorem trans (h : value.Rearranges value') (h' : value'.Rearranges value'') :
    value.Rearranges value'' := by
  refine induct (P := fun v v' => ∀ {v''}, v'.Rearranges v'' → v.Rearranges v'') (fun _ _ h => h)
    (fun items items' hitems v'' h' => ?_) (fun members members' hmembers v'' h' => ?_) h h'
  · cases h' with
    | refl => exact .arr (hitems.imp fun _ _ hpart => hpart.1)
    | arr hitems' => exact .arr (forall₂_comp (fun _ _ _ hpart => hpart.2) hitems hitems')
  · have hmembers := hmembers.mono fun _ _ hpart => hpart.1
    cases h' with
    | refl => exact .obj hmembers
    | obj hmembers' => exact .obj (hmembers.trans hmembers')

/-- What is not null is not equal to null up to the order of members. -/
theorem ne_null (h : value.Rearranges value') (hne : value ≠ .null) : value' ≠ .null := by
  cases h with
  | refl => exact hne
  | arr => exact nofun
  | obj => exact nofun

theorem members_of_obj (h : (Json.obj members).Rearranges (.obj members')) :
    members.Rearranges Json.Rearranges members' := by
  cases h with
  | refl => exact .refl .refl _
  | obj h => exact h

/-- **Moving fields down keeps an arrangement.** -/
theorem nest (h : value.Rearranges value') (keys : List String) (rest : String) :
    (Json.nest keys rest value).Rearranges (Json.nest keys rest value') := by
  cases h with
  | refl => exact .refl _
  | arr h => exact .arr h
  | @obj members members' h =>
    have htop := h.filter .refl fun name => keys.contains name
    have hothers := h.filter .refl fun name => !keys.contains name
    -- the name under which the others go is added on both sides or on neither
    have hempty : (members.filter fun field => !keys.contains field.1).isEmpty =
        (members'.filter fun field => !keys.contains field.1).isEmpty := by
      rw [Bool.eq_iff_iff, List.isEmpty_iff_length_eq_zero, List.isEmpty_iff_length_eq_zero,
        hothers.length_eq]
    unfold Json.nest
    dsimp only
    rw [hempty]
    split
    · exact .obj htop
    · exact .obj ((htop.put .refl rest _).trans (.put_value .refl _ rest (.obj hothers)))

end Json.Rearranges

end BuilderApi
