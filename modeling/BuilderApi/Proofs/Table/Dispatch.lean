import BuilderApi.Proofs.Json.Everywhere
import BuilderApi.Proofs.Json.Keyed
import BuilderApi.Table.Dispatch

/-!
# The rules of a dispatch table, at every depth

A table contains the rules of its cases, and those of the tables that its maps apply to items. A
property of rules, each seen together with the check in front of it, is a property of tables when it
holds of all of them (`BuilderApi.TypeTable.All`).

A table that was read owes its assignments to the value it was read from: what holds of that value,
and passes from an object to its members, holds of every value that is assigned
(`BuilderApi.TypeTable.all_of_parse`).
-/

namespace BuilderApi

namespace TypeTable

mutual

/-- The property holds of all rules of a table, at every depth. -/
def All (property : TypeCheck → TypeRule → Prop) : List (TypeCheck × TypeRule) → Prop
  | [] => True
  | (check, rule) :: rest => property check rule ∧ AllInside property rule ∧ All property rest

/-- The property holds of all rules of the table inside a rule. -/
def AllInside (property : TypeCheck → TypeRule → Prop) : TypeRule → Prop
  | .key _ _ => True
  | .map cases => All property cases

end

variable {p q : TypeCheck → TypeRule → Prop}

mutual

theorem All.and : ∀ {table : List (TypeCheck × TypeRule)}, All p table → All q table →
    All (fun check rule => p check rule ∧ q check rule) table
  | [], _, _ => trivial
  | (_, _) :: _, hp, hq => ⟨⟨hp.1, hq.1⟩, AllInside.and hp.2.1 hq.2.1, All.and hp.2.2 hq.2.2⟩

theorem AllInside.and : ∀ {rule : TypeRule}, AllInside p rule → AllInside q rule →
    AllInside (fun check rule => p check rule ∧ q check rule) rule
  | .key _ _, _, _ => trivial
  | .map cases, hp, hq => by
    have hcases : All p cases := hp
    exact hcases.and hq

end

/-! ### Where assigned values come from -/

/-- The property holds of the values that a rule assigns itself. -/
def Assigns (property : Json → Prop) (_ : TypeCheck) : TypeRule → Prop
  | .key _ set => ∀ member ∈ set, property member.2
  | .map _ => True

/-- A property that passes from an object to the values of its members. -/
def Hereditary (property : Json → Prop) : Prop :=
  ∀ members, property (.obj members) → ∀ member ∈ members, property member.2

theorem hereditary_isKeyed : Hereditary fun value => value.isKeyed = true :=
  fun _ h => (Json.isKeyed_obj.1 h).2

theorem hereditary_everywhere (test : Json → Bool) :
    Hereditary fun value => value.everywhere test = true :=
  fun _ h => (Json.everywhere_obj.1 h).2

variable {property : Json → Prop} {method : String}

theorem assigns_of_parseKeyRule (hproperty : Hereditary property) {members : List (String × Json)}
    {name : String} {rule : TypeRule}
    (hmembers : ∀ member ∈ members, property member.2)
    (h : parseKeyRule method name members = .ok rule) (check : TypeCheck) :
    Assigns property check rule ∧ AllInside (Assigns property) rule := by
  unfold parseKeyRule at h
  split at h
  · cases h
  · split at h
    · cases h
      exact ⟨by simp [Assigns], trivial⟩
    · cases h
      exact ⟨by simp [Assigns], trivial⟩
    · next set hset =>
      cases h
      exact ⟨hproperty set (hmembers ("set", .obj set) (Fields.mem_of_get? hset)), trivial⟩
    · cases h

mutual

/-- **A table assigns values that are parts of the value it was read from.** -/
theorem all_of_parse (hproperty : Hereditary property) : ∀ {value : Json} {table : TypeTable},
    property value → parse method value = .ok table → All (Assigns property) table
  | .obj members, _, hvalue, h => all_of_parseCases hproperty (hproperty members hvalue) h
  | .null, _, _, h | .bool _, _, _, h | .num _, _, _, h | .str _, _, _, h | .arr _, _, _, h => by
    cases h

theorem all_of_parseCases (hproperty : Hereditary property) :
    ∀ {members : List (String × Json)} {table : TypeTable},
    (∀ member ∈ members, property member.2) → parseCases method members = .ok table →
    All (Assigns property) table
  | [], _, _, h => by
    cases h
    trivial
  | (name, value) :: rest, table, hmembers, h => by
    rw [parseCases] at h
    split at h
    · cases h
    · next check hcheck =>
      obtain ⟨rule, hrule, hnext⟩ := exists_of_bind_eq_ok h
      obtain ⟨cases, hcases, htable⟩ := exists_of_bind_eq_ok hnext
      cases htable
      obtain ⟨hvalue, hrest⟩ := List.forall_mem_cons.1 hmembers
      obtain ⟨hassigns, hinside⟩ := all_of_parseRule hproperty hvalue hrule check
      exact ⟨hassigns, hinside, all_of_parseCases hproperty hrest hcases⟩

theorem all_of_parseRule (hproperty : Hereditary property) :
    ∀ {value : Json} {name : String} {rule : TypeRule}, property value →
    parseRule method name value = .ok rule → ∀ check : TypeCheck,
    Assigns property check rule ∧ AllInside (Assigns property) rule
  | .obj members, name, rule, hvalue, h, check => by
    rw [parseRule] at h
    split at h
    · next result hresult =>
      obtain ⟨table, rfl, hrule⟩ := exists_of_bind_eq_ok h
      cases hrule
      exact ⟨trivial, all_of_parseMap hproperty (hproperty members hvalue) hresult⟩
    · exact assigns_of_parseKeyRule hproperty (hproperty members hvalue) h check
  | .null, _, _, _, h, _ | .bool _, _, _, _, h, _ | .num _, _, _, _, h, _ | .str _, _, _, _, h, _
  | .arr _, _, _, _, h, _ => by cases h

theorem all_of_parseMap (hproperty : Hereditary property) :
    ∀ {members : List (String × Json)} {table : TypeTable},
    (∀ member ∈ members, property member.2) → parseMap method members = some (.ok table) →
    All (Assigns property) table
  | [], _, _, h => by cases h
  | (name, value) :: rest, table, hmembers, h => by
    obtain ⟨hvalue, hrest⟩ := List.forall_mem_cons.1 hmembers
    rw [parseMap] at h
    split at h
    · exact all_of_parse hproperty hvalue (Option.some.inj h)
    · exact all_of_parseMap hproperty hrest h

end

end TypeTable

end BuilderApi
