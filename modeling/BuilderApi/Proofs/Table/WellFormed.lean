import BuilderApi.Proofs.Results
import BuilderApi.Table.Validation

/-!
# Which tables are accepted

A declared table is accepted when each of its entries is well formed, and only then; and a table
that is refused is refused for its first entry that is not
(`BuilderApi.Table.accepts_iff_wellFormed`).

What well formed means is said here without the readers: which names an argument may have, which
values are dispatch tables, which are serialization keys. Every reader is then shown to **judge**
its condition (`BuilderApi.Judges`): it succeeds exactly when the condition holds, and when it
fails, its error names the entry. Judging is kept by doing one thing after another, so the proof
follows the readers down and back up.

In one place two readings of a table are possible. A rule may have a key and a map at once, and then
the map decides, even if it is no table. So what it takes for a rule to wrap a value is a parameter
of the conditions: `BuilderApi.Json.Wraps` looks at the key and the assignments only, and
`BuilderApi.Json.WrapsAlone`, which is what the readers judge, also wants no map beside them.
-/

namespace BuilderApi

/-! ### Readers that judge -/

/-- The entry that an error is about. -/
def TableError.entry? : TableError → Option String
  | .terminalNotFirst method _ _ | .trailingBinding method _ | .extensionArity method _ _
  | .unknownTypeCheck method _ | .malformedTypeRule method _ _ | .malformedBinding method _
  | .invalidDefault method _ | .malformedKey method _ => some method
  | .misfit _ => none

/-- The result is a success exactly when the condition holds, and a failure names the entry. -/
structure Judges {α : Type} (method : String) (result : Except TableError α)
    (condition : Prop) : Prop where
  /-- Success means the condition. -/
  ok_iff : (∃ a, result = .ok a) ↔ condition
  /-- A failure names the entry. -/
  names : ∀ e, result = .error e → e.entry? = some method

namespace Judges

variable {α β : Type} {method : String} {result : Except TableError α}
  {next : α → Except TableError β} {p q : Prop}

/-- A result without error judges what always holds. -/
theorem ok (a : α) : Judges method (.ok a : Except TableError α) True := by
  constructor
  · exact ⟨fun _ => trivial, fun _ => ⟨a, rfl⟩⟩
  · intro e h
    cases h

/-- An error that names the entry judges what never holds. -/
theorem error {e : TableError} (h : e.entry? = some method) :
    Judges method (.error e : Except TableError α) False := by
  constructor
  · constructor
    · rintro ⟨a, ha⟩
      cases ha
    · exact False.elim
  · intro e' he
    cases he
    exact h

theorem congr (h : Judges method result p) (hpq : p ↔ q) : Judges method result q :=
  ⟨h.ok_iff.trans hpq, h.names⟩

/-- One thing after another judges both conditions. -/
theorem bind (h : Judges method result p) (hnext : ∀ a, result = .ok a → Judges method (next a) q) :
    Judges method (result >>= next) (p ∧ q) := by
  cases hresult : result with
  | error e =>
    have hp : ¬p := fun hp => by
      obtain ⟨a, ha⟩ := h.ok_iff.2 hp
      rw [hresult] at ha
      cases ha
    exact (error (h.names e hresult)).congr ⟨False.elim, fun hpq => hp hpq.1⟩
  | ok a =>
    have hp : p := h.ok_iff.1 ⟨a, hresult⟩
    exact (hnext a hresult).congr (and_iff_right hp).symm

/-- What is made of a success does not matter. -/
theorem map (h : Judges method result p) (f : α → β) :
    Judges method (result >>= fun a => .ok (f a)) p :=
  (h.bind fun a _ => ok (f a)).congr (and_iff_left trivial)

/-- A check of its own. -/
theorem ite {a : α} {e : TableError} [Decidable p] (h : e.entry? = some method) :
    Judges method (if p then .ok a else .error e : Except TableError α) p := by
  split
  · next hp => exact (ok a).congr (iff_of_true trivial hp)
  · next hp => exact (error h).congr (iff_of_false not_false hp)

/-- A list of computations judges all of their conditions. -/
theorem mapM {as : List α} {f : α → Except TableError β} {p : α → Prop}
    (h : ∀ a ∈ as, Judges method (f a) (p a)) : Judges method (as.mapM f) (∀ a ∈ as, p a) := by
  induction as with
  | nil => exact (ok []).congr (by simp)
  | cons a as ih =>
    rw [List.mapM_cons]
    have has := ih fun b hb => h b (List.mem_cons_of_mem a hb)
    exact ((h a List.mem_cons_self).bind fun b _ => has.map _).congr List.forall_mem_cons.symm

end Judges

/-! ### Argument bindings -/

/-- The sigils of bindings that take all arguments. -/
def takingSigils : List String := [":::", "..."]

/-- The sigils of hidden fields. -/
def hidingSigils : List String := ["^", "_"]

/-- The sigils of argument names. -/
def sigils : List String := takingSigils ++ hidingSigils

/-- A name without a sigil. -/
def Bare (name : String) : Prop := ∀ sigil ∈ sigils, ∀ rest, name ≠ sigil ++ rest

/-- A text that names something, behind its sigil if it has one. -/
inductive Names : String → Prop
  /-- All arguments. -/
  | taking {sigil name : String} (h : sigil ∈ takingSigils) (hname : name ≠ "") :
      Names (sigil ++ name)
  /-- A hidden field, which takes more than underscores. -/
  | hidden {sigil name : String} (h : sigil ∈ hidingSigils) (hname : ∃ c ∈ name.toList, c ≠ '_') :
    Names (sigil ++ name)
  /-- A property. -/
  | bare {name : String} (h : Bare name) (hname : name ≠ "") : Names name

/-- A default that can be read: text has to hold a JSON document. -/
def Json.IsDefault : Json → Prop
  | .str text => ∃ value, Json.parse? text = some value
  | _ => True

namespace ArgDecl

/-- The declaration names something, and its default can be read. -/
def WellFormed : ArgDecl → Prop
  | .sigil text => Names text
  | .withDefault prop value => (Bare prop ∧ prop ≠ "") ∧ value.IsDefault

/-- The declaration takes all arguments. -/
def TakesAll : ArgDecl → Prop
  | .sigil text => ∃ sigil ∈ takingSigils, ∃ name, text = sigil ++ name
  | .withDefault _ _ => False

/-- Every declaration is well formed, and one that takes all arguments is the only one. -/
def AllWellFormed (decls : List ArgDecl) : Prop :=
  (∀ decl ∈ decls, decl.WellFormed) ∧ ∀ decl ∈ decls, decl.TakesAll → decls = [decl]

end ArgDecl

/-- What stands behind a sigil is what is left once the sigil is taken off the front. -/
theorem behind?_eq_some_iff {sigil text rest : String} :
    behind? sigil text = some rest ↔ text = sigil ++ rest := by
  unfold behind?
  split
  · next h =>
    obtain ⟨tail, htail⟩ := List.isPrefixOf_iff_prefix.1 h
    have hdrop : text.toList.drop sigil.length = tail := by
      rw [← htail, ← String.length_toList, List.drop_left]
    rw [Option.some.injEq, hdrop]
    constructor
    · rintro rfl
      exact String.toList_inj.1 (by simp [← htail])
    · rintro rfl
      simpa using congrArg String.ofList htail
  · next h =>
    refine iff_of_false (by simp) ?_
    rintro rfl
    exact h (List.isPrefixOf_iff_prefix.2 (by simp))

/-- Nothing stands behind a sigil that the text does not begin with. -/
theorem behind?_eq_none_iff {sigil text : String} :
    behind? sigil text = none ↔ ∀ rest, text ≠ sigil ++ rest := by
  constructor
  · intro h rest htext
    rw [behind?_eq_some_iff.2 htext] at h
    cases h
  · intro h
    cases hbehind : behind? sigil text with
    | none => rfl
    | some rest => exact absurd (behind?_eq_some_iff.1 hbehind) (h rest)

/-- The sigils begin differently, so a text has one reading. -/
theorem sigil_inj {sigil sigil' : String} (h : sigil ∈ sigils) (h' : sigil' ∈ sigils)
    {rest rest' : String} (heq : sigil ++ rest = sigil' ++ rest') :
    sigil = sigil' ∧ rest = rest' := by
  have hheads : ∀ s ∈ sigils, ∀ s' ∈ sigils, s.toList.head? = s'.toList.head? → s = s' := by decide
  have hnil : ∀ s ∈ sigils, s.toList ≠ [] := by decide
  have hhead := congrArg (fun text : String => text.toList.head?) heq
  simp only [String.toList_append, List.head?_append_of_ne_nil _ (hnil _ h),
    List.head?_append_of_ne_nil _ (hnil _ h')] at hhead
  obtain rfl := hheads sigil h sigil' h' hhead
  exact ⟨rfl, (String.append_right_inj sigil).1 heq⟩

theorem mem_sigils_of_taking {sigil : String} (h : sigil ∈ takingSigils) : sigil ∈ sigils :=
  List.mem_append_left _ h

theorem mem_sigils_of_hiding {sigil : String} (h : sigil ∈ hidingSigils) : sigil ∈ sigils :=
  List.mem_append_right _ h

/-- No sigil both hides a field and takes all arguments. -/
theorem not_taking_of_hiding {sigil : String} (h : sigil ∈ hidingSigils) :
    sigil ∉ takingSigils := by
  have hall : ∀ s ∈ hidingSigils, s ∉ takingSigils := by decide
  exact hall sigil h

/-- Behind a sigil that takes all arguments any name will do, unless it is empty. -/
theorem names_taking_iff {sigil name : String} (h : sigil ∈ takingSigils) :
    Names (sigil ++ name) ↔ name ≠ "" := by
  refine ⟨fun hnames => ?_, .taking h⟩
  generalize htext : sigil ++ name = text at hnames
  cases hnames with
  | taking h' hname =>
    obtain ⟨-, rfl⟩ := sigil_inj (mem_sigils_of_taking h) (mem_sigils_of_taking h') htext
    exact hname
  | hidden h' hname =>
    obtain ⟨rfl, -⟩ := sigil_inj (mem_sigils_of_taking h) (mem_sigils_of_hiding h') htext
    exact absurd h (not_taking_of_hiding h')
  | bare hbare hname => exact absurd htext.symm (hbare sigil (mem_sigils_of_taking h) name)

/-- Behind a sigil that hides a field the name has to have more than underscores. -/
theorem names_hiding_iff {sigil name : String} (h : sigil ∈ hidingSigils) :
    Names (sigil ++ name) ↔ ∃ c ∈ name.toList, c ≠ '_' := by
  refine ⟨fun hnames => ?_, .hidden h⟩
  generalize htext : sigil ++ name = text at hnames
  cases hnames with
  | taking h' hname =>
    obtain ⟨rfl, -⟩ := sigil_inj (mem_sigils_of_hiding h) (mem_sigils_of_taking h') htext
    exact absurd h' (not_taking_of_hiding h)
  | hidden h' hname =>
    obtain ⟨-, rfl⟩ := sigil_inj (mem_sigils_of_hiding h) (mem_sigils_of_hiding h') htext
    exact hname
  | bare hbare hname => exact absurd htext.symm (hbare sigil (mem_sigils_of_hiding h) name)

/-- Without a sigil any name will do, unless it is empty. -/
theorem names_bare_iff {name : String} (h : Bare name) : Names name ↔ name ≠ "" := by
  refine ⟨fun hnames => ?_, .bare h⟩
  cases hnames with
  | taking h' hname => exact absurd rfl (h _ (mem_sigils_of_taking h') _)
  | hidden h' hname => exact absurd rfl (h _ (mem_sigils_of_hiding h') _)
  | bare _ hname => exact hname

namespace ArgBinding

/-- The three kinds of texts, and what they are read as. -/
theorem parse_cases (text : String) :
    (∃ sigil ∈ takingSigils, ∃ name, text = sigil ++ name ∧
      (parse text = .merge name ∨ parse text = .spread name)) ∨
    (∃ sigil ∈ hidingSigils, ∃ name autogen, text = sigil ++ name ∧
      (parse text = .hidden name autogen ∨ parse text = .hidden ("_" ++ name) autogen)) ∨
    (Bare text ∧ parse text = .positional text) := by
  unfold parse
  split
  · next name h =>
    exact .inl ⟨":::", by decide, name, behind?_eq_some_iff.1 h, .inl rfl⟩
  · next name _ h =>
    exact .inl ⟨"...", by decide, name, behind?_eq_some_iff.1 h, .inr rfl⟩
  · next name _ _ h =>
    exact .inr (.inl ⟨"^", by decide, name, _, behind?_eq_some_iff.1 h, .inl rfl⟩)
  · next name _ _ _ h =>
    obtain rfl := behind?_eq_some_iff.1 h
    exact .inr (.inl ⟨"_", by decide, name, none, rfl, .inr rfl⟩)
  · next h₁ h₂ h₃ h₄ =>
    refine .inr (.inr ⟨?_, rfl⟩)
    intro sigil hsigil
    simp only [sigils, takingSigils, hidingSigils, List.cons_append, List.nil_append, List.mem_cons,
      List.not_mem_nil, or_false] at hsigil
    rcases hsigil with rfl | rfl | rfl | rfl
    · exact behind?_eq_none_iff.1 h₁
    · exact behind?_eq_none_iff.1 h₂
    · exact behind?_eq_none_iff.1 h₃
    · exact behind?_eq_none_iff.1 h₄

/-- A binding fills something when its text names something. -/
theorem isNamed_parse_iff {text : String} : (parse text).isNamed = true ↔ Names text := by
  rcases parse_cases text with
    ⟨sigil, h, name, rfl, hparse⟩ | ⟨sigil, h, name, autogen, rfl, hparse⟩ | ⟨h, hparse⟩
  · rw [names_taking_iff h]
    rcases hparse with hparse | hparse <;> simp [hparse, isNamed]
  · rw [names_hiding_iff h]
    rcases hparse with hparse | hparse <;> simp [hparse, isNamed]
  · rw [names_bare_iff h]
    simp [hparse, isNamed]

/-- A binding takes all arguments when its text has one of the sigils that say so. -/
theorem isTerminal_parse_iff {text : String} :
    (parse text).isTerminal = true ↔ (ArgDecl.sigil text).TakesAll := by
  rcases parse_cases text with
    ⟨sigil, h, name, rfl, hparse⟩ | ⟨sigil, h, name, autogen, rfl, hparse⟩ | ⟨h, hparse⟩
  · refine iff_of_true ?_ ⟨sigil, h, name, rfl⟩
    rcases hparse with hparse | hparse <;> rw [hparse] <;> rfl
  · refine iff_of_false ?_ ?_
    · rcases hparse with hparse | hparse <;> simp [hparse, isTerminal]
    · rintro ⟨sigil', h', name', heq⟩
      obtain ⟨rfl, -⟩ := sigil_inj (mem_sigils_of_hiding h) (mem_sigils_of_taking h') heq
      exact not_taking_of_hiding h h'
  · refine iff_of_false (by simp [hparse, isTerminal]) ?_
    rintro ⟨sigil', h', name', rfl⟩
    exact h sigil' (mem_sigils_of_taking h') name' rfl

/-- A text is read as a property when it has no sigil. -/
theorem parse_eq_positional_iff {text prop : String} :
    parse text = .positional prop ↔ Bare text ∧ prop = text := by
  rcases parse_cases text with
    ⟨sigil, h, name, rfl, hparse⟩ | ⟨sigil, h, name, autogen, rfl, hparse⟩ | ⟨h, hparse⟩
  · refine iff_of_false ?_ fun hbare => hbare.1 sigil (mem_sigils_of_taking h) name rfl
    rcases hparse with hparse | hparse <;> simp [hparse]
  · refine iff_of_false ?_ fun hbare => hbare.1 sigil (mem_sigils_of_hiding h) name rfl
    rcases hparse with hparse | hparse <;> simp [hparse]
  · simp [hparse, h, eq_comm]

end ArgBinding

/-! ### Judging bindings -/

section

variable {method : String}

/-- A default is read unless it is a text that holds no document. -/
theorem judges_defaultLiteral (value : Json) :
    Judges method (defaultLiteral method value) value.IsDefault := by
  cases value with
  | str text =>
    rw [defaultLiteral]
    cases h : Json.parse? text with
    | none => exact (Judges.error rfl).congr (by simp [Json.IsDefault, h])
    | some value => exact (Judges.ok value).congr (by simp [Json.IsDefault, h])
  | _ => exact Judges.ok _

/-- A binding is read exactly if its declaration is well formed. -/
theorem judges_binding (decl : ArgDecl) : Judges method (decl.binding method) decl.WellFormed := by
  cases decl with
  | sigil text => exact (Judges.ite rfl).congr ArgBinding.isNamed_parse_iff
  | withDefault prop value =>
    rw [ArgDecl.binding, ArgDecl.WellFormed]
    by_cases hbare : Bare prop
    · rw [ArgBinding.parse_eq_positional_iff.2 ⟨hbare, rfl⟩]
      by_cases hempty : prop = ""
      · rw [if_pos hempty]
        exact (Judges.error rfl).congr (by simp [hempty])
      · rw [if_neg hempty]
        exact ((judges_defaultLiteral value).map _).congr (by simp [hbare, hempty])
    · split
      · next other hparse => exact absurd (ArgBinding.parse_eq_positional_iff.1 hparse).1 hbare
      · exact (Judges.error rfl).congr (by simp [hbare])

/-- The binding of a declaration takes all arguments when the declaration says so. -/
theorem isTerminal_of_binding {decl : ArgDecl} {b : ArgBinding} (h : decl.binding method = .ok b) :
    b.isTerminal = true ↔ decl.TakesAll := by
  cases decl with
  | sigil text =>
    rw [ArgDecl.binding] at h
    split at h
    · cases h
      exact ArgBinding.isTerminal_parse_iff
    · cases h
  | withDefault prop value =>
    rw [ArgDecl.binding] at h
    split at h
    · split at h
      · cases h
      · obtain ⟨value', -, hb⟩ := exists_of_bind_eq_ok h
        cases hb
        simp [ArgBinding.isTerminal, ArgDecl.TakesAll]
    · cases h

/-- Bindings are read one by one, and one that takes all arguments has to be the first. -/
theorem readBindings_cons (index : Nat) (decl : ArgDecl) (rest : List ArgDecl) :
    readBindings method index (decl :: rest) = (decl.binding method >>= fun b =>
      if b.isTerminal ∧ index ≠ 0 then .error (.terminalNotFirst method b.sigil index)
      else readBindings method (index + 1) rest >>= fun bs => .ok (b :: bs)) := rfl

/-- Behind the first position, no binding may take all arguments. -/
theorem judges_readBindings_behind {index : Nat} (hindex : index ≠ 0) (decls : List ArgDecl) :
    Judges method (readBindings method index decls)
      (∀ decl ∈ decls, decl.WellFormed ∧ ¬decl.TakesAll) := by
  induction decls generalizing index with
  | nil => exact (Judges.ok []).congr (by simp)
  | cons decl rest ih =>
    rw [readBindings_cons, List.forall_mem_cons]
    have hrest := ih (Nat.succ_ne_zero index)
    refine ((judges_binding decl).bind fun b hb => ?_).congr and_assoc.symm
    have hterminal := isTerminal_of_binding hb
    by_cases htakes : decl.TakesAll
    · rw [if_pos ⟨hterminal.2 htakes, hindex⟩]
      exact (Judges.error rfl).congr (by simp [htakes])
    · rw [if_neg fun h => htakes (hterminal.1 h.1)]
      exact (hrest.map _).congr (by simp [htakes])

/-- At the first position, any binding may stand. -/
theorem judges_readBindings_first (decl : ArgDecl) (rest : List ArgDecl) :
    Judges method (readBindings method 0 (decl :: rest))
      (decl.WellFormed ∧ ∀ d ∈ rest, d.WellFormed ∧ ¬d.TakesAll) := by
  rw [readBindings_cons]
  refine (judges_binding decl).bind fun b _ => ?_
  rw [if_neg fun h => h.2 rfl]
  exact (judges_readBindings_behind (Nat.succ_ne_zero 0) rest).map _

/-- What follows a binding that is read is read as well. -/
theorem exists_of_readBindings_cons {index : Nat} {decl : ArgDecl} {rest : List ArgDecl}
    {bs : List ArgBinding} (h : readBindings method index (decl :: rest) = .ok bs) :
    ∃ b bs', decl.binding method = .ok b ∧ readBindings method (index + 1) rest = .ok bs' ∧
      bs = b :: bs' := by
  rw [readBindings_cons] at h
  obtain ⟨b, hb, h⟩ := exists_of_bind_eq_ok h
  split at h
  · cases h
  · obtain ⟨bs', hbs', h⟩ := exists_of_bind_eq_ok h
    cases h
    exact ⟨b, bs', hb, hbs', rfl⟩

/-- Bindings are read exactly if all of their declarations are well formed. -/
theorem judges_parseBindings (decls : List ArgDecl) :
    Judges method (parseBindings method decls) (ArgDecl.AllWellFormed decls) := by
  match decls with
  | [] => exact (Judges.ok []).congr (by simp [ArgDecl.AllWellFormed])
  | [decl] =>
    refine (((judges_readBindings_first decl []).bind (q := True) ?_).congr ?_)
    · intro bs hbs
      obtain ⟨b, bs', -, hbs', rfl⟩ := exists_of_readBindings_cons hbs
      cases hbs'
      exact Judges.ok _
    · simp [ArgDecl.AllWellFormed]
  | decl :: next :: rest =>
    refine (((judges_readBindings_first decl (next :: rest)).bind 
      (q := ¬decl.TakesAll) ?_).congr ?_)
    · intro bs hbs
      obtain ⟨b, bs', hb, hbs', rfl⟩ := exists_of_readBindings_cons hbs
      obtain ⟨b', bs'', -, -, rfl⟩ := exists_of_readBindings_cons hbs'
      have hterminal := isTerminal_of_binding hb
      by_cases htakes : decl.TakesAll
      · simp only [hterminal.2 htakes, if_true]
        exact (Judges.error rfl).congr (by simp [htakes])
      · simp only [mt hterminal.1 htakes]
        exact (Judges.ok _).congr (by simp [htakes])
    · simp only [ArgDecl.AllWellFormed, List.forall_mem_cons, List.cons.injEq, reduceCtorEq,
        and_false, imp_false]
      grind

end

/-! ### Dispatch tables -/

namespace Json

/-- A rule with a key, and with assignments that are an object if there are any. -/
def Wraps (members : Fields Json) : Prop :=
  (∃ key, members.get? "key" = some (.str key)) ∧
    (members.get? "set" = none ∨ members.get? "set" = some .null ∨ ∃ set,
      members.get? "set" = some (.obj set))

/-- A rule that wraps, and has no map beside its key. -/
def WrapsAlone (members : Fields Json) : Prop := members.get? "map" = none ∧ Wraps members

mutual

/-- A dispatch table: the checks of its cases exist, and their rules are rules. -/
inductive IsTable (wraps : Fields Json → Prop) : Json → Prop
  | cases {members : List (String × Json)}
      (checks : ∀ entry ∈ members, ∃ check : TypeCheck, check.name = entry.1)
      (rules : ∀ entry ∈ members, IsRule wraps entry.2) : IsTable wraps (.obj members)

/-- A rule: it wraps a value, or has a table for items. -/
inductive IsRule (wraps : Fields Json → Prop) : Json → Prop
  | wrap {members : List (String × Json)} (h : wraps members) : IsRule wraps (.obj members)
  | map {members : List (String × Json)} {table : Json} (h : Fields.get? members "map" = some table)
      (htable : IsTable wraps table) : IsRule wraps (.obj members)

end

/-- Dispatch tables by position: none, those of a list, or one. -/
inductive AreTables (wraps : Fields Json → Prop) : Json → Prop
  | none : AreTables wraps .null
  | list {items : List Json} (h : ∀ item ∈ items, item = .null ∨ IsTable wraps item) :
      AreTables wraps (.arr items)
  | one {table : Json} (h : IsTable wraps table) : AreTables wraps table

variable {wraps : Fields Json → Prop} {members : List (String × Json)}

/-- A table has checks for names and rules for values. -/
theorem isTable_obj_iff : IsTable wraps (.obj members) ↔
    ∀ entry ∈ members, (∃ check : TypeCheck, check.name = entry.1) ∧ IsRule wraps entry.2 := by
  constructor
  · rintro ⟨hchecks, hrules⟩ entry hentry
    exact ⟨hchecks entry hentry, hrules entry hentry⟩
  · intro h
    exact .cases (fun entry hentry => (h entry hentry).1) fun entry hentry => (h entry hentry).2

/-- A rule with a `map` is judged by the table under it, null included. -/
theorem isRule_of_map {table : Json} (h : Fields.get? members "map" = some table) :
    IsRule WrapsAlone (.obj members) ↔ IsTable WrapsAlone table := by
  refine ⟨fun hrule => ?_, .map h⟩
  cases hrule with
  | wrap hwraps => rw [hwraps.1] at h; cases h
  | map h' htable =>
    rw [h] at h'
    cases h'
    exact htable

/-- A rule without a `map` is judged by what it wraps. -/
theorem isRule_of_no_map (h : Fields.get? members "map" = none) :
    IsRule WrapsAlone (.obj members) ↔ Wraps members := by
  refine ⟨fun hrule => ?_, fun hwraps => .wrap ⟨h, hwraps⟩⟩
  cases hrule with
  | wrap hwraps => exact hwraps.2
  | map h' _ => rw [h] at h'; cases h'

end Json

namespace TypeCheck

theorem mem_all (check : TypeCheck) : check ∈ all := by
  cases check <;> decide

/-- What has no check is the name of none. -/
theorem ofName?_eq_none_iff {name : String} : ofName? name = none ↔ ¬∃ check :
    TypeCheck, check.name = name := by
  rw [ofName?, List.find?_eq_none]
  constructor
  · rintro h ⟨check, hcheck⟩
    exact h check (mem_all check) (by simpa using hcheck)
  · intro h check _ hcheck
    exact h ⟨check, by simpa using hcheck⟩

end TypeCheck

namespace TypeTable

variable {method : String}

/-- A rule's map is the table under its name. -/
theorem parseMap_eq (members : Fields Json) :
    parseMap method members = (members.get? "map").map (parse method) := by
  induction members with
  | nil => rfl
  | cons field rest ih =>
    obtain ⟨name, value⟩ := field
    rw [parseMap, Fields.get?]
    split
    · rfl
    · exact ih

/-- A rule that wraps is read exactly if its key and its assignments are well formed. -/
theorem judges_parseKeyRule (check : String) (members : Fields Json) :
    Judges method (parseKeyRule method check members) (Json.Wraps members) := by
  unfold parseKeyRule
  split
  · next h =>
    refine (Judges.error rfl).congr (iff_of_false not_false ?_)
    rintro ⟨⟨key, hkey⟩, -⟩
    simp [hkey, Json.str?] at h
  · next key h =>
    obtain ⟨value, hvalue, hkey⟩ := Option.bind_eq_some_iff.1 h
    cases value <;> simp only [Json.str?, reduceCtorEq, Option.some.injEq] at hkey
    split
    · next hset => exact (Judges.ok _).congr (by simp [Json.Wraps, hvalue, hset])
    · next hset => exact (Judges.ok _).congr (by simp [Json.Wraps, hvalue, hset])
    · next set hset => exact (Judges.ok _).congr (by simp [Json.Wraps, hvalue, hset])
    · next found hnull hobj hset =>
      refine (Judges.error rfl).congr (iff_of_false not_false ?_)
      rintro ⟨-, h⟩
      simp only [hset, reduceCtorEq, Option.some.injEq, false_or] at h
      rcases h with h | ⟨set, h⟩
      · exact hnull h
      · exact hobj set h

mutual

/-- A dispatch table is read exactly if it is one. -/
theorem judges_parse : ∀ value, Judges method (parse method value)
    (Json.IsTable Json.WrapsAlone value)
  | .obj members => (judges_parseCases members).congr Json.isTable_obj_iff.symm
  | .null | .bool _ | .num _ | .str _ | .arr _ =>
    (Judges.error rfl).congr (iff_of_false not_false nofun)

/-- The cases of a table are read exactly if each name is a check and each value a rule. -/
theorem judges_parseCases :
    ∀ members : List (String × Json), Judges method (parseCases method members)
      (∀ entry ∈ members, (∃ check : TypeCheck, check.name = entry.1) ∧
      Json.IsRule Json.WrapsAlone entry.2)
  | [] => (Judges.ok []).congr (by simp)
  | (name, value) :: rest => by
    rw [parseCases, List.forall_mem_cons]
    cases hname : TypeCheck.ofName? name with
    | none =>
      exact (Judges.error rfl).congr (iff_of_false not_false fun h =>
        TypeCheck.ofName?_eq_none_iff.1 hname h.1.1)
    | some check =>
      have hexists : ∃ check : TypeCheck, check.name = name := by
        by_contra h
        rw [TypeCheck.ofName?_eq_none_iff.2 h] at hname
        cases hname
      refine ((judges_parseRule name value).bind fun rule _ =>
        (judges_parseCases rest).map _).congr ?_
      simp [hexists]

/-- A rule is read exactly if it is one. -/
theorem judges_parseRule (check : String) : ∀ value,
    Judges method (parseRule method check value) (Json.IsRule Json.WrapsAlone value)
  | .obj members => by
    rw [parseRule, parseMap_eq]
    cases hmap : Fields.get? members "map" with
    | none => exact (judges_parseKeyRule check members).congr (Json.isRule_of_no_map hmap).symm
    | some table =>
      exact ((judges_parseMap members table hmap).map _).congr (Json.isRule_of_map hmap).symm
  | .null | .bool _ | .num _ | .str _ | .arr _ =>
    (Judges.error rfl).congr (iff_of_false not_false nofun)

theorem judges_parseMap : ∀ (members : List (String × Json)) (table : Json),
    Fields.get? members "map" = some table →
      Judges method (parse method table) (Json.IsTable Json.WrapsAlone table)
  | [], table, h => nomatch h
  | (name, value) :: rest, table, h => by
    rw [Fields.get?] at h
    split at h
    · cases h
      exact judges_parse value
    · exact judges_parseMap rest table h

end

/-- Tables by position are read exactly if each of them is a table or null. -/
theorem judges_parsePositions (value : Json) :
    Judges method (parsePositions method value) (Json.AreTables Json.WrapsAlone value) := by
  unfold parsePositions
  split
  · exact (Judges.ok []).congr (iff_of_true trivial .none)
  · next items =>
    refine (Judges.mapM (p := fun item => item = .null ∨ Json.IsTable Json.WrapsAlone item)
      fun item _ => ?_).congr ⟨.list, fun h => ?_⟩
    · split
      · exact (Judges.ok _).congr (by simp)
      · next hnull =>
          exact ((judges_parse item).map _).congr (iff_or_self.2 fun h => absurd h hnull)
    · cases h with
      | list h => exact h
      | one h => cases h
  · next hnull harr =>
    refine ((judges_parse value).map _).congr ⟨.one, fun h => ?_⟩
    cases h with
    | none => exact absurd rfl hnull
    | list h => exact absurd rfl (harr _)
    | one h => exact h

end TypeTable

theorem judges_parseTypes {method : String} (types : Option Json) :
    Judges method (parseTypes method types)
      (∀ value, types = some value → value.AreTables Json.WrapsAlone) := by
  cases types with
  | none => exact (Judges.ok []).congr (by simp)
  | some types => exact (TypeTable.judges_parsePositions types).congr (by simp)

/-! ### Extensions and keys -/

/-- An extension names at most one argument, and its dispatch tables are some. -/
structure ExtensionDecl.WellFormed (wraps : Fields Json → Prop) (decl : ExtensionDecl) : Prop where
  /-- At most one argument. -/
  arg : ∀ args, decl.arg = some args → args.length ≤ 1
  /-- Dispatch tables. -/
  types : ∀ value, decl.types = some value → value.AreTables wraps

/-- A serialization key: nothing, a name, an object of names, or one key for each value of the
flag. -/
inductive Json.IsKey : Json → Prop
  | null : IsKey .null
  | name (text : String) : IsKey (.str text)
  | fields {members : List (String × Json)} (h : ∀ entry ∈ members, ∃ text, entry.2 = .str text) :
      IsKey (.obj members)
  | pair {unset set : Json} (hunset : IsKey unset) (hset : IsKey set) : IsKey (.arr [unset, set])

section

variable {method : String}

/-- An extension takes one argument at most. -/
theorem judges_extBinding (name : String) (arg : Option (List String)) :
    Judges method (ExtBinding.parse method name arg)
      (∀ args, arg = some args → args.length ≤ 1) := by
  unfold ExtBinding.parse
  split
  · exact (Judges.ok _).congr (by simp)
  · exact (Judges.ok _).congr (by simp)
  · exact (Judges.ok _).congr (by simp)
  · next args hnil hone =>
    refine (Judges.error rfl).congr (iff_of_false not_false fun h => ?_)
    match args, h args rfl with
    | [], _ => exact hnil rfl
    | [text], _ => exact hone text rfl

/-- An extension is read exactly if its declaration is well formed. -/
theorem judges_extension (name : String) (decl : ExtensionDecl) :
    Judges method (decl.extension method name) (decl.WellFormed Json.WrapsAlone) :=
  ((judges_extBinding name decl.arg).bind fun _ _ => (judges_parseTypes decl.types).map _).congr
    ⟨fun h => ⟨h.1, h.2⟩, fun h => ⟨h.arg, h.types⟩⟩

/-- Extensions are read exactly if all of their declarations are well formed. -/
theorem judges_parseExtensions (exts : Fields (Option ExtensionDecl)) :
    Judges method (parseExtensions method exts)
      (∀ entry ∈ exts, ∀ decl, entry.2 = some decl → decl.WellFormed Json.WrapsAlone) := by
  induction exts with
  | nil => exact (Judges.ok []).congr (by simp)
  | cons field rest ih =>
    rw [List.forall_mem_cons]
    obtain ⟨name, decl⟩ := field
    cases decl with
    | none => exact (ih.map _).congr (by simp)
    | some decl => exact ((judges_extension name decl).bind fun _ _ => ih.map _).congr (by simp)

/-- A record of names is read exactly if all of its values are texts. -/
theorem isSome_parseKeyFields_iff (fields : Fields KeyRef) (members : List (String × Json)) :
    (∃ refs, parseKeyFields fields members = some refs) ↔
    ∀ entry ∈ members, ∃ text, entry.2 = .str text := by
  induction members generalizing fields with
  | nil => simp [parseKeyFields]
  | cons field rest ih =>
    obtain ⟨name, value⟩ := field
    rw [List.forall_mem_cons]
    cases value with
    | str text => simpa [parseKeyFields] using ih _
    | _ => simp [parseKeyFields]

/-- A serialization key is read exactly if it has one of the documented forms. -/
theorem judges_parseKey : ∀ key, Judges method (parseKey method key) key.IsKey
  | .null => (Judges.ok _).congr (iff_of_true trivial .null)
  | .str text => (Judges.ok _).congr (iff_of_true trivial (.name text))
  | .obj members => by
    have hmembers : Json.IsKey (.obj members) ↔ ∃ refs, parseKeyFields [] members = some refs := by
      rw [isSome_parseKeyFields_iff]
      refine ⟨fun h => ?_, .fields⟩
      cases h with
      | fields h => exact h
    rw [parseKey]
    cases h : parseKeyFields [] members with
    | none => exact (Judges.error rfl).congr (by simp [hmembers, h])
    | some refs => exact (Judges.ok _).congr (by simp [hmembers, h])
  | .arr [unset, set] => by
    rw [parseKey]
    refine ((judges_parseKey unset).bind fun _ _ => (judges_parseKey set).map _).congr
      ⟨fun h => .pair h.1 h.2, fun h => ?_⟩
    cases h with
    | pair hunset hset => exact ⟨hunset, hset⟩
  | .bool _ | .num _ | .arr [] | .arr [_] | .arr (_ :: _ :: _ :: _) =>
    (Judges.error rfl).congr (iff_of_false not_false nofun)

/-- A nest needs no check, so a serialized form is read exactly if its key is. -/
theorem judges_parseSerialization (key : Option Json) (nest : Option Nest) :
    Judges method (parseSerialization method key nest)
      (∀ value, key = some value → value.IsKey) := by
  cases key with
  | none => cases nest <;> exact (Judges.ok _).congr (by simp)
  | some key => exact ((judges_parseKey key).map _).congr (by simp)

end

/-! ### Entries and tables -/

/-- An entry from another module. -/
def IsExternal (name : String) : Prop := ∃ rest, name = "$" ++ rest

/-- What an entry of its own also has to say well: dispatch tables, extensions and a serialization
key. -/
structure MethodDecl.OwnWellFormed (wraps : Fields Json → Prop) (decl : MethodDecl) : Prop where
  /-- Its dispatch tables. -/
  types : ∀ value, decl.types = some value → value.AreTables wraps
  /-- Its extensions; null is none. -/
  ext : ∀ exts, decl.ext = some exts → ∀ entry ∈ exts, ∀ ext, entry.2 = some ext →
    ext.WellFormed wraps
  /-- Its serialization key. -/
  key : ∀ value, decl.key = some value → value.IsKey

/-- The declaration of an entry is well formed. Of an external entry, only the arguments matter. -/
structure MethodDecl.WellFormed (wraps : Fields Json → Prop) (name : String)
    (decl : MethodDecl) : Prop where
  /-- Its arguments. -/
  arg : ∀ decls, decl.arg = some decls → ArgDecl.AllWellFormed decls
  /-- The rest of it. -/
  own : ¬IsExternal name → decl.OwnWellFormed wraps

theorem visibility_eq_isExternal_iff {name : String} :
    Visibility.of name = .isExternal ↔ IsExternal name := by
  constructor
  · intro h
    unfold Visibility.of at h
    split at h
    · cases h
    · next rest hname => exact ⟨String.ofList rest, String.toList_inj.1 (by simp [hname])⟩
    · cases h
  · rintro ⟨rest, rfl⟩
    simp [Visibility.of]

/-- An entry is read exactly if its declaration is well formed. -/
theorem judges_entry (name : String) (decl : MethodDecl) :
    Judges name (decl.entry name) (decl.WellFormed Json.WrapsAlone name) := by
  have harg : Judges name (decl.arg.mapM (parseBindings name))
      (∀ decls, decl.arg = some decls → ArgDecl.AllWellFormed decls) := by
    cases decl.arg with
    | none => exact (Judges.ok _).congr (by simp)
    | some decls => exact ((judges_parseBindings decls).map some).congr (by simp)
  by_cases hexternal : IsExternal name
  · refine (harg.bind (q := True) fun args _ => ?_).congr
      ⟨fun h => ⟨h.1, absurd hexternal⟩, fun h => ⟨h.arg, trivial⟩⟩
    rw [if_pos (visibility_eq_isExternal_iff.2 hexternal)]
    exact Judges.ok _
  · refine (harg.bind (q := decl.OwnWellFormed Json.WrapsAlone) fun args _ => ?_).congr
      ⟨fun h => ⟨h.1, fun _ => h.2⟩, fun h => ⟨h.arg, h.own hexternal⟩⟩
    rw [if_neg (mt visibility_eq_isExternal_iff.1 hexternal)]
    have hext : Judges name (parseExtensions name (decl.ext.getD [])) (∀ exts,
        decl.ext = some exts →
        ∀ entry ∈ exts, ∀ ext, entry.2 = some ext → ext.WellFormed Json.WrapsAlone) :=
      (judges_parseExtensions _).congr (by cases decl.ext <;> simp)
    have hkey : Judges name (parseSerialization name decl.key decl.nest) _ :=
      judges_parseSerialization _ _
    exact ((judges_parseTypes decl.types).bind fun _ _ => hext.bind fun _ _ => hkey.map _).congr
      ⟨fun h => ⟨h.1, h.2.1, h.2.2⟩, fun h => ⟨h.types, h.ext, h.key⟩⟩

namespace Table

/-- Entries are read one by one; the first fault ends the reading. -/
theorem ofDeclarations_cons (name : String) (decl : MethodDecl) (rest : Fields MethodDecl) :
    ofDeclarations ((name, decl) :: rest) = (decl.entry name >>= fun entry =>
      ofDeclarations rest >>= fun table => .ok ((name, entry) :: table)) := rfl

/-- A table has one entry for each declaration, in order. -/
theorem names_of_ofDeclarations {decls : Fields MethodDecl} {table : Table}
    (h : ofDeclarations decls = .ok table) :
    Fields.names table = Fields.names decls := by
  induction decls generalizing table with
  | nil => cases h; rfl
  | cons field rest ih =>
    rw [ofDeclarations_cons] at h
    obtain ⟨entry, -, h⟩ := exists_of_bind_eq_ok h
    obtain ⟨table', htable', h⟩ := exists_of_bind_eq_ok h
    cases h
    exact congrArg (field.1 :: ·) (ih htable')

/-- Every entry of a table was declared. -/
theorem exists_decl_of_mem {decls : Fields MethodDecl} {table : Table}
    (h : ofDeclarations decls = .ok table) {name : String} {entry : Entry}
    (hentry : (name, entry) ∈ table) :
    ∃ decl, (name, decl) ∈ decls ∧ decl.entry name = .ok entry := by
  induction decls generalizing table with
  | nil =>
    cases h
    cases hentry
  | cons field rest ih =>
    rw [ofDeclarations_cons] at h
    obtain ⟨first, hfirst, h⟩ := exists_of_bind_eq_ok h
    obtain ⟨others, hothers, h⟩ := exists_of_bind_eq_ok h
    cases h
    rcases List.mem_cons.1 hentry with heq | hmem
    · cases heq
      exact ⟨field.2, List.mem_cons_self, hfirst⟩
    · obtain ⟨decl, hdecl, hok⟩ := ih hothers hmem
      exact ⟨decl, List.mem_cons_of_mem _ hdecl, hok⟩

/-- A table is read exactly if all of its declarations are well formed. -/
theorem exists_ok_iff (decls : Fields MethodDecl) : (∃ table, ofDeclarations decls = .ok table) ↔
    ∀ entry ∈ decls, entry.2.WellFormed Json.WrapsAlone entry.1 := by
  induction decls with
  | nil => simp [ofDeclarations]
  | cons field rest ih =>
    obtain ⟨name, decl⟩ := field
    rw [ofDeclarations_cons, List.forall_mem_cons, ← ih, ← (judges_entry name decl).ok_iff]
    constructor
    · rintro ⟨table, h⟩
      obtain ⟨entry, hentry, h⟩ := exists_of_bind_eq_ok h
      obtain ⟨table', htable', -⟩ := exists_of_bind_eq_ok h
      exact ⟨⟨entry, hentry⟩, table', htable'⟩
    · rintro ⟨⟨entry, hentry⟩, table, htable⟩
      exact ⟨(name, entry) :: table, by rw [hentry, htable]; rfl⟩

/-- A table is refused for its first entry that is refused. -/
theorem eq_error_iff (decls : Fields MethodDecl) (e : TableError) :
    ofDeclarations decls = .error e ↔
    ∃ before name decl after, decls = before ++ (name, decl) :: after ∧
      (∀ entry ∈ before, entry.2.WellFormed Json.WrapsAlone entry.1) ∧
      decl.entry name = .error e := by
  induction decls with
  | nil => simp [ofDeclarations]
  | cons field rest ih =>
    obtain ⟨name, decl⟩ := field
    have hjudges := judges_entry name decl
    rw [ofDeclarations_cons]
    cases hentry : decl.entry name with
    | error e' =>
      constructor
      · intro h
        cases h
        exact ⟨[], name, decl, rest, rfl, by simp, hentry⟩
      · rintro ⟨before, name', decl', after, heq, hbefore, herror⟩
        cases before with
        | nil =>
          cases heq
          rw [hentry] at herror
          exact herror ▸ rfl
        | cons first before =>
          cases heq
          obtain ⟨entry, hok⟩ := hjudges.ok_iff.2 (hbefore _ List.mem_cons_self)
          rw [hentry] at hok
          cases hok
    | ok entry =>
      have hwell := hjudges.ok_iff.1 ⟨entry, hentry⟩
      have hrest : (Except.ok entry >>= fun entry =>
          ofDeclarations rest >>= fun table => .ok ((name, entry) :: table)) = Except.error e ↔
          ofDeclarations rest = .error e := by
        cases ofDeclarations rest <;> simp [bind, Except.bind]
      rw [hrest, ih]
      constructor
      · rintro ⟨before, name', decl', after, rfl, hbefore, herror⟩
        refine ⟨(name, decl) :: before, name', decl', after, rfl, ?_, herror⟩
        exact List.forall_mem_cons.2 ⟨hwell, hbefore⟩
      · rintro ⟨before, name', decl', after, heq, hbefore, herror⟩
        cases before with
        | nil =>
          cases heq
          rw [hentry] at herror
          cases herror
        | cons first before =>
          cases heq
          exact ⟨before, name', decl', after, rfl, fun entry h =>
            hbefore entry (List.mem_cons_of_mem _ h), herror⟩

/-- **A table is accepted exactly when its entries are well formed, and otherwise its first bad
entry is blamed.** The table that is made then has the declared entries in order. A refusal is the
one that the first bad entry would meet alone, and names it. -/
theorem accepts_iff_wellFormed (decls : Fields MethodDecl) :
    ((∃ table, ofDeclarations decls = .ok table ∧ Fields.names table = Fields.names decls) ↔
      ∀ entry ∈ decls, entry.2.WellFormed Json.WrapsAlone entry.1) ∧
    ∀ e, ofDeclarations decls = .error e ↔
      ∃ before name decl after, decls = before ++ (name, decl) :: after ∧
        (∀ entry ∈ before, entry.2.WellFormed Json.WrapsAlone entry.1) ∧
        ¬decl.WellFormed Json.WrapsAlone name ∧ decl.entry name = .error e ∧
          e.entry? = some name := by
  constructor
  · rw [← exists_ok_iff]
    exact ⟨fun ⟨table, h, _⟩ => ⟨table, h⟩, fun ⟨table, h⟩ => ⟨table, h, names_of_ofDeclarations h⟩⟩
  · intro e
    rw [eq_error_iff]
    refine exists_congr fun before => exists_congr fun name => exists_congr fun decl =>
      exists_congr fun after => and_congr_right fun _ => and_congr_right fun _ =>
        ⟨fun herror => ?_, fun h => h.2.1⟩
    have hjudges := judges_entry name decl
    refine ⟨fun hwell => ?_, herror, hjudges.names e herror⟩
    obtain ⟨entry, hok⟩ := hjudges.ok_iff.2 hwell
    rw [herror] at hok
    cases hok

example : ofDeclarations
      [("good", {}), ("bad", { arg := some [.sigil "..."] }),
        ("worse", { key := some (.bool true) })] =
    .error (.malformedBinding "bad" "...") := by
  rfl

/-- A table with a rule that has a key, and null for a map. -/
def nullMap : Fields MethodDecl :=
  [("m", { types := some (.obj [("string", .obj [("map", .null), ("key", .str "x")])]) })]

/-- A key and its assignments are not enough: a map beside them decides, even if it is no table. -/
theorem refuses_nullMap :
    ofDeclarations nullMap = .error (.malformedTypeRule "m" "*" (.noTable .null)) ∧
      ¬((∃ table, ofDeclarations nullMap = .ok table) ↔
        ∀ entry ∈ nullMap, entry.2.WellFormed Json.Wraps entry.1) := by
  have herror : ofDeclarations nullMap = .error (.malformedTypeRule "m" "*" (.noTable .null)) := rfl
  refine ⟨herror, fun h => ?_⟩
  have hrule : Json.IsRule Json.Wraps (.obj [("map", .null), ("key", .str "x")]) :=
    .wrap ⟨⟨"x", rfl⟩, .inl rfl⟩
  have htable :
      Json.IsTable Json.Wraps (.obj [("string", .obj [("map", .null), ("key", .str "x")])]) :=
    Json.isTable_obj_iff.2 (by simpa using ⟨⟨.string, rfl⟩, hrule⟩)
  have hwell : ∀ entry ∈ nullMap, entry.2.WellFormed Json.Wraps entry.1 := by
    rintro entry hentry
    obtain rfl := List.mem_singleton.1 hentry
    refine ⟨nofun, fun _ => ⟨fun value hvalue => ?_, nofun, nofun⟩⟩
    cases hvalue
    exact .one htable
  obtain ⟨table, htable⟩ := h.2 hwell
  rw [herror] at htable
  cases htable

end Table

end BuilderApi
