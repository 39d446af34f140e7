import BuilderApi.Proofs.Script.Literal
import BuilderApi.Proofs.Table.Dispatch
import BuilderApi.Script.Expr

/-!
# The cascade of a dispatch table

A dispatch table is applied twice: by the running builder, and by the generated module, where it is
a cascade of conditionals. Here the text of the cascade is read back as the expression it is, and
that expression has the value that applying the table gives
(`BuilderApi.Script.cascade_denotes_apply`).

The text is taken apart with one notion, `BuilderApi.Script.Spells`: a text spells an expression if
its tokens are read as the expression wherever one may stand. Each way of putting a cascade together
keeps it, so that one induction over the table settles the reading, and another one the values.

Two things have to be assumed of the table. A map under another check than that of arrays would call
a method that its subject does not have, and names that scripts treat in a way of their own would
not name members.
-/

namespace BuilderApi

namespace Script

variable {letters : Letters}

/-! ### Texts of expressions -/

/-- The text is read as this, wherever something of its kind may stand, by a reader that may descend
as deep as the text has tokens. -/
def Reads {α : Type} (letters : Letters) (read : Nat → Parser α) (text : String) (a : α) : Prop :=
  ∃ tokens : List Token,
    (∀ rest, Delimited rest → lex letters (text.toList ++ rest) = push tokens (lex letters rest)) ∧
      ∀ bound, tokens.length ≤ bound → ∀ rest, EndsExpression rest →
        read bound (tokens ++ rest) = some (a, rest)

/-- The text spells the expression, wherever one may stand. -/
def Spells (letters : Letters) (text : String) (term : Term) : Prop :=
  ∃ tokens : List Token,
    (∀ rest, Delimited rest → lex letters (text.toList ++ rest) = push tokens (lex letters rest)) ∧
      ∀ bound, tokens.length ≤ bound → ReadsAs bound tokens term

/-- **What a text spells is what it is parsed as.** -/
theorem Spells.parse_eq {text : String} {term : Term} (h : Spells letters text term) :
    parse letters text = some term := by
  obtain ⟨tokens, hlex, hreads⟩ := h
  have htokens := hlex [] delimited_nil
  have hterm := hreads tokens.length le_rfl [] endsExpression_nil
  rw [List.append_nil] at htokens hterm
  rw [parse, htokens]
  simp [push, lex, hterm]

/-- The text of a literal is read as its term. -/
theorem spells_literal {value : Json} (h : value.isFinite = true) :
    Spells letters (literal value) (literalTerm value) := by
  refine ⟨literalTokens value, fun rest hrest => ?_, readsAs_literal value⟩
  rw [literal, String.toList_ofList, lex_literalChars h hrest]

/-! ### What a cascade is about -/

/-- A name, in front of a character that does not continue it. -/
theorem lex_name {name : String} (hname : letters.isName name.toList = true) {rest : List Char}
    (hrest : ∀ c ∈ rest.head?, letters.isPart c = false) :
    lex letters (name.toList ++ rest) = push [.word name] (lex letters rest) := by
  rw [lex_word hname hrest, String.ofList_toList]

/-- What a cascade is about: a variable of the module, or an argument of the constructor. -/
inductive Subject where
  /-- A variable. -/
  | variable (name : String) (h : name ∈ ["_", "v", "value"])
  /-- An argument, by its position. -/
  | argument (position : Nat)

namespace Subject

/-- The items of an array that is mapped. -/
def item : Subject := .variable "_" (by decide)

/-- The subject in a generated module. -/
def expr : Subject → ScriptExpr
  | .variable name _ => .ident name
  | .argument position => .argument position

/-- The expression it is. -/
def term : Subject → Term
  | .variable name _ => .name name
  | .argument position => .item (.name "args") (.value (.num (.int position)))

/-- Its tokens. -/
def tokens : Subject → List Token
  | .variable name _ => [.word name]
  | .argument position => [.word "args", .mark '[', .number (.int position), .mark ']']

/-- The subject has this value. -/
def Binds (scope : Scope) (value : Json) : Subject → Prop
  | .variable name _ => scope name = some value
  | .argument position => ∃ args, scope "args" = some (.arr args) ∧ args[position]? = some value

theorem eval_term {scope : Scope} {value : Json} : ∀ {s : Subject}, s.Binds scope value →
    eval scope s.term = some value
  | .variable _ _, h => h
  | .argument position, ⟨args, hargs, hvalue⟩ => by
    simp [term, eval, hargs, hvalue]

theorem isName_variable {name : String} (h : name ∈ ["_", "v", "value"]) :
    letters.isName name.toList = true := by
  simp only [List.mem_cons, List.not_mem_nil, or_false] at h
  rcases h with rfl | rfl | rfl <;> rfl

theorem wordTerm_variable {name : String} (h : name ∈ ["_", "v", "value"]) :
    wordTerm name = some (.name name) := by
  simp only [List.mem_cons, List.not_mem_nil, or_false] at h
  rcases h with rfl | rfl | rfl <;> rfl

/-- The tokens of a subject are read in front of a character that does not continue a name. -/
theorem lex_text (s : Subject) {rest : List Char}
    (hrest : ∀ c ∈ rest.head?, letters.isPart c = false) :
    lex letters (s.expr.text.toList ++ rest) = push s.tokens (lex letters rest) := by
  cases s with
  | «variable» name h => rw [expr, ScriptExpr.text, lex_name (isName_variable h) hrest, tokens]
  | argument position =>
    have htext : (argument position).expr.text.toList ++ rest =
        "args".toList ++ '[' :: (Nat.toDigits 10 position ++ ']' :: rest) := by
      simp [expr, ScriptExpr.text]
    -- the position is a numeral, which the bracket behind it ends
    have hclose : Delimited (']' :: rest) := delimited_cons (by decide) rest
    have hdigits : lex letters (Nat.toDigits 10 position ++ ']' :: rest) =
        push [.number (.int position)] (lex letters (']' :: rest)) := by
      have hchars : (Number.int position).chars = Nat.toDigits 10 position := by simp [Number.chars]
      have htokens : numberTokens (.int position) = [.number (.int position)] := by
        simp [numberTokens]
      rw [← hchars, ← htokens]
      exact lex_numberChars rfl hclose
    rw [htext, lex_word rfl (by simp [Letters.isPart]), lex_bracket (by decide), hdigits,
      lex_bracket (by decide), push_push, push_push, push_push]
    rfl

/-- A subject is an operand, whatever is appended to it. -/
theorem operand_tokens (s : Subject) {depth bound : Nat} (hdepth : s.tokens.length ≤ depth + 1)
    (hbound : s.tokens.length ≤ bound) (rest : List Token) :
    ∃ left, bound + 1 ≤ left + s.tokens.length ∧
      operand (expression depth) bound (s.tokens ++ rest) =
        suffixes (expression depth) left s.term rest := by
  cases s with
  | «variable» name h =>
    refine ⟨bound, le_rfl, operand_of_primary (by simp [tokens]) ?_⟩
    rw [tokens, List.singleton_append, primary, wordTerm_variable h]
    rfl
  | argument position =>
    simp only [tokens, List.length_cons, List.length_nil] at hdepth hbound
    obtain ⟨left, rfl⟩ := Nat.exists_eq_add_of_le' (show 1 ≤ bound by omega)
    refine ⟨left, by simp [tokens], ?_⟩
    -- the position is one nested expression, and its brackets use up one suffix
    have hindex : expression depth ([.number (.int position)] ++ .mark ']' :: rest) =
        some (.value (.num (.int position)), .mark ']' :: rest) := by
      obtain ⟨depth, rfl⟩ := Nat.exists_eq_add_of_le' (show 1 ≤ depth by omega)
      exact expression_of_primary (by simp) rfl (endsExpression_mark (by decide) rest)
    have hargs : primary (expression depth) (left + 1) ((argument position).tokens ++ rest) =
        some (.name "args", .mark '[' :: ([.number (.int position)] ++ .mark ']' :: rest)) := rfl
    rw [operand_of_primary (by simp [tokens]) hargs, suffixes_item hindex, term]

theorem readsAs_tokens (s : Subject) (bound : Nat) (hbound : s.tokens.length ≤ bound) :
    ReadsAs bound s.tokens s.term := by
  intro rest hrest
  have hpos : 1 ≤ s.tokens.length := by cases s <;> simp [tokens]
  obtain ⟨depth, rfl⟩ := Nat.exists_eq_add_of_le' (hpos.trans hbound)
  obtain ⟨left, hleft, hoperand⟩ := s.operand_tokens hbound hbound rest
  obtain ⟨left, rfl⟩ := Nat.exists_eq_add_of_le' (show 1 ≤ left by omega)
  rw [expression]
  exact conditional_of_operand (hoperand.trans (suffixes_end hrest.1 left s.term)) hrest

/-- **The text of a subject spells it.** -/
theorem spells (s : Subject) : Spells letters s.expr.text s.term :=
  ⟨s.tokens, fun _ hrest => lex_text s fun c hc => (hrest.not_name c hc).2, readsAs_tokens s⟩

end Subject

/-! ### How a cascade is put together -/

/-- A choice by a check of the subject. -/
theorem spells_check (check : TypeCheck) (s : Subject) {yes no : String} {yesTerm noTerm : Term}
    (hyes : Spells letters yes yesTerm) (hno : Spells letters no noTerm) :
    Spells letters (check.helper ++ "(" ++ s.expr.text ++ ") ? " ++ yes ++ " : " ++ no)
      (.choice (.call check.helper s.term) yesTerm noTerm) := by
  obtain ⟨yesTokens, hyesLex, hyesReads⟩ := hyes
  obtain ⟨noTokens, hnoLex, hnoReads⟩ := hno
  refine ⟨.word check.helper :: .mark '(' :: (s.tokens ++ .mark ')' :: .mark '?' ::
    (yesTokens ++ .mark ':' :: noTokens)), fun rest hrest => ?_, fun bound hbound rest hrest => ?_⟩
  · have htext :
        (check.helper ++ "(" ++ s.expr.text ++ ") ? " ++ yes ++ " : " ++ no).toList ++ rest =
        check.helper.toList ++ '(' :: (s.expr.text.toList ++ ')' :: ' ' :: '?' :: ' ' ::
          (yes.toList ++ ' ' :: ':' :: ' ' :: (no.toList ++ rest))) := by
      simp
    have hhelper : letters.isName check.helper.toList = true := by cases check <;> rfl
    rw [htext, lex_name hhelper (by simp [Letters.isPart]), lex_bracket (by decide),
      s.lex_text (by simp [Letters.isPart]), lex_bracket (by decide), lex_blank,
      lex_mark (by decide) rfl, lex_blank, hyesLex _ (delimited_cons (by decide) _), lex_blank,
      lex_bracket (by decide), lex_blank, hnoLex rest hrest]
    simp
  · simp only [List.length_cons, List.length_append] at hbound
    obtain ⟨depth, rfl⟩ := Nat.exists_eq_add_of_le' (show 3 ≤ bound by omega)
    -- the check is an operand: the name of the helper, and the subject in parentheses
    have hsubject := s.readsAs_tokens (depth + 2) (by omega)
      (.mark ')' :: .mark '?' :: (yesTokens ++ .mark ':' :: (noTokens ++ rest)))
      (endsExpression_mark (by decide) _)
    have htest : operand (expression (depth + 2)) (depth + 3)
        (.word check.helper :: .mark '(' :: (s.tokens ++
        .mark ')' :: .mark '?' :: (yesTokens ++ .mark ':' :: (noTokens ++ rest)))) =
        some (.call check.helper s.term,
          .mark '?' :: (yesTokens ++ .mark ':' :: (noTokens ++ rest))) := by
      have hhelper : wordTerm check.helper = some (.name check.helper) := by cases check <;> rfl
      rw [operand_of_primary (by simp) (by rw [primary, hhelper]; rfl), suffixes_call hsubject,
        suffixes_end (endsOperand_choice _)]
    have hyes := hyesReads (depth + 2) (by omega) (.mark ':' :: (noTokens ++ rest))
      (endsExpression_mark (by decide) _)
    have hno := hnoReads (depth + 2) (by omega) rest hrest
    have hchoice := conditional_of_choice htest hyes hno
    simpa [expression] using hchoice

/-- A member of an object whose name is a name of the language, and whose value is read as this. -/
def ReadsMember {α : Type} (letters : Letters) (read : Nat → Parser α)
    (member : String × ScriptExpr) (value : String × α) : Prop :=
  member.1 = value.1 ∧ letters.isName member.1.toList = true ∧
    Reads letters read member.2.text value.2

/-- A member of an object whose name is a name of the language. -/
def SpellsMember (letters : Letters) (member : String × ScriptExpr) (term : String × Term) : Prop :=
  member.1 = term.1 ∧ letters.isName member.1.toList = true ∧ Spells letters member.2.text term.2

/-- The members of an object are read one by one: the last one in front of the closing bracket, and
every other one in front of a comma. Their values are read by `read`, their list by `list`, which
may use up as many turns. -/
structure ListsMembers {α : Type} (read : Nat → Parser α)
    (list : Nat → Nat → Parser (List (String × α))) :
    Prop where
  /-- The last member. -/
  last : ∀ {depth bound : Nat} {name : String} {tokens rest : List Token} {a : α},
    read depth (tokens ++ .mark '\x7d' :: rest) = some (a, .mark '\x7d' :: rest) →
      list depth (bound + 1) (.word name :: .mark ':' :: (tokens ++ .mark '\x7d' :: rest)) =
        some ([(name, a)], rest)
  /-- A member in front of others. -/
  cons : ∀ {depth bound : Nat} {name : String} {tokens more rest : List Token} {a : α}
    {as : List (String × α)},
    read depth (tokens ++ .mark ',' :: more) = some (a, .mark ',' :: more) →
      list depth bound more = some (as, rest) →
        list depth (bound + 1) (.word name :: .mark ':' :: (tokens ++ .mark ',' :: more)) =
          some ((name, a) :: as, rest)

theorem listsMembers_members : ListsMembers expression fun depth => members (expression depth) :=
  ⟨members_last rfl, members_cons rfl⟩

/-- The members of an object, in front of the bracket that closes it. -/
theorem reads_members {α : Type} {read : Nat → Parser α}
    {readList : Nat → Nat → Parser (List (String × α))} (hlists : ListsMembers read readList) :
    ∀ {list : List (String × ScriptExpr)} {as : List (String × α)}, list ≠ [] →
      List.Forall₂ (ReadsMember letters read) list as → ∃ name tokens,
        (∀ rest, lex letters ((ScriptExpr.memberText list).toList ++ '\x7d' :: rest) =
          push (.word name :: tokens) (lex letters ('\x7d' :: rest))) ∧
        ∀ depth bound, tokens.length < depth → tokens.length < bound → ∀ rest,
          readList depth bound (.word name :: (tokens ++ .mark '\x7d' :: rest)) = some (as, rest)
  | [], _, hnil, _ => absurd rfl hnil
  | [(name, expr)], _, _, .cons ⟨hname, hplain, hvalue⟩ .nil => by
    obtain ⟨tokens, hlex, hreads⟩ := hvalue
    refine ⟨name, .mark ':' :: tokens, fun rest => ?_, fun depth bound hdepth hbound rest => ?_⟩
    · have htext : (ScriptExpr.memberText [(name, expr)]).toList ++ '\x7d' :: rest =
          name.toList ++ ':' :: ' ' :: (expr.text.toList ++ '\x7d' :: rest) := by
        simp [ScriptExpr.memberText]
      rw [htext, lex_name hplain (by simp [Letters.isPart]), lex_bracket (by decide), lex_blank,
        hlex _ (delimited_cons (by decide) _)]
      simp
    · simp only [List.length_cons] at hdepth hbound
      obtain ⟨bound, rfl⟩ := Nat.exists_eq_add_of_le' (show 1 ≤ bound by omega)
      obtain rfl : name = _ := hname
      exact hlists.last (hreads depth (by omega) _ (endsExpression_mark (by decide) rest))
  | (name, expr) :: next :: list, _, _, .cons ⟨hname, hplain, hvalue⟩ hrest => by
    obtain ⟨tokens, hlex, hreads⟩ := hvalue
    obtain ⟨other, others, hothersLex, hothers⟩ := reads_members hlists (by simp) hrest
    refine ⟨name, .mark ':' :: (tokens ++ .mark ',' :: .word other :: others), fun rest => ?_,
      fun depth bound hdepth hbound rest => ?_⟩
    · have htext : (ScriptExpr.memberText ((name, expr) :: next :: list)).toList ++ '\x7d' :: rest =
          name.toList ++ ':' :: ' ' :: (expr.text.toList ++ ',' :: ' ' ::
            ((ScriptExpr.memberText (next :: list)).toList ++ '\x7d' :: rest)) := by
        simp [ScriptExpr.memberText]
      rw [htext, lex_name hplain (by simp [Letters.isPart]), lex_bracket (by decide), lex_blank,
        hlex _ (delimited_cons (by decide) _), lex_bracket (by decide), lex_blank, hothersLex]
      simp
    · simp only [List.length_cons, List.length_append] at hdepth hbound
      obtain ⟨bound, rfl⟩ := Nat.exists_eq_add_of_le' (show 1 ≤ bound by omega)
      obtain rfl : name = _ := hname
      -- the value ends at the comma, and the other members are read from there
      have hmore := hothers depth bound (by omega) (by omega) rest
      have hfirst := hreads depth (by omega)
        (.mark ',' :: .word other :: (others ++ .mark '\x7d' :: rest))
        (endsExpression_mark (by decide) _)
      simpa using hlists.cons hfirst hmore

/-- An object whose members have values that are spelled. -/
theorem spells_record {list : List (String × ScriptExpr)} {terms : List (String × Term)}
    (hnil : list ≠ []) (h : List.Forall₂ (SpellsMember letters) list terms) :
    Spells letters (ScriptExpr.record list).text (.object terms) := by
  obtain ⟨name, tokens, hlex, hreads⟩ := reads_members listsMembers_members hnil h
  refine ⟨.mark '\x7b' :: .word name :: (tokens ++ [.mark '\x7d']), fun rest hrest => ?_,
    fun bound hbound rest hrest => ?_⟩
  · have htext : (ScriptExpr.record list).text.toList ++ rest =
        '\x7b' :: ((ScriptExpr.memberText list).toList ++ '\x7d' :: rest) := by
      simp [ScriptExpr.text]
    rw [htext, lex_bracket (by decide), hlex, lex_bracket (by decide)]
    simp
  · simp only [List.length_cons, List.length_append, List.length_nil] at hbound
    obtain ⟨depth, rfl⟩ := Nat.exists_eq_add_of_le' (show 1 ≤ bound by omega)
    have hmembers := hreads depth (depth + 1) (by omega) (by omega) rest
    have hobject := primary_object ⟨_, _, rfl, by simp⟩ hmembers
    simpa using expression_of_primary (by simp) hobject hrest

/-- A map over the items of the subject. -/
theorem spells_mapItems (s : Subject) {body : ScriptExpr} {bodyTerm : Term}
    (hbody : Spells letters body.text bodyTerm) :
    Spells letters (ScriptExpr.mapItems s.expr body).text (.map s.term "_" bodyTerm) := by
  obtain ⟨tokens, hlex, hreads⟩ := hbody
  refine ⟨s.tokens ++ (mapOpening "_" ++ (tokens ++ mapClosing)), fun rest hrest => ?_,
    fun bound hbound rest hrest => ?_⟩
  · have htext : (ScriptExpr.mapItems s.expr body).text.toList ++ rest =
        s.expr.text.toList ++ '.' ::
          ("map".toList ++ '(' :: ("_".toList ++ ' ' :: '=' :: '>' :: ' ' :: '\x7b' ::
          ' ' :: ("return".toList ++ ' ' ::
            (body.text.toList ++ ';' :: ' ' :: '\x7d' :: ')' :: rest)))) := by
      simp [ScriptExpr.text]
    rw [htext, s.lex_text (by simp [Letters.isPart]), lex_mark (by decide) rfl,
      lex_name rfl (by simp [Letters.isPart]), lex_bracket (by decide),
      lex_name rfl (by simp [Letters.isPart]),
      lex_blank, lex_arrow, lex_blank, lex_bracket (by decide), lex_blank,
      lex_name rfl (by simp [Letters.isPart]), lex_blank, hlex _ (delimited_cons (by decide) _),
      lex_bracket (by decide), lex_blank, lex_bracket (by decide), lex_bracket (by decide)]
    simp [mapOpening, mapClosing]
  · simp only [mapOpening, mapClosing, List.length_cons, List.length_append, List.length_nil]
      at hbound
    obtain ⟨depth, rfl⟩ := Nat.exists_eq_add_of_le' (show 1 ≤ bound by omega)
    have hlength : s.tokens.length ≤ depth + 1 := by omega
    obtain ⟨left, hleft, hoperand⟩ := s.operand_tokens hlength hlength
      (mapOpening "_" ++ (tokens ++ (mapClosing ++ rest)))
    obtain ⟨left, rfl⟩ := Nat.exists_eq_add_of_le' (show 2 ≤ left by omega)
    have hreturn := hreads depth (by omega) (mapClosing ++ rest) (endsExpression_mark (by decide) _)
    rw [suffixes_map hreturn, suffixes_end hrest.1] at hoperand
    simpa [expression] using conditional_of_operand hoperand hrest

/-! ### The expression of a cascade -/

mutual

/-- The expression that the cascade of a table is, about an expression. -/
def cascadeTerm : List (TypeCheck × TypeRule) → Term → Term
  | [], subject => subject
  | (check, rule) :: rest, subject =>
    .choice (.call check.helper subject) (branchTerm rule subject) (cascadeTerm rest subject)

/-- The expression that the branch of a rule is. -/
def branchTerm : TypeRule → Term → Term
  | .key key set, subject => .object ((key, subject) :: memberTerms set)
  | .map cases, subject => .map subject "_" (cascadeTerm cases (.name "_"))

end

/-- A rule that can be a branch of a script: its names are plain names, those inside its assigned
values included, and only arrays are mapped. -/
def Scriptable (letters : Letters) (check : TypeCheck) : TypeRule → Prop
  | .key key set => letters.isPlainName key = true ∧ ∀ member ∈ set,
      letters.isPlainName member.1 = true ∧
        member.2.everywhere (Json.namesPass letters.isPlainName) = true
  | .map _ => check = .array

/-- A scriptable rule whose assigned values are finite and keyed. -/
def Writable (letters : Letters) (check : TypeCheck) (rule : TypeRule) : Prop :=
  Scriptable letters check rule ∧
    TypeTable.Assigns (fun value => value.isFinite = true) check rule ∧
      TypeTable.Assigns (fun value => value.isKeyed = true) check rule

theorem isName_of_isPlainName {name : String} (h : letters.isPlainName name = true) :
    letters.isName name.toList = true := by
  rw [Letters.isPlainName, Bool.and_eq_true] at h
  exact h.1

/-- The members of a branch are spelled: the key first, and then the assignments. -/
theorem spellsMembers_set : ∀ {set : List (String × Json)},
    (∀ member ∈ set, letters.isPlainName member.1 = true) →
    (∀ member ∈ set, member.2.isFinite = true) →
    List.Forall₂ (SpellsMember letters)
      (set.map fun (name, value) => (name, ScriptExpr.literal value))
      (memberTerms set)
  | [], _, _ => .nil
  | (name, value) :: set, hnames, hfinite => by
    obtain ⟨hname, hnames⟩ := List.forall_mem_cons.1 hnames
    obtain ⟨hvalue, hfinite⟩ := List.forall_mem_cons.1 hfinite
    exact .cons ⟨rfl, isName_of_isPlainName hname,
      spells_literal hvalue⟩ (spellsMembers_set hnames hfinite)

mutual

/-- **The text of a cascade spells its expression.** -/
theorem spells_cascade : ∀ (table : List (TypeCheck × TypeRule)),
    TypeTable.All (Writable letters) table → ∀ s : Subject,
    Spells letters (TypeTable.cascade table s.expr).text (cascadeTerm table s.term)
  | [], _, s => s.spells
  | (check, rule) :: rest, h, s =>
    spells_check check s (spells_branch rule h.1 h.2.1 s) (spells_cascade rest h.2.2 s)

/-- The text of a branch is read as its term. -/
theorem spells_branch {check : TypeCheck} : ∀ (rule : TypeRule), Writable letters check rule →
    TypeTable.AllInside (Writable letters) rule → ∀ s : Subject,
    Spells letters (TypeTable.branch rule s.expr).text (branchTerm rule s.term)
  | .key _ _, h, _, s => by
    obtain ⟨⟨hkey, hset⟩, hfinite, -⟩ := h
    exact spells_record (by simp) (.cons ⟨rfl, isName_of_isPlainName hkey, s.spells⟩
      (spellsMembers_set (fun member hmember => (hset member hmember).1) hfinite))
  | .map cases, _, h, s => spells_mapItems s (spells_cascade cases h .item)

end

/-! ### The value of a cascade -/

/-- The helper functions are not hidden by variables. -/
def Scope.Helpers (scope : Scope) : Prop := ∀ check : TypeCheck, scope check.helper = none

theorem Scope.Helpers.set_item {scope : Scope} (h : scope.Helpers) (value : Json) :
    (scope.set "_" value).Helpers := by
  intro check
  rw [Scope.set, if_neg (by cases check <;> decide)]
  exact h check

/-- A call of a helper function performs the check. -/
theorem eval_check {scope : Scope} (hscope : scope.Helpers) (check : TypeCheck) {subject : Term}
    {value : Json} (h : eval scope subject = some value) :
    eval scope (.call check.helper subject) = some (.bool (check.holds value)) := by
  have hcheck : helperCheck check.helper = some check := by cases check <;> rfl
  rw [eval, hscope check, hcheck, h]

mutual

/-- **The expression of a cascade has the value that applying the table gives.** -/
theorem eval_cascadeTerm : ∀ (table : List (TypeCheck × TypeRule)),
    TypeTable.All (Writable letters) table → ∀ {scope : Scope} {subject : Term} {value : Json},
    scope.Helpers → eval scope subject = some value →
    eval scope (cascadeTerm table subject) = some (TypeTable.apply table value)
  | [], _, _, _, _, _, h => h
  | (check, rule) :: rest, htable, scope, subject, value, hscope, h => by
    rw [cascadeTerm, eval, eval_check hscope check h, TypeTable.apply]
    by_cases hcheck : check.holds value = true
    · simp only [hcheck, Json.truthy, if_true]
      exact eval_branchTerm rule htable.1 htable.2.1 hscope h hcheck
    · simp only [hcheck, Json.truthy]
      exact eval_cascadeTerm rest htable.2.2 hscope h

/-- The term of a branch evaluates to what the rule makes of the value. -/
theorem eval_branchTerm {check : TypeCheck} : ∀ (rule : TypeRule), Writable letters check rule →
    TypeTable.AllInside (Writable letters) rule → ∀ {scope : Scope} {subject : Term} {value : Json},
    scope.Helpers → eval scope subject = some value → check.holds value = true →
    eval scope (branchTerm rule subject) = some (TypeTable.applyRule rule value)
  | .key key set, h, _, scope, subject, value, _, hvalue, _ => by
    obtain ⟨⟨hkey, hset⟩, -, hkeyed⟩ := h
    -- an assignment to the key itself is put in its place, as the object literal does
    have hmembers :
        evalMembers scope ((key, subject) :: memberTerms set) = some ((key, value) :: set) := by
      rw [evalMembers, hvalue, evalMembers_memberTerms scope fun member hmember =>
        ⟨hkeyed member hmember, (hset member hmember).2⟩]
    have hnames : ∀ member ∈ (key, value) :: set, isMemberName member.1 = true :=
      List.forall_mem_cons.2 ⟨isMemberName_of_isPlainName hkey, fun member hmember =>
        isMemberName_of_isPlainName (hset member hmember).1⟩
    rw [branchTerm, eval, hmembers, Option.bind_some, makeObject_eq hnames]
    rfl
  | .map cases, h, hinside, scope, subject, value, hscope, hvalue, hcheck => by
    obtain rfl : check = .array := h.1
    -- a map stands behind the check for arrays, so there are items
    cases value with
    | arr items =>
      -- the items are bound under the name that the inner cascade is about, whatever it hides
      have hitem : ∀ item, eval (scope.set "_" item) (cascadeTerm cases (.name "_")) =
          some (TypeTable.apply cases item) := fun item =>
        eval_cascadeTerm cases hinside (hscope.set_item item) (by simp [eval, Scope.set])
      have hitems : items.mapM (fun item => some (TypeTable.apply cases item)) =
          some (items.map (TypeTable.apply cases)) := List.mapM_pure
      rw [branchTerm, eval, hvalue]
      simp only [hitem, hitems]
      rfl
    | _ => cases hcheck

end

/-! ### Agreement -/

/-- **The cascade of a table, as the expression it is, gives what applying the table gives.** The
expression depends on the table alone; its value is that of the table, whatever value the subject
has. -/
theorem cascade_denotes_apply {method : String} {json : Json} {table : TypeTable}
    (hparse : TypeTable.parse method json = .ok table) (hkeyed : json.isKeyed = true)
    (hfinite : json.isFinite = true) (htable : TypeTable.All (Scriptable letters) table)
    (s : Subject) :
    ∃ term, parse letters (TypeTable.cascade table s.expr).text = some term ∧
      ∀ (scope : Scope) (value : Json), scope.Helpers → s.Binds scope value →
        eval scope term = some (TypeTable.apply table value) := by
  have hassigned := (TypeTable.all_of_parse (TypeTable.hereditary_everywhere _) hfinite hparse).and
    (TypeTable.all_of_parse TypeTable.hereditary_isKeyed hkeyed hparse)
  have hwritable : TypeTable.All (Writable letters) table := htable.and hassigned
  refine ⟨cascadeTerm table s.term, (spells_cascade table hwritable s).parse_eq, ?_⟩
  intro scope value hscope hvalue
  exact eval_cascadeTerm table hwritable hscope (Subject.eval_term hvalue)

/-- A table that wraps strings in arrays, and objects, whose assignments overwrite their key. -/
def fieldJson : Json :=
  .obj [("array", .obj [("map", .obj [("string", .obj [("key", .str "field")])])]),
    ("object", .obj [("key", .str "from"), ("set", .obj [("as", .num (.int 1)), ("from", .null)])])]

/-- What is read from it. -/
def fieldTable : TypeTable :=
  [(.array, .map [(.string, .key "field" [])]),
    (.object, .key "from" [("as", .num (.int 1)), ("from", .null)])]

/-- A constructor with two arguments, and no other variables. -/
def argumentScope : Scope := fun name =>
  if name = "args" then some (.arr [.arr [.str "x", .null], .obj []]) else none

/-- A table with a rule inside of a rule, read from its document. -/
theorem cascade_fieldTable :
    TypeTable.parse "encode" fieldJson = .ok fieldTable ∧ fieldJson.isKeyed = true ∧
    fieldJson.isFinite = true ∧ TypeTable.All (Scriptable asciiLetters) fieldTable ∧
    argumentScope.Helpers ∧
    (∃ term, parse asciiLetters (TypeTable.cascade fieldTable (.argument 0)).text = some term ∧
      eval argumentScope term = some (.arr [.obj [("field", .str "x")], .null])) ∧
    ∃ term, parse asciiLetters (TypeTable.cascade fieldTable (.argument 1)).text = some term ∧
      eval argumentScope term = some (.obj [("from", .null), ("as", .num (.int 1))]) := by
  have hparse : TypeTable.parse "encode" fieldJson = .ok fieldTable := rfl
  have hkeyed : fieldJson.isKeyed = true := rfl
  have hfinite : fieldJson.isFinite = true := rfl
  have htable : TypeTable.All (Scriptable asciiLetters) fieldTable := by
    have hkey : ∀ name ∈ ["field", "from", "as"], asciiLetters.isPlainName name = true := by decide
    have hvalue : ∀ value ∈ [Json.num (.int 1), Json.null],
        value.everywhere (Json.namesPass asciiLetters.isPlainName) = true := by
      simp [Json.everywhere, Json.namesPass]
    simp [TypeTable.All, TypeTable.AllInside, fieldTable, Scriptable, hkey, hvalue]
  have hscope : argumentScope.Helpers := by
    intro check
    cases check <;> rfl
  have hagree := cascade_denotes_apply hparse hkeyed hfinite htable
  obtain ⟨first, hfirst, hfirstValue⟩ := hagree (.argument 0)
  obtain ⟨second, hsecond, hsecondValue⟩ := hagree (.argument 1)
  refine ⟨hparse, hkeyed, hfinite, htable, hscope, ⟨first, hfirst, ?_⟩, second, hsecond, ?_⟩
  · exact hfirstValue argumentScope (.arr [.str "x", .null]) hscope ⟨_, rfl, rfl⟩
  · exact hsecondValue argumentScope (.obj []) hscope ⟨_, rfl, rfl⟩

end Script

end BuilderApi
