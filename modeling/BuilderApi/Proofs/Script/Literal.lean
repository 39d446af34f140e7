import BuilderApi.Proofs.Json.Everywhere
import BuilderApi.Proofs.Json.Keyed
import BuilderApi.Proofs.Script.Grammar

/-!
# Literals denote the values they spell

The literal of a JSON value is script text, and as such it is an expression. Here it is followed
through the three stages: the tokens of its text (`BuilderApi.Script.lex_literalChars`), the
expression that they are (`BuilderApi.Script.readsAs_literal`), and the value of that expression,
which is the JSON value again (`BuilderApi.Script.eval_literalTerm`).

Three things are needed of the value, all of them about its parts: its numbers are finite, no object
has a repeated name, and no object has a name that scripts treat in a way of their own.
-/

namespace BuilderApi

namespace Script

variable {letters : Letters}

/-! ### Tokens of numbers -/

/-- The tokens of the text of a number. -/
def numberTokens : Number → List Token
  | .int n => if n < 0 then [.mark '-', .number (.int n.natAbs)] else [.number (.int n.natAbs)]
  | .double x =>
    if x.isNegative then [.mark '-', .number (.double (Double.ofNumber x.number))]
    else [.number (.double (Double.ofNumber x.number))]

/-- Characters that may follow an expression. -/
def delimiters : List Char := [',', ']', '\x7d', ')', ';', ' ']

/-- Text that may follow an expression. -/
def Delimited (text : List Char) : Prop := ∀ c ∈ text.head?, c ∈ delimiters

theorem delimited_nil : Delimited [] := by
  intro c hc
  cases hc

theorem delimited_cons {c : Char} (hc : c ∈ delimiters) (text : List Char) :
    Delimited (c :: text) := by
  rintro d hd
  obtain rfl : c = d := by simpa using hd
  exact hc

/-- A delimiter ends a numeral. -/
theorem Delimited.ends {text : List Char} (h : Delimited text) : Numeral.Ends text := by
  intro c hc
  have := h c hc
  simp only [delimiters, List.mem_cons, List.not_mem_nil, or_false] at this
  rcases this with rfl | rfl | rfl | rfl | rfl | rfl <;> decide

/-- A delimiter is no part of a name. -/
theorem Delimited.not_name {text : List Char} (h : Delimited text) :
    ∀ c ∈ text.head?, letters.isStart c = false ∧ letters.isPart c = false := by
  intro c hc
  have := h c hc
  simp only [delimiters, List.mem_cons, List.not_mem_nil, or_false] at this
  rcases this with rfl | rfl | rfl | rfl | rfl | rfl <;> exact ⟨rfl, rfl⟩

/-- A minus in front of a digit stands alone. -/
theorem lex_minus {text : List Char} (h : ∃ c ∈ text.head?, c.isDigit = true) :
    lex letters ('-' :: text) = push [.mark '-'] (lex letters text) := by
  obtain ⟨c, hc, hdigit⟩ := h
  refine lex_mark (by decide) ?_
  rw [Option.mem_def.1 hc, Option.any_some, joins]
  have hne : ∀ d : Char, d.isDigit = false → c ≠ d := by
    rintro d hd rfl
    rw [hd] at hdigit
    cases hdigit
  simp [hne '-' (by decide), hne '=' (by decide)]

theorem head?_append_of_head? {p : Char → Bool} {text : List Char}
    (h : ∃ c ∈ text.head?, p c = true) (rest : List Char) :
    ∃ c ∈ (text ++ rest).head?, p c = true := by
  obtain ⟨c, hc, hp⟩ := h
  exact ⟨c, by simp [List.head?_append, Option.mem_def.1 hc], hp⟩

/-- **The text of a number is a numeral, perhaps behind a minus.** -/
theorem lex_numberChars {n : Number} (hfinite : (Json.num n).isFiniteNumber = true)
    {text : List Char} (htext : Delimited text) :
    lex letters (n.chars ++ text) = push (numberTokens n) (lex letters text) := by
  have hstart : ∀ c ∈ text.head?, letters.isStart c = false := fun c hc => (htext.not_name c hc).1
  cases n with
  | int n =>
    have hhead : ∃ c ∈ (Nat.toDigits 10 n.natAbs).head?, c.isDigit = true := by
      obtain ⟨c, rest, hc⟩ :=
        List.exists_cons_of_ne_nil (Nat.toDigits_ne_nil (n := n.natAbs) (b := 10))
      exact ⟨c, by simp [hc], Numeral.toDigits_isDigit n.natAbs c (by simp [hc])⟩
    have hlex := lex_number hhead (Numeral.read_int n.natAbs htext.ends) hstart
    rw [Number.chars, numberTokens]
    split
    · rw [List.cons_append, lex_minus (head?_append_of_head? hhead text), hlex, push_push]
      rfl
    · exact hlex
  | double x =>
    obtain ⟨whole, frac, e, hbody, hwhole, -⟩ := Numeral.exists_spell_body hfinite
    have hhead : ∃ c ∈ (Numeral.body x).head?, c.isDigit = true := by
      rw [hbody]
      exact Numeral.head?_spell hwhole
    have hlex := lex_number hhead (Numeral.read_double hfinite htext.ends) hstart
    rw [Number.chars, Numeral.chars_eq, numberTokens]
    split
    · rw [List.cons_append, lex_minus (head?_append_of_head? hhead text), hlex, push_push]
      rfl
    · exact hlex

/-! ### Tokens of values -/

mutual

/-- The tokens of the text of a value. -/
def literalTokens : Json → List Token
  | .null => [.word "null"]
  | .bool true => [.word "true"]
  | .bool false => [.word "false"]
  | .num n => numberTokens n
  | .str s => [.string s]
  | .arr items => .mark '[' :: itemTokens items ++ [.mark ']']
  | .obj members => .mark '\x7b' :: memberTokens members ++ [.mark '\x7d']

/-- The tokens of items, with commas between them. -/
def itemTokens : List Json → List Token
  | [] => []
  | [item] => literalTokens item
  | item :: next :: rest => literalTokens item ++ .mark ',' :: itemTokens (next :: rest)

/-- The tokens of members, with commas between them. -/
def memberTokens : List (String × Json) → List Token
  | [] => []
  | [(name, value)] => .string name :: .mark ':' :: literalTokens value
  | (name, value) :: next :: rest =>
    .string name :: .mark ':' :: literalTokens value ++ .mark ',' :: memberTokens (next :: rest)

end

theorem toNat_lt_of_mem_numberChars {n : Number} (hfinite : (Json.num n).isFiniteNumber = true) :
    ∀ c ∈ n.chars, c.toNat < 128 := by
  -- behind the minus there are digits, points and exponents only
  have hint : ∀ (n : Nat) (c : Char), c ∈ Nat.toDigits 10 n → c.toNat < 128 := fun n c hc =>
    Numeral.toNat_lt_of_isDigit (Numeral.toDigits_isDigit n c hc)
  have hdouble : ∀ x : Double, x.isFinite = true → ∀ c ∈ Numeral.body x, c.toNat < 128 := by
    intro x hx
    obtain ⟨whole, frac, e, hbody, hwhole, hfrac, -⟩ := Numeral.exists_spell_body hx
    rw [hbody]
    exact Numeral.toNat_lt_of_mem_spell hwhole hfrac
  intro c hc
  cases n with
  | int n =>
    rw [Number.chars] at hc
    split at hc
    · rcases List.mem_cons.1 hc with rfl | hc
      · decide
      · exact hint _ c hc
    · exact hint _ c hc
  | double x =>
    rw [Number.chars, Numeral.chars_eq] at hc
    split at hc
    · rcases List.mem_cons.1 hc with rfl | hc
      · decide
      · exact hdouble x hfinite c hc
    · exact hdouble x hfinite c hc

/-- Plain characters are not escaped. -/
theorem escapeSeparators_cons {c : Char} (hc : c.toNat < 128) (text : List Char) :
    escapeSeparators (c :: text) = c :: escapeSeparators text := by
  rw [escapeSeparators, List.flatMap_cons, escapeSeparator_of_ascii hc, List.singleton_append,
    ← escapeSeparators]

mutual

/-- **A literal is JSON text with its line separators escaped**, also where it is written item by
item. -/
theorem literalChars_eq : ∀ {value : Json}, value.isFinite = true →
    literalChars value = escapeSeparators value.chars
  | .null, _ => rfl
  | .bool true, _ => rfl
  | .bool false, _ => rfl
  | .num n, h => (escapeSeparators_of_ascii (toNat_lt_of_mem_numberChars (n := n) h)).symm
  | .str _, _ => rfl
  | .obj _, _ => rfl
  | .arr items, h => by
    have hitems := literalItems_eq items (Json.everywhere_arr.1 h).2
    rw [literalChars, hitems, Json.chars, List.cons_append, List.cons_append,
      escapeSeparators_cons (by decide),
      escapeSeparators_append]
    rfl

/-- Items are printed as in a document, with separators escaped. -/
theorem literalItems_eq : ∀ (items : List Json), (∀ item ∈ items, item.isFinite = true) →
    literalItems items = escapeSeparators (Json.itemChars items)
  | [], _ => rfl
  | [item], h => literalChars_eq (h item (by simp))
  | item :: next :: rest, h => by
    have hitem := literalChars_eq (h item (by simp))
    have hrest := literalItems_eq (next :: rest) fun other hother =>
      h other (List.mem_cons_of_mem _ hother)
    rw [literalItems, hitem, hrest, Json.itemChars, escapeSeparators_append,
      escapeSeparators_cons (by decide)]

end

/-- A word in front of a delimiter is one token. -/
theorem lex_wordLiteral (name : List Char) (hname : letters.isName name = true) {text : List Char}
    (htext : Delimited text) :
    lex letters (name ++ text) = push [.word (String.ofList name)] (lex letters text) :=
  lex_word hname fun c hc => (htext.not_name c hc).2

/-- A mark in front of which or behind which nothing joins. -/
theorem lex_bracket {c : Char} (hc : c ∈ ['(', ')', '[', ']', '\x7b', '\x7d', ':', ',', ';'])
    (text : List Char) :
    lex letters (c :: text) = push [.mark c] (lex letters text) := by
  have hjoin : ∀ d, joins c d = false := by
    intro d
    simp only [List.mem_cons, List.not_mem_nil, or_false] at hc
    rcases hc with rfl | rfl | rfl | rfl | rfl | rfl | rfl | rfl | rfl <;> rfl
  refine lex_mark ?_ ?_
  · simp only [List.mem_cons, List.not_mem_nil, or_false] at hc
    rcases hc with rfl | rfl | rfl | rfl | rfl | rfl | rfl | rfl | rfl <;> decide
  · cases text with
    | nil => rfl
    | cons d text => simpa using hjoin d

mutual

/-- The text of a finite value is read as its tokens, whatever follows behind a delimiter. -/
theorem lex_jsonChars : ∀ (value : Json), value.isFinite = true → ∀ text, Delimited text →
    lex letters (escapeSeparators value.chars ++ text) =
      push (literalTokens value) (lex letters text)
  | .null, _, _, htext => lex_wordLiteral ['n', 'u', 'l', 'l'] rfl htext
  | .bool true, _, _, htext => lex_wordLiteral ['t', 'r', 'u', 'e'] rfl htext
  | .bool false, _, _, htext => lex_wordLiteral ['f', 'a', 'l', 's', 'e'] rfl htext
  | .num n, h, text, htext => by
    rw [Json.chars, escapeSeparators_of_ascii (toNat_lt_of_mem_numberChars (n := n) h)]
    exact lex_numberChars h htext
  | .str s, _, text, _ => lex_quoteChars s text
  | .arr items, h, text, _ => by
    have hclose : escapeSeparators [']'] = [']'] := rfl
    have hitems := lex_itemChars items (Json.everywhere_arr.1 h).2 (']' :: text)
      (delimited_cons (by decide) text)
    rw [Json.chars, List.cons_append, escapeSeparators_cons (by decide), escapeSeparators_append,
      hclose, List.cons_append, List.append_assoc, lex_bracket (by decide),
      List.singleton_append, hitems, lex_bracket (by decide), push_push, push_push, literalTokens]
    rfl
  | .obj members, h, text, _ => by
    have hclose : escapeSeparators ['\x7d'] = ['\x7d'] := rfl
    have hmembers := lex_memberChars members (Json.everywhere_obj.1 h).2 ('\x7d' :: text)
      (delimited_cons (by decide) text)
    rw [Json.chars, List.cons_append, escapeSeparators_cons (by decide), escapeSeparators_append,
      hclose, List.cons_append, List.append_assoc, lex_bracket (by decide),
      List.singleton_append, hmembers, lex_bracket (by decide), push_push, push_push, literalTokens]
    rfl

/-- The text of items is read as their tokens. -/
theorem lex_itemChars : ∀ (items : List Json), (∀ item ∈ items, item.isFinite = true) →
    ∀ text, Delimited text →
    lex letters (escapeSeparators (Json.itemChars items) ++ text) =
      push (itemTokens items) (lex letters text)
  | [], _, _, _ => (push_nil _).symm
  | [item], h, text, htext => lex_jsonChars item (h item (by simp)) text htext
  | item :: next :: rest, h, text, htext => by
    have hitem := lex_jsonChars item (h item (by simp))
      (',' :: (escapeSeparators (Json.itemChars (next :: rest)) ++ text))
      (delimited_cons (by decide) _)
    have hrest :=
      lex_itemChars (next :: rest) (fun other hother => h other (List.mem_cons_of_mem _ hother))
      text htext
    rw [Json.itemChars, escapeSeparators_append, escapeSeparators_cons (by decide),
      List.append_assoc,
      List.cons_append, hitem, lex_bracket (by decide), hrest, push_push, push_push, itemTokens]
    simp

/-- The text of members is read as their tokens. -/
theorem lex_memberChars : ∀ (members : List (String × Json)),
    (∀ member ∈ members, member.2.isFinite = true) → ∀ text, Delimited text →
    lex letters (escapeSeparators (Json.memberChars members) ++ text) =
      push (memberTokens members) (lex letters text)
  | [], _, _, _ => (push_nil _).symm
  | [(name, value)], h, text, htext => by
    have hvalue := lex_jsonChars value (h (name, value) (by simp)) text htext
    rw [Json.memberChars, escapeSeparators_append, escapeSeparators_cons (by decide),
      List.append_assoc,
      List.cons_append, lex_quoteChars, lex_bracket (by decide), hvalue, push_push, push_push,
        memberTokens]
    rfl
  | (name, value) :: next :: rest, h, text, htext => by
    have hvalue := lex_jsonChars value (h (name, value) (by simp))
      (',' :: (escapeSeparators (Json.memberChars (next :: rest)) ++ text))
      (delimited_cons (by decide) _)
    have hrest :=
      lex_memberChars (next :: rest) (fun other hother => h other (List.mem_cons_of_mem _ hother))
      text htext
    rw [Json.memberChars, List.append_assoc, escapeSeparators_append, List.cons_append,
      escapeSeparators_cons (by decide), escapeSeparators_append, escapeSeparators_cons (by decide),
      List.append_assoc, List.cons_append, List.append_assoc, lex_quoteChars,
      lex_bracket (by decide),
      List.cons_append, hvalue, lex_bracket (by decide), hrest, push_push, push_push,
      push_push, push_push, memberTokens]
    simp

end

/-- **The tokens of a literal are those of the value.** -/
theorem lex_literalChars {value : Json} (h : value.isFinite = true) {text : List Char}
    (htext : Delimited text) :
    lex letters (literalChars value ++ text) = push (literalTokens value) (lex letters text) := by
  rw [literalChars_eq h, lex_jsonChars value h text htext]

/-! ### Expressions of values -/

mutual

/-- The expression that the literal of a value is. -/
def literalTerm : Json → Term
  | .arr items => .list (itemTerms items)
  | .obj members => .object (memberTerms members)
  | value => .value value

/-- The expressions of items. -/
def itemTerms : List Json → List Term
  | [] => []
  | item :: rest => literalTerm item :: itemTerms rest

/-- The expressions of members. -/
def memberTerms : List (String × Json) → List (String × Term)
  | [] => []
  | (name, value) :: rest => (name, literalTerm value) :: memberTerms rest

end

theorem ofNumber_number {x : Double} (h : x.isNegative = false) : Double.ofNumber x.number = x := by
  have hlt : x.bits.toNat < 2 ^ 63 := by simpa [Double.isNegative] using h
  rw [Double.ofNumber, Double.number, Nat.mod_eq_of_lt hlt, Nat.toUInt64_eq, UInt64.ofNat_toNat]

/-- The minus puts the sign back. -/
theorem negated_ofNumber {x : Double} (h : x.isNegative = true) :
    negated (.double (Double.ofNumber x.number)) = .double x := by
  have hle : 2 ^ 63 ≤ x.bits.toNat := by simpa [Double.isNegative] using h
  have hlt := x.bits.toNat_lt
  have hnumber := x.number_lt
  have hbits : (Double.ofNumber x.number).bits.toNat = x.number := UInt64.toNat_ofNat_of_lt' (by
    rw [UInt64.size]
    omega)
  have hsum : x.number + 2 ^ 63 = x.bits.toNat := by
    unfold Double.number
    omega
  rw [negated, hbits, hsum, Nat.toUInt64_eq, UInt64.ofNat_toNat]

/-- The tokens of a number are read as this number, the sign included. -/
theorem readsAs_number (n : Number) {bound : Nat} (hbound : 0 < bound) :
    ReadsAs bound (numberTokens n) (.value (.num n)) := by
  intro rest hrest
  obtain ⟨bound, rfl⟩ := Nat.exists_eq_add_of_lt hbound
  rw [zero_add]
  cases n with
  | int n =>
    rw [numberTokens]
    split
    · next hneg =>
      have hvalue : negated (.int n.natAbs) = .int n := by
        rw [negated]
        congr 1
        omega
      rw [expression]
      exact conditional_of_operand
        (congrArg (fun n => some (Term.value (.num n), rest)) hvalue) hrest
    · next hpos =>
      have hvalue : (n.natAbs : Int) = n := by omega
      rw [hvalue]
      exact expression_of_primary (by simp) rfl hrest
  | double x =>
    rw [numberTokens]
    split
    · next hneg =>
      rw [expression]
      exact conditional_of_operand
        (congrArg (fun n => some (Term.value (.num n), rest)) (negated_ofNumber hneg)) hrest
    · next hpos =>
      rw [ofNumber_number (by simpa using hpos)]
      exact expression_of_primary (by simp) rfl hrest

/-- The tokens of a value do not begin with a closing bracket. -/
theorem literalTokens_head (value : Json) :
    ∃ token rest, literalTokens value = token :: rest ∧ token ≠ .mark ']' := by
  cases value with
  | null => exact ⟨_, _, rfl, by simp⟩
  | bool b => cases b <;> exact ⟨_, _, rfl, by simp⟩
  | num n =>
    rw [literalTokens]
    cases n <;> rw [numberTokens] <;> split <;> exact ⟨_, _, rfl, by simp⟩
  | str s => exact ⟨_, _, rfl, by simp⟩
  | arr items => exact ⟨_, _, rfl, by simp⟩
  | obj members => exact ⟨_, _, rfl, by simp⟩

theorem length_literalTokens_pos (value : Json) : 0 < (literalTokens value).length := by
  obtain ⟨token, rest, h, -⟩ := literalTokens_head value
  simp [h]

/-- So what follows the bracket of a list that is not empty is read as its first item. -/
theorem itemTokens_head {items : List Json} (h : items ≠ []) :
    ∃ token rest, itemTokens items = token :: rest ∧ token ≠ .mark ']' := by
  obtain ⟨item, items, rfl⟩ := List.exists_cons_of_ne_nil h
  obtain ⟨token, rest, htoken, hne⟩ := literalTokens_head item
  cases items with
  | nil => exact ⟨token, rest, htoken, hne⟩
  | cons next items => exact ⟨token, _, by rw [itemTokens, htoken, List.cons_append], hne⟩

theorem memberTokens_head {members : List (String × Json)} (h : members ≠ []) :
    ∃ name rest, memberTokens members = .string name :: rest := by
  obtain ⟨⟨name, value⟩, members, rfl⟩ := List.exists_cons_of_ne_nil h
  cases members with
  | nil => exact ⟨name, _, rfl⟩
  | cons next members => exact ⟨name, _, by rw [memberTokens, List.cons_append]⟩

variable {sub : Parser Term}

/-- A list that is not empty is read by way of its items. -/
theorem primary_list {bound : Nat} {tokens rest : List Token} {terms : List Term}
    (hhead : ∃ token more, tokens = token :: more ∧ token ≠ .mark ']')
    (h : items sub bound tokens = some (terms, rest)) :
    primary sub bound (.mark '[' :: tokens) = some (.list terms, rest) := by
  obtain ⟨token, more, rfl, hne⟩ := hhead
  unfold primary
  split <;> simp_all

/-- An object that is not empty is read by way of its members. -/
theorem primary_object {bound : Nat} {tokens rest : List Token} {terms : List (String × Term)}
    (hhead : ∃ token more, tokens = token :: more ∧ token ≠ .mark '\x7d')
    (h : members sub bound tokens = some (terms, rest)) :
    primary sub bound (.mark '\x7b' :: tokens) = some (.object terms, rest) := by
  obtain ⟨token, more, rfl, hne⟩ := hhead
  unfold primary
  split <;> simp_all

mutual

/-- **The tokens of a literal are read as its expression**, wherever an expression may be nested so
deep. -/
theorem readsAs_literal : ∀ (value : Json) (bound : Nat), (literalTokens value).length ≤ bound →
    ReadsAs bound (literalTokens value) (literalTerm value)
  | .null, bound + 1, _ => fun rest hrest =>
      expression_of_primary (by simp [literalTokens]) rfl hrest
  | .bool true, bound + 1, _ => fun rest hrest =>
    expression_of_primary (by simp [literalTokens]) rfl hrest
  | .bool false, bound + 1, _ => fun rest hrest =>
    expression_of_primary (by simp [literalTokens]) rfl hrest
  | .num n, bound + 1, _ => readsAs_number n (Nat.succ_pos bound)
  | .str s, bound + 1, _ => fun rest hrest =>
    expression_of_primary (by simp [literalTokens]) rfl hrest
  | .arr items, bound + 1, hbound => by
    intro rest hrest
    rw [literalTokens, List.cons_append, List.cons_append, List.append_assoc, List.singleton_append]
    refine expression_of_primary (by simp) ?_ hrest
    -- an empty array is read by a rule of its own
    by_cases hnil : items = []
    · subst hnil
      rfl
    · obtain ⟨token, more, htokens, hne⟩ := itemTokens_head hnil
      rw [literalTerm]
      refine primary_list ⟨token, more ++ .mark ']' :: rest, by
        rw [htokens, List.cons_append], hne⟩ ?_
      rw [literalTokens, List.length_append, List.length_cons, List.length_singleton] at hbound
      exact items_itemTokens items hnil bound (bound + 1) (by omega) (by omega) rest
  | .obj members, bound + 1, hbound => by
    intro rest hrest
    rw [literalTokens, List.cons_append, List.cons_append, List.append_assoc, List.singleton_append]
    refine expression_of_primary (by simp) ?_ hrest
    by_cases hnil : members = []
    · subst hnil
      rfl
    · obtain ⟨name, more, htokens⟩ := memberTokens_head hnil
      rw [literalTerm]
      refine primary_object ⟨.string name, more ++ .mark '\x7d' :: rest, by
        rw [htokens, List.cons_append],
        by simp⟩ ?_
      rw [literalTokens, List.length_append, List.length_cons, List.length_singleton] at hbound
      exact members_memberTokens members hnil bound (bound + 1) (by omega) (by omega) rest
  | value, 0, hbound => by
    have := length_literalTokens_pos value
    omega

/-- The tokens of items are read back, up to the closing bracket. -/
theorem items_itemTokens : ∀ (values : List Json), values ≠ [] → ∀ depth bound,
    (itemTokens values).length ≤ depth → (itemTokens values).length ≤ bound → ∀ rest,
    items (expression depth) bound (itemTokens values ++ .mark ']' :: rest) =
      some (itemTerms values, rest)
  | [], hnil, _, _, _, _, _ => absurd rfl hnil
  | [value], _, depth, bound, hdepth, hbound, rest => by
    have hpos := length_literalTokens_pos value
    rw [itemTokens] at hdepth hbound ⊢
    obtain ⟨bound, rfl⟩ := Nat.exists_eq_add_of_le' (hpos.trans_le hbound)
    exact items_last (readsAs_literal value depth hdepth _ (endsExpression_mark (by decide) rest))
  | value :: next :: values, _, depth, bound, hdepth, hbound, rest => by
    have hpos := length_literalTokens_pos value
    rw [itemTokens, List.length_append, List.length_cons] at hdepth hbound
    obtain ⟨bound, rfl⟩ := Nat.exists_eq_add_of_le' (show 1 ≤ bound by omega)
    have hrest := items_itemTokens (next :: values) (by simp) depth bound (by omega) (by omega) rest
    rw [itemTokens, List.append_assoc, List.cons_append]
    exact items_cons (readsAs_literal value depth (by omega) _ (endsExpression_mark (by decide) _))
      hrest

/-- The tokens of members are read back, up to the closing brace. -/
theorem members_memberTokens : ∀ (values : List (String × Json)), values ≠ [] → ∀ depth bound,
    (memberTokens values).length ≤ depth → (memberTokens values).length ≤ bound → ∀ rest,
    members (expression depth) bound (memberTokens values ++ .mark '\x7d' :: rest) =
      some (memberTerms values, rest)
  | [], hnil, _, _, _, _, _ => absurd rfl hnil
  | [(name, value)], _, depth, bound, hdepth, hbound, rest => by
    rw [memberTokens, List.length_cons, List.length_cons] at hdepth hbound
    obtain ⟨bound, rfl⟩ := Nat.exists_eq_add_of_le' (show 1 ≤ bound by omega)
    rw [memberTokens, List.cons_append, List.cons_append]
    exact members_last rfl
      (readsAs_literal value depth (by omega) _ (endsExpression_mark (by decide) rest))
  | (name, value) :: next :: values, _, depth, bound, hdepth, hbound, rest => by
    rw [memberTokens, List.length_append, List.length_cons, List.length_cons, List.length_cons]
      at hdepth hbound
    obtain ⟨bound, rfl⟩ := Nat.exists_eq_add_of_le' (show 1 ≤ bound by omega)
    have hrest :=
      members_memberTokens (next :: values) (by simp) depth bound (by omega) (by omega) rest
    rw [memberTokens, List.append_assoc, List.cons_append, List.cons_append, List.cons_append]
    exact members_cons rfl
      (readsAs_literal value depth (by omega) _ (endsExpression_mark (by decide) _)) hrest

end

/-! ### Values of expressions -/

/-- Names that scripts treat like all others: names of the language, apart from `__proto__`. -/
def Letters.isPlainName (letters : Letters) (name : String) : Bool :=
  letters.isName name.toList && name != "__proto__"

/-- Plain names may stand in front of a colon without quotes. -/
theorem isMemberName_of_isPlainName {name : String} (h : letters.isPlainName name = true) :
    isMemberName name = true := by
  rw [Letters.isPlainName, Bool.and_eq_true] at h
  rw [isMemberName, Bool.and_eq_true]
  refine ⟨h.2, ?_⟩
  cases hname : name.toList with
  | nil =>
    rw [hname] at h
    cases h.1
  | cons c rest =>
    rw [hname, Letters.isName, Bool.and_eq_true] at h
    -- a name does not begin with a digit
    cases hdigit : c.isDigit with
    | false => simp [hdigit]
    | true =>
      obtain ⟨-, -, hstart⟩ := kind_of_isDigit letters hdigit
      rw [hstart] at h
      cases h.1.1

/-- An object without the name that sets a prototype has the members that are written. -/
theorem makeObject_eq {members : List (String × Json)}
    (h : ∀ member ∈ members, isMemberName member.1 = true) :
    makeObject members = some (.obj (Fields.ofList members)) :=
  if_pos (List.all_eq_true.2 h)

/-- Values that a literal can denote. -/
structure Denotable (letters : Letters) (value : Json) : Prop where
  keyed : value.isKeyed = true
  names : value.everywhere (Json.namesPass letters.isPlainName) = true

mutual

/-- **The expression of a literal has the value that was written.** -/
theorem eval_literalTerm (scope : Scope) : ∀ {value : Json}, Denotable letters value →
    eval scope (literalTerm value) = some value
  | .null, _ | .bool _, _ | .num _, _ | .str _, _ => rfl
  | .arr items, h => by
    have hitems := evalItems_itemTerms scope fun item hitem =>
      ⟨Json.isKeyed_arr.1 h.keyed item hitem, (Json.everywhere_arr.1 h.names).2 item hitem⟩
    rw [literalTerm, eval, hitems, Option.map_some]
  | .obj members, h => by
    have hkeyed := Json.isKeyed_obj.1 h.keyed
    have hnames := Json.everywhere_obj.1 h.names
    have hmembers := evalMembers_memberTerms scope fun member hmember =>
      ⟨hkeyed.2 member hmember, hnames.2 member hmember⟩
    have hplain : ∀ member ∈ members, isMemberName member.1 = true := fun member hmember =>
      isMemberName_of_isPlainName (List.all_eq_true.1 hnames.1 member hmember)
    rw [literalTerm, eval, hmembers, Option.bind_some, makeObject_eq hplain,
      Fields.ofList_eq_self hkeyed.1]

/-- The terms of items evaluate to the items, whatever is in scope. -/
theorem evalItems_itemTerms (scope : Scope) :
    ∀ {items : List Json}, (∀ item ∈ items, Denotable letters item) →
    evalItems scope (itemTerms items) = some items
  | [], _ => rfl
  | item :: rest, h => by
    rw [itemTerms, evalItems, eval_literalTerm scope (h item (by simp)),
      evalItems_itemTerms scope fun other hother => h other (List.mem_cons_of_mem _ hother)]

/-- The terms of members evaluate to the members, whatever is in scope. -/
theorem evalMembers_memberTerms (scope : Scope) : ∀ {members : List (String × Json)},
    (∀ member ∈ members, Denotable letters member.2) →
    evalMembers scope (memberTerms members) = some members
  | [], _ => rfl
  | (name, value) :: rest, h => by
    rw [memberTerms, evalMembers, eval_literalTerm scope (h (name, value) (by simp)),
      evalMembers_memberTerms scope fun other hother => h other (List.mem_cons_of_mem _ hother)]

end

end Script

end BuilderApi
