import BuilderApi.Proofs.Json.NumberText
import BuilderApi.Proofs.Json.Reading

/-!
# The grammar of JSON

What a JSON text is, said without a reader: a value with blanks on both sides
(`BuilderApi.Json.IsText`). Lists and objects are built alike, an opening bracket, parts with commas
between them and a closing bracket; so one family of rules spells both, with the bracket as a
parameter (`BuilderApi.JsonText.Spells`). The rules follow a text from left to right: behind a part
stands the closing bracket, or a comma and another part.

The grammar does not ask what a text means. A number may be beyond all limits, an escape may be half
of a surrogate pair, a name may be repeated, and lists and objects may be nested as deep as one
likes.
-/

namespace BuilderApi

namespace JsonText

open Reader (IsBlanks isBlank)
open Passing (Bracket)

/-! ### The rules -/

/-- A hexadecimal digit. -/
def IsHex (c : Char) : Prop := (Reader.hexValue? c).isSome = true

/-- An escape, behind its backslash. -/
inductive IsEscape : List Char → Prop
  /-- A letter that stands for a character. -/
  | letter {c : Char} (h : c ∈ ['"', '\\', '/', 'b', 'f', 'n', 'r', 't']) : IsEscape [c]
  /-- A unit of two bytes. -/
  | unit {a b c d : Char} (ha : IsHex a) (hb : IsHex b) (hc : IsHex c) (hd : IsHex d) :
      IsEscape ['u', a, b, c, d]

/-- A string behind its opening quote. -/
inductive IsString : List Char → Prop
  /-- The closing quote. -/
  | close : IsString ['"']
  /-- A character that stands for itself. -/
  | plain {c : Char} {rest : List Char} (hquote : c ≠ '"') (hbackslash : c ≠ '\\')
      (hcontrol : 32 ≤ c.toNat) (h : IsString rest) : IsString (c :: rest)
  /-- An escape. -/
  | escape {sequence rest : List Char} (hescape : IsEscape sequence) (h : IsString rest) :
      IsString ('\\' :: (sequence ++ rest))

/-- A value that has no parts. -/
inductive IsLeaf : List Char → Prop
  | null : IsLeaf ['n', 'u', 'l', 'l']
  | true : IsLeaf ['t', 'r', 'u', 'e']
  | false : IsLeaf ['f', 'a', 'l', 's', 'e']
  | string {text : List Char} (h : IsString text) : IsLeaf ('"' :: text)
  | number {t : NumberText} (h : t.IsValid) : IsLeaf t.chars
  | negative {t : NumberText} (h : t.IsValid) : IsLeaf ('-' :: t.chars)

/-- The opening bracket. -/
def opening : Bracket → Char
  | .list => '['
  | .object => '\x7b'

/-- The pieces of a text that the grammar has rules for. -/
inductive Piece where
  /-- A value. -/
  | value
  /-- A part of a list or an object, with the blanks in front of it. -/
  | part (bracket : Bracket)
  /-- What follows an opening bracket, up to the closing one. -/
  | inside (bracket : Bracket)
  /-- What follows a part, up to the closing bracket. -/
  | behind (bracket : Bracket)

/-- The text spells a piece. -/
inductive Spells : Piece → List Char → Prop
  /-- A value without parts. -/
  | leaf {text : List Char} (h : IsLeaf text) : Spells .value text
  /-- A list or an object. -/
  | nested {bracket : Bracket} {text : List Char} (h : Spells (.inside bracket) text) :
      Spells .value (opening bracket :: text)
  /-- An item. -/
  | item {lead text : List Char} (hlead : IsBlanks lead) (h : Spells .value text) :
      Spells (.part .list) (lead ++ text)
  /-- A member: a name, a colon and a value. -/
  | member {lead name gap lead' text : List Char} (hlead : IsBlanks lead) (hname : IsString name)
      (hgap : IsBlanks gap) (hlead' : IsBlanks lead') (h : Spells .value text) :
      Spells (.part .object) (lead ++ '"' :: (name ++ (gap ++ ':' :: (lead' ++ text))))
  /-- No parts. -/
  | empty {bracket : Bracket} {blanks : List Char} (hblanks : IsBlanks blanks) :
      Spells (.inside bracket) (blanks ++ [bracket.closing])
  /-- A part and what follows it. -/
  | first {bracket : Bracket} {text more : List Char} (h : Spells (.part bracket) text)
      (hmore : Spells (.behind bracket) more) : Spells (.inside bracket) (text ++ more)
  /-- No more parts. -/
  | last {bracket : Bracket} {blanks : List Char} (hblanks : IsBlanks blanks) :
      Spells (.behind bracket) (blanks ++ [bracket.closing])
  /-- A comma, a part and what follows it. -/
  | next {bracket : Bracket} {blanks text more : List Char} (hblanks : IsBlanks blanks)
      (h : Spells (.part bracket) text) (hmore : Spells (.behind bracket) more) :
      Spells (.behind bracket) (blanks ++ ',' :: (text ++ more))

end JsonText

/-- One JSON text: a value with blanks on both sides. -/
def Json.IsText (text : List Char) : Prop :=
  ∃ lead value final, text = lead ++ (value ++ final) ∧ Reader.IsBlanks lead ∧
    Reader.IsBlanks final ∧ JsonText.Spells .value value

namespace JsonText

/-! ### How values begin and end -/

open Reader (IsBlanks isBlank)
open Passing (Bracket)

variable {text more rest blanks tail : List Char} {bracket : Bracket} {t : NumberText} {c : Char}

/-- A numeral begins with a digit. -/
theorem exists_digit_chars (h : t.IsValid) : ∃ c rest, t.chars = c :: rest ∧ c.isDigit = true := by
  obtain ⟨c, digits, hdigits⟩ := List.exists_cons_of_ne_nil h.whole.ne_nil
  refine ⟨c, digits ++ (NumberText.fractionChars t.fraction ++ NumberText.exponentChars t.exponent),
    ?_, h.whole.digits c (by rw [hdigits]; exact List.mem_cons_self)⟩
  rw [NumberText.chars, hdigits, List.cons_append]

/-- **A value begins with no blank**, with no closing bracket and with no comma. -/
theorem exists_head (h : Spells .value text) :
    ∃ c rest, text = c :: rest ∧ isBlank c = false ∧ ∀ bracket : Bracket, c ≠ bracket.closing := by
  have hne (c : Char) (hlist : c ≠ ']') (hobject : c ≠ '\x7d') :
      ∀ bracket : Bracket, c ≠ bracket.closing := by
    rintro (_ | _)
    · exact hlist
    · exact hobject
  cases h with
  | @nested bracket text h =>
    cases bracket
    · exact ⟨_, _, rfl, rfl, hne _ (by decide) (by decide)⟩
    · exact ⟨_, _, rfl, rfl, hne _ (by decide) (by decide)⟩
  | leaf h =>
    cases h with
    | null => exact ⟨_, _, rfl, rfl, hne _ (by decide) (by decide)⟩
    | true => exact ⟨_, _, rfl, rfl, hne _ (by decide) (by decide)⟩
    | false => exact ⟨_, _, rfl, rfl, hne _ (by decide) (by decide)⟩
    | string h => exact ⟨_, _, rfl, rfl, hne _ (by decide) (by decide)⟩
    | negative h => exact ⟨_, _, rfl, rfl, hne _ (by decide) (by decide)⟩
    | number h =>
      obtain ⟨c, rest, hchars, hc⟩ := exists_digit_chars h
      exact ⟨c, rest, hchars, Reader.isBlank_of_isDigit hc,
        hne c (Reader.ne_of_isDigit hc (by decide))
        (Reader.ne_of_isDigit hc (by decide))⟩

theorem isBlanks_append (h : IsBlanks blanks) (hrest : IsBlanks rest) :
    IsBlanks (blanks ++ rest) := fun c hc =>
  (List.mem_append.1 hc).elim (h c) (hrest c)

/-- More blanks may stand in front of a part. -/
theorem Spells.lead (h : Spells (.part bracket) text) (hblanks : IsBlanks blanks) :
    Spells (.part bracket) (blanks ++ text) := by
  cases h with
  | item hlead h =>
    rw [← List.append_assoc]
    exact .item (isBlanks_append hblanks hlead) h
  | member hlead hname hgap hlead' h =>
    rw [← List.append_assoc]
    exact .member (isBlanks_append hblanks hlead) hname hgap hlead' h

/-- A value does not begin with blanks. -/
theorem skipBlanks_value (h : Spells .value text) (tail : List Char) :
    Reader.skipBlanks (text ++ tail) = text ++ tail := by
  obtain ⟨c, rest, rfl, hc, -⟩ := exists_head h
  exact Reader.skipBlanks_cons hc _

theorem skipBlanks_closing (hblanks : IsBlanks blanks) (bracket : Bracket) (tail : List Char) :
    Reader.skipBlanks (blanks ++ [bracket.closing] ++ tail) = bracket.closing :: tail := by
  rw [List.append_assoc, Reader.skipBlanks_append hblanks, List.singleton_append]
  cases bracket <;> rfl

/-- A part begins with no closing bracket. -/
theorem exists_partHead (h : Spells (.part bracket) text) (tail : List Char) :
    ∃ c rest, Reader.skipBlanks (text ++ tail) = c :: rest ∧
      ∀ bracket : Bracket, c ≠ bracket.closing := by
  cases h with
  | @item lead text hlead h =>
    obtain ⟨c, rest, hhead, -, hc⟩ := exists_head h
    refine ⟨c, rest ++ tail, ?_, hc⟩
    rw [List.append_assoc, Reader.skipBlanks_append hlead, skipBlanks_value h, hhead,
      List.cons_append]
  | @member lead name gap lead' text hlead =>
    refine ⟨'"', name ++ (gap ++ ':' :: (lead' ++ text)) ++ tail, ?_, by rintro (_ | _) <;> decide⟩
    rw [List.append_assoc, Reader.skipBlanks_append hlead, List.cons_append,
      Reader.skipBlanks_cons (by decide)]

theorem ends_of_isBlank (hc : isBlank c = true) (text : List Char) :
    NumberText.Ends (c :: text) := by
  rintro d hd
  obtain rfl : c = d := by simpa using hd
  have hblank : c = ' ' ∨ c = '\n' ∨ c = '\t' ∨ c = '\r' := by
    simpa [isBlank, or_assoc] using hc
  rcases hblank with rfl | rfl | rfl | rfl <;> decide

theorem not_isDigit_of_isBlank (hc : isBlank c = true) : c.isDigit = false :=
  (ends_of_isBlank hc [] c rfl).1

/-- Blanks end a numeral. -/
theorem ends_blanks (h : IsBlanks blanks) (hrest : NumberText.Ends rest) :
    NumberText.Ends (blanks ++ rest) := by
  cases blanks with
  | nil => exact hrest
  | cons c blanks => exact ends_of_isBlank (h c List.mem_cons_self) _

theorem ends_closing (bracket : Bracket) (text : List Char) :
    NumberText.Ends (bracket.closing :: text) := by
  cases bracket <;> exact NumberText.ends_cons (by decide) _

/-- Behind a part, no number goes on. -/
theorem ends_behind (h : Spells (.behind bracket) text) (tail : List Char) :
    NumberText.Ends (text ++ tail) := by
  cases h with
  | last hblanks =>
    rw [List.append_assoc]
    exact ends_blanks hblanks (ends_closing _ _)
  | next hblanks =>
    rw [List.append_assoc]
    exact ends_blanks hblanks (NumberText.ends_cons (by decide) _)

/-! ### Where a number at the end of a text stops -/

/-- The number that a text ends with, if it ends with one, does not go on behind the text. -/
def Stops (text rest : List Char) : Prop :=
  ∀ last ∈ text.getLast?, last.isDigit = true → ∀ c ∈ rest.head?, c.isDigit = false ∧
    (c = '.' → '.' ∈ text ∨ 'e' ∈ text ∨ 'E' ∈ text) ∧ (c = 'e' ∨ c = 'E' → 'e' ∈ text ∨ 'E' ∈ text)

/-- What ends all numerals stops each leaf. -/
theorem stops_of_ends (h : NumberText.Ends rest) (text : List Char) : Stops text rest := by
  intro last _ _ c hc
  obtain ⟨hdigit, hpoint, hsmall, hcapital⟩ := h c hc
  exact ⟨hdigit, fun heq => absurd heq hpoint, fun heq => absurd heq (not_or.2 ⟨hsmall, hcapital⟩)⟩

theorem stops_of_getLast (hlast : text.getLast? = some c) (hc : c.isDigit = false)
    (rest : List Char) :
    Stops text rest := by
  intro last hmem hdigit
  obtain rfl := Option.some.inj (hlast.symm.trans hmem)
  rw [hc] at hdigit
  cases hdigit

/-- A list, an object, a string or a word ends by itself. -/
theorem stops_of_last (text : List Char) (hc : c.isDigit = false) (rest : List Char) :
    Stops (text ++ [c]) rest :=
  stops_of_getLast (List.getLast?_concat) hc rest

/-- How a piece ends that goes up to a closing bracket. -/
def Closed : Piece → List Char → Prop
  | .inside bracket, text | .behind bracket, text => ∃ front, text = front ++ [bracket.closing]
  | .value, _ | .part _, _ => True

/-- A piece that goes up to a closing bracket ends with it. -/
theorem closed_of_spells {piece : Piece} (h : Spells piece text) : Closed piece text := by
  induction h with
  | leaf | nested | item | member => trivial
  | empty | last => exact ⟨_, rfl⟩
  | @first bracket text more _ _ _ ih =>
    obtain ⟨front, rfl⟩ := ih
    exact ⟨text ++ front, (List.append_assoc _ _ _).symm⟩
  | @next bracket blanks text more _ _ _ _ ih =>
    obtain ⟨front, rfl⟩ := ih
    exact ⟨blanks ++ ',' :: (text ++ front), by simp⟩

/-- A list and an object end with their brackets. -/
theorem stops_nested (bracket : Bracket) (h : Spells (.inside bracket) text) (rest : List Char) :
    Stops (opening bracket :: text) rest := by
  obtain ⟨front, rfl⟩ := closed_of_spells h
  exact stops_of_last (opening bracket :: front) (by cases bracket <;> decide) rest

/-- A string ends with its quote. -/
theorem stops_string (h : IsString text) (rest : List Char) : Stops ('"' :: text) rest := by
  have hlast : ∃ front, text = front ++ ['"'] := by
    induction h with
    | close => exact ⟨[], rfl⟩
    | @plain c text _ _ _ _ ih =>
      obtain ⟨front, rfl⟩ := ih
      exact ⟨c :: front, rfl⟩
    | @escape sequence text _ _ ih =>
      obtain ⟨front, rfl⟩ := ih
      exact ⟨'\\' :: (sequence ++ front), by simp⟩
  obtain ⟨front, rfl⟩ := hlast
  exact stops_of_last ('"' :: front) (by decide) rest

theorem not_mem_of_isDigits (h : ∀ c ∈ text, c.isDigit = true) (hc : c.isDigit = false) :
    c ∉ text := fun hmem => by
  rw [h c hmem] at hc
  cases hc

/-- What is in a number beside digits: its point, and the letter and the sign of its exponent. -/
theorem mem_chars_iff (h : t.IsValid) (hc : c.isDigit = false) : c ∈ t.chars ↔
    c = '.' ∧ t.fraction ≠ none ∨ ∃ e, t.exponent = some e ∧ (c = e.letter ∨ e.sign = some c) := by
  have hwhole : c ∉ t.whole := not_mem_of_isDigits h.whole.digits hc
  have hfraction : c ∈ NumberText.fractionChars t.fraction ↔ c = '.' ∧ t.fraction ≠ none := by
    cases hdigits : t.fraction with
    | none => simp [NumberText.fractionChars]
    | some digits =>
      have hnot := not_mem_of_isDigits (h.fraction digits hdigits).all hc
      simp [NumberText.fractionChars, hnot]
  have hexponent : c ∈ NumberText.exponentChars t.exponent ↔
      ∃ e, t.exponent = some e ∧ (c = e.letter ∨ e.sign = some c) := by
    cases hparts : t.exponent with
    | none => simp [NumberText.exponentChars]
    | some e =>
      have hnot := not_mem_of_isDigits (h.exponent e hparts).digits.all hc
      simp [NumberText.exponentChars, ExponentText.chars, hnot]
  rw [NumberText.chars, List.mem_append, List.mem_append, hfraction, hexponent, or_iff_right hwhole]

theorem point_mem_chars_iff (h : t.IsValid) : '.' ∈ t.chars ↔ t.fraction ≠ none := by
  rw [mem_chars_iff h (by decide)]
  constructor
  · rintro (⟨-, hfraction⟩ | ⟨e, he, hpoint | hpoint⟩)
    · exact hfraction
    · rcases (h.exponent e he).letter with hletter | hletter <;> rw [hletter]
        at hpoint <;> cases hpoint
    · rcases (h.exponent e he).sign with hsign | hsign | hsign <;> rw [hsign]
        at hpoint <;> cases hpoint
  · exact fun hfraction => .inl ⟨rfl, hfraction⟩

theorem letter_mem_chars_iff (h : t.IsValid) :
    'e' ∈ t.chars ∨ 'E' ∈ t.chars ↔ t.exponent ≠ none := by
  rw [mem_chars_iff h (by decide), mem_chars_iff h (by decide)]
  constructor
  · rintro ((⟨hpoint, -⟩ | ⟨e, he, -⟩) | (⟨hpoint, -⟩ | ⟨e, he, -⟩))
    · cases hpoint
    · simp [he]
    · cases hpoint
    · simp [he]
  · intro hexponent
    obtain ⟨e, he⟩ := Option.ne_none_iff_exists'.1 hexponent
    rcases (h.exponent e he).letter with hletter | hletter
    · exact .inl (.inr ⟨e, he, .inl hletter.symm⟩)
    · exact .inr (.inr ⟨e, he, .inl hletter.symm⟩)

/-- A number ends with a digit. -/
theorem exists_getLast_chars (h : t.IsValid) :
    ∃ c, t.chars.getLast? = some c ∧ c.isDigit = true := by
  have hlast {front digits : List Char} (hdigits : IsDigits digits) :
      ∃ c, (front ++ digits).getLast? = some c ∧ c.isDigit = true := by
    obtain ⟨init, c, rfl⟩ := (List.eq_nil_or_concat' digits).resolve_left hdigits.ne_nil
    exact ⟨c, by rw [← List.append_assoc, List.getLast?_concat], hdigits.all c (by simp)⟩
  unfold NumberText.chars
  cases hexponent : t.exponent with
  | some e =>
    have hdigits := (h.exponent e hexponent).digits
    simpa [NumberText.exponentChars, ExponentText.chars] using
      @hlast (t.whole ++ (NumberText.fractionChars t.fraction ++ e.letter :: e.sign.toList))
        e.digits hdigits
  | none =>
    cases hfraction : t.fraction with
    | some digits =>
      simpa [NumberText.exponentChars, NumberText.fractionChars] using
        @hlast (t.whole ++ ['.']) digits (h.fraction digits hfraction)
    | none =>
      simpa [NumberText.exponentChars, NumberText.fractionChars] using
        @hlast [] t.whole (NumberText.isDigits_of_isWhole h.whole)

/-- **A number stops where its text does.** -/
theorem stops_chars_iff (h : t.IsValid) : Stops t.chars rest ↔ t.StopsBefore rest := by
  obtain ⟨last, hlast, hdigit⟩ := exists_getLast_chars h
  unfold Stops
  rw [letter_mem_chars_iff h, point_mem_chars_iff h, hlast]
  constructor
  · intro hstops
    have hrest := hstops last rfl hdigit
    refine ⟨fun c hc => (hrest c hc).1, fun hfraction hexponent hpoint =>
      ?_, fun hexponent c hc => ?_⟩
    · rcases (hrest '.' hpoint).2.1 rfl with hthere | hthere
      · exact hthere hfraction
      · exact hthere hexponent
    · have hletter := fun heq => (hrest c hc).2.2 heq hexponent
      exact not_or.1 hletter
  · rintro hbefore _ - - c hc
    refine ⟨hbefore.digit c hc, ?_, ?_⟩
    · rintro rfl
      by_contra hnone
      rw [not_or, not_not, not_not] at hnone
      exact hbefore.point hnone.1 hnone.2 hc
    · intro hletter hexponent
      obtain ⟨hsmall, hcapital⟩ := hbefore.exponent hexponent c hc
      exact hletter.elim hsmall hcapital

/-- A character in front makes no difference, unless it may stand inside of a numeral. -/
theorem stops_cons_iff (hne : text ≠ []) (hc : c ∉ ['.', 'e', 'E']) :
    Stops (c :: text) rest ↔ Stops text rest := by
  simp only [List.mem_cons, List.not_mem_nil, or_false, not_or] at hc
  obtain ⟨first, others, rfl⟩ := List.exists_cons_of_ne_nil hne
  simp [Stops, Ne.symm hc.1, Ne.symm hc.2.1, Ne.symm hc.2.2, List.getLast?_cons_cons]

theorem stops_negative_iff (h : t.IsValid) : Stops ('-' :: t.chars) rest ↔ t.StopsBefore rest := by
  obtain ⟨c, digits, hchars, -⟩ := exists_digit_chars h
  rw [stops_cons_iff (by rw [hchars]; exact List.cons_ne_nil _ _) (by decide), stops_chars_iff h]

end JsonText

end BuilderApi
