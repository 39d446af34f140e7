import BuilderApi.Json.Passing
import BuilderApi.Proofs.Json.Numeral
import BuilderApi.Proofs.Results

/-!
# The text of a number

The grammar of JSON numbers, as data: digits in front of the point, which have no leading zero,
perhaps digits behind it, and perhaps an exponent (`BuilderApi.NumberText`). The text of such a
number is what the two scanners take off the front of a text, the one that reads values
(`BuilderApi.NumberText.number_chars`, `BuilderApi.NumberText.exists_of_number`) and the one that
passes over them (`BuilderApi.NumberText.passing_number_chars`,
`BuilderApi.NumberText.exists_of_passing_number`). The two go equally far; but only the first one
asks what the number is, and may find it beyond the finite doubles.

Nothing in a number says where it ends, so something is needed of the text behind it: that the
number does not go on (`BuilderApi.NumberText.StopsBefore`). What that comes to depends on the parts
that the number has already.
-/

namespace BuilderApi

/-- The value of a digit. -/
def digitValue (c : Char) : Nat := c.toNat - '0'.toNat

/-- An exponent as it is written. -/
structure ExponentText where
  /-- The letter. -/
  letter : Char
  /-- The sign, if there is one. -/
  sign : Option Char
  /-- The digits. -/
  digits : List Char

/-- A number as it is written, without the minus in front of it. -/
structure NumberText where
  /-- The digits in front of the point. -/
  whole : List Char
  /-- The digits behind the point, if there is one. -/
  fraction : Option (List Char)
  /-- The exponent, if there is one. -/
  exponent : Option ExponentText

/-- One or more digits. -/
structure IsDigits (digits : List Char) : Prop where
  /-- Only digits. -/
  all : ∀ c ∈ digits, c.isDigit = true
  /-- One at least. -/
  ne_nil : digits ≠ []

namespace ExponentText

/-- The text of an exponent. -/
def chars (e : ExponentText) : List Char := e.letter :: (e.sign.toList ++ e.digits)

/-- The power of ten that it stands for. -/
def value (e : ExponentText) : Int :=
  (if e.sign = some '-' then -1 else 1) * (e.digits.map digitValue).foldl (fun n digit =>
    n * 10 + digit) (0 : Nat)

/-- The exponents of JSON. -/
structure IsValid (e : ExponentText) : Prop where
  /-- Either letter. -/
  letter : e.letter = 'e' ∨ e.letter = 'E'
  /-- Either sign, or none. -/
  sign : e.sign = none ∨ e.sign = some '+' ∨ e.sign = some '-'
  /-- Behind it there are digits. -/
  digits : IsDigits e.digits

end ExponentText

namespace NumberText

/-- The text of a fraction. -/
def fractionChars : Option (List Char) → List Char
  | none => []
  | some digits => '.' :: digits

/-- The text of an exponent, if there is one. -/
def exponentChars : Option ExponentText → List Char
  | none => []
  | some e => e.chars

/-- The text of a number. -/
def chars (t : NumberText) : List Char :=
  t.whole ++ (fractionChars t.fraction ++ exponentChars t.exponent)

/-- The literal that is written. -/
def literal (t : NumberText) (negative : Bool) : NumberLiteral :=
  ⟨negative, t.whole.map digitValue, t.fraction.map (List.map digitValue),
    t.exponent.map ExponentText.value⟩

/-- The numbers of JSON. -/
structure IsValid (t : NumberText) : Prop where
  /-- Digits in front of the point; a zero in front stands alone. -/
  whole : Numeral.IsWhole t.whole
  /-- Digits behind a point. -/
  fraction : ∀ digits ∈ t.fraction, IsDigits digits
  /-- A proper exponent. -/
  exponent : ∀ e ∈ t.exponent, e.IsValid

/-- A text that does not go on with a digit. -/
def EndsDigits (text : List Char) : Prop := ∀ c ∈ text.head?, c.isDigit = false

/-- A text that does not continue a number. -/
def Ends (text : List Char) : Prop :=
  ∀ c ∈ text.head?, c.isDigit = false ∧ c ≠ '.' ∧ c ≠ 'e' ∧ c ≠ 'E'

/-- A text in which the number does not go on. -/
structure StopsBefore (t : NumberText) (text : List Char) : Prop where
  /-- No digit follows. -/
  digit : EndsDigits text
  /-- No point follows, unless there is one already or an exponent. -/
  point : t.fraction = none → t.exponent = none → text.head? ≠ some '.'
  /-- No exponent follows, unless there is one already. -/
  exponent : t.exponent = none → ∀ c ∈ text.head?, c ≠ 'e' ∧ c ≠ 'E'

/-- What ends all numerals stops each of them. -/
theorem Ends.stopsBefore {t : NumberText} {text : List Char} (h : Ends text) :
    t.StopsBefore text where
  digit c hc := (h c hc).1
  point _ _ hpoint := (h _ hpoint).2.1 rfl
  exponent _ c hc := (h c hc).2.2

theorem ends_nil : Ends [] := nofun

theorem ends_cons {c : Char} (hc : c ∈ [',', ']', '\x7d']) (text : List Char) :
    Ends (c :: text) := by
  rintro d hd
  obtain rfl : c = d := by simpa using hd
  simp only [List.mem_cons, List.not_mem_nil, or_false] at hc
  rcases hc with rfl | rfl | rfl <;> decide

/-! ### Digits -/

variable {text rest digits : List Char}

/-- Digits are read up to the first character that is none. -/
theorem digits_append (hdigits : ∀ c ∈ digits, c.isDigit = true) (hrest : EndsDigits rest) :
    Reader.digits (digits ++ rest) = (digits.map digitValue, rest) := by
  have hsplit := Numeral.digits_append hdigits hrest
  rw [Numeral.digits, Prod.mk.injEq] at hsplit
  rw [Reader.digits, hsplit.1, hsplit.2]
  rfl

/-- What stands in front of a text splits into its digits and the rest. -/
theorem exists_digits (text : List Char) : ∃ digits rest, text = digits ++ rest ∧
    (∀ c ∈ digits, c.isDigit = true) ∧ EndsDigits rest ∧
    Reader.digits text = (digits.map digitValue, rest) := by
  have hall : ∀ c ∈ text.takeWhile Char.isDigit, c.isDigit = true := fun c hc =>
    List.all_eq_true.1 List.all_takeWhile c hc
  refine ⟨_, _, List.takeWhile_append_dropWhile.symm, hall, fun c hc => ?_, rfl⟩
  have hhead := List.head?_dropWhile_not Char.isDigit text
  rw [Option.mem_def.1 hc] at hhead
  simpa using hhead

theorem someDigits_append (hdigits : IsDigits digits) (hrest : EndsDigits rest) :
    Reader.someDigits (digits ++ rest) = .ok (digits.map digitValue, rest) := by
  obtain ⟨c, digits', rfl⟩ := List.exists_cons_of_ne_nil hdigits.ne_nil
  rw [Reader.someDigits, digits_append hdigits.all hrest]
  rfl

/-- Where digits are read, there are digits and then something else. -/
theorem exists_of_someDigits {values : List Nat} (h : Reader.someDigits text = .ok (values, rest)) :
    ∃ digits, text = digits ++ rest ∧ IsDigits digits ∧ EndsDigits rest ∧
      values = digits.map digitValue := by
  obtain ⟨digits, rest', htext, hall, hends, hread⟩ := exists_digits text
  rw [Reader.someDigits, hread] at h
  cases digits with
  | nil => cases rest' <;> cases h
  | cons c digits =>
    cases h
    exact ⟨c :: digits, htext, ⟨hall, List.cons_ne_nil _ _⟩, hends, rfl⟩

theorem passing_someDigits_append (hdigits : IsDigits digits) (hrest : EndsDigits rest) :
    Passing.someDigits (digits ++ rest) = .ok rest := by
  obtain ⟨c, digits', rfl⟩ := List.exists_cons_of_ne_nil hdigits.ne_nil
  rw [Passing.someDigits, digits_append hdigits.all hrest]
  rfl

/-- Passing over digits, there are digits and then something else. -/
theorem exists_of_passing_someDigits (h : Passing.someDigits text = .ok rest) :
    ∃ digits, text = digits ++ rest ∧ IsDigits digits ∧ EndsDigits rest := by
  obtain ⟨digits, rest', htext, hall, hends, hread⟩ := exists_digits text
  rw [Passing.someDigits, hread] at h
  cases digits with
  | nil => cases h
  | cons c digits =>
    cases h
    exact ⟨c :: digits, htext, ⟨hall, List.cons_ne_nil _ _⟩, hends⟩

/-! ### Fractions -/

/-- A fraction is read up to its last digit. -/
theorem fractionPart_append {fraction : Option (List Char)}
    (hfraction : ∀ digits ∈ fraction, IsDigits digits) (hrest : EndsDigits rest)
    (hpoint : fraction = none → rest.head? ≠ some '.') :
    Reader.fractionPart (fractionChars fraction ++ rest) =
      .ok (fraction.map (List.map digitValue), rest) := by
  cases fraction with
  | none =>
    rw [fractionChars, List.nil_append]
    unfold Reader.fractionPart
    split
    · exact absurd rfl (hpoint rfl)
    · rfl
  | some digits =>
    rw [fractionChars, List.cons_append, Reader.fractionPart,
      someDigits_append (hfraction digits rfl) hrest]
    rfl

/-- What is read as a fraction is one, or there is none. -/
theorem exists_of_fractionPart {values : Option (List Nat)}
    (h : Reader.fractionPart text = .ok (values, rest)) :
    ∃ fraction, text = fractionChars fraction ++ rest ∧ (∀ digits ∈ fraction, IsDigits digits) ∧
      values = fraction.map (List.map digitValue) ∧ (EndsDigits text → EndsDigits rest) ∧
      (fraction = none → rest.head? ≠ some '.') := by
  unfold Reader.fractionPart at h
  split at h
  · obtain ⟨⟨found, rest'⟩, hdigits, h⟩ := exists_of_bind_eq_ok h
    cases h
    obtain ⟨digits, rfl, hvalid, hends, rfl⟩ := exists_of_someDigits hdigits
    refine ⟨some digits, rfl, ?_, rfl, fun _ => hends, nofun⟩
    rintro _ ⟨⟩
    exact hvalid
  · next hpoint =>
    cases h
    refine ⟨none, rfl, nofun, rfl, id, fun _ hhead => ?_⟩
    obtain ⟨rest', hrest⟩ := List.head?_eq_some_iff.1 hhead
    exact hpoint rest' hrest

/-! ### Exponents -/

/-- An exponent is read up to its last digit. -/
theorem exponentPart_append {exponent : Option ExponentText} (hexponent : ∀ e ∈ exponent, e.IsValid)
    (hrest : EndsDigits rest) (hletter : exponent = none → ∀ c ∈ rest.head?, c ≠ 'e' ∧ c ≠ 'E') :
    Reader.exponentPart (exponentChars exponent ++ rest) =
      .ok (exponent.map ExponentText.value, rest) := by
  cases exponent with
  | none =>
    rw [exponentChars, List.nil_append]
    unfold Reader.exponentPart
    dsimp only
    split
    all_goals first
      | exact absurd rfl (hletter rfl _ rfl).1
      | exact absurd rfl (hletter rfl _ rfl).2
      | rfl
  | some e =>
    obtain ⟨letter, sign, digits⟩ := e
    obtain ⟨hletter, hsign, hdigits⟩ := hexponent _ rfl
    have hread := someDigits_append hdigits hrest
    -- the first digit is not taken for a sign
    obtain ⟨c, digits, rfl⟩ := List.exists_cons_of_ne_nil hdigits.ne_nil
    have hc := hdigits.all c List.mem_cons_self
    have hplus : c ≠ '+' := by rintro rfl; cases hc
    have hminus : c ≠ '-' := by rintro rfl; cases hc
    dsimp only at hletter hsign hread
    rw [List.cons_append] at hread
    rcases hletter with rfl | rfl <;> rcases hsign with rfl | rfl | rfl <;>
      simp [exponentChars, ExponentText.chars, ExponentText.value, Reader.exponentPart, hread,
        hplus, hminus, bind, Except.bind, pure, Except.pure]

/-- Digits behind a letter and perhaps a sign are an exponent. -/
theorem exists_exponent {value : Option Int} {letter : Char} {sign : Option Char} {factor : Int}
    (hletter : letter = 'e' ∨ letter = 'E')
    (hsign : sign = none ∨ sign = some '+' ∨ sign = some '-')
    (hfactor : (if sign = some '-' then -1 else 1) = factor) (h : (do
      let (found, rest) ← Reader.someDigits text
      return (some (factor * found.foldl (fun n digit => n * 10 + digit) (0 : Nat)), rest)) =
        (.ok (value, rest) : Except Fault (Option Int × List Char))) :
    ∃ exponent, letter :: (sign.toList ++ text) = exponentChars exponent ++ rest ∧
      (∀ e ∈ exponent, e.IsValid) ∧
      value = exponent.map ExponentText.value ∧
      (EndsDigits (letter :: (sign.toList ++ text)) → EndsDigits rest) ∧
      (exponent = none → ∀ c ∈ rest.head?, c ≠ 'e' ∧ c ≠ 'E') := by
  obtain ⟨⟨found, rest'⟩, hfound, h⟩ := exists_of_bind_eq_ok h
  cases h
  obtain ⟨digits, rfl, hdigits, hends, rfl⟩ := exists_of_someDigits hfound
  refine ⟨some ⟨letter, sign, digits⟩, by
    simp [exponentChars, ExponentText.chars], ?_, ?_, fun _ => hends, nofun⟩
  · rintro _ ⟨⟩
    exact ⟨hletter, hsign, hdigits⟩
  · rw [Option.map_some, ExponentText.value, hfactor]

/-- What is read as an exponent is one, or there is none. -/
theorem exists_of_exponentPart {value : Option Int}
    (h : Reader.exponentPart text = .ok (value, rest)) :
    ∃ exponent, text = exponentChars exponent ++ rest ∧ (∀ e ∈ exponent, e.IsValid) ∧
      value = exponent.map ExponentText.value ∧ (EndsDigits text → EndsDigits rest) ∧
      (exponent = none → ∀ c ∈ rest.head?, c ≠ 'e' ∧ c ≠ 'E') := by
  unfold Reader.exponentPart at h
  dsimp only at h
  split at h
  · exact exists_exponent (.inl rfl) (.inr (.inl rfl)) rfl h
  · exact exists_exponent (.inr rfl) (.inr (.inl rfl)) rfl h
  · exact exists_exponent (.inl rfl) (.inr (.inr rfl)) rfl h
  · exact exists_exponent (.inr rfl) (.inr (.inr rfl)) rfl h
  · exact exists_exponent (.inl rfl) (.inl rfl) rfl h
  · exact exists_exponent (.inr rfl) (.inl rfl) rfl h
  · next hsmall hcapital =>
    cases h
    refine ⟨none, rfl, nofun, rfl, id, fun _ c hc => ?_⟩
    obtain ⟨rest, rfl⟩ := List.head?_eq_some_iff.1 hc
    constructor
    · rintro rfl
      exact hsmall _ rfl
    · rintro rfl
      exact hcapital _ rfl

/-- An exponent is passed up to its last digit. -/
theorem passing_exponentPart_append {exponent : Option ExponentText}
    (hexponent : ∀ e ∈ exponent, e.IsValid) (hrest : EndsDigits rest)
    (hletter : exponent = none → ∀ c ∈ rest.head?, c ≠ 'e' ∧ c ≠ 'E') :
    Passing.exponentPart (exponentChars exponent ++ rest) = .ok rest := by
  cases exponent with
  | none =>
    rw [exponentChars, List.nil_append]
    unfold Passing.exponentPart
    split
    all_goals first
      | exact absurd rfl (hletter rfl _ rfl).1
      | exact absurd rfl (hletter rfl _ rfl).2
      | rfl
  | some e =>
    obtain ⟨letter, sign, digits⟩ := e
    obtain ⟨hletter, hsign, hdigits⟩ := hexponent _ rfl
    have hpass := passing_someDigits_append hdigits hrest
    obtain ⟨c, digits, rfl⟩ := List.exists_cons_of_ne_nil hdigits.ne_nil
    have hc := hdigits.all c List.mem_cons_self
    have hplus : c ≠ '+' := by rintro rfl; cases hc
    have hminus : c ≠ '-' := by rintro rfl; cases hc
    dsimp only at hletter hsign hpass
    rw [List.cons_append] at hpass
    rcases hletter with rfl | rfl <;> rcases hsign with rfl | rfl | rfl <;>
      simp [exponentChars, ExponentText.chars, Passing.exponentPart, hpass, hplus, hminus]

theorem exists_passing_exponent {letter : Char} {sign : Option Char}
    (hletter : letter = 'e' ∨ letter = 'E') (hsign : sign = none ∨ sign = some '+' ∨
      sign = some '-') (h : Passing.someDigits text = .ok rest) :
    ∃ exponent, letter :: (sign.toList ++ text) = exponentChars exponent ++ rest ∧
      ∀ e ∈ exponent, e.IsValid := by
  obtain ⟨digits, rfl, hdigits, -⟩ := exists_of_passing_someDigits h
  refine ⟨some ⟨letter, sign, digits⟩, by simp [exponentChars, ExponentText.chars], ?_⟩
  rintro _ ⟨⟩
  exact ⟨hletter, hsign, hdigits⟩

/-- What is passed as an exponent is one, or there is none. -/
theorem exists_of_passing_exponentPart (h : Passing.exponentPart text = .ok rest) :
    ∃ exponent, text = exponentChars exponent ++ rest ∧ ∀ e ∈ exponent, e.IsValid := by
  unfold Passing.exponentPart at h
  split at h
  · exact exists_passing_exponent (.inl rfl) (.inr (.inl rfl)) h
  · exact exists_passing_exponent (.inr rfl) (.inr (.inl rfl)) h
  · exact exists_passing_exponent (.inl rfl) (.inr (.inr rfl)) h
  · exact exists_passing_exponent (.inr rfl) (.inr (.inr rfl)) h
  · exact exists_passing_exponent (.inl rfl) (.inl rfl) h
  · exact exists_passing_exponent (.inr rfl) (.inl rfl) h
  · cases h
    exact ⟨none, rfl, nofun⟩

/-! ### Numbers -/

variable {t : NumberText}

/-- Behind a fraction an exponent may stand, but no digit and no point. -/
theorem endsDigits_exponentChars {exponent : Option ExponentText}
    (hexponent : ∀ e ∈ exponent, e.IsValid) (hrest : EndsDigits rest) :
    EndsDigits (exponentChars exponent ++ rest) := by
  cases exponent with
  | none => exact hrest
  | some e =>
    rcases (hexponent e rfl).letter with h | h <;>
      simp [exponentChars, ExponentText.chars, EndsDigits, h]

/-- An exponent does not begin with a point. -/
theorem head?_exponentChars {exponent : Option ExponentText} (hexponent : ∀ e ∈ exponent, e.IsValid)
    (hrest : exponent = none → rest.head? ≠ some '.') :
    (exponentChars exponent ++ rest).head? ≠ some '.' := by
  cases exponent with
  | none => exact hrest rfl
  | some e =>
    rcases (hexponent e rfl).letter with h | h <;>
      simp [exponentChars, ExponentText.chars, h]

theorem ends_fractionChars (fraction : Option (List Char)) {tail : List Char}
    (htail : EndsDigits tail) :
    EndsDigits (fractionChars fraction ++ tail) := by
  cases fraction with
  | none => exact htail
  | some digits => simp [fractionChars, EndsDigits]

theorem eq_zero_of_digitValue {c : Char} (hc : c.isDigit = true) (h : digitValue c = 0) :
    c = '0' := by
  have hrange : 48 ≤ c.toNat ∧ c.toNat ≤ 57 := by
    simpa [Char.isDigit, UInt32.le_iff_toNat_le] using hc
  have hvalue : c.toNat - 48 = 0 := h
  exact Char.toNat_inj.1 (show c.toNat = 48 by omega)

/-- Several digits with a zero in front. -/
def LeadsWithZero (digits : List Char) : Prop :=
  (digits.map digitValue).length > 1 ∧ (digits.map digitValue).head? = some 0

instance (digits : List Char) : Decidable (LeadsWithZero digits) :=
  inferInstanceAs (Decidable (_ ∧ _))

/-- A zero with more digits behind it can be seen from the values. -/
theorem leadsWithZero_iff :
    LeadsWithZero digits ↔ ∃ second others, digits.map digitValue = 0 :: second :: others := by
  unfold LeadsWithZero
  rcases digits.map digitValue with _ | ⟨first, _ | ⟨second, others⟩⟩ <;> simp

theorem isDigits_of_isWhole (h : Numeral.IsWhole digits) : IsDigits digits := ⟨h.digits, h.ne_nil⟩

/-- Digits can stand in front of the point unless a zero leads them. -/
theorem isWhole_iff (hdigits : IsDigits digits) :
    Numeral.IsWhole digits ↔ ¬LeadsWithZero digits := by
  obtain ⟨c, digits, rfl⟩ := List.exists_cons_of_ne_nil hdigits.ne_nil
  have hc := hdigits.all c List.mem_cons_self
  have hparts : Numeral.IsWhole (c :: digits) ↔
      ((c :: digits).head? = some '0' → c :: digits = ['0']) :=
    ⟨fun h => h.head, fun h => ⟨hdigits.all, hdigits.ne_nil, h⟩⟩
  rw [hparts]
  constructor
  · rintro h ⟨hlength, hzero⟩
    obtain rfl := eq_zero_of_digitValue hc (by simpa using hzero)
    rw [h rfl] at hlength
    simp at hlength
  · intro h hzero
    obtain rfl : c = '0' := by simpa using hzero
    have hlength : ¬(digits.length + 1 > 1) := fun hlong => h ⟨by simpa using hlong, rfl⟩
    have hnil : digits = [] := List.eq_nil_of_length_eq_zero (by omega)
    rw [hnil]

/-- **A number is read as it was written**, unless it is beyond the finite doubles. -/
theorem number_chars (ht : t.IsValid) (negative : Bool) (hrest : t.StopsBefore rest) :
    Reader.number negative (t.chars ++ rest) =
      match (t.literal negative).number with
      | some n => .ok (n, rest)
      | none => .error .numberRange := by
  have hends := endsDigits_exponentChars ht.exponent hrest.digit
  have hdigits := isDigits_of_isWhole ht.whole
  have hwhole := someDigits_append hdigits (ends_fractionChars t.fraction hends)
  have hfraction := fractionPart_append ht.fraction hends fun hnone =>
    head?_exponentChars ht.exponent (hrest.point hnone)
  have hexponent := exponentPart_append ht.exponent hrest.digit hrest.exponent
  have hzero := (isWhole_iff hdigits).1 ht.whole
  rw [chars, List.append_assoc, List.append_assoc, Reader.number, hwhole]
  change (if LeadsWithZero t.whole then _ else _) = _
  rw [if_neg hzero, hfraction]
  change (Reader.exponentPart _ >>= _) = _
  rw [hexponent]
  rfl

/-- **What is read as a number is one**, and as long a one as can be; and it is the number that was
written. -/
theorem exists_of_number {negative : Bool} {n : Number}
    (h : Reader.number negative text = .ok (n, rest)) :
    ∃ t : NumberText, text = t.chars ++ rest ∧ t.IsValid ∧ t.StopsBefore rest ∧
      (t.literal negative).number = some n := by
  obtain ⟨⟨values, text'⟩, hwhole, h⟩ := exists_of_bind_eq_ok h
  obtain ⟨whole, rfl, hdigits, hends, rfl⟩ := exists_of_someDigits hwhole
  change (if LeadsWithZero whole then _ else _) = _ at h
  split at h
  · cases h
  · next hzero =>
    obtain ⟨⟨values, text⟩, hpart, h⟩ := exists_of_bind_eq_ok h
    obtain ⟨fraction, rfl, hfraction, rfl, hbehind, hpoint⟩ := exists_of_fractionPart hpart
    obtain ⟨⟨value, rest'⟩, hpart, h⟩ := exists_of_bind_eq_ok h
    obtain ⟨exponent, rfl, hexponent, rfl, hlast, hletter⟩ := exists_of_exponentPart hpart
    dsimp only at h
    split at h
    · next n' hn =>
      cases h
      refine ⟨⟨whole, fraction, exponent⟩, by simp [chars],
        ⟨(isWhole_iff hdigits).2 hzero, hfraction, hexponent⟩,
        ⟨hlast (hbehind hends), ?_, hletter⟩, hn⟩
      rintro hnone rfl
      exact hpoint hnone
    · cases h

/-- **A number is passed over**, whatever it is. -/
theorem passing_number_chars (ht : t.IsValid) (hrest : t.StopsBefore rest) :
    Passing.number (t.chars ++ rest) = .ok rest := by
  obtain ⟨whole, fraction, exponent⟩ := t
  have hends := endsDigits_exponentChars ht.exponent hrest.digit
  have hread := digits_append ht.whole.digits (ends_fractionChars fraction hends)
  have hexponent := passing_exponentPart_append ht.exponent hrest.digit hrest.exponent
  have hzero := (isWhole_iff (isDigits_of_isWhole ht.whole)).1 ht.whole
  dsimp only at hends hread hexponent hzero
  rw [chars, List.append_assoc, List.append_assoc, Passing.number, hread]
  split
  · next hvalues => exact absurd (List.map_eq_nil_iff.1 (Prod.mk.inj hvalues).1) ht.whole.ne_nil
  · next hvalues => exact absurd (leadsWithZero_iff.2 ⟨_, _, (Prod.mk.inj hvalues).1⟩) hzero
  · next text hne hlead htext =>
    have htext := (Prod.mk.inj htext).2
    cases fraction with
    | none => exact absurd (congrArg List.head? htext) (head?_exponentChars ht.exponent
      (hrest.point rfl))
    | some digits =>
      obtain rfl : text = digits ++ (exponentChars exponent ++ rest) := (List.cons.inj htext).2.symm
      rw [passing_someDigits_append (ht.fraction digits rfl) hends]
      exact hexponent
  · next text hne hlead hnot htext =>
    have htext := (Prod.mk.inj htext).2
    cases fraction with
    | none =>
      obtain rfl := htext
      exact hexponent
    | some digits => exact (hnot _ htext.symm).elim

/-- **What is passed over as a number is one.** -/
theorem exists_of_passing_number (h : Passing.number text = .ok rest) :
    ∃ t : NumberText, text = t.chars ++ rest ∧ t.IsValid := by
  obtain ⟨whole, text', rfl, hall, hends, hread⟩ := exists_digits text
  rw [Passing.number, hread] at h
  have hwhole : ∀ values, whole.map digitValue = values → (values = [] → False) →
      (∀ second others, values = 0 :: second :: others → False) →
      Numeral.IsWhole whole := by
    rintro values rfl hne hlead
    refine (isWhole_iff ⟨hall, fun hnil => hne (by rw [hnil, List.map_nil])⟩).2 fun hzero => ?_
    obtain ⟨second, others, hvalues⟩ := leadsWithZero_iff.1 hzero
    exact hlead second others hvalues
  split at h
  · cases h
  · cases h
  · next hne hlead heq =>
    obtain ⟨hvalues, rfl⟩ := Prod.mk.inj heq
    have hwhole := hwhole _ hvalues hne hlead
    obtain ⟨text, hpart, hbehind⟩ := exists_of_bind_eq_ok h
    obtain ⟨fraction, rfl, hfraction, -⟩ := exists_of_passing_someDigits hpart
    obtain ⟨exponent, rfl, hexponent⟩ := exists_of_passing_exponentPart hbehind
    refine ⟨⟨whole, some fraction, exponent⟩, by simp [chars, fractionChars], hwhole, ?_, hexponent⟩
    rintro _ ⟨⟩
    exact hfraction
  · next hne hlead hnot heq =>
    obtain ⟨hvalues, rfl⟩ := Prod.mk.inj heq
    have hwhole := hwhole _ hvalues hne hlead
    obtain ⟨exponent, rfl, hexponent⟩ := exists_of_passing_exponentPart h
    exact ⟨⟨whole, none, exponent⟩, by simp [chars, fractionChars], hwhole, nofun, hexponent⟩

end NumberText

end BuilderApi
