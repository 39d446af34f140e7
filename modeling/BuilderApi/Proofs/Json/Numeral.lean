import BuilderApi.Json.Basic
import BuilderApi.Proofs.Json.Nearest

/-!
# Numerals

A numeral is a run of digits, perhaps with a fraction and an exponent. A numeral without either
spells an integer, and every other one spells the double that is nearest to its exact value. Read
like this, the text of a number spells that number (`BuilderApi.Numeral.read_int`,
`BuilderApi.Numeral.read_double`): the three ways in which digits are laid out only move the point,
and zeros that are added or dropped do not change the value (`BuilderApi.Numeral.isLayout_layout`).

A sign is not part of a numeral.
-/

namespace BuilderApi

namespace Numeral

/-! ### Reading -/

/-- The digits in front of a text, and the rest of it. -/
def digits (text : List Char) : List Char × List Char :=
  (text.takeWhile Char.isDigit, text.dropWhile Char.isDigit)

/-- The digits of a fraction; none at all if the text does not go on with a point. -/
def fraction : List Char → Option (List Char × List Char)
  | '.' :: text => if (digits text).1 = [] then none else some (digits text)
  | text => some ([], text)

/-- The exponent, if the text goes on with one. -/
def exponent : List Char → Option (Option Int × List Char)
  | 'e' :: '+' :: text =>
    if (digits text).1 = [] then none
    else some (some (Nat.ofDigitChars 10 (digits text).1 0), (digits text).2)
  | 'e' :: '-' :: text =>
    if (digits text).1 = [] then none
    else some (some (-(Nat.ofDigitChars 10 (digits text).1 0 : Int)), (digits text).2)
  | 'e' :: _ => none
  | text => some (none, text)

/-- The number that digits, a fraction and an exponent spell. -/
def number (whole fraction : List Char) (exponent : Option Int) : Option Number :=
  if fraction = [] ∧ exponent = none then some (.int (Nat.ofDigitChars 10 whole 0))
  else
    (Double.nearest ⟨Nat.ofDigitChars 10 (whole ++ fraction) 0,
      exponent.getD 0 - fraction.length⟩).map
      Number.double

/-- Reads a numeral from the front of a text. A zero in front of further digits is no numeral. -/
def read (text : List Char) : Option (Number × List Char) := do
  let (whole, text) := digits text
  if whole = [] ∨ (whole.head? = some '0' ∧ whole ≠ ['0']) then none
  else
    let (fraction, text) ← fraction text
    let (exponent, text) ← exponent text
    let number ← number whole fraction exponent
    return (number, text)

/-! ### Numerals that are put together -/

/-- A text that does not continue a numeral. -/
def Ends (text : List Char) : Prop := ∀ c ∈ text.head?, c.isDigit = false ∧ c ≠ '.' ∧ c ≠ 'e'

/-- The text of a fraction, if it has digits. -/
def fractionText (fraction : List Char) : List Char := if fraction = [] then [] else '.' :: fraction

/-- The text of an exponent, if there is one. -/
def exponentText : Option Int → List Char
  | none => []
  | some e => 'e' :: (if e < 0 then '-' else '+') :: Nat.toDigits 10 e.natAbs

/-- The text of a numeral. -/
def spell (whole fraction : List Char) (exponent : Option Int) : List Char :=
  whole ++ fractionText fraction ++ exponentText exponent

/-- Digits that can stand in front of the point. -/
structure IsWhole (whole : List Char) : Prop where
  digits : ∀ c ∈ whole, c.isDigit = true
  ne_nil : whole ≠ []
  head : whole.head? = some '0' → whole = ['0']

/-- Digits are read up to the first character that is none. -/
theorem digits_append {text rest : List Char} (htext : ∀ c ∈ text, c.isDigit = true)
    (hrest : ∀ c ∈ rest.head?, c.isDigit = false) : digits (text ++ rest) = (text, rest) := by
  have hnone : rest.takeWhile Char.isDigit = [] ∧ rest.dropWhile Char.isDigit = rest := by
    cases rest with
    | nil => simp
    | cons c rest =>
      have hc := hrest c (by simp)
      simp [hc]
  rw [digits, List.takeWhile_append_of_pos htext, List.dropWhile_append_of_pos htext,
    hnone.1, hnone.2, List.append_nil]

theorem toDigits_isDigit (n : Nat) : ∀ c ∈ Nat.toDigits 10 n, c.isDigit = true := fun _ hc =>
  Nat.isDigit_of_mem_toDigits (by decide) (by decide) hc

/-- A printed exponent is read back. -/
theorem exponent_exponentText (e : Option Int) {rest : List Char} (hrest : Ends rest) :
    exponent (exponentText e ++ rest) = some (e, rest) := by
  cases e with
  | none =>
    cases rest with
    | nil => rfl
    | cons c rest =>
      have hc := (hrest c (by simp)).2.2
      rw [exponentText, List.nil_append]
      unfold exponent
      split <;> simp_all
  | some e =>
    have hdigits := digits_append (toDigits_isDigit e.natAbs) fun c hc => (hrest c hc).1
    by_cases he : e < 0
    · simp [exponent, exponentText, he, hdigits, Nat.toDigits_ne_nil, Nat.ofDigitChars_ten_toDigits,
        abs_of_neg he]
    · simp [exponent, exponentText, he, hdigits, Nat.toDigits_ne_nil, Nat.ofDigitChars_ten_toDigits,
        abs_of_nonneg (not_lt.1 he)]

theorem head?_exponentText (e : Option Int) {rest : List Char} (hrest : Ends rest) :
    ∀ c ∈ (exponentText e ++ rest).head?, c.isDigit = false ∧ c ≠ '.' := by
  cases e with
  | none => exact fun c hc => ⟨(hrest c hc).1, (hrest c hc).2.1⟩
  | some e => simp [exponentText]

/-- A printed fraction is read back. -/
theorem fraction_fractionText {frac tail : List Char} (hfrac : ∀ c ∈ frac, c.isDigit = true)
    (htail : ∀ c ∈ tail.head?, c.isDigit = false ∧ c ≠ '.') :
    fraction (fractionText frac ++ tail) = some (frac, tail) := by
  by_cases hnil : frac = []
  · rw [fractionText, if_pos hnil, List.nil_append, hnil]
    cases tail with
    | nil => rfl
    | cons c tail =>
      have hc := (htail c (by simp)).2
      unfold fraction
      split <;> simp_all
  · have hdigits := digits_append hfrac fun c hc => (htail c hc).1
    rw [fractionText, if_neg hnil, List.cons_append, fraction, hdigits, if_neg hnil]

theorem head?_fractionText (frac : List Char) {tail : List Char}
    (htail : ∀ c ∈ tail.head?, c.isDigit = false) :
    ∀ c ∈ (fractionText frac ++ tail).head?, c.isDigit = false := by
  unfold fractionText
  split
  · exact htail
  · simp

/-- **A numeral is read as it was put together.** -/
theorem read_spell {whole frac : List Char} {e : Option Int} {rest : List Char}
    (hwhole : IsWhole whole) (hfrac : ∀ c ∈ frac, c.isDigit = true) (hrest : Ends rest) :
    read (spell whole frac e ++ rest) = (number whole frac e).map fun n => (n, rest) := by
  have hexponent := exponent_exponentText e hrest
  have hhead := head?_exponentText e hrest
  have hfraction := fraction_fractionText hfrac hhead
  have hdigits := digits_append hwhole.digits (head?_fractionText frac fun c hc => (hhead c hc).1)
  -- the digits in front are not refused
  have hnot : ¬(whole = [] ∨ (whole.head? = some '0' ∧ whole ≠ ['0'])) := by
    rintro (hnil | ⟨hzero, hne⟩)
    · exact hwhole.ne_nil hnil
    · exact hne (hwhole.head hzero)
  rw [spell, List.append_assoc, List.append_assoc, read, hdigits]
  simp only [hnot, if_false, hfraction, hexponent, Option.bind_eq_bind, Option.bind_some,
    Option.pure_def]
  cases number whole frac e <;> rfl

/-- Printed numbers have no zeros in front. -/
theorem isWhole_toDigits (n : Nat) : IsWhole (Nat.toDigits 10 n) := by
  refine ⟨toDigits_isDigit n, Nat.toDigits_ne_nil, ?_⟩
  induction n using Nat.strongRecOn with
  | _ n ih =>
  rcases Nat.lt_or_ge n 10 with hlt | hge
  · rw [Nat.toDigits_of_lt_base hlt]
    simp
  · rw [Nat.toDigits_of_base_le (by decide) hge]
    intro hzero
    -- the leading digit is that of a smaller number, which is not zero
    have hhead : (Nat.toDigits 10 (n / 10)).head? = some '0' := by
      rwa [List.head?_append_of_ne_nil _ Nat.toDigits_ne_nil] at hzero
    have hvalue := congrArg (fun text => Nat.ofDigitChars 10 text 0) (ih (n / 10) (by omega) hhead)
    simp only [Nat.ofDigitChars_ten_toDigits] at hvalue
    have hdiv : n / 10 = 0 := hvalue
    omega

/-- **The text of an integer from zero upwards spells it.** -/
theorem read_int (n : Nat) {rest : List Char} (hrest : Ends rest) :
    read (Nat.toDigits 10 n ++ rest) = some (.int n, rest) := by
  have hnone : ∀ c ∈ ([] : List Char), c.isDigit = true := by simp
  have hread := read_spell (e := none) (isWhole_toDigits n) hnone hrest
  simpa [spell, fractionText, exponentText, number, Nat.ofDigitChars_ten_toDigits] using hread

/-! ### The text of a double -/

/-- The value that a numeral with a point or an exponent spells. -/
def value (whole fraction : List Char) (exponent : Option Int) : ℚ :=
  Decimal.value ⟨Nat.ofDigitChars 10 (whole ++ fraction) 0, exponent.getD 0 - fraction.length⟩

/-- The value of digits when the first of them counts this power of ten. -/
def leadValue (digits : List Char) (lead : Int) : ℚ :=
  Decimal.value ⟨Nat.ofDigitChars 10 digits 0, lead - (digits.length - 1)⟩

/-- Zeros in front make no difference. -/
theorem ofDigitChars_zeros_append (n : Nat) (digits : List Char) :
    Nat.ofDigitChars 10 (Double.zeros n ++ digits) 0 = Nat.ofDigitChars 10 digits 0 := by
  rw [Double.zeros, Nat.ofDigitChars_append, Nat.ofDigitChars_replicate_zero, Nat.mul_zero]

/-- Each zero behind is a factor of ten. -/
theorem ofDigitChars_append_zeros (digits : List Char) (n : Nat) :
    Nat.ofDigitChars 10 (digits ++ Double.zeros n) 0 = Nat.ofDigitChars 10 digits 0 * 10 ^ n := by
  rw [Double.zeros, Nat.ofDigitChars_append, Nat.ofDigitChars_replicate_zero, Nat.mul_comm]

theorem isDigit_zeros (n : Nat) : ∀ c ∈ Double.zeros n, c.isDigit = true := by
  intro c hc
  rw [List.eq_of_mem_replicate hc]
  rfl

/-- A power of ten moves between digits and exponent. -/
theorem value_scale (digits : Nat) (exponent : Int) (n : Nat) :
    Decimal.value ⟨digits * 10 ^ n, exponent⟩ = Decimal.value ⟨digits, exponent + n⟩ := by
  unfold Decimal.value
  push_cast
  rw [zpow_add₀ (by norm_num), zpow_natCast]
  ring

/-- The text is a numeral with a point or an exponent, and has the value of these digits. -/
def IsLayout (text digits : List Char) (lead : Int) : Prop :=
  ∃ whole frac e, text = spell whole frac e ∧ IsWhole whole ∧ (∀ c ∈ frac, c.isDigit = true) ∧
    ¬(frac = [] ∧ e = none) ∧ value whole frac e = leadValue digits lead

section

variable {text : List Char} (htext : IsWhole text) (hzero : text ≠ ['0'])

include htext hzero

theorem IsWhole.head_ne : text.head? ≠ some '0' := fun h => hzero (htext.head h)

/-- Digits in front can stand in front of the point. -/
theorem IsWhole.take {n : Nat} (hn : 0 < n) : IsWhole (text.take n) := by
  refine ⟨fun c hc => htext.digits c (List.mem_of_mem_take hc), ?_, ?_⟩
  · rw [Ne, List.take_eq_nil_iff]
    rintro (h | h)
    · omega
    · exact htext.ne_nil h
  · intro h
    rw [List.head?_take, if_neg (by omega)] at h
    exact absurd h (htext.head_ne hzero)

omit hzero in
/-- All digits behind the point, and zeros in front of them. -/
theorem isLayout_small {lead : Int} (hneg : lead < 0) :
    IsLayout ('0' :: '.' :: Double.zeros (-lead - 1).toNat ++ text) text lead := by
  refine ⟨['0'], Double.zeros (-lead - 1).toNat ++ text, none, ?_,
    ⟨by simp, by simp, by simp⟩, ?_, ?_, ?_⟩
  · simp [spell, fractionText, exponentText, htext.ne_nil]
  · intro c hc
    rcases List.mem_append.1 hc with hc | hc
    · exact isDigit_zeros _ c hc
    · exact htext.digits c hc
  · simp [htext.ne_nil]
  · have hdigits : Nat.ofDigitChars 10 (['0'] ++ (Double.zeros (-lead - 1).toNat ++ text)) 0 =
        Nat.ofDigitChars 10 text 0 := by
      rw [← ofDigitChars_zeros_append ((-lead - 1).toNat + 1) text]
      rfl
    have hexponent : (none : Option Int).getD 0 - (Double.zeros (-lead - 1).toNat ++ text).length =
        lead - (text.length - 1) := by
      simp only [Option.getD_none, List.length_append, Double.zeros, List.length_replicate]
      omega
    rw [value, leadValue, hdigits, hexponent]

/-- All digits in front of the point, and zeros behind them. -/
theorem isLayout_large {lead : Int} (hlead : 0 ≤ lead) (hfits : text.length ≤ lead.toNat + 1) :
    IsLayout (text ++ Double.zeros (lead.toNat + 1 - text.length) ++ ['.', '0']) text lead := by
  refine ⟨text ++ Double.zeros (lead.toNat + 1 - text.length), ['0'], none, ?_,
    ⟨?_, ?_, ?_⟩, ?_, ?_, ?_⟩
  · simp [spell, fractionText, exponentText]
  · intro c hc
    rcases List.mem_append.1 hc with hc | hc
    · exact htext.digits c hc
    · exact isDigit_zeros _ c hc
  · simp [htext.ne_nil]
  · intro h
    rw [List.head?_append_of_ne_nil _ htext.ne_nil] at h
    exact absurd h (htext.head_ne hzero)
  · simp
  · simp
  · have hdigits :
        Nat.ofDigitChars 10 (text ++ Double.zeros (lead.toNat + 1 - text.length) ++ ['0']) 0 =
        Nat.ofDigitChars 10 text 0 * 10 ^ (lead.toNat + 1 - text.length + 1) := by
      rw [← ofDigitChars_append_zeros, Double.zeros, Double.zeros, List.replicate_succ',
        List.append_assoc]
    have hexponent : (none : Option Int).getD 0 - (['0'].length : Int) +
        (lead.toNat + 1 - text.length + 1 : ℕ) = lead - (text.length - 1) := by
      simp only [Option.getD_none, List.length_singleton]
      omega
    rw [value, leadValue, hdigits, value_scale, hexponent]

/-- Digits on both sides of the point. -/
theorem isLayout_middle {lead : Int} (hlead : 0 ≤ lead) (hlong : ¬text.length ≤ lead.toNat + 1) :
    IsLayout (text.take (lead.toNat + 1) ++ '.' :: text.drop (lead.toNat + 1)) text lead := by
  have hne : text.drop (lead.toNat + 1) ≠ [] := by
    rw [Ne, List.drop_eq_nil_iff]
    omega
  refine ⟨text.take (lead.toNat + 1), text.drop (lead.toNat + 1), none, ?_,
    htext.take hzero (Nat.succ_pos _), fun c hc =>
      htext.digits c (List.mem_of_mem_drop hc), fun h => hne h.1, ?_⟩
  · simp only [spell, fractionText, exponentText, if_neg hne, List.append_nil]
  · have hexponent : (none : Option Int).getD 0 - ((text.drop (lead.toNat + 1)).length : Int) =
        lead - (text.length - 1) := by
      simp only [Option.getD_none, List.length_drop]
      omega
    rw [value, leadValue, List.take_append_drop, hexponent]

/-- One digit in front of the point, and an exponent. -/
theorem isLayout_scientific (lead : Int) :
    IsLayout (text.take 1 ++ (if text.length ≤ 1 then [] else '.' :: text.drop 1) ++
      'e' :: (if lead < 0 then '-' else '+') :: Nat.toDigits 10 lead.natAbs) text lead := by
  have hlength : 0 < text.length := List.length_pos_iff.2 htext.ne_nil
  refine ⟨text.take 1, text.drop 1, some lead, ?_, htext.take hzero (Nat.succ_pos 0),
    fun c hc => htext.digits c (List.mem_of_mem_drop hc), by simp, ?_⟩
  · have hiff : text.length ≤ 1 ↔ text.drop 1 = [] := List.drop_eq_nil_iff.symm
    simp only [spell, fractionText, exponentText, hiff, List.append_assoc]
  · have hexponent :
        (some lead).getD 0 - ((text.drop 1).length : Int) = lead - (text.length - 1) := by
      simp only [Option.getD_some, List.length_drop]
      omega
    rw [value, leadValue, List.take_append_drop, hexponent]

/-- **Every layout of digits is a numeral with their value.** The first digit must not be zero. -/
theorem isLayout_layout (lead : Int) : IsLayout (Double.layout text lead) text lead := by
  unfold Double.layout
  split
  · split
    · next hneg => exact isLayout_small htext hneg
    · next hneg =>
      dsimp only
      split
      · next hfits => exact isLayout_large htext hzero (not_lt.1 hneg) hfits
      · next hlong => exact isLayout_middle htext hzero (not_lt.1 hneg) hlong
  · exact isLayout_scientific htext hzero lead

end

/-- Digits without the zeros at their end. -/
theorem dropTrailingZeros_append (text : List Char) :
    ∃ n, text = Double.dropTrailingZeros text ++ Double.zeros n := by
  have hsplit := List.takeWhile_append_dropWhile (p := (· == '0')) (l := text.reverse)
  have hzeros : text.reverse.takeWhile (· == '0') =
      List.replicate (text.reverse.takeWhile (· == '0')).length '0' := by
    refine List.eq_replicate_iff.2 ⟨rfl, fun c hc => ?_⟩
    simpa using List.all_eq_true.1 List.all_takeWhile c hc
  refine ⟨(text.reverse.takeWhile (· == '0')).length, ?_⟩
  rw [Double.dropTrailingZeros, Double.zeros, ← List.reverse_replicate, ← hzeros,
    ← List.reverse_append, hsplit, List.reverse_reverse]

theorem dropTrailingZeros_ne_nil {text : List Char} (htext : IsWhole text) (hzero : text ≠ ['0']) :
    IsWhole (Double.dropTrailingZeros text) ∧ Double.dropTrailingZeros text ≠ ['0'] := by
  obtain ⟨n, hn⟩ := dropTrailingZeros_append text
  have hhead : text.head? ≠ some '0' := fun h => hzero (htext.head h)
  have hne : Double.dropTrailingZeros text ≠ [] := by
    intro hnil
    rw [hnil, List.nil_append] at hn
    cases n with
    | zero => exact htext.ne_nil hn
    | succ n => exact hhead (by rw [hn]; rfl)
  have hhead' : (Double.dropTrailingZeros text).head? = text.head? := by
    conv_rhs => rw [hn, List.head?_append_of_ne_nil _ hne]
  refine ⟨⟨?_, hne, ?_⟩, ?_⟩
  · intro c hc
    exact htext.digits c (by rw [hn]; exact List.mem_append_left _ hc)
  · intro h
    exact absurd (hhead' ▸ h) hhead
  · intro h
    rw [h] at hhead'
    exact hhead hhead'.symm

/-- The text of a double without its sign. -/
def body (x : Double) : List Char :=
  if x.isZero then ['0', '.', '0']
  else
    Double.layout (Double.dropTrailingZeros (Nat.toDigits 10 x.shortest.digits))
      (x.shortest.exponent + (Nat.toDigits 10 x.shortest.digits).length - 1)

/-- A double is printed as its sign and its body. -/
theorem chars_eq (x : Double) : x.chars = if x.isNegative then '-' :: body x else body x := rfl

theorem isZero_iff (x : Double) : x.isZero = true ↔ x.number = 0 := by
  rw [Double.isZero, Double.number, beq_iff_eq, Nat.pow_eq]

/-- The text of a finite double without its sign is a numeral for the double without its sign. -/
theorem exists_spell_body {x : Double} (hfinite : x.isFinite = true) :
    ∃ whole frac e, body x = spell whole frac e ∧ IsWhole whole ∧ (∀ c ∈ frac, c.isDigit = true) ∧
      ¬(frac = [] ∧ e = none) ∧
      Double.nearest ⟨Nat.ofDigitChars 10 (whole ++ frac) 0, e.getD 0 - frac.length⟩ =
        some (Double.ofNumber x.number) := by
  unfold body
  split
  · next hzero =>
    rw [isZero_iff] at hzero
    refine ⟨['0'], ['0'], none, rfl, ⟨by simp, by simp, by simp⟩, by simp, by simp, ?_⟩
    rw [hzero]
    exact Double.nearest_zero (by simp [Decimal.value, Nat.ofDigitChars])
  · next hzero =>
    rw [isZero_iff] at hzero
    obtain ⟨n, hn⟩ := dropTrailingZeros_append (Nat.toDigits 10 x.shortest.digits)
    have hne : Nat.toDigits 10 x.shortest.digits ≠ ['0'] := by
      intro h
      have hvalue := congrArg (fun text => Nat.ofDigitChars 10 text 0) h
      simp only [Nat.ofDigitChars_ten_toDigits] at hvalue
      exact Double.shortest_digits_ne_zero hzero hvalue
    obtain ⟨hwhole, hne'⟩ := dropTrailingZeros_ne_nil (isWhole_toDigits _) hne
    obtain ⟨whole, frac, e, hlayout, hisWhole, hfrac, hsome, hvalue⟩ := isLayout_layout hwhole hne'
      (x.shortest.exponent + (Nat.toDigits 10 x.shortest.digits).length - 1)
    refine ⟨whole, frac, e, hlayout, hisWhole, hfrac, hsome,
      Double.nearest_of_value_eq hfinite hzero ?_⟩
    -- the zeros that were dropped went into the exponent
    have hdigits : x.shortest.digits =
        Nat.ofDigitChars 10 (Double.dropTrailingZeros (Nat.toDigits 10 x.shortest.digits)) 0 *
          10 ^ n := by
      rw [← ofDigitChars_append_zeros, ← hn, Nat.ofDigitChars_ten_toDigits]
    have hlength := congrArg List.length hn
    rw [List.length_append, Double.zeros, List.length_replicate] at hlength
    rw [← value, hvalue, leadValue]
    conv_rhs => rw [show x.shortest = ⟨x.shortest.digits, x.shortest.exponent⟩ from rfl, hdigits,
      value_scale]
    congr 2
    omega

/-- **The text of a finite double without its sign spells the double without its sign.** -/
theorem read_double {x : Double} (hfinite : x.isFinite = true) {rest : List Char}
    (hrest : Ends rest) :
    read (body x ++ rest) = some (.double (Double.ofNumber x.number), rest) := by
  obtain ⟨whole, frac, e, hbody, hwhole, hfrac, hsome, hnearest⟩ := exists_spell_body hfinite
  rw [hbody, read_spell hwhole hfrac hrest, number, if_neg hsome, hnearest]
  rfl

/-! ### The characters of numerals -/

theorem toNat_lt_of_isDigit {c : Char} (h : c.isDigit = true) : c.toNat < 128 := by
  have hrange : 48 ≤ c.toNat ∧ c.toNat ≤ 57 := by
    simpa [Char.isDigit, UInt32.le_iff_toNat_le] using h
  omega

/-- A printed numeral begins with a digit. -/
theorem head?_spell {whole frac : List Char} {e : Option Int} (hwhole : IsWhole whole) :
    ∃ c ∈ (spell whole frac e).head?, c.isDigit = true := by
  obtain ⟨c, rest, rfl⟩ := List.exists_cons_of_ne_nil hwhole.ne_nil
  exact ⟨c, by simp [spell], hwhole.digits c (by simp)⟩

theorem toNat_lt_of_mem_spell {whole frac : List Char} {e : Option Int} (hwhole : IsWhole whole)
    (hfrac : ∀ c ∈ frac, c.isDigit = true) : ∀ c ∈ spell whole frac e, c.toNat < 128 := by
  intro c hc
  rw [spell, List.mem_append, List.mem_append] at hc
  rcases hc with (hc | hc) | hc
  · exact toNat_lt_of_isDigit (hwhole.digits c hc)
  · unfold fractionText at hc
    split at hc
    · cases hc
    · rcases List.mem_cons.1 hc with rfl | hc
      · decide
      · exact toNat_lt_of_isDigit (hfrac c hc)
  · cases e with
    | none => cases hc
    | some e =>
      rw [exponentText, List.mem_cons, List.mem_cons] at hc
      rcases hc with rfl | rfl | hc
      · decide
      · split <;> decide
      · exact toNat_lt_of_isDigit (toDigits_isDigit _ c hc)

end Numeral

end BuilderApi
