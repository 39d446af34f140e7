import BuilderApi.Json.Double
import Mathlib.Algebra.Order.Field.Power
import Mathlib.Data.Rat.Cast.Order
import Mathlib.Tactic.Positivity
import Mathlib.Tactic.Ring
import Mathlib.Tactic.Linarith

/-!
# The nearest double, and why the shortest digits find it again

The doubles from zero upwards are numbered by their bits, and the intervals of numbers that round to
them lie side by side: the upper end of one is the lower end of the next
(`BuilderApi.Double.edge_succ`). An end belongs to the even one of the two doubles that meet there,
so every decimal lies in exactly one interval.

Hence the nearest double of a decimal is the last one whose interval the decimal reaches. It is
found by setting bits from the highest down (`BuilderApi.Double.nearest`), in exact arithmetic.

The shortest digits of a double were searched in its interval. The search never comes back without
digits: on the grid of twenty digits two neighbouring points are closer than the upper half of the
interval is wide. So **the shortest digits of a finite double read back as that double**
(`BuilderApi.Double.nearest_of_value_eq`), in whatever way they are laid out.
-/

namespace BuilderApi

/-- The number that a decimal stands for. -/
def Decimal.value (d : Decimal) : ℚ := d.digits * (10 : ℚ) ^ d.exponent

namespace Double

/-! ### Doubles by their number -/

/-- The double from zero upwards that has this number. -/
def ofNumber (b : Nat) : Double := ⟨b.toUInt64⟩

/-- The number of a double, without regard to its sign. -/
def number (x : Double) : Nat := x.bits.toNat % 2 ^ 63

/-- Is the double a finite number? -/
def isFinite (x : Double) : Bool := x.biased < 2047

/-- Sixty-three bits are left beside the sign. -/
theorem number_lt (x : Double) : x.number < 2 ^ 63 := Nat.mod_lt _ (by decide)

/-- The exponent is in the upper bits of the number. -/
theorem biased_eq (x : Double) : x.biased = x.number / 2 ^ 52 := by
  rw [biased, number, Nat.pow_eq, Nat.pow_eq]
  omega

/-- The fraction is in the lower bits of the number. -/
theorem fraction_eq (x : Double) : x.fraction = x.number % 2 ^ 52 := by
  rw [fraction, number, Nat.pow_eq]
  omega

/-- The number of a double without a sign can be read back. -/
theorem number_ofNumber {b : Nat} (h : b < 2 ^ 63) : (ofNumber b).number = b := by
  have hbits : (ofNumber b).bits.toNat = b := UInt64.toNat_ofNat_of_lt' (by
    rw [UInt64.size]
    omega)
  rw [number, hbits, Nat.mod_eq_of_lt h]

/-! ### The ends of the intervals -/

/-- The significand of the double with this number. -/
def significandAt (b : Nat) : Nat := if b / 2 ^ 52 = 0 then b % 2 ^ 52 else 2 ^ 52 + b % 2 ^ 52

/-- Its exponent field, where the subnormal numbers share that of the smallest normal ones. -/
def scaleAt (b : Nat) : Nat := if b / 2 ^ 52 = 0 then 1 else b / 2 ^ 52

/-- How far its interval reaches down, in quarters of a step. -/
def downAt (b : Nat) : Nat := if b % 2 ^ 52 = 0 ∧ b / 2 ^ 52 > 1 then 1 else 2

/-- The lower end of its interval, as a multiple of the smallest quarter of a step. -/
def edge (b : Nat) : Nat := (4 * significandAt b - downAt b) * 2 ^ (scaleAt b - 1)

theorem scaleAt_pos (b : Nat) : 0 < scaleAt b := by
  unfold scaleAt
  split <;> omega

/-- **The intervals lie side by side**: the upper end of one is the lower end of the next. -/
theorem edge_succ (b : Nat) : edge (b + 1) = (4 * significandAt b + 2) * 2 ^ (scaleAt b - 1) := by
  by_cases hlast : b % 2 ^ 52 + 1 = 2 ^ 52
  · have hdiv : (b + 1) / 2 ^ 52 = b / 2 ^ 52 + 1 := by omega
    have hmod : (b + 1) % 2 ^ 52 = 0 := by omega
    by_cases hsub : b / 2 ^ 52 = 0
    · -- from the last subnormal number to the first normal one the step stays the same
      have hsig : significandAt b = 2 ^ 52 - 1 := by rw [significandAt, if_pos hsub]; omega
      have hsig' : significandAt (b + 1) = 2 ^ 52 := by
        rw [significandAt, hdiv, hmod, if_neg (by omega), Nat.add_zero]
      have hscale : scaleAt b = 1 := by rw [scaleAt, if_pos hsub]
      have hscale' : scaleAt (b + 1) = 1 := by rw [scaleAt, hdiv, if_neg (by omega), hsub]
      have hdown : downAt (b + 1) = 2 := by rw [downAt, hdiv, if_neg (by omega)]
      rw [edge, hsig, hsig', hscale, hscale', hdown]
      congr 1
    · -- across a power of two the step doubles and only a quarter of it reaches down
      have hsig : significandAt b = 2 ^ 53 - 1 := by rw [significandAt, if_neg hsub]; omega
      have hsig' : significandAt (b + 1) = 2 ^ 52 := by
        rw [significandAt, hdiv, hmod, if_neg (by omega), Nat.add_zero]
      have hscale : scaleAt b = b / 2 ^ 52 := by rw [scaleAt, if_neg hsub]
      have hscale' : scaleAt (b + 1) = b / 2 ^ 52 + 1 := by rw [scaleAt, hdiv, if_neg (by omega)]
      have hdown : downAt (b + 1) = 1 := by rw [downAt, hdiv, hmod, if_pos (by omega)]
      obtain ⟨k, hk⟩ : ∃ k, b / 2 ^ 52 = k + 1 := ⟨b / 2 ^ 52 - 1, by omega⟩
      rw [edge, hsig, hsig', hscale, hscale', hdown, hk, Nat.add_sub_cancel,
        Nat.add_sub_cancel, pow_succ]
      ring_nf
  · have hdiv : (b + 1) / 2 ^ 52 = b / 2 ^ 52 := by omega
    have hmod : (b + 1) % 2 ^ 52 = b % 2 ^ 52 + 1 := by omega
    have hsig : significandAt (b + 1) = significandAt b + 1 := by
      unfold significandAt
      rw [hdiv, hmod]
      split <;> omega
    have hscale : scaleAt (b + 1) = scaleAt b := by rw [scaleAt, scaleAt, hdiv]
    have hdown : downAt (b + 1) = 2 := by rw [downAt, hmod, if_neg (by omega)]
    rw [edge, hsig, hscale, hdown]
    congr 1

/-- Larger numbers have larger edges. -/
theorem edge_lt_succ (b : Nat) : edge b < edge (b + 1) := by
  rw [edge_succ, edge]
  refine Nat.mul_lt_mul_of_pos_right ?_ (by positivity)
  omega

/-- The edges of doubles are in the order of their numbers. -/
theorem edge_strictMono : StrictMono edge := strictMono_nat_of_lt_succ edge_lt_succ

/-! ### Intervals in exact arithmetic -/

/-- Quarters of the smallest step in one. -/
def grain : ℚ := 2 ^ 1076

theorem grain_pos : 0 < grain := by
  unfold grain
  positivity

/-- A fraction of a neighbourhood, in quarters of the smallest step. -/
theorem scale_eq (b m : Nat) :
    (m * 2 ^ ((scaleAt b : ℤ) - 1077).toNat : ℚ) * grain =
      m * 2 ^ (scaleAt b - 1) * 2 ^ (-((scaleAt b : ℤ) - 1077)).toNat := by
  have hpos := scaleAt_pos b
  unfold grain
  generalize scaleAt b = e at hpos ⊢
  rcases Nat.le_total 1077 e with h | h
  · obtain ⟨j, rfl⟩ := Nat.exists_eq_add_of_le h
    have h1 : (((1077 + j : ℕ) : ℤ) - 1077).toNat = j := by omega
    have h2 : (-(((1077 + j : ℕ) : ℤ) - 1077)).toNat = 0 := by omega
    have h3 : 1077 + j - 1 = j + 1076 := by omega
    rw [h1, h2, h3, pow_add, pow_zero, mul_one, mul_assoc]
  · obtain ⟨j, hj⟩ := Nat.exists_eq_add_of_le h
    have h1 : ((e : ℤ) - 1077).toNat = 0 := by omega
    have h2 : (-((e : ℤ) - 1077)).toNat = j := by omega
    have h3 : 1076 = e - 1 + j := by omega
    rw [h1, h2, pow_zero, mul_one, h3, pow_add, mul_assoc]

/-- The neighbourhood of a double, by its number. -/
theorem neighbourhood_eq (x : Double) : x.neighbourhood =
    { low := (4 * significandAt x.number - downAt x.number) * 2 ^
      ((scaleAt x.number : ℤ) - 1077).toNat
      mid := 4 * significandAt x.number * 2 ^ ((scaleAt x.number : ℤ) - 1077).toNat
      high := (4 * significandAt x.number + 2) * 2 ^ ((scaleAt x.number : ℤ) - 1077).toNat
      den := 2 ^ (-((scaleAt x.number : ℤ) - 1077)).toNat
      closed := significandAt x.number % 2 == 0 } := by
  unfold neighbourhood significandAt scaleAt downAt
  rw [biased_eq, fraction_eq]
  split <;> simp only [Nat.cast_one, Nat.pow_eq]

/-- The lower bound of a neighbourhood is the edge in front of the double. -/
theorem low_mul_grain (x : Double) :
    (x.neighbourhood.low : ℚ) * grain = edge x.number * x.neighbourhood.den := by
  rw [neighbourhood_eq, edge]
  push_cast
  exact_mod_cast scale_eq x.number (4 * significandAt x.number - downAt x.number)

/-- The upper bound of a neighbourhood is the edge behind the double. -/
theorem high_mul_grain (x : Double) :
    (x.neighbourhood.high : ℚ) * grain = edge (x.number + 1) * x.neighbourhood.den := by
  rw [neighbourhood_eq, edge_succ]
  push_cast
  exact_mod_cast scale_eq x.number (4 * significandAt x.number + 2)

theorem den_pos (x : Double) : 0 < x.neighbourhood.den := by
  rw [neighbourhood_eq]
  positivity

/-- A neighbourhood has its bounds if the number is even. -/
theorem closed_iff (x : Double) : x.neighbourhood.closed = true ↔ x.number % 2 = 0 := by
  rw [neighbourhood_eq, significandAt, beq_iff_eq]
  split <;> omega

/-! ### Decimals against intervals -/

theorem ten_zpow_mul (e : ℤ) : (10 : ℚ) ^ e * 10 ^ (-e).toNat = 10 ^ e.toNat := by
  rcases Int.le_total 0 e with h | h
  · obtain ⟨n, rfl⟩ := Int.eq_ofNat_of_zero_le h
    simp
  · obtain ⟨n, hn⟩ := Int.eq_ofNat_of_zero_le (Int.neg_nonneg.2 h)
    obtain rfl : e = -(n : ℤ) := by omega
    simp

/-- A grid point over a common denominator, without its scale. -/
theorem point_eq (count den : Nat) (e : ℤ) :
    ((count * 10 ^ e.toNat * den : ℕ) : ℚ) =
    count * (10 : ℚ) ^ e * den * (10 ^ (-e).toNat : ℕ) := by
  push_cast
  rw [← ten_zpow_mul]
  ring

/-- The comparison with a lower bound is made in integers, but it is one of rationals. -/
theorem scaled_le_point_iff (a count den : Nat) (e : ℤ) :
    a * 10 ^ (-e).toNat ≤ count * 10 ^ e.toNat * den ↔ (a : ℚ) ≤ count * (10 : ℚ) ^ e * den := by
  rw [← Nat.cast_le (α := ℚ), point_eq, Nat.cast_mul]
  exact mul_le_mul_iff_left₀ (by positivity)

/-- The same with an upper bound. -/
theorem point_le_scaled_iff (a count den : Nat) (e : ℤ) :
    count * 10 ^ e.toNat * den ≤ a * 10 ^ (-e).toNat ↔ count * (10 : ℚ) ^ e * den ≤ a := by
  rw [← Nat.cast_le (α := ℚ), point_eq, Nat.cast_mul]
  exact mul_le_mul_iff_left₀ (by positivity)

/-- Whether a neighbourhood holds a decimal is a comparison with its two bounds. -/
theorem Neighbourhood.holds_eq (n : Neighbourhood) (count : Nat) (e : ℤ) : n.holds count e =
    if n.closed then
      decide (n.low * 10 ^ (-e).toNat ≤ count * 10 ^ e.toNat * n.den ∧
        count * 10 ^ e.toNat * n.den ≤ n.high * 10 ^ (-e).toNat)
    else
      decide (n.low * 10 ^ (-e).toNat < count * 10 ^ e.toNat * n.den ∧
        count * 10 ^ e.toNat * n.den < n.high * 10 ^ (-e).toNat) := rfl

/-- Does a decimal reach the interval from below? -/
def Neighbourhood.reached (n : Neighbourhood) (d : Decimal) : Bool :=
  let point := d.digits * 10 ^ d.exponent.toNat * n.den
  let scale := 10 ^ (-d.exponent).toNat
  if n.closed then n.low * scale ≤ point else n.low * scale < point

/-- An end of an interval as a fraction and as a multiple of the grain. -/
theorem end_iff {a e den : ℚ} (hden : 0 < den) (h : a * grain = e * den) (q : ℚ) :
    (a ≤ q * den ↔ e ≤ q * grain) ∧ (q * den ≤ a ↔ q * grain ≤ e) := by
  constructor
  · rw [← mul_le_mul_iff_left₀ grain_pos, h, mul_right_comm, mul_le_mul_iff_left₀ hden]
  · rw [← mul_le_mul_iff_left₀ grain_pos, h, mul_right_comm, mul_le_mul_iff_left₀ hden]

/-- A decimal reaches an interval when it lies above its lower end, or on it if the double is
even. -/
theorem reached_iff (x : Double) (d : Decimal) : x.neighbourhood.reached d = true ↔
    if x.number % 2 = 0 then edge x.number ≤ d.value * grain
    else edge x.number < d.value * grain := by
  have hden : (0 : ℚ) < x.neighbourhood.den := Nat.cast_pos.2 x.den_pos
  obtain ⟨hlow, hlow'⟩ := end_iff hden (low_mul_grain x) d.value
  rw [Neighbourhood.reached]
  by_cases heven : x.number % 2 = 0
  · rw [if_pos ((closed_iff x).2 heven), if_pos heven, decide_eq_true_iff, scaled_le_point_iff,
      ← Decimal.value, hlow]
  · rw [if_neg (fun h => heven ((closed_iff x).1 h)), if_neg heven, decide_eq_true_iff,
      ← not_le, ← not_le, point_le_scaled_iff, ← Decimal.value, hlow']

/-- Where a decimal lies that an interval holds: between its ends, or on one of them if the double
is even. -/
structure Within (b : Nat) (q : ℚ) : Prop where
  low : edge b ≤ q
  high : q ≤ edge (b + 1)
  strict : b % 2 = 1 → edge b < q ∧ q < edge (b + 1)

/-- A decimal in the neighbourhood of a double is between the edges on its two sides. -/
theorem within_of_holds {x : Double} {d : Decimal}
    (h : x.neighbourhood.holds d.digits d.exponent = true) :
    Within x.number (d.value * grain) := by
  have hden : (0 : ℚ) < x.neighbourhood.den := Nat.cast_pos.2 x.den_pos
  obtain ⟨hlow, hlow'⟩ := end_iff hden (low_mul_grain x) d.value
  obtain ⟨hhigh', hhigh⟩ := end_iff hden (high_mul_grain x) d.value
  rw [Neighbourhood.holds_eq] at h
  by_cases heven : x.number % 2 = 0
  · rw [if_pos ((closed_iff x).2 heven), decide_eq_true_iff, scaled_le_point_iff,
      point_le_scaled_iff, ← Decimal.value, hlow, hhigh] at h
    exact ⟨h.1, h.2, fun hodd => absurd hodd (by omega)⟩
  · rw [if_neg (fun h => heven ((closed_iff x).1 h)), decide_eq_true_iff, ← not_le, ← not_le,
      scaled_le_point_iff, point_le_scaled_iff, ← Decimal.value, hlow', hhigh', not_le, not_le] at h
    exact ⟨h.1.le, h.2.le, fun _ => h⟩

/-- **A decimal in an interval reaches the intervals up to this one**, and no others. -/
theorem reached_iff_le {x : Double} {d : Decimal} (h : Within x.number (d.value * grain)) {b : Nat}
    (hb : b < 2 ^ 63) : (ofNumber b).neighbourhood.reached d = true ↔ b ≤ x.number := by
  rw [reached_iff, number_ofNumber hb]
  have hcast : ∀ {m n : Nat}, m < n → (edge m : ℚ) < edge n :=
    fun hmn => Nat.cast_lt.2 (edge_strictMono hmn)
  rcases Nat.lt_trichotomy b x.number with hlt | heq | hgt
  · -- the interval of a smaller number ends where this one begins, or before
    have hreach := (hcast hlt).trans_le h.low
    refine iff_of_true ?_ hlt.le
    split
    · exact hreach.le
    · exact hreach
  · subst heq
    refine iff_of_true ?_ le_rfl
    split
    · exact h.low
    · exact (h.strict (by omega)).1
  · refine iff_of_false ?_ (by omega)
    rcases Nat.lt_or_eq_of_le (Nat.succ_le_of_lt hgt) with hfar | hnext
    · have hbeyond := h.high.trans_lt (hcast hfar)
      split
      · exact not_le.2 hbeyond
      · exact not_lt.2 hbeyond.le
    · -- the two doubles that meet at an end are not both even
      rw [← hnext]
      split
      · exact not_le.2 (h.strict (by omega)).2
      · exact not_lt.2 h.high

/-! ### The nearest double -/

/-- The last number that a test admits, from its highest bit down. -/
def lastAdmitted (test : Nat → Bool) (base : Nat) : Nat → Nat
  | 0 => base
  | bit + 1 =>
    if test (base + 2 ^ bit) then lastAdmitted test (base + 2 ^ bit) bit
      else lastAdmitted test base bit

/-- The search bit by bit finds the last number that a monotone test admits. -/
theorem lastAdmitted_eq {test : Nat → Bool} {last : Nat} (base bit : Nat) (hlow : base ≤ last)
    (hhigh : last < base + 2 ^ bit) (h : ∀ b < base + 2 ^ bit, test b = true ↔ b ≤ last) :
    lastAdmitted test base bit = last := by
  -- the last admitted number stays between the base and what the bits that are left can add
  induction bit generalizing base with
  | zero =>
    rw [lastAdmitted]
    omega
  | succ bit ih =>
    rw [pow_succ] at hhigh h
    have hpos : 0 < 2 ^ bit := by positivity
    rw [lastAdmitted]
    by_cases hbit : base + 2 ^ bit ≤ last
    · rw [if_pos ((h _ (by omega)).2 hbit)]
      exact ih _ hbit (by omega) fun b hb => h b (by omega)
    · rw [if_neg fun htest => hbit ((h _ (by omega)).1 htest)]
      exact ih _ hlow (by omega) fun b hb => h b (by omega)

/-- The finite double from zero upwards that is nearest to a decimal, and of two equally near ones
the even one; none for a decimal beyond the finite doubles. -/
def nearest (d : Decimal) : Option Double :=
  let x := ofNumber (lastAdmitted (fun b => (ofNumber b).neighbourhood.reached d) 0 63)
  if x.isFinite then some x else none

/-- Between the edges of a finite double there are just the decimals that are rounded to it. -/
theorem nearest_of_within {x : Double} (hfinite : x.isFinite = true) {d : Decimal}
    (h : Within x.number (d.value * grain)) : nearest d = some (ofNumber x.number) := by
  have hlast : lastAdmitted (fun b => (ofNumber b).neighbourhood.reached d) 0 63 = x.number :=
    lastAdmitted_eq 0 63 (Nat.zero_le _) (by simpa using x.number_lt) fun b hb =>
      reached_iff_le h (by simpa using hb)
  have hsame : (ofNumber x.number).isFinite = true := by
    rw [isFinite, biased_eq, number_ofNumber x.number_lt, ← biased_eq]
    exact hfinite
  rw [nearest, hlast]
  exact if_pos hsame

/-! ### The shortest digits are found -/

/-- The decimal that is found in a neighbourhood is held by it. -/
theorem Neighbourhood.holds_of_nearest {n : Neighbourhood} {e : ℤ} {count : Nat}
    (h : n.nearest e = some count) : n.holds count e = true := by
  unfold Neighbourhood.nearest at h
  dsimp only at h
  split at h
  · next hbelow habove =>
    split at h <;> cases h
    · exact hbelow
    · exact habove
  · next hbelow _ => cases h; exact hbelow
  · next _ habove => cases h; exact habove
  · cases h

/-- A search that meets a grid with a point in the interval ends with such a point. -/
theorem Neighbourhood.holds_search {n : Neighbourhood} {magnitude : ℤ} {tried bound i : Nat}
    (hi : i < bound) (h : (n.nearest (magnitude - (tried + i : ℕ) + 1)).isSome = true) :
    n.holds (n.search magnitude tried bound).digits (n.search magnitude tried bound).exponent =
      true := by
  induction bound generalizing tried i with
  | zero => omega
  | succ bound ih =>
    rw [Neighbourhood.search]
    cases hfirst : n.nearest (magnitude - tried + 1) with
    | some count => exact Neighbourhood.holds_of_nearest hfirst
    | none =>
      cases i with
      | zero => simp [hfirst] at h
      | succ i =>
        refine ih (i := i) (by omega) ?_
        rwa [show tried + 1 + i = tried + (i + 1) by omega]

theorem pow_digitCount_le {n : Nat} (h : 0 < n) : 10 ^ (digitCount n - 1) ≤ n := by
  rw [digitCount]
  rcases Nat.eq_zero_or_pos ((Nat.toDigits 10 n).length - 1) with hzero | hpos
  · rw [hzero, pow_zero]
    exact h
  · rw [← not_lt, ← Nat.length_toDigits_le_iff (by decide) hpos]
    omega

/-- The zeros that are counted suffice. -/
theorem den_le_leadingZeros {num den : Nat} (bound : Nat) (h : den ≤ num * 10 ^ bound) :
    den ≤ num * 10 ^ leadingZeros num den bound := by
  induction bound generalizing num with
  | zero => simpa [leadingZeros] using h
  | succ bound ih =>
    rw [leadingZeros]
    split
    · simpa using ‹num ≥ den›
    · rw [pow_succ', ← mul_assoc] at h ⊢
      exact ih h

/-- The denominators of neighbourhoods have at most four hundred digits. -/
theorem den_le (x : Double) {k : Nat} (hk : 400 ≤ k) : x.neighbourhood.den ≤ 10 ^ k := by
  rw [neighbourhood_eq]
  have hscale := scaleAt_pos x.number
  calc 2 ^ (-((scaleAt x.number : ℤ) - 1077)).toNat
      ≤ 2 ^ (27 * 40) := Nat.pow_le_pow_right (by decide) (by omega)
    _ = (2 ^ 27) ^ 40 := pow_mul _ _ _
    _ ≤ (10 ^ 10) ^ 40 := Nat.pow_le_pow_left (by decide) 40
    _ ≤ 10 ^ k := by
      rw [← pow_mul]
      exact pow_le_pow_right₀ (by decide) hk

theorem significandAt_pos {b : Nat} (h : b ≠ 0) : 0 < significandAt b := by
  unfold significandAt
  split <;> omega

theorem mid_pos {x : Double} (h : x.number ≠ 0) : 0 < x.neighbourhood.mid := by
  rw [neighbourhood_eq]
  have := significandAt_pos h
  positivity

/-- **The leading digit is not above the double.** -/
theorem ten_zpow_magnitude_le {x : Double} (h : x.number ≠ 0) :
    (10 : ℚ) ^ x.neighbourhood.magnitude * x.neighbourhood.den ≤ x.neighbourhood.mid := by
  have hmid := mid_pos h
  have hden := x.den_pos
  have hbound : ∀ k, 400 ≤ k → x.neighbourhood.den ≤ 10 ^ k := fun k => x.den_le
  generalize x.neighbourhood = n at hmid hden hbound ⊢
  rw [Neighbourhood.magnitude]
  split
  · next hle =>
    have hpos : 0 < n.mid / n.den := Nat.div_pos hle hden
    have hcount : 0 < digitCount (n.mid / n.den) := Nat.length_toDigits_pos
    have hcast : (digitCount (n.mid / n.den) : ℤ) - 1 = (digitCount (n.mid / n.den) - 1 : ℕ) := by
      omega
    rw [hcast, zpow_natCast]
    exact_mod_cast (Nat.mul_le_mul_right _ (pow_digitCount_le hpos)).trans (Nat.div_mul_le_self _ _)
  · generalize hk : 400 = k
    have hzeros := den_le_leadingZeros k ((hbound k hk.le).trans (Nat.le_mul_of_pos_left _ hmid))
    rw [zpow_neg, zpow_natCast, inv_mul_le_iff₀ (by positivity), mul_comm]
    exact_mod_cast hzeros

/-- **On the grid of twenty digits a point is found**: two points are closer than the upper half of
the interval is wide. -/
theorem isSome_nearest {x : Double} (h : x.number ≠ 0) {e : ℤ}
    (he : e = x.neighbourhood.magnitude - 19) :
    (x.neighbourhood.nearest e).isSome = true := by
  have hmagnitude := ten_zpow_magnitude_le h
  have hden : (0 : ℚ) < x.neighbourhood.den := Nat.cast_pos.2 x.den_pos
  -- the width of the upper half, and how the double compares with it
  obtain ⟨up, hlow, hhigh, hmid⟩ : ∃ up : Nat, x.neighbourhood.low ≤ x.neighbourhood.mid ∧
      x.neighbourhood.high = x.neighbourhood.mid + 2 * up ∧ x.neighbourhood.mid < 2 ^ 55 * up := by
    have hsig : significandAt x.number < 2 ^ 53 := by
      unfold significandAt
      split <;> omega
    rw [neighbourhood_eq]
    refine ⟨2 ^ ((scaleAt x.number : ℤ) - 1077).toNat, ?_, ?_, ?_⟩
    · exact Nat.mul_le_mul_right _ (Nat.sub_le _ _)
    · exact add_mul _ _ _
    · exact Nat.mul_lt_mul_of_pos_right (by omega) (by positivity)
  -- twenty digits are finer than half a step, since a significand has at most fifty-three bits
  have hunit : (10 : ℚ) ^ e * x.neighbourhood.den < 2 * up := by
    have hup : (x.neighbourhood.mid : ℚ) < 2 ^ 55 * up := by exact_mod_cast hmid
    have hstep : (10 : ℚ) ^ x.neighbourhood.magnitude = 10 ^ e * 10 ^ 19 := by
      rw [he, ← zpow_natCast, ← zpow_add₀ (by norm_num)]
      congr 1
      omega
    rw [hstep] at hmagnitude
    nlinarith
  generalize x.neighbourhood = n at hlow hhigh hmid hunit hden ⊢
  have hunit' : 10 ^ e.toNat * n.den < 2 * up * 10 ^ (-e).toNat := by
    have hscale : (0 : ℚ) < 10 ^ (-e).toNat := by positivity
    have := mul_lt_mul_of_pos_right hunit hscale
    rw [mul_right_comm, ten_zpow_mul] at this
    exact_mod_cast this
  have hpos : 0 < 10 ^ e.toNat * n.den := Nat.mul_pos (by positivity) (Nat.cast_pos.1 hden)
  -- so the grid point above the double is in the interval, whether or not the one below is
  have habove : n.holds (n.mid * 10 ^ (-e).toNat / (10 ^ e.toNat * n.den) + 1) e = true := by
    have hdiv := Nat.div_add_mod (n.mid * 10 ^ (-e).toNat) (10 ^ e.toNat * n.den)
    have hmod := Nat.mod_lt (n.mid * 10 ^ (-e).toNat) hpos
    have hscaled := Nat.mul_le_mul_right (10 ^ (-e).toNat) hlow
    have hpoint : ∀ count, count * 10 ^ e.toNat * n.den = 10 ^ e.toNat * n.den * count :=
        fun count => by
      rw [mul_assoc, mul_comm]
    rw [Neighbourhood.holds_eq, hhigh, hpoint, Nat.mul_add_one, add_mul]
    split <;> rw [decide_eq_true_iff] <;> omega
  unfold Neighbourhood.nearest
  simp only [Nat.pow_eq, habove]
  split
  · split <;> rfl
  · rfl
  · rfl
  · next h => cases h

/-- **The shortest digits of a double lie in its interval.** -/
theorem within_shortest {x : Double} (h : x.number ≠ 0) :
    Within x.number (x.shortest.value * grain) := by
  refine within_of_holds ?_
  refine Neighbourhood.holds_search (i := 19) (by decide) (isSome_nearest h ?_)
  push_cast
  ring

/-- A double that is not zero has digits. -/
theorem shortest_digits_ne_zero {x : Double} (h : x.number ≠ 0) : x.shortest.digits ≠ 0 := by
  intro hdigits
  have hlow := (within_shortest h).low
  have hedge : edge 0 < edge x.number := edge_strictMono (Nat.pos_of_ne_zero h)
  have hvalue : x.shortest.value = 0 := by simp [Decimal.value, hdigits]
  rw [hvalue, zero_mul] at hlow
  have hle : edge x.number ≤ 0 := by exact_mod_cast hlow
  omega

/-- **The shortest digits of a finite double read back as that double**, however they are laid
out. -/
theorem nearest_of_value_eq {x : Double} (hfinite : x.isFinite = true) (h : x.number ≠ 0)
    {d : Decimal} (hd : d.value = x.shortest.value) : nearest d = some (ofNumber x.number) :=
  nearest_of_within hfinite (hd ▸ within_shortest h)

/-- Zero reads back as zero. -/
theorem nearest_zero {d : Decimal} (hd : d.value = 0) : nearest d = some (ofNumber 0) := by
  have hzero : (ofNumber 0).number = 0 := number_ofNumber (by decide)
  rw [← hzero]
  refine nearest_of_within (by rw [isFinite, biased_eq, hzero]; rfl) ?_
  rw [hd, zero_mul, hzero]
  exact ⟨by simp [edge, significandAt], by positivity, by simp⟩

end Double

end BuilderApi
