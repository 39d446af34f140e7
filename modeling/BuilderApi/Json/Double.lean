/-!
# Doubles: the value of a literal and the shortest text

A double is kept as its 64 bits, so that equality of numbers is decidable. Two rules connect doubles
and decimal text.

* **From text.** A literal is a significand and a power of ten; its value is computed in double
  arithmetic, with one rounding for the significand and one for the scaling. A value beyond the
  finite range is refused.
* **To text.** The text shows the fewest significant digits that read back as the same double, and
  of those the nearest ones. The digits are found in exact arithmetic: on the grid of one digit,
  then of two, and so on, only the two neighbours of the value have to be tried.
-/

namespace BuilderApi

/-- An IEEE double, by its bits. -/
structure Double where
  /-- Sign, exponent and fraction, from the highest bit down. -/
  bits : UInt64
deriving DecidableEq, Inhabited

/-- A decimal number: `digits` times ten to the power `exponent`. -/
structure Decimal where
  /-- The significant digits, read as one number. -/
  digits : Nat
  /-- The power of ten that the last digit counts. -/
  exponent : Int
deriving DecidableEq, Inhabited

namespace Double

/-- The double that a machine float holds. -/
def ofFloat (x : Float) : Double := ⟨x.toBits⟩

/-- The machine float of a double. -/
def toFloat (x : Double) : Float := Float.ofBits x.bits

/-- Is the sign bit set? -/
def isNegative (x : Double) : Bool := x.bits.toNat ≥ Nat.pow 2 63

/-- The exponent field. -/
def biased (x : Double) : Nat := x.bits.toNat / Nat.pow 2 52 % Nat.pow 2 11

/-- The fraction field. -/
def fraction (x : Double) : Nat := x.bits.toNat % Nat.pow 2 52

/-- Is it zero, of either sign? -/
def isZero (x : Double) : Bool := x.bits.toNat % Nat.pow 2 63 == 0

/-- The other sign. -/
def negate (x : Double) : Double := ofFloat (-x.toFloat)

/-! ### From a significand and a power of ten -/

/-- The power of ten, rounded to a double; exact up to `10 ^ 22`. -/
def powerOfTen (n : Nat) : Float := Float.ofScientific 1 false n

/-- A 64-bit significand times a power of ten, in double arithmetic; `none` beyond the finite range.
Below the smallest power the division is done in two steps. -/
def ofParts (significand : Nat) (exponent : Int) : Option Double :=
  let start := significand.toUInt64.toFloat
  if significand = 0 then
    some (ofFloat start)
  else if exponent > 308 then
    none
  else if exponent ≥ 0 then
    let scaled := start * powerOfTen exponent.toNat
    if scaled.isInf then none else some (ofFloat scaled)
  else if exponent ≥ -308 then
    some (ofFloat (start / powerOfTen (-exponent).toNat))
  else if exponent ≥ -616 then
    some (ofFloat (start / powerOfTen 308 / powerOfTen (-exponent - 308).toNat))
  else
    some ⟨0⟩

/-! ### The shortest digits -/

/-- A positive finite double as a point between the ends of the interval of numbers that round to
it. All three are numerators over one denominator. -/
structure Neighbourhood where
  /-- The lower end. -/
  low : Nat
  /-- The double itself. -/
  mid : Nat
  /-- The upper end. -/
  high : Nat
  /-- The common denominator. -/
  den : Nat
  /-- Do the two ends belong to the interval? -/
  closed : Bool

/-- The interval of numbers that round to this double: half a step to each side, a quarter step down
at a power of two, and the ends themselves when the significand is even. -/
def neighbourhood (x : Double) : Neighbourhood :=
  let significand := if x.biased = 0 then x.fraction else Nat.pow 2 52 + x.fraction
  let exponent : Int := (if x.biased = 0 then 1 else (x.biased : Int)) - 1077
  let down := if x.fraction = 0 ∧ x.biased > 1 then 1 else 2
  let up := Nat.pow 2 exponent.toNat
  { low := (4 * significand - down) * up
    mid := 4 * significand * up
    high := (4 * significand + 2) * up
    den := Nat.pow 2 (-exponent).toNat
    closed := significand % 2 == 0 }

/-- Does the `count`-th point of the grid of `10 ^ exponent` lie in the interval? -/
def Neighbourhood.holds (n : Neighbourhood) (count : Nat) (exponent : Int) : Bool :=
  let point := count * Nat.pow 10 exponent.toNat * n.den
  let scale := Nat.pow 10 (-exponent).toNat
  if n.closed then n.low * scale ≤ point ∧ point ≤ n.high * scale
  else n.low * scale < point ∧ point < n.high * scale

/-- The nearer of the two grid points around the double, if one of them lies in the interval. Of two
that are equally near the even one is taken. -/
def Neighbourhood.nearest (n : Neighbourhood) (exponent : Int) : Option Nat :=
  let unit := Nat.pow 10 exponent.toNat * n.den
  let target := n.mid * Nat.pow 10 (-exponent).toNat
  let below := target / unit
  let rest := target % unit
  match n.holds below exponent, n.holds (below + 1) exponent with
  | true, true =>
    if 2 * rest < unit ∨ (2 * rest = unit ∧ below % 2 = 0) then some below else some (below + 1)
  | true, false => some below
  | false, true => some (below + 1)
  | false, false => none

/-- How many decimal digits a number has. -/
def digitCount (n : Nat) : Nat := (Nat.toDigits 10 n).length

/-- How often a fraction below one has to be multiplied by ten to reach one, up to a bound. -/
def leadingZeros (num den : Nat) : Nat → Nat
  | 0 => 0
  | bound + 1 => if num ≥ den then 0 else leadingZeros (num * 10) den bound + 1

/-- The decimal exponent of the leading digit. -/
def Neighbourhood.magnitude (n : Neighbourhood) : Int :=
  if n.mid ≥ n.den then (digitCount (n.mid / n.den) : Int) - 1
  else -(leadingZeros n.mid n.den 400 : Int)

/-- Tries the grids of `tried` digits and finer ones; seventeen digits always suffice. -/
def Neighbourhood.search (n : Neighbourhood) (magnitude : Int) (tried : Nat) : Nat → Decimal
  | 0 => ⟨0, 0⟩
  | bound + 1 =>
    let exponent := magnitude - tried + 1
    match n.nearest exponent with
    | some digits => ⟨digits, exponent⟩
    | none => n.search magnitude (tried + 1) bound

/-- The fewest digits that read back, for a positive finite double. -/
def shortest (x : Double) : Decimal :=
  let n := x.neighbourhood
  n.search n.magnitude 1 20

/-! ### The text of a double -/

/-- A run of zeros. -/
def zeros (n : Nat) : List Char := List.replicate n '0'

/-- Lays digits out. `exponent` is that of the leading digit: from -5 to 15 the number is written
positionally with at least one fractional digit, else in scientific form with a signed exponent. -/
def layout (digits : List Char) (exponent : Int) : List Char :=
  if -5 ≤ exponent ∧ exponent ≤ 15 then
    if exponent < 0 then
      '0' :: '.' :: zeros (-exponent - 1).toNat ++ digits
    else
      let whole := exponent.toNat + 1
      if digits.length ≤ whole then digits ++ zeros (whole - digits.length) ++ ['.', '0']
      else digits.take whole ++ '.' :: digits.drop whole
  else
    let fraction := if digits.length ≤ 1 then [] else '.' :: digits.drop 1
    let power := Nat.toDigits 10 exponent.natAbs
    digits.take 1 ++ fraction ++ 'e' :: (if exponent < 0 then '-' else '+') :: power

/-- Drops the zeros at the end of a digit list. -/
def dropTrailingZeros (digits : List Char) : List Char :=
  (digits.reverse.dropWhile (· == '0')).reverse

/-- The text of a finite double. -/
def chars (x : Double) : List Char :=
  let body :=
    if x.isZero then ['0', '.', '0']
    else
      let decimal := x.shortest
      let digits := Nat.toDigits 10 decimal.digits
      layout (dropTrailingZeros digits) (decimal.exponent + digits.length - 1)
  if x.isNegative then '-' :: body else body

end Double

end BuilderApi
