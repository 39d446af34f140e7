import BuilderApi.Json.Basic

/-!
# Number literals

The digits of a literal are read into a significand as long as it fits in 64 bits. The digits of the
whole part that no longer fit count as a power of ten, those of the fraction are dropped. A literal
with neither fraction nor exponent, all of whose digits fit, is an integer; but a negative one below
the 64-bit range and minus zero are doubles.
-/

namespace BuilderApi

/-- A number as it is written: its digits from left to right. -/
structure NumberLiteral where
  /-- Does it start with a minus? -/
  negative : Bool
  /-- The digits before the point. -/
  whole : List Nat
  /-- The digits behind the point, if there is one. -/
  fraction : Option (List Nat)
  /-- The exponent, if there is one. -/
  exponent : Option Int

namespace NumberLiteral

/-- Reads digits into a significand while it stays below `2 ^ 64`; the count is that of the digits
read. -/
def absorb (significand : Nat) : List Nat → Nat × Nat
  | [] => (significand, 0)
  | digit :: rest =>
    if significand * 10 + digit < UInt64.size then
      let (total, count) := absorb (significand * 10 + digit) rest
      (total, count + 1)
    else (significand, 0)

/-- A sign on a double. -/
def signed (negative : Bool) (x : Double) : Double :=
  if negative then x.negate else x

/-- The number that is written; `none` when it is beyond the finite doubles. -/
def number (literal : NumberLiteral) : Option Number :=
  let (whole, wholeCount) := absorb 0 literal.whole
  let dropped := literal.whole.length - wholeCount
  match literal.fraction, literal.exponent with
  | none, none =>
    if dropped > 0 then
      (Double.ofParts whole dropped).map (.double ∘ signed literal.negative)
    else if !literal.negative then
      some (.int whole)
    else if whole = 0 ∨ whole > Nat.pow 2 63 then
      (Double.ofParts whole 0).map (.double ∘ signed true)
    else
      some (.int (-whole))
  | fraction, exponent =>
    let (all, count) := absorb whole (fraction.getD [])
    (Double.ofParts all (dropped - count + exponent.getD 0)).map (.double ∘ signed literal.negative)

end NumberLiteral

end BuilderApi
