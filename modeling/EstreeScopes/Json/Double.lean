/-
This file holds the numbers of a document that are no integers: the finite
double-precision values. A value is kept exactly, as a sign, a whole mantissa and
a power of two, so that equality is decidable and every step of reading and
writing is arithmetic on natural numbers. A decimal numeral is read as the
nearest double, a tie going to the even mantissa; a numeral beyond the largest
double has no reading.
-/

namespace EstreeScopes.Json

/-- A finite double: the value is `± mantissa · 2 ^ (scale - 1074)`. Above scale
zero the mantissa has its full 53 bits, so each value has one representation,
apart from the sign of zero. -/
structure Double where
  negative : Bool
  mantissa : Nat
  scale : Nat
  mantissa_lt : mantissa < Nat.pow 2 53
  scale_le : scale ≤ 2045
  full : scale = 0 ∨ Nat.pow 2 52 ≤ mantissa
deriving DecidableEq

namespace Double

/-- The zero of the given sign. -/
def zero (negative : Bool) : Double :=
  { negative, mantissa := 0, scale := 0, mantissa_lt := by decide, scale_le := by decide,
    full := .inl rfl }

/-- Two doubles are the same number: they agree, or both are zeros. -/
def same (first second : Double) : Bool :=
  first == second || (first.mantissa == 0 && second.mantissa == 0)

/-! ### Rounding -/

/-- The whole number nearest to `numerator / denominator`; a half goes to the even one. -/
def roundDiv (numerator denominator : Nat) : Nat :=
  let quotient := numerator / denominator
  let doubled := 2 * (numerator % denominator)
  if doubled < denominator ∨ (doubled = denominator ∧ quotient % 2 = 0) then quotient
  else quotient + 1

/-- The double of the given sign with `mantissa · 2 ^ (scale - 1074)` as magnitude. A mantissa
that rounding carried to 54 bits moves to the next scale. There is none above the largest double. -/
def ofParts? (negative : Bool) (mantissa scale : Nat) : Option Double :=
  if carried : mantissa = Nat.pow 2 53 then
    if inRange : scale + 1 ≤ 2045 then
      some { negative, mantissa := Nat.pow 2 52, scale := scale + 1, mantissa_lt := by decide,
             scale_le := inRange, full := .inr (Nat.le_refl _) }
    else none
  else if inRange :
      mantissa < Nat.pow 2 53 ∧ scale ≤ 2045 ∧ (scale = 0 ∨ Nat.pow 2 52 ≤ mantissa) then
    some { negative, mantissa, scale, mantissa_lt := inRange.1, scale_le := inRange.2.1,
           full := inRange.2.2 }
  else none

/-- The double nearest to `± numerator / denominator`. Counted in units of the least double, the
whole part of the quotient has some number of bits; the scale is what stands above 53 of them. -/
def nearest? (negative : Bool) (numerator denominator : Nat) : Option Double :=
  let units := numerator * Nat.pow 2 1074
  let scale := (units / denominator).log2 - 52
  ofParts? negative (roundDiv units (denominator * Nat.pow 2 scale)) scale

/-- The double nearest to `± digits · 10 ^ exponent`. The two bounds on the exponent keep the powers
of ten small: beyond the first nothing is a double, below the second everything rounds to zero. -/
def ofDecimal? (negative : Bool) (digits : Nat) (exponent : Int) : Option Double :=
  if digits = 0 then some (zero negative)
  else if 400 < exponent then none
  else if exponent + digits.log2 < -1100 then some (zero negative)
  else if 0 ≤ exponent then nearest? negative (digits * Nat.pow 10 exponent.toNat) 1
  else nearest? negative digits (Nat.pow 10 (-exponent).toNat)

/-- The magnitude of a double in units of `10 ^ -1074`. Every double is a whole number of these
units, since `2 ^ (scale - 1074) = 2 ^ scale · 5 ^ 1074 · 10 ^ -1074`. -/
def decimalUnits (double : Double) : Nat :=
  double.mantissa * Nat.pow 2 double.scale * Nat.pow 5 1074

end Double

end EstreeScopes.Json
