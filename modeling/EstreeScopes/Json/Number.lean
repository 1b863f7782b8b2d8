/-
This file gives the numbers of a document: integers of at most 64 bits, and
doubles for everything else. A plain numeral in the integer range is an integer;
a minus zero, a larger integer and every numeral with a point or an exponent is a
double. An integer and a double are never the same number.

Reading a double rounds correctly: it gives the double nearest to the decimal, of
two equally near ones the even one, and fails where that is above the largest
double. A reader that settles for its best effort may miss the nearest double by a
digit, and may refuse 1.7976931348623158e308, which is read as the largest double
here.

Writing a double uses the fewest digits that read back. For one digit, two digits
and so on, the two decimals of that length around the value are tried, the nearer
one first, and a decimal is taken as soon as its text reads back as the value.
Seventeen digits always suffice; the exact expansion stands behind them, so that
writing is total and reads back by construction.
-/

import EstreeScopes.Json.Numeral

namespace EstreeScopes.Json

/-- An integer that fits 64 bits, with or without a sign. -/
structure Integer where
  value : Int
  lower : -9223372036854775808 ≤ value
  upper : value < 18446744073709551616
deriving DecidableEq

/-- A number of a document. -/
inductive Number where
  | integer (integer : Integer)
  | double (double : Double)
deriving DecidableEq

namespace Number

/-- The integer of that value, when it fits. -/
def ofInt? (value : Int) : Option Number :=
  if bounds : -9223372036854775808 ≤ value ∧ value < 18446744073709551616 then
    some (.integer { value, lower := bounds.1, upper := bounds.2 })
  else none

/-- The integer of that value, for values known to be small. -/
def ofNat (value : Nat) : Number :=
  .integer
    { value := (value % 18446744073709551616 : Nat),
      lower := Int.le_trans (by decide) (Int.natCast_nonneg _),
      upper := by omega }

/-- What a numeral stands for; nothing above the largest double. -/
def ofNumeral? (numeral : Numeral) : Option Number :=
  let double := (Double.ofDecimal? numeral.negative numeral.digits numeral.exponent).map .double
  if numeral.plain then
    if numeral.negative then
      if numeral.digits = 0 then double
      else (ofInt? (-(numeral.digits : Int))).or double
    else (ofInt? numeral.digits).or double
  else double

/-- The number that a whole text writes. -/
def read? (text : List Char) : Option Number :=
  match Numeral.scan? text with
  | some (numeral, []) => ofNumeral? numeral
  | _ => none

/-- Two numbers are the same: equal integers, or doubles of the same value. -/
def same : Number → Number → Bool
  | .integer first, .integer second => first == second
  | .double first, .double second => first.same second
  | _, _ => false

/-- The value of a number that is an integer and not negative. -/
def toNat? : Number → Option Nat
  | .integer whole => if 0 ≤ whole.value then some whole.value.toNat else none
  | .double _ => none

end Number

/-! ### Writing -/

/-- How a decimal is laid out: which exponents of the first digit are written
positionally, the rest being written with an exponent mark. -/
structure Layout where
  leastPlain : Int
  mostPlain : Int

namespace Layout

/-- Doubles of a document are positional from `0.00001` up to sixteen digits before the point. -/
def document : Layout := { leastPlain := -5, mostPlain := 15 }

/-- The digits with a point after the first `count` of them; a fraction is never empty. -/
def withPoint (digits : List Char) (count : Nat) : List Char :=
  let whole := digits.take count ++ List.replicate (count - digits.length) '0'
  let fraction := digits.drop count
  whole ++ '.' :: (if fraction.isEmpty then ['0'] else fraction)

/-- The text of the decimal with these digits, the first of them standing for `10 ^ power`. -/
def text (layout : Layout) (digits : List Char) (power : Int) : List Char :=
  if layout.leastPlain ≤ power ∧ power ≤ layout.mostPlain then
    if 0 ≤ power then withPoint digits (power.toNat + 1)
    else '0' :: '.' :: (List.replicate ((-power).toNat - 1) '0' ++ digits)
  else
    let mantissa :=
      match digits with
      | [] => []
      | [digit] => [digit]
      | digit :: fraction => digit :: '.' :: fraction
    mantissa ++ 'e' :: (if power < 0 then '-' else '+') :: Nat.toDigits 10 power.natAbs

end Layout

namespace Double

/-- A digit string without the zeros at its end. -/
def dropTrailingZeros (digits : List Char) : List Char :=
  (digits.reverse.dropWhile (· == '0')).reverse

/-- The text of a decimal with the sign in front. The decimal is `digits · 10 ^ exponent`. -/
def decimalText (negative : Bool) (digits : Nat) (exponent : Int) : List Char :=
  let written := Nat.toDigits 10 digits
  let text := Layout.document.text (dropTrailingZeros written) (exponent + written.length - 1)
  if negative then '-' :: text else text

/-- The two decimals of `count` digits around a double, the nearer one first; of two equally near
ones the even one is first. The double has `length` digits in units of `10 ^ -1074`. -/
def neighbours (double : Double) (length count : Nat) : List (List Char) :=
  let unit := Nat.pow 10 (length - count)
  let below := double.decimalUnits / unit
  let doubled := 2 * (double.decimalUnits % unit)
  let text digits := decimalText double.negative digits ((length - count : Nat) - 1074 : Int)
  if doubled < unit ∨ (doubled = unit ∧ below % 2 = 0) then [text below, text (below + 1)]
  else [text (below + 1), text below]

/-- The exact decimal expansion of a double. -/
def exactText (double : Double) : List Char :=
  (if double.negative then ['-'] else []) ++ Nat.toDigits 10 double.decimalUnits ++
    ['e', '-', '1', '0', '7', '4']

/-- The text of a double: the fewest digits that read back as it. -/
def text (double : Double) : List Char :=
  if double.mantissa = 0 then if double.negative then "-0.0".toList else "0.0".toList
  else
    let length := (Nat.toDigits 10 double.decimalUnits).length
    let candidates := (List.range 17).flatMap fun count => double.neighbours length (count + 1)
    (candidates.find? fun text => Number.read? text = some (.double double)).getD double.exactText

end Double

namespace Number

/-- The text of a number. -/
def text : Number → List Char
  | .integer whole =>
    (if whole.value < 0 then ['-'] else []) ++ Nat.toDigits 10 whole.value.natAbs
  | .double value => value.text

end Number

end EstreeScopes.Json
