/-
This file reads the numerals of a document. A numeral is an optional minus sign,
digits without a needless leading zero, an optional fraction and an optional
exponent. What is kept of it is what decides its value: the digits as one whole
number, the power of ten that goes with them, and whether the numeral was written
as a plain integer.
-/

import EstreeScopes.Json.Double

namespace EstreeScopes.Json

/-- A numeral as it stands in the text: `± digits · 10 ^ exponent`. It is `plain` when it was
written with neither a point nor an exponent. -/
structure Numeral where
  negative : Bool
  digits : Nat
  exponent : Int
  plain : Bool
deriving DecidableEq

namespace Numeral

/-- The digits that open a text, and what follows them. -/
def digitRun (text : List Char) : List Char × List Char :=
  (text.takeWhile Char.isDigit, text.dropWhile Char.isDigit)

/-- The minus sign that may open a numeral. -/
def scanSign : List Char → Bool × List Char
  | '-' :: rest => (true, rest)
  | text => (false, text)

/-- The digits before the point: at least one, and a zero only alone. -/
def scanWhole (text : List Char) : Option (List Char × List Char) :=
  match digitRun text with
  | ([], _) => none
  | ('0' :: _ :: _, _) => none
  | run => some run

/-- The digits after the point, at least one when there is a point. -/
def scanFraction : List Char → Option (List Char × List Char)
  | '.' :: rest =>
    match digitRun rest with
    | ([], _) => none
    | run => some run
  | text => some ([], text)

/-- The digits of an exponent with its sign, once the `e` has been read. -/
def scanPower (text : List Char) : Option (Int × List Char) :=
  let (negative, text) :=
    match text with
    | '-' :: rest => (true, rest)
    | '+' :: rest => (false, rest)
    | _ => (false, text)
  match digitRun text with
  | ([], _) => none
  | (digits, rest) =>
    let magnitude : Int := Nat.ofDigitChars 10 digits 0
    some (if negative then -magnitude else magnitude, rest)

/-- The exponent that may close a numeral. -/
def scanExponent : List Char → Option (Option Int × List Char)
  | 'e' :: rest | 'E' :: rest => (scanPower rest).map fun (power, rest) => (some power, rest)
  | text => some (none, text)

/-- The numeral that opens a text, and what follows it. -/
def scan? (text : List Char) : Option (Numeral × List Char) := do
  let (negative, text) := scanSign text
  let (whole, text) ← scanWhole text
  let (fraction, text) ← scanFraction text
  let (power, text) ← scanExponent text
  let digits := Nat.ofDigitChars 10 (whole ++ fraction) 0
  let exponent := power.getD 0 - fraction.length
  return ({ negative, digits, exponent, plain := fraction.isEmpty && power.isNone }, text)

end Numeral

end EstreeScopes.Json
