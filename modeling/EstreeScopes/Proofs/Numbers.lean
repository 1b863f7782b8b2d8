/-
This file shows that the text of a number reads back as the number. For integers
this is a law about decimal digits. A double is written by the first candidate
that reads back, so what is left to show is that its exact expansion does: counted
in units of the least double it is a whole number, whose bits above 53 are the
scale, and nothing is rounded. A numeral is read in the same way in front of any
text that does not go on with it, so numbers read back inside a document too.
-/

import EstreeScopes.Json.Number
import Mathlib

namespace EstreeScopes.Json

/-! ### What follows a numeral -/

namespace Numeral

/-- A character that may stand in a numeral. -/
def isPart (char : Char) : Bool :=
  char.isDigit || "+-.eE".toList.contains char

/-- No numeral can run on into this text. -/
def Ends (rest : List Char) : Prop :=
  ∀ char ∈ rest.head?, isPart char = false

theorem ends_nil : Ends [] := fun _ member => nomatch member

theorem ends_cons {char : Char} {rest : List Char} : Ends (char :: rest) ↔ isPart char = false := by
  simp [Ends]

/-- Digits that may stand before the point: at least one, and a zero only alone. -/
def IsWhole (digits : List Char) : Prop :=
  digits ≠ [] ∧ ∀ digit others, digits ≠ '0' :: digit :: others

theorem scanWhole_eq_some {text : List Char} {run : List Char × List Char} :
    scanWhole text = some run ↔ digitRun text = run ∧ IsWhole run.1 := by
  rw [scanWhole]
  split
  · rename_i others equal
    rw [equal]
    exact ⟨fun scanned => (nomatch scanned), fun ⟨same, whole⟩ => absurd rfl (same ▸ whole).1⟩
  · rename_i digit digits others equal
    rw [equal]
    exact ⟨fun scanned => (nomatch scanned),
      fun ⟨same, whole⟩ => absurd rfl ((same ▸ whole).2 _ _)⟩
  · rename_i notEmpty notPadded
    refine ⟨fun scanned => ?_, fun ⟨same, _⟩ => congrArg some same⟩
    obtain rfl := Option.some.inj scanned
    exact ⟨rfl, fun empty => notEmpty _ (Prod.ext empty rfl),
      fun digit others padded => notPadded digit others _ (Prod.ext padded rfl)⟩

theorem scanFraction_point {text : List Char} {run : List Char × List Char} :
    scanFraction ('.' :: text) = some run ↔ digitRun text = run ∧ run.1 ≠ [] := by
  rw [scanFraction]
  split
  · rename_i others equal
    rw [equal]
    exact ⟨fun scanned => (nomatch scanned), fun ⟨same, notEmpty⟩ => absurd rfl (same ▸ notEmpty)⟩
  · rename_i notEmpty
    refine ⟨fun scanned => ?_, fun ⟨same, _⟩ => congrArg some same⟩
    obtain rfl := Option.some.inj scanned
    exact ⟨rfl, fun empty => notEmpty _ (Prod.ext empty rfl)⟩

/-- The sign that may open an exponent. -/
def powerSign : List Char → Bool × List Char
  | '-' :: rest => (true, rest)
  | '+' :: rest => (false, rest)
  | text => (false, text)

/-- The exponent that digits stand for. -/
def powerValue (negative : Bool) (digits : List Char) : Int :=
  if negative then -(Nat.ofDigitChars 10 digits 0 : Int) else Nat.ofDigitChars 10 digits 0

theorem scanPower_eq (text : List Char) :
    scanPower text =
      if (digitRun (powerSign text).2).1 = [] then none
      else some (powerValue (powerSign text).1 (digitRun (powerSign text).2).1,
        (digitRun (powerSign text).2).2) := by
  fun_cases powerSign text with
  | case1 rest =>
    rw [scanPower.eq_1]
    dsimp only
    obtain ⟨digits, others⟩ := digitRun rest
    cases digits <;> rfl
  | case2 rest =>
    rw [scanPower.eq_2]
    dsimp only
    obtain ⟨digits, others⟩ := digitRun rest
    cases digits <;> rfl
  | case3 _ notMinus notPlus =>
    rw [scanPower.eq_3 text notMinus notPlus]
    dsimp only
    obtain ⟨digits, others⟩ := digitRun text
    cases digits <;> rfl

theorem scanPower_eq_some {text after : List Char} {power : Int} :
    scanPower text = some (power, after) ↔
      ∃ digits, digitRun (powerSign text).2 = (digits, after) ∧ digits ≠ [] ∧
        power = powerValue (powerSign text).1 digits := by
  rw [scanPower_eq]
  obtain ⟨digits, others⟩ := digitRun (powerSign text).2
  constructor
  · intro scanned
    split at scanned
    · cases scanned
    · rename_i notEmpty
      obtain ⟨rfl, rfl⟩ := Prod.mk.inj (Option.some.inj scanned)
      exact ⟨digits, rfl, notEmpty, rfl⟩
  · rintro ⟨_, equal, notEmpty, rfl⟩
    obtain ⟨rfl, rfl⟩ := Prod.mk.inj equal
    exact if_neg notEmpty

/-- The run of digits stops where the text in front of a text without a digit stops. -/
theorem digitRun_append {rest : List Char} (stops : ∀ char ∈ rest.head?, char.isDigit = false)
    (text : List Char) :
    digitRun (text ++ rest) = ((digitRun text).1, (digitRun text).2 ++ rest) := by
  induction text with
  | nil =>
    cases rest with
    | nil => rfl
    | cons char rest => simp [digitRun, stops char rfl]
  | cons char text inductionHypothesis =>
    simp only [digitRun, Prod.mk.injEq] at inductionHypothesis
    by_cases digit : char.isDigit
    · simp [digitRun, digit, inductionHypothesis]
    · simp [digitRun, digit]

section Append

variable {text rest after : List Char} (ends : Ends rest)
include ends

theorem Ends.stops : ∀ char ∈ rest.head?, char.isDigit = false :=
  fun char member => (Bool.or_eq_false_iff.mp (ends char member)).1

/-- A mark of a numeral that opens the longer text opens the shorter one. -/
theorem opens_of_append {mark : Char} {tail : List Char} (part : isPart mark = true)
    (equal : text ++ rest = mark :: tail) : ∃ inner, text = mark :: inner := by
  rcases List.append_eq_cons_iff.mp equal with ⟨_, opened⟩ | ⟨inner, opened, _⟩
  · subst opened
    exact absurd (ends_cons.mp ends) (by simp [part])
  · exact ⟨inner, opened⟩

theorem scanSign_append :
    scanSign (text ++ rest) = ((scanSign text).1, (scanSign text).2 ++ rest) := by
  by_cases signed : ∃ inner, text = '-' :: inner
  · obtain ⟨inner, rfl⟩ := signed
    rfl
  · rw [scanSign.eq_2 text fun inner equal => signed ⟨inner, equal⟩,
      scanSign.eq_2 _ fun _ equal => signed (opens_of_append ends (by decide) equal)]

theorem scanWhole_append {whole : List Char} (scanned : scanWhole text = some (whole, after)) :
    scanWhole (text ++ rest) = some (whole, after ++ rest) := by
  obtain ⟨run, isWhole⟩ := scanWhole_eq_some.mp scanned
  rw [scanWhole_eq_some, digitRun_append ends.stops, run]
  exact ⟨rfl, isWhole⟩

theorem scanFraction_append {fraction : List Char}
    (scanned : scanFraction text = some (fraction, after)) :
    scanFraction (text ++ rest) = some (fraction, after ++ rest) := by
  by_cases pointed : ∃ inner, text = '.' :: inner
  · obtain ⟨inner, rfl⟩ := pointed
    obtain ⟨run, notEmpty⟩ := scanFraction_point.mp scanned
    rw [List.cons_append, scanFraction_point, digitRun_append ends.stops, run]
    exact ⟨rfl, notEmpty⟩
  · rw [scanFraction.eq_2 text fun inner equal => pointed ⟨inner, equal⟩] at scanned
    rw [scanFraction.eq_2 _ fun _ equal => pointed (opens_of_append ends (by decide) equal)]
    obtain ⟨rfl, rfl⟩ := Prod.mk.inj (Option.some.inj scanned)
    rfl

theorem powerSign_append :
    powerSign (text ++ rest) = ((powerSign text).1, (powerSign text).2 ++ rest) := by
  by_cases minus : ∃ inner, text = '-' :: inner
  · obtain ⟨inner, rfl⟩ := minus
    rfl
  by_cases plus : ∃ inner, text = '+' :: inner
  · obtain ⟨inner, rfl⟩ := plus
    rfl
  rw [powerSign.eq_3 text (fun inner equal => minus ⟨inner, equal⟩)
      fun inner equal => plus ⟨inner, equal⟩,
    powerSign.eq_3 _ (fun _ equal => minus (opens_of_append ends (by decide) equal))
      fun _ equal => plus (opens_of_append ends (by decide) equal)]

theorem scanPower_append {power : Int} (scanned : scanPower text = some (power, after)) :
    scanPower (text ++ rest) = some (power, after ++ rest) := by
  obtain ⟨digits, run, notEmpty, value⟩ := scanPower_eq_some.mp scanned
  rw [scanPower_eq_some, powerSign_append ends, digitRun_append ends.stops, run]
  exact ⟨digits, rfl, notEmpty, value⟩

theorem scanExponent_append {power : Option Int}
    (scanned : scanExponent text = some (power, after)) :
    scanExponent (text ++ rest) = some (power, after ++ rest) := by
  have marked {inner : List Char} (found : (scanPower inner).map
      (fun read => (some read.1, read.2)) = some (power, after)) :
      (scanPower (inner ++ rest)).map (fun read => (some read.1, read.2)) =
        some (power, after ++ rest) := by
    obtain ⟨⟨value, others⟩, read, equal⟩ := Option.map_eq_some_iff.mp found
    obtain ⟨rfl, rfl⟩ := Prod.mk.inj equal
    rw [scanPower_append ends read]
    rfl
  by_cases small : ∃ inner, text = 'e' :: inner
  · obtain ⟨inner, rfl⟩ := small
    exact marked scanned
  by_cases capital : ∃ inner, text = 'E' :: inner
  · obtain ⟨inner, rfl⟩ := capital
    exact marked scanned
  rw [scanExponent.eq_3 text (fun inner equal => small ⟨inner, equal⟩)
    fun inner equal => capital ⟨inner, equal⟩] at scanned
  rw [scanExponent.eq_3 _ (fun _ equal => small (opens_of_append ends (by decide) equal))
    fun _ equal => capital (opens_of_append ends (by decide) equal)]
  obtain ⟨rfl, rfl⟩ := Prod.mk.inj (Option.some.inj scanned)
  rfl

/-- A numeral is read in the same way in front of a text that does not go on with it. -/
theorem scan?_append {numeral : Numeral} (scanned : scan? text = some (numeral, after)) :
    scan? (text ++ rest) = some (numeral, after ++ rest) := by
  simp only [scan?, Option.bind_eq_bind, Option.bind_eq_some_iff, Option.pure_def,
    Prod.exists, Option.some.injEq, Prod.mk.injEq] at scanned ⊢
  obtain ⟨whole, afterWhole, wholeRead, fraction, afterFraction, fractionRead, power, last,
    powerRead, equal, rfl⟩ := scanned
  rw [scanSign_append ends]
  exact ⟨whole, _, scanWhole_append ends wholeRead, fraction, _,
    scanFraction_append ends fractionRead, power, _, scanExponent_append ends powerRead, equal,
    rfl⟩

end Append

/-- A character that a numeral may start with. -/
def isStart (char : Char) : Bool :=
  char == '-' || char.isDigit

theorem ne_of_isStart {char other : Char} (start : isStart char = true)
    (notStart : isStart other = false) : char ≠ other := by
  rintro rfl
  exact Bool.false_ne_true (notStart.symm.trans start)

/-- A numeral starts with its sign or with a digit. -/
theorem opens_of_scan? {text after : List Char} {numeral : Numeral}
    (scanned : scan? text = some (numeral, after)) :
    ∃ char others, text = char :: others ∧ isStart char = true := by
  simp only [scan?, Option.bind_eq_bind, Option.bind_eq_some_iff, Prod.exists] at scanned
  obtain ⟨whole, afterWhole, wholeRead, -⟩ := scanned
  obtain ⟨run, notEmpty, -⟩ := scanWhole_eq_some.mp wholeRead
  fun_cases scanSign text with
  | case1 others => exact ⟨'-', others, rfl, rfl⟩
  | case2 _ unsigned =>
    rw [scanSign.eq_2 text unsigned] at run
    cases text with
    | nil => exact absurd (congrArg Prod.fst run).symm notEmpty
    | cons char others =>
      refine ⟨char, others, rfl, Bool.or_eq_true_iff.mpr (Or.inr ?_)⟩
      by_contra notDigit
      simp only [digitRun, List.takeWhile_cons, notDigit, Prod.mk.injEq] at run
      exact notEmpty run.1.symm

/-! ### Decimal digits -/

theorem head?_toDigits_ne_zero {number : Nat} (positive : 0 < number) :
    (Nat.toDigits 10 number).head? ≠ some '0' := by
  induction number using Nat.strongRecOn with
  | _ number inductionHypothesis =>
    by_cases small : number < 10
    · rw [Nat.toDigits_of_lt_base small]
      interval_cases number <;> decide
    · have smaller : number / 10 < number := by omega
      have stillPositive : 0 < number / 10 := by omega
      rw [Nat.toDigits_of_base_le (by decide) (Nat.le_of_not_lt small),
        List.head?_append_of_ne_nil _ Nat.toDigits_ne_nil]
      exact inductionHypothesis _ smaller stillPositive

theorem isWhole_toDigits (number : Nat) : IsWhole (Nat.toDigits 10 number) := by
  refine ⟨Nat.toDigits_ne_nil, fun digit others padded => ?_⟩
  rcases Nat.eq_zero_or_pos number with rfl | positive
  · exact absurd padded (by simp)
  · exact head?_toDigits_ne_zero positive (by rw [padded]; rfl)

theorem digitRun_toDigits (number : Nat) :
    digitRun (Nat.toDigits 10 number) = (Nat.toDigits 10 number, []) := by
  have digits : ∀ char ∈ Nat.toDigits 10 number, char.isDigit = true :=
    fun _ member => Nat.isDigit_of_mem_toDigits (by decide) (by decide) member
  rw [digitRun, List.takeWhile_eq_self_iff.mpr digits, List.dropWhile_eq_nil_iff.mpr digits]

/-- The sign of a numeral as it is written. -/
def sign (negative : Bool) : List Char :=
  if negative then ['-'] else []

theorem scanSign_sign (negative : Bool) (number : Nat) (rest : List Char) :
    scanSign (sign negative ++ (Nat.toDigits 10 number ++ rest)) =
      (negative, Nat.toDigits 10 number ++ rest) := by
  cases negative with
  | true => rfl
  | false =>
    change scanSign (Nat.toDigits 10 number ++ rest) = _
    refine scanSign.eq_2 _ fun inner equal => ?_
    rcases List.append_eq_cons_iff.mp equal with ⟨empty, _⟩ | ⟨_, opened, _⟩
    · exact Nat.toDigits_ne_nil empty
    · have digit : '-'.isDigit = true :=
        Nat.isDigit_of_mem_toDigits (by decide) (by decide) (opened ▸ List.mem_cons_self)
      exact absurd digit (by decide)

/-- What is read of a sign, the digits of a whole number and an exponent that may follow. -/
theorem scan?_whole (negative : Bool) (number : Nat) (tail : List Char) {power : Option Int}
    (stops : ∀ char ∈ tail.head?, char.isDigit = false)
    (pointless : scanFraction tail = some ([], tail))
    (powered : scanExponent tail = some (power, [])) :
    scan? (sign negative ++ (Nat.toDigits 10 number ++ tail)) =
      some ({ negative, digits := number, exponent := power.getD 0, plain := power.isNone },
        []) := by
  have whole : scanWhole (Nat.toDigits 10 number ++ tail) =
      some (Nat.toDigits 10 number, tail) := by
    rw [scanWhole_eq_some, digitRun_append stops, digitRun_toDigits]
    exact ⟨rfl, isWhole_toDigits number⟩
  simp [scan?, scanSign_sign, whole, pointless, powered]

end Numeral

/-! ### The exact expansion of a double -/

namespace Double

theorem roundDiv_mul (quotient : Nat) {denominator : Nat} (positive : 0 < denominator) :
    roundDiv (quotient * denominator) denominator = quotient := by
  rw [roundDiv, Nat.mul_div_cancel _ positive, Nat.mul_mod_left]
  exact if_pos (Or.inl positive)

theorem ofParts?_self (double : Double) :
    ofParts? double.negative double.mantissa double.scale = some double := by
  rw [ofParts?, dif_neg (Nat.ne_of_lt double.mantissa_lt),
    dif_pos ⟨double.mantissa_lt, double.scale_le, double.full⟩]

/-- The scale of a double is what its magnitude has above 53 bits. -/
theorem log2_magnitude (double : Double) :
    (double.mantissa * 2 ^ double.scale).log2 - 52 = double.scale := by
  rcases double.full with least | full
  · have bits : double.mantissa.log2 < 53 ∨ double.mantissa = 0 := by
      by_cases zero : double.mantissa = 0
      · exact Or.inr zero
      · exact Or.inl ((Nat.log2_lt zero).mpr double.mantissa_lt)
    rw [least, Nat.pow_zero, Nat.mul_one]
    rcases bits with bits | zero
    · omega
    · simp [zero]
  · have positive : double.mantissa ≠ 0 :=
      Nat.ne_of_gt (Nat.lt_of_lt_of_le (Nat.two_pow_pos 52) full)
    have exact : (double.mantissa * 2 ^ double.scale).log2 = 52 + double.scale := by
      rw [Nat.log2_eq_iff (Nat.mul_ne_zero positive (Nat.two_pow_pos _).ne')]
      constructor
      · rw [Nat.pow_add]
        exact Nat.mul_le_mul_right _ full
      · rw [Nat.add_right_comm, Nat.pow_add]
        exact Nat.mul_lt_mul_of_pos_right double.mantissa_lt (Nat.two_pow_pos _)
    omega

/-- The magnitude in decimal units is the nearest double to itself: nothing is rounded. -/
theorem nearest?_decimalUnits (double : Double) {power : Nat} (least : power = 1074) :
    nearest? double.negative double.decimalUnits (Nat.pow 10 power) = some double := by
  -- The exponent stays a variable, since the powers are far too large to compute with.
  rw [nearest?, decimalUnits, ← least]
  have positive : 0 < Nat.pow 10 power := Nat.pow_pos (by decide)
  have units : double.mantissa * Nat.pow 2 double.scale * Nat.pow 5 power * Nat.pow 2 power =
      double.mantissa * Nat.pow 2 double.scale * Nat.pow 10 power := by
    rw [Nat.mul_assoc]
    exact congrArg _ (Nat.mul_pow 5 2 power).symm
  have scale : (double.mantissa * Nat.pow 2 double.scale).log2 - 52 = double.scale :=
    double.log2_magnitude
  have denominator : 0 < Nat.pow 10 power * Nat.pow 2 double.scale :=
    Nat.mul_pos positive (Nat.two_pow_pos _)
  rw [units, Nat.mul_div_cancel _ positive, scale, Nat.mul_assoc,
    Nat.mul_comm (Nat.pow 2 double.scale), roundDiv_mul _ denominator, ofParts?_self]

theorem ofDecimal?_decimalUnits (double : Double) (notZero : double.mantissa ≠ 0) :
    ofDecimal? double.negative double.decimalUnits (-1074) = some double := by
  have units : double.decimalUnits ≠ 0 := by
    rw [decimalUnits]
    generalize (1074 : Nat) = power
    exact Nat.mul_ne_zero (Nat.mul_ne_zero notZero (Nat.two_pow_pos _).ne')
      (Nat.pow_pos (by decide)).ne'
  rw [ofDecimal?, if_neg units, if_neg (by decide), if_neg (by omega), if_neg (by decide)]
  exact nearest?_decimalUnits double rfl

theorem eq_zero_of_mantissa {double : Double} (none : double.mantissa = 0) :
    double = zero double.negative := by
  have least : double.scale = 0 :=
    double.full.resolve_right fun full => absurd (none ▸ full) (by decide)
  obtain ⟨negative, mantissa, scale, _, _, _⟩ := double
  subst none least
  rfl

end Double

/-! ### Numbers read back -/

namespace Number

theorem read?_of_scan? {text : List Char} {numeral : Numeral}
    (scanned : Numeral.scan? text = some (numeral, [])) : read? text = ofNumeral? numeral := by
  rw [read?, scanned]

theorem ofInt?_value (whole : Integer) : ofInt? whole.value = some (.integer whole) :=
  dif_pos ⟨whole.lower, whole.upper⟩

theorem read?_integer (whole : Integer) :
    read? (Number.integer whole).text = some (.integer whole) := by
  have scanned := Numeral.scan?_whole (decide (whole.value < 0)) whole.value.natAbs []
    (fun _ member => nomatch member) rfl rfl
  have text : (Number.integer whole).text =
      Numeral.sign (decide (whole.value < 0)) ++ (Nat.toDigits 10 whole.value.natAbs ++ []) := by
    simp [Number.text, Numeral.sign]
  rw [text, read?_of_scan? scanned, ofNumeral?]
  by_cases negative : whole.value < 0
  · have notZero : whole.value.natAbs ≠ 0 := by omega
    have value : -(whole.value.natAbs : Int) = whole.value := by omega
    simp only [Option.isNone_none, if_true, negative, decide_true, if_neg notZero, value,
      ofInt?_value, Option.some_or]
  · have value : (whole.value.natAbs : Int) = whole.value := by omega
    simp only [Option.isNone_none, if_true, negative, decide_false, Bool.false_eq_true, if_false,
      value, ofInt?_value, Option.some_or]

theorem read?_exactText (double : Double) (notZero : double.mantissa ≠ 0) :
    read? double.exactText = some (.double double) := by
  have power : Numeral.scanExponent ['e', '-', '1', '0', '7', '4'] = some (some (-1074), []) := by
    decide
  have scanned := Numeral.scan?_whole double.negative double.decimalUnits
    ['e', '-', '1', '0', '7', '4'] (by rintro _ ⟨⟩; rfl) rfl power
  rw [Double.exactText, List.append_assoc]
  refine (read?_of_scan? scanned).trans ?_
  simp [ofNumeral?, Double.ofDecimal?_decimalUnits double notZero]

/-- What is taken from the candidates reads back, if what stands behind them does. -/
theorem read?_find?_getD {fallback : List Char} {number : Number}
    (behind : read? fallback = some number) (candidates : List (List Char)) :
    read? ((candidates.find? fun text => read? text = some number).getD fallback) =
      some number := by
  cases found : candidates.find? fun text => read? text = some number with
  | none => exact behind
  | some text => simpa using List.find?_some found

theorem read?_double (double : Double) :
    read? (Number.double double).text = some (.double double) := by
  rw [Number.text, Double.text]
  split
  · rename_i none
    rw [Double.eq_zero_of_mantissa none]
    cases double.negative <;> rfl
  · rename_i notZero
    exact read?_find?_getD (read?_exactText double notZero) _

/-- Every number reads back from its text. -/
theorem read?_text (number : Number) : read? number.text = some number := by
  cases number with
  | integer whole => exact read?_integer whole
  | double double => exact read?_double double

theorem read?_eq_some {text : List Char} {number : Number} (read : read? text = some number) :
    ∃ numeral, Numeral.scan? text = some (numeral, []) ∧ ofNumeral? numeral = some number := by
  rw [read?] at read
  split at read
  · rename_i numeral scanned
    exact ⟨numeral, scanned, read⟩
  · cases read

/-- The text of a number is scanned to its end inside a longer text, and to the number. -/
theorem scan?_text_append (number : Number) {rest : List Char} (ends : Numeral.Ends rest) :
    ∃ numeral, Numeral.scan? (number.text ++ rest) = some (numeral, rest) ∧
      ofNumeral? numeral = some number := by
  obtain ⟨numeral, scanned, value⟩ := read?_eq_some number.read?_text
  exact ⟨numeral, Numeral.scan?_append ends scanned, value⟩

theorem text_opens (number : Number) :
    ∃ char others, number.text = char :: others ∧ Numeral.isStart char = true := by
  obtain ⟨numeral, scanned, _⟩ := read?_eq_some number.read?_text
  exact Numeral.opens_of_scan? scanned

end Number

end EstreeScopes.Json
