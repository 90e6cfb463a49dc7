import FinDashboard.Text.Digits
import Mathlib.Algebra.Order.Field.Rat
import Mathlib.Tactic.Positivity.Basic
import Mathlib.Tactic.Ring

/-!
# Numbers as texts

A literal is a run of digits with a point and an exponent. A `Decimal` is the number its own text
spells, down to trailing zeros; a finite `PyFloat` is given by the shortest digits that name it, and
is printed with these. Reading covers the texts that printing writes.
-/

namespace FinDashboard.Text

open List

/-- An unsigned number as it is spelled. -/
structure Literal where
  whole : List Char
  fraction : List Char
  exponent : ℤ
deriving DecidableEq, Repr

namespace Literal

variable (literal : Literal)

def coefficient : ℕ := digitsValue (literal.whole ++ literal.fraction)

/-- The power of ten of the last digit. -/
def lastExponent : ℤ := literal.exponent - literal.fraction.length

end Literal

def readSign : List Char → Bool × List Char
  | [] => (false, [])
  | c :: rest => if c = '-' then (true, rest) else if c = '+' then (false, rest) else (false, c :: rest)

def signText (negative : Bool) : List Char := if negative then ['-'] else []

/-- The text goes on with something else than a sign. -/
def NoSignFirst (text : List Char) : Prop := ∀ c ∈ text.head?, c ≠ '-' ∧ c ≠ '+'

theorem readSign_signText {text : List Char} (unsigned : NoSignFirst text) (negative : Bool) :
    readSign (signText negative ++ text) = (negative, text) := by
  cases negative with
  | true => rfl
  | false =>
    cases text with
    | nil => rfl
    | cons c rest =>
      obtain ⟨minus, plus⟩ := unsigned c (by simp)
      simp [signText, readSign, minus, plus]

theorem noSignFirst_of_digit {c : Char} {text : List Char} (digit : c.isDigit = true) :
    NoSignFirst (c :: text) := by
  intro d member
  obtain rfl : c = d := by simpa using member
  constructor
  · rintro rfl
    exact absurd digit (by decide)
  · rintro rfl
    exact absurd digit (by decide)

theorem noSignFirst_append {front : List Char} (rest : List Char) (all : AllDigits front)
    (some_digit : front ≠ []) : NoSignFirst (front ++ rest) := by
  cases front with
  | nil => exact absurd rfl some_digit
  | cons c front => exact noSignFirst_of_digit (all c mem_cons_self)

def readInteger (text : List Char) : Option ℤ :=
  let magnitude := (readSign text).2
  if magnitude ≠ [] ∧ AllDigits magnitude then
    some (if (readSign text).1 then -digitsValue magnitude else digitsValue magnitude)
  else none

/-- An exponent with its sign, as both number formats write it. -/
def exponentText (width : ℕ) (exponent : ℤ) : List Char :=
  (if exponent < 0 then '-' else '+') :: padded width exponent.natAbs

theorem readInteger_exponentText {width : ℕ} (exponent : ℤ) :
    readInteger (exponentText width exponent) = some exponent := by
  have some_digit : padded width exponent.natAbs ≠ [] := by
    simp [padded]
  have read : readSign (exponentText width exponent) =
      (decide (exponent < 0), padded width exponent.natAbs) := by
    unfold exponentText
    split
    · rename_i below
      simp [readSign, below]
    · rename_i above
      simp [readSign, above]
  unfold readInteger
  simp only [read]
  rw [if_pos ⟨some_digit, allDigits_padded _ _⟩, digitsValue_padded]
  by_cases below : exponent < 0
  · simp only [below, decide_true, if_true, Option.some.injEq]
    omega
  · simp only [below, decide_false, Bool.false_eq_true, if_false, Option.some.injEq]
    omega

def readExponent : List Char → Option ℤ
  | [] => some 0
  | c :: rest => if c = 'e' ∨ c = 'E' then readInteger rest else none

def readLiteral (text : List Char) : Option Literal :=
  let whole := (splitDigits text).1
  match (splitDigits text).2 with
  | '.' :: rest =>
    (readExponent (splitDigits rest).2).map fun exponent =>
      { whole := whole, fraction := (splitDigits rest).1, exponent := exponent }
  | rest =>
    (readExponent rest).map fun exponent =>
      { whole := whole, fraction := [], exponent := exponent }

/-- A point and the digits after it, if there are any. -/
def fractionText (fraction : List Char) : List Char :=
  if fraction = [] then [] else '.' :: fraction

theorem readLiteral_append {whole fraction ending : List Char} {exponent : ℤ}
    (wholeDigits : AllDigits whole) (fractionDigits : AllDigits fraction)
    (ends : NoDigitFirst ending) (read : readExponent ending = some exponent) :
    readLiteral (whole ++ fractionText fraction ++ ending) =
      some { whole := whole, fraction := fraction, exponent := exponent } := by
  have no_point : ∀ rest, ending ≠ '.' :: rest := by
    rintro rest rfl
    cases read
  unfold readLiteral fractionText
  split
  · rename_i none_left
    subst none_left
    rw [append_nil, splitDigits_append wholeDigits ends]
    simp only [read, Option.map_some]
  · have point : NoDigitFirst ('.' :: fraction ++ ending) := noDigitFirst_cons (by decide)
    rw [append_assoc, splitDigits_append wholeDigits point]
    simp only [cons_append, splitDigits_append fractionDigits ends, read, Option.map_some]

inductive Decimal
  | finite (negative : Bool) (coefficient : ℕ) (exponent : ℤ)
  | infinity (negative : Bool)
  | nan (negative signaling : Bool) (payload : ℕ)
deriving DecidableEq, Repr

namespace Decimal

def value? : Decimal → Option ℚ
  | .finite negative coefficient exponent =>
    some ((if negative then -1 else 1) * coefficient * 10 ^ exponent)
  | .infinity _ => none
  | .nan _ _ _ => none

/-- A comparison with zero; one with an undefined decimal raises. -/
def Positive : Decimal → Prop
  | .finite negative coefficient _ => negative = false ∧ coefficient ≠ 0
  | .infinity negative => negative = false
  | .nan _ _ _ => False

def Nonnegative : Decimal → Prop
  | .finite negative coefficient _ => negative = false ∨ coefficient = 0
  | .infinity negative => negative = false
  | .nan _ _ _ => False

/-- Not equal to zero; a signaling decimal raises. -/
def Nonzero : Decimal → Prop
  | .finite _ coefficient _ => coefficient ≠ 0
  | .infinity _ => True
  | .nan _ signaling _ => signaling = false

instance : DecidablePred Positive
  | .finite negative coefficient _ =>
    inferInstanceAs (Decidable (negative = false ∧ coefficient ≠ 0))
  | .infinity negative => inferInstanceAs (Decidable (negative = false))
  | .nan _ _ _ => inferInstanceAs (Decidable False)

instance : DecidablePred Nonnegative
  | .finite negative coefficient _ =>
    inferInstanceAs (Decidable (negative = false ∨ coefficient = 0))
  | .infinity negative => inferInstanceAs (Decidable (negative = false))
  | .nan _ _ _ => inferInstanceAs (Decidable False)

instance : DecidablePred Nonzero
  | .finite _ coefficient _ => inferInstanceAs (Decidable (coefficient ≠ 0))
  | .infinity _ => inferInstanceAs (Decidable True)
  | .nan _ signaling _ => inferInstanceAs (Decidable (signaling = false))

/-- Where the point stands among the digits: after all of an integer's, and after the first one
where an exponent is written. -/
def dotPlace (coefficient : ℕ) (exponent : ℤ) : ℤ :=
  let leftDigits := exponent + (digits coefficient).length
  if exponent ≤ 0 ∧ -6 < leftDigits then leftDigits else 1

def wholeText (coefficient : ℕ) (exponent : ℤ) : List Char :=
  let place := dotPlace coefficient exponent
  if place ≤ 0 then ['0'] else (digits coefficient).take place.toNat

def fractionDigits (coefficient : ℕ) (exponent : ℤ) : List Char :=
  let place := dotPlace coefficient exponent
  if place ≤ 0 then replicate (-place).toNat '0' ++ digits coefficient
  else (digits coefficient).drop place.toNat

/-- The exponent is written where the point does not account for it. -/
def scaleText (coefficient : ℕ) (exponent : ℤ) : List Char :=
  let scale := exponent + (digits coefficient).length - dotPlace coefficient exponent
  if scale = 0 then [] else 'E' :: exponentText 1 scale

/-- The text of a finite decimal without its sign. -/
def magnitudeText (coefficient : ℕ) (exponent : ℤ) : List Char :=
  wholeText coefficient exponent ++ fractionText (fractionDigits coefficient exponent) ++
    scaleText coefficient exponent

/-- `str` of a decimal. -/
def str : Decimal → List Char
  | .finite negative coefficient exponent => signText negative ++ magnitudeText coefficient exponent
  | .infinity negative => signText negative ++ ['I', 'n', 'f', 'i', 'n', 'i', 't', 'y']
  | .nan negative signaling payload =>
    signText negative ++ (if signaling then ['s'] else []) ++ ['N', 'a', 'N'] ++
      (if payload = 0 then [] else digits payload)

def readPayload (text : List Char) : Option ℕ :=
  if AllDigits text then some (digitsValue text) else none

/-- `Decimal` of a text. -/
def read (text : List Char) : Option Decimal :=
  let negative := (readSign text).1
  match (readSign text).2 with
  | 'I' :: rest => if rest = ['n', 'f', 'i', 'n', 'i', 't', 'y'] then some (.infinity negative) else none
  | 'N' :: 'a' :: 'N' :: payload => (readPayload payload).map (.nan negative false)
  | 's' :: 'N' :: 'a' :: 'N' :: payload => (readPayload payload).map (.nan negative true)
  | body =>
    if (body.head?.map Char.isDigit) = some true then
      (readLiteral body).map fun literal =>
        .finite negative literal.coefficient literal.lastExponent
    else none

variable (coefficient : ℕ) (exponent : ℤ)

/-- The point never stands behind the last digit. -/
theorem dotPlace_le : dotPlace coefficient exponent ≤ (digits coefficient).length := by
  have length := length_digits_pos coefficient
  unfold dotPlace
  simp only
  split <;> omega

theorem allDigits_wholeText : AllDigits (wholeText coefficient exponent) := by
  unfold wholeText
  simp only
  split
  · exact allDigits_zeros 1
  · exact (allDigits_digits coefficient).take _

theorem wholeText_ne_nil : wholeText coefficient exponent ≠ [] := by
  have length := length_digits_pos coefficient
  unfold wholeText
  simp only
  split
  · exact cons_ne_nil _ _
  · intro empty
    have counted := congrArg List.length empty
    simp only [List.length_take, List.length_nil] at counted
    omega

theorem allDigits_fractionDigits : AllDigits (fractionDigits coefficient exponent) := by
  unfold fractionDigits
  simp only
  split
  · exact (allDigits_zeros _).append (allDigits_digits coefficient)
  · exact (allDigits_digits coefficient).drop _

/-- The digits around the point spell the coefficient. -/
theorem digitsValue_text : digitsValue (wholeText coefficient exponent ++
    fractionDigits coefficient exponent) = coefficient := by
  unfold wholeText fractionDigits
  simp only
  split
  · rename_i place
    have zeros : ['0'] ++ (replicate (-dotPlace coefficient exponent).toNat '0' ++
        digits coefficient) = replicate ((-dotPlace coefficient exponent).toNat + 1) '0' ++
          digits coefficient := by
      rw [replicate_succ]
      rfl
    rw [zeros, digitsValue_zeros_append]
    exact Nat.ofDigitChars_ten_toDigits
  · rw [take_append_drop]
    exact Nat.ofDigitChars_ten_toDigits

theorem length_fractionDigits : ((fractionDigits coefficient exponent).length : ℤ) =
    (digits coefficient).length - dotPlace coefficient exponent := by
  have place := dotPlace_le coefficient exponent
  unfold fractionDigits
  simp only
  split
  · rw [List.length_append, List.length_replicate]
    omega
  · rw [length_drop]
    omega

theorem readExponent_scaleText : readExponent (scaleText coefficient exponent) =
    some (exponent + (digits coefficient).length - dotPlace coefficient exponent) := by
  unfold scaleText
  simp only
  split
  · rename_i none_left
    rw [none_left]
    rfl
  · simp only [readExponent, Char.reduceEq, or_true, if_true, readInteger_exponentText]

theorem noDigitFirst_scaleText : NoDigitFirst (scaleText coefficient exponent) := by
  unfold scaleText
  simp only
  split
  · exact noDigitFirst_nil
  · exact noDigitFirst_cons (by decide)

theorem readLiteral_magnitudeText : readLiteral (magnitudeText coefficient exponent) = some {
    whole := wholeText coefficient exponent
    fraction := fractionDigits coefficient exponent
    exponent := exponent + (digits coefficient).length - dotPlace coefficient exponent } :=
  readLiteral_append (allDigits_wholeText coefficient exponent)
    (allDigits_fractionDigits coefficient exponent) (noDigitFirst_scaleText coefficient exponent)
    (readExponent_scaleText coefficient exponent)

theorem magnitudeText_eq_cons : ∃ c rest, c.isDigit = true ∧
    magnitudeText coefficient exponent = c :: rest := by
  have all := allDigits_wholeText coefficient exponent
  unfold magnitudeText
  cases whole : wholeText coefficient exponent with
  | nil => exact absurd whole (wholeText_ne_nil coefficient exponent)
  | cons c rest =>
    rw [whole] at all
    exact ⟨c, _, all c mem_cons_self, rfl⟩

theorem read_finite (negative : Bool) : read (str (.finite negative coefficient exponent)) =
      some (.finite negative coefficient exponent) := by
  obtain ⟨c, rest, digit, text⟩ := magnitudeText_eq_cons coefficient exponent
  have literal := readLiteral_magnitudeText coefficient exponent
  have length := length_fractionDigits coefficient exponent
  have printed : str (.finite negative coefficient exponent) =
      signText negative ++ (c :: rest) := by
    rw [← text]
    rfl
  rw [text] at literal
  unfold read
  rw [printed, readSign_signText (noSignFirst_of_digit digit)]
  simp only
  split
  · exact absurd digit (by simp_all)
  · exact absurd digit (by simp_all)
  · exact absurd digit (by simp_all)
  · simp only [head?_cons, Option.map_some, digit, if_true, literal, Literal.coefficient,
      Literal.lastExponent, digitsValue_text, Option.some.injEq, finite.injEq, true_and]
    omega

theorem readPayload_digits (payload : ℕ) :
    readPayload (if payload = 0 then [] else digits payload) = some payload := by
  unfold readPayload
  split
  · rename_i zero
    rw [zero]
    rfl
  · rw [if_pos (allDigits_digits payload)]
    exact congrArg some Nat.ofDigitChars_ten_toDigits

/-- A decimal reads back from its text, digit for digit. -/
theorem read_str (decimal : Decimal) : read decimal.str = some decimal := by
  cases decimal with
  | finite negative coefficient exponent => exact read_finite coefficient exponent negative
  | infinity negative => cases negative <;> rfl
  | nan negative signaling payload =>
    have read_payload := readPayload_digits payload
    cases negative <;> cases signaling <;> simp [str, read, readSign, signText, read_payload]

end Decimal

/-- The shortest digits of a float, without trailing zeros. -/
structure ShortestDigits where
  coefficient : ℕ
  exponent : ℤ
  shortest : coefficient = 0 ∧ exponent = 0 ∨ coefficient % 10 ≠ 0
deriving DecidableEq

inductive PyFloat
  | finite (negative : Bool) (shortest : ShortestDigits)
  | infinity (negative : Bool)
  | nan
deriving DecidableEq

namespace ShortestDigits

variable (number : ShortestDigits)

def point : ℤ := (digits number.coefficient).length + number.exponent

/-- Very small and very large numbers are written with an exponent. -/
def usesExponent : Bool := number.point ≤ -4 ∨ 16 < number.point

def wholeText : List Char :=
  if number.usesExponent then (digits number.coefficient).take 1
  else if number.point ≤ 0 then ['0']
  else (digits number.coefficient).take number.point.toNat ++
    replicate (number.exponent.toNat) '0'

def fractionDigits : List Char :=
  if number.usesExponent then (digits number.coefficient).drop 1
  else if number.point ≤ 0 then
    replicate (-number.point).toNat '0' ++ digits number.coefficient
  else if (digits number.coefficient).length ≤ number.point then ['0']
  else (digits number.coefficient).drop number.point.toNat

def scaleText : List Char :=
  if number.usesExponent then 'e' :: exponentText 2 (number.point - 1) else []

def text : List Char :=
  number.wholeText ++ fractionText number.fractionDigits ++ number.scaleText

section

variable (number : ShortestDigits)

theorem allDigits_wholeText : AllDigits number.wholeText := by
  unfold wholeText
  split
  · exact (allDigits_digits _).take 1
  · split
    · exact allDigits_zeros 1
    · exact ((allDigits_digits _).take _).append (allDigits_zeros _)

theorem allDigits_fractionDigits : AllDigits number.fractionDigits := by
  unfold fractionDigits
  split
  · exact (allDigits_digits _).drop 1
  · split
    · exact (allDigits_zeros _).append (allDigits_digits _)
    · split
      · exact allDigits_zeros 1
      · exact (allDigits_digits _).drop _

theorem wholeText_ne_nil : number.wholeText ≠ [] := by
  have length := length_digits_pos number.coefficient
  unfold wholeText
  split
  · intro empty
    have counted := congrArg List.length empty
    simp only [List.length_take, List.length_nil] at counted
    omega
  · split
    · exact cons_ne_nil _ _
    · intro empty
      have counted := congrArg List.length empty
      simp only [List.length_append, List.length_take, List.length_replicate, List.length_nil] at counted
      omega

theorem noDigitFirst_scaleText : NoDigitFirst number.scaleText := by
  unfold scaleText
  split
  · exact noDigitFirst_cons (by decide)
  · exact noDigitFirst_nil

/-- The exponent that is written, or zero. -/
def scale : ℤ := if number.usesExponent then number.point - 1 else 0

theorem readExponent_scaleText : readExponent number.scaleText = some number.scale := by
  unfold scaleText scale
  split
  · simp only [readExponent, true_or, if_true, readInteger_exponentText]
  · rfl

theorem readLiteral_text : readLiteral number.text = some {
    whole := number.wholeText, fraction := number.fractionDigits, exponent := number.scale } :=
  readLiteral_append number.allDigits_wholeText number.allDigits_fractionDigits
    number.noDigitFirst_scaleText number.readExponent_scaleText

/-- The zeros a float is written with behind its digits: those up to the point, and one after. -/
def paddedZeros : ℕ :=
  if number.usesExponent ∨ number.point ≤ 0 then 0
  else if (digits number.coefficient).length ≤ number.point then number.exponent.toNat + 1
  else 0

theorem digitsValue_text : digitsValue (number.wholeText ++ number.fractionDigits) =
    number.coefficient * 10 ^ number.paddedZeros := by
  have spelled : digitsValue (digits number.coefficient) = number.coefficient :=
    Nat.ofDigitChars_ten_toDigits
  unfold wholeText fractionDigits paddedZeros
  by_cases exponent : number.usesExponent = true
  · simp only [exponent, if_true, true_or, take_append_drop, pow_zero, mul_one]
    exact spelled
  · by_cases small : number.point ≤ 0
    · have zeros : ['0'] ++ (replicate (-number.point).toNat '0' ++
          digits number.coefficient) = replicate ((-number.point).toNat + 1) '0' ++
            digits number.coefficient := by
        rw [replicate_succ]
        rfl
      simp only [exponent, small, if_true, or_true, pow_zero, mul_one, Bool.false_eq_true, if_false]
      rw [zeros, digitsValue_zeros_append]
      exact spelled
    · have place : number.point = (digits number.coefficient).length + number.exponent := rfl
      simp only [exponent, small, or_self, Bool.false_eq_true, if_false]
      split
      · have all : (digits number.coefficient).take number.point.toNat =
            digits number.coefficient := take_of_length_le (by omega)
        rw [all, append_assoc, ← replicate_succ', digitsValue_append_zeros, spelled]
      · have none_left : number.exponent.toNat = 0 := by omega
        rw [none_left, replicate_zero, append_nil, take_append_drop, spelled, pow_zero, mul_one]

theorem length_fractionDigits : (number.fractionDigits.length : ℤ) =
    number.scale - number.exponent + number.paddedZeros := by
  have length := length_digits_pos number.coefficient
  have place : number.point = (digits number.coefficient).length + number.exponent := rfl
  unfold fractionDigits scale paddedZeros
  by_cases exponent : number.usesExponent = true
  · simp only [exponent, if_true, true_or, length_drop]
    omega
  · by_cases small : number.point ≤ 0
    · simp only [exponent, small, if_true, or_true, Bool.false_eq_true, if_false,
        List.length_append, List.length_replicate]
      omega
    · simp only [exponent, small, or_self, Bool.false_eq_true, if_false]
      split
      · simp only [length_singleton]
        omega
      · simp only [length_drop]
        omega

theorem paddedZeros_le : number.paddedZeros ≤ number.wholeText.length + number.fractionDigits.length := by
  unfold paddedZeros
  split
  · exact Nat.zero_le _
  · rename_i plain
    obtain ⟨exponent, small⟩ := not_or.mp plain
    split
    · rename_i whole
      simp only [wholeText, fractionDigits, exponent, small, whole, Bool.false_eq_true, if_false,
        if_true, List.length_append, List.length_replicate, length_singleton]
      omega
    · exact Nat.zero_le _

end

end ShortestDigits

def trimZeros : (fuel coefficient : ℕ) → (exponent : ℤ) → ℕ × ℤ
  | 0, coefficient, exponent => (coefficient, exponent)
  | fuel + 1, coefficient, exponent =>
    if coefficient = 0 then (0, 0)
    else if coefficient % 10 = 0 then trimZeros fuel (coefficient / 10) (exponent + 1)
    else (coefficient, exponent)

theorem trimZeros_mul {fuel coefficient zeros : ℕ} (last : coefficient % 10 ≠ 0)
    (enough : zeros ≤ fuel) (exponent : ℤ) :
    trimZeros fuel (coefficient * 10 ^ zeros) exponent = (coefficient, exponent + zeros) := by
  induction zeros generalizing fuel exponent with
  | zero =>
    have positive : coefficient ≠ 0 := by
      rintro rfl
      exact last rfl
    cases fuel with
    | zero => simp [trimZeros]
    | succ fuel => simp [trimZeros, positive, last]
  | succ zeros ih =>
    obtain ⟨fuel, rfl⟩ : ∃ less, fuel = less + 1 := ⟨fuel - 1, by omega⟩
    have split_zero : coefficient * 10 ^ (zeros + 1) = coefficient * 10 ^ zeros * 10 := by ring
    have positive : coefficient * 10 ^ zeros * 10 ≠ 0 := by
      have some_digit : coefficient ≠ 0 := by
        rintro rfl
        exact last rfl
      positivity
    rw [split_zero, trimZeros, if_neg positive, if_pos (Nat.mul_mod_left _ _),
      Nat.mul_div_cancel _ (by decide), ih (by omega)]
    congr 1
    push_cast
    omega

theorem trimZeros_zero (fuel : ℕ) (exponent : ℤ) : trimZeros (fuel + 1) 0 exponent = (0, 0) := rfl

namespace PyFloat

def isFinite : PyFloat → Bool
  | .finite _ _ => true
  | .infinity _ => false
  | .nan => false

def value? : PyFloat → Option ℚ
  | .finite negative number =>
    some ((if negative then -1 else 1) * number.coefficient * 10 ^ number.exponent)
  | .infinity _ => none
  | .nan => none

/-- A finite float whose value is in a range. -/
def Within (range : ℚ → Prop) (value : PyFloat) : Prop := ∃ q ∈ value.value?, range q

instance (range : ℚ → Prop) [DecidablePred range] (value : PyFloat) :
    Decidable (value.Within range) :=
  match found : value.value? with
  | none => .isFalse (by simp [Within, found])
  | some q => decidable_of_iff (range q) (by simp [Within, found])

/-- `repr` of a float. -/
def repr : PyFloat → List Char
  | .finite negative shortest => signText negative ++ shortest.text
  | .infinity negative => signText negative ++ ['i', 'n', 'f']
  | .nan => ['n', 'a', 'n']

def ofLiteral (negative : Bool) (literal : Literal) : Option PyFloat :=
  let trimmed := trimZeros (literal.whole.length + literal.fraction.length + 1) literal.coefficient
    literal.lastExponent
  if shortest : trimmed.1 = 0 ∧ trimmed.2 = 0 ∨ trimmed.1 % 10 ≠ 0 then
    some (.finite negative { coefficient := trimmed.1, exponent := trimmed.2, shortest := shortest })
  else none

/-- `float` of the text of a finite float. -/
def read (text : List Char) : Option PyFloat :=
  (readLiteral (readSign text).2).bind (ofLiteral (readSign text).1)

theorem ofLiteral_text (negative : Bool) (number : ShortestDigits) :
    ofLiteral negative {
        whole := number.wholeText, fraction := number.fractionDigits, exponent := number.scale } =
      some (.finite negative number) := by
  have value := number.digitsValue_text
  have length := number.length_fractionDigits
  have enough := number.paddedZeros_le
  have trimmed : trimZeros (number.wholeText.length + number.fractionDigits.length + 1)
      (number.coefficient * 10 ^ number.paddedZeros)
      (number.scale - number.fractionDigits.length) =
        (number.coefficient, number.exponent) := by
    rcases number.shortest with ⟨zero, none_left⟩ | last
    · rw [zero, Nat.zero_mul, trimZeros_zero, none_left]
    · rw [trimZeros_mul last (by omega)]
      congr 1
      omega
  unfold ofLiteral
  simp only [Literal.coefficient, Literal.lastExponent, value, trimmed]
  rw [dif_pos number.shortest]

theorem read_repr (negative : Bool) (number : ShortestDigits) :
    read (repr (.finite negative number)) = some (.finite negative number) := by
  have unsigned : NoSignFirst number.text := by
    unfold ShortestDigits.text
    rw [append_assoc]
    exact noSignFirst_append _ number.allDigits_wholeText number.wholeText_ne_nil
  have literal := number.readLiteral_text
  unfold read repr
  simp only [readSign_signText unsigned, literal, Option.bind_some, ofLiteral_text]

theorem length_repr_pos (value : PyFloat) : 0 < value.repr.length := by
  cases value with
  | finite negative number =>
    have whole := length_pos_iff.mpr number.wholeText_ne_nil
    simp only [repr, ShortestDigits.text, List.length_append]
    omega
  | infinity negative => simp [repr]
  | nan => simp [repr]

end PyFloat

end FinDashboard.Text
