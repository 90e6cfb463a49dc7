import Mathlib.Algebra.Order.Ring.Nat
import Mathlib.Data.List.Basic

/-!
# Decimal digits

Runs of decimal digits as texts write and read them: of any length, padded to a width, and split off
the front of a longer text.
-/

namespace FinDashboard.Text

open List

/-- A character in front of a text. -/
def expect (c : Char) : List Char → Option (List Char)
  | [] => none
  | d :: rest => if d = c then some rest else none

@[simp] theorem expect_cons (c : Char) (rest : List Char) : expect c (c :: rest) = some rest :=
  if_pos rfl

/-- The text of a natural number. -/
abbrev digits (n : ℕ) : List Char := Nat.toDigits 10 n

/-- The number a run of digits stands for. -/
abbrev digitsValue (text : List Char) : ℕ := Nat.ofDigitChars 10 text 0

def AllDigits (text : List Char) : Prop := ∀ c ∈ text, c.isDigit = true

instance (text : List Char) : Decidable (AllDigits text) :=
  decidableBAll (fun c : Char => c.isDigit = true) text

/-- Digits padded on the left with zeros. -/
def padded (width n : ℕ) : List Char :=
  replicate (width - (digits n).length) '0' ++ digits n

theorem allDigits_digits (n : ℕ) : AllDigits (digits n) := fun _ member =>
  Nat.isDigit_of_mem_toDigits (by decide) (by decide) member

theorem allDigits_zeros (count : ℕ) : AllDigits (replicate count '0') := by
  intro c member
  rw [(mem_replicate.mp member).2]
  rfl

theorem AllDigits.append {first second : List Char} (one : AllDigits first)
    (two : AllDigits second) : AllDigits (first ++ second) := by
  intro c member
  rcases mem_append.mp member with left | right
  · exact one c left
  · exact two c right

variable {text : List Char}

theorem AllDigits.take (all : AllDigits text) (count : ℕ) :
    AllDigits (text.take count) := fun c member => all c (mem_of_mem_take member)

theorem AllDigits.drop (all : AllDigits text) (count : ℕ) :
    AllDigits (text.drop count) := fun c member => all c (mem_of_mem_drop member)

theorem digits_ne_nil (n : ℕ) : digits n ≠ [] := Nat.toDigits_ne_nil

theorem length_digits_pos (n : ℕ) : 0 < (digits n).length := Nat.length_toDigits_pos

theorem digitsValue_zeros_append (count : ℕ) (text : List Char) :
    digitsValue (replicate count '0' ++ text) = digitsValue text := by
  simp [digitsValue, Nat.ofDigitChars_append]

theorem digitsValue_append_zeros (text : List Char) (count : ℕ) :
    digitsValue (text ++ replicate count '0') = digitsValue text * 10 ^ count := by
  simp [digitsValue, Nat.ofDigitChars_append, Nat.mul_comm]

theorem allDigits_padded (width n : ℕ) : AllDigits (padded width n) :=
  (allDigits_zeros _).append (allDigits_digits n)

theorem digitsValue_padded (width n : ℕ) : digitsValue (padded width n) = n := by
  simp [padded, digitsValue_zeros_append, digitsValue]

theorem length_padded {width n : ℕ} (positive : 0 < width) (fits : n < 10 ^ width) :
    (padded width n).length = width := by
  have short : (digits n).length ≤ width :=
    (Nat.length_toDigits_le_iff (by decide) positive).mpr fits
  simp only [padded, length_append, length_replicate]
  omega

def readPadded (width : ℕ) (text : List Char) : Option (ℕ × List Char) :=
  if (text.take width).length = width ∧ AllDigits (text.take width) then
    some (digitsValue (text.take width), text.drop width)
  else none

theorem readPadded_padded {width n : ℕ} (positive : 0 < width) (fits : n < 10 ^ width)
    (rest : List Char) : readPadded width (padded width n ++ rest) = some (n, rest) := by
  have length := length_padded positive fits
  have front : (padded width n ++ rest).take width = padded width n := by
    simp [length]
  have back : (padded width n ++ rest).drop width = rest := by
    simp [length]
  unfold readPadded
  rw [front, back, if_pos ⟨length, allDigits_padded width n⟩, digitsValue_padded]

/-- The text does not go on with a digit. -/
def NoDigitFirst (text : List Char) : Prop := ∀ c ∈ text.head?, c.isDigit = false

theorem noDigitFirst_nil : NoDigitFirst [] := nofun

theorem noDigitFirst_cons {c : Char} (other : c.isDigit = false) : NoDigitFirst (c :: text) := by
  intro d member
  obtain rfl : c = d := by simpa using member
  exact other

def splitDigits : List Char → List Char × List Char
  | [] => ([], [])
  | c :: rest =>
    if c.isDigit then (c :: (splitDigits rest).1, (splitDigits rest).2) else ([], c :: rest)

theorem splitDigits_append {front rest : List Char} (all : AllDigits front)
    (ends : NoDigitFirst rest) : splitDigits (front ++ rest) = (front, rest) := by
  induction front with
  | nil =>
    cases rest with
    | nil => rfl
    | cons c rest => simp [splitDigits, ends c (by simp)]
  | cons c front ih =>
    have now := all c mem_cons_self
    have later := ih fun d member => all d (mem_cons_of_mem _ member)
    simp [splitDigits, now, later]

end FinDashboard.Text
