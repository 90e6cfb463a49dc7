import FinDashboard.Text.Numbers

/-!
# The strings and numbers of JSON

Strings are quoted, with quotes, backslashes and control characters escaped; a number goes on for as
long as its characters do, and is a float where it has a point or an exponent.
-/

namespace FinDashboard.Text

open List Char

def quote : Char := ofNat 34

def backslash : Char := ofNat 92

def hexDigit (n : ℕ) : Char := if n < 10 then ofNat (48 + n) else ofNat (87 + n)

def hexValue (c : Char) : ℕ := if c.isDigit then c.toNat - 48 else c.toNat - 87

/-- The letter of a control character that has one. -/
def escapeLetter (c : Char) : Option Char :=
  if c = ofNat 10 then some 'n'
  else if c = ofNat 13 then some 'r'
  else if c = ofNat 9 then some 't'
  else if c = ofNat 12 then some 'f'
  else if c = ofNat 8 then some 'b'
  else none

def escape (c : Char) : List Char :=
  if c = quote ∨ c = backslash then [backslash, c]
  else match escapeLetter c with
    | some letter => [backslash, letter]
    | none =>
      if c.toNat < 32 then
        [backslash, 'u', '0', '0', hexDigit (c.toNat / 16), hexDigit (c.toNat % 16)]
      else [c]

def stringText : List Char → List Char
  | [] => [quote]
  | c :: rest => escape c ++ stringText rest

/-- The character an escape stands for. -/
def unescape (letter : Char) : Char :=
  if letter = 'n' then ofNat 10
  else if letter = 'r' then ofNat 13
  else if letter = 't' then ofNat 9
  else if letter = 'f' then ofNat 12
  else if letter = 'b' then ofNat 8
  else letter

def readString : List Char → Option (List Char × List Char)
  | [] => none
  | c :: rest =>
    if c = quote then some ([], rest)
    else if c = backslash then
      match rest with
      | 'u' :: _ :: _ :: high :: low :: more =>
        (readString more).map fun found =>
          (ofNat (16 * hexValue high + hexValue low) :: found.1, found.2)
      | letter :: more => (readString more).map fun found => (unescape letter :: found.1, found.2)
      | [] => none
    else (readString rest).map fun found => (c :: found.1, found.2)

theorem hexValue_hexDigit : ∀ n < 16, hexValue (hexDigit n) = n := by decide

theorem readString_letter {letter : Char} (plain : letter ≠ 'u') (rest : List Char) :
    readString (backslash :: letter :: rest) =
      (readString rest).map fun found => (unescape letter :: found.1, found.2) := by
  have not_quote : backslash ≠ quote := by decide
  rw [readString, if_neg not_quote, if_pos rfl]
  intro _ _ _ _ _ same
  exact absurd same plain

/-- Control characters that have a letter come back from it. -/
theorem unescape_escapeLetter {c letter : Char} (found : escapeLetter c = some letter) :
    letter ≠ 'u' ∧ unescape letter = c := by
  unfold escapeLetter at found
  repeat' split at found
  all_goals cases found
  all_goals rename_i same
  all_goals rw [same]
  all_goals decide

theorem readString_escape (c : Char) (rest : List Char) : readString (escape c ++ rest) =
      (readString rest).map fun found => (c :: found.1, found.2) := by
  unfold escape
  split
  · rename_i same
    have itself : c ≠ 'u' ∧ unescape c = c := by
      rcases same with rfl | rfl
      · decide
      · decide
    rw [cons_append, cons_append, nil_append, readString_letter itself.1, itself.2]
  · rename_i special
    obtain ⟨not_quote, not_backslash⟩ := not_or.mp special
    split
    · rename_i letter found
      obtain ⟨plain, back⟩ := unescape_escapeLetter found
      rw [cons_append, cons_append, nil_append, readString_letter plain, back]
    · split
      · rename_i control
        have high := hexValue_hexDigit (c.toNat / 16) (by omega)
        have low := hexValue_hexDigit (c.toNat % 16) (by omega)
        have value : ofNat (16 * (c.toNat / 16) + c.toNat % 16) = c := by
          rw [Nat.div_add_mod]
          exact ofNat_toNat c
        have not_quote : backslash ≠ quote := by decide
        simp only [cons_append, nil_append]
        rw [readString.eq_def]
        simp only [if_neg not_quote, if_true, high, low, value]
      · rw [cons_append, nil_append, readString.eq_def]
        simp only [if_neg not_quote, if_neg not_backslash]

theorem readString_stringText (text rest : List Char) :
    readString (stringText text ++ rest) = some (text, rest) := by
  induction text with
  | nil =>
    rw [stringText, cons_append, readString.eq_def]
    rfl
  | cons c text ih =>
    rw [stringText, append_assoc, readString_escape, ih]
    rfl

def isNumberChar (c : Char) : Bool :=
  c.isDigit || c = '-' || c = '+' || c = '.' || c = 'e' || c = 'E'

/-- A float is told from an integer by its point or its exponent. -/
def isFloatChar (c : Char) : Bool := c = '.' || c = 'e' || c = 'E'

def AllNumber (text : List Char) : Prop := ∀ c ∈ text, isNumberChar c = true

/-- The text does not go on with a character of a number. -/
def NoNumberFirst (text : List Char) : Prop := ∀ c ∈ text.head?, isNumberChar c = false

def splitNumber : List Char → List Char × List Char
  | [] => ([], [])
  | c :: rest =>
    if isNumberChar c then (c :: (splitNumber rest).1, (splitNumber rest).2) else ([], c :: rest)

theorem splitNumber_append {front rest : List Char} (all : AllNumber front)
    (ends : NoNumberFirst rest) : splitNumber (front ++ rest) = (front, rest) := by
  induction front with
  | nil =>
    cases rest with
    | nil => rfl
    | cons c rest => simp [splitNumber, ends c (by simp)]
  | cons c front ih =>
    have now := all c mem_cons_self
    have later := ih fun d member => all d (mem_cons_of_mem _ member)
    simp [splitNumber, now, later]

theorem AllNumber.append {first second : List Char} (one : AllNumber first)
    (two : AllNumber second) : AllNumber (first ++ second) := by
  intro c member
  rcases mem_append.mp member with left | right
  · exact one c left
  · exact two c right

theorem AllDigits.allNumber {text : List Char} (all : AllDigits text) : AllNumber text := by
  intro c member
  simp [isNumberChar, all c member]

theorem AllNumber.cons {c : Char} {text : List Char} (first : isNumberChar c = true)
    (rest : AllNumber text) : AllNumber (c :: text) := by
  intro d member
  rcases mem_cons.mp member with rfl | later
  · exact first
  · exact rest d later

theorem allNumber_signText (negative : Bool) : AllNumber (signText negative) := by
  cases negative with
  | true => exact AllNumber.cons rfl nofun
  | false => nofun

theorem allNumber_exponentText (width : ℕ) (exponent : ℤ) : AllNumber (exponentText width exponent) := by
  unfold exponentText
  split
  · exact (allDigits_padded _ _).allNumber.cons rfl
  · exact (allDigits_padded _ _).allNumber.cons rfl

def integerText (n : ℤ) : List Char := signText (n < 0) ++ digits n.natAbs

theorem readInteger_integerText (n : ℤ) : readInteger (integerText n) = some n := by
  have unsigned : NoSignFirst (digits n.natAbs) := by
    have front := noSignFirst_append [] (allDigits_digits n.natAbs) (digits_ne_nil _)
    rwa [append_nil] at front
  have spelled : digitsValue (digits n.natAbs) = n.natAbs := Nat.ofDigitChars_ten_toDigits
  unfold readInteger integerText
  simp only [readSign_signText unsigned]
  rw [if_pos ⟨digits_ne_nil _, allDigits_digits _⟩, spelled]
  by_cases below : n < 0
  · simp only [below, decide_true, if_true, Option.some.injEq]
    omega
  · simp only [below, decide_false, Bool.false_eq_true, if_false, Option.some.injEq]
    omega

theorem allNumber_integerText (n : ℤ) : AllNumber (integerText n) :=
  (allNumber_signText _).append (allDigits_digits _).allNumber

theorem not_float_of_digit {c : Char} (digit : c.isDigit = true) : isFloatChar c = false := by
  unfold isFloatChar
  by_contra some_mark
  simp only [Bool.not_eq_false, Bool.or_eq_true, decide_eq_true_eq] at some_mark
  rcases some_mark with (rfl | rfl) | rfl
  all_goals exact absurd digit (by decide)

theorem no_float_integerText (n : ℤ) : (integerText n).any isFloatChar = false := by
  rw [any_eq_false]
  intro c member
  rcases mem_append.mp member with sign | digit
  · cases below : decide (n < 0) with
    | true =>
      rw [below] at sign
      rw [mem_singleton.mp sign]
      decide
    | false =>
      rw [below] at sign
      cases sign
  · rw [not_float_of_digit (allDigits_digits _ c digit)]
    decide

namespace ShortestDigits

variable (number : ShortestDigits)

theorem allNumber_text : AllNumber number.text := by
  have fraction : AllNumber (fractionText number.fractionDigits) := by
    unfold fractionText
    split
    · nofun
    · exact number.allDigits_fractionDigits.allNumber.cons rfl
  have scale : AllNumber number.scaleText := by
    unfold scaleText
    split
    · exact (allNumber_exponentText _ _).cons rfl
    · nofun
  exact (number.allDigits_wholeText.allNumber.append fraction).append scale

/-- A float without an exponent has a digit after its point. -/
theorem has_float_char : number.text.any isFloatChar = true := by
  have mark : ∀ c, isFloatChar c = true → c ∈ number.text →
      number.text.any isFloatChar = true := fun c isMark member =>
    any_eq_true.mpr ⟨c, member, isMark⟩
  by_cases exponent : number.usesExponent = true
  · apply mark 'e' rfl
    simp [text, scaleText, exponent]
  · have some_digit : number.fractionDigits ≠ [] := by
      have length := number.length_fractionDigits
      have some_whole := length_digits_pos number.coefficient
      have place : number.point = (digits number.coefficient).length + number.exponent := rfl
      intro none_left
      rw [none_left] at length
      unfold scale paddedZeros at length
      simp only [exponent, false_or, Bool.false_eq_true, if_false, length_nil] at length
      split_ifs at length <;> omega
    apply mark '.' rfl
    simp [text, fractionText, some_digit]

end ShortestDigits

end FinDashboard.Text
