import FinDashboard.Ledger.Dictionary
import FinDashboard.Text.JsonTokens
import Mathlib.Data.List.Sort
import Mathlib.Data.String.Basic

/-!
# JSON values and their texts

The compact text of a value, with the keys of every object in order, and reading it back: what is
read is the value with its keys in order. Infinite and undefined floats have no text.
-/

namespace FinDashboard.Text

open List

def openBrace : Char := Char.ofNat 123

def closeBrace : Char := Char.ofNat 125

inductive Json
  | null
  | bool (value : Bool)
  | int (value : ℤ)
  | float (value : PyFloat)
  | str (value : String)
  | arr (items : List Json)
  | obj (fields : List (String × Json))

namespace Json

def sortFields (fields : List (String × Json)) : List (String × Json) :=
  fields.insertionSort fun first second => first.1 ≤ second.1

mutual

/-- The value with the keys of every object in order. -/
def sorted : Json → Json
  | .null => .null
  | .bool value => .bool value
  | .int value => .int value
  | .float value => .float value
  | .str value => .str value
  | .arr items => .arr (sortedItems items)
  | .obj fields => .obj (sortFields (sortedFields fields))

def sortedItems : List Json → List Json
  | [] => []
  | item :: rest => item.sorted :: sortedItems rest

def sortedFields : List (String × Json) → List (String × Json)
  | [] => []
  | (key, value) :: rest => (key, value.sorted) :: sortedFields rest

end

def stringLiteral (value : String) : List Char := quote :: stringText value.toList

mutual

def text : Json → List Char
  | .null => ['n', 'u', 'l', 'l']
  | .bool true => ['t', 'r', 'u', 'e']
  | .bool false => ['f', 'a', 'l', 's', 'e']
  | .int value => integerText value
  | .float value => value.repr
  | .str value => stringLiteral value
  | .arr items => '[' :: itemsText items
  | .obj fields => openBrace :: fieldsText fields

def itemsText : List Json → List Char
  | [] => [']']
  | item :: rest => item.text ++ moreItemsText rest

def moreItemsText : List Json → List Char
  | [] => [']']
  | item :: rest => ',' :: (item.text ++ moreItemsText rest)

def fieldsText : List (String × Json) → List Char
  | [] => [closeBrace]
  | (key, value) :: rest => stringLiteral key ++ ':' :: (value.text ++ moreFieldsText rest)

def moreFieldsText : List (String × Json) → List Char
  | [] => [closeBrace]
  | (key, value) :: rest =>
    ',' :: (stringLiteral key ++ ':' :: (value.text ++ moreFieldsText rest))

end

mutual

def isFinite : Json → Bool
  | .null => true
  | .bool _ => true
  | .int _ => true
  | .float value => value.isFinite
  | .str _ => true
  | .arr items => itemsFinite items
  | .obj fields => fieldsFinite fields

def itemsFinite : List Json → Bool
  | [] => true
  | item :: rest => item.isFinite && itemsFinite rest

def fieldsFinite : List (String × Json) → Bool
  | [] => true
  | (_, value) :: rest => value.isFinite && fieldsFinite rest

end

/-- `json.dumps` with its keys sorted, compact separators and no infinite or undefined floats. -/
def dumps (value : Json) : Option (List Char) :=
  if value.isFinite then some value.sorted.text else none

def readWord (word : List Char) (value : Json) (text : List Char) : Option (Json × List Char) :=
  if text.take word.length = word then some (value, text.drop word.length) else none

def readNumber (text : List Char) : Option (Json × List Char) :=
  let token := splitNumber text
  if token.1.any isFloatChar then (PyFloat.read token.1).map fun value => (.float value, token.2)
  else (readInteger token.1).map fun value => (.int value, token.2)

mutual

def readValue : (fuel : ℕ) → List Char → Option (Json × List Char)
  | 0, _ => none
  | _ + 1, [] => none
  | fuel + 1, c :: rest =>
    if c = quote then
      (readString rest).map fun found => (.str (String.ofList found.1), found.2)
    else if c = '[' then (readItems fuel rest).map fun found => (.arr found.1, found.2)
    else if c = openBrace then (readFields fuel rest).map fun found => (.obj found.1, found.2)
    else if c = 'n' then readWord ['u', 'l', 'l'] .null rest
    else if c = 't' then readWord ['r', 'u', 'e'] (.bool true) rest
    else if c = 'f' then readWord ['a', 'l', 's', 'e'] (.bool false) rest
    else readNumber (c :: rest)

def readItems : (fuel : ℕ) → List Char → Option (List Json × List Char)
  | 0, _ => none
  | fuel + 1, text =>
    match expect ']' text with
    | some more => some ([], more)
    | none =>
      (readValue fuel text).bind fun found =>
        (readMoreItems fuel found.2).map fun items => (found.1 :: items.1, items.2)

def readMoreItems : (fuel : ℕ) → List Char → Option (List Json × List Char)
  | 0, _ => none
  | _ + 1, [] => none
  | fuel + 1, c :: rest =>
    if c = ']' then some ([], rest)
    else if c = ',' then
      (readValue fuel rest).bind fun found =>
        (readMoreItems fuel found.2).map fun items => (found.1 :: items.1, items.2)
    else none

def readFields : (fuel : ℕ) → List Char → Option (List (String × Json) × List Char)
  | 0, _ => none
  | fuel + 1, text =>
    match expect closeBrace text with
    | some more => some ([], more)
    | none => readField fuel text

def readMoreFields : (fuel : ℕ) → List Char → Option (List (String × Json) × List Char)
  | 0, _ => none
  | _ + 1, [] => none
  | fuel + 1, c :: rest =>
    if c = closeBrace then some ([], rest) else if c = ',' then readField fuel rest else none

def readField : (fuel : ℕ) → List Char → Option (List (String × Json) × List Char)
  | 0, _ => none
  | fuel + 1, text =>
    (expect quote text).bind fun text =>
      (readString text).bind fun key =>
        (expect ':' key.2).bind fun text =>
          (readValue fuel text).bind fun found =>
            (readMoreFields fuel found.2).map fun fields =>
              ((String.ofList key.1, found.1) :: fields.1, fields.2)

end

/-- `json.loads`: a value that fills the text. -/
def loads (text : List Char) : Option Json :=
  match readValue (4 * text.length + 1) text with
  | some (value, []) => some value
  | _ => none

mutual

def size : Json → ℕ
  | .null => 1
  | .bool _ => 1
  | .int _ => 1
  | .float _ => 1
  | .str _ => 1
  | .arr items => 1 + itemsSize items
  | .obj fields => 1 + fieldsSize fields

def itemsSize : List Json → ℕ
  | [] => 1
  | item :: rest => 1 + item.size + itemsSize rest

def fieldsSize : List (String × Json) → ℕ
  | [] => 1
  | (_, value) :: rest => 2 + value.size + fieldsSize rest

end

variable {value : Json}

section Leaves

variable {front rest : List Char} {c : Char} {fuel : ℕ}

theorem isNumberChar_ne (number : isNumberChar c = true) :
    c ≠ quote ∧ c ≠ '[' ∧ c ≠ openBrace ∧ c ≠ 'n' ∧ c ≠ 't' ∧ c ≠ 'f' ∧ c ≠ ']' := by
  refine ⟨?_, ?_, ?_, ?_, ?_, ?_, ?_⟩
  all_goals
    rintro rfl
    exact absurd number (by decide)

theorem readValue_number (all : AllNumber (c :: front)) (ends : NoNumberFirst rest) :
    readValue (fuel + 1) (c :: front ++ rest) = if (c :: front).any isFloatChar then
        (PyFloat.read (c :: front)).map fun value => (.float value, rest)
      else (readInteger (c :: front)).map fun value => (.int value, rest) := by
  obtain ⟨not_quote, not_bracket, not_brace, not_n, not_t, not_f, -⟩ :=
    isNumberChar_ne (all c mem_cons_self)
  have split := splitNumber_append all ends
  rw [cons_append] at split ⊢
  rw [readValue, if_neg not_quote, if_neg not_bracket, if_neg not_brace, if_neg not_n,
    if_neg not_t, if_neg not_f]
  unfold readNumber
  rw [split]

theorem integerText_eq_cons (n : ℤ) : ∃ c front, integerText n = c :: front := by
  cases found : integerText n with
  | nil =>
    have some_digit := digits_ne_nil n.natAbs
    exact absurd (append_eq_nil_iff.mp found).2 some_digit
  | cons c front => exact ⟨c, front, rfl⟩

theorem readValue_int (value : ℤ) (ends : NoNumberFirst rest) :
    readValue (fuel + 1) (integerText value ++ rest) = some (.int value, rest) := by
  have all := allNumber_integerText value
  have plain := no_float_integerText value
  have read := readInteger_integerText value
  obtain ⟨c, front, found⟩ := integerText_eq_cons value
  rw [found] at all plain read ⊢
  rw [readValue_number all ends, plain, if_neg (by decide), read, Option.map_some]

theorem readValue_float {value : PyFloat} (finite : value.isFinite = true) (ends : NoNumberFirst rest) :
    readValue (fuel + 1) (value.repr ++ rest) = some (.float value, rest) := by
  cases value with
  | infinity negative => cases finite
  | nan => cases finite
  | finite negative number =>
    have all : AllNumber (PyFloat.finite negative number).repr :=
      (allNumber_signText negative).append number.allNumber_text
    have mark : (PyFloat.finite negative number).repr.any isFloatChar = true := by
      rw [PyFloat.repr, any_append, number.has_float_char, Bool.or_true]
    have read := PyFloat.read_repr negative number
    cases found : (PyFloat.finite negative number).repr with
    | nil =>
      rw [found] at mark
      cases mark
    | cons c front =>
      rw [found] at all mark read
      rw [readValue_number all ends, mark, if_pos rfl, read, Option.map_some]

theorem readString_literal (value : String) (rest : List Char) :
    readString (stringText value.toList ++ rest) = some (value.toList, rest) :=
  readString_stringText value.toList rest

theorem readValue_str (value : String) :
    readValue (fuel + 1) (stringLiteral value ++ rest) = some (.str value, rest) := by
  unfold stringLiteral
  rw [cons_append, readValue, if_pos rfl, readString_literal]
  simp only [Option.map_some, String.ofList_toList]

theorem noNumberFirst_cons (other : isNumberChar c = false) : NoNumberFirst (c :: rest) := by
  intro d member
  obtain rfl : c = d := by simpa using member
  exact other

theorem noNumberFirst_moreItems (items : List Json) (rest : List Char) :
    NoNumberFirst (moreItemsText items ++ rest) := by
  cases items with
  | nil => exact noNumberFirst_cons rfl
  | cons item items => exact noNumberFirst_cons rfl

theorem noNumberFirst_moreFields (fields : List (String × Json)) (rest : List Char) :
    NoNumberFirst (moreFieldsText fields ++ rest) := by
  cases fields with
  | nil => exact noNumberFirst_cons rfl
  | cons field fields => exact noNumberFirst_cons rfl

theorem expect_bracket_text (finite : value.isFinite = true) (rest : List Char) :
    expect ']' (value.text ++ rest) = none := by
  have number : ∀ text, AllNumber text → text ≠ [] → expect ']' (text ++ rest) = none := by
    intro text all some_char
    cases text with
    | nil => exact absurd rfl some_char
    | cons c text => exact if_neg (isNumberChar_ne (all c mem_cons_self)).2.2.2.2.2.2
  cases value with
  | null => rfl
  | bool value => cases value <;> rfl
  | int value =>
    obtain ⟨c, front, found⟩ := integerText_eq_cons value
    exact number _ (allNumber_integerText value) (by simp [text, found])
  | float value =>
    cases value with
    | infinity negative => cases finite
    | nan => cases finite
    | finite negative shortest =>
      apply number _ ((allNumber_signText negative).append shortest.allNumber_text)
      have mark := shortest.has_float_char
      intro empty
      rw [(append_eq_nil_iff.mp empty).2] at mark
      cases mark
  | str value => rfl
  | arr items => rfl
  | obj fields => rfl

end Leaves

mutual

theorem readValue_text (value : Json) (fuel : ℕ) (rest : List Char)
    (finite : value.isFinite = true) (enough : value.size ≤ fuel) (ends : NoNumberFirst rest) :
    readValue fuel (value.text ++ rest) = some (value, rest) := by
  obtain ⟨fuel, rfl⟩ : ∃ less, fuel = less + 1 := by
    cases value <;> exact ⟨fuel - 1, by simp only [size] at enough; omega⟩
  match value with
  | .null => rfl
  | .bool true => rfl
  | .bool false => rfl
  | .int value => exact readValue_int value ends
  | .float value => exact readValue_float finite ends
  | .str value => exact readValue_str value
  | .arr items =>
    have read := readItems_text items fuel rest finite
      (by simp only [size] at enough; omega)
    rw [text, cons_append, readValue, if_neg (by decide), if_pos rfl, read, Option.map_some]
  | .obj fields =>
    have read := readFields_text fields fuel rest finite
      (by simp only [size] at enough; omega)
    rw [text, cons_append, readValue, if_neg (by decide), if_neg (by decide), if_pos rfl, read,
      Option.map_some]

theorem readItems_text (items : List Json) (fuel : ℕ) (rest : List Char)
    (finite : itemsFinite items = true) (enough : itemsSize items ≤ fuel) :
    readItems fuel (itemsText items ++ rest) = some (items, rest) := by
  match items with
  | [] =>
    obtain ⟨fuel, rfl⟩ : ∃ less, fuel = less + 1 :=
      ⟨fuel - 1, by simp only [itemsSize] at enough; omega⟩
    rfl
  | item :: items =>
    simp only [itemsSize] at enough
    obtain ⟨fuel, rfl⟩ : ∃ less, fuel = less + 1 := ⟨fuel - 1, by omega⟩
    obtain ⟨first, others⟩ := Bool.and_eq_true_iff.mp finite
    have value := readValue_text item fuel _ first (by omega)
      (noNumberFirst_moreItems items rest)
    have more := readMoreItems_text items fuel rest others (by omega)
    rw [itemsText, append_assoc, readItems, expect_bracket_text first]
    simp only [value, more, Option.bind_some, Option.map_some]

theorem readMoreItems_text (items : List Json) (fuel : ℕ) (rest : List Char)
    (finite : itemsFinite items = true) (enough : itemsSize items ≤ fuel) :
    readMoreItems fuel (moreItemsText items ++ rest) = some (items, rest) := by
  match items with
  | [] =>
    obtain ⟨fuel, rfl⟩ : ∃ less, fuel = less + 1 :=
      ⟨fuel - 1, by simp only [itemsSize] at enough; omega⟩
    rfl
  | item :: items =>
    simp only [itemsSize] at enough
    obtain ⟨fuel, rfl⟩ : ∃ less, fuel = less + 1 := ⟨fuel - 1, by omega⟩
    obtain ⟨first, others⟩ := Bool.and_eq_true_iff.mp finite
    have value := readValue_text item fuel _ first (by omega)
      (noNumberFirst_moreItems items rest)
    have more := readMoreItems_text items fuel rest others (by omega)
    rw [moreItemsText, cons_append, append_assoc, readMoreItems, if_neg (by decide), if_pos rfl]
    simp only [value, more, Option.bind_some, Option.map_some]

theorem readFields_text (fields : List (String × Json)) (fuel : ℕ) (rest : List Char)
    (finite : fieldsFinite fields = true) (enough : fieldsSize fields ≤ fuel) :
    readFields fuel (fieldsText fields ++ rest) = some (fields, rest) := by
  match fields with
  | [] =>
    obtain ⟨fuel, rfl⟩ : ∃ less, fuel = less + 1 :=
      ⟨fuel - 1, by simp only [fieldsSize] at enough; omega⟩
    rfl
  | (key, value) :: fields =>
    simp only [fieldsSize] at enough
    obtain ⟨fuel, rfl⟩ : ∃ less, fuel = less + 2 := ⟨fuel - 2, by omega⟩
    obtain ⟨first, others⟩ := Bool.and_eq_true_iff.mp finite
    have found := readValue_text value fuel _ first (by omega)
      (noNumberFirst_moreFields fields rest)
    have more := readMoreFields_text fields fuel rest others (by omega)
    have field : readField (fuel + 1) (stringLiteral key ++ ':' :: (value.text ++
        (moreFieldsText fields ++ rest))) = some ((key, value) :: fields, rest) := by
      simp only [readField, stringLiteral, cons_append, expect_cons, Option.bind_some,
        readString_literal, found, more, Option.map_some, String.ofList_toList]
    rw [fieldsText, append_assoc, cons_append, append_assoc, readFields]
    exact field

theorem readMoreFields_text (fields : List (String × Json)) (fuel : ℕ) (rest : List Char)
    (finite : fieldsFinite fields = true) (enough : fieldsSize fields ≤ fuel) :
    readMoreFields fuel (moreFieldsText fields ++ rest) = some (fields, rest) := by
  match fields with
  | [] =>
    obtain ⟨fuel, rfl⟩ : ∃ less, fuel = less + 1 :=
      ⟨fuel - 1, by simp only [fieldsSize] at enough; omega⟩
    rfl
  | (key, value) :: fields =>
    simp only [fieldsSize] at enough
    obtain ⟨fuel, rfl⟩ : ∃ less, fuel = less + 2 := ⟨fuel - 2, by omega⟩
    obtain ⟨first, others⟩ := Bool.and_eq_true_iff.mp finite
    have found := readValue_text value fuel _ first (by omega)
      (noNumberFirst_moreFields fields rest)
    have more := readMoreFields_text fields fuel rest others (by omega)
    rw [moreFieldsText, cons_append, append_assoc, cons_append, append_assoc,
      readMoreFields, if_neg (by decide), if_pos rfl]
    simp only [readField, stringLiteral, cons_append, expect_cons, Option.bind_some,
      readString_literal, found, more, Option.map_some, String.ofList_toList]

end

mutual

theorem size_lt_length (value : Json) : value.size < 4 * value.text.length := by
  match value with
  | .null => decide
  | .bool true => decide
  | .bool false => decide
  | .int value =>
    obtain ⟨c, front, found⟩ := integerText_eq_cons value
    simp only [size, text, found, length_cons]
    omega
  | .float value =>
    have some_char := value.length_repr_pos
    simp only [size, text]
    omega
  | .str value =>
    simp only [size, text, stringLiteral, length_cons]
    omega
  | .arr items =>
    have inside := itemsSize_le_length items
    simp only [size, text, length_cons]
    omega
  | .obj fields =>
    have inside := fieldsSize_le_length fields
    simp only [size, text, length_cons]
    omega

theorem itemsSize_le_length (items : List Json) : itemsSize items ≤ 4 * (itemsText items).length ∧
      itemsSize items ≤ 4 * (moreItemsText items).length := by
  match items with
  | [] => decide
  | item :: items =>
    have first := size_lt_length item
    have others := itemsSize_le_length items
    simp only [itemsSize, itemsText, moreItemsText, length_append, length_cons]
    omega

theorem fieldsSize_le_length (fields : List (String × Json)) :
    fieldsSize fields ≤ 4 * (fieldsText fields).length ∧
      fieldsSize fields ≤ 4 * (moreFieldsText fields).length := by
  match fields with
  | [] => decide
  | (key, value) :: fields =>
    have first := size_lt_length value
    have others := fieldsSize_le_length fields
    simp only [fieldsSize, fieldsText, moreFieldsText, stringLiteral, length_append, length_cons]
    omega

end

/-- The text of a value without infinite or undefined floats reads back. -/
theorem loads_text (finite : value.isFinite = true) : loads value.text = some value := by
  have enough := size_lt_length value
  have read := readValue_text value (4 * value.text.length + 1) [] finite
    (by omega) nofun
  rw [append_nil] at read
  unfold loads
  rw [read]

theorem fieldsFinite_eq_all (fields : List (String × Json)) :
    fieldsFinite fields = fields.all fun field => field.2.isFinite := by
  induction fields with
  | nil => rfl
  | cons field fields ih => rw [fieldsFinite, all_cons, ih]

mutual

theorem isFinite_sorted (value : Json) : value.sorted.isFinite = value.isFinite := by
  match value with
  | .null => rfl
  | .bool _ => rfl
  | .int _ => rfl
  | .float _ => rfl
  | .str _ => rfl
  | .arr items => exact itemsFinite_sorted items
  | .obj fields =>
    have same := fieldsFinite_sorted fields
    have perm := perm_insertionSort (fun first second : String × Json => first.1 ≤ second.1)
      (sortedFields fields)
    simp only [sorted, isFinite, sortFields]
    rw [fieldsFinite_eq_all, perm.all_eq, ← fieldsFinite_eq_all, same]

theorem itemsFinite_sorted (items : List Json) : itemsFinite (sortedItems items) = itemsFinite items := by
  match items with
  | [] => rfl
  | item :: items =>
    simp only [sortedItems, itemsFinite, isFinite_sorted item, itemsFinite_sorted items]

theorem fieldsFinite_sorted (fields : List (String × Json)) :
    fieldsFinite (sortedFields fields) = fieldsFinite fields := by
  match fields with
  | [] => rfl
  | (key, value) :: fields =>
    simp only [sortedFields, fieldsFinite, isFinite_sorted value, fieldsFinite_sorted fields]

end

/-- What `dumps` writes, `loads` reads with its keys in order. -/
theorem loads_dumps {text : List Char} (written : value.dumps = some text) :
    loads text = some value.sorted := by
  unfold dumps at written
  split at written
  · rename_i finite
    cases written
    rw [← isFinite_sorted] at finite
    exact loads_text finite
  · cases written

theorem sortedFields_eq_map (fields : List (String × Json)) :
    sortedFields fields = fields.map fun field => (field.1, field.2.sorted) := by
  induction fields with
  | nil => rfl
  | cons field fields ih => rw [sortedFields, map_cons, ih]

theorem sortFields_sortFields (fields : List (String × Json)) :
    sortFields (sortFields fields) = sortFields fields :=
  List.Pairwise.insertionSort_eq (pairwise_insertionSort _ fields)

theorem sortFields_sortedFields (fields : List (String × Json)) : sortFields (sortedFields fields) =
      (sortFields fields).map fun field => (field.1, field.2.sorted) := by
  rw [sortedFields_eq_map]
  exact (map_insertionSort (fun first second : String × Json => first.1 ≤ second.1)
    (fun first second : String × Json => first.1 ≤ second.1) (fun field => (field.1, field.2.sorted))
    fields fun _ _ _ _ => Iff.rfl).symm

mutual

/-- Ordering the keys twice changes nothing more. -/
theorem sorted_sorted (value : Json) : value.sorted.sorted = value.sorted := by
  match value with
  | .null => rfl
  | .bool _ => rfl
  | .int _ => rfl
  | .float _ => rfl
  | .str _ => rfl
  | .arr items =>
    have inside := sortedItems_sortedItems items
    simp only [sorted, inside]
  | .obj fields =>
    have inside := sortedFields_sortedFields fields
    have moved := sortFields_sortedFields (sortFields (sortedFields fields))
    rw [sortFields_sortFields, ← sortFields_sortedFields, inside] at moved
    simp only [sorted, moved]

theorem sortedItems_sortedItems (items : List Json) :
    sortedItems (sortedItems items) = sortedItems items := by
  match items with
  | [] => rfl
  | item :: items =>
    have first := sorted_sorted item
    have others := sortedItems_sortedItems items
    simp only [sortedItems, first, others]

theorem sortedFields_sortedFields (fields : List (String × Json)) :
    sortedFields (sortedFields fields) = sortedFields fields := by
  match fields with
  | [] => rfl
  | (key, value) :: fields =>
    have first := sorted_sorted value
    have others := sortedFields_sortedFields fields
    simp only [sortedFields, first, others]

end

/-- What is read back has the text it was read from. -/
theorem dumps_sorted (value : Json) : value.sorted.dumps = value.dumps := by
  unfold dumps
  rw [isFinite_sorted, sorted_sorted]

/-- A key finds the same value before and after the keys are put in order. -/
theorem find_sorted {fields : List (String × Json)} (apart : (fields.map (·.1)).Nodup)
    (key : String) : Ledger.find key (sortFields (sortedFields fields)) =
      (Ledger.find key fields).map sorted := by
  have perm := perm_insertionSort (fun first second : String × Json => first.1 ≤ second.1)
    (sortedFields fields)
  have keys : (sortedFields fields).map (·.1) = fields.map (·.1) := by
    rw [sortedFields_eq_map, map_map]
    rfl
  have apart' : ((sortedFields fields).map (·.1)).Nodup := by
    rw [keys]
    exact apart
  unfold sortFields
  rw [Ledger.find_perm apart' perm.symm, sortedFields_eq_map, Ledger.find_map]

/-- Finite values have one text exactly when they are the same with their keys in order. -/
theorem dumps_eq_iff {first second : Json} (finite : first.isFinite) :
    first.dumps = second.dumps ↔ first.sorted = second.sorted := by
  constructor
  · intro same
    have written : ∃ text, first.dumps = some text := by simp [dumps, finite]
    obtain ⟨text, written⟩ := written
    have read := loads_dumps written
    have read' := loads_dumps (same ▸ written)
    rw [read] at read'
    exact Option.some.inj read'
  · intro same
    rw [← dumps_sorted first, same, dumps_sorted]

end Json

end FinDashboard.Text
