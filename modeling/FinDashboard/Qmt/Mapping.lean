import FinDashboard.Shared.Models
import FinDashboard.Text.JsonTokens
import Mathlib.Data.List.DropRight
import Mathlib.Data.Rat.Floor

/-!
# Objects of the QMT client

The client hands out objects of its own, read attribute by attribute. An order carries the local
order id in its remark, which holds 24 characters: the id without its prefix and separators.
-/

namespace FinDashboard.Qmt

open Text List

/-- The value of an attribute. -/
inductive XtValue
  | int (value : ℤ)
  | float (value : PyFloat)
  | text (value : List Char)
deriving DecidableEq

namespace XtValue

/-- `str` of a value. -/
def str : XtValue → List Char
  | .int value => integerText value
  | .float value => value.repr
  | .text value => value

/-- `int` of a value; `none` where it raises. -/
def int? : XtValue → Option ℤ
  | .int value => some value
  | .float value => value.value?.map fun q => if q < 0 then ⌈q⌉ else ⌊q⌋
  | .text value => readInteger value

/-- `Decimal(str(value))`; `none` where it raises or the decimal is not finite. The decimal of a
float is the number its shortest digits name. -/
def decimal? : XtValue → Option ℚ
  | .int value => some value
  | .float value => value.value?
  | .text value => (Decimal.read value).bind Decimal.value?

end XtValue

/-- An object of the client: the attributes it has that are not `None`. -/
abbrev XtObject : Type := String → Option XtValue

/-- The older spellings of an attribute. -/
def olderPrefixes : List String := ["m_d", "m_n", "m_s", "m_"]

/-- `_field`: the attribute under its own name, or under the first older spelling. -/
def field (object : XtObject) (name : String) : Option XtValue :=
  (name :: olderPrefixes.map (· ++ name.capitalize)).findSome? object

/-- `str(_field(object, name, ""))`. -/
def fieldText (object : XtObject) (name : String) : List Char :=
  ((field object name).map XtValue.str).getD []

/-- `int(_field(object, name, default))`. -/
def fieldInt (object : XtObject) (name : String) (default : ℤ) : Option ℤ :=
  ((field object name).map XtValue.int?).getD (some default)

/-- `_to_decimal(_field(object, name))`. -/
def fieldDecimal (object : XtObject) (name : String) : Option ℚ :=
  ((field object name).map XtValue.decimal?).getD (some 0)

def xtOrderStatusMap : List (ℤ × OrderStatus) :=
  [ (48, .created), (49, .submitting), (50, .acknowledged), (51, .cancelPending),
    (52, .cancelPending), (53, .cancelled), (54, .cancelled), (55, .partiallyFilled),
    (56, .filled), (57, .rejected), (255, .unknown) ]

def xtOrderStatusToFinboard (statusCode : ℤ) : OrderStatus :=
  (xtOrderStatusMap.lookup statusCode).getD .unknown

def xtStockBuy : ℤ := 23
def xtStockSell : ℤ := 24
def xtFixPrice : ℤ := 11
def xtLatestPrice : ℤ := 5

def xtOrderTypeToSide (orderType : ℤ) : Side := if orderType = 24 then .sell else .buy

def isLimitPrice (priceType : ℤ) : Bool := priceType = 11

/-- Every branch of `_guess_market` answers the same market. -/
def guessMarket (_stockCode : List Char) : Market := .aShare

def sideToXtOrderType : Side → ℤ
  | .sell => xtStockSell
  | .buy => xtStockBuy

def orderTypeToXtPriceType : OrderType → ℤ
  | .market => xtLatestPrice
  | .limit => xtFixPrice

/-- `split` at a separator, at most so many times. -/
def splitAtMost (separator : Char) : ℕ → List Char → List (List Char)
  | 0, text => [text]
  | count + 1, text =>
    match text.dropWhile (· ≠ separator) with
    | [] => [text]
    | _ :: rest => text.takeWhile (· ≠ separator) :: splitAtMost separator count rest

/-- An id that is not of the generated form is cut to the length of a remark. -/
def encodeOrderRemark (clientOrderId : List Char) : List Char :=
  match splitAtMost '-' 2 clientOrderId with
  | [front, date, suffix] =>
    if front = ['F'] then (date ++ suffix).take 24 else clientOrderId.take 24
  | _ => clientOrderId.take 24

def strip (text : List Char) : List Char :=
  (text.dropWhile Char.isWhitespace).rdropWhile Char.isWhitespace

/-- A remark of another form is read as it stands. -/
def decodeOrderRemark (remark : List Char) : List Char :=
  let stripped := strip remark
  if stripped.length = 24 ∧ AllDigits (stripped.take 8) then
    'F' :: '-' :: stripped.take 8 ++ '-' :: stripped.drop 8
  else stripped

/-- The local id a remark names; an empty remark names none. -/
def remarkOrderId (remark : List Char) : List Char :=
  if remark = [] then [] else decodeOrderRemark remark

def isHexDigit (c : Char) : Bool := c.isDigit || ('a' ≤ c && c ≤ 'f')

/-- What `generate_client_order_id` returns: the date in UTC and 16 random hexadecimal digits. -/
structure GeneratedId where
  today : List Char
  suffix : List Char
  today_length : today.length = 8
  today_digits : AllDigits today
  suffix_length : suffix.length = 16
  suffix_hex : ∀ c ∈ suffix, isHexDigit c = true
deriving DecidableEq

def GeneratedId.text (id : GeneratedId) : List Char :=
  'F' :: '-' :: id.today ++ '-' :: id.suffix

/-- `xt_order_to_order`; `none` where it raises, as for an order without a code. -/
def xtOrderToOrder (accountId : AccountId) (order : XtObject) : Option Order := do
  let stockCode := fieldText order "stock_code"
  let statusCode ← fieldInt order "order_status" 255
  let clientOrderId := remarkOrderId (fieldText order "order_remark")
  if stockCode = [] then none else
  let orderType ← fieldInt order "order_type" 23
  let priceType ← fieldInt order "price_type" 11
  let orderVolume ← fieldDecimal order "order_volume"
  let price ← fieldDecimal order "price"
  let tradedVolume ← fieldDecimal order "traded_volume"
  let tradedPrice ← fieldDecimal order "traded_price"
  some {
    clientOrderId := String.ofList clientOrderId
    accountId
    symbol := { code := String.ofList stockCode, market := guessMarket stockCode }
    side := xtOrderTypeToSide orderType
    orderType := if isLimitPrice priceType then .limit else .market
    quantity := orderVolume
    price := some price
    brokerOrderId := some (String.ofList (fieldText order "order_id"))
    filledQuantity := tradedVolume
    averageFillPrice := if tradedPrice = 0 then none else some tradedPrice
    status := xtOrderStatusToFinboard statusCode }

/-- A fill together with the order number the broker reports it under. -/
structure ReportedFill extends Fill where
  brokerOrderId : Option String
deriving DecidableEq

/-- `xt_trade_to_fill`; `none` where it raises. -/
def xtTradeToFill (now : ℤ) (trade : XtObject) : Option ReportedFill := do
  let stockCode := fieldText trade "stock_code"
  let clientOrderId := remarkOrderId (fieldText trade "order_remark")
  if stockCode = [] then none else
  let orderType ← fieldInt trade "order_type" xtStockBuy
  let tradedVolume ← fieldDecimal trade "traded_volume"
  let tradedPrice ← fieldDecimal trade "traded_price"
  let orderId := fieldText trade "order_id"
  some {
    fillId := String.ofList (fieldText trade "filled_id")
    clientOrderId := String.ofList clientOrderId
    symbol := { code := String.ofList stockCode, market := guessMarket stockCode }
    side := xtOrderTypeToSide orderType
    quantity := tradedVolume
    price := tradedPrice
    filledAt := now
    brokerOrderId := if orderId = [] then none else some (String.ofList orderId) }

theorem splitAtMost_cons {separator : Char} {front : List Char} (count : ℕ) (rest : List Char)
    (free : ∀ c ∈ front, c ≠ separator) : splitAtMost separator (count + 1) (front ++ separator :: rest) =
      front :: splitAtMost separator count rest := by
  have passed : ∀ c ∈ front, decide (c ≠ separator) = true := by
    simpa using free
  have after : (front ++ separator :: rest).dropWhile (· ≠ separator) = separator :: rest := by
    rw [dropWhile_append_of_pos passed]
    simp
  have before : (front ++ separator :: rest).takeWhile (· ≠ separator) = front := by
    rw [takeWhile_append_of_pos passed]
    simp
  simp only [splitAtMost, after, before]

theorem ne_dash_of_allDigits {text : List Char} (all : AllDigits text) : ∀ c ∈ text, c ≠ '-' := by
  rintro c member rfl
  exact absurd (all _ member) (by decide)

theorem not_isWhitespace_of_isHexDigit {c : Char} (hex : isHexDigit c = true) :
    c.isWhitespace = false := by
  by_contra blank
  have cases : c = ' ' ∨ c = '\t' ∨ c = '\r' ∨ c = '\n' := by
    rw [Bool.not_eq_false] at blank
    grind [Char.isWhitespace]
  rcases cases with rfl | rfl | rfl | rfl <;> exact absurd hex (by decide)

namespace GeneratedId

variable (id : GeneratedId)

theorem encode_text : encodeOrderRemark id.text = id.today ++ id.suffix := by
  have dashes := ne_dash_of_allDigits id.today_digits
  have first : splitAtMost '-' 2 id.text = ['F'] :: splitAtMost '-' 1 (id.today ++ '-' :: id.suffix) :=
    @splitAtMost_cons '-' ['F'] 1 _ (by simp)
  have second : splitAtMost '-' 1 (id.today ++ '-' :: id.suffix) = [id.today, id.suffix] :=
    splitAtMost_cons 0 id.suffix dashes
  have length : (id.today ++ id.suffix).length ≤ 24 := by
    rw [length_append, id.today_length, id.suffix_length]
  simp only [encodeOrderRemark, first, second, if_true]
  exact take_of_length_le length

theorem isHexDigit_of_mem {c : Char} (member : c ∈ id.today ++ id.suffix) : isHexDigit c = true := by
  rcases mem_append.mp member with date | random
  · simp [isHexDigit, id.today_digits c date]
  · exact id.suffix_hex c random

theorem strip_remark : strip (id.today ++ id.suffix) = id.today ++ id.suffix := by
  have solid : ∀ c ∈ id.today ++ id.suffix, ¬ c.isWhitespace = true := by
    intro c member
    rw [not_isWhitespace_of_isHexDigit (id.isHexDigit_of_mem member)]
    decide
  have front := dropWhile_eq_self_iff.mpr fun _ => solid _ (getElem_mem _)
  unfold strip
  rw [front]
  exact rdropWhile_eq_self_iff.mpr fun _ => solid _ (getLast_mem _)

/-- The remark of a generated id names this id. -/
theorem decode_encode : remarkOrderId (encodeOrderRemark id.text) = id.text := by
  have date : (id.today ++ id.suffix).take 8 = id.today := by
    rw [← id.today_length]
    exact take_left
  have random : (id.today ++ id.suffix).drop 8 = id.suffix := by
    rw [← id.today_length]
    exact drop_left
  have length : (id.today ++ id.suffix).length = 24 := by
    rw [length_append, id.today_length, id.suffix_length]
  have some_text : id.today ++ id.suffix ≠ [] := by
    intro empty
    rw [empty] at length
    cases length
  rw [id.encode_text, remarkOrderId, if_neg some_text]
  simp only [decodeOrderRemark, id.strip_remark, date, random, length, id.today_digits, and_self, if_true]
  rfl

theorem text_ne_nil : id.text ≠ [] := nofun

end GeneratedId

end FinDashboard.Qmt
