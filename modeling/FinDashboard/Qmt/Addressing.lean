import FinDashboard.Qmt.Adapter
import FinDashboard.Runs.Guarded

/-!
# Addressing the orders of an account

Orders are handed to the client by `place_order` and reach its book later, also when the call has
timed out. Their callbacks are handled in any order, the adapter can be replaced by a new instance at
any time, and other orders of the account appear in the book as well.
-/

namespace FinDashboard.Qmt

open Broker Ledger Text QmtBroker

/-- An order in the book of the client, which keeps its number and its remark. -/
structure BookEntry where
  orderId : ℤ
  remark : List Char
deriving DecidableEq

def BookEntry.owner (entry : BookEntry) : List Char := remarkOrderId entry.remark

structure World where
  broker : QmtBroker
  /-- The calls of `place_order` of this instance that wait for the client. -/
  calls : List Order := []
  /-- The ids that were ever handed to `place_order`. -/
  submitted : List GeneratedId := []
  book : List BookEntry := []
  /-- The ids some query has reported as active. -/
  reported : List ClientOrderId := []
  /-- The order numbers this instance was told: by a `place_order` that returned, or by an order
  callback it has handled. -/
  told : List ℤ := []

/-- The object names the order number and the remark of an entry. -/
def XtObject.Names (data : XtObject) (entry : BookEntry) : Prop :=
  field data "order_id" = some (.int entry.orderId) ∧
    field data "order_remark" = some (.text entry.remark)

/-- The other attributes of a trade are of the kinds the client documents. -/
def XtObject.WellTyped (data : XtObject) : Prop :=
  fieldText data "stock_code" ≠ [] ∧ (fieldInt data "order_type" xtStockBuy).isSome ∧
    (fieldDecimal data "traded_volume").isSome ∧ (fieldDecimal data "traded_price").isSome

inductive Step
  | submit (id : GeneratedId) (order : Order)
  | accept (id : GeneratedId) (orderId : ℤ)
  | foreign (entry : BookEntry)
  | placeOrderReturned (order : Order) (outcome : CallOutcome (Option ℤ))
  | callback (now : ℤ) (raw : RawCallback)
  | query (raw : Option (List XtObject))
  | cancel (clientOrderId : ClientOrderId)
  | connect
  | disconnect
  | restart

namespace World

/-- The order number a returning `place_order` tells. -/
def toldByReturn : CallOutcome (Option ℤ) → List ℤ
  | .returned (some orderId) => if orderId < 0 then [] else [orderId]
  | _ => []

def toldByCallback : RawCallback → List ℤ
  | .stockOrder data =>
    match field data "order_id" with
    | some (.int orderId) => [orderId]
    | _ => []
  | _ => []

def step (world : World) : Step → World
  | .submit id order =>
    { world with calls := world.calls ++ [order], submitted := world.submitted ++ [id] }
  | .accept id orderId =>
    { world with book := world.book ++ [{ orderId, remark := encodeOrderRemark id.text }] }
  | .foreign entry => { world with book := world.book ++ [entry] }
  | .placeOrderReturned order outcome =>
    { world with
      broker := (world.broker.placeOrderReturned order outcome).1
      calls := world.calls.erase order
      told := world.told ++ toldByReturn outcome }
  | .callback now raw =>
    { world with
      broker := world.broker.handleRawCallback now raw
      told := world.told ++ toldByCallback raw }
  | .query raw =>
    match world.broker.queryActiveOrders raw with
    | .ok orders => { world with reported := world.reported ++ orders.map (·.clientOrderId) }
    | .error _ => world
  | .cancel _ => world
  | .connect => { world with broker := world.broker.connect }
  | .disconnect => { world with broker := world.broker.disconnect }
  | .restart =>
    { world with
      broker := connect { accountId := world.broker.accountId }
      calls := []
      told := [] }

/-- What the surroundings do: an id is placed once, the client gives each order a number of its own,
keeps its remark, and reports on the orders of its book. -/
def Possible (world : World) : Step → Prop
  | .submit id order =>
    order.clientOrderId = String.ofList id.text ∧ world.broker.connected = true ∧
      id ∉ world.submitted ∧ ∀ entry ∈ world.book, entry.owner ≠ id.text
  | .accept id orderId =>
    id ∈ world.submitted ∧ (∀ entry ∈ world.book, entry.owner ≠ id.text) ∧
      ∀ entry ∈ world.book, entry.orderId ≠ orderId
  | .foreign entry =>
    (∀ other ∈ world.book, other.orderId ≠ entry.orderId) ∧
      ∀ id ∈ world.submitted, entry.owner ≠ id.text
  | .placeOrderReturned order outcome =>
    order ∈ world.calls ∧ ∀ orderId, outcome = .returned (some orderId) → 0 ≤ orderId →
      ∃ entry ∈ world.book, entry.orderId = orderId ∧
        order.clientOrderId = String.ofList entry.owner
  | .callback _ (.stockOrder data) =>
    (fieldInt data "order_status" 255).isSome ∧ ∃ entry ∈ world.book, data.Names entry
  | .callback _ (.stockTrade data) => data.WellTyped ∧ ∃ entry ∈ world.book, data.Names entry
  | .callback _ (.orderError _) => True
  | .callback _ .disconnected => True
  | .callback _ (.cancelError _) => True
  | .query raw => ∀ data ∈ raw.getD [], ∃ entry ∈ world.book, data.Names entry
  | .cancel _ => True
  | .connect => True
  | .disconnect => True
  | .restart => True

/-- An entry of the book that belongs to an order placed by `place_order`. -/
def Ours (world : World) (id : GeneratedId) (entry : BookEntry) : Prop :=
  id ∈ world.submitted ∧ entry ∈ world.book ∧ entry.owner = id.text

end World

def RawCallback.orderId? : RawCallback → Option XtValue
  | .disconnected => none
  | .stockOrder data => field data "order_id"
  | .stockTrade data => field data "order_id"
  | .orderError data => field data "order_id"
  | .cancelError data => field data "order_id"

/-- The event a callback stands for; the statuses that report executions stand for none. -/
def RawCallback.eventType? : RawCallback → Option BrokerEventType
  | .stockOrder data =>
    match (fieldInt data "order_status" 255).map xtOrderStatusToFinboard with
    | some .acknowledged => some .orderAccepted
    | some .cancelled => some .orderCancelled
    | some .rejected => some .orderRejected
    | _ => none
  | .stockTrade _ => some .orderFilled
  | .orderError _ => some .orderRejected
  | .disconnected => none
  | .cancelError _ => none

namespace World

/-- What the adapter owes its callers at a step: a callback becomes one event with the local id of its
order, and an order that was reported active can be cancelled. -/
def Addressed (world : World) : Step → Prop
  | .callback now raw => ∀ id entry, world.Ours id entry →
      raw.orderId? = some (.int entry.orderId) → ∀ kind ∈ raw.eventType?, ∃ event,
        (world.broker.handleRawCallback now raw).eventQueue = world.broker.eventQueue ++ [event] ∧
          event.type = kind ∧ event.clientOrderId = some (String.ofList id.text)
  | .cancel clientOrderId => ∀ id entry, world.Ours id entry →
      clientOrderId = String.ofList id.text → clientOrderId ∈ world.reported →
        world.broker.connected = true → world.broker.cancelOrder clientOrderId = .ok entry.orderId
  | _ => True

/-- An order error is handled, and a reported order cancelled, by an instance that was told the
order's number. -/
def Told (world : World) : Step → Prop
  | .callback _ (.orderError data) => ∀ id entry, world.Ours id entry →
      field data "order_id" = some (.int entry.orderId) → entry.orderId ∈ world.told
  | .cancel clientOrderId => ∀ id entry, world.Ours id entry →
      clientOrderId = String.ofList id.text → clientOrderId ∈ world.reported →
        world.broker.connected = true → entry.orderId ∈ world.told
  | _ => True

/-- The two dictionaries link exactly the orders this instance was told, and nothing outside the
book. -/
structure Linked (world : World) : Prop where
  number_injective : ∀ entry ∈ world.book, ∀ other ∈ world.book,
    entry.orderId = other.orderId → entry = other
  owner_injective : ∀ id entry other, world.Ours id entry → world.Ours id other → entry = other
  told_book : ∀ orderId ∈ world.told, ∃ entry ∈ world.book, entry.orderId = orderId
  known_number : ∀ orderId cid, find (orderIdText orderId) world.broker.brokerIdToCid = some cid →
    ∃ entry ∈ world.book, entry.orderId = orderId
  known_owner : ∀ owner text, find (String.ofList owner) world.broker.cidToBrokerId = some text →
    ∃ entry ∈ world.book, entry.owner = owner
  by_number : ∀ id entry, world.Ours id entry →
    find (orderIdText entry.orderId) world.broker.brokerIdToCid =
      if entry.orderId ∈ world.told then some (String.ofList id.text) else none
  by_owner : ∀ id entry, world.Ours id entry →
    find (String.ofList id.text) world.broker.cidToBrokerId =
      if entry.orderId ∈ world.told then some (orderIdText entry.orderId) else none

end World

theorem orderIdText_injective {first second : ℤ} (same : orderIdText first = orderIdText second) :
    first = second := by
  have texts := String.ofList_injective same
  have read := readInteger_integerText second
  rw [← texts, readInteger_integerText] at read
  exact Option.some.inj read

theorem orderIdText_ne_empty (orderId : ℤ) : orderIdText orderId ≠ "" := by
  intro empty
  have none_left := String.ofList_injective empty
  have read := readInteger_integerText orderId
  rw [none_left] at read
  cases read

section Callbacks

variable {data : XtObject} {entry : BookEntry} (now : ℤ) (broker : QmtBroker)

theorem XtObject.Names.orderId_text (names : data.Names entry) :
    fieldText data "order_id" = integerText entry.orderId := by
  simp [fieldText, names.1, XtValue.str]

theorem XtObject.Names.remark_text (names : data.Names entry) :
    fieldText data "order_remark" = entry.remark := by
  simp [fieldText, names.2, XtValue.str]

theorem ofList_ne_empty {text : List Char} (some_text : text ≠ []) : String.ofList text ≠ "" :=
  fun empty => some_text (String.ofList_injective empty)

/-- An order callback without a local id is dropped. -/
theorem onXtOrder_unowned (names : data.Names entry) (unowned : entry.owner = []) :
    broker.onXtOrder data = broker := by
  have empty : remarkOrderId (fieldText data "order_remark") = [] := by
    rw [names.remark_text]
    exact unowned
  unfold onXtOrder
  cases fieldInt data "order_status" 255 with
  | none => rfl
  | some statusCode => exact if_pos (congrArg String.ofList empty)

/-- An order callback records its order whatever its status, and pushes the event it stands for. -/
theorem onXtOrder_owned {statusCode : ℤ} (names : data.Names entry) (owned : entry.owner ≠ [])
    (status : fieldInt data "order_status" 255 = some statusCode) :
    ∃ events, broker.onXtOrder data =
        { broker.recordOidMapping (String.ofList entry.owner) (orderIdText entry.orderId) with
          eventQueue := broker.eventQueue ++ events } ∧
      ∀ kind ∈ (RawCallback.stockOrder data).eventType?, ∃ event, events = [event] ∧
        event.type = kind ∧ event.clientOrderId = some (String.ofList entry.owner) := by
  have number : String.ofList (fieldText data "order_id") = orderIdText entry.orderId := by
    rw [names.orderId_text]
    rfl
  have owner : String.ofList (remarkOrderId (fieldText data "order_remark")) =
      String.ofList entry.owner := by
    rw [names.remark_text]
    rfl
  unfold onXtOrder RawCallback.eventType?
  simp only [status, number, owner, if_neg (ofList_ne_empty owned),
    if_neg (orderIdText_ne_empty entry.orderId), Option.map_some]
  cases xtOrderStatusToFinboard statusCode with
  | acknowledged => exact ⟨[_], rfl, by simp⟩
  | cancelled => exact ⟨[_], rfl, by simp⟩
  | rejected => exact ⟨[_], rfl, by simp⟩
  | created => exact ⟨[], by simp [recordOidMapping], nofun⟩
  | riskChecked => exact ⟨[], by simp [recordOidMapping], nofun⟩
  | submitting => exact ⟨[], by simp [recordOidMapping], nofun⟩
  | submitted => exact ⟨[], by simp [recordOidMapping], nofun⟩
  | partiallyFilled => exact ⟨[], by simp [recordOidMapping], nofun⟩
  | filled => exact ⟨[], by simp [recordOidMapping], nofun⟩
  | cancelPending => exact ⟨[], by simp [recordOidMapping], nofun⟩
  | unknown => exact ⟨[], by simp [recordOidMapping], nofun⟩

/-- A trade converts and carries the local id of its order. -/
theorem xtTradeToFill_names (names : data.Names entry) (typed : data.WellTyped) :
    ∃ fill, xtTradeToFill now data = some fill ∧ fill.clientOrderId = String.ofList entry.owner := by
  obtain ⟨code, side, volume, price⟩ := typed
  obtain ⟨orderType, foundType⟩ := Option.isSome_iff_exists.mp side
  obtain ⟨tradedVolume, foundVolume⟩ := Option.isSome_iff_exists.mp volume
  obtain ⟨tradedPrice, foundPrice⟩ := Option.isSome_iff_exists.mp price
  simp [xtTradeToFill, code, foundType, foundVolume, foundPrice, names.remark_text, BookEntry.owner]

theorem onXtTrade_owned (names : data.Names entry) (typed : data.WellTyped)
    (owned : entry.owner ≠ []) : ∃ event,
      (broker.onXtTrade now data).eventQueue = broker.eventQueue ++ [event] ∧
        event.type = .orderFilled ∧ event.clientOrderId = some (String.ofList entry.owner) := by
  obtain ⟨fill, converted, owner⟩ := xtTradeToFill_names now names typed
  unfold onXtTrade
  simp only [converted]
  rw [if_neg (by rw [owner]; exact ofList_ne_empty owned)]
  exact ⟨_, rfl, rfl, congrArg some owner⟩

end Callbacks

end FinDashboard.Qmt
