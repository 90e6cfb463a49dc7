import FinDashboard.Broker.Adapter
import FinDashboard.Ledger.Dictionary
import FinDashboard.Qmt.Mapping

/-!
# The QMT adapter

An adapter instance links the local order ids with the client's order numbers in two dictionaries.
They start empty and are filled when `place_order` returns and when an order callback is handled.
-/

namespace FinDashboard.Qmt

open Broker Ledger Text

/-- What a call of the adapter raises. -/
inductive QmtError
  | broker (message : String)
  | orderNotFound (message : String)
  | value
deriving DecidableEq

/-- The arguments `order_stock` is called with. -/
structure OrderStockRequest where
  stockCode : String
  orderType : ℤ
  orderVolume : ℚ
  priceType : ℤ
  price : ℚ
  strategyName : String := ""
  orderRemark : List Char
deriving DecidableEq

/-- A callback of the client, as it waits in the raw queue. -/
inductive RawCallback
  | disconnected
  | stockOrder (data : XtObject)
  | stockTrade (data : XtObject)
  | orderError (data : XtObject)
  | cancelError (data : XtObject)

structure QmtBroker where
  accountId : AccountId
  connected : Bool := false
  cidToBrokerId : List (String × String) := []
  brokerIdToCid : List (String × String) := []
  eventQueue : List BrokerEvent := []
deriving DecidableEq

namespace QmtBroker

variable (broker : QmtBroker)

def pushEvent (event : BrokerEvent) : QmtBroker :=
  { broker with eventQueue := broker.eventQueue ++ [event] }

/-- A successful `connect`; it keeps the dictionaries of the instance. -/
def connect : QmtBroker :=
  if broker.connected then broker
  else { broker with connected := true }.pushEvent {
    type := .connected, message := broker.accountId }

def disconnect : QmtBroker :=
  if broker.connected then { broker with connected := false }.pushEvent { type := .disconnected }
  else broker

def recordOidMapping (cid brokerOrderId : String) : QmtBroker :=
  { broker with
    cidToBrokerId := assign cid brokerOrderId broker.cidToBrokerId
    brokerIdToCid := assign brokerOrderId cid broker.brokerIdToCid }

def requireConnected : Except QmtError Unit :=
  if broker.connected then .ok () else .error (.broker "QmtBroker 未连接")

/-- `_query_all_today_orders`, given what the client answers; one order that does not convert makes
the query raise. -/
def queryAllTodayOrders (raw : Option (List XtObject)) : Except QmtError (List Order) := do
  broker.requireConnected
  match (raw.getD []).mapM (xtOrderToOrder broker.accountId) with
  | some orders => .ok orders
  | none => .error .value

def queryActiveOrders (raw : Option (List XtObject)) : Except QmtError (List Order) :=
  (broker.queryAllTodayOrders raw).map fun orders => orders.filter Order.isActive

/-- `place_order` up to the call of the client. -/
def placeOrder (order : Order) : Except QmtError OrderStockRequest := do
  broker.requireConnected
  .ok {
    stockCode := order.symbol.code
    orderType := sideToXtOrderType order.side
    orderVolume := order.quantity
    priceType := orderTypeToXtPriceType order.orderType
    price := order.price.getD 0
    orderRemark := encodeOrderRemark order.clientOrderId.toList }

def orderIdText (orderId : ℤ) : String := String.ofList (integerText orderId)

/-- `place_order` after the call of the client: an order number that is missing or negative is a
rejection, and a call that timed out leaves the instance as it was. -/
def placeOrderReturned (order : Order) (outcome : CallOutcome (Option ℤ)) :
    QmtBroker × Order × CallOutcome SubmissionResult :=
  match outcome with
  | .timeout => (broker, order, .timeout)
  | .failed => (broker, order, .failed)
  | .returned none =>
    (broker, order, .returned { accepted := false, rejectReason := some .brokerRejected })
  | .returned (some orderId) =>
    if orderId < 0 then
      (broker, order, .returned { accepted := false, rejectReason := some .brokerRejected })
    else
      (broker.recordOidMapping order.clientOrderId (orderIdText orderId),
        { order with brokerOrderId := some (orderIdText orderId) },
        .returned { brokerOrderId := some (orderIdText orderId) })

/-- `cancel_order` up to the call of the client: the order number it hands over. -/
def cancelOrder (clientOrderId : String) : Except QmtError ℤ := do
  broker.requireConnected
  match find clientOrderId broker.cidToBrokerId with
  | none =>
    .error (.orderNotFound ("无法撤单:找不到 " ++ clientOrderId ++ " 对应的 broker_order_id"))
  | some brokerOrderId =>
    match readInteger brokerOrderId.toList with
    | some orderId => .ok orderId
    | none => .error .value

/-- `_on_xt_order`: the mapping is recorded whatever the status; executions are left to the trade
callbacks. -/
def onXtOrder (data : XtObject) : QmtBroker :=
  match fieldInt data "order_status" 255 with
  | none => broker
  | some statusCode =>
    let brokerOrderId := String.ofList (fieldText data "order_id")
    let cid := String.ofList (remarkOrderId (fieldText data "order_remark"))
    if cid = "" then broker
    else
      let recorded := if brokerOrderId = "" then broker else broker.recordOidMapping cid brokerOrderId
      match xtOrderStatusToFinboard statusCode with
      | .acknowledged =>
        recorded.pushEvent {
          type := .orderAccepted, clientOrderId := some cid, brokerOrderId := some brokerOrderId }
      | .cancelled =>
        recorded.pushEvent {
          type := .orderCancelled, clientOrderId := some cid, brokerOrderId := some brokerOrderId }
      | .rejected =>
        recorded.pushEvent {
          type := .orderRejected
          clientOrderId := some cid
          brokerOrderId := some brokerOrderId
          rejectReason := some .brokerRejected
          message := "QMT 废单(order_status=" ++ orderIdText statusCode ++ ")" }
      | _ => recorded

def onXtTrade (now : ℤ) (data : XtObject) : QmtBroker :=
  match xtTradeToFill now data with
  | none => broker
  | some fill =>
    if fill.clientOrderId = "" then broker
    else
      broker.pushEvent {
        type := .orderFilled
        clientOrderId := some fill.clientOrderId
        brokerOrderId := fill.brokerOrderId
        fill := some fill.toFill }

/-- `_on_xt_order_error`: the error carries no remark, so its order number is looked up. -/
def onXtOrderError (data : XtObject) : QmtBroker :=
  let brokerOrderId := String.ofList (fieldText data "order_id")
  let errorText := String.ofList (fieldText data "error_msg")
  let errorMsg := if errorText = "" then "未知错误" else errorText
  match find brokerOrderId broker.brokerIdToCid with
  | none => broker
  | some cid =>
    broker.pushEvent {
      type := .orderRejected
      clientOrderId := if cid = "" then none else some cid
      brokerOrderId := some brokerOrderId
      rejectReason := some .brokerRejected
      message := "QMT order_error: " ++ errorMsg }

/-- `_handle_raw_callback`; a failed cancellation is only logged. -/
def handleRawCallback (now : ℤ) : RawCallback → QmtBroker
  | .disconnected => { broker with connected := false }.pushEvent { type := .disconnected }
  | .stockOrder data => broker.onXtOrder data
  | .stockTrade data => broker.onXtTrade now data
  | .orderError data => broker.onXtOrderError data
  | .cancelError _ => broker

end QmtBroker

end FinDashboard.Qmt
