import CryptoBot.Lib.Grid
import CryptoBot.Domain.Types

/-!
# Domain entities and the order state machine

`engine/domain/models.py`: terminal orders never move back, a status only moves forward in rank,
executed and cumulative quote quantities never decrease.
-/

namespace CryptoBot

/-! ## Transitions -/

/-- `ALLOWED_TRANSITIONS`: the forward transitions; a same-status update is a refresh. -/
def allowedTransitions : OrderStatus → List OrderStatus
  | .intentCreated => [.submitting, .rejected]
  | .submitting => [.new, .partiallyFilled, .filled, .rejected, .canceled, .expired]
  | .new => [.partiallyFilled, .filled, .canceled, .expired]
  | .partiallyFilled => [.filled, .canceled, .expired]
  | .filled | .canceled | .rejected | .expired => []

/-- `_RANK`. -/
def rank : OrderStatus → Nat
  | .intentCreated => 0
  | .submitting => 1
  | .new => 2
  | .partiallyFilled => 3
  | .filled | .canceled | .rejected | .expired => 4

def canTransition (current next : OrderStatus) : Bool :=
  (allowedTransitions current).contains next

/-! ## Client order ids -/

/-- What an intent is anchored to: the evaluated candle of an entry, or the opening time of the
position an exit or a protective stop belongs to (`na` when it has none). -/
inductive IntentAnchor
  | candle (openTime : String)
  | openedAt (t : Time)
  | na
deriving DecidableEq, Repr

/-- `base_intent_id`, the text `bot:symbol:anchor:purpose`, kept as its fields. -/
structure IntentBase where
  bot : String
  symbol : Symbol
  anchor : IntentAnchor
  purpose : OrderPurpose
deriving DecidableEq, Repr

/-- `client_intent_id`, the text `base:attempt`. -/
structure IntentId where
  base : IntentBase
  attempt : Nat
deriving DecidableEq, Repr

/-- The two library functions client order ids rest on: the hexadecimal SHA-256 digest of an
intent id's text, and `str.isalnum` on one character. -/
structure TextLib where
  sha256Hex : IntentId → String
  isalnum : Char → Bool

/-- `"".join(ch for ch in prefix if ch.isalnum())[:8]`. -/
def TextLib.safeChars (lib : TextLib) (pre : String) : List Char :=
  (pre.toList.filter lib.isalnum).take 8

/-- `make_client_order_id`: the same intent always yields the same id. -/
def makeClientOrderId (lib : TextLib) (pre : String) (clientIntentId : IntentId) : String :=
  let safe := lib.safeChars pre
  let safePrefix := if safe = [] then ['c', 'b'] else safe
  String.ofList (safePrefix ++ '-' ::
    (lib.sha256Hex clientIntentId).toList.take (35 - safePrefix.length))

/-! ## Symbol rules -/

/-- `Decimal.to_integral_value(rounding=ROUND_DOWN)`: the integer part, towards zero. -/
def toIntegralDown (x : ℚ) : ℤ := x.num.tdiv x.den

/-- `floor_to_step`. -/
def floorToStep (value step : ℚ) : ℚ :=
  if step ≤ 0 then value else toIntegralDown (value / step) * step

structure SymbolRules where
  symbol : Symbol
  baseAsset : String
  quoteAsset : String
  stepSize : ℚ := 1 / 100000000
  minQty : ℚ := 0
  tickSize : ℚ := 1 / 100000000
  minNotional : ℚ := 0
deriving DecidableEq

namespace SymbolRules

def roundQty (rules : SymbolRules) (qty : ℚ) : ℚ := floorToStep qty rules.stepSize

def roundPrice (rules : SymbolRules) (price : ℚ) : ℚ := floorToStep price rules.tickSize

def isTradeable (rules : SymbolRules) (qty price : ℚ) : Bool :=
  if qty ≤ 0 ∨ qty < rules.minQty then false else decide (rules.minNotional ≤ qty * price)

end SymbolRules

/-! ## Orders -/

structure OrderIntent where
  clientIntentId : IntentId
  bot : String
  symbol : Symbol
  side : OrderSide
  orderType : OrderType
  quantity : ℚ
  purpose : OrderPurpose
  signalId : Option SignalId := none
  limitPrice : Option ℚ := none
  stopPrice : Option ℚ := none
  referencePrice : Option ℚ := none
deriving DecidableEq

structure Order where
  bot : String
  exchange : String
  symbol : Symbol
  side : OrderSide
  orderType : OrderType
  purpose : OrderPurpose
  clientOrderId : String
  clientIntentId : IntentId
  requestedQuantity : ℚ
  status : OrderStatus := .intentCreated
  id : Nat := 0
  exchangeOrderId : Option String := none
  executedQuantity : ℚ := 0
  cumulativeQuoteQuantity : ℚ := 0
  averageFillPrice : Option ℚ := none
  limitPrice : Option ℚ := none
  stopPrice : Option ℚ := none
  referencePrice : Option ℚ := none
  submissionAmbiguous : Bool := false
  rejectReason : Option String := none
  submittedAt : Option Time := none
  acknowledgedAt : Option Time := none
  lastExchangeUpdateAt : Option Time := none
  lastExchangeUpdateMs : Option Int := none
  terminalAt : Option Time := none
  version : Nat := 0
deriving DecidableEq

def notFoundReason : String := "NOT_FOUND_ON_EXCHANGE"

namespace Order

def isTerminal (o : Order) : Bool := o.status.isTerminal

/-- `_transition`; the error is the message of the `IllegalTransition`. -/
def transition (o : Order) (next : OrderStatus) (now : Time) : Except String Order :=
  if next = o.status then .ok o
  else if canTransition o.status next then
    .ok { o with status := next, terminalAt := if next.isTerminal then some now else o.terminalAt }
  else .error s!"{o.clientOrderId}: {o.status.value} -> {next.value}"

def markSubmitting (o : Order) (now : Time) : Except String Order :=
  (o.transition .submitting now).map fun o => { o with submittedAt := some now }

/-- `mark_rejected`: nothing to do for a terminal order. -/
def markRejected (o : Order) (reason : String) (now : Time) : Except String (Bool × Order) :=
  if o.isTerminal then .ok (false, o)
  else (o.transition .rejected now).map fun o => (true, { o with rejectReason := some reason })

/-- A report takes over the exchange's id only while the order has none. -/
def adoptsExchangeId (o : Order) (r : ExchangeOrderReport) : Bool :=
  truthy r.exchangeOrderId && !truthy o.exchangeOrderId

/-- The part of `apply_report` before the status: the exchange id, the quantities (which only
grow, whatever the order of the reports) and the average price. -/
def withQuantities (o : Order) (r : ExchangeOrderReport) : Bool × Order :=
  let adopts := o.adoptsExchangeId r
  let executes := decide (o.executedQuantity < r.executedQty)
  let spends := decide (o.cumulativeQuoteQuantity < r.cumQuoteQty)
  let changed := adopts || executes || spends
  let o' := { o with
    exchangeOrderId := if adopts then r.exchangeOrderId else o.exchangeOrderId
    executedQuantity := if executes then r.executedQty else o.executedQuantity
    cumulativeQuoteQuantity := if spends then r.cumQuoteQty else o.cumulativeQuoteQuantity }
  (changed, if changed && decide (0 < o'.executedQuantity) then
    { o' with averageFillPrice := some (o'.cumulativeQuoteQuantity / o'.executedQuantity) } else o')

/-- Whether the order was concluded to have never reached the exchange. -/
def rejectedNotFound (o : Order) : Bool :=
  decide (o.status = .rejected) && startsWith (o.rejectReason.getD "") notFoundReason

/-- The status part of `apply_report`. A report about an order rejected as not found, and a
contradicting report about a terminal order, raise; any other report that may not move the status
leaves it alone. -/
def withStatus (o : Order) (r : ExchangeOrderReport) (now : Time) : Except String (Bool × Order) :=
  let next := r.status
  if o.rejectedNotFound ∧ next ≠ .rejected then
    .error s!"{o.clientOrderId}: locally REJECTED(not found) but exchange reports {next.value}"
  else if next ≠ o.status ∧ rank o.status < rank next ∧ canTransition o.status next then
    (o.transition next now).map fun o =>
      (true, if next = .rejected then { o with rejectReason := r.rejectReason } else o)
  else if next ≠ o.status ∧ rank o.status ≤ rank next ∧ o.isTerminal then
    .error s!"{o.clientOrderId}: terminal {o.status.value} vs exchange {next.value}"
  else .ok (false, o)

/-- The exchange's update time, when the report carries a later one. -/
def withUpdateTime (o : Order) (r : ExchangeOrderReport) : Bool × Order :=
  match r.updateTimeMs with
  | none => (false, o)
  | some ms =>
    if ms ≠ 0 ∧ o.lastExchangeUpdateMs.all (· < ms) then
      (true, { o with lastExchangeUpdateMs := some ms, lastExchangeUpdateAt := some (ms * 1000) })
    else (false, o)

/-- The first acknowledgement by the exchange. -/
def withAcknowledgement (o : Order) (now : Time) : Bool × Order :=
  if o.acknowledgedAt = none ∧ o.status ∉ [.intentCreated, .submitting, .rejected] then
    (true, { o with acknowledgedAt := some now })
  else (false, o)

/-- `apply_report`: applies an exchange report monotonically and tells whether anything changed.
The error is the message of the `IllegalTransition`. -/
def applyReport (o : Order) (r : ExchangeOrderReport) (now : Time) : Except String (Bool × Order) :=
  let quantities := o.withQuantities r
  (quantities.2.withStatus r now).map fun status =>
    let time := status.2.withUpdateTime r
    let ack := time.2.withAcknowledgement now
    (quantities.1 || status.1 || time.1 || ack.1, ack.2)

end Order

/-! ## Fills and positions -/

structure Fill where
  orderId : Nat
  clientOrderId : String
  symbol : Symbol
  side : OrderSide
  quantity : ℚ
  price : ℚ
  quoteQuantity : ℚ
  commission : ℚ
  commissionAsset : Option String
  executionTime : Time
  eventKey : String
  exchangeTradeId : Option String := none
  id : Nat := 0
deriving DecidableEq

structure Position where
  bot : String
  symbol : Symbol
  quantity : ℚ := 0
  averageEntryPrice : ℚ := 0
  realizedPnl : ℚ := 0
  unrealizedPnl : ℚ := 0
  lastMarkPrice : Option ℚ := none
  stopPrice : Option ℚ := none
  /-- Commission in assets that are neither base nor quote. -/
  feesOther : List (String × ℚ) := []
  openedAt : Option Time := none
  updatedAt : Option Time := none
deriving DecidableEq

namespace Position

/-- `is_open` with symbol rules: at least one tradeable lot is held. -/
def isOpen (p : Position) (rules : SymbolRules) : Bool :=
  decide (0 < p.quantity ∧ max rules.minQty rules.stepSize ≤ p.quantity)

/-- `is_open` without symbol rules. -/
def isOpenAny (p : Position) : Bool := decide (1 / 1000000000000 < p.quantity)

def mark (p : Position) (price : ℚ) : Position :=
  { p with
    lastMarkPrice := some price
    unrealizedPnl := if 0 < p.quantity then (price - p.averageEntryPrice) * p.quantity else 0 }

end Position

/-! ## Reconciliation state -/

structure ReconciliationState where
  bot : String
  status : ReconciliationStatus
  reason : String := ""
  updatedAt : Option Time := none
  lastSuccessAt : Option Time := none
  wsConnected : Bool := false
  lastWsEventAt : Option Time := none
  lastAckToken : Option String := none
deriving DecidableEq

namespace ReconciliationState

def fresh (st : ReconciliationState) (now : Time) (maxAgeSeconds : Int) : Bool :=
  st.updatedAt.any fun t => decide (now - t ≤ seconds maxAgeSeconds)

def allowsEntries (st : ReconciliationState) (now : Time) (maxAgeSeconds : Int) : Bool :=
  decide (st.status = .healthy) && st.fresh now maxAgeSeconds

/-- A dropped stream (`DEGRADED`) keeps REST available, so risk-reducing exits stay permitted. -/
def allowsExits (st : ReconciliationState) (now : Time) (maxAgeSeconds : Int) : Bool :=
  decide (st.status = .healthy ∨ st.status = .degraded) && st.fresh now maxAgeSeconds

end ReconciliationState

end CryptoBot
