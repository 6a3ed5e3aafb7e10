import CryptoBot.Domain.Messages
import CryptoBot.Lib.Table

/-!
# The control plane's mirror

`laravel/app/Actions/Engine` and the endpoints of `BotApiController` that keep a copy of the
engine's signals, orders, fills and positions. A foreign key is kept as the unique key of the row it
points to, so row ids are not modelled, and neither are `created_at` and `updated_at`; what a
decimal column keeps of a number is a parameter. An action answers `none` when the database or the
validation of the request refuses it.
-/

namespace CryptoBot

open Lib

/-! ## Columns -/

/-- What a column `decimal(precision, scale)` keeps of a number. -/
structure ColumnLib where
  decimal : (precision scale : Nat) → ℚ → ℚ

/-- `$t->decimal(_, 36, 18)`, the column of every quantity, price and amount of the mirror. -/
def ColumnLib.amount (cols : ColumnLib) (x : ℚ) : ℚ := cols.decimal 36 18 x

/-- A `timestamp` column keeps whole seconds. -/
def wholeSeconds (t : Time) : Time := seconds (t / 1000000)

/-! ## Rows -/

structure SignalRow where
  bot : String
  clientSignalId : SignalId
  symbol : Symbol
  action : SignalAction
  score : ℚ
  price : Option ℚ
  reasons : List String
  mode : TradingMode
  occurredAt : Time
deriving DecidableEq

/-- The columns of `orders` that an order message fills. -/
structure OrderColumns where
  clientIntentId : IntentId
  exchange : String
  symbol : Symbol
  side : OrderSide
  type : OrderType
  purpose : OrderPurpose
  status : OrderStatus
  exchangeOrderId : Option String
  requestedQuantity : ℚ
  executedQuantity : ℚ
  cumulativeQuoteQuantity : ℚ
  averageFillPrice : Option ℚ
  limitPrice : Option ℚ
  stopPrice : Option ℚ
  submissionAmbiguous : Bool
  rejectReason : Option String
  submittedAt : Option Time
  acknowledgedAt : Option Time
  lastExchangeUpdateAt : Option Time
  terminalAt : Option Time
  engineVersion : Nat
deriving DecidableEq

/-- `signal` is the signal the row's `signal_id` points to. -/
structure OrderRow where
  bot : String
  clientOrderId : String
  signal : Option SignalId
  columns : OrderColumns
deriving DecidableEq

/-- `order` is the order the row's `order_id` points to. -/
structure FillRow where
  bot : String
  order : Option String
  clientOrderId : String
  exchangeTradeId : Option String
  symbol : Symbol
  side : OrderSide
  quantity : ℚ
  price : ℚ
  quoteQuantity : ℚ
  commission : ℚ
  commissionAsset : Option String
  executionTime : Time
  eventKey : String
deriving DecidableEq

structure PositionRow where
  quantity : ℚ
  averageEntryPrice : ℚ
  realizedPnl : ℚ
  unrealizedPnl : ℚ
  lastMarkPrice : Option ℚ
  stopPrice : Option ℚ
  openedAt : Option Time
  engineUpdatedAt : Option Time
deriving DecidableEq

/-- `client_signal_id` is unique. -/
def SignalRow.Compatible (a b : SignalRow) : Prop := a.clientSignalId ≠ b.clientSignalId

instance : DecidableRel SignalRow.Compatible := fun _ _ => by
  unfold SignalRow.Compatible; infer_instance

/-- Within one bot, `client_order_id` and `client_intent_id` are unique. -/
def OrderRow.Compatible (a b : OrderRow) : Prop :=
  ¬ (a.bot = b.bot ∧ a.clientOrderId = b.clientOrderId) ∧
    ¬ (a.bot = b.bot ∧ a.columns.clientIntentId = b.columns.clientIntentId)

instance : DecidableRel OrderRow.Compatible := fun _ _ => by
  unfold OrderRow.Compatible; infer_instance

/-- `event_key` is unique. -/
def FillRow.Compatible (a b : FillRow) : Prop := a.eventKey ≠ b.eventKey

instance : DecidableRel FillRow.Compatible := fun _ _ => by
  unfold FillRow.Compatible; infer_instance

/-- The mirrored tables. `positions` is unique in bot and symbol. -/
structure Mirror where
  signals : Table SignalRow.Compatible := .empty
  orders : Table OrderRow.Compatible := .empty
  fills : Table FillRow.Compatible := .empty
  positions : String → Symbol → Option PositionRow := fun _ _ => none

namespace Mirror

/-! ## Look-ups -/

def signal? (m : Mirror) (clientSignalId : SignalId) : Option SignalRow :=
  m.signals.rows.find? fun r => decide (r.clientSignalId = clientSignalId)

def order? (m : Mirror) (bot clientOrderId : String) : Option OrderRow :=
  m.orders.rows.find? fun r => decide ((r.bot, r.clientOrderId) = (bot, clientOrderId))

def fill? (m : Mirror) (eventKey : String) : Option FillRow :=
  m.fills.rows.find? fun r => decide (r.eventKey = eventKey)

/-- The signal an order of the bot links to, if the bot's signal is there. -/
def signalLink (m : Mirror) (bot : String) (signalId : Option SignalId) : Option SignalId :=
  (m.signals.rows.find? fun r => decide (r.bot = bot ∧ some r.clientSignalId = signalId)).map
    (·.clientSignalId)

/-- The order a fill of the bot links to, if the bot's order is there. -/
def orderLink (m : Mirror) (bot clientOrderId : String) : Option String :=
  (m.order? bot clientOrderId).map (·.clientOrderId)

/-! ## Actions -/

variable (cols : ColumnLib) (bot : String)

/-- `BotApiController::signals`: the first message about a signal creates it. -/
def recordSignal (id : SignalId) (price : ℚ) (reasons : List String) (mode : TradingMode)
    (occurredAt : Time) (m : Mirror) : Option Mirror :=
  match m.signal? id with
  | some _ => some m
  | none =>
    (m.signals.insert?
      { bot, clientSignalId := id, symbol := id.symbol, action := id.action
        score := cols.decimal 12 4 id.score, price := some (cols.decimal 24 10 price), reasons, mode
        occurredAt := wholeSeconds occurredAt }).map fun signals => { m with signals }

/-- The `$attrs` of `RecordOrder`, as the columns keep them. -/
def orderColumns (d : Order) : OrderColumns where
  clientIntentId := d.clientIntentId
  exchange := d.exchange
  symbol := d.symbol
  side := d.side
  type := d.orderType
  purpose := d.purpose
  status := d.status
  exchangeOrderId := d.exchangeOrderId
  requestedQuantity := cols.amount d.requestedQuantity
  executedQuantity := cols.amount d.executedQuantity
  cumulativeQuoteQuantity := cols.amount d.cumulativeQuoteQuantity
  averageFillPrice := d.averageFillPrice.map cols.amount
  limitPrice := d.limitPrice.map cols.amount
  stopPrice := d.stopPrice.map cols.amount
  submissionAmbiguous := d.submissionAmbiguous
  rejectReason := d.rejectReason
  submittedAt := d.submittedAt.map wholeSeconds
  acknowledgedAt := d.acknowledgedAt.map wholeSeconds
  lastExchangeUpdateAt := d.lastExchangeUpdateAt.map wholeSeconds
  terminalAt := d.terminalAt.map wholeSeconds
  engineVersion := d.version

/-- `RecordOrder`: a message no newer than the row is ignored; the signal is looked up when the row
is created, and not again. -/
def recordOrder (d : Order) (signalId : Option SignalId) (m : Mirror) : Option Mirror :=
  match m.order? bot d.clientOrderId with
  | some row =>
    if d.version ≤ row.columns.engineVersion then some m
    else
      (m.orders.update? (fun r => decide ((r.bot, r.clientOrderId) = (bot, d.clientOrderId)))
        fun r => { r with columns := orderColumns cols d }).map fun orders => { m with orders }
  | none =>
    (m.orders.insert?
      { bot, clientOrderId := d.clientOrderId, signal := m.signalLink bot signalId
        columns := orderColumns cols d }).map fun orders => { m with orders }

/-- `RecordFill`: the order is looked up first; an execution that is there is left alone. -/
def recordFill (d : Fill) (m : Mirror) : Mirror :=
  let row : FillRow :=
    { bot, order := m.orderLink bot d.clientOrderId, clientOrderId := d.clientOrderId
      exchangeTradeId := d.exchangeTradeId, symbol := d.symbol, side := d.side
      quantity := cols.amount d.quantity, price := cols.amount d.price
      quoteQuantity := cols.amount d.quoteQuantity, commission := cols.amount d.commission
      commissionAsset := d.commissionAsset, executionTime := wholeSeconds d.executionTime
      eventKey := d.eventKey }
  match m.fills.insert? row with
  | some fills => { m with fills }
  | none => m

/-- A snapshot that `PositionRequest` lets through: `updated_at` is required. -/
structure PositionRequest where
  data : Position
  updatedAt : Time
  required : data.updatedAt = some updatedAt

/-- What `RecordPosition` stores of a snapshot. -/
def positionRow (d : PositionRequest) : PositionRow where
  quantity := cols.amount d.data.quantity
  averageEntryPrice := cols.amount d.data.averageEntryPrice
  realizedPnl := cols.amount d.data.realizedPnl
  unrealizedPnl := cols.amount d.data.unrealizedPnl
  lastMarkPrice := d.data.lastMarkPrice.map cols.amount
  stopPrice := d.data.stopPrice.map cols.amount
  openedAt := d.data.openedAt.map wholeSeconds
  engineUpdatedAt := some (wholeSeconds d.updatedAt)

/-- `RecordPosition`: a snapshot older than the stored instant is ignored. -/
def recordPosition (d : PositionRequest) (m : Mirror) : Mirror :=
  if (m.positions bot d.data.symbol).any fun pos => pos.engineUpdatedAt.any (d.updatedAt < ·) then m
  else
    { m with
      positions := Function.update m.positions bot
        (Function.update (m.positions bot) d.data.symbol (some (positionRow cols d))) }

/-! ## Deliveries -/

/-- One accepted delivery. The endpoints of events and reconciliation runs keep other tables, and an
alert goes to Telegram. -/
def deliver (d : OutboxMessage) (m : Mirror) : Option Mirror :=
  match d with
  | .signal id price reasons mode at_ => recordSignal cols bot id price reasons mode at_ m
  | .order o signalId => recordOrder cols bot o signalId m
  | .fill f => some (recordFill cols bot f m)
  | .position p =>
    match h : p.updatedAt with
    | some t => some (recordPosition cols bot ⟨p, t, h⟩ m)
    | none => none
  | .event .. | .reconciliation .. | .telegram .. => some m

/-- The deliveries of a list of messages, all accepted. -/
def deliverAll (l : List OutboxMessage) (m : Mirror) : Option Mirror :=
  l.foldlM (fun m d => deliver cols bot d m) m

/-- Two mirrors with the same signals, orders and fills, in whatever order they were created. -/
structure Same (m m' : Mirror) : Prop where
  signals : ∀ r, r ∈ m.signals.rows ↔ r ∈ m'.signals.rows
  orders : ∀ r, r ∈ m.orders.rows ↔ r ∈ m'.orders.rows
  fills : ∀ r, r ∈ m.fills.rows ↔ r ∈ m'.fills.rows

end Mirror

end CryptoBot
