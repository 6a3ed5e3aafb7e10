import CryptoBot.Lib.Prog
import CryptoBot.Lib.Table
import CryptoBot.Domain.Messages

/-!
# The durable ledger

`engine/infrastructure/store.py`: the tables of the engine's SQLite ledger, its queries and its
transactions. A transaction is a state transformer that may raise; one that raises leaves the
ledger as it was, so a transaction nested in another is simply part of it. Every `now` the store
reads inside a transaction is the instant the transaction is given.
-/

namespace CryptoBot

open Lib

/-! ## Rows and their constraints -/

/-- Two rows of `orders`, the earlier first: increasing ids, distinct client order ids and intent
ids, and distinct exchange order ids where both have one (`idx_orders_exchange_id`). -/
def Order.Compatible (a b : Order) : Prop :=
  a.id < b.id ∧ a.clientOrderId ≠ b.clientOrderId ∧ a.clientIntentId ≠ b.clientIntentId ∧
    ¬ (a.exchange = b.exchange ∧ a.exchangeOrderId.isSome ∧ a.exchangeOrderId = b.exchangeOrderId)

instance : DecidableRel Order.Compatible := fun _ _ => by
  unfold Order.Compatible; infer_instance

/-- Two rows of `fills`, the earlier first: increasing ids, distinct event keys, and distinct trade
ids within one order where both have one (`idx_fills_trade`). -/
def Fill.Compatible (a b : Fill) : Prop :=
  a.id < b.id ∧ a.eventKey ≠ b.eventKey ∧
    ¬ (a.orderId = b.orderId ∧ a.exchangeTradeId.isSome ∧ a.exchangeTradeId = b.exchangeTradeId)

instance : DecidableRel Fill.Compatible := fun _ _ => by
  unfold Fill.Compatible; infer_instance

/-- The daily state of the risk manager, kept in the key-value table. -/
structure RiskDay where
  date : Int
  dayStartEquity : ℚ
  halted : Bool
deriving DecidableEq

/-- The ledger of one engine. -/
structure Ledger where
  intents : List OrderIntent := []
  orders : Table Order.Compatible := .empty
  fills : Table Fill.Compatible := .empty
  positions : List Position := []
  processedEvents : List String := []
  reconState : String → Option ReconciliationState := fun _ => none
  reconRuns : List ReconRun := []
  outbox : List OutboxRow := []
  balances : String → List (String × AssetBalance) := fun _ => []
  riskDay : String → Option RiskDay := fun _ => none

/-- Exceptions of the engine. `external` is whatever a call to the exchange, the control plane, the
market data or the strategy raises. -/
inductive Exn
  | external (typeName message : String)
  | orderConflict (message : String)
  | illegalTransition (message : String)
  | integrityError (message : String)
  | concurrentModification (message : String)
  | attributeError (message : String)
deriving DecidableEq, Repr

namespace Exn

/-- `type(exc).__name__`. -/
def typeName : Exn → String
  | external typeName _ => typeName
  | orderConflict _ => "OrderConflict"
  | illegalTransition _ => "IllegalTransition"
  | integrityError _ => "IntegrityError"
  | concurrentModification _ => "ConcurrentModification"
  | attributeError _ => "AttributeError"

/-- `str(exc)`. -/
def message : Exn → String
  | external _ m | orderConflict m | illegalTransition m | integrityError m
  | concurrentModification m | attributeError m => m

end Exn

/-- A store transaction. -/
abbrev Tx (α : Type) : Type := StateT Ledger (Except Exn) α

/-! ## Queries -/

namespace Ledger

def getOrder (s : Ledger) (clientOrderId : String) : Option Order :=
  s.orders.rows.find? fun o => decide (o.clientOrderId = clientOrderId)

def getOrderByIntent (s : Ledger) (clientIntentId : IntentId) : Option Order :=
  s.orders.rows.find? fun o => decide (o.clientIntentId = clientIntentId)

def getOrderByExchangeId (s : Ledger) (exchange exchangeOrderId : String) : Option Order :=
  s.orders.rows.find? fun o =>
    decide (o.exchange = exchange ∧ o.exchangeOrderId = some exchangeOrderId)

def intentSignalId (s : Ledger) (clientIntentId : IntentId) : Option SignalId :=
  (s.intents.find? fun i => decide (i.clientIntentId = clientIntentId)).bind (·.signalId)

/-- `non_terminal_orders`, by id. -/
def nonTerminalOrders (s : Ledger) (bot : String) (symbol : Symbol) : List Order :=
  s.orders.rows.filter fun o => decide (o.bot = bot ∧ o.symbol = symbol) && !o.isTerminal

/-- `orders`: the newest orders first, at most `limit`. -/
def newestOrders (s : Ledger) (bot : String) (symbol : Symbol) (limit : Nat) : List Order :=
  ((s.orders.rows.filter fun o => decide (o.bot = bot ∧ o.symbol = symbol)).reverse).take limit

/-- `fills`: the fills of a bot on a symbol, by execution time, then by row id. -/
def fillsOf (s : Ledger) (bot : String) (symbol : Symbol) : List Fill :=
  (s.fills.rows.filter fun f => decide (f.symbol = symbol) &&
    s.orders.rows.any fun o => decide (o.id = f.orderId ∧ o.bot = bot)).insertionSort
      fun a b => a.executionTime ≤ b.executionTime

def fillsForOrder (s : Ledger) (orderId : Nat) : List Fill :=
  s.fills.rows.filter fun f => decide (f.orderId = orderId)

/-- `OrderService.fill_quantity`: what the recorded fills of an order add up to. -/
def fillQuantity (s : Ledger) (o : Order) : ℚ :=
  ((s.fillsForOrder o.id).map (·.quantity)).sum

def getPosition (s : Ledger) (bot : String) (symbol : Symbol) : Position :=
  (s.positions.find? fun p => decide (p.bot = bot ∧ p.symbol = symbol)).getD { bot, symbol }

/-- `positions`: every position of a bot. -/
def positionsOf (s : Ledger) (bot : String) : List Position :=
  s.positions.filter fun p => decide (p.bot = bot)

def getReconState (s : Ledger) (bot : String) : ReconciliationState :=
  match s.reconState bot with
  | some st => { st with bot }
  | none => { bot, status := .connecting, reason := "never reconciled" }

end Ledger

/-! ## Transactions -/

namespace Store

/-- The next `AUTOINCREMENT` id. -/
def nextId (ids : List Nat) : Nat := ids.foldr max 0 + 1

/-- `enqueue`: at most one message for each idempotency key. -/
def enqueue (kind : OutboxKind) (key : OutboxKey) (message : OutboxMessage) (now : Time) :
    Tx PUnit := fun s =>
  if s.outbox.any fun r => decide (r.key = key) then .ok (⟨⟩, s)
  else
    let row := { id := nextId (s.outbox.map (·.id)), kind, key, message, nextAttemptAt := now }
    .ok (⟨⟩, { s with outbox := s.outbox ++ [row] })

/-- The row that is inserted for an order: the columns the statement lists, the others with their
defaults. -/
def insertedRow (order : Order) (id : Nat) : Order :=
  { bot := order.bot, exchange := order.exchange, symbol := order.symbol, side := order.side
    orderType := order.orderType, purpose := order.purpose
    clientOrderId := order.clientOrderId, clientIntentId := order.clientIntentId
    requestedQuantity := order.requestedQuantity, limitPrice := order.limitPrice
    stopPrice := order.stopPrice, referencePrice := order.referencePrice
    status := order.status, id }

/-- `insert_intent_and_order`: no order when the intent already exists; otherwise the order with
the id of its new row. -/
def insertIntentAndOrder (intent : OrderIntent) (order : Order) : Tx (Option Order) := fun s =>
  if s.intents.any fun i => decide (i.clientIntentId = intent.clientIntentId) then .ok (none, s)
  else
    let id := nextId (s.orders.rows.map (·.id))
    match s.orders.insert? (insertedRow order id) with
    | some orders => .ok (some { order with id }, { s with intents := s.intents ++ [intent], orders })
    | none => .error (.integrityError "UNIQUE constraint failed: orders")

/-- The row `r` with the columns of `o` that `save_order` writes. -/
def savedRow (r o : Order) : Order :=
  { r with
    exchangeOrderId := o.exchangeOrderId, executedQuantity := o.executedQuantity
    cumulativeQuoteQuantity := o.cumulativeQuoteQuantity, averageFillPrice := o.averageFillPrice
    status := o.status, submissionAmbiguous := o.submissionAmbiguous
    rejectReason := o.rejectReason, submittedAt := o.submittedAt
    acknowledgedAt := o.acknowledgedAt, lastExchangeUpdateAt := o.lastExchangeUpdateAt
    lastExchangeUpdateMs := o.lastExchangeUpdateMs, terminalAt := o.terminalAt
    version := r.version + 1 }

/-- `save_order`: an update that fails loudly when another writer changed the row. -/
def saveOrder (o : Order) : Tx Order := fun s =>
  let hit (r : Order) : Bool := decide (r.id = o.id ∧ r.version = o.version)
  if s.orders.rows.any hit then
    match s.orders.update? hit (savedRow · o) with
    | some orders => .ok ({ o with version := o.version + 1 }, { s with orders })
    | none => .error (.integrityError "UNIQUE constraint failed: orders.exchange_order_id")
  else .error (.concurrentModification s!"order {o.clientOrderId} changed concurrently")

/-- `insert_fill`: the fill with the id of its new row, or nothing when the execution is already
recorded. -/
def insertFill (f : Fill) : Tx (Option Fill) := fun s =>
  let f := { f with id := nextId (s.fills.rows.map (·.id)) }
  match s.fills.insert? f with
  | some fills => .ok (some f, { s with fills })
  | none => .ok (none, s)

/-- The positions with `p` in place of the one of the same bot and symbol. -/
def upsertPosition (positions : List Position) (p : Position) : List Position :=
  let hit (q : Position) : Bool := decide (q.bot = p.bot ∧ q.symbol = p.symbol)
  if positions.any hit then positions.map fun q => if hit q then p else q else positions ++ [p]

/-- `save_position`. -/
def savePosition (p : Position) (now : Time) : Tx Position := fun s =>
  let p := { p with updatedAt := some now }
  .ok (p, { s with positions := upsertPosition s.positions p })

/-- `mark_event_processed`: whether the event is new. -/
def markEventProcessed (eventKey : String) : Tx Bool := fun s =>
  if eventKey ∈ s.processedEvents then .ok (false, s)
  else .ok (true, { s with processedEvents := s.processedEvents ++ [eventKey] })

/-- `save_recon_state`: writes the whole row. -/
def saveReconState (st : ReconciliationState) (now : Time) : Tx ReconciliationState := fun s =>
  let st := { st with updatedAt := some now }
  .ok (st, { s with reconState := Function.update s.reconState st.bot (some st) })

/-- `record_recon_run`. -/
def recordReconRun (run : ReconRun) : Tx PUnit := fun s =>
  .ok (⟨⟩, { s with reconRuns := s.reconRuns ++ [run] })

/-- The key-value entry of the last known balances. -/
def setBalances (bot : String) (balances : List (String × AssetBalance)) : Tx PUnit := fun s =>
  .ok (⟨⟩, { s with balances := Function.update s.balances bot balances })

/-- The key-value entry of the risk manager. -/
def setRiskDay (bot : String) (day : RiskDay) : Tx PUnit := fun s =>
  .ok (⟨⟩, { s with riskDay := Function.update s.riskDay bot (some day) })

/-- `enqueue_event`, with the operator's alert where one is asked for. -/
def enqueueEvent (bot : String) (type : EventType) (message : String) (severity : EventSeverity)
    (payload : EventPayload) (key : OutboxKey) (alert : Bool) (now : Time) : Tx PUnit := do
  enqueue .events key (.event type severity message payload now) now
  if alert then enqueue .telegram (.telegram key) (.telegram bot severity type message) now

/-- `OrderService._enqueue_order`. -/
def enqueueOrder (o : Order) (now : Time) : Tx PUnit := fun s =>
  enqueue .orders (.order o.clientOrderId o.version)
    (.order o (s.intentSignalId o.clientIntentId)) now s

end Store

end CryptoBot
