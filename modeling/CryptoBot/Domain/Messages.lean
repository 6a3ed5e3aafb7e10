import CryptoBot.Domain.Models

/-!
# Mismatches, run records and outbox messages

The records `engine/application/reconciliation_service.py` persists about a run, and the messages
`engine/application/outbox.py` writes for the control plane and the operator. A key of the outbox
is a text made of fields; it is kept as its fields.
-/

namespace CryptoBot

/-- What the position accounting flags instead of hiding. -/
inductive Anomaly
  | buyFillNonPositiveQuantity
  | sellExceedsTrackedPosition
  | unknownSide (text : String)
deriving DecidableEq, Repr

def Anomaly.value : Anomaly → String
  | buyFillNonPositiveQuantity => "BUY_FILL_NON_POSITIVE_QUANTITY"
  | sellExceedsTrackedPosition => "SELL_EXCEEDS_TRACKED_POSITION"
  | unknownSide text => s!"UNKNOWN_SIDE:{text}"

/-! ## Reconciliation runs -/

inductive MismatchKind
  | ambiguousOrderPending | orderStateConflict | terminalOrderMissingOnExchange
  | executedQtyExceedsExchange | unknownBotOrder | foreignOpenOrder | unknownBotFill | foreignFill
  | fillsIncomplete | positionCorrected | positionAnomaly | balanceBelowPosition
  | protectiveStopMissing
deriving DecidableEq, Repr

def MismatchKind.value : MismatchKind → String
  | ambiguousOrderPending => "AMBIGUOUS_ORDER_PENDING"
  | orderStateConflict => "ORDER_STATE_CONFLICT"
  | terminalOrderMissingOnExchange => "TERMINAL_ORDER_MISSING_ON_EXCHANGE"
  | executedQtyExceedsExchange => "EXECUTED_QTY_EXCEEDS_EXCHANGE"
  | unknownBotOrder => "UNKNOWN_BOT_ORDER"
  | foreignOpenOrder => "FOREIGN_OPEN_ORDER"
  | unknownBotFill => "UNKNOWN_BOT_FILL"
  | foreignFill => "FOREIGN_FILL"
  | fillsIncomplete => "FILLS_INCOMPLETE"
  | positionCorrected => "POSITION_CORRECTED"
  | positionAnomaly => "POSITION_ANOMALY"
  | balanceBelowPosition => "BALANCE_BELOW_POSITION"
  | protectiveStopMissing => "PROTECTIVE_STOP_MISSING"

/-- The `detail` of a mismatch. -/
inductive MismatchDetail
  | empty
  | status (s : OrderStatus)
  | error (message : String)
  | quantities (left right : ℚ)
  | exchangeOrder (exchangeOrderId : Option String) (s : OrderStatus)
  | exchangeFill (eventKey : String) (exchangeOrderId : Option String)
  | anomaly (a : Anomaly)
  | position (quantity : ℚ)
deriving DecidableEq

structure Mismatch where
  kind : MismatchKind
  severity : MismatchSeverity
  clientOrderId : Option String
  detail : MismatchDetail
  resolved : Bool := false
deriving DecidableEq

/-- An unresolved CRITICAL mismatch halts trading. -/
def Mismatch.isCritical (m : Mismatch) : Bool :=
  decide (m.severity = .critical) && !m.resolved

/-- `run_key`, the text `recon:bot:started:nonce`. -/
structure RunKey where
  bot : String
  started : Time
  nonce : String
deriving DecidableEq

/-- A row of `reconciliation_runs` with its mismatches. -/
structure ReconRun where
  runKey : RunKey
  bot : String
  reason : String
  status : ReconciliationStatus
  startedAt : Time
  mismatches : List Mismatch
deriving DecidableEq

/-! ## Outbox -/

/-- What the strategy returns; `score` is kept exact. -/
structure Signal where
  action : SignalAction
  score : ℚ
  reasons : List String
deriving DecidableEq

inductive EventType
  | controlPlaneUnavailable | orderSubmissionAmbiguous | orderStateConflict | positionAnomaly
  | orderAttemptsExhausted | reconciliationHalted
deriving DecidableEq, Repr

inductive EventSeverity
  | info | warning | critical
deriving DecidableEq, Repr

/-- The `payload` of an event. -/
inductive EventPayload
  | empty
  | order (clientOrderId : String)
  | conflict (clientOrderId source : String)
  | fill (eventKey : String)
  | halt (runKey : RunKey) (mismatches : List Mismatch)
deriving DecidableEq

inductive OutboxKind
  | signals | orders | fills | reconciliation | events | positions | telegram
deriving DecidableEq, Repr

inductive OutboxKey
  | signal (id : SignalId)
  | order (clientOrderId : String) (version : Nat)
  | fill (eventKey : String)
  | positionFill (symbol : Symbol) (eventKey : String)
  | positionRecon (symbol : Symbol) (runKey : RunKey)
  | recon (runKey : RunKey)
  | controlPlaneDown (bot : String) (hour : Int)
  | ambiguous (clientOrderId : String)
  | conflict (clientOrderId : String) (exchangeStatus : OrderStatus)
  | anomaly (eventKey : String)
  | exhausted (base : IntentBase)
  | halt (runKey : RunKey)
  | telegram (of : OutboxKey)
deriving DecidableEq

inductive OutboxMessage
  | signal (id : SignalId) (price : ℚ) (reasons : List String) (mode : TradingMode) (at_ : Time)
  | order (o : Order) (signalId : Option SignalId)
  | fill (f : Fill)
  | position (p : Position)
  | event (type : EventType) (severity : EventSeverity) (message : String)
      (payload : EventPayload) (at_ : Time)
  | reconciliation (run : ReconRun) (detail : String) (finishedAt : Time)
  | telegram (bot : String) (severity : EventSeverity) (type : EventType) (message : String)
deriving DecidableEq

inductive OutboxStatus
  | pending | sent | dead
deriving DecidableEq, Repr

structure OutboxRow where
  id : Nat
  kind : OutboxKind
  key : OutboxKey
  message : OutboxMessage
  status : OutboxStatus := .pending
  attempts : Nat := 0
  nextAttemptAt : Time
deriving DecidableEq

end CryptoBot
