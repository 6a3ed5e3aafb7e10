import CryptoBot.Application.Effects

/-!
# The order service

`engine/application/order_service.py` and `engine/application/stream_ingestion.py`: the only path
through which orders are submitted, and the only place exchange reports and fills are applied.
An intent is persisted as `SUBMITTING` before the network call; an answer that leaves the outcome
open is resolved by querying the exchange, never by sending again.
-/

namespace CryptoBot

open Lib

/-- Raises the `IllegalTransition` of an order operation. -/
def Store.legal {α : Type} (x : Except String α) : Tx α := fun s =>
  match x with
  | .ok a => .ok (a, s)
  | .error message => .error (.illegalTransition message)

/-- A row that a transaction reads and uses without a check. -/
def Store.present {α : Type} (x : Option α) : Tx α := fun s =>
  match x with
  | some a => .ok (a, s)
  | none => .error (.attributeError "'NoneType' object has no attribute")

namespace OrderService

variable (cfg : Config)

/-! ## Applying exchange data -/

/-- What became of a report: no local order, applied, or refused by the state machine. -/
inductive ApplyOutcome
  | unknown
  | applied (o : Order)
  | conflict (clientOrderId message : String)
deriving DecidableEq

/-- The local order a report or an execution belongs to: by client order id, else by exchange
order id. -/
def findOrder (s : Ledger) (clientOrderId exchangeOrderId : Option String) : Option Order :=
  match clientOrderId.bind s.getOrder with
  | some o => some o
  | none =>
    if truthy exchangeOrderId then
      exchangeOrderId.bind (s.getOrderByExchangeId cfg.exchangeName)
    else none

/-- The transaction of `apply_report`. -/
def applyReportTx (report : ExchangeOrderReport) (now : Time) : Tx ApplyOutcome := fun s =>
  match findOrder cfg s (some report.clientOrderId) report.exchangeOrderId with
  | none => .ok (.unknown, s)
  | some order =>
    match order.applyReport report now with
    | .error message => .ok (.conflict order.clientOrderId message, s)
    | .ok (changed, order) =>
      if changed then
        (do let order ← Store.saveOrder order
            Store.enqueueOrder order now
            return .applied order : Tx ApplyOutcome) s
      else .ok (.applied order, s)

/-- `record_conflict`, outside any transaction: the event and the operator's alert. -/
def recordConflict (clientOrderId : String) (exchangeStatus : OrderStatus)
    (message source : String) : Engine PUnit := do
  let key := OutboxKey.conflict clientOrderId exchangeStatus
  let now ← clockNow
  transaction (.recordConflict clientOrderId)
    (Store.enqueue .events key
      (.event .orderStateConflict .critical message (.conflict clientOrderId source) now) now)
  transaction .commit
    (Store.enqueue .telegram (.telegram key)
      (.telegram cfg.bot .critical .orderStateConflict message) now)

/-- `apply_report` outside a transaction. A conflict is recorded, then raised. -/
def applyReport (report : ExchangeOrderReport) (source : String) : Engine (Option Order) := do
  let now ← clockNow
  match ← transaction .commit (applyReportTx cfg report now) with
  | .unknown => return none
  | .applied order => return some order
  | .conflict clientOrderId message =>
    recordConflict cfg clientOrderId report.status message source
    throw (.orderConflict message)

/-- The row `ingest_fill` records for an execution of an order. -/
def fillOf (order : Order) (xf : ExchangeFill) (now : Time) : Fill :=
  { orderId := order.id, clientOrderId := order.clientOrderId, symbol := order.symbol
    side := order.side, quantity := xf.quantity, price := xf.price
    quoteQuantity := xf.quoteQuantity, commission := xf.commission
    commissionAsset := xf.commissionAsset
    executionTime := if xf.executionTimeMs ≠ 0 then xf.executionTimeMs * 1000 else now
    eventKey := xf.eventKey, exchangeTradeId := some xf.exchangeTradeId }

/-- `ingest_fill`: records an execution exactly once and updates the position with it. -/
def ingestFillTx (xf : ExchangeFill) (now : Time) : Tx Bool := fun s =>
  match findOrder cfg s (xf.clientOrderId.filter (· ≠ "")) xf.exchangeOrderId with
  | none => .ok (false, s)
  | some order =>
    (do match ← Store.insertFill (fillOf order xf now) with
        | none => return false
        | some fill =>
          let result ← PositionService.applyFill cfg.bot fill now
          Store.enqueue .fills (.fill fill.eventKey) (.fill fill) now
          Store.enqueue .positions (.positionFill order.symbol fill.eventKey)
            (.position result.position) now
          if result.anomalies ≠ [] then
            Store.enqueueEvent cfg.bot .positionAnomaly
              (",".intercalate (result.anomalies.map Anomaly.value)) .critical
              (.fill fill.eventKey) (.anomaly fill.eventKey) true now
          return true : Tx Bool) s

def ingestFill (xf : ExchangeFill) : Engine Bool := do
  let now ← clockNow
  transaction .commit (ingestFillTx cfg xf now)

/-- The executions of one answer, one transaction each. -/
def ingestFills (xfs : List ExchangeFill) : Engine PUnit :=
  xfs.forM fun xf => do
    let _ ← ingestFill cfg xf

/-- `_ingest_order_fills`. -/
def ingestOrderFills (order : Option Order) : Engine PUnit :=
  match order with
  | none => pure ⟨⟩
  | some order =>
    if truthy order.exchangeOrderId then do
      let xfs ← call (.queryFills order)
      ingestFills cfg xfs
    else pure ⟨⟩

/-- `refresh`: authoritative status and fills of one order. -/
def refresh (order : Order) : Engine (Option Order) := do
  let report ← call (.queryOrder order)
  match report with
  | some report => let _ ← applyReport cfg report "rest_query"
  | none => pure ⟨⟩
  let fresh ← query .query (·.getOrder order.clientOrderId)
  ingestOrderFills cfg fresh
  query .query (·.getOrder order.clientOrderId)

/-- The end of `cancel`: the authoritative state is read again, and a failure to do so swallowed. -/
def lookAgain (order : Order) : Engine (Option Order) := do
  match ← (refresh cfg order).attempt with
  | .ok fresh => return fresh
  | .error (.orderConflict message) => throw (.orderConflict message)
  | .error _ => query .query (·.getOrder order.clientOrderId)

/-- `cancel`: whatever the cancel said, the authoritative state is read again. -/
def cancel (order : Order) : Engine (Option Order) := do
  let outcome ← call (.cancel order)
  match outcome.kind, outcome.report with
  | .acknowledged, some report => let _ ← applyReport cfg report "rest_cancel"
  | _, _ => pure ⟨⟩
  lookAgain cfg order

/-! ## Submission -/

inductive Resolution
  | resolved | pending
deriving DecidableEq, Repr

/-- The transaction that rejects an order with a reason, unless it is already terminal. -/
def rejectTx (clientOrderId reason : String) (now : Time) : Tx PUnit := fun s =>
  (do let fresh ← Store.present (s.getOrder clientOrderId)
      let (rejected, fresh) ← Store.legal (fresh.markRejected reason now)
      if rejected then
        let fresh ← Store.saveOrder fresh
        Store.enqueueOrder fresh now : Tx PUnit) s

/-- `f"{NOT_FOUND_REASON} after {int(age)}s"`. -/
def notFoundAfter (age : Int) : String := notFoundReason ++ s!" after {age.tdiv 1000000}s"

/-- `resolve_ambiguous`: queries by client order id. A timeout is not a rejection; an order the
exchange does not know is rejected once the grace period has passed. -/
def resolveAmbiguous (order : Order) : Engine Resolution :=
  if order.isTerminal then pure .resolved
  else do
    match ← (call (.queryOrder order)).attempt with
    | .error _ => return .pending
    | .ok (some report) =>
      let _ ← applyReport cfg report "rest_query"
      let fresh ← query .query (·.getOrder order.clientOrderId)
      ingestOrderFills cfg fresh
      return .resolved
    | .ok none =>
      let now ← clockNow
      let age := now - order.submittedAt.getD now
      if age < seconds cfg.ambiguousOrderGraceSeconds then return .pending
      else
        transaction .commit (rejectTx order.clientOrderId (notFoundAfter age) now)
        return .resolved

/-- The order an intent becomes. -/
def newOrder (intent : OrderIntent) (rules : SymbolRules) : Order :=
  { bot := cfg.bot, exchange := cfg.exchangeName, symbol := intent.symbol, side := intent.side
    orderType := intent.orderType, purpose := intent.purpose
    clientOrderId := makeClientOrderId cfg.textLib cfg.clientOrderIdPrefix intent.clientIntentId
    clientIntentId := intent.clientIntentId
    requestedQuantity := rules.roundQty intent.quantity
    limitPrice := intent.limitPrice, stopPrice := intent.stopPrice
    referencePrice := intent.referencePrice }

/-- The transaction that persists intent and order before the network call; when another writer
has the intent, its order. -/
def persistTx (intent : OrderIntent) (order : Order) (now : Time) :
    Tx (Except (Option Order) Order) := do
  match ← Store.insertIntentAndOrder intent order with
  | none => return .error ((← get).getOrderByIntent intent.clientIntentId)
  | some order =>
    let order ← Store.saveOrder order
    Store.enqueueOrder order now
    return .ok order

/-- The transaction that flags an order whose submission has an unknown outcome. -/
def flagAmbiguousTx (clientOrderId error : String) (now : Time) : Tx PUnit := fun s =>
  (do let fresh ← Store.present (s.getOrder clientOrderId)
      let fresh ← Store.saveOrder { fresh with submissionAmbiguous := true }
      Store.enqueueOrder fresh now
      Store.enqueueEvent cfg.bot .orderSubmissionAmbiguous s!"{clientOrderId}: {error}" .warning
        (.order clientOrderId) (.ambiguous clientOrderId) false now : Tx PUnit) s

/-- `f"{outcome.error_code or ''} {outcome.error or 'rejected'}".strip()`. -/
def refusalReason (outcome : SubmitOutcome) : String :=
  let code := match outcome.errorCode with
    | some c => if c = 0 then "" else toString c
    | none => ""
  let error := if truthy outcome.error then outcome.error.getD "" else "rejected"
  let text := (code ++ " " ++ error).toList
  String.ofList ((text.dropWhile Char.isWhitespace).reverse.dropWhile Char.isWhitespace).reverse

/-- What follows the answer to a submission. -/
def settle (order : Order) (outcome : SubmitOutcome) : Engine PUnit :=
  match outcome.kind with
  | .acknowledged => do
    let report ← orRaise outcome.report "client_order_id"
    let _ ← applyReport cfg report "rest_submit"
    ingestFills cfg outcome.fills
  | .rejected => do
    let now ← clockNow
    transaction .commit (rejectTx order.clientOrderId (refusalReason outcome) now)
  | .ambiguous => do
    let now ← clockNow
    transaction .commit
      (flagAmbiguousTx cfg order.clientOrderId (outcome.error.getD "None") now)
    let fresh ← query .query (·.getOrder order.clientOrderId)
    let fresh ← orRaise fresh "is_terminal"
    let _ ← resolveAmbiguous cfg fresh

/-- The outcome of a submission whose call raised: unknown, never "not sent". -/
def unknownOutcome (exc : Exn) : SubmitOutcome :=
  { kind := .ambiguous, error := some (String.ofList (exc.message.toList.take 300)) }

/-- `submit_intent`: one order for each intent; an intent that has one is not sent again. -/
def submitIntent (intent : OrderIntent) (rules : SymbolRules) : Engine (Option Order) := do
  match ← query (.submitIntent intent) (·.getOrderByIntent intent.clientIntentId) with
  | some existing => return some existing
  | none =>
    let now ← clockNow
    match (newOrder cfg intent rules).markSubmitting now with
    | .error message => throw (.illegalTransition message)
    | .ok order =>
      match ← transaction .commit (persistTx intent order now) with
      | .error existing => return existing
      | .ok order =>
        match ← (call (.submit order rules)).attempt with
        | .ok outcome => settle cfg order outcome
        | .error exc => settle cfg order (unknownOutcome exc)
        query .query (·.getOrder order.clientOrderId)

end OrderService

/-- The row of a filled order of a sample intent. -/
def sampleRow (id : IntentId) (side : OrderSide) (row : Nat) (exchangeOrderId : String) : Order :=
  { OrderService.newOrder sampleConfig (sampleIntent id side 2)
      { symbol := ⟨"BTC", "USDT"⟩, baseAsset := "BTC", quoteAsset := "USDT" } with
    id := row, status := .filled, exchangeOrderId := some exchangeOrderId, executedQuantity := 2 }

/-! ## The user-data stream -/

/-- A normalized event of the user-data stream. -/
inductive StreamEvent
  | order (eventKey : String) (report : ExchangeOrderReport) (fill : Option ExchangeFill)
  | balance (balances : BalanceSnapshot)
  | terminated
  | ignored
deriving DecidableEq

namespace StreamIngestionService

variable (cfg : Config)

inductive IngestOutcome
  | applied | duplicate | foreign | unknownBotOrder | conflict | balance | terminated | ignored
deriving DecidableEq, Repr

/-- `needs_reconciliation`. -/
def IngestOutcome.needsReconciliation : IngestOutcome → Bool
  | unknownBotOrder | conflict | terminated => true
  | _ => false

/-- The prefix that tells the bot's own client order ids from foreign ones. -/
def ownPrefix : String :=
  String.ofList (cfg.textLib.safeChars cfg.clientOrderIdPrefix ++ ['-'])

/-- The one transaction of an order event: the processed mark, the report and the execution. -/
def handleTx (eventKey : String) (report : ExchangeOrderReport) (fill : Option ExchangeFill)
    (now : Time) : Tx IngestOutcome := do
  if ← Store.markEventProcessed eventKey then
    match ← OrderService.applyReportTx cfg report now with
    | .conflict _ message => throw (.orderConflict message)
    | _ =>
      match fill with
      | some xf => let _ ← OrderService.ingestFillTx cfg xf now
      | none => pure ⟨⟩
      return .applied
  else return .duplicate

/-- The balances after an account update, by asset. -/
def mergeBalances (current update : List (String × AssetBalance)) : List (String × AssetBalance) :=
  update.foldl (fun acc b => acc.filter (fun e => e.1 ≠ b.1) ++ [b]) current

/-- `handle`: applies an event at most once. -/
def handle (ev : StreamEvent) : Engine IngestOutcome :=
  match ev with
  | .terminated => pure .terminated
  | .ignored => pure .ignored
  | .balance b => do
    let current ← query .query (·.balances cfg.bot)
    transaction .commit (Store.setBalances cfg.bot (mergeBalances current b.balances))
    return .balance
  | .order eventKey report fill => do
    let found ← query .query fun s =>
      OrderService.findOrder cfg s (some report.clientOrderId) report.exchangeOrderId
    match found with
    | none =>
      if startsWith report.clientOrderId (ownPrefix cfg) then return .unknownBotOrder
      else return .foreign
    | some _ =>
      let now ← clockNow
      match ← (transaction .commit (handleTx cfg eventKey report fill now)).attempt with
      | .ok outcome => return outcome
      | .error (.orderConflict message) =>
        OrderService.recordConflict cfg report.clientOrderId report.status message "ws"
        return .conflict
      | .error e => throw e

end StreamIngestionService

end CryptoBot
