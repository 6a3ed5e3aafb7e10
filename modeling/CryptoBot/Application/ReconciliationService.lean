import CryptoBot.Application.OrderService

/-!
# Reconciliation

`engine/application/reconciliation_service.py`. A run marks the state RECONCILING, compares the
ledger with the exchange (open orders, recently terminal orders, recent fills, balances, position)
and ends with a verdict: HALTED on an unresolved CRITICAL mismatch, RECONCILING while an ambiguous
order is inside its grace window, HEALTHY otherwise. Any exception other than the order conflicts
handled on the spot ends the run DEGRADED.
-/

namespace CryptoBot

open Lib

namespace ReconciliationService

variable (cfg : Config)

/-! ## State helpers -/

/-- `set_state`: reads the row, replaces status and reason, writes the row back. -/
def setState (l : Label) (status : ReconciliationStatus) (reason : String) (success : Bool)
    (wsConnected : Option Bool) : Engine PUnit := do
  let st ← query .query (·.getReconState cfg.bot)
  let now ← clockNow
  let st := { st with
    status, reason
    lastSuccessAt := if success then some now else st.lastSuccessAt
    wsConnected := wsConnected.getD st.wsConnected }
  let _ ← transaction l (Store.saveReconState st now)

/-- `touch`: the freshness heartbeat writes the row back as it was read. -/
def touch : Engine PUnit := do
  let st ← query .rowRead (·.getReconState cfg.bot)
  let now ← clockNow
  let _ ← transaction .stampWrite (Store.saveReconState st now)

/-! ## The run -/

/-- What a run has collected so far: its mismatches, and how many ambiguous orders are pending. -/
structure Findings where
  mismatches : List Mismatch := []
  pendingAmbiguous : Nat := 0

/-- A program of a run, which keeps its findings through an exception. -/
abbrev RunM (α : Type) : Type 1 := LProc Ledger Label Ans Exn Findings α

def report (kind : MismatchKind) (severity : MismatchSeverity) (clientOrderId : Option String)
    (detail : MismatchDetail) (resolved : Bool := false) : RunM PUnit :=
  LProc.assign fun f =>
    { f with mismatches := f.mismatches ++ [{ kind, severity, clientOrderId, detail, resolved }] }

def addPending : RunM PUnit :=
  LProc.assign fun f => { f with pendingAmbiguous := f.pendingAmbiguous + 1 }

/-- The handler of an order conflict: a CRITICAL mismatch; every other exception passes. -/
def onConflict {α : Type} (order : Order) (outcome : Except Exn α) (k : α → RunM PUnit) :
    RunM PUnit :=
  match outcome with
  | .ok a => k a
  | .error (.orderConflict message) =>
    report .orderStateConflict .critical (some order.clientOrderId) (.error message)
  | .error e => throw e

/-- Steps 2-4 for one local non-terminal order. -/
def checkOpenOrder (order : Order) : RunM PUnit := do
  if order.submissionAmbiguous ∨ order.status = .submitting then
    let outcome ← LProc.exec (OrderService.resolveAmbiguous cfg order).attempt
    onConflict order outcome fun
      | .pending => do
        addPending
        report .ambiguousOrderPending .warning (some order.clientOrderId) (.status order.status)
      | .resolved => pure ⟨⟩
  else
    let outcome ← LProc.exec (OrderService.refresh cfg order).attempt
    onConflict order outcome fun _ => pure ⟨⟩

/-- A recently terminal order whose exchange state is verified. -/
def isRecentTerminal (horizon : Time) (o : Order) : Bool :=
  o.isTerminal && truthy o.exchangeOrderId && o.terminalAt.any (horizon ≤ ·) &&
    !startsWith (o.rejectReason.getD "") "NOT_FOUND"

/-- `TERMINAL_VERIFY_LIMIT`. -/
def terminalVerifyLimit : Nat := 20

/-- The comparison of a terminal order with a report that differs from it: applying the report
raises on a terminal conflict. -/
def compareTerminal (order : Order) (rep : ExchangeOrderReport) : Engine Order := do
  let _ ← OrderService.applyReport cfg rep "reconciliation"
  let fresh ← query .query (·.getOrder order.clientOrderId)
  orRaise fresh "executed_quantity"

/-- Verification of one recently terminal order. -/
def verifyTerminal (order : Order) : RunM PUnit := do
  let rep ← LProc.exec (call (.queryOrder order))
  match rep with
  | none => report .terminalOrderMissingOnExchange .critical (some order.clientOrderId) .empty
  | some rep =>
    if rep.status ≠ order.status ∨ rep.executedQty ≠ order.executedQuantity then
      let outcome ← LProc.exec (compareTerminal cfg order rep).attempt
      onConflict order outcome fun fresh =>
        if rep.executedQty < fresh.executedQuantity then
          report .executedQtyExceedsExchange .critical (some order.clientOrderId)
            (.quantities fresh.executedQuantity rep.executedQty)
        else pure ⟨⟩
    else pure ⟨⟩

/-- One exchange open order that local state may not know about. -/
def checkExchangeOpen (rep : ExchangeOrderReport) : RunM PUnit := do
  let loc ← LProc.exec (query .query (·.getOrder rep.clientOrderId))
  match loc with
  | some _ => pure ⟨⟩
  | none =>
    let ours := startsWith rep.clientOrderId (StreamIngestionService.ownPrefix cfg)
    report (if ours then .unknownBotOrder else .foreignOpenOrder)
      (if ours then .critical else .warning) (some rep.clientOrderId)
      (.exchangeOrder rep.exchangeOrderId rep.status)

/-- The adoption of the order an exchange report names: the order the report names by its client
order id takes over the report. -/
def adopt (rep : Option ExchangeOrderReport) : RunM (Except (Option String) PUnit) :=
  match rep with
  | none => return .error none
  | some rep => do
    let loc ← LProc.exec (query .query fun s =>
      if rep.clientOrderId ≠ "" then s.getOrder rep.clientOrderId else none)
    match loc with
    | none => return .error (some rep.clientOrderId)
    | some _ =>
      let _ ← LProc.exec (OrderService.applyReport cfg rep "reconciliation")
      return .ok ⟨⟩

/-- The local order of a recent fill: by exchange order id, else the order whose client order id
the exchange reports for it, which is then adopted. -/
def ownerOfFill (xf : ExchangeFill) : RunM (Except (Option String) PUnit) := do
  let loc ← LProc.exec (query .query fun s =>
    if truthy xf.exchangeOrderId then
      xf.exchangeOrderId.bind (s.getOrderByExchangeId cfg.exchangeName)
    else none)
  match loc with
  | some _ => return .ok ⟨⟩
  | none =>
    if truthy xf.exchangeOrderId then
      let rep ← LProc.exec (call (.queryOrderByExchangeId cfg.symbol (xf.exchangeOrderId.getD "")))
      adopt cfg rep
    else adopt cfg none

/-- Step 5 for one recent fill: ingested when it belongs to a local order, reported otherwise. -/
def checkRecentFill (xf : ExchangeFill) : RunM PUnit := do
  match ← ownerOfFill cfg xf with
  | .error coid =>
    let ours := coid.any fun c => c ≠ "" && startsWith c (StreamIngestionService.ownPrefix cfg)
    report (if ours then .unknownBotFill else .foreignFill) (if ours then .critical else .warning)
      coid (.exchangeFill xf.eventKey xf.exchangeOrderId)
  | .ok _ =>
    let _ ← LProc.exec (OrderService.ingestFill cfg xf)

/-- The executed quantity of one order must be explained by its recorded fills. -/
def checkFillsComplete (tolerance : ℚ) (order : Order) : RunM PUnit := do
  if order.executedQuantity ≤ 0 ∨ order.status = .submitting then pure ⟨⟩
  else
    let have_ ← LProc.exec (query .query (·.fillQuantity order))
    if tolerance < |have_ - order.executedQuantity| then
      LProc.exec (OrderService.ingestOrderFills cfg (some order))
      let have_ ← LProc.exec (query .query (·.fillQuantity order))
      if tolerance < |have_ - order.executedQuantity| then
        report .fillsIncomplete .critical (some order.clientOrderId)
          (.quantities order.executedQuantity have_)
      else pure ⟨⟩
    else pure ⟨⟩

/-- `PositionService.rebuild` with `persist`: the row, the fills and the write are three steps. -/
def rebuild : Engine (Position × List Anomaly) := do
  let existing ← query .query (·.getPosition cfg.bot cfg.symbol)
  let fills ← query .rebuildRead (·.fillsOf cfg.bot cfg.symbol)
  let res := PositionService.rebuilt existing cfg.bot cfg.symbol fills
  let now ← clockNow
  let p ← transaction .rebuildWrite (Store.savePosition res.1 now)
  return (p, res.2)

/-- What the rebuilt position is compared with: the position before, its anomalies, the balance. -/
def comparePosition (tolerance : ℚ) (before rebuilt : Position) (anomalies : List Anomaly)
    (baseTotal : ℚ) : RunM PUnit := do
  if tolerance < |before.quantity - rebuilt.quantity| then
    report .positionCorrected .warning none (.quantities before.quantity rebuilt.quantity) true
  anomalies.forM fun a => report .positionAnomaly .critical none (.anomaly a)
  if tolerance < rebuilt.quantity - baseTotal then
    report .balanceBelowPosition .critical none (.quantities rebuilt.quantity baseTotal)

/-- The presence of the protective stop, which the trading worker places. -/
def checkProtectiveStop (rules : SymbolRules) (rebuilt : Position) : RunM PUnit :=
  if cfg.protectiveStopOnExchange && rebuilt.isOpen rules then do
    let open_ ← LProc.exec (query .query (·.nonTerminalOrders cfg.bot cfg.symbol))
    if !open_.any fun o => decide (o.purpose = .protectiveStop) then
      report .protectiveStopMissing .warning none (.position rebuilt.quantity)
  else pure ⟨⟩

/-- Steps 6-7: balances, position rebuild and the balance check. -/
def checkPosition (runKey : RunKey) (rules : SymbolRules) (tolerance : ℚ) : RunM PUnit := do
  let balances ← LProc.exec (call .balances)
  let before ← LProc.exec (query .query (·.getPosition cfg.bot cfg.symbol))
  let (rebuilt, anomalies) ← LProc.exec (rebuild cfg)
  comparePosition tolerance before rebuilt anomalies (balances.total rules.baseAsset)
  LProc.exec (transaction .commit (Store.setBalances cfg.bot balances.balances))
  let now ← LProc.exec clockNow
  LProc.exec (transaction .commit (Store.enqueue .positions (.positionRecon cfg.symbol runKey)
    (.position rebuilt) now))
  checkProtectiveStop cfg rules rebuilt

/-- The lower end of the recent fills to fetch, in milliseconds. -/
def fillsSinceMs (horizon : Time) (lastSuccessAt : Option Time) : Int :=
  (match lastSuccessAt with
   | some t => max horizon (t - seconds 600)
   | none => horizon).tdiv 1000

/-- The try block of `run`. -/
def body (runKey : RunKey) (lastSuccessAt : Option Time) : RunM PUnit := do
  let rules ← LProc.exec (call (.symbolRules cfg.symbol))
  let tolerance := max rules.stepSize (1 / 100000000)
  let localOpen ← LProc.exec (query .query (·.nonTerminalOrders cfg.bot cfg.symbol))
  let exchangeOpen ← LProc.exec (call (.openOrders cfg.symbol))
  localOpen.forM (checkOpenOrder cfg)
  let now ← LProc.exec clockNow
  let horizon := now - seconds (cfg.recentFillsLookbackHours * 3600)
  let recent ← LProc.exec (query .query (·.newestOrders cfg.bot cfg.symbol 100))
  ((recent.filter (isRecentTerminal horizon)).take terminalVerifyLimit).forM (verifyTerminal cfg)
  exchangeOpen.forM (checkExchangeOpen cfg)
  let fills ← LProc.exec (call (.recentFills cfg.symbol (fillsSinceMs horizon lastSuccessAt)))
  fills.forM (checkRecentFill cfg)
  let orders ← LProc.exec (query .query (·.newestOrders cfg.bot cfg.symbol 100))
  orders.forM (checkFillsComplete cfg tolerance)
  checkPosition cfg runKey rules tolerance

structure ReconResult where
  status : ReconciliationStatus
  reason : String
  mismatches : List Mismatch
  runKey : RunKey

/-- `critical`: the unresolved CRITICAL mismatches. -/
def ReconResult.critical (r : ReconResult) : List Mismatch :=
  r.mismatches.filter Mismatch.isCritical

/-- `"; ".join(sorted({m["kind"] for m in critical}))`. -/
def criticalReason (critical : List Mismatch) : String :=
  "; ".intercalate ((critical.map (·.kind.value)).dedup.insertionSort (· ≤ ·))

/-- The verdict of a run whose try block returned. -/
def verdict (previous : ReconciliationState) (operatorAck : Bool) (runKey : RunKey)
    (f : Findings) : ReconResult :=
  let critical := f.mismatches.filter Mismatch.isCritical
  let mk status reason : ReconResult := { status, reason, mismatches := f.mismatches, runKey }
  if critical ≠ [] then mk .halted (criticalReason critical)
  else if f.pendingAmbiguous ≠ 0 then
    mk .reconciling s!"{f.pendingAmbiguous} ambiguous order(s) inside grace window"
  else if previous.status = .halted ∧ !operatorAck then
    mk .halted
      s!"clean, awaiting operator acknowledgement (was HALTED: {previous.reason})"
  else mk .healthy "reconciled"

/-- The result of a run whose try block raised. -/
def aborted (runKey : RunKey) (f : Findings) (exc : Exn) : ReconResult :=
  { status := .degraded
    reason := s!"reconciliation failed: {exc.typeName}: " ++
      String.ofList (exc.message.toList.take 200)
    mismatches := f.mismatches, runKey }

/-- `_persist`: the run with its mismatches, then its message. -/
def persist (result : ReconResult) (reason : String) (started : Time) : Engine PUnit := do
  let run : ReconRun :=
    { runKey := result.runKey, bot := cfg.bot, reason, status := result.status
      startedAt := started, mismatches := result.mismatches }
  transaction .commit (Store.recordReconRun run)
  let now ← clockNow
  transaction .commit (Store.enqueue .reconciliation (.recon result.runKey)
    (.reconciliation run result.reason now) now)

/-- What follows the try block: the verdict, or DEGRADED after an exception. -/
def conclude (previous : ReconciliationState) (operatorAck : Bool) (runKey : RunKey)
    (reason : String) (started : Time) (outcome : Except Exn PUnit) (f : Findings) :
    Engine ReconResult :=
  match outcome with
  | .error exc => do
    let result := aborted runKey f exc
    persist cfg result reason started
    setState cfg (.runFailed result.reason) result.status result.reason false none
    return result
  | .ok _ => do
    let result := verdict previous operatorAck runKey f
    let clean := decide (result.critical = [] ∧ f.pendingAmbiguous = 0)
    persist cfg result reason started
    setState cfg (.runEnd operatorAck clean result.status result.reason) result.status
      result.reason (decide (result.status = .healthy)) none
    if result.status = .halted ∧ result.critical ≠ [] then
      let now ← clockNow
      let payload := EventPayload.halt runKey result.critical
      transaction .commit (Store.enqueue .events (.halt runKey)
        (.event .reconciliationHalted .critical result.reason payload now) now)
      transaction .commit (Store.enqueue .telegram (.telegram (.halt runKey))
        (.telegram cfg.bot .critical .reconciliationHalted result.reason) now)
    return result

/-- `run`. -/
def run (reason : String) (operatorAck : Bool) : Engine ReconResult := do
  let started ← clockNow
  let previous ← query .query (·.getReconState cfg.bot)
  let nonce ← freshNonce
  let runKey : RunKey := { bot := cfg.bot, started, nonce }
  let starting := s!"reconciling ({reason})"
  setState cfg (.runStart operatorAck previous.status starting) .reconciling starting false none
  let (outcome, findings) ← (body cfg runKey previous.lastSuccessAt).outcome {}
  conclude cfg previous operatorAck runKey reason started outcome findings

end ReconciliationService

end CryptoBot
