import CryptoBot.Application.ReconciliationService
import CryptoBot.Application.RiskManager

/-!
# One trading decision cycle

`engine/application/trading_cycle.py`: control state, configuration, reconciliation state, market
data, risk, strategy signal, and only then an order. Any failed mandatory step means no new order.
-/

namespace CryptoBot

open Lib

namespace TradingCycle

variable (cfg : Config)

/-- `RETRYABLE_TERMINAL`. -/
def retryableTerminal : List OrderStatus := [.rejected, .canceled, .expired]

/-- `MAX_ATTEMPTS`. -/
def maxAttempts : OrderPurpose → Nat
  | .entry => 1
  | .exit | .stopExit | .protectiveStop => 3

inductive OrderLabel
  | buy | sell | stopLossHit
deriving DecidableEq, Repr

/-- `action_taken`. -/
inductive Action
  | nothing
  | blockedControlPlane
  | blockedConfiguration (message : String)
  | blockedReconciliation (status : ReconciliationStatus) (reason : String)
  | blockedMarketData (reason : String)
  | waitingInFlight (count : Nat)
  | waitingStopCancel
  | dust (quantity : ℚ)
  | attemptsExhausted (purpose : OrderPurpose)
  | exitFilled (label : OrderLabel) (pnl : ℚ)
  | described (label : OrderLabel) (order : Order)
  | hold
  | holdBelowMinimums
  | protectiveStop (status : OrderStatus)
  | halted
  | blockedEntry (reasons : List EntryBlock)
  | blockedSizing
  | entryAlreadyAttempted
deriving DecidableEq

structure CycleResult where
  action : Action
  reconciliation : Option ReconciliationStatus := none
  blockedReasons : List EntryBlock := []
deriving DecidableEq

/-! ## Submission -/

/-- A new attempt is only allowed after the previous one ended without any fill. -/
def endedWithoutFill (o : Order) : Bool :=
  retryableTerminal.contains o.status && decide (o.executedQuantity = 0)

/-- `_next_intent_id`, from an attempt on: the first attempt without an order, or with an order
that forbids another attempt (which is then not sent again). -/
def nextIntentId (base : IntentBase) (attempt : Nat) : (remaining : Nat) → Engine (Option IntentId)
  | 0 => pure none
  | n + 1 => do
    let iid : IntentId := { base, attempt }
    match ← query .query (·.getOrderByIntent iid) with
    | none => return some iid
    | some existing =>
      if endedWithoutFill existing then nextIntentId base (attempt + 1) n else return some iid

/-- The intent of a submission. -/
def newIntent (iid : IntentId) (purpose : OrderPurpose) (side : OrderSide) (qty refPrice : ℚ)
    (signalId : Option SignalId) (orderType : OrderType) (limitPrice stopPrice : Option ℚ) :
    OrderIntent :=
  { clientIntentId := iid, bot := cfg.bot, symbol := cfg.symbol, side, orderType, quantity := qty
    purpose, signalId, limitPrice, stopPrice, referencePrice := some refPrice }

/-- `_submit`: no order when the attempts are exhausted, which alerts the operator. -/
def submit (purpose : OrderPurpose) (side : OrderSide) (qty : ℚ) (rules : SymbolRules)
    (refPrice : ℚ) (base : IntentBase) (signalId : Option SignalId)
    (orderType : OrderType := .market) (limitPrice stopPrice : Option ℚ := none) :
    Engine (Option Order) := do
  match ← nextIntentId base 0 (maxAttempts purpose) with
  | none =>
    let now ← clockNow
    transaction .commit (Store.enqueue .events (.exhausted base)
      (.event .orderAttemptsExhausted .critical "" .empty now) now)
    transaction .commit (Store.enqueue .telegram (.telegram (.exhausted base))
      (.telegram cfg.bot .critical .orderAttemptsExhausted "") now)
    return none
  | some iid =>
    OrderService.submitIntent cfg
      (newIntent cfg iid purpose side qty refPrice signalId orderType limitPrice stopPrice) rules

/-- The base intent id of an exit or a protective stop of a position. -/
def positionBase (position : Position) (purpose : OrderPurpose) : IntentBase :=
  { bot := cfg.bot, symbol := cfg.symbol, purpose
    anchor := match position.openedAt with
      | some t => .openedAt t
      | none => .na }

/-- `_describe`, for an exit that is not simply filled. -/
def describe (order : Order) (label : OrderLabel) : Action := .described label order

/-! ## Exits and protective stops -/

/-- The first part of `_exit`: cancels the resting exchange stops, so that nothing is sold twice.
Whether every cancel is confirmed. -/
def cancelStops : List Order → Engine Bool
  | [] => pure true
  | o :: os =>
    if o.purpose = .protectiveStop then do
      let o ← OrderService.cancel cfg o
      let o ← orRaise o "is_terminal"
      if o.isTerminal then cancelStops os else return false
    else cancelStops os

/-- The second part of `_exit`: sells the tracked position. -/
def sellPosition (purpose : OrderPurpose) (rules : SymbolRules) (refPrice : ℚ) :
    Engine Action := do
  let position ← query .query (·.getPosition cfg.bot cfg.symbol)
  let qty := rules.roundQty position.quantity
  if !rules.isTradeable qty refPrice then return .dust position.quantity
  else
    match ← submit cfg purpose .sell qty rules refPrice (positionBase cfg position purpose) none with
    | none => return .attemptsExhausted purpose
    | some order =>
      let after ← query .query (·.getPosition cfg.bot cfg.symbol)
      let label : OrderLabel := if purpose = .stopExit then .stopLossHit else .sell
      if order.status = .filled then
        return .exitFilled label (after.realizedPnl - position.realizedPnl)
      else return describe order label

/-- `_exit`. -/
def exit (purpose : OrderPurpose) (rules : SymbolRules) (refPrice : ℚ) : Engine Action := do
  let open_ ← query .query (·.nonTerminalOrders cfg.bot cfg.symbol)
  if ← cancelStops cfg open_ then sellPosition cfg purpose rules refPrice
  else return .waitingStopCancel

/-- `_ensure_protective_stop`: places the resting stop of a position that has none. -/
def ensureProtectiveStop (position : Position) (rules : SymbolRules) : Engine (Option Action) := do
  let open_ ← query .query (·.nonTerminalOrders cfg.bot cfg.symbol)
  match position.stopPrice with
  | none => return none
  | some stopPrice =>
    if open_.any fun o => decide (o.purpose = .protectiveStop) then return none
    else
      let qty := rules.roundQty position.quantity
      let limit :=
        rules.roundPrice (stopPrice * (1 - cfg.protectiveStopLimitOffsetPct / 100))
      if !rules.isTradeable qty limit then return some .holdBelowMinimums
      else
        match ← submit cfg .protectiveStop .sell qty rules stopPrice
            (positionBase cfg position .protectiveStop) none .stopLossLimit (some limit)
            (some stopPrice) with
        | none => return none
        | some order => return some (.protectiveStop order.status)

/-! ## The cycle -/

/-- `_reconciliation_gate`: PAPER has no stream, so its ledger is reconciled inline. -/
def reconciliationGate (control : Control) : Engine ReconciliationState := do
  let ack := control.reconciliationAckToken
  let state ← query .query (·.getReconState cfg.bot)
  if cfg.tradingMode = .paper then
    let operatorAck := truthy ack && decide (ack ≠ state.lastAckToken)
    let _ ← ReconciliationService.run cfg "paper-cycle" operatorAck
    if operatorAck then
      let st ← query .rowRead (·.getReconState cfg.bot)
      let now ← clockNow
      let _ ← transaction .flagWrite (Store.saveReconState { st with lastAckToken := ack } now)
    query .query (·.getReconState cfg.bot)
  else return state

/-- What the balance query contributes: free quote balance and equity, or nothing when it fails,
and whether the daily loss limit is reached. -/
structure Funds where
  balances : Option (ℚ × ℚ)
  dailyHalted : Bool

/-- The balance query, the equity and the daily loss limit. -/
def readFunds (rules : SymbolRules) (snap : MarketSnapshot) : Engine Funds := do
  match ← (call .balances).attempt with
  | .ok bal =>
    let equity ← query .query fun s =>
      PositionService.equity s cfg.bot cfg.symbol (bal.total rules.quoteAsset) snap.markPrice
    let now ← clockNow
    let halted ← RiskManager.updateDaily cfg equity (now / seconds 86400)
    return { balances := some (bal.free rules.quoteAsset, equity), dailyHalted := halted }
  | .error _ =>
    let halted ← query .query (RiskManager.isDailyHalted cfg)
    return { balances := none, dailyHalted := halted }

/-- The orders that block new decisions: everything in flight but a resting stop. -/
def inFlight (s : Ledger) : List Order :=
  (s.nonTerminalOrders cfg.bot cfg.symbol).filter fun o => decide (o.purpose ≠ .protectiveStop)

/-- The refresh of the orders in flight; a failure is only logged. -/
def refreshInFlight (orders : List Order) : Engine PUnit :=
  orders.forM fun o => do
    if o.submissionAmbiguous then
      let _ ← (OrderService.resolveAmbiguous cfg o).attempt
    else
      let _ ← (OrderService.refresh cfg o).attempt

/-- The stop price of an average entry price, on the tick grid. -/
def entryStop (rules : SymbolRules) (averageEntryPrice : ℚ) : ℚ :=
  rules.roundPrice (RiskManager.stopPrice cfg averageEntryPrice)

/-- The exits of `run_once`, for an open position. -/
def manageOpen (control : Control) (rules : SymbolRules) (snap : MarketSnapshot) (signal : Signal)
    (position : Position) : Engine CycleResult := do
  let stopHit := match position.stopPrice, snap.stopCheckLow position.openedAt with
    | some stop, some low => if low ≤ stop then some stop else none
    | _, _ => none
  match stopHit with
  | some stop => return { action := ← exit cfg .stopExit rules stop }
  | none =>
    if signal.action = .sell ∧ !control.emergencyStop then
      return { action := ← exit cfg .exit rules snap.signalPrice }
    else
      let blockedReasons :=
        if signal.action = .sell then [EntryBlock.strategyExitsSuspended] else []
      if cfg.protectiveStopOnExchange then
        let placed ← ensureProtectiveStop cfg position rules
        return { action := placed.getD .hold, blockedReasons }
      else return { action := .hold, blockedReasons }

/-- The reasons of `run_once` against an entry. -/
def entryBlocks (control : Control) (st : ReconciliationState) (entriesOk : Bool) (funds : Funds)
    (openPositions : Nat) (dailyHalted : Bool) : List EntryBlock :=
  (if control.enabled then [] else [.botPaused]) ++
  (if control.emergencyStop then [.emergencyStop] else []) ++
  (if cfg.globalTradingEnabled then [] else [.globalTradingDisabled]) ++
  (if entriesOk then [] else [.reconciliation st.status]) ++
  (if funds.balances.isSome then [] else [.balancesUnavailable]) ++
  RiskManager.entryChecks cfg openPositions dailyHalted

/-- What follows a submitted entry: its stop, once it has executed. -/
def protectEntry (rules : SymbolRules) (order : Order) : Engine PUnit := do
  if order.status = .filled ∨ order.status = .partiallyFilled then
    let p ← query .query (·.getPosition cfg.bot cfg.symbol)
    if p.isOpen rules then
      let now ← clockNow
      let p ← transaction .commit (PositionService.setStop cfg.bot cfg.symbol
        (entryStop cfg rules p.averageEntryPrice) now)
      if cfg.protectiveStopOnExchange ∧ order.status = .filled then
        let _ ← ensureProtectiveStop cfg p rules

/-- The base intent id of an entry. -/
def entryBase (snap : MarketSnapshot) : IntentBase :=
  { bot := cfg.bot, symbol := cfg.symbol, anchor := .candle snap.candleTs, purpose := .entry }

/-- The entries of `run_once`, for a position that is not open. -/
def tryEntry (control : Control) (st : ReconciliationState) (entriesOk : Bool) (funds : Funds)
    (rules : SymbolRules) (snap : MarketSnapshot) (signal : Signal) (signalId : SignalId) :
    Engine CycleResult := do
  if signal.action ≠ .buy then
    return { action := if funds.dailyHalted then .halted else .nothing }
  else
    let openPositions ← query .query fun s =>
      PositionService.openPositionCount s cfg.bot cfg.symbol rules
    let halted ← query .query (RiskManager.isDailyHalted cfg)
    let reasons := entryBlocks cfg control st entriesOk funds openPositions halted
    if reasons ≠ [] then
      return { action := if funds.dailyHalted ∧ reasons.length = 1 then .halted
                 else .blockedEntry reasons
               blockedReasons := reasons }
    else
      let (quoteFree, equity) := funds.balances.getD (0, 0)
      match RiskManager.sizeEntry cfg equity snap.signalPrice rules (some quoteFree) with
      | none => return { action := .blockedSizing }
      | some qty =>
        match ← submit cfg .entry .buy qty rules snap.signalPrice (entryBase cfg snap)
            (some signalId) with
        | none => return { action := .entryAlreadyAttempted }
        | some order =>
          protectEntry cfg rules order
          return { action := describe order .buy }

/-- `run_once` from the in-flight orders on. -/
def decideOrders (control : Control) (st : ReconciliationState) (entriesOk : Bool) (funds : Funds)
    (rules : SymbolRules) (snap : MarketSnapshot) (signal : Signal) (signalId : SignalId) :
    Engine CycleResult := do
  let pending ← query .query (inFlight cfg)
  refreshInFlight cfg pending
  let pending ← query .query (inFlight cfg)
  if pending ≠ [] then return { action := .waitingInFlight pending.length }
  else
    let position ← query .query (·.getPosition cfg.bot cfg.symbol)
    if position.isOpen rules then
      match position.stopPrice with
      | some _ => manageOpen cfg control rules snap signal position
      | none =>
        let now ← clockNow
        let position ← transaction .commit (PositionService.setStop cfg.bot cfg.symbol
          (entryStop cfg rules position.averageEntryPrice) now)
        manageOpen cfg control rules snap signal position
    else tryEntry cfg control st entriesOk funds rules snap signal signalId

/-- `run_once` from the market data on. -/
def trade (control : Control) (st : ReconciliationState) (entriesOk : Bool) :
    Engine CycleResult := do
  match ← call (.snapshot cfg.symbol) with
  | .error reason => return { action := .blockedMarketData reason }
  | .ok snap =>
    let rules ← call (.symbolRules cfg.symbol)
    let now ← clockNow
    let _ ← transaction .commit (PositionService.mark cfg.bot cfg.symbol snap.markPrice now)
    let funds ← readFunds cfg rules snap
    let signal ← call (.evaluate snap)
    let signalId : SignalId :=
      { bot := cfg.bot, symbol := cfg.symbol, candleTs := snap.candleTs, action := signal.action
        score := signal.score }
    let now ← clockNow
    transaction .commit (Store.enqueue .signals (.signal signalId)
      (.signal signalId snap.signalPrice signal.reasons cfg.tradingMode now) now)
    decideOrders cfg control st entriesOk funds rules snap signal signalId

/-- `run_once`. -/
def runOnce : Engine CycleResult := do
  let now ← clockNow
  match ← (call .getControl).attempt with
  | .error e =>
    let message := String.ofList (e.message.toList.take 200)
    transaction .commit (Store.enqueue .events (.controlPlaneDown cfg.bot (now / seconds 3600))
      (.event .controlPlaneUnavailable .warning message .empty now) now)
    return { action := .blockedControlPlane }
  | .ok control =>
    match ← (call .validateRuntime).attempt with
    | .error e => return { action := .blockedConfiguration e.message }
    | .ok _ =>
      let st ← reconciliationGate cfg control
      let now ← clockNow
      let exitsOk := st.allowsExits now cfg.reconStateMaxAgeSeconds
      let now ← clockNow
      let entriesOk := st.allowsEntries now cfg.reconStateMaxAgeSeconds
      if !exitsOk then
        return { action := .blockedReconciliation st.status st.reason
                 reconciliation := some st.status }
      else
        let res ← trade cfg control st entriesOk
        return { res with reconciliation := some st.status }

end TradingCycle

/-! ## A sample cycle -/

/-- The answers of a control plane that lets the bot trade, a market at 100 and a strategy that says
`action`; the exchange answers the other calls. -/
def marketAnswers (action : SignalAction) (exchange : (r : Req) → Except Exn r.Val) :
    (r : Req) → Except Exn r.Val
  | .getControl =>
    .ok { enabled := true, emergencyStop := false, reconciliationAckToken := none }
  | .validateRuntime => .ok ⟨⟩
  | .snapshot _ =>
    .ok (.ok { candleTs := "2025-01-01T00:00:00+00:00", markPrice := 100, signalPrice := 100
               recentCandles := [] })
  | .balances => .ok ⟨[("USDT", ⟨600, 0⟩)]⟩
  | .evaluate _ => .ok { action, score := 1, reasons := [] }
  | r => exchange r

end CryptoBot
