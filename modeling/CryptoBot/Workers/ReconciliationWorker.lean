import CryptoBot.Application.ReconciliationService

/-!
# The reconciliation worker

`workers/reconciliation_worker.py`: the callbacks of the user-data stream, the reconciliation they
and the timer start, and the freshness heartbeat. Each is a program of its own; the worker runs
them in different threads.
-/

namespace CryptoBot

open Lib

namespace ReconciliationWorker

variable (cfg : Config)

inductive StreamState
  | connecting | disconnected | subscribed
deriving DecidableEq, Repr

/-- An update of the reconciliation row that is no `set_state`: the whole row is read, changed by
`f`, and written back. -/
def updateRow (l : Label) (f : Time → ReconciliationState → ReconciliationState) : Engine PUnit := do
  let st ← query .rowRead (·.getReconState cfg.bot)
  let now ← clockNow
  let _ ← transaction l (Store.saveReconState (f now st) now)

/-- `reconcile`: a stream that dropped during the run leaves REST state fine but live updates
not. -/
def reconcile (reason : String) (operatorAck : Bool) :
    Engine ReconciliationService.ReconResult := do
  let result ← ReconciliationService.run cfg reason operatorAck
  let connected ← streamConnected
  if !connected ∧ result.status = .healthy then
    let reason := "reconciled but websocket not connected"
    ReconciliationService.setState cfg (.setState .degraded reason) .degraded reason false
      (some false)
  return result

/-- `on_state`. -/
def onState (state : StreamState) (detail : String) : Engine PUnit :=
  match state with
  | .connecting => do
    let current ← query .query (·.getReconState cfg.bot)
    if current.status ≠ .halted then
      ReconciliationService.setState cfg (.setState .connecting detail) .connecting detail false
        (some false)
  | .disconnected => do
    let current ← query .query (·.getReconState cfg.bot)
    if current.status ≠ .halted then
      let reason := s!"websocket down: {detail}"
      ReconciliationService.setState cfg (.setState .degraded reason) .degraded reason false
        (some false)
    else
      ReconciliationService.setState cfg (.setState .halted current.reason) .halted current.reason
        false (some false)
  | .subscribed => do
    updateRow cfg .flagWrite fun _ st => { st with wsConnected := true }
    let _ ← reconcile cfg "websocket (re)subscribed" false

/-- `on_event`; the result says whether it starts a reconciliation. -/
def onEvent (ev : StreamEvent) : Engine Bool := do
  let outcome ← StreamIngestionService.handle cfg ev
  updateRow cfg .stampWrite fun now st => { st with lastWsEventAt := some now }
  return outcome.needsReconciliation

/-- `TOUCH_SECONDS` and `CONTROL_POLL_SECONDS`. -/
def touchSeconds : Nat := 15

def controlPollSeconds : Nat := 30

/-- The acknowledged run and the record of its token. -/
def acknowledge (ack : Option String) : Engine PUnit := do
  let _ ← reconcile cfg "operator acknowledgement" true
  updateRow cfg .flagWrite fun _ st => { st with lastAckToken := ack }

/-- The control poll of `_periodic`: a new acknowledgement token is remembered before the run it
starts, and whatever the run raises is logged. The result is the token last seen. -/
def pollControl (lastAck : Option String) : Engine (Option String) := do
  match ← (call .getControl).attempt with
  | .error _ => return lastAck
  | .ok control =>
    let ack := control.reconciliationAckToken
    if truthy ack ∧ ack ≠ lastAck then
      let _ ← (acknowledge cfg ack).attempt
      return ack
    else return lastAck

/-- The control poll, when it is due. -/
def pollDue (elapsed : Nat) (lastAck : Option String) : Engine (Option String) :=
  if elapsed % controlPollSeconds = 0 then pollControl cfg lastAck else pure lastAck

/-- The periodic run, when it is due. -/
def runDue (reconcileInterval elapsed : Nat) : Engine PUnit := do
  let connected ← streamConnected
  if connected ∧ elapsed % reconcileInterval < touchSeconds then
    let _ ← reconcile cfg "periodic" false

/-- One turn of the loop. -/
def turn (reconcileInterval elapsed : Nat) (lastAck : Option String) : Engine (Option String) := do
  ReconciliationService.touch cfg
  let lastAck ← pollDue cfg elapsed lastAck
  runDue cfg reconcileInterval elapsed
  return lastAck

/-- `n` turns of the loop. -/
def turns (reconcileInterval : Nat) : (n elapsed : Nat) → Option String → Engine PUnit
  | 0, _, _ => pure ⟨⟩
  | n + 1, elapsed, lastAck => do
    let lastAck ← turn cfg reconcileInterval (elapsed + touchSeconds) lastAck
    turns reconcileInterval n (elapsed + touchSeconds) lastAck

/-- `_periodic`, for `n` turns: the token last seen is read from the row at the start and kept in
memory from then on. -/
def periodic (reconcileInterval n : Nat) : Engine PUnit := do
  let st ← query .query (·.getReconState cfg.bot)
  turns cfg reconcileInterval n 0 st.lastAckToken

/-- The start of `run`: the stored state is kept when it is HALTED. -/
def start : Engine PUnit := do
  let current ← query .query (·.getReconState cfg.bot)
  if current.status ≠ .halted then
    let reason := "worker starting"
    ReconciliationService.setState cfg (.setState .connecting reason) .connecting reason false
      (some false)

end ReconciliationWorker

end CryptoBot
