import CryptoBot.Application.OrderMessages
import CryptoBot.Application.Programs

/-!
# What the engine leaves in the outbox

A journal is a relation between ledgers that admits what the transactions of the engine do to the
orders and to the outbox: messages about something else, the order service's transactions, and
whatever leaves intents, orders and outbox alone. Every program of both workers takes only steps of
every journal. Three journals are read off: the outbox stays in step with the orders and with the
fills, and it grows at its end only.
-/

namespace CryptoBot

open Lib OrderService ReconciliationService ReconciliationWorker StreamIngestionService TradingCycle

/-- The keys of messages about fills. -/
def OutboxKey.isFill : OutboxKey → Bool
  | .fill _ => true
  | _ => false

/-- The messages about fills. -/
def OutboxMessage.tellsFill : OutboxMessage → Bool
  | .fill _ => true
  | _ => false

/-- A message about an order or a fill, by its key or by itself. -/
def OutboxMessage.journaled (key : OutboxKey) (message : OutboxMessage) : Bool :=
  (key.isOrder || message.tellsOrder) || (key.isFill || message.tellsFill)

/-- A relation that admits what the transactions of the engine do. -/
structure Journal (cfg : Config) (R : Ledger → Ledger → Prop) : Prop where
  trans : ∀ {s s' s''}, R s s' → R s' s'' → R s s''
  apart : ∀ {s s'}, s'.intents = s.intents → s'.orders = s.orders → s'.fills = s.fills →
    s'.outbox = s.outbox → R s s'
  tell : ∀ {kind key message now s s'}, message.journaled key = false →
    Store.enqueue kind key message now s = .ok (⟨⟩, s') → R s s'
  report : ∀ {r now s out s'}, applyReportTx cfg r now s = .ok (out, s') → R s s'
  reject : ∀ {c reason now s s'}, rejectTx c reason now s = .ok (⟨⟩, s') → R s s'
  flag : ∀ {c error now s s'}, flagAmbiguousTx cfg c error now s = .ok (⟨⟩, s') → R s s'
  persist : ∀ {intent rules o t now s r s'}, (newOrder cfg intent rules).markSubmitting t = .ok o →
    persistTx intent o now s = .ok (r, s') → R s s'
  ingest : ∀ {xf now s b s'}, ingestFillTx cfg xf now s = .ok (b, s') → R s s'

/-- A transaction that takes a step of the relation wherever it commits. -/
def Tx.Takes {α : Type} (R : Ledger → Ledger → Prop) (t : Tx α) : Prop :=
  ∀ s a s', t s = .ok (a, s') → R s s'

theorem Tx.Takes.bind {R : Ledger → Ledger → Prop} {α β : Type} {t : Tx α} {f : α → Tx β}
    (htrans : ∀ {s s' s''}, R s s' → R s' s'' → R s s'') (ht : t.Takes R) (hf : ∀ a, (f a).Takes R) :
    (t >>= f).Takes R := by
  intro s b s' h
  obtain ⟨a, s₁, h₁, h₂⟩ := Tx.bind_ok.1 h
  exact htrans (ht s a s₁ h₁) (hf a s₁ b s' h₂)

namespace Journal

variable {cfg : Config} {R : Ledger → Ledger → Prop} {α β : Type} {now : Time}

/-! ## Transactions -/

theorem refl (hR : Journal cfg R) (s : Ledger) : R s s := hR.apart rfl rfl rfl rfl

theorem pure_takes (hR : Journal cfg R) (a : α) : (pure a : Tx α).Takes R := fun s _ _ h => by
  obtain ⟨-, rfl⟩ := Tx.pure_ok.1 h
  exact hR.refl s

theorem seq_takes (hR : Journal cfg R) {t : Tx α} {f : α → Tx β} (ht : t.Takes R)
    (hf : ∀ a, (f a).Takes R) : (t >>= f).Takes R := .bind hR.trans ht hf

theorem tell_takes (hR : Journal cfg R) {kind : OutboxKind} {key : OutboxKey}
    {message : OutboxMessage} (haside : message.journaled key = false) :
    (Store.enqueue kind key message now).Takes R := fun _ _ _ h => hR.tell haside h

theorem handleTx_takes (hR : Journal cfg R) {eventKey : String} {r : ExchangeOrderReport}
    {xf : Option ExchangeFill} : (handleTx cfg eventKey r xf now).Takes R := by
  refine hR.seq_takes (fun s b s' h => ?_) fun new => ?_
  · unfold Store.markEventProcessed at h
    split at h <;> cases h <;> exact hR.apart rfl rfl rfl rfl
  · split
    · refine hR.seq_takes (fun _ _ _ h => hR.report h) fun out => ?_
      cases out with
      | conflict => exact fun _ _ _ h => (by cases h)
      | unknown | applied =>
        cases xf with
        | none => exact hR.pure_takes _
        | some xf => exact hR.seq_takes (fun _ _ _ h => hR.ingest h) fun _ => hR.pure_takes _
    · exact hR.pure_takes _

theorem setStop_takes (hR : Journal cfg R) {price : ℚ} :
    (PositionService.setStop cfg.bot cfg.symbol price now).Takes R := by
  refine hR.seq_takes (fun _ _ _ h => ?_) fun _ _ _ _ h => ?_
  · cases h
    exact hR.refl _
  · cases h
    exact hR.apart rfl rfl rfl rfl

theorem mark_takes (hR : Journal cfg R) {price : ℚ} :
    (PositionService.mark cfg.bot cfg.symbol price now).Takes R := by
  refine hR.seq_takes (fun _ _ _ h => ?_) fun _ _ _ _ h => ?_
  · cases h
    exact hR.refl _
  · cases h
    exact hR.apart rfl rfl rfl rfl

/-! ## The order service -/

theorem read (hR : Journal cfg R) (l : Label) (f : Ledger → α) :
    (query l f).Within fun _ => R := query_within hR.refl

theorem commit (hR : Journal cfg R) {l : Label} {t : Tx α} (ht : t.Takes R) :
    (transaction l t).Within fun _ => R := transaction_within hR.refl ht

/-- A transaction on the other tables. -/
theorem commit_apart (hR : Journal cfg R) {l : Label} {t : Tx α} (ht : ∀ s a s', t s = .ok (a, s') →
    s'.intents = s.intents ∧ s'.orders = s.orders ∧ s'.fills = s.fills ∧ s'.outbox = s.outbox) :
    (transaction l t).Within fun _ => R := by
  refine hR.commit fun s a s' h => ?_
  obtain ⟨hintents, horders, hfills, houtbox⟩ := ht s a s' h
  exact hR.apart hintents horders hfills houtbox

theorem alert (hR : Journal cfg R) {l l' : Label} {kind kind' : OutboxKind} {key key' : OutboxKey}
    {message message' : OutboxMessage} {now' : Time} (haside : message.journaled key = false)
    (haside' : message'.journaled key' = false) :
    Proc.Within (fun _ => R) (do
      transaction l (Store.enqueue kind key message now)
      transaction l' (Store.enqueue kind' key' message' now') : Engine PUnit) :=
  (hR.commit (hR.tell_takes haside)).bind fun _ => hR.commit (hR.tell_takes haside')

theorem recordConflict (hR : Journal cfg R) {c message source : String} {status : OrderStatus} :
    (OrderService.recordConflict cfg c status message source).Within fun _ => R :=
  clockNow_within.bind fun _ => hR.alert rfl rfl

theorem applyReport (hR : Journal cfg R) {r : ExchangeOrderReport} {source : String} :
    (OrderService.applyReport cfg r source).Within fun _ => R := by
  refine clockNow_within.bind fun _ => (hR.commit fun _ _ _ h => hR.report h).bind fun out => ?_
  cases out with
  | unknown | applied => exact Proc.within_pure _
  | conflict c m => exact hR.recordConflict.bind fun _ => Proc.within_throw _

theorem ingestFill (hR : Journal cfg R) {xf : ExchangeFill} :
    (OrderService.ingestFill cfg xf).Within fun _ => R :=
  clockNow_within.bind fun _ => hR.commit fun _ _ _ h => hR.ingest h

theorem ingestFills (hR : Journal cfg R) {xfs : List ExchangeFill} :
    (OrderService.ingestFills cfg xfs).Within fun _ => R :=
  Proc.Within.forM (fun _ => hR.ingestFill.bind fun _ => Proc.within_pure _) xfs

theorem ingestOrderFills (hR : Journal cfg R) {o : Option Order} :
    (OrderService.ingestOrderFills cfg o).Within fun _ => R := by
  cases o with
  | none => exact Proc.within_pure _
  | some o =>
    exact .ite ((call_within _).bind fun _ => hR.ingestFills) (Proc.within_pure _)

theorem refresh (hR : Journal cfg R) {o : Order} :
    (OrderService.refresh cfg o).Within fun _ => R := by
  have hrest : Proc.Within (fun _ => R) (do
      let fresh ← query .query (·.getOrder o.clientOrderId)
      OrderService.ingestOrderFills cfg fresh
      query .query (·.getOrder o.clientOrderId) : Engine (Option Order)) :=
    (hR.read _ _).bind fun _ => hR.ingestOrderFills.bind fun _ => hR.read _ _
  refine (call_within _).bind fun rep => ?_
  cases rep with
  | none => exact hrest
  | some r => exact hR.applyReport.bind fun _ => hrest

theorem cancel (hR : Journal cfg R) {o : Order} :
    (OrderService.cancel cfg o).Within fun _ => R := by
  have hlook : (lookAgain cfg o).Within fun _ => R := by
    refine hR.refresh.attempt.bind fun r => ?_
    rcases r with e | fresh
    · cases e with
      | orderConflict m => exact Proc.within_throw _
      | _ => exact hR.read _ _
    · exact Proc.within_pure _
  refine (call_within _).bind fun out => ?_
  dsimp only
  split
  · exact hR.applyReport.bind fun _ => hlook
  · exact hlook

theorem resolveAmbiguous (hR : Journal cfg R) {o : Order} :
    (OrderService.resolveAmbiguous cfg o).Within fun _ => R := by
  refine .ite (Proc.within_pure _) ((call_within _).attempt.bind fun r => ?_)
  rcases r with e | _ | r
  · exact Proc.within_pure _
  · refine clockNow_within.bind fun t => .ite (Proc.within_pure _) ?_
    exact (hR.commit fun _ _ _ h => hR.reject h).bind fun _ => Proc.within_pure _
  · exact hR.applyReport.bind fun _ => (hR.read _ _).bind fun _ =>
      hR.ingestOrderFills.bind fun _ => Proc.within_pure _

theorem settle (hR : Journal cfg R) {o : Order} {out : SubmitOutcome} :
    (OrderService.settle cfg o out).Within fun _ => R := by
  unfold OrderService.settle
  split
  · exact (orRaise_within _ _).bind fun _ => hR.applyReport.bind fun _ => hR.ingestFills
  · exact clockNow_within.bind fun _ => hR.commit fun _ _ _ h => hR.reject h
  · exact clockNow_within.bind fun _ => (hR.commit fun _ _ _ h => hR.flag h).bind
      fun _ => (hR.read _ _).bind fun _ => (orRaise_within _ _).bind fun _ =>
        hR.resolveAmbiguous.bind fun _ => Proc.within_pure _

theorem submitIntent (hR : Journal cfg R) {intent : OrderIntent} {rules : SymbolRules} :
    (OrderService.submitIntent cfg intent rules).Within fun _ => R := by
  refine (hR.read _ _).bind fun existing => ?_
  cases existing with
  | some o => exact Proc.within_pure _
  | none =>
    refine clockNow_within.bind fun t => ?_
    dsimp only
    split
    · exact Proc.within_throw _
    · next o₀ ho =>
      refine (hR.commit fun _ _ _ h => hR.persist ho h).bind fun r => ?_
      cases r with
      | error existing => exact Proc.within_pure _
      | ok o =>
        refine (call_within _).attempt.bind fun out => ?_
        cases out <;> exact hR.settle.bind fun _ => hR.read _ _

theorem handle (hR : Journal cfg R) {ev : StreamEvent} :
    (StreamIngestionService.handle cfg ev).Within fun _ => R := by
  cases ev with
  | terminated | ignored => exact Proc.within_pure _
  | balance b =>
    exact (hR.read _ _).bind fun _ =>
      (hR.commit_apart fun _ _ _ h => by cases h; exact ⟨rfl, rfl, rfl, rfl⟩).bind fun _ =>
        Proc.within_pure _
  | order eventKey r xf =>
    refine (hR.read _ _).bind fun found => ?_
    cases found with
    | none =>
      dsimp only
      split <;> exact Proc.within_pure _
    | some o =>
      refine clockNow_within.bind fun t => (hR.commit hR.handleTx_takes).attempt.bind fun res => ?_
      rcases res with e | out
      · cases e with
        | orderConflict m => exact hR.recordConflict.bind fun _ => Proc.within_pure _
        | _ => exact Proc.within_throw _
      · exact Proc.within_pure _

/-! ## A reconciliation run -/

theorem saveState (hR : Journal cfg R) {l : Label} {st : ReconciliationState} :
    (transaction l (Store.saveReconState st now)).Within fun _ => R :=
  hR.commit_apart fun _ _ _ h => by cases h; exact ⟨rfl, rfl, rfl, rfl⟩

theorem setState (hR : Journal cfg R) {l : Label} {status : ReconciliationStatus} {reason : String}
    {success : Bool} {ws : Option Bool} :
    (ReconciliationService.setState cfg l status reason success ws).Within fun _ => R :=
  (hR.read _ _).bind fun _ => clockNow_within.bind fun _ => hR.saveState.bind fun _ =>
    Proc.within_pure _

theorem touch (hR : Journal cfg R) : (ReconciliationService.touch cfg).Within fun _ => R :=
  (hR.read _ _).bind fun _ => clockNow_within.bind fun _ => hR.saveState.bind fun _ =>
    Proc.within_pure _

theorem onConflict {o : Order} {out : Except Exn α} {k : α → RunM PUnit}
    (hk : ∀ a, (k a).Within fun _ => R) :
    (ReconciliationService.onConflict o out k).Within fun _ => R := by
  unfold ReconciliationService.onConflict
  split
  · exact hk _
  · exact LProc.within_assign _
  · exact LProc.within_throw _

theorem checkOpenOrder (hR : Journal cfg R) {o : Order} :
    (ReconciliationService.checkOpenOrder cfg o).Within fun _ => R := by
  refine .ite ?_ ?_
  · refine (LProc.within_exec hR.resolveAmbiguous.attempt).bind fun out => onConflict fun r => ?_
    cases r with
    | pending => exact (LProc.within_assign _).bind fun _ => LProc.within_assign _
    | resolved => exact LProc.within_pure _
  · exact (LProc.within_exec hR.refresh.attempt).bind fun out =>
      onConflict fun _ => LProc.within_pure _

theorem verifyTerminal (hR : Journal cfg R) {o : Order} :
    (ReconciliationService.verifyTerminal cfg o).Within fun _ => R := by
  refine (LProc.within_exec (call_within _)).bind fun rep => ?_
  cases rep with
  | none => exact LProc.within_assign _
  | some r =>
    refine .ite ?_ (LProc.within_pure _)
    refine (LProc.within_exec (Proc.Within.attempt ?_)).bind fun out =>
      onConflict fun fresh => (LProc.within_assign _).ite (LProc.within_pure _)
    exact hR.applyReport.bind fun _ => (hR.read _ _).bind fun _ => orRaise_within _ _

theorem checkExchangeOpen (hR : Journal cfg R) {r : ExchangeOrderReport} :
    (ReconciliationService.checkExchangeOpen cfg r).Within fun _ => R := by
  refine (LProc.within_exec (hR.read _ _)).bind fun loc => ?_
  cases loc with
  | some _ => exact LProc.within_pure _
  | none => exact LProc.within_assign _

theorem adopt (hR : Journal cfg R) {rep : Option ExchangeOrderReport} :
    (ReconciliationService.adopt cfg rep).Within fun _ => R := by
  cases rep with
  | none => exact LProc.within_pure _
  | some rep =>
    refine (LProc.within_exec (hR.read _ _)).bind fun loc => ?_
    cases loc with
    | none => exact LProc.within_pure _
    | some _ => exact (LProc.within_exec hR.applyReport).bind fun _ => LProc.within_pure _

theorem checkRecentFill (hR : Journal cfg R) {xf : ExchangeFill} :
    (ReconciliationService.checkRecentFill cfg xf).Within fun _ => R := by
  refine LProc.Within.bind ?_ fun owner => ?_
  · refine (LProc.within_exec (hR.read _ _)).bind fun loc => ?_
    cases loc with
    | some _ => exact LProc.within_pure _
    | none => exact ((LProc.within_exec (call_within _)).bind fun _ => hR.adopt).ite hR.adopt
  · cases owner with
    | error c => exact LProc.within_assign _
    | ok _ => exact (LProc.within_exec hR.ingestFill).bind fun _ => LProc.within_pure _

theorem checkFillsComplete (hR : Journal cfg R) {tolerance : ℚ} {o : Order} :
    (ReconciliationService.checkFillsComplete cfg tolerance o).Within fun _ => R :=
  (LProc.within_pure _).ite <| (LProc.within_exec (hR.read _ _)).bind fun _ =>
    .ite ((LProc.within_exec hR.ingestOrderFills).bind fun _ =>
      (LProc.within_exec (hR.read _ _)).bind fun _ =>
        (LProc.within_assign _).ite (LProc.within_pure _)) (LProc.within_pure _)

theorem rebuild (hR : Journal cfg R) :
    (ReconciliationService.rebuild cfg).Within fun _ => R :=
  (hR.read _ _).bind fun _ => (hR.read _ _).bind fun _ => clockNow_within.bind fun _ =>
    (hR.commit_apart fun _ _ _ h => by cases h; exact ⟨rfl, rfl, rfl, rfl⟩).bind fun _ =>
    Proc.within_pure _

theorem comparePosition {tolerance baseTotal : ℚ} {before rebuilt : Position}
    {anomalies : List Anomaly} :
    (ReconciliationService.comparePosition tolerance before rebuilt anomalies baseTotal).Within
      fun _ => R := by
  have hlast : LProc.Within (fun _ => R) (if tolerance < rebuilt.quantity - baseTotal then
      ReconciliationService.report .balanceBelowPosition .critical none
        (.quantities rebuilt.quantity baseTotal)
      else pure ⟨⟩) := (LProc.within_assign _).ite (LProc.within_pure _)
  have hrest := (LProc.Within.forM (R := fun _ => R)
    (f := fun a => ReconciliationService.report .positionAnomaly .critical none (.anomaly a))
    (fun _ => LProc.within_assign _) anomalies).bind fun _ => hlast
  exact LProc.Within.ite ((LProc.within_assign _).bind fun _ => hrest) hrest

theorem checkPosition (hR : Journal cfg R) {runKey : RunKey} {rules : SymbolRules} {tolerance : ℚ} :
    (ReconciliationService.checkPosition cfg runKey rules tolerance).Within fun _ => R := by
  refine (LProc.within_exec (call_within _)).bind fun _ =>
    (LProc.within_exec (hR.read _ _)).bind fun _ =>
    (LProc.within_exec hR.rebuild).bind fun _ => comparePosition.bind fun _ =>
    (LProc.within_exec (hR.commit_apart fun _ _ _ h => by cases h; exact ⟨rfl, rfl, rfl, rfl⟩)).bind
      fun _ => (LProc.within_exec clockNow_within).bind fun _ =>
    (LProc.within_exec (hR.commit (hR.tell_takes rfl))).bind fun _ => ?_
  exact .ite ((LProc.within_exec (hR.read _ _)).bind fun _ =>
    (LProc.within_assign _).ite (LProc.within_pure _)) (LProc.within_pure _)

theorem body (hR : Journal cfg R) {runKey : RunKey} {last : Option Time} :
    (ReconciliationService.body cfg runKey last).Within fun _ => R :=
  (LProc.within_exec (call_within _)).bind fun _ =>
    (LProc.within_exec (hR.read _ _)).bind fun _ =>
    (LProc.within_exec (call_within _)).bind fun _ =>
    (LProc.Within.forM (fun _ => hR.checkOpenOrder) _).bind fun _ =>
    (LProc.within_exec clockNow_within).bind fun _ =>
    (LProc.within_exec (hR.read _ _)).bind fun _ =>
    (LProc.Within.forM (fun _ => hR.verifyTerminal) _).bind fun _ =>
    (LProc.Within.forM (fun _ => hR.checkExchangeOpen) _).bind fun _ =>
    (LProc.within_exec (call_within _)).bind fun _ =>
    (LProc.Within.forM (fun _ => hR.checkRecentFill) _).bind fun _ =>
    (LProc.within_exec (hR.read _ _)).bind fun _ =>
    (LProc.Within.forM (fun _ => hR.checkFillsComplete) _).bind fun _ => hR.checkPosition

theorem persistRun (hR : Journal cfg R) {result : ReconResult} {reason : String} {started : Time} :
    (ReconciliationService.persist cfg result reason started).Within fun _ => R :=
  (hR.commit_apart fun _ _ _ h => by cases h; exact ⟨rfl, rfl, rfl, rfl⟩).bind fun _ =>
    clockNow_within.bind fun _ => hR.commit (hR.tell_takes rfl)

theorem conclude (hR : Journal cfg R) {previous : ReconciliationState} {ack : Bool}
    {runKey : RunKey} {reason : String} {started : Time} {outcome : Except Exn PUnit}
    {f : Findings} : (ReconciliationService.conclude cfg previous ack runKey reason started outcome
      f).Within fun _ => R := by
  cases outcome with
  | error e =>
    exact hR.persistRun.bind fun _ => hR.setState.bind fun _ => Proc.within_pure _
  | ok _ =>
    refine hR.persistRun.bind fun _ => hR.setState.bind fun _ => .ite ?_ (Proc.within_pure _)
    exact clockNow_within.bind fun _ => (hR.commit (hR.tell_takes rfl)).bind fun _ =>
      (hR.commit (hR.tell_takes rfl)).bind fun _ => Proc.within_pure _

theorem run (hR : Journal cfg R) {reason : String} {ack : Bool} :
    (ReconciliationService.run cfg reason ack).Within fun _ => R :=
  clockNow_within.bind fun _ => (hR.read _ _).bind fun _ => freshNonce_within.bind fun _ =>
    hR.setState.bind fun _ => (hR.body.outcome _).bind fun _ => hR.conclude

/-! ## The reconciliation worker -/

theorem updateRow (hR : Journal cfg R) {l : Label}
    {f : Time → ReconciliationState → ReconciliationState} :
    (ReconciliationWorker.updateRow cfg l f).Within fun _ => R :=
  (hR.read _ _).bind fun _ => clockNow_within.bind fun _ => hR.saveState.bind fun _ =>
    Proc.within_pure _

theorem reconcile (hR : Journal cfg R) {reason : String} {ack : Bool} :
    (ReconciliationWorker.reconcile cfg reason ack).Within fun _ => R :=
  hR.run.bind fun _ => streamConnected_within.bind fun _ =>
    .ite (hR.setState.bind fun _ => Proc.within_pure _) (Proc.within_pure _)

theorem onState (hR : Journal cfg R) {state : StreamState} {detail : String} :
    (ReconciliationWorker.onState cfg state detail).Within fun _ => R := by
  cases state with
  | connecting => exact (hR.read _ _).bind fun _ => .ite hR.setState (Proc.within_pure _)
  | disconnected => exact (hR.read _ _).bind fun _ => .ite hR.setState hR.setState
  | subscribed =>
    exact hR.updateRow.bind fun _ => hR.reconcile.bind fun _ => Proc.within_pure _

theorem onEvent (hR : Journal cfg R) {ev : StreamEvent} :
    (ReconciliationWorker.onEvent cfg ev).Within fun _ => R :=
  hR.handle.bind fun _ => hR.updateRow.bind fun _ => Proc.within_pure _

theorem pollControl (hR : Journal cfg R) {last : Option String} :
    (ReconciliationWorker.pollControl cfg last).Within fun _ => R := by
  refine (call_within _).attempt.bind fun r => ?_
  cases r with
  | error e => exact Proc.within_pure _
  | ok control =>
    exact .ite ((hR.reconcile.bind fun _ => hR.updateRow).attempt.bind fun _ =>
      Proc.within_pure _) (Proc.within_pure _)

theorem start (hR : Journal cfg R) : (ReconciliationWorker.start cfg).Within fun _ => R :=
  (hR.read _ _).bind fun _ => .ite hR.setState (Proc.within_pure _)

/-! ## The trading cycle -/

theorem nextIntentId (hR : Journal cfg R) {base : IntentBase} {attempt n : Nat} :
    (TradingCycle.nextIntentId base attempt n).Within fun _ => R := by
  induction n generalizing attempt with
  | zero => exact Proc.within_pure _
  | succ n ih =>
    refine (hR.read _ _).bind fun existing => ?_
    cases existing with
    | none => exact Proc.within_pure _
    | some o => exact ih.ite (Proc.within_pure _)

theorem submit (hR : Journal cfg R) {purpose : OrderPurpose} {side : OrderSide} {qty refPrice : ℚ}
    {rules : SymbolRules} {base : IntentBase} {signalId : Option SignalId} {orderType : OrderType}
    {limit stop : Option ℚ} :
    (TradingCycle.submit cfg purpose side qty rules refPrice base signalId orderType limit
      stop).Within fun _ => R := by
  refine hR.nextIntentId.bind fun iid => ?_
  cases iid with
  | none =>
    exact clockNow_within.bind fun _ => (hR.commit (hR.tell_takes rfl)).bind fun _ =>
      (hR.commit (hR.tell_takes rfl)).bind fun _ => Proc.within_pure _
  | some iid => exact hR.submitIntent

theorem cancelStops (hR : Journal cfg R) {orders : List Order} :
    (TradingCycle.cancelStops cfg orders).Within fun _ => R := by
  induction orders with
  | nil => exact Proc.within_pure _
  | cons o os ih =>
    exact .ite (hR.cancel.bind fun _ => (orRaise_within _ _).bind fun _ =>
      ih.ite (Proc.within_pure _)) ih

theorem sellPosition (hR : Journal cfg R) {purpose : OrderPurpose} {rules : SymbolRules}
    {refPrice : ℚ} : (TradingCycle.sellPosition cfg purpose rules refPrice).Within fun _ => R := by
  refine (hR.read _ _).bind fun p => .ite (Proc.within_pure _) (hR.submit.bind fun o => ?_)
  cases o with
  | none => exact Proc.within_pure _
  | some o =>
    exact (hR.read _ _).bind fun _ => .ite (Proc.within_pure _) (Proc.within_pure _)

theorem exit (hR : Journal cfg R) {purpose : OrderPurpose} {rules : SymbolRules} {refPrice : ℚ} :
    (TradingCycle.exit cfg purpose rules refPrice).Within fun _ => R :=
  (hR.read _ _).bind fun _ => hR.cancelStops.bind fun _ =>
    hR.sellPosition.ite (Proc.within_pure _)

theorem ensureProtectiveStop (hR : Journal cfg R) {p : Position} {rules : SymbolRules} :
    (TradingCycle.ensureProtectiveStop cfg p rules).Within fun _ => R := by
  refine (hR.read _ _).bind fun open_ => ?_
  split
  · exact Proc.within_pure _
  · refine .ite (Proc.within_pure _) (.ite (Proc.within_pure _) (hR.submit.bind fun o => ?_))
    cases o <;> exact Proc.within_pure _

theorem readFunds (hR : Journal cfg R) {rules : SymbolRules} {snap : MarketSnapshot} :
    (TradingCycle.readFunds cfg rules snap).Within fun _ => R := by
  refine (call_within _).attempt.bind fun r => ?_
  cases r with
  | error e => exact (hR.read _ _).bind fun _ => Proc.within_pure _
  | ok bal =>
    refine (hR.read _ _).bind fun _ => clockNow_within.bind fun _ =>
      ((hR.read _ _).bind fun _ => ?_).bind fun _ => Proc.within_pure _
    exact (hR.commit_apart fun _ _ _ h => by cases h; exact ⟨rfl, rfl, rfl, rfl⟩).bind fun _ =>
      Proc.within_pure _

theorem refreshInFlight (hR : Journal cfg R) {orders : List Order} :
    (TradingCycle.refreshInFlight cfg orders).Within fun _ => R :=
  Proc.Within.forM (fun _ =>
    .ite (hR.resolveAmbiguous.attempt.bind fun _ => Proc.within_pure _)
      (hR.refresh.attempt.bind fun _ => Proc.within_pure _)) orders

theorem manageOpen (hR : Journal cfg R) {control : Control} {rules : SymbolRules}
    {snap : MarketSnapshot} {signal : Signal} {p : Position} :
    (TradingCycle.manageOpen cfg control rules snap signal p).Within fun _ => R := by
  unfold TradingCycle.manageOpen
  dsimp only
  split
  · exact hR.exit.bind fun _ => Proc.within_pure _
  · exact .ite (hR.exit.bind fun _ => Proc.within_pure _)
      (.ite (hR.ensureProtectiveStop.bind fun _ => Proc.within_pure _) (Proc.within_pure _))

theorem protectEntry (hR : Journal cfg R) {rules : SymbolRules} {o : Order} :
    (TradingCycle.protectEntry cfg rules o).Within fun _ => R :=
  .ite ((hR.read _ _).bind fun _ => .ite
    (clockNow_within.bind fun _ => (hR.commit hR.setStop_takes).bind fun _ =>
      .ite (hR.ensureProtectiveStop.bind fun _ => Proc.within_pure _) (Proc.within_pure _))
    (Proc.within_pure _)) (Proc.within_pure _)

theorem tryEntry (hR : Journal cfg R) {control : Control} {st : ReconciliationState}
    {entriesOk : Bool} {funds : Funds} {rules : SymbolRules} {snap : MarketSnapshot}
    {signal : Signal} {signalId : SignalId} :
    (TradingCycle.tryEntry cfg control st entriesOk funds rules snap signal signalId).Within
      fun _ => R := by
  refine .ite (Proc.within_pure _) ((hR.read _ _).bind fun _ => (hR.read _ _).bind fun _ =>
    .ite (Proc.within_pure _) ?_)
  dsimp only
  split
  · exact Proc.within_pure _
  · refine hR.submit.bind fun o => ?_
    cases o with
    | none => exact Proc.within_pure _
    | some o => exact hR.protectEntry.bind fun _ => Proc.within_pure _

theorem decideOrders (hR : Journal cfg R) {control : Control} {st : ReconciliationState}
    {entriesOk : Bool} {funds : Funds} {rules : SymbolRules} {snap : MarketSnapshot}
    {signal : Signal} {signalId : SignalId} :
    (TradingCycle.decideOrders cfg control st entriesOk funds rules snap signal signalId).Within
      fun _ => R := by
  refine (hR.read _ _).bind fun _ => hR.refreshInFlight.bind fun _ => (hR.read _ _).bind fun _ =>
    .ite (Proc.within_pure _) ((hR.read _ _).bind fun p => .ite ?_ hR.tryEntry)
  split
  · exact hR.manageOpen
  · exact clockNow_within.bind fun _ => (hR.commit hR.setStop_takes).bind fun _ => hR.manageOpen

theorem trade (hR : Journal cfg R) {control : Control} {st : ReconciliationState}
    {entriesOk : Bool} : (TradingCycle.trade cfg control st entriesOk).Within fun _ => R := by
  refine (call_within _).bind fun snap => ?_
  cases snap with
  | error reason => exact Proc.within_pure _
  | ok snap =>
    exact (call_within _).bind fun _ => clockNow_within.bind fun _ =>
      (hR.commit hR.mark_takes).bind fun _ => hR.readFunds.bind fun _ =>
      (call_within _).bind fun _ => clockNow_within.bind fun _ =>
      (hR.commit (hR.tell_takes rfl)).bind fun _ => hR.decideOrders

theorem reconciliationGate (hR : Journal cfg R) {control : Control} :
    (TradingCycle.reconciliationGate cfg control).Within fun _ => R :=
  (hR.read _ _).bind fun _ => .ite
    (hR.run.bind fun _ => .ite
      ((hR.read _ _).bind fun _ => clockNow_within.bind fun _ => hR.saveState.bind fun _ =>
        hR.read _ _)
      (hR.read _ _))
    (Proc.within_pure _)

theorem runOnce (hR : Journal cfg R) : (TradingCycle.runOnce cfg).Within fun _ => R := by
  refine clockNow_within.bind fun _ => (call_within _).attempt.bind fun control => ?_
  cases control with
  | error e => exact (hR.commit (hR.tell_takes rfl)).bind fun _ => Proc.within_pure _
  | ok control =>
    refine (call_within _).attempt.bind fun valid => ?_
    cases valid with
    | error e => exact Proc.within_pure _
    | ok _ =>
      exact hR.reconciliationGate.bind fun _ => clockNow_within.bind fun _ =>
        clockNow_within.bind fun _ => .ite (Proc.within_pure _)
          (hR.trade.bind fun _ => Proc.within_pure _)

/-- Every program of the engine takes only steps of the journal. -/
theorem program (hR : Journal cfg R) {G : ExchangeOrderReport → Prop}
    {p : Prog Ledger Label Ans PUnit} (hp : EngineProgram cfg G p) : p.Within fun _ => R := by
  cases hp with
  | runOnce => exact Prog.Within.forget hR.runOnce
  | run => exact Prog.Within.forget hR.run
  | start => exact Prog.Within.forget hR.start
  | onState => exact Prog.Within.forget hR.onState
  | onEvent => exact Prog.Within.forget hR.onEvent
  | pollControl => exact Prog.Within.forget hR.pollControl
  | touch => exact Prog.Within.forget hR.touch

end Journal

/-! ## Journals of the outbox -/

section
variable {cfg : Config} {R : Ledger → Ledger → Prop} {s s' s'' : Ledger} {now : Time}

theorem saveOrder_fills {o o' : Order} (h : Store.saveOrder o s = .ok (o', s')) :
    s'.fills = s.fills := by
  unfold Store.saveOrder at h
  dsimp only at h
  split at h
  · split at h <;> cases h
    rfl
  · cases h

theorem enqueueEvent_takes {bot message : String} {type : EventType} {severity : EventSeverity}
    {payload : EventPayload} {key : OutboxKey} {alert : Bool}
    (htrans : ∀ {s s' s''}, R s s' → R s' s'' → R s s'') (hrefl : ∀ s, R s s)
    (hevent : (Store.enqueue .events key (.event type severity message payload now) now).Takes R)
    (halert : (Store.enqueue .telegram (.telegram key) (.telegram bot severity type message)
      now).Takes R) :
    (Store.enqueueEvent bot type message severity payload key alert now).Takes R := by
  refine .bind htrans hevent fun _ => ?_
  split
  · exact halert
  · exact fun s _ _ h => (Tx.pure_ok.1 h).2 ▸ hrefl s

/-- A relation that is about the fills and the outbox, and admits every message but those about
fills, is a journal when it admits the transaction of a fill. -/
theorem journal_of_messages (htrans : ∀ {s s' s''}, R s s' → R s' s'' → R s s'')
    (hsame : ∀ {s s'}, s'.fills = s.fills → s'.outbox = s.outbox → R s s')
    (htell : ∀ {kind key message now}, key.isFill = false → message.tellsFill = false →
      (Store.enqueue kind key message now).Takes R)
    (hingest : ∀ {xf now}, (ingestFillTx cfg xf now).Takes R) : Journal cfg R := by
  have hsaved {o o' : Order} {now : Time} {s s' s'' : Ledger}
      (hsave : Store.saveOrder o s = .ok (o', s'))
      (h : Store.enqueueOrder o' now s' = .ok (⟨⟩, s'')) : R s s'' :=
    htrans (hsame (saveOrder_fills hsave) (saveOrder_outbox hsave)) (htell rfl rfl _ _ _ h)
  refine ⟨htrans, fun _ _ hf hb => hsame hf hb, fun haside h => ?_, fun h => ?_, fun h => ?_,
    fun h => ?_, fun {_ _ _ _ _ s _ _} _ h => ?_, fun h => hingest _ _ _ h⟩
  · obtain ⟨hkey, hmessage⟩ := Bool.or_eq_false_iff.1 (Bool.or_eq_false_iff.1 haside).2
    exact htell hkey hmessage _ _ _ h
  · unfold applyReportTx at h
    split at h
    · cases h
      exact hsame rfl rfl
    · split at h
      · cases h
        exact hsame rfl rfl
      · split at h
        · obtain ⟨o, s₁, hsave, h⟩ := Tx.bind_ok.1 h
          obtain ⟨_, s₂, h₂, h⟩ := Tx.bind_ok.1 h
          obtain ⟨-, rfl⟩ := Tx.pure_ok.1 h
          exact hsaved hsave h₂
        · cases h
          exact hsame rfl rfl
  · obtain ⟨o, s₁, hget, h₁⟩ := Tx.bind_ok.1 h
    obtain ⟨-, rfl⟩ := Store.present_ok hget
    obtain ⟨⟨b, o₁⟩, s₂, hleg, h₂⟩ := Tx.bind_ok.1 h₁
    obtain ⟨-, rfl⟩ := Store.legal_ok hleg
    cases b with
    | false =>
      obtain ⟨-, rfl⟩ := Tx.pure_ok.1 h₂
      exact hsame rfl rfl
    | true =>
      obtain ⟨o₂, s₃, hsave, h₃⟩ := Tx.bind_ok.1 h₂
      exact hsaved hsave h₃
  · obtain ⟨o, s₁, hget, h₁⟩ := Tx.bind_ok.1 h
    obtain ⟨-, rfl⟩ := Store.present_ok hget
    obtain ⟨o₂, s₂, hsave, h₂⟩ := Tx.bind_ok.1 h₁
    obtain ⟨_, s₃, h₃, h₄⟩ := Tx.bind_ok.1 h₂
    exact htrans (hsaved hsave h₃) (enqueueEvent_takes (R := R) htrans (fun _ => hsame rfl rfl)
      (htell rfl rfl) (htell rfl rfl) _ _ _ h₄)
  · obtain ⟨x, s₁, hins, h₁⟩ := Tx.bind_ok.1 h
    have hinsert : R s s₁ := by
      unfold Store.insertIntentAndOrder at hins
      split at hins
      · cases hins
        exact hsame rfl rfl
      · dsimp only at hins
        split at hins <;> cases hins
        exact hsame rfl rfl
    cases x with
    | none =>
      obtain ⟨_, s₂, hget, h₂⟩ := Tx.bind_ok.1 h₁
      cases hget
      obtain ⟨-, rfl⟩ := Tx.pure_ok.1 h₂
      exact hinsert
    | some o =>
      obtain ⟨o₂, s₂, hsave, h₂⟩ := Tx.bind_ok.1 h₁
      obtain ⟨_, s₃, h₃, h₄⟩ := Tx.bind_ok.1 h₂
      obtain ⟨-, rfl⟩ := Tx.pure_ok.1 h₄
      exact htrans hinsert (hsaved hsave h₃)

/-- The outbox stays in step with the orders. -/
theorem published_journal : Journal cfg fun s s' => Published s → Published s' where
  trans h h' := h' ∘ h
  apart hi ho _ hb := by
    rintro ⟨h1, h2, h3, h4, h5⟩
    refine ⟨?_, ?_, ?_, ?_, ?_⟩ <;> simp only [hi, ho, hb, Ledger.intentSignalId] <;> assumption
  tell haside h := by
    obtain ⟨hkey, hmessage⟩ := Bool.or_eq_false_iff.1 (Bool.or_eq_false_iff.1 haside).1
    exact enqueue_publishes hkey hmessage _ _ _ h
  report h := applyReportTx_publishes _ _ _ h
  reject h := rejectTx_publishes _ _ _ h
  flag h := flagAmbiguousTx_publishes _ _ _ h
  persist ho h := persistTx_publishes ho _ _ _ h
  ingest h := ingestFillTx_publishes _ _ _ h

/-! ## The rows of the outbox -/

/-- The rows of the outbox are as they were; those that have followed are pending and have larger
ids. -/
structure Grown (s s' : Ledger) : Prop where
  rows : ∃ more, s'.outbox = s.outbox ++ more ∧ ∀ r ∈ more, r.status = .pending
  ordered : s.outbox.Pairwise (fun a b => a.id < b.id) → s'.outbox.Pairwise fun a b => a.id < b.id

namespace Grown

theorem of_outbox (h : s'.outbox = s.outbox) : Grown s s' :=
  ⟨⟨[], by rw [h, List.append_nil], List.forall_mem_nil _⟩, fun ho => h ▸ ho⟩

theorem trans (h : Grown s s') (h' : Grown s' s'') : Grown s s'' := by
  obtain ⟨more, hmore, hpending⟩ := h.rows
  obtain ⟨more', hmore', hpending'⟩ := h'.rows
  refine ⟨⟨more ++ more', by rw [hmore', hmore, List.append_assoc], fun r hr => ?_⟩,
    fun ho => h'.ordered (h.ordered ho)⟩
  exact (List.mem_append.1 hr).elim (hpending r) (hpending' r)

theorem enqueue {kind : OutboxKind} {key : OutboxKey} {message : OutboxMessage} :
    (Store.enqueue kind key message now).Takes Grown := by
  intro s _ s' h
  unfold Store.enqueue at h
  split at h
  · cases h
    exact .of_outbox rfl
  · cases h
    refine ⟨⟨_, rfl, fun r hr => by rw [List.mem_singleton.1 hr]⟩, fun ho => ?_⟩
    refine List.pairwise_append.2 ⟨ho, List.pairwise_singleton _ _, fun a ha b hb => ?_⟩
    rw [List.mem_singleton.1 hb]
    exact Store.lt_nextId (List.mem_map_of_mem ha)

theorem pure {α : Type} (a : α) : (Pure.pure a : Tx α).Takes Grown := fun _ _ _ h =>
  (Tx.pure_ok.1 h).2 ▸ of_outbox rfl

theorem ingest {xf : ExchangeFill} : (ingestFillTx cfg xf now).Takes Grown := by
  intro s b s' h
  unfold ingestFillTx at h
  split at h
  · cases h
    exact .of_outbox rfl
  · refine Tx.Takes.bind (R := Grown) trans (fun s r s' h => ?_) (fun r => ?_) s b s' h
    · unfold Store.insertFill at h
      dsimp only at h
      split at h <;> cases h <;> exact .of_outbox rfl
    · cases r with
      | none => exact pure _
      | some fill =>
        refine .bind trans (fun _ _ _ h => ?_) fun _ => .bind trans enqueue fun _ =>
          .bind trans enqueue fun _ => ?_
        · cases h
          exact .of_outbox rfl
        · split
          · exact .bind trans (enqueueEvent_takes trans (fun _ => .of_outbox rfl) enqueue enqueue)
              fun _ => pure _
          · exact pure _

end Grown

/-- The outbox grows at its end only. -/
theorem grown_journal : Journal cfg Grown :=
  journal_of_messages .trans (fun _ h => .of_outbox h) (fun _ _ => .enqueue) .ingest

/-! ## The fills -/

/-- The outbox holds the message of every fill, under the key of the fill, and nothing about fills
that are not recorded. -/
structure FillsTold (s : Ledger) : Prop where
  told : ∀ f ∈ s.fills.rows, ∃ row ∈ s.outbox, row.kind = .fills ∧ row.key = .fill f.eventKey ∧
    row.message = .fill f
  recorded : ∀ row ∈ s.outbox, ∀ k, row.key = .fill k → ∃ f ∈ s.fills.rows, f.eventKey = k
  shape : ∀ row ∈ s.outbox, ∀ f, row.message = .fill f → f ∈ s.fills.rows

namespace FillsTold

theorem empty : FillsTold {} := ⟨fun _ h => (by cases h), fun _ h => (by cases h),
  fun _ h => (by cases h)⟩

/-- A message about something else. -/
theorem tell {kind : OutboxKind} {key : OutboxKey} {message : OutboxMessage}
    (hkey : key.isFill = false) (hmessage : message.tellsFill = false) :
    (Store.enqueue kind key message now).Takes fun s s' => FillsTold s → FillsTold s' := by
  intro s _ s' h hs
  obtain ⟨-, rfl⟩ | ⟨-, row, -, hk, hm, rfl⟩ := Store.enqueue_cases h
  · exact hs
  · refine ⟨fun f hf => ?_, fun r hr k hrk => ?_, fun r hr f hrm => ?_⟩
    · obtain ⟨r, hr, hrest⟩ := hs.told f hf
      exact ⟨r, List.mem_append_left _ hr, hrest⟩
    · rcases List.mem_append.1 hr with hr | hr
      · exact hs.recorded r hr k hrk
      · rw [List.mem_singleton.1 hr, hk] at hrk
        rw [hrk] at hkey
        cases hkey
    · rcases List.mem_append.1 hr with hr | hr
      · exact hs.shape r hr f hrm
      · rw [List.mem_singleton.1 hr, hm] at hrm
        rw [hrm] at hmessage
        cases hmessage

/-- A new fill, and its message. -/
theorem record {g : Fill} (hs : FillsTold s) (hfills : s'.fills.rows = s.fills.rows ++ [g])
    (hnew : ∀ f ∈ s.fills.rows, f.eventKey ≠ g.eventKey) (houtbox : s'.outbox = s.outbox)
    (h : Store.enqueue .fills (.fill g.eventKey) (.fill g) now s' = .ok (⟨⟩, s'')) :
    FillsTold s'' := by
  have hold {f : Fill} (hf : f ∈ s.fills.rows) : f ∈ s'.fills.rows :=
    hfills ▸ List.mem_append_left _ hf
  have hg : g ∈ s'.fills.rows := hfills ▸ List.mem_append_right _ (List.mem_singleton_self _)
  obtain ⟨⟨r, hr, hk⟩, -⟩ | ⟨-, row, hkind, hk, hm, rfl⟩ := Store.enqueue_cases h
  · obtain ⟨f, hf, he⟩ := hs.recorded r (houtbox ▸ hr) _ hk
    exact absurd he (hnew f hf)
  · refine ⟨fun f hf => ?_, fun r hr k hrk => ?_, fun r hr f hrm => ?_⟩
    · rw [hfills] at hf
      rcases List.mem_append.1 hf with hf | hf
      · obtain ⟨r, hr, hrest⟩ := hs.told f hf
        exact ⟨r, List.mem_append_left _ (houtbox ▸ hr), hrest⟩
      · obtain rfl := List.mem_singleton.1 hf
        exact ⟨row, List.mem_append_right _ (List.mem_singleton_self _), hkind, hk, hm⟩
    · rcases List.mem_append.1 hr with hr | hr
      · obtain ⟨f, hf, he⟩ := hs.recorded r (houtbox ▸ hr) k hrk
        exact ⟨f, hold hf, he⟩
      · rw [List.mem_singleton.1 hr, hk] at hrk
        cases hrk
        exact ⟨g, hg, rfl⟩
    · rcases List.mem_append.1 hr with hr | hr
      · exact hold (hs.shape r (houtbox ▸ hr) f hrm)
      · rw [List.mem_singleton.1 hr, hm] at hrm
        cases hrm
        exact hg

theorem ingest {xf : ExchangeFill} :
    (ingestFillTx cfg xf now).Takes fun s s' => FillsTold s → FillsTold s' := by
  intro s b s' h hs
  unfold ingestFillTx at h
  split at h
  · cases h
    exact hs
  · obtain ⟨r, s₁, hins, h₁⟩ := Tx.bind_ok.1 h
    have houtbox : s₁.outbox = s.outbox := by
      unfold Store.insertFill at hins
      dsimp only at hins
      split at hins <;> cases hins <;> rfl
    rcases Store.insertFill_ok hins with ⟨rfl, rfl, -⟩ | ⟨g, rfl, -, hnew, hfills, -⟩
    · cases h₁
      exact hs
    · obtain ⟨res, s₂, happly, h₂⟩ := Tx.bind_ok.1 h₁
      have hsame : s₂.fills = s₁.fills ∧ s₂.outbox = s₁.outbox := by
        cases happly
        exact ⟨rfl, rfl⟩
      obtain ⟨_, s₃, hfill, h₃⟩ := Tx.bind_ok.1 h₂
      have hs₃ : FillsTold s₃ := hs.record (hsame.1 ▸ hfills) (fun f hf => (hnew f hf).2.1)
        (hsame.2.trans houtbox) hfill
      obtain ⟨_, s₄, hposition, h₄⟩ := Tx.bind_ok.1 h₃
      have hs₄ := tell rfl rfl _ _ _ hposition hs₃
      split at h₄
      · obtain ⟨_, s₅, hevent, h₅⟩ := Tx.bind_ok.1 h₄
        obtain ⟨-, rfl⟩ := Tx.pure_ok.1 h₅
        exact enqueueEvent_takes (R := fun s s' => FillsTold s → FillsTold s') (fun h h' => h' ∘ h)
          (fun _ => id) (tell rfl rfl) (tell rfl rfl) _ _ _ hevent hs₄
      · obtain ⟨-, rfl⟩ := Tx.pure_ok.1 h₄
        exact hs₄

end FillsTold

/-- The outbox stays in step with the fills. -/
theorem fillsTold_journal : Journal cfg fun s s' => FillsTold s → FillsTold s' := by
  refine journal_of_messages (fun h h' => h' ∘ h) ?_ FillsTold.tell FillsTold.ingest
  rintro s s' hf hb ⟨h1, h2, h3⟩
  refine ⟨?_, ?_, ?_⟩ <;> simp only [hf, hb] <;> assumption

end

end CryptoBot
