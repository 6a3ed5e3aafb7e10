import CryptoBot.Application.OrderRules
import CryptoBot.Lib.Pool
import CryptoBot.Lib.Sequenced

/-!
# The programs of the engine, built from their transactions

Every program of the engine is a sequence of reads, calls and transactions. A property that
sequences hand on holds of a whole program as soon as it holds of these; what the exchange says is
known to meet a condition `G` on reports, and a transaction that applies a report may rely on it.
Two parts are left to the property itself: the resolution of an order whose submission is in doubt,
and `_submit`.
-/

namespace CryptoBot

open Lib OrderService ReconciliationService ReconciliationWorker StreamIngestionService TradingCycle

/-- What is known of the answer to a call when every report of the exchange meets `G`. -/
def Heard (G : ExchangeOrderReport → Prop) : (r : Req) → Except Exn r.Val → Prop
  | .submit .., .ok out | .cancel _, .ok out => ∀ rep, out.report = some rep → G rep
  | .queryOrder _, .ok rep | .queryOrderByExchangeId .., .ok rep => ∀ r, rep = some r → G r
  | _, _ => True

/-- Nothing need be known of the answers. -/
theorem heard_true (r : Req) (a : Except Exn r.Val) : Heard (fun _ => True) r a := by
  unfold Heard
  split <;> simp

/-- A transaction that leaves the intents and the orders alone. -/
def Tx.KeepsOrders {α : Type} (t : Tx α) : Prop :=
  ∀ s a s', t s = .ok (a, s') → s'.intents = s.intents ∧ s'.orders = s.orders

/-- A property that sequences hand on and that reads, calls other than a submission, and the
transactions of the exchange data have. -/
structure Handles (cfg : Config) (G : ExchangeOrderReport → Prop)
    (P : (α : Type) → Prog Ledger Label Ans α → Prop) : Prop extends Sequenced P where
  read : ∀ {α : Type} (l : Label) (f : Ledger → α), P _ (query l f).run
  ambient : ∀ {α : Type} (a : Ambient) (get : a.Val → Except Exn α),
    P _ (Proc.ask (Q := Request) (A := Ans) (σ := Ledger) (ι := Label) (.ambient a) get).run
  call : ∀ {α : Type} (r : Req) (k : Except Exn r.Val → Prog Ledger Label Ans α),
    (Request.call r).isSubmit = false → (∀ a, Heard G r a → P _ (k a)) → P _ (.call (.call r) k)
  keep : ∀ {α : Type} (l : Label) {t : Tx α}, t.KeepsOrders → P _ (transaction l t).run
  report : ∀ r now, G r → P _ (transaction .commit (applyReportTx cfg r now)).run
  event : ∀ key r xf now, G r → P _ (transaction .commit (handleTx cfg key r xf now)).run

/-- A property of everything but the submissions. -/
structure Resolves (cfg : Config) (G : ExchangeOrderReport → Prop)
    (P : (α : Type) → Prog Ledger Label Ans α → Prop) : Prop extends Handles cfg G P where
  resolve : ∀ o, P _ (resolveAmbiguous cfg o).run

/-- A property of the whole engine. -/
structure Governs (cfg : Config) (G : ExchangeOrderReport → Prop)
    (P : (α : Type) → Prog Ledger Label Ans α → Prop) : Prop extends Resolves cfg G P where
  submit : ∀ purpose side qty rules refPrice base signalId orderType limit stop,
    P _ (TradingCycle.submit cfg purpose side qty rules refPrice base signalId orderType limit
      stop).run

/-! ## Transactions that leave the orders alone -/

section
variable {α β : Type} {s s' : Ledger}

theorem Tx.KeepsOrders.pure (a : α) : (Pure.pure a : Tx α).KeepsOrders := fun _ _ _ h => by
  obtain ⟨-, rfl⟩ := Tx.pure_ok.1 h
  exact ⟨rfl, rfl⟩

theorem Tx.KeepsOrders.bind {t : Tx α} {f : α → Tx β} (ht : t.KeepsOrders)
    (hf : ∀ a, (f a).KeepsOrders) : (t >>= f).KeepsOrders := by
  intro s b s' h
  obtain ⟨a, s₁, h₁, h₂⟩ := Tx.bind_ok.1 h
  obtain ⟨hi, ho⟩ := ht s a s₁ h₁
  obtain ⟨hi', ho'⟩ := hf a s₁ b s' h₂
  exact ⟨hi'.trans hi, ho'.trans ho⟩

theorem Tx.KeepsOrders.get : (MonadState.get : Tx Ledger).KeepsOrders := fun _ _ _ h => by
  cases h
  exact ⟨rfl, rfl⟩

theorem Store.enqueue_keeps {kind : OutboxKind} {key : OutboxKey} {message : OutboxMessage}
    {now : Time} : (Store.enqueue kind key message now).KeepsOrders := fun _ _ _ h =>
  ⟨(congrArg Ledger.intents (Store.enqueue_books h) :),
    (congrArg Ledger.orders (Store.enqueue_books h) :)⟩

theorem Store.savePosition_keeps {p : Position} {now : Time} :
    (Store.savePosition p now).KeepsOrders := fun _ _ _ h => by
  cases h
  exact ⟨rfl, rfl⟩

theorem Store.saveReconState_keeps {st : ReconciliationState} {now : Time} :
    (Store.saveReconState st now).KeepsOrders := fun _ _ _ h => by
  cases h
  exact ⟨rfl, rfl⟩

theorem ingestFillTx_keeps {cfg : Config} {xf : ExchangeFill} {now : Time} :
    (ingestFillTx cfg xf now).KeepsOrders := by
  intro s b s' h
  rcases ingestFillTx_cases h with ⟨-, rfl⟩ | ⟨o, -, ⟨rfl, -⟩ | ⟨f, -, hf⟩⟩
  · exact ⟨rfl, rfl⟩
  · exact ⟨rfl, rfl⟩
  · exact ⟨(congrArg Ledger.intents hf.rest :), (congrArg Ledger.orders hf.rest :)⟩

end

/-! ## Exchange data -/

namespace Handles

variable {cfg : Config} {G : ExchangeOrderReport → Prop}
  {P : (α : Type) → Prog Ledger Label Ans α → Prop} {α : Type}

theorem now (hP : Handles cfg G P) : P _ clockNow.run := hP.ambient .now .ok

theorem nonce (hP : Handles cfg G P) : P _ freshNonce.run := hP.ambient .uuid .ok

theorem connected (hP : Handles cfg G P) : P _ streamConnected.run := hP.ambient .connected .ok

/-- A call whose exception is raised. -/
theorem ask (hP : Handles cfg G P) {r : Req} (hr : (Request.call r).isSubmit = false)
    {g : r.Val → Engine α} (hg : ∀ a, Heard G r (.ok a) → P _ (g a).run) :
    P _ (CryptoBot.call r >>= g).run := by
  refine hP.call r _ hr fun a ha => ?_
  cases a with
  | error e => exact hP.done _
  | ok a => exact hg a ha

/-- A call whose exception is handled. -/
theorem tryAsk (hP : Handles cfg G P) {r : Req} (hr : (Request.call r).isSubmit = false)
    {g : Except Exn r.Val → Engine α} (hg : ∀ a, Heard G r a → P _ (g a).run) :
    P _ ((CryptoBot.call r).attempt >>= g).run := hP.call r _ hr hg

theorem orRaise (hP : Handles cfg G P) (x : Option α) (what : String) :
    P _ (CryptoBot.orRaise x what).run := by
  cases x <;> exact hP.done _

theorem enqueue (hP : Handles cfg G P) (l : Label) {kind : OutboxKind} {key : OutboxKey}
    {message : OutboxMessage} {now : Time} :
    P _ (transaction l (Store.enqueue kind key message now)).run := hP.keep l Store.enqueue_keeps

theorem recordConflict (hP : Handles cfg G P) {c message source : String} {status : OrderStatus} :
    P _ (OrderService.recordConflict cfg c status message source).run :=
  hP.seq hP.now fun _ => hP.seq (hP.enqueue _) fun _ => hP.enqueue _

theorem applyReport (hP : Handles cfg G P) {r : ExchangeOrderReport} (hr : G r) {source : String} :
    P _ (OrderService.applyReport cfg r source).run := by
  refine hP.seq hP.now fun now => hP.seq (hP.report r now hr) fun out => ?_
  cases out with
  | unknown => exact hP.pure _
  | applied o => exact hP.pure _
  | conflict c m => exact hP.seq hP.recordConflict fun _ => hP.throw _

theorem ingestFill (hP : Handles cfg G P) {xf : ExchangeFill} :
    P _ (OrderService.ingestFill cfg xf).run :=
  hP.seq hP.now fun _ => hP.keep _ ingestFillTx_keeps

theorem ingestFills (hP : Handles cfg G P) {xfs : List ExchangeFill} :
    P _ (OrderService.ingestFills cfg xfs).run :=
  hP.forM (fun _ => hP.seq hP.ingestFill fun _ => hP.pure _) xfs

theorem ingestOrderFills (hP : Handles cfg G P) {o : Option Order} :
    P _ (OrderService.ingestOrderFills cfg o).run := by
  cases o with
  | none => exact hP.pure _
  | some o => exact hP.ite (hP.ask rfl fun _ _ => hP.ingestFills) (hP.pure _)

theorem refresh (hP : Handles cfg G P) {o : Order} : P _ (OrderService.refresh cfg o).run := by
  have hrest : P _ (do
      let fresh ← query .query (·.getOrder o.clientOrderId)
      OrderService.ingestOrderFills cfg fresh
      query .query (·.getOrder o.clientOrderId) : Engine (Option Order)).run :=
    hP.seq (hP.read _ _) fun _ => hP.seq hP.ingestOrderFills fun _ => hP.read _ _
  refine hP.ask rfl fun rep hrep => ?_
  cases rep with
  | none => exact hrest
  | some r => exact hP.seq (hP.applyReport (hrep r rfl)) fun _ => hrest

theorem cancel (hP : Handles cfg G P) {o : Order} : P _ (OrderService.cancel cfg o).run := by
  have hrest : P _ (OrderService.lookAgain cfg o).run := by
    refine hP.seq (hP.attempt hP.refresh) fun res => ?_
    rcases res with e | fresh
    · cases e with
      | orderConflict m => exact hP.throw _
      | _ => exact hP.read _ _
    · exact hP.pure _
  refine hP.ask rfl fun out hout => ?_
  dsimp only
  split
  · next r _ hr => exact hP.seq (hP.applyReport (hout r hr)) fun _ => hrest
  · exact hrest

/-- What `resolve_ambiguous` does with an answer, but for an order the exchange does not know. -/
theorem resolveAmbiguous (hP : Handles cfg G P) {o : Order}
    (hmissing : P _ (do
      let now ← clockNow
      let age := now - o.submittedAt.getD now
      if age < seconds cfg.ambiguousOrderGraceSeconds then return .pending
      else
        transaction .commit (rejectTx o.clientOrderId (notFoundAfter age) now)
        return .resolved : Engine Resolution).run) :
    P _ (OrderService.resolveAmbiguous cfg o).run := by
  refine hP.ite (hP.pure _) (hP.tryAsk rfl fun ans hans => ?_)
  rcases ans with e | _ | r
  · exact hP.pure _
  · exact hmissing
  · exact hP.seq (hP.applyReport (hans r rfl)) fun _ => hP.seq (hP.read _ _) fun _ =>
      hP.seq hP.ingestOrderFills fun _ => hP.pure _

/-- What follows the answer to a submission. -/
theorem settle (hP : Handles cfg G P) (hresolve : ∀ o, P _ (OrderService.resolveAmbiguous cfg o).run)
    {o : Order} {out : SubmitOutcome} (hout : ∀ rep, out.report = some rep → G rep)
    (hreject : out.kind = .rejected → ∀ reason now,
      P _ (transaction .commit (rejectTx o.clientOrderId reason now)).run)
    (hflag : ∀ error now,
      P _ (transaction .commit (flagAmbiguousTx cfg o.clientOrderId error now)).run) :
    P _ (OrderService.settle cfg o out).run := by
  unfold OrderService.settle
  split
  · have hreport {rep : ExchangeOrderReport} (hrep : G rep) : P _ (do
        let _ ← OrderService.applyReport cfg rep "rest_submit"
        OrderService.ingestFills cfg out.fills : Engine PUnit).run :=
      hP.seq (hP.applyReport hrep) fun _ => hP.ingestFills
    cases hrep : out.report with
    | none => exact hP.done _
    | some rep => exact hreport (hout rep hrep)
  · next hk => exact hP.seq hP.now fun _ => hreject hk _ _
  · exact hP.seq hP.now fun _ => hP.seq (hflag _ _) fun _ => hP.seq (hP.read _ _) fun _ =>
      hP.seq (hP.orRaise _ _) fun _ => hP.seq (hresolve _) fun _ => hP.pure _

/-- The look-up of the next attempt of a decision. -/
theorem nextIntentId (hP : Handles cfg G P) {base : IntentBase} {attempt n : Nat} :
    P _ (TradingCycle.nextIntentId base attempt n).run := by
  induction n generalizing attempt with
  | zero => exact hP.pure _
  | succ n ih =>
    refine hP.seq (hP.read _ _) fun existing => ?_
    cases existing with
    | none => exact hP.pure _
    | some o => exact hP.ite ih (hP.pure _)

theorem handle (hP : Handles cfg G P) {ev : StreamEvent}
    (hev : ∀ key r xf, ev = .order key r xf → G r) :
    P _ (StreamIngestionService.handle cfg ev).run := by
  cases ev with
  | terminated | ignored => exact hP.pure _
  | balance b =>
    exact hP.seq (hP.read _ _) fun _ => hP.seq (hP.keep _ fun _ _ _ h => by cases h; exact ⟨rfl, rfl⟩)
      fun _ => hP.pure _
  | order key r xf =>
    refine hP.seq (hP.read _ _) fun found => ?_
    cases found with
    | none => exact hP.ite (hP.pure _) (hP.pure _)
    | some o =>
      refine hP.seq hP.now fun now =>
        hP.seq (hP.attempt (hP.event key r xf now (hev key r xf rfl))) fun res => ?_
      rcases res with e | out
      · cases e with
        | orderConflict m => exact hP.seq hP.recordConflict fun _ => hP.pure _
        | _ => exact hP.throw _
      · exact hP.pure _

/-! ## The reconciliation row -/

theorem setState (hP : Handles cfg G P) {l : Label} {status : ReconciliationStatus}
    {reason : String} {success : Bool} {ws : Option Bool} :
    P _ (ReconciliationService.setState cfg l status reason success ws).run :=
  hP.seq (hP.read _ _) fun _ => hP.seq hP.now fun _ =>
    hP.seq (hP.keep _ Store.saveReconState_keeps) fun _ => hP.pure _

theorem touch (hP : Handles cfg G P) : P _ (ReconciliationService.touch cfg).run :=
  hP.seq (hP.read _ _) fun _ => hP.seq hP.now fun _ =>
    hP.seq (hP.keep _ Store.saveReconState_keeps) fun _ => hP.pure _

theorem updateRow (hP : Handles cfg G P) {l : Label}
    {f : Time → ReconciliationState → ReconciliationState} :
    P _ (ReconciliationWorker.updateRow cfg l f).run :=
  hP.seq (hP.read _ _) fun _ => hP.seq hP.now fun _ =>
    hP.seq (hP.keep _ Store.saveReconState_keeps) fun _ => hP.pure _

theorem rebuild (hP : Handles cfg G P) : P _ (ReconciliationService.rebuild cfg).run :=
  hP.seq (hP.read _ _) fun _ => hP.seq (hP.read _ _) fun _ => hP.seq hP.now fun _ =>
    hP.seq (hP.keep _ Store.savePosition_keeps) fun _ => hP.pure _

end Handles

/-! ## Reconciliation -/

namespace Handles

variable {cfg : Config} {G : ExchangeOrderReport → Prop}
  {P : (α : Type) → Prog Ledger Label Ans α → Prop} {α : Type}

theorem reported (hP : Handles cfg G P) {kind : MismatchKind} {severity : MismatchSeverity}
    {c : Option String} {detail : MismatchDetail} {resolved : Bool} :
    Sequenced.Local P (ReconciliationService.report kind severity c detail resolved) :=
  hP.local_assign _

theorem localAsk (hP : Handles cfg G P) {r : Req} (hr : (Request.call r).isSubmit = false)
    {g : r.Val → RunM α} (hg : ∀ a, Heard G r (.ok a) → Sequenced.Local P (g a)) :
    Sequenced.Local P (LProc.exec (CryptoBot.call r) >>= g) := by
  refine fun t => hP.call r _ hr fun a ha => ?_
  cases a with
  | error e => exact hP.done _
  | ok a => exact hg a ha t

theorem onConflict (hP : Handles cfg G P) {o : Order} {out : Except Exn α} {k : α → RunM PUnit}
    (hk : ∀ a, Sequenced.Local P (k a)) :
    Sequenced.Local P (ReconciliationService.onConflict o out k) := by
  unfold ReconciliationService.onConflict
  split
  · exact hk _
  · exact hP.reported
  · exact hP.local_throw _

theorem verifyTerminal (hP : Handles cfg G P) {o : Order} :
    Sequenced.Local P (ReconciliationService.verifyTerminal cfg o) := by
  refine hP.localAsk rfl fun rep hrep => ?_
  cases rep with
  | none => exact hP.reported
  | some r =>
    refine hP.local_ite ?_ (hP.local_pure _)
    refine hP.local_seq (hP.local_exec (hP.attempt ?_)) fun out => hP.onConflict fun fresh => ?_
    · exact hP.seq (hP.applyReport (hrep r rfl)) fun _ => hP.seq (hP.read _ _) fun _ => hP.orRaise _ _
    · exact hP.local_ite hP.reported (hP.local_pure _)

theorem checkExchangeOpen (hP : Handles cfg G P) {rep : ExchangeOrderReport} :
    Sequenced.Local P (ReconciliationService.checkExchangeOpen cfg rep) := by
  refine hP.local_seq (hP.local_exec (hP.read _ _)) fun loc => ?_
  cases loc with
  | some _ => exact hP.local_pure _
  | none => exact hP.reported

theorem adopt (hP : Handles cfg G P) {rep : Option ExchangeOrderReport}
    (hrep : ∀ r, rep = some r → G r) : Sequenced.Local P (ReconciliationService.adopt cfg rep) := by
  cases rep with
  | none => exact hP.local_pure _
  | some r =>
    refine hP.local_seq (hP.local_exec (hP.read _ _)) fun loc => ?_
    cases loc with
    | none => exact hP.local_pure _
    | some _ =>
      exact hP.local_seq (hP.local_exec (hP.applyReport (hrep r rfl))) fun _ => hP.local_pure _

theorem ownerOfFill (hP : Handles cfg G P) {xf : ExchangeFill} :
    Sequenced.Local P (ReconciliationService.ownerOfFill cfg xf) := by
  refine hP.local_seq (hP.local_exec (hP.read _ _)) fun loc => ?_
  cases loc with
  | some _ => exact hP.local_pure _
  | none =>
    exact hP.local_ite (hP.localAsk rfl fun rep hrep => hP.adopt hrep)
      (hP.adopt fun r hr => by cases hr)

theorem checkRecentFill (hP : Handles cfg G P) {xf : ExchangeFill} :
    Sequenced.Local P (ReconciliationService.checkRecentFill cfg xf) := by
  refine hP.local_seq hP.ownerOfFill fun owner => ?_
  cases owner with
  | error c => exact hP.reported
  | ok _ => exact hP.local_seq (hP.local_exec hP.ingestFill) fun _ => hP.local_pure _

theorem checkFillsComplete (hP : Handles cfg G P) {tolerance : ℚ} {o : Order} :
    Sequenced.Local P (ReconciliationService.checkFillsComplete cfg tolerance o) := by
  refine hP.local_ite (hP.local_pure _) (hP.local_seq (hP.local_exec (hP.read _ _)) fun _ => ?_)
  refine hP.local_ite ?_ (hP.local_pure _)
  refine hP.local_seq (hP.local_exec hP.ingestOrderFills) fun _ => ?_
  refine hP.local_seq (hP.local_exec (hP.read _ _)) fun _ => ?_
  exact hP.local_ite hP.reported (hP.local_pure _)

theorem comparePosition (hP : Handles cfg G P) {tolerance baseTotal : ℚ} {before rebuilt : Position}
    {anomalies : List Anomaly} :
    Sequenced.Local P (ReconciliationService.comparePosition tolerance before rebuilt anomalies
      baseTotal) := by
  have hlast : Sequenced.Local P (if tolerance < rebuilt.quantity - baseTotal then
      ReconciliationService.report .balanceBelowPosition .critical none
        (.quantities rebuilt.quantity baseTotal)
      else pure ⟨⟩ : RunM PUnit) := hP.local_ite hP.reported (hP.local_pure _)
  have hrest := hP.local_seq (hP.local_forM
    (f := fun a => ReconciliationService.report .positionAnomaly .critical none (.anomaly a))
    (fun _ => hP.reported) anomalies) fun _ => hlast
  exact hP.local_ite (hP.local_seq hP.reported fun _ => hrest) hrest

theorem checkProtectiveStop (hP : Handles cfg G P) {rules : SymbolRules} {rebuilt : Position} :
    Sequenced.Local P (ReconciliationService.checkProtectiveStop cfg rules rebuilt) := by
  refine hP.local_ite ?_ (hP.local_pure _)
  refine hP.local_seq (hP.local_exec (hP.read _ _)) fun _ => ?_
  exact hP.local_ite hP.reported (hP.local_pure _)

theorem checkPosition (hP : Handles cfg G P) {runKey : RunKey} {rules : SymbolRules}
    {tolerance : ℚ} :
    Sequenced.Local P (ReconciliationService.checkPosition cfg runKey rules tolerance) :=
  hP.localAsk rfl fun _ _ => hP.local_seq (hP.local_exec (hP.read _ _)) fun _ =>
    hP.local_seq (hP.local_exec hP.rebuild) fun _ => hP.local_seq hP.comparePosition fun _ =>
    hP.local_seq (hP.local_exec (hP.keep _ fun _ _ _ h => by cases h; exact ⟨rfl, rfl⟩)) fun _ =>
    hP.local_seq (hP.local_exec hP.now) fun _ =>
    hP.local_seq (hP.local_exec (hP.enqueue _)) fun _ => hP.checkProtectiveStop

theorem persist (hP : Handles cfg G P) {result : ReconResult} {reason : String} {started : Time} :
    P _ (ReconciliationService.persist cfg result reason started).run :=
  hP.seq (hP.keep _ fun _ _ _ h => by cases h; exact ⟨rfl, rfl⟩) fun _ => hP.seq hP.now fun _ =>
    hP.enqueue _

theorem conclude (hP : Handles cfg G P) {previous : ReconciliationState} {ack : Bool}
    {runKey : RunKey} {reason : String} {started : Time} {outcome : Except Exn PUnit}
    {f : Findings} :
    P _ (ReconciliationService.conclude cfg previous ack runKey reason started outcome f).run := by
  cases outcome with
  | error e => exact hP.seq hP.persist fun _ => hP.seq hP.setState fun _ => hP.pure _
  | ok _ =>
    refine hP.seq hP.persist fun _ => hP.seq hP.setState fun _ => hP.ite ?_ (hP.pure _)
    exact hP.seq hP.now fun _ => hP.seq (hP.enqueue _) fun _ => hP.seq (hP.enqueue _) fun _ =>
      hP.pure _

end Handles

/-! ## Programs that do not submit -/

namespace Resolves

variable {cfg : Config} {G : ExchangeOrderReport → Prop}
  {P : (α : Type) → Prog Ledger Label Ans α → Prop} {α : Type}

theorem checkOpenOrder (hP : Resolves cfg G P) {o : Order} :
    Sequenced.Local P (ReconciliationService.checkOpenOrder cfg o) := by
  refine hP.local_ite ?_ ?_
  · refine hP.local_seq (hP.local_exec (hP.attempt (hP.resolve o))) fun out =>
      hP.onConflict fun r => ?_
    cases r with
    | pending => exact hP.local_seq (hP.local_assign _) fun _ => hP.reported
    | resolved => exact hP.local_pure _
  · exact hP.local_seq (hP.local_exec (hP.attempt hP.refresh)) fun out => hP.onConflict fun _ =>
      hP.local_pure _

theorem body (hP : Resolves cfg G P) {runKey : RunKey} {last : Option Time} :
    Sequenced.Local P (ReconciliationService.body cfg runKey last) :=
  hP.localAsk rfl fun _ _ => hP.local_seq (hP.local_exec (hP.read _ _)) fun _ =>
    hP.localAsk rfl fun _ _ => hP.local_seq (hP.local_forM (fun _ => hP.checkOpenOrder) _) fun _ =>
    hP.local_seq (hP.local_exec hP.now) fun _ => hP.local_seq (hP.local_exec (hP.read _ _)) fun _ =>
    hP.local_seq (hP.local_forM (fun _ => hP.verifyTerminal) _) fun _ =>
    hP.local_seq (hP.local_forM (fun _ => hP.checkExchangeOpen) _) fun _ =>
    hP.localAsk rfl fun _ _ => hP.local_seq (hP.local_forM (fun _ => hP.checkRecentFill) _) fun _ =>
    hP.local_seq (hP.local_exec (hP.read _ _)) fun _ =>
    hP.local_seq (hP.local_forM (fun _ => hP.checkFillsComplete) _) fun _ => hP.checkPosition

theorem run (hP : Resolves cfg G P) {reason : String} {ack : Bool} :
    P _ (ReconciliationService.run cfg reason ack).run :=
  hP.seq hP.now fun _ => hP.seq (hP.read _ _) fun _ => hP.seq hP.nonce fun _ =>
    hP.seq hP.setState fun _ => hP.seq (hP.outcome hP.body _) fun _ => hP.conclude

theorem reconcile (hP : Resolves cfg G P) {reason : String} {ack : Bool} :
    P _ (ReconciliationWorker.reconcile cfg reason ack).run :=
  hP.seq hP.run fun _ => hP.seq hP.connected fun _ =>
    hP.ite (hP.seq hP.setState fun _ => hP.pure _) (hP.pure _)

theorem onState (hP : Resolves cfg G P) {state : StreamState} {detail : String} :
    P _ (ReconciliationWorker.onState cfg state detail).run := by
  cases state with
  | connecting => exact hP.seq (hP.read _ _) fun _ => hP.ite hP.setState (hP.pure _)
  | disconnected => exact hP.seq (hP.read _ _) fun _ => hP.ite hP.setState hP.setState
  | subscribed => exact hP.seq hP.updateRow fun _ => hP.seq hP.reconcile fun _ => hP.pure _

theorem onEvent (hP : Resolves cfg G P) {ev : StreamEvent}
    (hev : ∀ key r xf, ev = .order key r xf → G r) :
    P _ (ReconciliationWorker.onEvent cfg ev).run :=
  hP.seq (hP.handle hev) fun _ => hP.seq hP.updateRow fun _ => hP.pure _

theorem pollControl (hP : Resolves cfg G P) {last : Option String} :
    P _ (ReconciliationWorker.pollControl cfg last).run := by
  refine hP.tryAsk rfl fun ans _ => ?_
  cases ans with
  | error e => exact hP.pure _
  | ok control =>
    exact hP.ite (hP.seq (hP.attempt (hP.seq hP.reconcile fun _ => hP.updateRow))
      fun _ => hP.pure _) (hP.pure _)

theorem start (hP : Resolves cfg G P) : P _ (ReconciliationWorker.start cfg).run :=
  hP.seq (hP.read _ _) fun _ => hP.ite hP.setState (hP.pure _)

theorem cancelStops (hP : Resolves cfg G P) {orders : List Order} :
    P _ (TradingCycle.cancelStops cfg orders).run := by
  induction orders with
  | nil => exact hP.pure _
  | cons o os ih =>
    exact hP.ite (hP.seq hP.cancel fun _ => hP.seq (hP.orRaise _ _) fun _ =>
      hP.ite ih (hP.pure _)) ih

theorem reconciliationGate (hP : Resolves cfg G P) {control : Control} :
    P _ (TradingCycle.reconciliationGate cfg control).run := by
  refine hP.seq (hP.read _ _) fun _ => hP.ite (hP.seq hP.run fun _ => ?_) (hP.pure _)
  exact hP.ite (hP.seq (hP.read _ _) fun _ => hP.seq hP.now fun _ =>
    hP.seq (hP.keep _ Store.saveReconState_keeps) fun _ => hP.read _ _) (hP.read _ _)

theorem readFunds (hP : Resolves cfg G P) {rules : SymbolRules} {snap : MarketSnapshot} :
    P _ (TradingCycle.readFunds cfg rules snap).run := by
  refine hP.tryAsk rfl fun ans _ => ?_
  cases ans with
  | error e => exact hP.seq (hP.read _ _) fun _ => hP.pure _
  | ok bal =>
    refine hP.seq (hP.read _ _) fun _ => hP.seq hP.now fun _ => hP.seq ?_ fun _ => hP.pure _
    exact hP.seq (hP.read _ _) fun _ =>
      hP.seq (hP.keep _ fun _ _ _ h => by cases h; exact ⟨rfl, rfl⟩) fun _ => hP.pure _

theorem refreshInFlight (hP : Resolves cfg G P) {orders : List Order} :
    P _ (TradingCycle.refreshInFlight cfg orders).run :=
  hP.forM (fun o => hP.ite
    (hP.seq (hP.attempt (hP.resolve o)) fun _ => hP.pure _)
    (hP.seq (hP.attempt hP.refresh) fun _ => hP.pure _)) orders

/-- A cycle up to its orders, for a property of what it does with them. -/
theorem trade (hP : Resolves cfg G P)
    (hdecide : ∀ control st entriesOk funds rules snap signal signalId,
      P _ (TradingCycle.decideOrders cfg control st entriesOk funds rules snap signal
        signalId).run)
    {control : Control} {st : ReconciliationState} {entriesOk : Bool} :
    P _ (TradingCycle.trade cfg control st entriesOk).run := by
  refine hP.ask rfl fun snap _ => ?_
  cases snap with
  | error reason => exact hP.pure _
  | ok snap =>
    exact hP.ask rfl fun _ _ => hP.seq hP.now fun _ =>
      hP.seq (hP.keep _ (.bind .get fun _ => Store.savePosition_keeps)) fun _ =>
      hP.seq hP.readFunds fun _ => hP.ask rfl fun _ _ => hP.seq hP.now fun _ =>
      hP.seq (hP.enqueue _) fun _ => hdecide _ _ _ _ _ _ _ _

theorem runOnce (hP : Resolves cfg G P)
    (hdecide : ∀ control st entriesOk funds rules snap signal signalId,
      P _ (TradingCycle.decideOrders cfg control st entriesOk funds rules snap signal
        signalId).run) :
    P _ (TradingCycle.runOnce cfg).run := by
  refine hP.seq hP.now fun _ => hP.tryAsk rfl fun control _ => ?_
  cases control with
  | error e => exact hP.seq (hP.enqueue _) fun _ => hP.pure _
  | ok control =>
    refine hP.tryAsk rfl fun valid _ => ?_
    cases valid with
    | error e => exact hP.pure _
    | ok _ =>
      exact hP.seq hP.reconciliationGate fun _ => hP.seq hP.now fun _ => hP.seq hP.now fun _ =>
        hP.ite (hP.pure _) (hP.seq (hP.trade hdecide) fun _ => hP.pure _)

end Resolves

/-! ## Whole programs -/

/-- What an engine process runs: trading cycles, reconciliations, and the callbacks and timers of the
reconciliation worker, whose stream events carry reports that meet `G`. -/
inductive EngineProgram (cfg : Config) (G : ExchangeOrderReport → Prop) :
    Prog Ledger Label Ans PUnit → Prop
  | runOnce : EngineProgram cfg G (runOnce cfg).run.forget
  | run (reason : String) (operatorAck : Bool) :
      EngineProgram cfg G (ReconciliationService.run cfg reason operatorAck).run.forget
  | start : EngineProgram cfg G (ReconciliationWorker.start cfg).run.forget
  | onState (state : StreamState) (detail : String) :
      EngineProgram cfg G (onState cfg state detail).run.forget
  | onEvent (ev : StreamEvent) (hev : ∀ key r xf, ev = .order key r xf → G r) :
      EngineProgram cfg G (onEvent cfg ev).run.forget
  | pollControl (last : Option String) : EngineProgram cfg G (pollControl cfg last).run.forget
  | touch : EngineProgram cfg G (touch cfg).run.forget

/-- A property of everything but the submissions, and of those whose intents are of the bot, the
symbol and the purpose of their order: a cycle makes no others. -/
structure Conducts (cfg : Config) (G : ExchangeOrderReport → Prop)
    (P : (α : Type) → Prog Ledger Label Ans α → Prop) : Prop extends Resolves cfg G P where
  submit : ∀ purpose side qty rules refPrice base signalId orderType limit stop,
    base.bot = cfg.bot → base.symbol = cfg.symbol → base.purpose = purpose →
    P _ (TradingCycle.submit cfg purpose side qty rules refPrice base signalId orderType limit
      stop).run

theorem Governs.conducts {cfg : Config} {G : ExchangeOrderReport → Prop}
    {P : (α : Type) → Prog Ledger Label Ans α → Prop} (hP : Governs cfg G P) : Conducts cfg G P :=
  { hP.toResolves with
    submit := fun _ _ _ _ _ _ _ _ _ _ _ _ _ => hP.submit _ _ _ _ _ _ _ _ _ _ }

namespace Conducts

variable {cfg : Config} {G : ExchangeOrderReport → Prop}
  {P : (α : Type) → Prog Ledger Label Ans α → Prop} {α : Type}

theorem sellPosition (hP : Conducts cfg G P) {purpose : OrderPurpose} {rules : SymbolRules}
    {refPrice : ℚ} : P _ (TradingCycle.sellPosition cfg purpose rules refPrice).run := by
  refine hP.seq (hP.read _ _) fun p => hP.ite (hP.pure _) ?_
  refine hP.seq (hP.submit _ _ _ _ _ _ _ _ _ _ rfl rfl rfl) fun o => ?_
  cases o with
  | none => exact hP.pure _
  | some o => exact hP.seq (hP.read _ _) fun _ => hP.ite (hP.pure _) (hP.pure _)

theorem exit (hP : Conducts cfg G P) {purpose : OrderPurpose} {rules : SymbolRules} {refPrice : ℚ} :
    P _ (TradingCycle.exit cfg purpose rules refPrice).run :=
  hP.seq (hP.read _ _) fun _ => hP.seq hP.cancelStops fun _ =>
    hP.ite hP.sellPosition (hP.pure _)

theorem ensureProtectiveStop (hP : Conducts cfg G P) {p : Position} {rules : SymbolRules} :
    P _ (TradingCycle.ensureProtectiveStop cfg p rules).run := by
  refine hP.seq (hP.read _ _) fun open_ => ?_
  split
  · exact hP.pure _
  · refine hP.ite (hP.pure _) (hP.ite (hP.pure _)
      (hP.seq (hP.submit _ _ _ _ _ _ _ _ _ _ rfl rfl rfl) fun o => ?_))
    cases o <;> exact hP.pure _

theorem setStop (hP : Conducts cfg G P) {price : ℚ} {now : Time} :
    P _ (transaction .commit (PositionService.setStop cfg.bot cfg.symbol price now)).run :=
  hP.keep _ (.bind .get fun _ => Store.savePosition_keeps)

theorem manageOpen (hP : Conducts cfg G P) {control : Control} {rules : SymbolRules}
    {snap : MarketSnapshot} {signal : Signal} {p : Position} :
    P _ (TradingCycle.manageOpen cfg control rules snap signal p).run := by
  unfold TradingCycle.manageOpen
  dsimp only
  split
  · exact hP.seq hP.exit fun _ => hP.pure _
  · refine hP.ite (hP.seq hP.exit fun _ => hP.pure _) ?_
    exact hP.ite (hP.seq hP.ensureProtectiveStop fun _ => hP.pure _) (hP.pure _)

theorem protectEntry (hP : Conducts cfg G P) {rules : SymbolRules} {o : Order} :
    P _ (TradingCycle.protectEntry cfg rules o).run := by
  refine hP.ite (hP.seq (hP.read _ _) fun _ => hP.ite ?_ (hP.pure _)) (hP.pure _)
  exact hP.seq hP.now fun _ => hP.seq hP.setStop fun _ =>
    hP.ite (hP.seq hP.ensureProtectiveStop fun _ => hP.pure _) (hP.pure _)

theorem tryEntry (hP : Conducts cfg G P) {control : Control} {st : ReconciliationState}
    {entriesOk : Bool} {funds : Funds} {rules : SymbolRules} {snap : MarketSnapshot}
    {signal : Signal} {signalId : SignalId} :
    P _ (TradingCycle.tryEntry cfg control st entriesOk funds rules snap signal signalId).run := by
  refine hP.ite (hP.pure _) (hP.seq (hP.read _ _) fun _ => hP.seq (hP.read _ _) fun _ =>
    hP.ite (hP.pure _) ?_)
  dsimp only
  split
  · exact hP.pure _
  · refine hP.seq (hP.submit _ _ _ _ _ _ _ _ _ _ rfl rfl rfl) fun o => ?_
    cases o with
    | none => exact hP.pure _
    | some o => exact hP.seq hP.protectEntry fun _ => hP.pure _

theorem decideOrders (hP : Conducts cfg G P) {control : Control} {st : ReconciliationState}
    {entriesOk : Bool} {funds : Funds} {rules : SymbolRules} {snap : MarketSnapshot}
    {signal : Signal} {signalId : SignalId} :
    P _ (TradingCycle.decideOrders cfg control st entriesOk funds rules snap signal
      signalId).run := by
  refine hP.seq (hP.read _ _) fun _ => hP.seq hP.refreshInFlight fun _ => hP.seq (hP.read _ _)
    fun _ => hP.ite (hP.pure _) (hP.seq (hP.read _ _) fun p => hP.ite ?_ hP.tryEntry)
  split
  · exact hP.manageOpen
  · exact hP.seq hP.now fun _ => hP.seq hP.setStop fun _ => hP.manageOpen

theorem runOnce (hP : Conducts cfg G P) : P _ (TradingCycle.runOnce cfg).run :=
  hP.toResolves.runOnce fun _ _ _ _ _ _ _ _ => hP.decideOrders

/-- A property of the whole engine holds of what its processes run. -/
theorem program (hP : Conducts cfg G P) {p : Prog Ledger Label Ans PUnit}
    (hp : EngineProgram cfg G p) : P _ p := by
  cases hp with
  | runOnce => exact hP.bind hP.runOnce fun _ => hP.done _
  | run => exact hP.bind hP.run fun _ => hP.done _
  | start => exact hP.bind hP.start fun _ => hP.done _
  | onState => exact hP.bind hP.onState fun _ => hP.done _
  | onEvent ev hev => exact hP.bind (hP.onEvent hev) fun _ => hP.done _
  | pollControl => exact hP.bind hP.pollControl fun _ => hP.done _
  | touch => exact hP.bind hP.touch fun _ => hP.done _

end Conducts

theorem Governs.program {cfg : Config} {G : ExchangeOrderReport → Prop}
    {P : (α : Type) → Prog Ledger Label Ans α → Prop} (hP : Governs cfg G P)
    {p : Prog Ledger Label Ans PUnit} (hp : EngineProgram cfg G p) : P _ p := hP.conducts.program hp

end CryptoBot
