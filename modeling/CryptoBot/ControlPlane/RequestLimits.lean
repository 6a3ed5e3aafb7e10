import CryptoBot.Domain.Instants
import CryptoBot.ControlPlane.RunMirror
import CryptoBot.Application.RunGrowth
import CryptoBot.Workers.StateRow
import Mathlib.Data.List.Dedup

/-!
# The limits of the requests about reconciliation

`ReconciliationRequest` and `HeartbeatRequest` bound the texts and the lists they accept. A run that
finds the bot HALTED and is clean but not acknowledged stores the reason it found inside its own, so
the reason grows from run to run; and a run lists everything it does not recognise. What a run
enqueues and stores is accepted exactly when the run keeps within the limits itself (`accepted_iff`),
and it does where the ledger it finds and the answers of the exchange are manageable.
-/

namespace CryptoBot

open Lib OrderService ReconciliationService

/-! ## The rules -/

/-- `required` on a text: one that is left when PHP's `trim` is done. -/
def Required (text : String) : Prop :=
  text.toList.any (· ∉ [' ', '\t', '\n', '\r', '\x0b', '\x00']) = true

instance (text : String) : Decidable (Required text) := inferInstanceAs (Decidable (_ = _))

/-- The rules of `mismatches.*`. -/
structure Mismatch.Accepted (m : Mismatch) : Prop where
  kind : Required m.kind.value ∧ m.kind.value.length ≤ 64
  clientOrderId : ∀ id ∈ m.clientOrderId, id.length ≤ 64

/-- The text of a run key. -/
def RunKey.text (k : RunKey) : String :=
  "recon:" ++ k.bot ++ ":" ++ isoformat k.started ++ ":" ++ k.nonce

/-- The key fits while the bot's name has at most 143 characters, with a nonce of eight. -/
theorem RunKey.length_text_le (k : RunKey) :
    k.text.length ≤ k.bot.length + k.nonce.length + 40 := by
  have := length_isoformat_le k.started
  simp only [RunKey.text, String.length_append]
  show 6 + k.bot.length + 1 + _ + 1 + _ ≤ _
  omega

theorem RunKey.required (k : RunKey) : Required k.text := by
  simp [Required, RunKey.text, String.toList_append]

/-- The rules of `ReconciliationRequest`. -/
structure ReconciliationRequest.Accepted (d : ReconciliationRequest) : Prop where
  runKey : Required d.run.runKey.text ∧ d.run.runKey.text.length ≤ 191
  reason : Required d.run.reason ∧ d.run.reason.length ≤ 255
  detail : ∀ text ∈ d.detail, text.length ≤ 2000
  mismatches : d.run.mismatches.length ≤ 500
  each : ∀ m ∈ d.run.mismatches, m.Accepted

/-- The rule of `reconciliation_reason` in `HeartbeatRequest`. -/
def HeartbeatAccepted (reconciliationReason : String) : Prop := reconciliationReason.length ≤ 2000

theorem MismatchKind.accepted (kind : MismatchKind) :
    Required kind.value ∧ kind.value.length ≤ 34 := by
  cases kind <;> decide

theorem Mismatch.accepted_iff {m : Mismatch} :
    m.Accepted ↔ ∀ id ∈ m.clientOrderId, id.length ≤ 64 :=
  ⟨fun h => h.clientOrderId, fun h => ⟨⟨m.kind.accepted.1, m.kind.accepted.2.trans (by decide)⟩, h⟩⟩

/-! ## What a run enqueues -/

/-- The requests about runs in the outbox. -/
def Ledger.runRequests (s : Ledger) : List ReconciliationRequest :=
  s.outbox.filterMap (·.message.reconciliationRequest)

/-- A transaction that enqueues no request about a run. -/
def Tx.Mute {α : Type} (t : Tx α) : Prop :=
  ∀ s a s', t s = .ok (a, s') → s'.runRequests = s.runRequests

section
variable {α β : Type} {cfg : Config} {now : Time}

theorem Tx.Mute.pure (a : α) : (Pure.pure a : Tx α).Mute := fun _ _ _ h => by
  obtain ⟨-, rfl⟩ := Tx.pure_ok.1 h
  rfl

theorem Tx.Mute.bind {t : Tx α} {f : α → Tx β} (ht : t.Mute) (hf : ∀ a, (f a).Mute) :
    (t >>= f).Mute := by
  intro s b s' h
  obtain ⟨a, s₁, h₁, h₂⟩ := Tx.bind_ok.1 h
  exact (hf a s₁ b s' h₂).trans (ht s a s₁ h₁)

theorem Tx.Mute.of_outbox {t : Tx α} (ht : ∀ s a s', t s = .ok (a, s') → s'.outbox = s.outbox) :
    t.Mute := fun s a s' h => congrArg (List.filterMap _) (ht s a s' h)

theorem enqueue_mute {kind : OutboxKind} {key : OutboxKey} {message : OutboxMessage}
    (hm : message.reconciliationRequest = none) : (Store.enqueue kind key message now).Mute := by
  intro s _ s' h
  unfold Store.enqueue at h
  split at h
  · cases h
    rfl
  · cases h
    simp [Ledger.runRequests, hm]

theorem enqueueEvent_mute {bot : String} {type : EventType} {message : String}
    {severity : EventSeverity} {payload : EventPayload} {key : OutboxKey} {alert : Bool} :
    (Store.enqueueEvent bot type message severity payload key alert now).Mute := by
  refine .bind (enqueue_mute rfl) fun _ => ?_
  split
  · exact enqueue_mute rfl
  · exact .pure _

theorem enqueueOrder_mute {o : Order} : (Store.enqueueOrder o now).Mute :=
  fun s => enqueue_mute rfl s

theorem saveOrder_mute {o : Order} : (Store.saveOrder o).Mute := by
  refine .of_outbox fun s _ s' h => ?_
  unfold Store.saveOrder at h
  dsimp only at h
  split at h
  · split at h
    · cases h
      rfl
    · cases h
  · cases h

theorem applyReportTx_mute {r : ExchangeOrderReport} : (applyReportTx cfg r now).Mute := by
  intro s a s' h
  unfold applyReportTx at h
  split at h
  · cases h
    rfl
  · split at h
    · cases h
      rfl
    · split at h
      · exact Tx.Mute.bind saveOrder_mute
          (fun _ => .bind enqueueOrder_mute fun _ => .pure _) _ _ _ h
      · cases h
        rfl

theorem insertFill_mute {f : Fill} : (Store.insertFill f).Mute := by
  refine .of_outbox fun s r s' h => ?_
  unfold Store.insertFill at h
  dsimp only at h
  split at h <;> cases h <;> rfl

theorem applyFill_mute {f : Fill} : (PositionService.applyFill cfg.bot f now).Mute := by
  refine .bind (.of_outbox fun _ _ _ h => by cases h; rfl) fun _ => ?_
  exact .bind (.of_outbox fun _ _ _ h => by cases h; rfl) fun _ => .pure _

theorem ingestFillTx_mute {xf : ExchangeFill} : (ingestFillTx cfg xf now).Mute := by
  intro s b s' h
  unfold ingestFillTx at h
  split at h
  · cases h
    rfl
  · refine Tx.Mute.bind insertFill_mute (fun r => ?_) s b s' h
    cases r with
    | none => exact .pure _
    | some fill =>
      refine .bind applyFill_mute fun _ => .bind (enqueue_mute rfl) fun _ =>
        .bind (enqueue_mute rfl) fun _ => ?_
      split
      · exact enqueueEvent_mute.bind fun _ => .pure _
      · exact .pure _

theorem present_mute {x : Option α} : (Store.present x).Mute := by
  refine .of_outbox fun s a s' h => ?_
  cases x <;> cases h
  rfl

theorem legal_mute {x : Except String α} : (Store.legal x).Mute := by
  refine .of_outbox fun s a s' h => ?_
  cases x <;> cases h
  rfl

theorem rejectTx_mute {c reason : String} : (rejectTx c reason now).Mute := by
  intro s
  refine Tx.Mute.bind present_mute (fun _ => .bind legal_mute fun x => ?_) s
  obtain ⟨rejected, fresh⟩ := x
  cases rejected with
  | false => exact .pure _
  | true => exact .bind saveOrder_mute fun _ => enqueueOrder_mute

end

/-- The steps that enqueue no request about a run. -/
def Mute (_ : Label) (s s' : Ledger) : Prop := s'.runRequests = s.runRequests

section
variable {cfg : Config} {α : Type}

theorem query_mute (l : Label) (f : Ledger → α) : (query l f).Within Mute :=
  query_within fun _ => rfl

theorem transaction_mute {l : Label} {t : Tx α} (ht : t.Mute) :
    (transaction l t).Within Mute := transaction_within (fun _ => rfl) ht

theorem applyReport_mute {r : ExchangeOrderReport} {source : String} :
    (applyReport cfg r source).Within Mute := by
  refine clockNow_within.bind fun _ => (transaction_mute applyReportTx_mute).bind fun out => ?_
  cases out with
  | unknown | applied => exact Proc.within_pure _
  | conflict c m =>
    refine Proc.Within.bind ?_ fun _ => Proc.within_throw _
    exact clockNow_within.bind fun _ => (transaction_mute (enqueue_mute rfl)).bind fun _ =>
      transaction_mute (enqueue_mute rfl)

theorem ingestFill_mute {xf : ExchangeFill} : (ingestFill cfg xf).Within Mute :=
  clockNow_within.bind fun _ => transaction_mute ingestFillTx_mute

theorem ingestOrderFills_mute {o : Option Order} : (ingestOrderFills cfg o).Within Mute := by
  cases o with
  | none => exact Proc.within_pure _
  | some o =>
    refine .ite ((call_within _).bind fun _ => ?_) (Proc.within_pure _)
    exact Proc.Within.forM (fun _ => ingestFill_mute.bind fun _ => Proc.within_pure _) _

theorem resolveAmbiguous_mute {o : Order} : (resolveAmbiguous cfg o).Within Mute := by
  refine .ite (Proc.within_pure _) ((call_within _).attempt.bind fun r => ?_)
  rcases r with e | _ | r
  · exact Proc.within_pure _
  · refine clockNow_within.bind fun t => .ite (Proc.within_pure _) ?_
    exact (transaction_mute rejectTx_mute).bind fun _ => Proc.within_pure _
  · exact applyReport_mute.bind fun _ => (query_mute _ _).bind fun _ =>
      ingestOrderFills_mute.bind fun _ => Proc.within_pure _

theorem refresh_mute {o : Order} : (refresh cfg o).Within Mute := by
  have hrest : Proc.Within Mute (do
      let fresh ← query .query (·.getOrder o.clientOrderId)
      ingestOrderFills cfg fresh
      query .query (·.getOrder o.clientOrderId) : Engine (Option Order)) :=
    (query_mute _ _).bind fun _ => ingestOrderFills_mute.bind fun _ => query_mute _ _
  refine (call_within _).bind fun rep => ?_
  cases rep with
  | none => exact hrest
  | some r => exact applyReport_mute.bind fun _ => hrest

theorem onConflict_mute {o : Order} {out : Except Exn α} {k : α → RunM PUnit}
    (hk : ∀ a, (k a).Within Mute) : (onConflict o out k).Within Mute := by
  unfold onConflict
  split
  · exact hk _
  · exact LProc.within_assign _
  · exact LProc.within_throw _

theorem checkOpenOrder_mute {o : Order} : (checkOpenOrder cfg o).Within Mute := by
  refine .ite ?_ ?_
  · refine (LProc.within_exec resolveAmbiguous_mute.attempt).bind fun out =>
      onConflict_mute fun r => ?_
    cases r with
    | pending => exact (LProc.within_assign _).bind fun _ => LProc.within_assign _
    | resolved => exact LProc.within_pure _
  · exact (LProc.within_exec refresh_mute.attempt).bind fun out =>
      onConflict_mute fun _ => LProc.within_pure _

theorem verifyTerminal_mute {o : Order} : (verifyTerminal cfg o).Within Mute := by
  refine (LProc.within_exec (call_within _)).bind fun rep => ?_
  cases rep with
  | none => exact LProc.within_assign _
  | some r =>
    refine .ite ?_ (LProc.within_pure _)
    refine (LProc.within_exec (Proc.Within.attempt ?_)).bind fun out =>
      onConflict_mute fun fresh => (LProc.within_assign _).ite (LProc.within_pure _)
    exact applyReport_mute.bind fun _ => (query_mute _ _).bind fun _ => orRaise_within _ _

theorem checkExchangeOpen_mute {r : ExchangeOrderReport} :
    (checkExchangeOpen cfg r).Within Mute := by
  refine (LProc.within_exec (query_mute _ _)).bind fun loc => ?_
  cases loc with
  | some _ => exact LProc.within_pure _
  | none => exact LProc.within_assign _

theorem adopt_mute {rep : Option ExchangeOrderReport} : (adopt cfg rep).Within Mute := by
  cases rep with
  | none => exact LProc.within_pure _
  | some rep =>
    refine (LProc.within_exec (query_mute _ _)).bind fun loc => ?_
    cases loc with
    | none => exact LProc.within_pure _
    | some _ => exact (LProc.within_exec applyReport_mute).bind fun _ => LProc.within_pure _

theorem checkRecentFill_mute {xf : ExchangeFill} : (checkRecentFill cfg xf).Within Mute := by
  refine LProc.Within.bind ?_ fun owner => ?_
  · refine (LProc.within_exec (query_mute _ _)).bind fun loc => ?_
    cases loc with
    | some _ => exact LProc.within_pure _
    | none =>
      exact ((LProc.within_exec (call_within _)).bind fun _ => adopt_mute).ite adopt_mute
  · cases owner with
    | error c => exact LProc.within_assign _
    | ok _ => exact (LProc.within_exec ingestFill_mute).bind fun _ => LProc.within_pure _

theorem checkFillsComplete_mute {tolerance : ℚ} {o : Order} :
    (checkFillsComplete cfg tolerance o).Within Mute :=
  (LProc.within_pure _).ite <| (LProc.within_exec (query_mute _ _)).bind fun _ =>
    .ite ((LProc.within_exec ingestOrderFills_mute).bind fun _ =>
      (LProc.within_exec (query_mute _ _)).bind fun _ =>
        (LProc.within_assign _).ite (LProc.within_pure _)) (LProc.within_pure _)

theorem rebuild_mute : (rebuild cfg).Within Mute :=
  (query_mute _ _).bind fun _ => (query_mute _ _).bind fun _ => clockNow_within.bind fun _ =>
    (transaction_mute (.of_outbox fun _ _ _ h => by cases h; rfl)).bind fun _ =>
    Proc.within_pure _

theorem comparePosition_mute {tolerance baseTotal : ℚ} {before rebuilt : Position}
    {anomalies : List Anomaly} :
    (comparePosition tolerance before rebuilt anomalies baseTotal).Within Mute := by
  have hlast : LProc.Within Mute (if tolerance < rebuilt.quantity - baseTotal then
      report .balanceBelowPosition .critical none (.quantities rebuilt.quantity baseTotal)
      else pure ⟨⟩) := (LProc.within_assign _).ite (LProc.within_pure _)
  have hrest := (LProc.Within.forM (R := Mute)
    (f := fun a => report .positionAnomaly .critical none (.anomaly a))
    (fun _ => LProc.within_assign _) anomalies).bind fun _ => hlast
  exact LProc.Within.ite ((LProc.within_assign _).bind fun _ => hrest) hrest

theorem checkPosition_mute {runKey : RunKey} {rules : SymbolRules} {tolerance : ℚ} :
    (checkPosition cfg runKey rules tolerance).Within Mute := by
  refine (LProc.within_exec (call_within _)).bind fun _ =>
    (LProc.within_exec (query_mute _ _)).bind fun _ =>
    (LProc.within_exec rebuild_mute).bind fun _ => comparePosition_mute.bind fun _ =>
    (LProc.within_exec (transaction_mute (.of_outbox fun _ _ _ h => by cases h; rfl))).bind
      fun _ => (LProc.within_exec clockNow_within).bind fun _ =>
    (LProc.within_exec (transaction_mute (enqueue_mute rfl))).bind fun _ => ?_
  exact .ite ((LProc.within_exec (query_mute _ _)).bind fun _ =>
    (LProc.within_assign _).ite (LProc.within_pure _)) (LProc.within_pure _)

/-- The try block enqueues no request about a run. -/
theorem body_mute {runKey : RunKey} {last : Option Time} :
    (body cfg runKey last).Within Mute :=
  (LProc.within_exec (call_within _)).bind fun _ =>
    (LProc.within_exec (query_mute _ _)).bind fun _ =>
    (LProc.within_exec (call_within _)).bind fun _ =>
    (LProc.Within.forM (fun _ => checkOpenOrder_mute) _).bind fun _ =>
    (LProc.within_exec clockNow_within).bind fun _ =>
    (LProc.within_exec (query_mute _ _)).bind fun _ =>
    (LProc.Within.forM (fun _ => verifyTerminal_mute) _).bind fun _ =>
    (LProc.Within.forM (fun _ => checkExchangeOpen_mute) _).bind fun _ =>
    (LProc.within_exec (call_within _)).bind fun _ =>
    (LProc.Within.forM (fun _ => checkRecentFill_mute) _).bind fun _ =>
    (LProc.within_exec (query_mute _ _)).bind fun _ =>
    (LProc.Within.forM (fun _ => checkFillsComplete_mute) _).bind fun _ => checkPosition_mute

end

/-! ## What a run goes by -/

/-- What the verdict and the messages of a run are made from: its arguments, the state it has found,
its key, how its try block has ended and what it has found. -/
structure Conduct where
  reason : String
  operatorAck : Bool
  previous : ReconciliationState
  runKey : RunKey
  outcome : Except Exn PUnit
  findings : Findings

namespace Conduct

variable {c : Conduct} {bot : String} {finishedAt : Time}

def result (c : Conduct) : ReconResult :=
  resultOf c.previous c.operatorAck c.runKey c.findings c.outcome

/-- The row `_persist` records. -/
def record (bot : String) (c : Conduct) : ReconRun where
  runKey := c.runKey
  bot := bot
  reason := c.reason
  status := c.result.status
  startedAt := c.runKey.started
  mismatches := c.result.mismatches

/-- The request `_persist` enqueues. -/
def request (bot : String) (c : Conduct) (finishedAt : Time) : ReconciliationRequest where
  run := c.record bot
  detail := some c.result.reason
  finishedAt := finishedAt

/-- The reason a run stores when it starts. -/
def starting (c : Conduct) : String := s!"reconciling ({c.reason})"

/-- The try block has returned and found nothing critical. -/
def Uncritical (c : Conduct) : Prop :=
  c.outcome = .ok ⟨⟩ ∧ c.findings.mismatches.filter Mismatch.isCritical = []

/-- The run awaits the acknowledgement of a halt it has found. -/
def Awaits (c : Conduct) : Prop :=
  c.Uncritical ∧ c.findings.pendingAmbiguous = 0 ∧ c.previous.status = .halted ∧
    c.operatorAck = false

/-- The limits of the requests, as limits of what a run goes by. -/
structure Fits (c : Conduct) : Prop where
  runKey : c.runKey.text.length ≤ 191
  reason : Required c.reason ∧ c.reason.length ≤ 255
  mismatches : c.findings.mismatches.length ≤ 500
  each : ∀ m ∈ c.findings.mismatches, m.Named
  raised : ∀ e, c.outcome = .error e → e.Short
  pending : c.Uncritical → c.findings.pendingAmbiguous < 10 ^ 1961
  awaits : c.Awaits → c.previous.reason.length ≤ 1945

end Conduct

/-! ## The lengths of the reasons -/

theorem lt_ten_pow {n k : Nat} (h : n ≤ k) : n < 10 ^ k :=
  h.trans_lt (Nat.lt_pow_self (by decide))

theorem length_intercalate_le {sep : String} {n : Nat} {l : List String}
    (hl : ∀ t ∈ l, t.length ≤ n) :
    (sep.intercalate l).length ≤ l.length * (n + sep.length) := by
  induction l with
  | nil => simp
  | cons t l ih =>
    obtain ⟨ht, hl⟩ := List.forall_mem_cons.1 hl
    cases l with
    | nil =>
      rw [String.intercalate_singleton, List.length_singleton]
      omega
    | cons t' l =>
      rw [String.intercalate_cons_cons, String.length_append, String.length_append,
        List.length_cons, Nat.succ_mul]
      have := ih hl
      omega

/-- The kinds a run reports. -/
def MismatchKind.all : List MismatchKind :=
  [.ambiguousOrderPending, .orderStateConflict, .terminalOrderMissingOnExchange,
    .executedQtyExceedsExchange, .unknownBotOrder, .foreignOpenOrder, .unknownBotFill, .foreignFill,
    .fillsIncomplete, .positionCorrected, .positionAnomaly, .balanceBelowPosition,
    .protectiveStopMissing]

theorem MismatchKind.mem_all (kind : MismatchKind) : kind ∈ MismatchKind.all := by
  cases kind <;> decide

/-- The kinds of the critical mismatches fit, however many mismatches there are. -/
theorem length_criticalReason_le (critical : List Mismatch) :
    (criticalReason critical).length ≤ 468 := by
  have hkinds : (critical.map (·.kind.value)).dedup.length ≤ 13 := by
    have hsub : (critical.map (·.kind.value)).dedup.Subperm
        (MismatchKind.all.map MismatchKind.value) := by
      refine List.subperm_of_subset (List.nodup_dedup _) fun t ht => ?_
      obtain ⟨m, -, rfl⟩ := List.mem_map.1 (List.mem_dedup.1 ht)
      exact List.mem_map_of_mem (MismatchKind.mem_all _)
    exact hsub.length_le
  have heach : ∀ t ∈ (critical.map (·.kind.value)).dedup.insertionSort (· ≤ ·),
      t.length ≤ 34 := by
    intro t ht
    obtain ⟨m, -, rfl⟩ := List.mem_map.1 (List.mem_dedup.1
      ((List.perm_insertionSort _ _).mem_iff.1 ht))
    exact m.kind.accepted.2
  refine (length_intercalate_le heach).trans ?_
  rw [List.length_insertionSort, show ("; " : String).length = 2 from rfl]
  omega

section
variable {previous : ReconciliationState} {ack : Bool} {runKey : RunKey} {f : Findings}

theorem reason_of_critical (hf : f.mismatches.filter Mismatch.isCritical ≠ []) :
    (verdict previous ack runKey f).reason =
      criticalReason (f.mismatches.filter Mismatch.isCritical) := by
  unfold verdict
  dsimp only
  rw [if_pos hf]

theorem reason_of_pending (hf : f.mismatches.filter Mismatch.isCritical = [])
    (hpending : f.pendingAmbiguous ≠ 0) :
    (verdict previous ack runKey f).reason.length = (Nat.repr f.pendingAmbiguous).length + 39 := by
  unfold verdict
  dsimp only
  rw [if_neg (not_not.2 hf), if_pos hpending]
  simp only [String.length_append]
  rfl

theorem reason_of_awaits (hf : f.mismatches.filter Mismatch.isCritical = [])
    (hpending : f.pendingAmbiguous = 0) (hhalted : previous.status = .halted) :
    (verdict previous false runKey f).reason.length = previous.reason.length + 55 := by
  unfold verdict
  dsimp only
  rw [if_neg (not_not.2 hf), if_neg (not_not.2 hpending), if_pos ⟨hhalted, rfl⟩]
  simp only [String.length_append]
  show 54 + previous.reason.length + 1 = _
  omega

theorem reason_of_healthy (hf : f.mismatches.filter Mismatch.isCritical = [])
    (hpending : f.pendingAmbiguous = 0) (hhalted : ¬ (previous.status = .halted ∧ ack = false)) :
    (verdict previous ack runKey f).reason = "reconciled" := by
  unfold verdict
  dsimp only
  rw [if_neg (not_not.2 hf), if_neg (not_not.2 hpending), if_neg (by simpa using hhalted)]

theorem reason_of_aborted (e : Exn) : (aborted runKey f e).reason.length =
    e.typeName.length + min 200 e.message.length + 25 := by
  simp only [aborted, String.length_append, String.length_ofList, List.length_take,
    String.length_toList]
  show 23 + e.typeName.length + 2 + _ = _
  omega

end

namespace Conduct

variable {c : Conduct} {bot : String} {finishedAt : Time}

theorem result_mismatches : c.result.mismatches = c.findings.mismatches := by
  unfold result resultOf
  split
  · unfold verdict
    dsimp only
    split_ifs <;> rfl
  · rfl

theorem result_runKey : c.result.runKey = c.runKey := by
  unfold result resultOf
  split
  · unfold verdict
    dsimp only
    split_ifs <;> rfl
  · rfl

/-- The reason of a run fits exactly when the texts it embeds do. -/
theorem reason_fits_iff : c.result.reason.length ≤ 2000 ↔
    (∀ e, c.outcome = .error e → e.typeName.length + min 200 e.message.length ≤ 1975) ∧
      (c.Uncritical → c.findings.pendingAmbiguous < 10 ^ 1961) ∧
      (c.Awaits → c.previous.reason.length ≤ 1945) := by
  unfold Awaits Uncritical result
  cases houtcome : c.outcome with
  | error e =>
    show (aborted c.runKey c.findings e).reason.length ≤ 2000 ↔ _
    rw [reason_of_aborted]
    constructor
    · intro h
      refine ⟨fun e' he => ?_, fun h' => ?_, fun h' => ?_⟩
      · cases he
        omega
      · cases h'.1
      · cases h'.1.1
    · intro h
      have := h.1 e rfl
      omega
  | ok _ =>
    show (verdict c.previous c.operatorAck c.runKey c.findings).reason.length ≤ 2000 ↔ _
    have hraised {p : Exn → Prop} : ∀ e, (Except.ok ⟨⟩ : Except Exn PUnit) = .error e → p e :=
      fun e he => by cases he
    by_cases hcritical : c.findings.mismatches.filter Mismatch.isCritical = []
    · by_cases hpending : c.findings.pendingAmbiguous = 0
      · have hzero : c.findings.pendingAmbiguous < 10 ^ 1961 := by
          rw [hpending]
          positivity
        by_cases hawaits : c.previous.status = .halted ∧ c.operatorAck = false
        · rw [hawaits.2, reason_of_awaits hcritical hpending hawaits.1]
          constructor
          · exact fun h => ⟨hraised, fun _ => hzero, fun _ => by omega⟩
          · intro h
            have := h.2.2 ⟨⟨rfl, hcritical⟩, hpending, hawaits.1, rfl⟩
            omega
        · rw [reason_of_healthy hcritical hpending hawaits]
          exact iff_of_true (by decide)
            ⟨hraised, fun _ => hzero, fun h => absurd h.2.2 hawaits⟩
      · rw [reason_of_pending hcritical hpending]
        have hfits : (Nat.repr c.findings.pendingAmbiguous).length + 39 ≤ 2000 ↔
            c.findings.pendingAmbiguous < 10 ^ 1961 := by
          rw [← Nat.length_repr_le_iff (by decide)]
          omega
        rw [hfits]
        exact ⟨fun h => ⟨hraised, fun _ => h, fun h' => absurd h'.2.1 hpending⟩,
          fun h => h.2.1 ⟨rfl, hcritical⟩⟩
    · rw [reason_of_critical hcritical]
      exact iff_of_true ((length_criticalReason_le _).trans (by decide))
        ⟨hraised, fun h => absurd h.2 hcritical, fun h => absurd h.1.2 hcritical⟩

/-- What a run enqueues and stores is accepted exactly when the run keeps within the limits. -/
theorem accepted_iff : ((c.request bot finishedAt).Accepted ∧ HeartbeatAccepted c.starting ∧
    HeartbeatAccepted c.result.reason) ↔ c.Fits := by
  constructor
  · rintro ⟨haccepted, -, hreason⟩
    obtain ⟨hraised, hpending, hawaits⟩ := reason_fits_iff.1 hreason
    have heach := haccepted.each
    have hmismatches := haccepted.mismatches
    simp only [request, record, result_mismatches] at heach hmismatches
    exact ⟨haccepted.runKey.2, haccepted.reason, hmismatches,
      fun m hm => (heach m hm).clientOrderId, hraised, hpending, hawaits⟩
  · intro h
    have hreason := reason_fits_iff.2 ⟨h.raised, h.pending, h.awaits⟩
    refine ⟨⟨⟨?_, h.runKey⟩, h.reason, ?_, ?_, ?_⟩, ?_, hreason⟩
    · exact c.runKey.required
    · rintro _ ⟨⟩
      exact hreason
    · show c.result.mismatches.length ≤ 500
      rw [result_mismatches]
      exact h.mismatches
    · show ∀ m ∈ c.result.mismatches, m.Accepted
      rw [result_mismatches]
      exact fun m hm => Mismatch.accepted_iff.2 (h.each m hm)
    · have := h.reason.2
      show (toString "reconciling (" ++ toString c.reason ++ toString ")").length ≤ 2000
      rw [String.length_append, String.length_append]
      show 13 + c.reason.length + 1 ≤ 2000
      omega

end Conduct

/-! ## What a run stores -/

section
variable {cfg : Config} {ans : Answers Ledger Label Ans} {h h' : History Label Ans}
  {s s' : Ledger} {α : Type}

/-- The steps that write the reconciliation row. -/
def rowWrites (h : History Label Ans) : List Label :=
  h.filterMap fun
    | .step l => if l.writesRow then some l else none
    | .call .. => none

theorem Later.rowWrites_eq (hh : Later h h') : rowWrites h' = rowWrites h := by
  obtain ⟨es, rfl, hes⟩ := hh
  rw [rowWrites, List.filterMap_append, List.filterMap_eq_nil_iff.2, List.nil_append, rowWrites]
  intro e he
  have hp := hes e he
  split
  · next l =>
    cases l with
    | query => rfl
    | commit => rfl
    | _ => cases hp
  · rfl

theorem rowWrites_cons {l : Label} (hl : l.writesRow) :
    rowWrites (.step l :: h) = l :: rowWrites h := by simp [rowWrites, hl]

/-- The reasons the row has been given, newest first. -/
def storedReasons (h : History Label Ans) : List String :=
  (rowWrites h).filterMap fun l => l.written.map (·.2)

theorem storedReasons_step {l : Label} {w : ReconciliationStatus × String}
    (hl : l.written = some w) : storedReasons (.step l :: h) = w.2 :: storedReasons h := by
  have hrow : l.writesRow = true := by
    cases l <;> first | rfl | cases hl
  rw [storedReasons, rowWrites_cons hrow, List.filterMap_cons, hl]
  rfl

theorem Later.storedReasons_eq (hh : Later h h') : storedReasons h' = storedReasons h :=
  congrArg (List.filterMap _) hh.rowWrites_eq

/-- The reason a heartbeat reports. -/
def reconciliationReason (cfg : Config) (s : Ledger) : String := (s.getReconState cfg.bot).reason

/-- The steps that neither write the row nor enqueue a request about a run. -/
def Unheard (cfg : Config) (l : Label) (s s' : Ledger) : Prop := Quiet cfg l s s' ∧ Mute l s s'

/-- What is stored and requested is as it was. -/
structure Still (h : History Label Ans) (s : Ledger) (h' : History Label Ans) (s' : Ledger) :
    Prop where
  stored : storedReasons h' = storedReasons h
  row : s'.reconState = s.reconState
  requests : s'.runRequests = s.runRequests

theorem Still.step {h₁ : History Label Ans} {s₁ s₂ : Ledger} {l : Label}
    (hstep : Unheard cfg l s₁ s₂) (hs : Still h s h₁ s₁) : Still h s (.step l :: h₁) s₂ where
  stored := by
    have hrow := hstep.1.1
    rw [← hs.stored, storedReasons, rowWrites, List.filterMap_cons]
    simp [hrow, storedReasons, rowWrites]
  row := hstep.1.reconState.trans hs.row
  requests := Eq.trans hstep.2 hs.requests

theorem ends_unheard {p : Engine α} {r : Except Exn α} (hp : p.Within (Unheard cfg))
    (hrun : Proc.Ends ans p h s r h' s') : Still h s h' s' :=
  Prog.Ends.within (I := Still h s) hrun hp (fun hstep hs => hs.step hstep)
    (fun hs => ⟨hs.stored, hs.row, hs.requests⟩) ⟨rfl, rfl, rfl⟩

theorem ends_body_still {runKey : RunKey} {last : Option Time} {outcome : Except Exn PUnit}
    {f f' : Findings} (hrun : LProc.Ends ans (body cfg runKey last) f h s outcome f' h' s') :
    Still h s h' s' :=
  Prog.Ends.within (I := Still h s) hrun ((body_quiet f).and (body_mute f))
    (fun {_ l _ _} hstep hs => hs.step (show Unheard cfg l _ _ from hstep))
    (fun hs => ⟨hs.stored, hs.row, hs.requests⟩)
    ⟨rfl, rfl, rfl⟩

/-- A `set_state` stores its reason. -/
theorem ends_setState_stored {l : Label} {status : ReconciliationStatus} {reason : String}
    {success : Bool} {ws : Option Bool} {r : Except Exn Unit}
    (hl : l.written = some (status, reason))
    (hrun : Proc.Ends ans (setState cfg l status reason success ws) h s r h' s') :
    storedReasons h' = reason :: storedReasons h ∧ StateRow.stored cfg s' = (status, reason) ∧
      s'.runRequests = s.runRequests := by
  obtain ⟨rfl, -, h₁, hh₁, rfl⟩ := ends_setState hrun
  refine ⟨by rw [storedReasons_step hl, hh₁.storedReasons_eq], ?_⟩
  unfold setState at hrun
  obtain ⟨st, h₂, s₂, hq, hrun⟩ := (Proc.ends_bind_ok _ _ _).1 hrun
  obtain ⟨hst, rfl, rfl⟩ := (ends_query _ _ _).1 hq
  cases hst
  obtain ⟨now, h₃, s₃, hnow, hrun⟩ := (Proc.ends_bind_ok _ _ _).1 hrun
  obtain ⟨_, -, -, rfl, rfl⟩ := ends_clockNow hnow
  obtain ⟨st', h₄, s₄, htx, hrun⟩ := (Proc.ends_bind_ok _ _ _).1 hrun
  obtain ⟨-, -, rfl⟩ := (Proc.ends_pure _ _).1 hrun
  obtain ⟨-, ⟨_, htx, -⟩ | ⟨_, htx, -⟩⟩ := ends_transaction htx
  · refine ⟨?_, ?_⟩
    · rw [StateRow.stored, StateRow.saveReconState_ok (by simp) htx]
    · cases htx
      rfl
  · cases htx

/-- `_persist` enqueues the request of the run. -/
theorem ends_persist_requests {result : ReconResult} {reason : String} {started : Time}
    {r : Except Exn Unit}
    (hrun : Proc.Ends ans (persist cfg result reason started) h s r h' s') :
    storedReasons h' = storedReasons h ∧ s'.reconState = s.reconState ∧
      ∃ new, s'.runRequests = s.runRequests ++ new ∧ ∀ d ∈ new, d.detail = some result.reason ∧
        d.run = { runKey := result.runKey, bot := cfg.bot, reason, status := result.status,
                  startedAt := started, mismatches := result.mismatches } := by
  obtain ⟨rfl, -, hh⟩ := ends_persist hrun
  refine ⟨hh.storedReasons_eq, ?_⟩
  unfold persist at hrun
  obtain ⟨_, h₂, s₂, htx, hrun⟩ := (Proc.ends_bind_ok _ _ _).1 hrun
  obtain ⟨rfl, ⟨_, htx, -⟩ | ⟨_, htx, -⟩⟩ := ends_transaction htx
  · cases htx
    obtain ⟨now, h₃, s₃, hnow, hrun⟩ := (Proc.ends_bind_ok _ _ _).1 hrun
    obtain ⟨_, -, -, rfl, rfl⟩ := ends_clockNow hnow
    obtain ⟨-, ⟨_, htx, -⟩ | ⟨_, htx, -⟩⟩ := ends_transaction hrun
    · unfold Store.enqueue at htx
      split at htx
      · cases htx
        exact ⟨rfl, [], (List.append_nil _).symm, List.forall_mem_nil _⟩
      · cases htx
        refine ⟨rfl, _, List.filterMap_append, ?_⟩
        rintro d hd
        cases List.mem_singleton.1 hd
        exact ⟨rfl, rfl⟩
    · obtain ⟨s₁, hok⟩ := Store.enqueue_isOk _ _ _ _ _
      rw [hok] at htx
      cases htx
  · cases htx

/-- The verdict of a run is stored and requested. -/
theorem ends_conclude_stored {previous : ReconciliationState} {ack : Bool} {runKey : RunKey}
    {reason : String} {started : Time} {outcome : Except Exn PUnit} {f : Findings}
    {r : Except Exn ReconResult}
    (hrun : Proc.Ends ans (conclude cfg previous ack runKey reason started outcome f) h s r h' s') :
    storedReasons h' = (resultOf previous ack runKey f outcome).reason :: storedReasons h ∧
      StateRow.stored cfg s' = ((resultOf previous ack runKey f outcome).status,
        (resultOf previous ack runKey f outcome).reason) ∧
      ∃ new, s'.runRequests = s.runRequests ++ new ∧ ∀ d ∈ new,
        d.detail = some (resultOf previous ack runKey f outcome).reason ∧
        d.run = { runKey := (resultOf previous ack runKey f outcome).runKey, bot := cfg.bot, reason
                  status := (resultOf previous ack runKey f outcome).status, startedAt := started
                  mismatches := (resultOf previous ack runKey f outcome).mismatches } := by
  obtain ⟨rfl, -⟩ := ends_conclude hrun
  cases outcome with
  | error e =>
    obtain ⟨_, h₁, s₁, hp, hrun⟩ := (Proc.ends_bind_ok _ _ _).1 hrun
    obtain ⟨hst₁, hrow₁, new, hnew, hd⟩ := ends_persist_requests hp
    obtain ⟨_, h₂, s₂, hset, hrun⟩ := (Proc.ends_bind_ok _ _ _).1 hrun
    obtain ⟨hst₂, hrow₂, hreq₂⟩ := ends_setState_stored rfl hset
    obtain ⟨-, rfl, rfl⟩ := (Proc.ends_pure _ _).1 hrun
    exact ⟨by rw [hst₂, hst₁]; rfl, hrow₂, new, hreq₂.trans hnew, hd⟩
  | ok _ =>
    obtain ⟨_, h₁, s₁, hp, hrun⟩ := (Proc.ends_bind_ok _ _ _).1 hrun
    obtain ⟨hst₁, hrow₁, new, hnew, hd⟩ := ends_persist_requests hp
    obtain ⟨_, h₂, s₂, hset, hrun⟩ := (Proc.ends_bind_ok _ _ _).1 hrun
    obtain ⟨hst₂, hrow₂, hreq₂⟩ := ends_setState_stored rfl hset
    have henqueue {kind key message now} (hm : message.reconciliationRequest = none) :
        (transaction .commit (Store.enqueue kind key message now)).Within (Unheard cfg) :=
      Prog.Within.and (Exchange.within_quiet (enqueue_exchange rfl))
        (transaction_mute (enqueue_mute hm))
    have hstill := @ends_unheard cfg _ _ _ _ _ _ _ _ (Proc.Within.ite
      (clockNow_within.bind fun now => (henqueue rfl).bind fun _ => (henqueue rfl).bind fun _ =>
        Proc.within_pure _)
      (Proc.within_pure _)) hrun
    exact ⟨by rw [hstill.stored, hst₂, hst₁]; rfl,
      Eq.trans (by rw [StateRow.stored, StateRow.stored, Ledger.getReconState_congr hstill.row])
        hrow₂, new, hstill.requests.trans (hreq₂.trans hnew), hd⟩

/-! ## Sequences of runs -/

/-- A run of the program that goes by `c`: it has found this state and this key, and its try block
has ended in this way. -/
inductive Conducted (ans : Answers Ledger Label Ans) (cfg : Config) (c : Conduct)
    (h : History Label Ans) (s : Ledger) (h' : History Label Ans) (s' : Ledger) : Prop
  | intro {h₀ h₁ h₂ : History Label Ans} {s₁ s₂ : Ledger} {r : Except Exn ReconResult}
      (hprevious : c.previous = s.getReconState cfg.bot) (hopen : Later h h₀)
      (hbot : c.runKey.bot = cfg.bot) (hnow : ans h (.ambient .now) s c.runKey.started)
      (hnonce : ans (.step .query :: .call (.ambient .now) c.runKey.started :: h) (.ambient .uuid) s
        c.runKey.nonce)
      (hstart : Proc.Ends ans (setState cfg (.runStart c.operatorAck c.previous.status c.starting)
        .reconciling c.starting false none) h₀ s (.ok ⟨⟩) h₁ s₁)
      (hbody : LProc.Ends ans (body cfg c.runKey c.previous.lastSuccessAt) {} h₁ s₁ c.outcome
        c.findings h₂ s₂)
      (hconclude : Proc.Ends ans (conclude cfg c.previous c.operatorAck c.runKey c.reason
        c.runKey.started c.outcome c.findings) h₂ s₂ r h' s')

/-- Every run goes by something. -/
theorem ends_run_conducted {reason : String} {ack : Bool} {r : Except Exn ReconResult}
    (hrun : Proc.Ends ans (ReconciliationService.run cfg reason ack) h s r h' s') :
    ∃ c : Conduct, c.reason = reason ∧ c.operatorAck = ack ∧ Conducted ans cfg c h s h' s' := by
  unfold ReconciliationService.run at hrun
  rw [Proc.ends_bind] at hrun
  rcases hrun with ⟨started, h₁, s₁, hnow, hrun⟩ | ⟨e, hnow, -⟩
  · obtain ⟨_, hstarted, hclock, rfl, rfl⟩ := ends_clockNow hnow
    cases hstarted
    rw [Proc.ends_bind] at hrun
    rcases hrun with ⟨previous, h₂, s₂, hq, hrun⟩ | ⟨e, hq, -⟩
    · obtain ⟨hprev, rfl, rfl⟩ := (ends_query _ _ _).1 hq
      cases hprev
      rw [Proc.ends_bind] at hrun
      rcases hrun with ⟨nonce, h₃, s₃, hnonce, hrun⟩ | ⟨e, hnonce, -⟩
      · obtain ⟨nonce, huuid, hget, rfl, rfl⟩ := (Proc.ends_ask _ _ _).1 hnonce
        cases Except.ok.inj hget
        rw [Proc.ends_bind] at hrun
        rcases hrun with ⟨_, h₄, s₄, hset, hrun⟩ | ⟨e, hset, -⟩
        · rw [Proc.ends_bind] at hrun
          rcases hrun with ⟨⟨outcome, f⟩, h₅, s₅, hbody, hconclude⟩ | ⟨e, hbody, -⟩
          · obtain ⟨_, _, heq, hbody⟩ := (LProc.ends_outcome _ _).1 hbody
            cases heq
            refine ⟨⟨reason, ack, _, ⟨cfg.bot, started, nonce⟩, outcome, f⟩, rfl, rfl,
              .intro rfl ?_ rfl hclock huuid hset hbody hconclude⟩
            exact ((Later.rfl.cons rfl).cons rfl).cons rfl
          · obtain ⟨_, _, heq, -⟩ := (LProc.ends_outcome _ _).1 hbody
            cases heq
        · cases (ends_setState hset).1
      · obtain ⟨_, -, hr, -⟩ := (Proc.ends_ask _ _ _).1 hnonce
        cases hr
    · cases hq.1
  · obtain ⟨_, hr, -⟩ := ends_clockNow hnow
    cases hr

/-- What is asked of a run: its arguments, the ledger it finds and the answers it gets. -/
abbrev Demand : Type := String → Bool → Ledger → Answers Ledger Label Ans → Prop

/-- The runs of a process, one after the other, each of which meets the demand `D`. -/
inductive Series (ans : Answers Ledger Label Ans) (cfg : Config) (D : Demand)
    (h : History Label Ans) (s : Ledger) : Nat → History Label Ans → Ledger → Prop
  | nil : Series ans cfg D h s 0 h s
  | run {n : Nat} {reason : String} {operatorAck : Bool} {A : Answers Ledger Label Ans}
      {h₁ h₂ : History Label Ans} {s₁ s₂ : Ledger} {r : Except Exn ReconResult}
      (hrest : Series ans cfg D h s n h₁ s₁) (hA : ∀ h q s a, A h q s a → ans h q s a)
      (hrun : Proc.Ends A (ReconciliationService.run cfg reason operatorAck) h₁ s₁ r h₂ s₂)
      (hD : D reason operatorAck s₁ A) : Series ans cfg D h s (n + 1) h₂ s₂

/-- Every request that was enqueued in this stretch is accepted, and so is every heartbeat: the row
was given reasons that are accepted, and holds the last of them. -/
structure Mirrored (cfg : Config) (h : History Label Ans) (s : Ledger) (h' : History Label Ans)
    (s' : Ledger) : Prop where
  requests : ∃ new, s'.runRequests = s.runRequests ++ new ∧ ∀ d ∈ new, d.Accepted
  heartbeats : ∃ new, storedReasons h' = new ++ storedReasons h ∧
    (∀ reason ∈ new, HeartbeatAccepted reason) ∧
    reconciliationReason cfg s' = new.head?.getD (reconciliationReason cfg s)

theorem Mirrored.refl : Mirrored cfg h s h s where
  requests := ⟨[], (List.append_nil _).symm, List.forall_mem_nil _⟩
  heartbeats := ⟨[], rfl, List.forall_mem_nil _, rfl⟩

theorem Mirrored.trans {h₁ : History Label Ans} {s₁ : Ledger} (h₁' : Mirrored cfg h s h₁ s₁)
    (h₂' : Mirrored cfg h₁ s₁ h' s') : Mirrored cfg h s h' s' where
  requests := by
    obtain ⟨new₁, heq₁, hnew₁⟩ := h₁'.requests
    obtain ⟨new₂, heq₂, hnew₂⟩ := h₂'.requests
    exact ⟨new₁ ++ new₂, by rw [heq₂, heq₁, List.append_assoc],
      List.forall_mem_append.2 ⟨hnew₁, hnew₂⟩⟩
  heartbeats := by
    obtain ⟨new₁, heq₁, hnew₁, hrow₁⟩ := h₁'.heartbeats
    obtain ⟨new₂, heq₂, hnew₂, hrow₂⟩ := h₂'.heartbeats
    refine ⟨new₂ ++ new₁, by rw [heq₂, heq₁, List.append_assoc],
      List.forall_mem_append.2 ⟨hnew₂, hnew₁⟩, ?_⟩
    rw [hrow₂, hrow₁]
    cases new₂ <;> rfl

/-- A run stores two reasons and enqueues its request, if anything. -/
theorem Conducted.stored {c : Conduct} (hc : Conducted ans cfg c h s h' s') :
    storedReasons h' = [c.result.reason, c.starting] ++ storedReasons h ∧
      StateRow.stored cfg s' = (c.result.status, c.result.reason) ∧
      ∃ new, s'.runRequests = s.runRequests ++ new ∧
        ∀ d ∈ new, d = c.request cfg.bot d.finishedAt := by
  obtain ⟨-, hopen, -, -, -, hstart, hbody, hconclude⟩ := hc
  obtain ⟨hst₁, -, hreq₁⟩ := ends_setState_stored rfl hstart
  have hstill := ends_body_still hbody
  obtain ⟨hst₂, hrow, new, hnew, hd⟩ := ends_conclude_stored hconclude
  refine ⟨?_, hrow, new, ?_, fun d hdn => ?_⟩
  · rw [hst₂, hstill.stored, hst₁, hopen.storedReasons_eq]
    rfl
  · rw [hnew, hstill.requests, hreq₁]
  · obtain ⟨hdetail, hrun⟩ := hd d hdn
    cases d
    cases hdetail
    cases hrun
    exact congrArg (fun k => ({ c.request cfg.bot _ with
      run := { c.record cfg.bot with runKey := k } } : ReconciliationRequest)) c.result_runKey

/-- A run that keeps within the limits is mirrored. -/
theorem Conducted.mirrored {c : Conduct} (hc : Conducted ans cfg c h s h' s') (hfits : c.Fits) :
    Mirrored cfg h s h' s' := by
  obtain ⟨hstored, hrow, new, hnew, hd⟩ := hc.stored
  have haccepted (finishedAt : Time) := (@Conduct.accepted_iff c cfg.bot finishedAt).2 hfits
  refine ⟨⟨new, hnew, fun d hdn => ?_⟩, _, hstored, ?_, congrArg Prod.snd hrow⟩
  · rw [hd d hdn]
    exact (haccepted _).1
  · rintro reason hreason
    rcases List.mem_pair.1 hreason with rfl | rfl
    · exact (haccepted 0).2.2
    · exact (haccepted 0).2.1

/-- What a run finds in its ledger, and is answered, is manageable: the arguments and the bot's name
fit, so does the reason of a halt that is not acknowledged, and there are no more discrepancies than
the budget, which leaves room for the orders whose state and fills are verified. -/
structure Manageable (cfg : Config) (b : Budget) (reason : String) (operatorAck : Bool) (s : Ledger)
    (A : Answers Ledger Label Ans) : Prop where
  bot : cfg.bot.length ≤ 143
  reason : Required reason ∧ reason.length ≤ 255
  halted : operatorAck = false → (s.getReconState cfg.bot).status = .halted →
    (s.getReconState cfg.bot).reason.length ≤ 1945
  budget : b.orders + b.listed + b.fills + b.anomalies ≤ 377
  orders : (s.nonTerminalOrders cfg.bot cfg.symbol).length ≤ b.orders
  named : s.Named
  answers : ∀ h q s a, A h q s a → Modest cfg b q s a

/-- Such a run keeps within the limits. -/
theorem Conducted.fits {b : Budget} {c : Conduct} (hc : Conducted ans cfg c h s h' s')
    (hm : Manageable cfg b c.reason c.operatorAck s ans) : c.Fits := by
  rcases hc with @⟨_, _, _, s₁, _, _, hprevious, -, hbot, -, hnonce, hstart, hbody, -⟩
  have haside := (ends_setState hstart).2.1
  have hnamed : s₁.Named := fun id hid =>
    hm.named id (by rwa [Ledger.getOrder_congr haside.orders] at hid)
  have horders : (s₁.nonTerminalOrders cfg.bot cfg.symbol).length ≤ b.orders := by
    rw [Ledger.nonTerminalOrders, haside.orders]
    exact hm.orders
  obtain ⟨hadds, hraised⟩ := adding_body hm.answers hnamed horders hbody
  have hbudget := hm.budget
  refine ⟨c.runKey.length_text_le.trans ?_, hm.reason, ?_, ?_, hraised, fun _ => ?_, fun h => ?_⟩
  · have hlength : c.runKey.nonce.length = 8 := hm.answers _ _ _ _ hnonce
    have hname := hm.bot
    rw [hbot, hlength]
    omega
  · refine hadds.mismatches.trans ?_
    show 0 + _ ≤ 500
    omega
  · exact hadds.named (List.forall_mem_nil _)
  · refine lt_ten_pow (hadds.pending.trans ?_)
    show 0 + _ ≤ 1961
    omega
  · rw [hprevious]
    refine hm.halted h.2.2.2 ?_
    rw [← hprevious]
    exact h.2.2.1

/-- In every sequence of manageable runs, everything is mirrored. -/
theorem runs_mirrored {n : Nat} (hrun : Series ans cfg (fun reason ack s A => ∃ b,
    Manageable cfg b reason ack s A) h s n h' s') : Mirrored cfg h s h' s' := by
  induction hrun with
  | nil => exact .refl
  | run hrest _ hrun hD ih =>
    obtain ⟨b, hm⟩ := hD
    obtain ⟨c, rfl, rfl, hc⟩ := ends_run_conducted hrun
    exact ih.trans (hc.mirrored (hc.fits hm))

end

/-! ## Clean runs of a halted bot -/

/-- An account with nothing on it, at one second an event. -/
def emptyAccount : Prog.Env Label Ans := fun h q =>
  match q with
  | .ambient .now => seconds h.length
  | .ambient .uuid => "0badcafe"
  | .ambient .connected => true
  | .call (.symbolRules symbol) =>
    .ok { symbol, baseAsset := symbol.base, quoteAsset := symbol.quote }
  | .call (.openOrders _) => .ok []
  | .call (.recentFills ..) => .ok []
  | .call .balances => .ok ⟨[]⟩
  | .call _ => .error (.external "ConnectionError" "")

/-- A ledger without orders and fills, and with a flat position. -/
structure Flat (cfg : Config) (s : Ledger) : Prop where
  orders : s.orders = .empty
  fills : s.fills = .empty
  position : (s.getPosition cfg.bot cfg.symbol).quantity = 0


section
variable {α β : Type} {env : Prog.Env Label Ans} {F : Answers Ledger Label Ans}
  {h : History Label Ans} {s : Ledger} {t : Findings}
  {Φ : Except Exn β → Findings → History Label Ans → Ledger → Prop} {g : α → RunM β}

theorem wp_ask_ok {r : Req} {a : r.Val} {g : r.Val → RunM β} (ha : env h (.call r) = .ok a)
    (hF : F h (.call r) s (.ok a))
    (hg : LProc.wp (Prog.watched env F) (g a) Φ t (.call (.call r) (.ok a) :: h) s) :
    LProc.wp (Prog.watched env F) (LProc.exec (call r) >>= g) Φ t h s := by
  refine (LProc.wp_bind _ _ _ _ _ _).2 ((LProc.wp_exec _ _ _ _ _).2 ((wp_call _ _).2 ?_))
  rintro s' rfl
  refine ⟨?_, fun b hb => ?_⟩
  · show F h (.call r) s' (env h (.call r))
    rw [ha]
    exact hF
  · obtain rfl := hb.trans ha
    exact hg

theorem wp_look_up {l : Label} {f : Ledger → α}
    (hg : LProc.wp (Prog.watched env F) (g (f s)) Φ t (.step l :: h) s) :
    LProc.wp (Prog.watched env F) (LProc.exec (query l f) >>= g) Φ t h s := by
  refine (LProc.wp_bind _ _ _ _ _ _).2 ((LProc.wp_exec _ _ _ _ _).2 ?_)
  rintro s' rfl
  exact ⟨trivial, hg⟩

theorem wp_clock (hF : Lenient env F) {g : Time → RunM β}
    (hg : ∀ now, LProc.wp (Prog.watched env F) (g now) Φ t (.call (.ambient .now) now :: h) s) :
    LProc.wp (Prog.watched env F) (LProc.exec clockNow >>= g) Φ t h s := by
  refine (LProc.wp_bind _ _ _ _ _ _).2 ((LProc.wp_exec _ _ _ _ _).2 ((wp_clockNow _).2 ?_))
  rintro s' rfl
  exact ⟨hF h .now s', fun now _ => hg now⟩

theorem wp_commit {l : Label} {tx : Tx α} {a : α} {s' : Ledger} (htx : tx s = .ok (a, s'))
    (hg : LProc.wp (Prog.watched env F) (g a) Φ t (.step l :: h) s') :
    LProc.wp (Prog.watched env F) (LProc.exec (transaction l tx) >>= g) Φ t h s := by
  refine (LProc.wp_bind _ _ _ _ _ _).2 ((LProc.wp_exec _ _ _ _ _).2 (wp_transaction_ok ?_))
  rintro s' rfl
  exact ⟨a, _, htx, trivial, hg⟩

theorem wp_done {a : α} (hg : LProc.wp (Prog.watched env F) (g a) Φ t h s) :
    LProc.wp (Prog.watched env F) (pure a >>= g) Φ t h s :=
  (LProc.wp_bind _ _ _ _ _ _).2 hg

end

/-- The answers of the empty account, which show nothing. -/
abbrev emptyAnswers : Answers Ledger Label Ans :=
  fun _ q s a => Modest sampleConfig ⟨0, 0, 0, 0⟩ q s a

theorem lenient_empty : Lenient emptyAccount emptyAnswers
  | _, .now, _ => trivial
  | _, .uuid, _ => by show String.length "0badcafe" = 8; decide
  | _, .connected, _ => trivial

variable {h : History Label Ans} {s : Ledger}

theorem Flat.save {cfg : Config} {p p' : Position} {now : Time} {s' : Ledger} (hs : Flat cfg s)
    (hbot : p.bot = cfg.bot) (hsymbol : p.symbol = cfg.symbol) (hp : p.quantity = 0)
    (hsave : Store.savePosition p now s = .ok (p', s')) : p'.quantity = 0 ∧ Flat cfg s' := by
  have hpositions : s'.positions = Store.upsertPosition s.positions p' := by
    cases hsave
    rfl
  have hsaved : p'.bot = cfg.bot ∧ p'.symbol = cfg.symbol ∧ p'.quantity = 0 := by
    cases hsave
    exact ⟨hbot, hsymbol, hp⟩
  have hposition : s'.getPosition cfg.bot cfg.symbol = p' :=
    Ledger.getPosition_upsert_self hpositions hsaved.1 hsaved.2.1
  refine ⟨hsaved.2.2, ?_, ?_, hposition ▸ hsaved.2.2⟩
  · cases hsave
    exact hs.orders
  · cases hsave
    exact hs.fills

theorem Flat.fillsOf {cfg : Config} (hs : Flat cfg s) : s.fillsOf cfg.bot cfg.symbol = [] := by
  simp [Ledger.fillsOf, hs.fills, Table.empty]

theorem wp_rebuild_flat (hs : Flat sampleConfig s) :
    Proc.wp (Prog.watched emptyAccount emptyAnswers) (rebuild sampleConfig)
      (fun r _ s' => ∃ p : Position, r = .ok (p, []) ∧ p.quantity = 0 ∧ Flat sampleConfig s')
      h s := by
  refine (Proc.wp_bind _ _ _ _ _).2 ((wp_query _ _).2 ?_)
  intro s₁ hs₁
  obtain rfl : s₁ = s := hs₁
  refine ⟨trivial, (Proc.wp_bind _ _ _ _ _).2 ((wp_query _ _).2 ?_)⟩
  intro s₂ hs₂
  obtain rfl : s₂ = s₁ := hs₂
  refine ⟨trivial, ?_⟩
  rw [hs.fillsOf]
  refine (Proc.wp_bind _ _ _ _ _).2 ((wp_clockNow _).2 ?_)
  intro s₃ hs₃
  obtain rfl : s₃ = s₂ := hs₃
  refine ⟨trivial, fun now _ => (Proc.wp_bind _ _ _ _ _).2 (wp_transaction_ok ?_)⟩
  intro s₄ hs₄
  obtain rfl : s₄ = s₃ := hs₄
  refine ⟨_, _, rfl, trivial, _, rfl, @Flat.save _ _ (PositionService.rebuilt
    (s₄.getPosition sampleConfig.bot sampleConfig.symbol) sampleConfig.bot sampleConfig.symbol []).1
    _ now _ hs rfl rfl rfl rfl⟩

theorem wp_checkPosition_flat {k : RunKey} {rules : SymbolRules} {tolerance : ℚ}
    (ht : 0 < tolerance) (hs : Flat sampleConfig s) :
    LProc.wp (Prog.watched emptyAccount emptyAnswers)
      (checkPosition sampleConfig k rules tolerance)
      (fun r f _ s' => r = .ok ⟨⟩ ∧ f = {} ∧ Flat sampleConfig s') {} h s := by
  refine wp_ask_ok rfl ⟨nofun, fun _ _ => ?_⟩ (wp_look_up ?_)
  · show (s.folded sampleConfig.bot sampleConfig.symbol).2.length ≤ 0
    rw [Ledger.folded, hs.fillsOf]
    exact le_rfl
  refine (LProc.wp_bind _ _ _ _ _ _).2 ((LProc.wp_exec _ _ _ _ _).2 ?_)
  refine Proc.wp_mono (wp_rebuild_flat hs) ?_
  rintro _ h₁ s₁ ⟨p, rfl, hp, hs₁⟩
  have hcompare : comparePosition tolerance
      (s.getPosition sampleConfig.bot sampleConfig.symbol) p [] 0 = pure ⟨⟩ := by
    have hlt : ¬ tolerance < 0 := not_lt.2 ht.le
    rw [comparePosition, hs.position, hp, sub_self, abs_zero, if_neg hlt, if_neg hlt]
    rfl
  show LProc.wp _ (comparePosition _ _ _ _ 0 >>= _) _ _ _ _
  rw [hcompare]
  refine wp_done (wp_commit rfl (wp_clock lenient_empty fun now => ?_))
  obtain ⟨outbox, hout⟩ := Store.enqueue_eq_ok .positions (.positionRecon sampleConfig.symbol k)
    (.position p) now _
  exact wp_commit hout ⟨rfl, rfl, hs₁.orders, hs₁.fills, hs₁.position⟩

theorem wp_body_flat {k : RunKey} {last : Option Time} (hs : Flat sampleConfig s) :
    LProc.wp (Prog.watched emptyAccount emptyAnswers) (body sampleConfig k last)
      (fun r f _ s' => r = .ok ⟨⟩ ∧ f = {} ∧ Flat sampleConfig s') {} h s := by
  have horders : s.nonTerminalOrders sampleConfig.bot sampleConfig.symbol = [] := by
    simp [Ledger.nonTerminalOrders, hs.orders, Table.empty]
  have hnewest : s.newestOrders sampleConfig.bot sampleConfig.symbol 100 = [] := by
    simp [Ledger.newestOrders, hs.orders, Table.empty]
  have hnothing {r : Req} {a : r.Val} (hr : Shows sampleConfig ⟨0, 0, 0, 0⟩ s r a) :
      Modest sampleConfig ⟨0, 0, 0, 0⟩ (.call r) s (.ok a) :=
    ⟨fun e he => (by cases he), fun v hv => by cases hv; exact hr⟩
  refine wp_ask_ok rfl (hnothing trivial) (wp_look_up (wp_ask_ok rfl
    (hnothing ⟨le_rfl, List.forall_mem_nil _⟩) ?_))
  rw [horders]
  refine wp_done (wp_clock lenient_empty fun now => wp_look_up ?_)
  rw [hnewest]
  refine wp_done (wp_done (wp_ask_ok rfl (hnothing le_rfl) (wp_done (wp_look_up ?_))))
  rw [hnewest]
  exact wp_done (wp_checkPosition_flat (by positivity) hs)

theorem Flat.aside {cfg : Config} {s' : Ledger} (hs : Flat cfg s) (ha : Aside s s') :
    Flat cfg s' where
  orders := ha.orders.trans hs.orders
  fills := ha.fills.trans hs.fills
  position := by rw [Ledger.getPosition_congr ha.positions, hs.position]

/-- A clean run that finds the bot HALTED leaves it HALTED, with a reason that is 55 characters
longer. -/
theorem Conducted.clean {h' : History Label Ans} {s' : Ledger} {c : Conduct}
    (hc : Conducted emptyAccount.answers sampleConfig c h s h' s')
    (hs : Flat sampleConfig s) (hhalted : (s.getReconState sampleConfig.bot).status = .halted)
    (hack : c.operatorAck = false) :
    Flat sampleConfig s' ∧ (s'.getReconState sampleConfig.bot).status = .halted ∧
      (reconciliationReason sampleConfig s').length =
        (reconciliationReason sampleConfig s).length + 55 := by
  obtain ⟨-, hstored, -⟩ := hc.stored
  obtain ⟨hprevious, -, -, -, -, hstart, hbody, hconclude⟩ := hc
  obtain ⟨houtcome, hfindings, hflat⟩ : c.outcome = .ok ⟨⟩ ∧ c.findings = {} ∧ _ :=
    Prog.Ends.post hbody (Prog.meets_of_wp (wp_body_flat (hs.aside (ends_setState hstart).2.1))).2
  have hresult : c.result = verdict (s.getReconState sampleConfig.bot) false c.runKey {} := by
    rw [Conduct.result, houtcome, hfindings, hack, hprevious]
    rfl
  refine ⟨hflat.aside (ends_conclude hconclude).2.1, ?_, ?_⟩
  · refine (congrArg Prod.fst hstored :).trans ?_
    simp [hresult, verdict, hhalted]
  · refine (congrArg (String.length ∘ Prod.snd) hstored :).trans ?_
    show c.result.reason.length = _
    rw [hresult, reason_of_awaits rfl rfl hhalted]
    rfl

/-- A run on the empty account is shown nothing. -/
theorem ends_run_empty {h' : History Label Ans} {s' : Ledger} {reason : String} {ack : Bool}
    {r : Except Exn ReconResult} (hs : Flat sampleConfig s)
    (hrun : Proc.Ends emptyAccount.answers (ReconciliationService.run sampleConfig reason ack) h s r
      h' s') :
    Proc.Ends (fun h q s a => a = emptyAccount h q ∧ emptyAnswers h q s a)
      (ReconciliationService.run sampleConfig reason ack) h s r h' s' := by
  obtain ⟨runKey, h₁, s₁, _, _, _, _, haside, -, -, -, -, hmeets⟩ := ends_run_try lenient_empty hrun
  exact Prog.Meets.ends (hmeets.2 (Prog.meets_of_wp (wp_body_flat (hs.aside haside))).1) hrun

/-- What such a run finds is manageable while the reason leaves room for its own. -/
theorem Flat.manageable (hs : Flat sampleConfig s)
    (hroom : (reconciliationReason sampleConfig s).length ≤ 1945) :
    Manageable sampleConfig ⟨0, 0, 0, 0⟩ "periodic" false s
      fun h q s a => a = emptyAccount h q ∧ emptyAnswers h q s a where
  bot := by decide
  reason := by decide
  halted _ _ := hroom
  budget := Nat.zero_le _
  orders := by simp [Ledger.nonTerminalOrders, hs.orders, Table.empty]
  named c hc := by simp [Ledger.getOrder, hs.orders, Table.empty] at hc
  answers _ _ _ _ := And.right

/-- Clean runs can follow each other, without any mismatch, until the reason has any length. -/
theorem clean_series (hs : Flat sampleConfig s)
    (hhalted : (s.getReconState sampleConfig.bot).status = .halted) (n : Nat) :
    ∃ h' s', Series emptyAccount.answers sampleConfig (fun _ _ _ _ => True) h s n h' s' ∧
      Flat sampleConfig s' ∧ (s'.getReconState sampleConfig.bot).status = .halted ∧
      (reconciliationReason sampleConfig s').length =
        (reconciliationReason sampleConfig s).length + 55 * n ∧
      ((reconciliationReason sampleConfig s').length ≤ 2000 →
        Series emptyAccount.answers sampleConfig (fun reason ack s A => ∃ b,
          Manageable sampleConfig b reason ack s A) h s n h' s') := by
  induction n with
  | zero => exact ⟨h, s, .nil, hs, hhalted, rfl, fun _ => .nil⟩
  | succ n ih =>
    obtain ⟨h₁, s₁, hseries, hs₁, hhalted₁, hlen, hmanageable⟩ := ih
    obtain ⟨r, h₂, s₂, hrun⟩ : ∃ r h₂ s₂, Proc.Ends emptyAccount.answers
        (ReconciliationService.run sampleConfig "periodic" false) h₁ s₁ r h₂ s₂ :=
      ⟨_, _, _, Proc.ends_run emptyAccount _ h₁ s₁⟩
    obtain ⟨c, -, hack, hc⟩ := ends_run_conducted hrun
    obtain ⟨hs₂, hhalted₂, hlen₂⟩ := hc.clean hs₁ hhalted₁ hack
    refine ⟨h₂, s₂, .run hseries (fun _ _ _ _ => id) hrun trivial, hs₂, hhalted₂, ?_, fun hle => ?_⟩
    · rw [hlen₂, hlen]
      ring
    · exact .run (hmanageable (by omega)) (fun _ _ _ _ => And.left) (ends_run_empty hs₁ hrun)
        ⟨_, hs₁.manageable (by omega)⟩

/-- A ledger whose bot was halted by an anomaly of its position. -/
def haltedBot : Ledger where
  reconState := fun _ => some
    { bot := "default", status := .halted, reason := MismatchKind.positionAnomaly.value }

theorem haltedBot_flat : Flat sampleConfig haltedBot := ⟨rfl, rfl, rfl⟩

theorem haltedBot_status : (haltedBot.getReconState sampleConfig.bot).status = .halted := rfl

/-- Thirty-six clean runs that nobody acknowledges are mirrored. -/
theorem runs_mirrored_while_short : ∃ h s, Series emptyAccount.answers sampleConfig
    (fun reason ack s A => ∃ b, Manageable sampleConfig b reason ack s A) [] haltedBot 36 h s ∧
      Mirrored sampleConfig [] haltedBot h s := by
  obtain ⟨h, s, -, -, -, hlen, hmanageable⟩ :=
    @clean_series [] _ haltedBot_flat haltedBot_status 36
  have hseries := hmanageable (by rw [hlen]; decide)
  exact ⟨h, s, hseries, runs_mirrored hseries⟩

/-- The reason outgrows the limit in 37 clean runs that nobody acknowledges. -/
theorem reason_outgrows : ∃ h s, Series emptyAccount.answers sampleConfig (fun _ _ _ _ => True) []
    haltedBot 37 h s ∧ ¬ Mirrored sampleConfig [] haltedBot h s := by
  obtain ⟨h, s, hseries, -, -, hlen, -⟩ := @clean_series [] _ haltedBot_flat haltedBot_status 37
  refine ⟨h, s, hseries, fun hm => ?_⟩
  obtain ⟨new, -, hnew, hrow⟩ := hm.heartbeats
  have hstart : (reconciliationReason sampleConfig haltedBot).length = 16 := rfl
  cases new with
  | nil =>
    rw [hrow] at hlen
    change (reconciliationReason sampleConfig haltedBot).length = _ at hlen
    omega
  | cons reason new =>
    have hshort : reason.length ≤ 2000 := hnew reason (.head _)
    rw [hrow] at hlen
    change reason.length = _ at hlen
    omega

end CryptoBot
