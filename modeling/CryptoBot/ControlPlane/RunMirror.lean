import CryptoBot.ControlPlane.Mirror
import Mathlib.Data.List.Induction

/-!
# The mirror of reconciliation runs

`RecordReconciliationRun`: a run is created once, by its key, and the bot shows it when it is created.
Nothing compares a run with the one that is shown, so the bot shows the run that was new last.
-/

namespace CryptoBot

open Lib

/-- `ReconciliationRequest`, the message of a run. -/
structure ReconciliationRequest where
  run : ReconRun
  detail : Option String
  finishedAt : Time
deriving DecidableEq

/-- The message of the outbox as the endpoint gets it. -/
def OutboxMessage.reconciliationRequest : OutboxMessage → Option ReconciliationRequest
  | .reconciliation run detail finishedAt => some { run, detail := some detail, finishedAt }
  | _ => none

/-- A row of `reconciliation_runs`, with its mismatches. -/
structure RunRow where
  runKey : RunKey
  bot : String
  reason : String
  status : ReconciliationStatus
  detail : Option String
  startedAt : Time
  finishedAt : Time
  mismatches : List Mismatch
deriving DecidableEq

/-- `run_key` is unique. -/
def RunRow.Compatible (a b : RunRow) : Prop := a.runKey ≠ b.runKey

instance : DecidableRel RunRow.Compatible := fun _ _ => by
  unfold RunRow.Compatible; infer_instance

/-- What the dashboard shows of the reconciliation of a bot. -/
structure Shown where
  reconciliationState : ReconciliationStatus
  reconciliationReason : Option String
  openMismatches : Nat
deriving DecidableEq

/-- The columns of `bot_instances` that a run writes. -/
structure BotColumns where
  shown : Shown
  lastReconciledAt : Option Time
deriving DecidableEq

structure RunMirror where
  runs : Table RunRow.Compatible := .empty
  bots : String → BotColumns

namespace RunMirror

variable {bot : String} {m : RunMirror} {l : List ReconciliationRequest} {d : ReconciliationRequest}

/-! ## The action -/

def runRow (bot : String) (d : ReconciliationRequest) : RunRow where
  runKey := d.run.runKey
  bot := bot
  reason := d.run.reason
  status := d.run.status
  detail := d.detail
  startedAt := wholeSeconds d.run.startedAt
  finishedAt := wholeSeconds d.finishedAt
  mismatches := d.run.mismatches

/-- What a run shows. -/
def shown (d : ReconciliationRequest) : Shown where
  reconciliationState := d.run.status
  reconciliationReason := d.detail
  openMismatches := (d.run.mismatches.filter Mismatch.isCritical).length

/-- `RecordReconciliationRun`: a run that is there is left alone, and so is the bot. -/
def recordReconciliationRun (bot : String) (d : ReconciliationRequest) (m : RunMirror) : RunMirror :=
  match m.runs.insert? (runRow bot d) with
  | some runs =>
    { runs
      bots := Function.update m.bots bot
        { shown := shown d
          lastReconciledAt := if d.run.status = .healthy then some (wholeSeconds d.finishedAt)
            else (m.bots bot).lastReconciledAt } }
  | none => m

def deliverAll (bot : String) (l : List ReconciliationRequest) (m : RunMirror) : RunMirror :=
  l.foldl (fun m d => recordReconciliationRun bot d m) m

/-! ## First deliveries -/

/-- The runs of a list of deliveries, in the order of their first deliveries. -/
def firsts (l : List ReconciliationRequest) : List ReconciliationRequest :=
  l.foldl (fun runs d => if runs.any (·.run.runKey = d.run.runKey) then runs else runs ++ [d]) []

theorem firsts_concat : firsts (l ++ [d]) =
    if (firsts l).any (·.run.runKey = d.run.runKey) then firsts l else firsts l ++ [d] :=
  List.foldl_concat ..

theorem firsts_eq_nil : firsts l = [] ↔ l = [] := by
  induction l using List.reverseRecOn with
  | nil => exact iff_of_true rfl rfl
  | append_singleton l d ih =>
    refine iff_of_false (fun h => ?_) (by simp)
    rw [firsts_concat] at h
    split at h
    · next hany =>
      rw [h] at hany
      cases hany
    · simp at h

/-- A run is new exactly when its key is not there yet. -/
theorem insert?_runRow : (m.runs.insert? (runRow bot d)).isSome ↔
    ∀ r ∈ m.runs.rows, r.runKey ≠ d.run.runKey := Table.insert?_isSome

/-- After a list of deliveries of new runs the runs are there, by their first deliveries, and the bot
shows the last of these. -/
theorem deliverAll_firsts (hnew : ∀ d ∈ l, ∀ r ∈ m.runs.rows, r.runKey ≠ d.run.runKey) :
    (deliverAll bot l m).runs.rows = m.runs.rows ++ (firsts l).map (runRow bot) ∧
      ((deliverAll bot l m).bots bot).shown =
        ((firsts l).getLast?.map shown).getD (m.bots bot).shown := by
  induction l using List.reverseRecOn with
  | nil => exact ⟨(List.append_nil _).symm, rfl⟩
  | append_singleton l d ih =>
    obtain ⟨hruns, hshown⟩ := ih fun d hd => hnew d (List.mem_append_left _ hd)
    have hstep : deliverAll bot (l ++ [d]) m = recordReconciliationRun bot d (deliverAll bot l m) :=
      List.foldl_concat ..
    have hiff : (firsts l).any (·.run.runKey = d.run.runKey) = true ↔
        ¬ ∀ r ∈ (deliverAll bot l m).runs.rows, r.runKey ≠ d.run.runKey := by
      rw [hruns]
      simp only [List.any_eq_true, decide_eq_true_eq, List.forall_mem_append, List.forall_mem_map,
        not_and, not_forall, not_not, exists_prop]
      constructor
      · rintro ⟨d', hd', hkey⟩ -
        exact ⟨d', hd', hkey⟩
      · exact fun h => h (hnew d (List.mem_append_right _ (.head _)))
    rw [hstep, firsts_concat, recordReconciliationRun]
    cases hins : (deliverAll bot l m).runs.insert? (runRow bot d) with
    | none =>
      have hany : (firsts l).any (·.run.runKey = d.run.runKey) = true := by
        rw [hiff, ← @insert?_runRow bot, hins]
        simp
      rw [if_pos hany]
      exact ⟨hruns, hshown⟩
    | some runs =>
      have hany : ¬ (firsts l).any (·.run.runKey = d.run.runKey) = true := by
        rw [hiff, ← @insert?_runRow bot, hins]
        simp
      rw [if_neg hany, List.map_append, ← List.append_assoc, ← hruns, List.getLast?_concat]
      refine ⟨Table.insert?_eq_some.1 hins, ?_⟩
      show (Function.update (deliverAll bot l m).bots bot _ bot).shown = _
      rw [Function.update_self]
      rfl

/-- A repeated delivery changes nothing. -/
theorem recordReconciliationRun_again {d' : ReconciliationRequest}
    (h : d'.run.runKey = d.run.runKey) :
    recordReconciliationRun bot d' (recordReconciliationRun bot d m) =
      recordReconciliationRun bot d m := by
  have hthere : ∃ r ∈ (recordReconciliationRun bot d m).runs.rows, r.runKey = d'.run.runKey := by
    unfold recordReconciliationRun
    cases hins : m.runs.insert? (runRow bot d) with
    | none =>
      have hno : ¬ (m.runs.insert? (runRow bot d)).isSome := by rw [hins]; simp
      rw [insert?_runRow] at hno
      simpa [h] using hno
    | some runs =>
      refine ⟨runRow bot d, ?_, h.symm⟩
      rw [Table.insert?_eq_some.1 hins]
      exact List.mem_append_right _ (.head _)
  obtain ⟨r, hr, hkey⟩ := hthere
  generalize recordReconciliationRun bot d m = m' at hr ⊢
  unfold recordReconciliationRun
  cases hins : m'.runs.insert? (runRow bot d') with
  | none => rfl
  | some runs => exact absurd hkey (insert?_runRow.1 (by rw [hins]; rfl) r hr)

/-! ## The newest run -/

/-- A run that ended as late as any other. -/
def Newest (l : List ReconciliationRequest) (newest : ReconciliationRequest) : Prop :=
  newest ∈ l ∧ ∀ d ∈ l, d.finishedAt ≤ newest.finishedAt

/-- Once all of them are delivered, the bot shows the newest run exactly when it shows the same as the
run whose first delivery came last. -/
theorem shows_newest_iff {newest : ReconciliationRequest} (hnewest : Newest l newest)
    (hnew : ∀ d ∈ l, ∀ r ∈ m.runs.rows, r.runKey ≠ d.run.runKey) :
    ((deliverAll bot l m).bots bot).shown = shown newest ↔
      ∀ last ∈ (firsts l).getLast?, shown last = shown newest := by
  have hne : firsts l ≠ [] := mt firsts_eq_nil.1 (List.ne_nil_of_mem hnewest.1)
  rw [(deliverAll_firsts hnew).2, List.getLast?_eq_getLast_of_ne_nil hne, Option.map_some,
    Option.getD_some]
  constructor
  · rintro h last ⟨⟩
    exact h
  · exact fun h => h _ rfl

/-- A run that halted with one critical mismatch, or one that was healthy. -/
def sampleRun (nonce : String) (mismatches : List Mismatch) (status : ReconciliationStatus)
    (detail : String) (finishedAt : Time) : ReconciliationRequest where
  run := ⟨⟨"default", finishedAt, nonce⟩, "default", "periodic", status, finishedAt, mismatches⟩
  detail := some detail
  finishedAt := finishedAt

def haltedRun : ReconciliationRequest :=
  sampleRun "b" [⟨.foreignFill, .critical, none, .empty, false⟩] .halted "FOREIGN_FILL" (seconds 300)

def healthyRun : ReconciliationRequest := sampleRun "a" [] .healthy "reconciled" (seconds 0)

def connecting : RunMirror where
  bots _ := ⟨⟨.connecting, none, 0⟩, none⟩

/-- The older run is delivered after the newer one, and the bot shows it. -/
theorem older_run_shown :
    Newest [haltedRun, healthyRun] haltedRun ∧
    ((deliverAll "default" [haltedRun, healthyRun] connecting).bots "default").shown =
      ⟨.healthy, some "reconciled", 0⟩ ∧
    shown haltedRun = ⟨.halted, some "FOREIGN_FILL", 1⟩ := by
  refine ⟨⟨.head _, ?_⟩, ?_, ?_⟩ <;> decide +kernel

theorem newest_run_shown :
    ((deliverAll "default" [healthyRun, haltedRun, healthyRun] connecting).bots "default").shown =
      shown haltedRun :=
  (shows_newest_iff ⟨.tail _ (.head _), by decide⟩ fun _ _ _ hr => (by cases hr)).2 (by decide)

end RunMirror

end CryptoBot
