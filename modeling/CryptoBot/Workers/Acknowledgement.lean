import CryptoBot.Workers.StateRow
import CryptoBot.Lib.Ownership
import CryptoBot.Application.Moves

/-!
# One run for each acknowledgement

An operator's token lets one reconciliation run clear a halt: in PAPER the run of the trading
cycle's gate, otherwise a run of the worker's control poll. The token is recorded only after that
run, in the row that every other update of the reconciliation state writes back whole, and the
worker's loop keeps a copy in memory. So no token starts a second run as long as the process that
polls is not killed between the start of an acknowledged run and the record of its token, and no
other thread writes back a row it read before that record.
-/

namespace CryptoBot

open Lib

namespace Acknowledgement

/-! ## Tokens -/

/-- The token of the last control state a process was answered with. -/
def offered : History Label Ans → Option String
  | [] => none
  | .call (.call .getControl) (.ok control) :: _ => control.reconciliationAckToken
  | _ :: h => offered h

/-- The token of the last acknowledged run a process has started. -/
def lastUsed : History Label Ans → Option (Option String)
  | [] => none
  | .step (.runStart true _ _) :: h => some (offered h)
  | _ :: h => lastUsed h

/-- Whether a process has started an acknowledged run and not yet recorded its token. -/
def unrecorded : History Label Ans → Bool
  | [] => false
  | .step (.runStart true _ _) :: _ => true
  | .step .flagWrite :: _ => false
  | _ :: h => unrecorded h

/-- The tokens of the acknowledged runs of a trace, newest first. -/
def usedTokens {τ : Type} [DecidableEq τ] : List (Act τ Label Ans) → List (Option String)
  | [] => []
  | .event i (.step (.runStart true _ _)) :: tr => offered (Pool.since i tr) :: usedTokens tr
  | _ :: tr => usedTokens tr

/-- The recorded token. -/
def token (cfg : Config) (s : Ledger) : Option String := (s.getReconState cfg.bot).lastAckToken

/-- The start of an acknowledged run. -/
def acknowledges : Label → Bool
  | .runStart ack _ _ => ack
  | _ => false

/-- The write that records a token. -/
def records : Label → Bool
  | .flagWrite => true
  | _ => false

/-- Everybody who writes the row writes the token with it; it is for one process to poll the control
state, to start acknowledged runs and to record their tokens. -/
def ownership (cfg : Config) : Ownership Ledger Label (Option String) where
  value := token cfg
  writes := Label.writesRow
  renews := records
  owners := acknowledges

/-! ## The programs -/

/-- What the processes run. No program but the gate and the control poll acknowledges anything. -/
inductive ControlProgram (cfg : Config) : Prog Ledger Label Ans PUnit → Prop
  | runOnce : ControlProgram cfg (TradingCycle.runOnce cfg).run.forget
  | periodic (reconcileInterval n : Nat) :
      ControlProgram cfg (ReconciliationWorker.periodic cfg reconcileInterval n).run.forget
  | reconcile (reason : String) :
      ControlProgram cfg (ReconciliationWorker.reconcile cfg reason false).run.forget
  | touch : ControlProgram cfg (ReconciliationService.touch cfg).run.forget
  | onState (state : ReconciliationWorker.StreamState) (detail : String) :
      ControlProgram cfg (ReconciliationWorker.onState cfg state detail).run.forget
  | onEvent (ev : StreamEvent) : ControlProgram cfg (ReconciliationWorker.onEvent cfg ev).run.forget
  | start : ControlProgram cfg (ReconciliationWorker.start cfg).run.forget

/-- The token the control plane answers with. -/
def offer {τ : Type} : Act τ Label Ans → Option String
  | .event _ (.call (.call .getControl) (.ok control)) => control.reconciliationAckToken
  | _ => none

/-- The terms under which process `c` polls: nobody else starts an acknowledged run or writes back a
row it read before the last record, `c` is not started again before it has recorded the token of a
run it started, and the control plane does not offer a token again after another. -/
structure Orderly {τ : Type} [DecidableEq τ] (cfg : Config) (c : τ)
    (P : Pool τ Ledger Label Ans) (act : Act τ Label Ans) : Prop where
  copied : (ownership cfg).Met c P act
  recorded : act = .start c → unrecorded (P.hist c) = false
  latest : ∀ a ∈ offer act, some a ∈ usedTokens P.trace →
    (usedTokens P.trace).head? = some (some a)

instance {τ : Type} [DecidableEq τ] (cfg : Config) (c : τ) (P : Pool τ Ledger Label Ans) :
    ∀ act, Decidable (Orderly cfg c P act)
  | .start i => decidable_of_iff (i = c → unrecorded (P.hist c) = false)
      ⟨fun h => ⟨fun _ _ h => (by cases h), by rintro ⟨⟩; exact h rfl, fun _ h => (by cases h)⟩,
        fun h hi => h.recorded (by rw [hi])⟩
  | .event i e => decidable_of_iff ((ownership cfg).Met c P (.event i e) ∧
      ∀ a ∈ offer (.event i e), some a ∈ usedTokens P.trace →
        (usedTokens P.trace).head? = some (some a))
      ⟨fun h => ⟨h.1, fun h => (by cases h), h.2⟩, fun h => ⟨h.copied, h.latest⟩⟩

/-! ## The process that polls -/

/-- The contract of the process that polls. It relies on the recorded token; a record writes the
token of the run it follows, and an acknowledged run starts under a token that is neither that of
its last one nor, before any, the recorded one. -/
def contract (cfg : Config) : Contract Ledger Label Ans where
  rely _ s s' := token cfg s' = token cfg s
  ans _ _ _ _ := True
  step h l s s' :=
    token cfg s' = (if records l then (lastUsed h).getD (token cfg s) else token cfg s) ∧
    (acknowledges l → ∃ a, offered h = some a ∧ (lastUsed h).getD (token cfg s) ≠ some a)
  guard _ _ _ := True

/-- The last token used, and the recorded one. -/
def Memory (cfg : Config) (x : Option (Option String)) (m : Option String)
    (h : History Label Ans) (s : Ledger) : Prop := lastUsed h = x ∧ token cfg s = m

variable {cfg : Config} {x : Option (Option String)} {m : Option String}

theorem lastUsed_step {l : Label} {h : History Label Ans} (hl : acknowledges l = false) :
    lastUsed (.step l :: h) = lastUsed h := by
  cases l with
  | runStart ack previous reason =>
    obtain rfl : ack = false := hl
    rfl
  | _ => rfl

/-- A step that neither records a token nor starts an acknowledged run. -/
theorem keep_step {l : Label} {h : History Label Ans} {s s' : Ledger} (hI : Memory cfg x m h s)
    (hrecords : records l = false) (hl : acknowledges l = false)
    (htoken : token cfg s' = token cfg s) :
    (contract cfg).step h l s s' ∧ Memory cfg x m (.step l :: h) s' := by
  refine ⟨⟨?_, fun he => by rw [hl] at he; cases he⟩, (lastUsed_step hl).trans hI.1,
    htoken.trans hI.2⟩
  rw [htoken, hrecords]
  rfl

theorem quiet_step {l : Label} {h : History Label Ans} {s s' : Ledger}
    (hI : Memory cfg x m h s) (hq : Quiet cfg l s s') :
    (contract cfg).step h l s s' ∧ Memory cfg x m (.step l :: h) s' := by
  have htoken : token cfg s' = token cfg s := by
    rw [token, token, Ledger.getReconState_congr hq.reconState]
  obtain ⟨hl, -⟩ := hq
  refine keep_step hI ?_ ?_ htoken
  · cases l <;> first | rfl | cases hl
  · cases l <;> first | rfl | cases hl

theorem admits : Admits cfg (contract cfg) (Memory cfg x m) where
  rely hI hr := ⟨hI.1, hr.trans hI.2⟩
  step _ hI hx := quiet_step hI hx.quiet
  call _ hI := ⟨trivial, fun _ _ => hI⟩

theorem quiet_keeps {α : Type} {p : Engine α} (hp : p.Within (Quiet cfg)) :
    p.Keeps (contract cfg) (Memory cfg x m) :=
  Proc.keeps_of_within hp admits.rely (fun _ hI hq => quiet_step hI hq) admits.call

section
open ReconciliationService ReconciliationWorker

/-- What a write of the row does to the token it has read. -/
theorem token_saved {st st' : ReconciliationState} {now : Time} {s s' : Ledger}
    (hbot : st.bot = cfg.bot) (h : Store.saveReconState st now s = .ok (st', s')) :
    token cfg s' = st.lastAckToken := by
  rw [token, StateRow.saveReconState_ok hbot h]

/-- Between the read of the row and its write the token stays as it is, so what is written is what
the update makes of the recorded token. -/
theorem wp_writeBack {α : Type} {l₀ l : Label} {f : Time → ReconciliationState → ReconciliationState}
    {k : ReconciliationState → Engine α} {h : History Label Ans} {s : Ledger}
    {Φ : Except Exn α → History Label Ans → Ledger → Prop}
    (hl₀ : l₀ = .query ∨ l₀ = .rowRead) (hbot : ∀ now st, (f now st).bot = st.bot)
    (hI : Memory cfg x m h s)
    (hΦ : ∀ {h' s' s''} now st, Memory cfg x m h' s' → offered h' = offered h →
      st.lastAckToken = m → token cfg s'' = (f now st).lastAckToken →
      (contract cfg).step h' l s' s'' ∧ ∀ r, Proc.wp (contract cfg) (k r) Φ (.step l :: h') s'') :
    Proc.wp (contract cfg) (do
      let st ← query l₀ (·.getReconState cfg.bot)
      let now ← clockNow
      let r ← transaction l (Store.saveReconState (f now st) now)
      k r) Φ h s := by
  refine (Proc.wp_bind _ _ _ _ _).2 ((wp_query _ _).2 fun s₁ hs₁ => ?_)
  obtain ⟨hstep, hI₁⟩ : (contract cfg).step h l₀ s₁ s₁ ∧ Memory cfg x m (.step l₀ :: h) s₁ := by
    rcases hl₀ with rfl | rfl <;> exact keep_step (admits.rely hI hs₁) rfl rfl rfl
  have hoffered : offered (.step l₀ :: h) = offered h := rfl
  refine ⟨hstep, (Proc.wp_bind _ _ _ _ _).2 ((wp_clockNow _).2 fun s₂ hs₂ =>
    ⟨trivial, fun now _ => ?_⟩)⟩
  refine (Proc.wp_bind _ _ _ _ _).2 (wp_transaction fun s₃ hs₃ => ⟨fun st' s₄ htx => ?_, nofun⟩)
  have hI₃ : Memory cfg x m (.call (.ambient .now) now :: .step l₀ :: h) s₃ :=
    ⟨hI₁.1, (hs₃.trans hs₂).trans hI₁.2⟩
  obtain ⟨hstep', hk⟩ := hΦ now (s₁.getReconState cfg.bot) hI₃ hoffered hI₁.2
    (token_saved (by simp [hbot]) htx)
  exact ⟨hstep', hk st'⟩

/-- A `set_state` that starts no acknowledged run writes the token back. -/
theorem setState_keeps {l : Label} {status : ReconciliationStatus} {reason : String}
    {success : Bool} {ws : Option Bool} (hl : l.written = some (status, reason))
    (hack : acknowledges l = false) :
    (setState cfg l status reason success ws).Keeps (contract cfg) (Memory cfg x m) := by
  have hrecords : records l = false := by cases l <;> first | rfl | cases hl
  intro h s hI
  refine wp_writeBack (.inl rfl) (fun _ _ => rfl) hI fun now st hI' _ hst htoken => ?_
  obtain ⟨hstep, hI''⟩ := keep_step hI' hrecords hack (htoken.trans (hst.trans hI'.2.symm))
  exact ⟨hstep, fun _ => hI''⟩

/-- An update that leaves the token alone, and, where it is of a flag, before any acknowledged
run. -/
theorem updateRow_keeps {l : Label} {f : Time → ReconciliationState → ReconciliationState}
    (hl : l = .stampWrite ∨ l = .flagWrite ∧ x = none)
    (hbot : ∀ now st, (f now st).bot = st.bot)
    (hkeep : ∀ now st, (f now st).lastAckToken = st.lastAckToken) :
    (updateRow cfg l f).Keeps (contract cfg) (Memory cfg x m) := by
  intro h s hI
  refine wp_writeBack (.inr rfl) hbot hI fun now st hI' _ hst htoken => ?_
  have hsaved := htoken.trans ((hkeep now st).trans (hst.trans hI'.2.symm))
  rcases hl with rfl | ⟨rfl, rfl⟩
  · obtain ⟨hstep, hI''⟩ := keep_step (l := .stampWrite) hI' rfl rfl hsaved
    exact ⟨hstep, fun _ => hI''⟩
  · refine ⟨⟨?_, nofun⟩, fun _ => ⟨hI'.1, hsaved.trans hI'.2⟩⟩
    rw [hI'.1]
    exact hsaved

/-- The record of the token of the last acknowledged run. -/
theorem wp_record {α : Type} {a : Option String} {k : ReconciliationState → Engine α}
    {h : History Label Ans} {s : Ledger} {Φ : Except Exn α → History Label Ans → Ledger → Prop}
    (hI : Memory cfg (some a) m h s)
    (hΦ : ∀ r h' s', Memory cfg (some a) a h' s' → Proc.wp (contract cfg) (k r) Φ h' s') :
    Proc.wp (contract cfg) (do
      let st ← query .rowRead (·.getReconState cfg.bot)
      let now ← clockNow
      let r ← transaction .flagWrite (Store.saveReconState { st with lastAckToken := a } now)
      k r) Φ h s := by
  refine wp_writeBack (f := fun _ st => { st with lastAckToken := a }) (.inr rfl) (fun _ _ => rfl)
    hI fun now st hI' _ _ htoken => ⟨⟨?_, nofun⟩, fun r => hΦ r _ _ ⟨hI'.1, htoken⟩⟩
  rw [hI'.1]
  exact htoken

theorem touch_keeps : (touch cfg).Keeps (contract cfg) (Memory cfg x m) :=
  updateRow_keeps (f := fun _ st => st) (.inl rfl) (fun _ _ => rfl) fun _ _ => rfl

theorem conclude_keeps {previous : ReconciliationState} {ack : Bool} {runKey : RunKey}
    {reason : String} {started : Time} {outcome : Except Exn PUnit} {f : Findings} :
    (conclude cfg previous ack runKey reason started outcome f).Keeps (contract cfg)
      (Memory cfg x m) :=
  admits.conclude_keeps fun {l} {_} {_} {_} {_} hl hstart => setState_keeps hl <| by
    cases l <;> first | rfl | exact absurd rfl (hstart _ _ _)

theorem body_keeps {runKey : RunKey} {last : Option Time} :
    LProc.Keeps (contract cfg) (Memory cfg x m) (body cfg runKey last) :=
  admits.body_keeps (quiet_keeps rebuild_quiet)

theorem run_keeps {reason : String} :
    (ReconciliationService.run cfg reason false).Keeps (contract cfg) (Memory cfg x m) :=
  admits.ask_keeps.bind fun _ => (admits.query_keeps _).bind fun _ => admits.ask_keeps.bind fun _ =>
    (setState_keeps rfl rfl).bind fun _ => (body_keeps.outcome _).bind fun _ => conclude_keeps

/-- An acknowledged run starts under the token just offered, which is not the last one used. -/
theorem wp_acknowledged {reason : String} {a : String} {h : History Label Ans} {s : Ledger}
    (hI : Memory cfg x m h s) (hoffered : offered h = some a) (hfresh : x.getD m ≠ some a) :
    Proc.wp (contract cfg) (ReconciliationService.run cfg reason true)
      (fun _ => Memory cfg (some (some a)) m) h s := by
  refine (Proc.wp_bind _ _ _ _ _).2 ((wp_clockNow _).2 fun s₁ hs₁ => ⟨trivial, fun started _ => ?_⟩)
  refine (Proc.wp_bind _ _ _ _ _).2 ((wp_query _ _).2 fun s₂ hs₂ => ?_)
  obtain ⟨hstep, hI₂⟩ := keep_step (l := .query) (h := .call (.ambient .now) started :: h)
    ⟨hI.1, (hs₂.trans hs₁).trans hI.2⟩ rfl rfl rfl
  refine ⟨hstep, (Proc.wp_bind _ _ _ _ _).2 ((wp_freshNonce _).2 fun s₃ hs₃ =>
    ⟨trivial, fun nonce _ => ?_⟩)⟩
  refine (Proc.wp_bind _ _ _ _ _).2 (wp_writeBack (.inl rfl) (fun _ _ => rfl) (x := x) (m := m)
    ⟨hI₂.1, hs₃.trans hI₂.2⟩ fun {h'} {s'} {s''} now st hI' hoffered' hst htoken => ?_)
  have hstarted : offered h' = some a := hoffered'.trans hoffered
  have hsaved : token cfg s'' = token cfg s' := htoken.trans (hst.trans hI'.2.symm)
  refine ⟨⟨hsaved, fun _ => ⟨a, hstarted, ?_⟩⟩, fun _ => ?_⟩
  · rw [hI'.1, hI'.2]
    exact hfresh
  · refine ((body_keeps.outcome _).bind fun _ => conclude_keeps) _ _ ⟨?_, hsaved.trans hI'.2⟩
    exact congrArg some hstarted

theorem reconcile_keeps {reason : String} :
    (reconcile cfg reason false).Keeps (contract cfg) (Memory cfg x m) :=
  run_keeps.bind fun _ => admits.ask_keeps.bind fun _ =>
    .ite ((setState_keeps rfl rfl).bind fun _ => Proc.keeps_pure _) (Proc.keeps_pure _)

theorem onState_keeps {state : StreamState} {detail : String} :
    (onState cfg state detail).Keeps (contract cfg) (Memory cfg none m) := by
  cases state with
  | connecting =>
    exact (admits.query_keeps _).bind fun _ => .ite (setState_keeps rfl rfl) (Proc.keeps_pure _)
  | disconnected =>
    exact (admits.query_keeps _).bind fun _ =>
      .ite (setState_keeps rfl rfl) (setState_keeps rfl rfl)
  | subscribed =>
    exact (updateRow_keeps (.inr ⟨rfl, rfl⟩) (by intros; rfl) (by intros; rfl)).bind fun _ =>
      reconcile_keeps.bind fun _ => Proc.keeps_pure _

theorem onEvent_keeps {ev : StreamEvent} :
    (onEvent cfg ev).Keeps (contract cfg) (Memory cfg x m) :=
  (admits.keeps handle_exchange).bind fun _ =>
    (updateRow_keeps (.inl rfl) (by intros; rfl) (by intros; rfl)).bind fun _ => Proc.keeps_pure _

theorem start_keeps : (start cfg).Keeps (contract cfg) (Memory cfg x m) :=
  (admits.query_keeps _).bind fun _ => .ite (setState_keeps rfl rfl) (Proc.keeps_pure _)

/-! ## The two gates -/

/-- The process remembers `last`: the token of the last run it has acknowledged, or the recorded
one. -/
def Remembers (cfg : Config) (last : Option String) (h : History Label Ans) (s : Ledger) : Prop :=
  ∃ x m, Memory cfg x m h s ∧ last = x.getD m

theorem wp_acknowledge {a : String} {h : History Label Ans} {s : Ledger}
    (hI : Memory cfg x m h s) (hoffered : offered h = some a) (hfresh : x.getD m ≠ some a) :
    Proc.wp (contract cfg) (acknowledge cfg (some a)) (fun _ => Remembers cfg (some a)) h s := by
  refine (Proc.wp_bind _ _ _ _ _).2 ((Proc.wp_bind _ _ _ _ _).2 (Proc.wp_mono
    (wp_acknowledged hI hoffered hfresh) ?_))
  rintro (e | res) h₁ s₁ hI₁
  · exact ⟨_, _, hI₁, rfl⟩
  refine Proc.wp_mono ((admits.ask_keeps.bind fun connected => Proc.Keeps.ite
    ((setState_keeps rfl rfl).bind fun _ => Proc.keeps_pure _) (Proc.keeps_pure _)) h₁ s₁ hI₁) ?_
  rintro (e | res) h₂ s₂ hI₂
  · exact ⟨_, _, hI₂, rfl⟩
  · exact wp_record hI₂ fun _ h₃ s₃ hI₃ => ⟨_, _, hI₃, rfl⟩

/-- The control poll acknowledges with a token other than the one it remembers, and remembers it. -/
theorem wp_pollControl {last : Option String} {h : History Label Ans} {s : Ledger}
    (hlast : Remembers cfg last h s) :
    Proc.wp (contract cfg) (pollControl cfg last)
      (fun r h s => ∀ last', r = .ok last' → Remembers cfg last' h s) h s := by
  obtain ⟨x, m, hI, rfl⟩ := hlast
  refine (Proc.wp_bind _ _ _ _ _).2 ((Proc.wp_attempt _ _ _ _).2 fun s₁ hs₁ =>
    ⟨trivial, fun ans _ => ?_⟩)
  have hI₁ : Memory cfg x m (.call (.call .getControl) ans :: h) s₁ := admits.rely hI hs₁
  cases ans with
  | error e =>
    rintro _ ⟨⟩
    exact ⟨x, m, hI₁, rfl⟩
  | ok control =>
    refine (Proc.wp_ite _ _ _ _ _ _).2 ?_
    split
    · next hack =>
      cases htoken : control.reconciliationAckToken with
      | none =>
        rw [htoken] at hack
        cases hack.1
      | some a =>
        rw [htoken] at hack
        refine (Proc.wp_bind _ _ _ _ _).2 ((Proc.wp_attempt _ _ _ _).2 (Proc.wp_mono
          (wp_acknowledge hI₁ htoken (Ne.symm hack.2)) ?_))
        rintro r h₂ s₂ hlast _ ⟨⟩
        exact hlast
    · rintro _ ⟨⟩
      exact ⟨x, m, hI₁, rfl⟩

/-- A program that keeps every memory keeps what is remembered. -/
theorem wp_remembering {α : Type} {p : Engine α} {last : Option String} {h : History Label Ans}
    {s : Ledger} (hp : ∀ {x m}, p.Keeps (contract cfg) (Memory cfg x m))
    (hlast : Remembers cfg last h s) :
    Proc.wp (contract cfg) p (fun _ => Remembers cfg last) h s := by
  obtain ⟨x, m, hI, rfl⟩ := hlast
  exact Proc.wp_mono (hp h s hI) fun _ h' s' hI' => ⟨x, m, hI', rfl⟩

/-- What the loop remembers is up to date after every turn. -/
theorem wp_turn {interval elapsed : Nat} {last : Option String} {h : History Label Ans} {s : Ledger}
    (hlast : Remembers cfg last h s) :
    Proc.wp (contract cfg) (turn cfg interval elapsed last)
      (fun r h s => ∀ last', r = .ok last' → Remembers cfg last' h s) h s := by
  have hpoll {h s} (hlast : Remembers cfg last h s) : Proc.wp (contract cfg)
      (pollDue cfg elapsed last)
      (fun r h s => ∀ last', r = .ok last' → Remembers cfg last' h s) h s := by
    refine (Proc.wp_ite _ _ _ _ _ _).2 ?_
    split
    · exact wp_pollControl hlast
    · rintro _ ⟨⟩
      exact hlast
  have hrun {x m} : (runDue cfg interval elapsed).Keeps (contract cfg) (Memory cfg x m) :=
    admits.ask_keeps.bind fun _ =>
      .ite (reconcile_keeps.bind fun _ => Proc.keeps_pure _) (Proc.keeps_pure _)
  refine (Proc.wp_bind _ _ _ _ _).2 (Proc.wp_mono (wp_remembering touch_keeps hlast) ?_)
  rintro (e | _) h₁ s₁ hlast₁
  · exact nofun
  refine (Proc.wp_bind _ _ _ _ _).2 (Proc.wp_mono (hpoll hlast₁) ?_)
  rintro (e | last₂) h₂ s₂ hlast₂
  · exact nofun
  refine (Proc.wp_bind _ _ _ _ _).2 (Proc.wp_mono (wp_remembering hrun (hlast₂ _ rfl)) ?_)
  rintro (e | _) h₃ s₃ hlast₃
  · exact nofun
  · rintro _ ⟨⟩
    exact hlast₃

theorem wp_turns {interval n : Nat} : ∀ {elapsed : Nat} {last : Option String}
    {h : History Label Ans} {s : Ledger}, Remembers cfg last h s →
    Proc.wp (contract cfg) (turns cfg interval n elapsed last) (fun _ _ _ => True) h s := by
  induction n with
  | zero => exact fun _ => trivial
  | succ n ih =>
    intro elapsed last h s hlast
    refine (Proc.wp_bind _ _ _ _ _).2 (Proc.wp_mono (wp_turn hlast) ?_)
    rintro (e | last') h₁ s₁ hlast₁
    · trivial
    · exact ih (hlast₁ _ rfl)

/-- The loop starts from the recorded token. -/
theorem wp_periodic {interval n : Nat} {s : Ledger} :
    Proc.wp (contract cfg) (periodic cfg interval n) (fun _ _ _ => True) [] s := by
  refine (Proc.wp_bind _ _ _ _ _).2 ((wp_query _ _).2 fun s₁ hs₁ => ?_)
  have hstart : Memory cfg none (token cfg s₁) [] s₁ := ⟨rfl, rfl⟩
  obtain ⟨hstep, hI⟩ := keep_step (l := .query) hstart rfl rfl rfl
  exact ⟨hstep, wp_turns ⟨none, token cfg s₁, hI, rfl⟩⟩

/-- The gate of a PAPER cycle acknowledges with a token other than the recorded one. -/
theorem wp_gate {control : Control} {h : History Label Ans} {s : Ledger}
    (hI : Memory cfg none m h s) (hoffered : offered h = control.reconciliationAckToken) :
    Proc.wp (contract cfg) (TradingCycle.reconciliationGate cfg control)
      (fun _ h s => ∃ last, Remembers cfg last h s) h s := by
  have hread {x m h s} (hI : Memory cfg x m h s) : Proc.wp (contract cfg)
      (query .query (·.getReconState cfg.bot))
      (fun _ h s => ∃ last, Remembers cfg last h s) h s :=
    Proc.wp_mono (admits.query_keeps _ h s hI) fun _ _ _ hI' => ⟨_, _, _, hI', rfl⟩
  refine (Proc.wp_bind _ _ _ _ _).2 ((wp_query _ _).2 fun s₁ hs₁ => ?_)
  obtain ⟨hstep, hI₁⟩ := keep_step (l := .query) (admits.rely hI hs₁) rfl rfl rfl
  refine ⟨hstep, (Proc.wp_ite _ _ _ _ _ _).2 ?_⟩
  split
  · cases hack : truthy control.reconciliationAckToken &&
      decide (control.reconciliationAckToken ≠ (s₁.getReconState cfg.bot).lastAckToken) with
    | false =>
      refine (Proc.wp_bind _ _ _ _ _).2 (Proc.wp_mono (run_keeps _ _ hI₁) ?_)
      rintro (e | res) h₂ s₂ hI₂
      · exact ⟨_, _, _, hI₂, rfl⟩
      · exact hread hI₂
    | true =>
      obtain ⟨ht, hne⟩ := Bool.and_eq_true_iff.1 hack
      cases htoken : control.reconciliationAckToken with
      | none =>
        rw [htoken] at ht
        cases ht
      | some a =>
        have hfresh : (none : Option (Option String)).getD m ≠ some a := fun he =>
          of_decide_eq_true hne (htoken.trans (he.symm.trans hI₁.2.symm))
        refine (Proc.wp_bind _ _ _ _ _).2 (Proc.wp_mono
          (wp_acknowledged hI₁ (hoffered.trans htoken) hfresh) ?_)
        rintro (e | res) h₂ s₂ hI₂
        · exact ⟨_, _, _, hI₂, rfl⟩
        · exact wp_record hI₂ fun _ h₃ s₃ hI₃ => hread hI₃
  · exact ⟨_, _, _, hI₁, rfl⟩

theorem wp_cycle {s : Ledger} :
    Proc.wp (contract cfg) (TradingCycle.runOnce cfg) (fun _ _ _ => True) [] s := by
  refine (Proc.wp_bind _ _ _ _ _).2 ((wp_clockNow _).2 fun s₁ hs₁ => ⟨trivial, fun now _ => ?_⟩)
  refine (Proc.wp_bind _ _ _ _ _).2 ((Proc.wp_attempt _ _ _ _).2 fun s₂ hs₂ =>
    ⟨trivial, fun ans _ => ?_⟩)
  have hquiet {α : Type} {p : Engine α} (hp : p.Within (Quiet cfg)) {last h s}
      (hlast : Remembers cfg last h s) : Proc.wp (contract cfg) p (fun _ _ _ => True) h s :=
    Proc.wp_mono (wp_remembering (fun {_ _} => quiet_keeps hp) hlast) fun _ _ _ _ => trivial
  have hI : Memory cfg none (token cfg s₂) (.call (.call .getControl) ans ::
    .call (.ambient .now) now :: []) s₂ := ⟨rfl, rfl⟩
  cases ans with
  | error e =>
    exact hquiet ((enqueue_quiet rfl).bind fun _ => Proc.within_pure _) ⟨_, _, hI, rfl⟩
  | ok control =>
    refine (Proc.wp_bind _ _ _ _ _).2 ((Proc.wp_attempt _ _ _ _).2 fun s₃ hs₃ =>
      ⟨trivial, fun valid _ => ?_⟩)
    cases valid with
    | error e => trivial
    | ok _ =>
      refine (Proc.wp_bind _ _ _ _ _).2 (Proc.wp_mono (wp_gate ⟨rfl, hs₃⟩ rfl) ?_)
      rintro (e | st) h₄ s₄ ⟨last, hlast⟩
      · trivial
      · exact hquiet ((clockNow_within).bind fun _ => (clockNow_within).bind fun _ =>
          .ite (Proc.within_pure _) (trade_quiet.bind fun _ => Proc.within_pure _)) hlast

end

/-- Every program keeps the contract. -/
theorem ControlProgram.safe {p : Prog Ledger Label Ans PUnit} (hp : ControlProgram cfg p)
    (s : Ledger) : p.wp (contract cfg) (fun _ _ _ => True) [] s := by
  have hstart : Memory cfg none (token cfg s) [] s := ⟨rfl, rfl⟩
  cases hp with
  | runOnce => exact Prog.wp_forget wp_cycle
  | periodic => exact Prog.wp_forget wp_periodic
  | reconcile => exact Prog.wp_forget (reconcile_keeps [] s hstart)
  | touch => exact Prog.wp_forget (touch_keeps [] s hstart)
  | onState => exact Prog.wp_forget (onState_keeps [] s hstart)
  | onEvent => exact Prog.wp_forget (onEvent_keeps [] s hstart)
  | start => exact Prog.wp_forget (start_keeps [] s hstart)

/-! ## The other processes -/

section
open ReconciliationService ReconciliationWorker

/-- The program writes back the token it has read last, until it acknowledges anything. -/
abbrev Copied (cfg : Config) {α : Type} (p : Engine α) : Prop :=
  ∀ g, (ownership cfg).Copies True g p.run

theorem sequenced (cfg : Config) : Sequenced fun (α : Type) (p : Prog Ledger Label Ans α) =>
    ∀ g, (ownership cfg).Copies True g p := (ownership cfg).sequenced

theorem quiet_copied {α : Type} {p : Engine α} (hp : p.Within (Quiet cfg)) : Copied cfg p :=
  Ownership.copies_of_within (fun hq => ⟨hq.1, by
    change token cfg _ = token cfg _
    rw [token, token, Ledger.getReconState_congr hq.reconState]⟩) trivial hp

theorem writeBack_copies {α : Type} {Φ : Prop} {l₀ l : Label}
    {f : Time → ReconciliationState → ReconciliationState} {k : ReconciliationState → Engine α}
    (hl₀ : l₀ = .query ∨ l₀ = .rowRead) (hl : l.writesRow)
    (hbot : ∀ now st, (f now st).bot = st.bot)
    (hkeep : ∀ now st, (f now st).lastAckToken = st.lastAckToken)
    (hk : acknowledges l = false → ∀ r g, (ownership cfg).Copies Φ g (k r).run)
    (g : Option String) :
    (ownership cfg).Copies Φ g (do
      let st ← query l₀ (·.getReconState cfg.bot)
      let now ← clockNow
      let r ← transaction l (Store.saveReconState (f now st) now)
      k r : Engine α).run := by
  intro s
  have hread : (ownership cfg).writes l₀ = false := by rcases hl₀ with rfl | rfl <;> rfl
  refine ⟨by rw [hread]; rfl, fun _ now s' => ⟨?_, fun hack => hk hack _ _⟩⟩
  rw [show (ownership cfg).writes l = true from hl]
  have htx : Store.saveReconState (f now (s.getReconState cfg.bot)) now s' = .ok _ := rfl
  exact (token_saved (by simp [hbot]) htx).trans (hkeep _ _)

theorem setState_copied {l : Label} {status : ReconciliationStatus} {reason : String}
    {success : Bool} {ws : Option Bool} (hl : l.writesRow) :
    Copied cfg (setState cfg l status reason success ws) :=
  writeBack_copies (.inl rfl) hl (fun _ _ => rfl) (fun _ _ => rfl) fun _ _ _ => trivial

theorem updateRow_copied {l : Label} {f : Time → ReconciliationState → ReconciliationState}
    (hl : l.writesRow) (hbot : ∀ now st, (f now st).bot = st.bot)
    (hkeep : ∀ now st, (f now st).lastAckToken = st.lastAckToken) :
    Copied cfg (updateRow cfg l f) :=
  writeBack_copies (.inr rfl) hl hbot hkeep fun _ _ _ => trivial

theorem touch_copied : Copied cfg (touch cfg) :=
  updateRow_copied (f := fun _ st => st) rfl (fun _ _ => rfl) fun _ _ => rfl

theorem run_copied {reason : String} : Copied cfg (ReconciliationService.run cfg reason false) := by
  have hS := sequenced cfg
  have hpersist {result reason started} : Copied cfg (persist cfg result reason started) :=
    quiet_copied (Exchange.within_quiet (Recording.within_exchange persist_recording))
  refine hS.seq (quiet_copied clockNow_within) fun _ => hS.seq (quiet_copied (query_quiet rfl _))
    fun _ => hS.seq (quiet_copied freshNonce_within) fun _ => hS.seq (setState_copied rfl) fun _ =>
    hS.seq (quiet_copied (body_quiet.outcome _)) fun r => ?_
  obtain ⟨outcome, f⟩ := r
  cases outcome with
  | error e => exact hS.seq hpersist fun _ => hS.seq (setState_copied rfl) fun _ => hS.pure _
  | ok _ =>
    refine hS.seq hpersist fun _ => hS.seq (setState_copied rfl) fun _ => hS.ite ?_ (hS.pure _)
    exact quiet_copied ((clockNow_within).bind fun _ => (enqueue_quiet rfl).bind fun _ =>
      (enqueue_quiet rfl).bind fun _ => Proc.within_pure _)

/-- An acknowledged run takes a step that only the process that polls may take. -/
theorem acknowledged_copies {reason : String} (g : Option String) :
    (ownership cfg).Copies False g (ReconciliationService.run cfg reason true).run := by
  have hstart {previous text status ws} (g : Option String) : (ownership cfg).Copies False g
      (setState cfg (.runStart true previous text) status text false ws).run := by
    refine writeBack_copies (.inl rfl) rfl ?_ ?_ ?_ g
    · exact fun _ _ => rfl
    · exact fun _ _ => rfl
    · exact fun h => by cases h
  exact fun _ _ => ⟨rfl, fun _ _ => (hstart _).bind False.elim⟩

theorem reconcile_copied {reason : String} : Copied cfg (reconcile cfg reason false) :=
  (sequenced cfg).seq run_copied fun _ => (sequenced cfg).seq (quiet_copied streamConnected_within)
    fun _ => (sequenced cfg).ite ((sequenced cfg).seq (setState_copied rfl) fun _ =>
      (sequenced cfg).pure _) ((sequenced cfg).pure _)

theorem onState_copied {state : StreamState} {detail : String} :
    Copied cfg (onState cfg state detail) := by
  have hS := sequenced cfg
  have hread : Copied cfg (query .query (·.getReconState cfg.bot)) :=
    quiet_copied (query_quiet rfl _)
  cases state with
  | connecting => exact hS.seq hread fun _ => hS.ite (setState_copied rfl) (hS.pure _)
  | disconnected =>
    exact hS.seq hread fun _ => hS.ite (setState_copied rfl) (setState_copied rfl)
  | subscribed =>
    exact hS.seq (updateRow_copied rfl (by intros; rfl) (by intros; rfl)) fun _ =>
      hS.seq reconcile_copied fun _ => hS.pure _

theorem onEvent_copied {ev : StreamEvent} : Copied cfg (onEvent cfg ev) :=
  (sequenced cfg).seq (quiet_copied (Exchange.within_quiet handle_exchange)) fun _ =>
    (sequenced cfg).seq (updateRow_copied rfl (by intros; rfl) (by intros; rfl)) fun _ =>
    (sequenced cfg).pure _

theorem start_copied : Copied cfg (start cfg) :=
  (sequenced cfg).seq (quiet_copied (query_quiet rfl _)) fun _ =>
    (sequenced cfg).ite (setState_copied rfl) ((sequenced cfg).pure _)

theorem pollControl_copied {last : Option String} : Copied cfg (pollControl cfg last) := by
  have hS := sequenced cfg
  refine hS.seq (hS.attempt (quiet_copied (call_within _))) fun ans => ?_
  cases ans with
  | error e => exact hS.pure _
  | ok control =>
    refine hS.ite (hS.seq (hS.attempt fun g => ?_) fun _ => hS.pure _) (hS.pure _)
    exact ((acknowledged_copies g).bind False.elim).bind False.elim

theorem turns_copied {interval n : Nat} : ∀ {elapsed : Nat} {last : Option String},
    Copied cfg (turns cfg interval n elapsed last) := by
  have hS := sequenced cfg
  induction n with
  | zero => exact hS.pure _
  | succ n ih =>
    intro elapsed last
    have hrun : Copied cfg (runDue cfg interval (elapsed + touchSeconds)) :=
      hS.seq (quiet_copied streamConnected_within) fun _ =>
        hS.ite (hS.seq reconcile_copied fun _ => hS.pure _) (hS.pure _)
    exact hS.seq (hS.seq touch_copied fun _ => hS.seq (hS.ite pollControl_copied (hS.pure _)) fun _ =>
      hS.seq hrun fun _ => hS.pure _) fun _ => ih

theorem gate_copied {control : Control} :
    Copied cfg (TradingCycle.reconciliationGate cfg control) := by
  have hS := sequenced cfg
  have hread : Copied cfg (query .query (·.getReconState cfg.bot)) :=
    quiet_copied (query_quiet rfl _)
  refine hS.seq hread fun st => hS.ite ?_ (hS.pure _)
  cases truthy control.reconciliationAckToken &&
      decide (control.reconciliationAckToken ≠ st.lastAckToken) with
  | false => exact hS.seq run_copied fun _ => hread
  | true => exact fun g => (acknowledged_copies g).bind False.elim

theorem cycle_copied : Copied cfg (TradingCycle.runOnce cfg) := by
  have hS := sequenced cfg
  refine hS.seq (quiet_copied clockNow_within) fun _ =>
    hS.seq (hS.attempt (quiet_copied (call_within _))) fun ans => ?_
  cases ans with
  | error e => exact quiet_copied ((enqueue_quiet rfl).bind fun _ => Proc.within_pure _)
  | ok control =>
    refine hS.seq (hS.attempt (quiet_copied (call_within _))) fun valid => ?_
    cases valid with
    | error e => exact hS.pure _
    | ok _ =>
      exact hS.seq gate_copied fun _ => quiet_copied ((clockNow_within).bind fun _ =>
        (clockNow_within).bind fun _ => .ite (Proc.within_pure _)
          (trade_quiet.bind fun _ => Proc.within_pure _))

end

theorem ControlProgram.copies {p : Prog Ledger Label Ans PUnit} (hp : ControlProgram cfg p) :
    ∀ g, (ownership cfg).Copies True g p := by
  have hS := sequenced cfg
  cases hp with
  | runOnce => exact hS.bind cycle_copied fun _ => hS.done _
  | periodic =>
    exact hS.bind (hS.seq (quiet_copied (query_quiet rfl _)) fun _ => turns_copied) fun _ => hS.done _
  | reconcile => exact hS.bind reconcile_copied fun _ => hS.done _
  | touch => exact hS.bind touch_copied fun _ => hS.done _
  | onState => exact hS.bind onState_copied fun _ => hS.done _
  | onEvent => exact hS.bind onEvent_copied fun _ => hS.done _
  | start => exact hS.bind start_copied fun _ => hS.done _

/-! ## No token twice -/

theorem governs : (ownership cfg).Governs (contract cfg) where
  rely := .rfl
  ans _ _ _ _ := trivial
  kept {h l s s'} hstep hl := by
    have htoken := hstep.1
    rw [show records l = false from hl] at htoken
    exact htoken

section
variable {τ : Type} [DecidableEq τ] {c : τ} {P P' : Pool τ Ledger Label Ans} {act : Act τ Label Ans}

theorem acknowledges_eq {l : Label} (hl : acknowledges l) :
    ∃ previous reason, l = .runStart true previous reason := by
  cases l with
  | runStart ack previous reason =>
    obtain rfl : ack = true := hl
    exact ⟨previous, reason, rfl⟩
  | _ => cases hl

theorem usedTokens_step {i : τ} {l : Label} {tr : List (Act τ Label Ans)}
    (hl : acknowledges l = false) : usedTokens (.event i (.step l) :: tr) = usedTokens tr := by
  cases l with
  | runStart ack previous reason =>
    obtain rfl : ack = false := hl
    rfl
  | _ => rfl

theorem unrecorded_step {l : Label} {h : History Label Ans} (hl : acknowledges l = false)
    (hrecords : records l = false) : unrecorded (.step l :: h) = unrecorded h := by
  cases l with
  | runStart ack previous reason =>
    obtain rfl : ack = false := hl
    rfl
  | flagWrite => cases hrecords
  | _ => rfl

/-- No token has started two runs; the last one used is the one the polling process has used last,
and, unless its run is under way, the recorded one; and what the control plane has offered last was
not used before another. -/
structure Consistent (cfg : Config) (c : τ) (P : Pool τ Ledger Label Ans) : Prop where
  sound : (ownership cfg).Sound (contract cfg) c P
  hist : P.hist c = Pool.since c P.trace
  nodup : (usedTokens P.trace).Nodup
  started : ∀ u, lastUsed (P.hist c) = some u → (usedTokens P.trace).head? = some u
  recorded : unrecorded (P.hist c) = false →
    usedTokens P.trace = [] ∨ (usedTokens P.trace).head? = some (token cfg P.state)
  offered : ∀ a, offered (P.hist c) = some a → some a ∈ usedTokens P.trace →
    (usedTokens P.trace).head? = some (some a)

theorem unrecorded_of_lastUsed {h : History Label Ans} (hnone : lastUsed h = none) :
    unrecorded h = false := by
  induction h with
  | nil => rfl
  | cons e h ih =>
    cases e with
    | call q a => exact ih hnone
    | step l =>
      cases hl : acknowledges l with
      | true =>
        obtain ⟨previous, reason, rfl⟩ := acknowledges_eq hl
        cases hnone
      | false =>
        cases hrecords : records l with
        | true =>
          cases l with
          | flagWrite => rfl
          | _ => cases hrecords
        | false =>
          rw [lastUsed_step hl] at hnone
          rw [unrecorded_step hl hrecords]
          exact ih hnone

/-- A token that is neither the last one used nor, before any, the recorded one is new. -/
theorem Consistent.fresh (hP : Consistent cfg c P) {a : String}
    (hoffered : Acknowledgement.offered (P.hist c) = some a)
    (hne : (lastUsed (P.hist c)).getD (token cfg P.state) ≠ some a) :
    some a ∉ usedTokens P.trace := by
  intro hmem
  have hhead := hP.offered a hoffered hmem
  cases hlast : lastUsed (P.hist c) with
  | some u =>
    rw [hlast] at hne
    exact hne (Option.some.inj ((hP.started u hlast).symm.trans hhead))
  | none =>
    rw [hlast] at hne
    rcases hP.recorded (unrecorded_of_lastUsed hlast) with hnil | htoken
    · rw [hnil] at hmem
      cases hmem
    · exact hne (Option.some.inj (htoken.symm.trans hhead))

theorem Consistent.step (hP : Consistent cfg c P) (hok : Orderly cfg c P act)
    (hs : Pool.Step (ControlProgram cfg) P act P') : Consistent cfg c P' := by
  obtain ⟨hsound, hcase⟩ := hP.sound.step governs (fun hp => ⟨hp.safe, hp.copies⟩) hok.copied hs
  have hsince : P'.hist c = Pool.since c P'.trace := by
    rw [hs.hist_eq c, hs.trace_eq, hP.hist]
    rfl
  rcases hcase with ⟨l, rfl, hhist, htoken, hstart⟩ | ⟨htoken, hother⟩
  · -- the process that polls
    cases hl : acknowledges l with
    | true =>
      obtain ⟨a, hoffered, hne⟩ := hstart hl
      obtain ⟨previous, reason, rfl⟩ := acknowledges_eq hl
      have hused : usedTokens P'.trace = some a :: usedTokens P.trace := by
        rw [hs.trace_eq, ← hoffered, hP.hist]
        rfl
      refine ⟨hsound, hsince, ?_, fun u hu => ?_, fun hr => ?_, fun b hb _ => ?_⟩
      · rw [hused]
        exact List.nodup_cons.2 ⟨hP.fresh hoffered hne, hP.nodup⟩
      · rw [hhist] at hu
        rw [hused, ← hoffered]
        exact hu
      · rw [hhist] at hr
        cases hr
      · rw [hhist] at hb
        have hb' : Acknowledgement.offered (P.hist c) = some b := hb
        rw [hused, ← hb', hoffered]
        rfl
    | false =>
      have hused : usedTokens P'.trace = usedTokens P.trace := by
        rw [hs.trace_eq, usedTokens_step hl]
      have hlast : lastUsed (P'.hist c) = lastUsed (P.hist c) := by rw [hhist, lastUsed_step hl]
      refine ⟨hsound, hsince, hused ▸ hP.nodup, fun u hu => ?_, fun hr => ?_, fun b hb hmem => ?_⟩
      · rw [hused]
        exact hP.started u (hlast ▸ hu)
      · rw [hused, htoken]
        cases hrecords : records l with
        | true =>
          cases hu : lastUsed (P.hist c) with
          | some u => exact .inr (hP.started u hu)
          | none => exact hP.recorded (unrecorded_of_lastUsed hu)
        | false =>
          rw [hhist, unrecorded_step hl hrecords] at hr
          exact hP.recorded hr
      · rw [hused] at hmem ⊢
        rw [hhist] at hb
        exact hP.offered b hb hmem
  · -- the others, the answers and the starts
    have hvalue : token cfg P'.state = token cfg P.state := htoken
    have hused : usedTokens P'.trace = usedTokens P.trace := by
      rw [hs.trace_eq]
      rcases act with ⟨i, l | ⟨q, a⟩⟩ | i
      · refine usedTokens_step (hok.copied i l rfl ?_).1
        rintro rfl
        exact hother l rfl
      · rfl
      · rfl
    by_cases hsame : P'.hist c = P.hist c
    · refine ⟨hsound, hsince, hused ▸ hP.nodup, ?_, ?_, ?_⟩
      · rw [hused, hsame]
        exact hP.started
      · rw [hused, hsame, hvalue]
        exact hP.recorded
      · rw [hused, hsame]
        exact hP.offered
    · rcases act with ⟨i, l | ⟨q, a⟩⟩ | i
      · by_cases hi : i = c
        · exact absurd (hi ▸ rfl) (hother l)
        · exact absurd (by simp [hs.hist_eq c, Pool.histAfter, hi]) hsame
      · by_cases hi : i = c
        · subst hi
          have hhist : P'.hist i = .call q a :: P.hist i := by
            simp [hs.hist_eq i, Pool.histAfter]
          refine ⟨hsound, hsince, hused ▸ hP.nodup, ?_, ?_, fun b hb hmem => ?_⟩
          · rw [hused, hhist]
            exact hP.started
          · rw [hused, hhist, hvalue]
            exact hP.recorded
          · rw [hused] at hmem ⊢
            rw [hhist] at hb
            have hkeep : Acknowledgement.offered (P.hist i) = some b →
              (usedTokens P.trace).head? = some (some b) := fun hb => hP.offered b hb hmem
            rcases q with q | r
            · exact hkeep hb
            · cases r with
              | getControl =>
                cases a with
                | error e => exact hkeep hb
                | ok control => exact hok.latest b hb hmem
              | _ => exact hkeep hb
        · exact absurd (by simp [hs.hist_eq c, Pool.histAfter, hi]) hsame
      · by_cases hi : i = c
        · subst hi
          have hhist : P'.hist i = [] := by simp [hs.hist_eq i, Pool.histAfter]
          refine ⟨hsound, hsince, hused ▸ hP.nodup, ?_, fun _ => ?_, ?_⟩
          · rw [hhist]
            exact fun _ hnil => by cases hnil
          · rw [hused, hvalue]
            exact hP.recorded (hok.recorded rfl)
          · rw [hhist]
            exact fun _ hnil => by cases hnil
        · exact absurd (by simp [hs.hist_eq c, Pool.histAfter, hi]) hsame

/-- In every run in which the process that polls is not killed between an acknowledged run and the
record of its token, and in which nobody writes back a row read before the last record, no token
starts two runs. -/
theorem token_used_once {s : Ledger}
    (hrun : Pool.Run (ControlProgram cfg) (Orderly cfg c) (.idle s) P) :
    (usedTokens P.trace).Nodup := by
  refine (hrun.invariant (I := Consistent cfg c) (fun hP hok hs => hP.step hok hs) ?_).nodup
  exact ⟨Ownership.sound_idle _ _ _ _, rfl, List.nodup_nil, nofun, fun _ => .inl rfl, nofun⟩

end

/-! ## A token that starts two runs -/

/-- The answers of a control plane whose operator has acknowledged, and of an exchange on which
nothing happens. -/
def acknowledgedEnv : Prog.Env Label Ans := exchangeEnv fun
  | .getControl => .ok { enabled := true, emergencyStop := false, reconciliationAckToken := some "ack-1" }
  | r => listing (.ok []) r

/-- The worker, started and killed in the first steps of the run it acknowledges. -/
def killedWorker (P : Pool Unit Ledger Label Ans) : Pool Unit Ledger Label Ans :=
  (P.restart () (ReconciliationWorker.periodic sampleConfig 300 2).run.forget).go acknowledgedEnv () 15

theorem token_used_twice :
    Pool.Run (ControlProgram sampleConfig) (fun _ _ => True) (.idle {})
      (killedWorker (killedWorker (.idle {}))) ∧
    usedTokens (killedWorker (killedWorker (.idle {}))).trace = [some "ack-1", some "ack-1"] := by
  refine ⟨?_, by decide +kernel⟩
  exact (Pool.run_restart () (.periodic _ _) trivial).trans <| (Pool.run_go_any _ _ _ _).trans <|
    (Pool.run_restart () (.periodic _ _) trivial).trans <| Pool.run_go_any _ _ _ _

/-- The worker polls twice and is offered the token both times. -/
def pollingWorker : Pool Unit Ledger Label Ans :=
  ((Pool.idle {}).restart () (ReconciliationWorker.periodic sampleConfig 300 4).run.forget).go
    acknowledgedEnv () 200

theorem token_used_once_polling :
    (usedTokens pollingWorker.trace).Nodup ∧ usedTokens pollingWorker.trace = [some "ack-1"] := by
  have hrun : Pool.Run (ControlProgram sampleConfig) (Orderly sampleConfig ()) (.idle {})
      pollingWorker :=
    (Pool.run_restart () (.periodic _ _) (by decide)).trans
      (Pool.run_go_of_scheduled _ _ _ (by decide +kernel))
  exact ⟨token_used_once hrun, by decide +kernel⟩

end Acknowledgement

end CryptoBot
