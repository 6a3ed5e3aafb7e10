import CryptoBot.Workers.StateRow

/-!
# Halts are sticky

A run of the reconciliation overwrites the stored status with RECONCILING when it starts, and knows
of an earlier halt only what it read before. So the halt is remembered exactly as long as every run
that found HALTED comes to its verdict: it is not killed, it does not raise, and it does not end
with orders still pending. Then only an acknowledged run that ends clean makes the state HEALTHY
again.
-/

namespace CryptoBot

open Lib

namespace HaltSticky

variable (cfg : Config)

/-- The stored status. -/
def status (s : Ledger) : ReconciliationStatus := (s.getReconState cfg.bot).status

/-- The run in progress: its acknowledgement and the status it found. -/
def openRun : History Label Ans → Option (Bool × ReconciliationStatus)
  | [] => none
  | .step (.runStart operatorAck previous _) :: _ => some (operatorAck, previous)
  | .step (.runEnd ..) :: _ | .step (.runFailed _) :: _ => none
  | _ :: h => openRun h

/-- What ends a run without a verdict: a kill, an exception, or orders still pending. -/
def forgets : Act Unit Label Ans → Bool
  | .start _ => true
  | .event _ (.step (.runFailed _)) => true
  | .event _ (.step (.runEnd _ _ status _)) => decide (status = .reconciling)
  | _ => false

/-- The run in progress has found HALTED. -/
def foundHalt (h : History Label Ans) : Bool := (openRun h).any fun x => decide (x.2 = .halted)

/-- A run that found HALTED comes to its verdict: it is not killed, it does not raise, and it does
not end with orders still pending. -/
def Completes (P : Pool Unit Ledger Label Ans) (act : Act Unit Label Ans) : Prop :=
  foundHalt (P.hist ()) → forgets act = false

instance (P : Pool Unit Ledger Label Ans) (act : Act Unit Label Ans) : Decidable (Completes P act) :=
  inferInstanceAs (Decidable (_ → _))

/-- An acknowledged run that found HALTED started in this stretch of the trace (newest first) and
ended clean. -/
def Acknowledged (tr : List (Act Unit Label Ans)) : Prop :=
  ∃ later between earlier reason reason', tr = later ++
    .event () (.step (.runEnd true true .healthy reason)) :: between ++
    .event () (.step (.runStart true .halted reason')) :: earlier ∧
    ∀ act ∈ between, ∀ i, act ≠ .start i

/-! ## What a process does to the status -/

/-- What a step of a process may do to the status: a run starts as RECONCILING and records the
status it found, its verdict is HEALTHY only when it is clean and acknowledges a halt it found, and
no other `set_state` makes HALTED anything else, or anything HEALTHY. -/
inductive StatusStep (h : History Label Ans) (s s' : Ledger) : Label → Prop
  | runStart {ack : Bool} {reason : String} (hopen : openRun h = none)
      (hst : status cfg s' = .reconciling) :
      StatusStep h s s' (.runStart ack (status cfg s) reason)
  | runEnd {ack clean : Bool} {st reason previous} (hopen : openRun h = some (ack, previous))
      (hst : status cfg s' = st) (hmem : st ∈ [.halted, .reconciling, .healthy])
      (hclean : st = .healthy → clean ∧ (previous = .halted → ack)) :
      StatusStep h s s' (.runEnd ack clean st reason)
  | runFailed {reason} (hopen : openRun h ≠ none) : StatusStep h s s' (.runFailed reason)
  | setState {st reason} (hopen : openRun h = none) (hst : status cfg s' = st)
      (hhealthy : st ≠ .healthy) (hhalt : status cfg s = .halted → st = .halted) :
      StatusStep h s s' (.setState st reason)
  | keep {l} (hopen : openRun (.step l :: h) = openRun h) (hst : status cfg s' = status cfg s) :
      StatusStep h s s' l

/-- The contract of a process that runs alone. -/
def contract : Contract Ledger Label Ans where
  rely _ s s' := s' = s
  ans _ _ _ _ := True
  step h l s s' := StatusStep cfg h s s' l
  guard _ _ _ := True

variable {cfg}

theorem contract_stable : (contract cfg).Stable fun _ => True where
  refl _ _ _ := rfl
  trans h h' := h'.trans h

/-- Steps that do not write the row neither start nor end a run. -/
theorem openRun_of_not_writesRow {l : Label} (hl : l.writesRow = false) (h : History Label Ans) :
    openRun (.step l :: h) = openRun h := by
  cases l <;> first | rfl | cases hl

theorem quiet_step {x : Option (Bool × ReconciliationStatus)} {st : ReconciliationStatus}
    {l : Label} {h : History Label Ans} {s s' : Ledger} (hI : openRun h = x ∧ status cfg s = st)
    (hq : Quiet cfg l s s') :
    (contract cfg).step h l s s' ∧ openRun (.step l :: h) = x ∧ status cfg s' = st := by
  have hst : status cfg s' = status cfg s := by
    rw [status, status, Ledger.getReconState_congr hq.reconState]
  have hopen := openRun_of_not_writesRow hq.1 h
  exact ⟨.keep hopen hst, hopen.trans hI.1, hst.trans hI.2⟩

/-- A program that leaves the row alone neither starts nor ends a run. -/
theorem wp_quiet {α : Type} {p : Engine α} (hp : p.Within (Quiet cfg)) (h : History Label Ans)
    (s : Ledger) : Proc.wp (contract cfg) p
      (fun _ h' s' => openRun h' = openRun h ∧ status cfg s' = status cfg s) h s :=
  Proc.wp_of_within (C := contract cfg)
    (I := fun h' s' => openRun h' = openRun h ∧ status cfg s' = status cfg s) hp ⟨rfl, rfl⟩
    (fun hI hr => hr ▸ hI) (fun _ => quiet_step) fun _ hI => ⟨trivial, fun _ _ => hI⟩

theorem wp_quiet_run {α : Type} {p : ReconciliationService.RunM α} (hp : p.Within (Quiet cfg))
    (f : ReconciliationService.Findings) (h : History Label Ans) (s : Ledger) :
    LProc.wp (contract cfg) p
      (fun _ _ h' s' => openRun h' = openRun h ∧ status cfg s' = status cfg s) f h s :=
  LProc.keeps_of_within (C := contract cfg)
    (I := fun h' s' => openRun h' = openRun h ∧ status cfg s' = status cfg s) hp
    (fun hI hr => hr ▸ hI) (fun _ => quiet_step) (fun _ hI => ⟨trivial, fun _ _ => hI⟩) f h s
    ⟨rfl, rfl⟩

/-- A `set_state` stores its status. -/
theorem wp_setState {l : Label} {st : ReconciliationStatus} {reason : String} {success : Bool}
    {ws : Option Bool} {h : History Label Ans} {s : Ledger}
    {Φ : Except Exn PUnit → History Label Ans → Ledger → Prop}
    (hΦ : ∀ h' s', openRun h' = openRun h → status cfg s' = st →
      (contract cfg).step h' l s s' ∧ Φ (.ok ⟨⟩) (.step l :: h') s') :
    Proc.wp (contract cfg) (ReconciliationService.setState cfg l st reason success ws) Φ h s := by
  refine (Proc.wp_bind _ _ _ _ _).2 ((wp_query _ _).2 fun s₁ hs₁ => ⟨.keep rfl rfl, ?_⟩)
  subst hs₁
  refine (Proc.wp_bind _ _ _ _ _).2 ((wp_clockNow _).2 fun s₂ hs₂ => ⟨trivial, fun now _ => ?_⟩)
  subst hs₂
  refine (Proc.wp_bind _ _ _ _ _).2 (wp_transaction fun s₃ hs₃ => ⟨fun st' s₄ htx => ?_, nofun⟩)
  subst hs₃
  have hst : status cfg s₄ = st := by rw [status, StateRow.saveReconState_ok (by simp) htx]
  obtain ⟨hstep, hpost⟩ := hΦ (.call (.ambient .now) now :: .step .query :: h) s₄ rfl hst
  exact ⟨hstep, hpost⟩

/-! ## The programs -/

section
open ReconciliationService ReconciliationWorker

/-- A program that starts and ends outside of any run. -/
abbrev Closed (cfg : Config) {α : Type} (p : Engine α) : Prop :=
  p.Keeps (contract cfg) fun h _ => openRun h = none

theorem quiet_closed {α : Type} {p : Engine α} (hp : p.Within (Quiet cfg)) :
    Closed cfg p :=
  fun h s hopen => Proc.wp_mono (wp_quiet hp h s) fun _ _ _ hq => hq.1.trans hopen

/-- An update of the row writes the status back that it has read. -/
theorem updateRow_closed {l : Label} {f : Time → ReconciliationState → ReconciliationState}
    (hl : l = .stampWrite ∨ l = .flagWrite) (hbot : ∀ now st, (f now st).bot = st.bot)
    (hstatus : ∀ now st, (f now st).status = st.status) :
    Closed cfg (updateRow cfg l f) := by
  intro h s hopen
  refine (Proc.wp_bind _ _ _ _ _).2 ((wp_query _ _).2 fun s₁ hs₁ => ⟨.keep rfl rfl, ?_⟩)
  subst hs₁
  refine (Proc.wp_bind _ _ _ _ _).2 ((wp_clockNow _).2 fun s₂ hs₂ => ⟨trivial, fun now _ => ?_⟩)
  subst hs₂
  refine (Proc.wp_bind _ _ _ _ _).2 (wp_transaction fun s₃ hs₃ => ⟨fun st' s₄ htx => ?_, nofun⟩)
  subst hs₃
  have hst : status cfg s₄ = status cfg s₃ := by
    rw [status, StateRow.saveReconState_ok (by simp [hbot]) htx]
    exact hstatus _ _
  rcases hl with rfl | rfl <;> exact ⟨.keep rfl hst, hopen⟩

/-- The verdict of a run whose try block returned. -/
theorem verdict_status (previous : ReconciliationState) (ack : Bool) (runKey : RunKey)
    (f : Findings) :
    (verdict previous ack runKey f).status ∈
      [ReconciliationStatus.halted, .reconciling, .healthy] ∧
    ((verdict previous ack runKey f).status = .healthy →
      decide ((verdict previous ack runKey f).critical = [] ∧ f.pendingAmbiguous = 0) ∧
      (previous.status = .halted → ack)) := by
  unfold verdict
  dsimp only
  split
  · exact ⟨.head _, nofun⟩
  · next hcrit =>
    split
    · exact ⟨.tail _ (.head _), nofun⟩
    · next hpend =>
      split
      · exact ⟨.head _, nofun⟩
      · next hack =>
        refine ⟨.tail _ (.tail _ (.head _)), fun _ => ⟨?_, fun hp => ?_⟩⟩
        · exact decide_eq_true ⟨not_not.1 hcrit, not_not.1 hpend⟩
        · simpa [hp] using hack

/-- Recording a run does not raise. -/
theorem persist_spec {result : ReconResult} {reason : String} {started : Time}
    {h : History Label Ans} {s : Ledger} :
    Proc.wp (contract cfg) (persist cfg result reason started)
      (fun r h' _ => r = .ok ⟨⟩ ∧ openRun h' = openRun h) h s := by
  refine (Proc.wp_bind _ _ _ _ _).2 (wp_transaction fun s₁ hs₁ => ⟨fun _ s₂ htx => ?_, nofun⟩)
  cases htx
  refine ⟨.keep rfl rfl, (Proc.wp_bind _ _ _ _ _).2 ((wp_clockNow _).2 fun s₂ hs₂ =>
    ⟨trivial, fun now _ =>
      wp_transaction fun s₃ hs₃ => ⟨fun _ s₄ htx => ⟨.keep rfl ?_, rfl, rfl⟩, ?_⟩⟩)⟩
  · exact congrArg ReconciliationState.status
      (Ledger.getReconState_congr (congrArg Ledger.reconState (Store.enqueue_books htx) :) _)
  · intro e he
    obtain ⟨s', hok⟩ := Store.enqueue_isOk _ _ _ _ s₃
    rw [hok] at he
    cases he

/-- What follows the try block ends the run with its result. -/
theorem conclude_spec {previous : ReconciliationState} {ack : Bool} {runKey : RunKey}
    {reason : String} {started : Time} {outcome : Except Exn PUnit} {f : Findings}
    {h : History Label Ans} {s : Ledger} (hopen : openRun h = some (ack, previous.status)) :
    Proc.wp (contract cfg) (conclude cfg previous ack runKey reason started outcome f)
      (fun r h s => openRun h = none ∧ ∀ res, r = .ok res → status cfg s = res.status) h s := by
  cases outcome with
  | error e =>
    refine (Proc.wp_bind _ _ _ _ _).2 (Proc.wp_mono persist_spec ?_)
    rintro r h₁ s₁ ⟨rfl, h₁open⟩
    refine (Proc.wp_bind _ _ _ _ _).2 (wp_setState fun h₂ s₂ h₂open hst =>
      ⟨.runFailed ?_, rfl, by rintro _ ⟨⟩; exact hst⟩)
    rw [h₂open, h₁open, hopen]
    exact nofun
  | ok _ =>
    obtain ⟨hmem, hclean⟩ := verdict_status previous ack runKey f
    refine (Proc.wp_bind _ _ _ _ _).2 (Proc.wp_mono persist_spec ?_)
    rintro r h₁ s₁ ⟨rfl, h₁open⟩
    refine (Proc.wp_bind _ _ _ _ _).2 (wp_setState fun h₂ s₂ h₂open hst =>
      ⟨.runEnd ((h₂open.trans h₁open).trans hopen) hst hmem hclean, ?_⟩)
    refine (Proc.wp_ite _ _ _ _ _ _).2 ?_
    split
    · -- the alert of a halt leaves the row alone
      refine (Proc.wp_bind _ _ _ _ _).2 ((wp_clockNow _).2 fun s₃ hs₃ =>
        ⟨trivial, fun now _ => ?_⟩)
      subst hs₃
      refine (Proc.wp_bind _ _ _ _ _).2 (Proc.wp_mono
        (wp_quiet (Exchange.within_quiet (enqueue_exchange rfl)) _ _) ?_)
      rintro (e | _) h₄ s₄ ⟨h₄open, hst₄⟩
      · exact ⟨h₄open, nofun⟩
      · refine (Proc.wp_bind _ _ _ _ _).2 (Proc.wp_mono
          (wp_quiet (Exchange.within_quiet (enqueue_exchange rfl)) _ _) ?_)
        rintro (e | _) h₅ s₅ ⟨h₅open, hst₅⟩
        · exact ⟨h₅open.trans h₄open, nofun⟩
        · exact ⟨h₅open.trans h₄open, by rintro _ ⟨⟩; exact (hst₅.trans hst₄).trans hst⟩
    · exact ⟨rfl, by rintro _ ⟨⟩; exact hst⟩

/-- A run starts outside of any run and ends with its result stored. -/
theorem run_spec {reason : String} {ack : Bool} {h : History Label Ans} {s : Ledger}
    (hopen : openRun h = none) :
    Proc.wp (contract cfg) (ReconciliationService.run cfg reason ack)
      (fun r h s => openRun h = none ∧ ∀ res, r = .ok res → status cfg s = res.status) h s := by
  refine (Proc.wp_bind _ _ _ _ _).2 ((wp_clockNow _).2 fun s₁ hs₁ => ⟨trivial, fun started _ => ?_⟩)
  subst hs₁
  refine (Proc.wp_bind _ _ _ _ _).2 ((wp_query _ _).2 fun s₂ hs₂ => ⟨.keep rfl rfl, ?_⟩)
  subst hs₂
  refine (Proc.wp_bind _ _ _ _ _).2 ((wp_freshNonce _).2 fun s₃ hs₃ => ⟨trivial, fun nonce _ => ?_⟩)
  subst hs₃
  refine (Proc.wp_bind _ _ _ _ _).2 (wp_setState fun h₄ s₄ h₄open hst =>
    ⟨.runStart (h₄open.trans hopen) hst, ?_⟩)
  refine (Proc.wp_bind _ _ _ _ _).2 ((LProc.wp_outcome _ _ _ _ _).2 ?_)
  exact LProc.wp_mono (wp_quiet_run body_quiet _ _ s₄) fun r f h₅ s₅ h₅open =>
    conclude_spec h₅open.1

theorem run_closed {reason : String} {ack : Bool} :
    Closed cfg (ReconciliationService.run cfg reason ack) :=
  fun _ _ hopen => Proc.wp_mono (run_spec hopen) fun _ _ _ h => h.1

/-- A stream that dropped during a run degrades a HEALTHY verdict only. -/
theorem reconcile_closed {reason : String} {ack : Bool} :
    Closed cfg (reconcile cfg reason ack) := by
  intro h s hopen
  refine (Proc.wp_bind _ _ _ _ _).2 (Proc.wp_mono (run_spec hopen) ?_)
  rintro (e | res) h₁ s₁ ⟨h₁open, hst⟩
  · exact h₁open
  · refine (Proc.wp_bind _ _ _ _ _).2 ((wp_streamConnected _).2 fun s₂ hs₂ =>
      ⟨trivial, fun connected _ => ?_⟩)
    subst hs₂
    refine (Proc.wp_ite _ _ _ _ _ _).2 ?_
    split
    · next hc =>
      refine (Proc.wp_bind _ _ _ _ _).2 (wp_setState fun h₃ s₃ h₃open hst₃ =>
        ⟨.setState (h₃open.trans h₁open) hst₃ nofun fun hhalt => ?_, h₃open.trans h₁open⟩)
      rw [hst res rfl, hc.2] at hhalt
      cases hhalt
    · exact h₁open

/-- A `set_state` of a callback, under a condition on the status just read. -/
theorem guarded_setState {st : ReconciliationStatus} {reason : String} {ws : Option Bool}
    {h : History Label Ans} {s : Ledger} (hopen : openRun h = none) (hne : st ≠ .healthy)
    (hhalt : status cfg s = .halted → st = .halted) :
    Proc.wp (contract cfg) (setState cfg (.setState st reason) st reason false ws)
      (fun _ h _ => openRun h = none) h s :=
  wp_setState fun _ _ h₁open hst =>
    ⟨.setState (h₁open.trans hopen) hst hne hhalt, h₁open.trans hopen⟩

theorem start_closed : Closed cfg (start cfg) := by
  intro h s hopen
  refine (Proc.wp_bind _ _ _ _ _).2 ((wp_query _ _).2 fun s₁ hs₁ => ⟨.keep rfl rfl, ?_⟩)
  subst hs₁
  refine (Proc.wp_ite _ _ _ _ _ _).2 ?_
  split
  · next hne => exact guarded_setState hopen nofun fun hhalt => absurd hhalt hne
  · exact hopen

theorem onState_closed {state : StreamState} {detail : String} :
    Closed cfg (onState cfg state detail) := by
  intro h s hopen
  cases state with
  | subscribed =>
    exact ((updateRow_closed (.inr rfl) (by intros; rfl) (by intros; rfl)).bind fun _ =>
      reconcile_closed.bind fun _ => Proc.keeps_pure _) h s hopen
  | connecting =>
    refine (Proc.wp_bind _ _ _ _ _).2 ((wp_query _ _).2 fun s₁ hs₁ => ⟨.keep rfl rfl, ?_⟩)
    subst hs₁
    refine (Proc.wp_ite _ _ _ _ _ _).2 ?_
    split
    · next hne => exact guarded_setState hopen nofun fun hhalt => absurd hhalt hne
    · exact hopen
  | disconnected =>
    refine (Proc.wp_bind _ _ _ _ _).2 ((wp_query _ _).2 fun s₁ hs₁ => ⟨.keep rfl rfl, ?_⟩)
    subst hs₁
    refine (Proc.wp_ite _ _ _ _ _ _).2 ?_
    split
    · next hne => exact guarded_setState hopen nofun fun hhalt => absurd hhalt hne
    · exact guarded_setState hopen nofun fun _ => rfl

theorem touch_closed : Closed cfg (touch cfg) :=
  updateRow_closed (f := fun _ st => st) (.inl rfl) (fun _ _ => rfl) fun _ _ => rfl

theorem onEvent_closed {ev : StreamEvent} : Closed cfg (onEvent cfg ev) :=
  (quiet_closed (Exchange.within_quiet handle_exchange)).bind fun _ =>
    (updateRow_closed (.inl rfl) (by intros; rfl) (by intros; rfl)).bind fun _ =>
    Proc.keeps_pure _

theorem pollControl_closed {last : Option String} :
    Closed cfg (pollControl cfg last) := by
  refine (Proc.Keeps.attempt (quiet_closed (call_within _))).bind fun r => ?_
  cases r with
  | error e => exact Proc.keeps_pure _
  | ok control =>
    exact .ite ((Proc.Keeps.attempt (reconcile_closed.bind fun _ =>
      updateRow_closed (.inr rfl) (by intros; rfl) (by intros; rfl))).bind fun _ =>
      Proc.keeps_pure _) (Proc.keeps_pure _)

end

/-- Every program of the worker keeps the contract. -/
theorem program_sound {p : Prog Ledger Label Ans PUnit} (hp : StateRow.WorkerProgram cfg p)
    (s : Ledger) : p.wp (contract cfg) (fun _ _ _ => True) [] s := by
  cases hp with
  | run => exact Prog.wp_forget (run_closed [] s rfl)
  | reconcile => exact Prog.wp_forget (reconcile_closed [] s rfl)
  | touch => exact Prog.wp_forget (touch_closed [] s rfl)
  | onState => exact Prog.wp_forget (onState_closed [] s rfl)
  | onEvent => exact Prog.wp_forget (onEvent_closed [] s rfl)
  | pollControl => exact Prog.wp_forget (pollControl_closed [] s rfl)
  | start => exact Prog.wp_forget (start_closed [] s rfl)

/-! ## The memory of a halt -/

section
variable {P P' Q : Pool Unit Ledger Label Ans} {act : Act Unit Label Ans}

/-- A process that keeps the contract, with RECONCILING stored throughout a run. -/
structure Steady (cfg : Config) (P : Pool Unit Ledger Label Ans) : Prop where
  sound : Pool.Sound (contract cfg) P
  running : openRun (P.hist ()) ≠ none → status cfg P.state = .reconciling

/-- What a step of a steady process comes to: a step on the ledger, a request, or a start. -/
theorem Steady.step_cases (hP : Steady cfg P)
    (hs : Pool.Step (StateRow.WorkerProgram cfg) P act P') :
    Pool.Sound (contract cfg) P' ∧ P'.trace = act :: P.trace ∧
    ((∃ l, act = .event () (.step l) ∧ P'.hist () = .step l :: P.hist () ∧
      StatusStep cfg (P.hist ()) P.state P'.state l) ∨
    ((∀ i, act ≠ .start i) ∧ P'.state = P.state ∧ openRun (P'.hist ()) = openRun (P.hist ())) ∨
    (act = .start () ∧ P'.state = P.state ∧ openRun (P'.hist ()) = none)) := by
  rcases hP.sound.step_cases contract_stable trivial hs with ⟨i, l, rfl, hhist, hstep, hsound⟩ |
    ⟨i, q, a, rfl, hst, hhist, -, hsound⟩ | ⟨i, p, rfl, hp, hst, hhist, hsound⟩
  · exact ⟨hsound fun j hj => absurd rfl hj, hs.trace_eq,
      .inl ⟨l, rfl, by rw [hhist, Function.update_self], hstep⟩⟩
  · exact ⟨hsound trivial, hs.trace_eq,
      .inr (.inl ⟨nofun, hst, by rw [hhist, Function.update_self]; rfl⟩)⟩
  · exact ⟨hsound (program_sound hp _), hs.trace_eq,
      .inr (.inr ⟨rfl, hst, by rw [hhist, Function.update_self]; rfl⟩)⟩

theorem Steady.step (hP : Steady cfg P) (hs : Pool.Step (StateRow.WorkerProgram cfg) P act P') :
    Steady cfg P' := by
  obtain ⟨hsound, -, ⟨l, rfl, hhist, hstep⟩ | ⟨-, hst, hopen⟩ | ⟨-, -, hopen⟩⟩ := hP.step_cases hs
  · refine ⟨hsound, fun hrun => ?_⟩
    rw [hhist] at hrun
    cases hstep with
    | runStart _ hst => exact hst
    | runEnd => exact absurd rfl hrun
    | runFailed => exact absurd rfl hrun
    | setState hopen => exact absurd hopen hrun
    | keep hopen hst => exact hst.trans (hP.running (hopen ▸ hrun))
  · exact ⟨hsound, fun hrun => by rw [hst]; exact hP.running (hopen ▸ hrun)⟩
  · exact ⟨hsound, fun hrun => absurd hopen hrun⟩

/-- The run in progress has started in this stretch of the trace, and has found HALTED. -/
def Remembering (Q : Pool Unit Ledger Label Ans) (tr : List (Act Unit Label Ans)) : Prop :=
  ∃ ack, openRun (Q.hist ()) = some (ack, .halted) ∧ ∃ between earlier reason,
    tr = between ++ .event () (.step (.runStart ack .halted reason)) :: earlier ∧
    ∀ act ∈ between, ∀ i, act ≠ .start i

/-- Since the halt in `P`: a run has acknowledged it, or HALTED is stored, or the run in progress
has found it. -/
def Remembered (cfg : Config) (P Q : Pool Unit Ledger Label Ans) : Prop :=
  ∃ tr, Q.trace = tr ++ P.trace ∧
    (Acknowledged tr ∨ status cfg Q.state = .halted ∨ Remembering Q tr)

theorem Acknowledged.cons {tr : List (Act Unit Label Ans)} (h : Acknowledged tr) :
    Acknowledged (act :: tr) := by
  obtain ⟨later, between, earlier, reason, reason', rfl, hb⟩ := h
  exact ⟨act :: later, between, earlier, reason, reason', rfl, hb⟩

/-- Nothing between a run's start and its verdict makes it forget the halt it found. -/
theorem Remembered.step (hQ : Steady cfg Q) (hok : Completes Q act)
    (hs : Pool.Step (StateRow.WorkerProgram cfg) Q act P') (h : Remembered cfg P Q) :
    Remembered cfg P P' := by
  obtain ⟨tr, htr, hmem⟩ := h
  obtain ⟨-, htrace, hcases⟩ := hQ.step_cases hs
  refine ⟨act :: tr, by rw [htrace, htr]; rfl, ?_⟩
  rcases hmem with hack | hhalt | ⟨ack, hopen, between, earlier, reason, rfl, hb⟩
  · exact .inl hack.cons
  · -- HALTED is stored, so no run is in progress
    have hnone : openRun (Q.hist ()) = none := by
      by_contra hrun
      rw [hQ.running hrun] at hhalt
      cases hhalt
    rcases hcases with ⟨l, rfl, hhist, hstep⟩ | ⟨-, hst, -⟩ | ⟨-, hst, -⟩
    · cases hstep with
      | @runStart ack reason =>
        rw [hhalt] at hhist ⊢
        exact .inr (.inr ⟨ack, by rw [hhist]; rfl, [], tr, reason, rfl, List.forall_mem_nil _⟩)
      | runEnd hrun =>
        rw [hnone] at hrun
        cases hrun
      | runFailed hrun => exact absurd hnone hrun
      | setState _ hst _ hhalt' => exact .inr (.inl (hst.trans (hhalt' hhalt)))
      | keep _ hst => exact .inr (.inl (hst.trans hhalt))
    · exact .inr (.inl (hst ▸ hhalt))
    · exact .inr (.inl (hst ▸ hhalt))
  · -- the run in progress has found the halt and comes to its verdict
    have hcompletes : forgets act = false := hok (by simp [foundHalt, hopen])
    have hkeep (hne : ∀ i, act ≠ .start i)
        (hopen' : openRun (P'.hist ()) = openRun (Q.hist ())) :
        Remembering P' (act :: (between ++ .event () (.step (.runStart ack .halted reason)) ::
          earlier)) :=
      ⟨ack, hopen'.trans hopen, act :: between, earlier, reason, rfl,
        List.forall_mem_cons.2 ⟨hne, hb⟩⟩
    rcases hcases with ⟨l, rfl, hhist, hstep⟩ | ⟨hne, -, hopen'⟩ | ⟨rfl, -⟩
    · cases hstep with
      | runStart hnone =>
        rw [hopen] at hnone
        cases hnone
      | @runEnd _ clean st reason' _ hrun hst hmem hclean =>
        rw [hopen] at hrun
        cases hrun
        simp only [List.mem_cons, List.not_mem_nil, or_false] at hmem
        rcases hmem with rfl | rfl | rfl
        · exact .inr (.inl hst)
        · cases hcompletes
        · obtain ⟨rfl, hack⟩ := hclean rfl
          obtain rfl := hack rfl
          exact .inl ⟨[], between, earlier, reason', reason, rfl, hb⟩
      | runFailed => cases hcompletes
      | setState hnone =>
        rw [hopen] at hnone
        cases hnone
      | keep hopen' => exact .inr (.inr (hkeep nofun (by rw [hhist, hopen'])))
    · exact .inr (.inr (hkeep hne hopen'))
    · cases hcompletes

/-- In every sequence of the worker's programs, with kills and restarts at any point, in which every
run that found HALTED comes to its verdict, the state becomes HEALTHY after a halt only through an
acknowledged run that started after the halt and ended clean. -/
theorem halt_sticky {s : Ledger}
    (hP : Pool.Run (StateRow.WorkerProgram cfg) Completes (.idle s) P)
    (hhalted : status cfg P.state = .halted)
    (hQ : Pool.Run (StateRow.WorkerProgram cfg) Completes P Q)
    (hhealthy : status cfg Q.state = .healthy) :
    ∃ tr, Q.trace = tr ++ P.trace ∧ Acknowledged tr := by
  have hsteady : Steady cfg P := by
    refine hP.invariant (I := Steady cfg) ?_ ⟨Pool.sound_idle _ _, fun h => absurd rfl h⟩
    exact fun hP _ hs => hP.step hs
  have hmem : Steady cfg Q ∧ Remembered cfg P Q := by
    refine hQ.invariant (I := fun Q => Steady cfg Q ∧ Remembered cfg P Q) ?_
      ⟨hsteady, [], rfl, .inr (.inl hhalted)⟩
    exact fun hQ hok hs => ⟨hQ.1.step hs, hQ.2.step hQ.1 hok hs⟩
  obtain ⟨hQs, tr, htr, hack | hhalt | ⟨ack, hopen, -⟩⟩ := hmem
  · exact ⟨tr, htr, hack⟩
  · rw [hhealthy] at hhalt
    cases hhalt
  · have := hQs.running (by rw [hopen]; exact nofun)
    rw [hhealthy] at this
    cases this

end

/-! ## A halt that a failed run forgets -/

/-- A first run of the worker, on an empty ledger, which finds a stray order and halts. -/
def haltedPool : Pool Unit Ledger Label Ans :=
  ((Pool.idle {}).restart () (ReconciliationService.run sampleConfig "startup"
    false).run.forget).go strayExchange () 100

/-- A run of the worker from a pool, against an exchange with this listing of open orders. -/
def thenRun (P : Pool Unit Ledger Label Ans) (open_ : Except Exn (List ExchangeOrderReport))
    (operatorAck : Bool) : Pool Unit Ledger Label Ans :=
  (P.restart () (ReconciliationService.run sampleConfig "periodic"
    operatorAck).run.forget).go (exchangeEnv (listing open_)) () 100

/-- The next run fails at the exchange, the one after it finds nothing. -/
def forgottenHalt : Pool Unit Ledger Label Ans :=
  thenRun (thenRun haltedPool (.error (.external "NetworkError" "timeout")) false) (.ok []) false

theorem run_thenRun {ok : Pool Unit Ledger Label Ans → Act Unit Label Ans → Prop}
    {P : Pool Unit Ledger Label Ans} {open_ : Except Exn (List ExchangeOrderReport)} {ack : Bool}
    (hstart : ok P (.start ())) (hok : ∀ x ∈ (P.restart () (ReconciliationService.run
      sampleConfig "periodic" ack).run.forget).scheduled (exchangeEnv (listing open_)) ()
        100, ok x.1 x.2) :
    Pool.Run (StateRow.WorkerProgram sampleConfig) ok P (thenRun P open_ ack) :=
  (Pool.run_restart () (.run _ _) hstart).trans (Pool.run_go_of_scheduled _ _ _ hok)

theorem run_haltedPool {ok : Pool Unit Ledger Label Ans → Act Unit Label Ans → Prop}
    (hstart : ok (.idle {}) (.start ())) (hok : ∀ x ∈ ((Pool.idle {}).restart ()
      (ReconciliationService.run sampleConfig "startup" false).run.forget).scheduled
        strayExchange () 100, ok x.1 x.2) :
    Pool.Run (StateRow.WorkerProgram sampleConfig) ok (.idle {}) haltedPool :=
  (Pool.run_restart () (.run _ _) hstart).trans (Pool.run_go_of_scheduled _ _ _ hok)

/-- The start of an acknowledged run. -/
def acknowledges : Act Unit Label Ans → Bool
  | .event _ (.step (.runStart ack _ _)) => ack
  | _ => false

theorem Acknowledged.any {tr : List (Act Unit Label Ans)} (h : Acknowledged tr) :
    tr.any acknowledges := by
  obtain ⟨later, between, earlier, reason, reason', rfl, -⟩ := h
  simp [acknowledges]

/-- After an aborted run a clean run makes a halted state HEALTHY, and nobody has acknowledged
anything. -/
theorem aborted_run_forgets_halt :
    Pool.Run (StateRow.WorkerProgram sampleConfig) (fun _ _ => True) (.idle {})
      haltedPool ∧
    status sampleConfig haltedPool.state = .halted ∧
    Pool.Run (StateRow.WorkerProgram sampleConfig) (fun _ _ => True) haltedPool
      forgottenHalt ∧
    status sampleConfig forgottenHalt.state = .healthy ∧
    ¬ ∃ tr, forgottenHalt.trace = tr ++ haltedPool.trace ∧ Acknowledged tr := by
  refine ⟨run_haltedPool trivial fun _ _ => trivial, by decide +kernel,
    (run_thenRun trivial fun _ _ => trivial).trans (run_thenRun trivial fun _ _ => trivial),
    by decide +kernel, ?_⟩
  rintro ⟨tr, htr, hack⟩
  have hany : forgottenHalt.trace.any acknowledges = false := by decide +kernel
  rw [htr, List.any_append, hack.any] at hany
  cases hany

/-- A clean run that nobody acknowledges stays HALTED; the acknowledged one after it does not. -/
theorem halt_acknowledged :
    ∃ tr, (thenRun (thenRun haltedPool (.ok []) false) (.ok []) true).trace =
      tr ++ haltedPool.trace ∧ Acknowledged tr :=
  halt_sticky (run_haltedPool (by decide) (by decide +kernel)) (by decide +kernel)
    ((run_thenRun (by decide +kernel) (by decide +kernel)).trans
      (run_thenRun (by decide +kernel) (by decide +kernel))) (by decide +kernel)

end HaltSticky

end CryptoBot
