import CryptoBot.Application.RunRules
import CryptoBot.Lib.Pool

/-!
# The reconciliation row under concurrent writers

`set_state`, the heartbeat, the stream callbacks and the operator's acknowledgement all read the
reconciliation row and write it back, in different threads of the worker and outside any
transaction. A `set_state` replaces status and reason whatever it read; the others write back what
they read. So the stored status and reason are those of the most recent `set_state` as long as none
of them falls between the read and the write of an update of another thread.
-/

namespace CryptoBot

open Lib

namespace StateRow

variable (cfg : Config)

/-- The stored status and reason. -/
def stored (s : Ledger) : ReconciliationStatus × String :=
  ((s.getReconState cfg.bot).status, (s.getReconState cfg.bot).reason)

/-- A row without the time stamps the heartbeat and the stream events write. -/
def strip (st : ReconciliationState) : ReconciliationState :=
  { st with updatedAt := none, lastWsEventAt := none }

/-- The stored row without those time stamps. -/
def unstamped (s : Ledger) : ReconciliationState := strip (s.getReconState cfg.bot)

/-- The most recent `set_state` of a trace. -/
def latest {τ : Type} : List (Act τ Label Ans) → Option (ReconciliationStatus × String)
  | [] => none
  | .event _ (.step l) :: tr => l.written.or (latest tr)
  | _ :: tr => latest tr

/-- Whether a process has read the row for an update and not yet written it. -/
def rowPending : History Label Ans → Bool
  | [] => false
  | .step .rowRead :: _ => true
  | .step .stampWrite :: _ | .step .flagWrite :: _ => false
  | _ :: h => rowPending h

/-- No `set_state`, and no other write of a flag, falls between the read and the write of an update
of another process. -/
def Undisturbed {τ : Type} (P : Pool τ Ledger Label Ans) (act : Act τ Label Ans) : Prop :=
  ∀ i l, act = .event i (.step l) → l.written.isSome ∨ l = .flagWrite →
    ∀ j, j ≠ i → rowPending (P.hist j) = false

/-- What the threads of the worker run. -/
inductive WorkerProgram : Prog Ledger Label Ans PUnit → Prop
  | run (reason : String) (operatorAck : Bool) :
      WorkerProgram (ReconciliationService.run cfg reason operatorAck).run.forget
  | reconcile (reason : String) (operatorAck : Bool) :
      WorkerProgram (ReconciliationWorker.reconcile cfg reason operatorAck).run.forget
  | touch : WorkerProgram (ReconciliationService.touch cfg).run.forget
  | onState (state : ReconciliationWorker.StreamState) (detail : String) :
      WorkerProgram (ReconciliationWorker.onState cfg state detail).run.forget
  | onEvent (ev : StreamEvent) : WorkerProgram (ReconciliationWorker.onEvent cfg ev).run.forget
  | pollControl (lastAck : Option String) :
      WorkerProgram (ReconciliationWorker.pollControl cfg lastAck).run.forget
  | start : WorkerProgram (ReconciliationWorker.start cfg).run.forget

/-! ## The contract of a writer -/

/-- A process relies on the row, but for its time stamps, between the read and the write of its own
update. It writes the status and the reason of a `set_state` and leaves both alone otherwise, and
with a time stamp it changes nothing else. -/
def contract : Contract Ledger Label Ans where
  rely h s s' := rowPending h → unstamped cfg s' = unstamped cfg s
  ans _ _ _ _ := True
  step _ l s s' := (∀ w, l.written = some w → stored cfg s' = w) ∧
    (l.written = none → stored cfg s' = stored cfg s ∧
      (l ≠ .flagWrite → unstamped cfg s' = unstamped cfg s))
  guard _ _ _ := True

variable {cfg}

theorem contract_stable : (contract cfg).Stable fun _ => True where
  refl _ _ _ _ := rfl
  trans h h' hp := (h' hp).trans (h hp)

theorem stored_of_unstamped {s s' : Ledger} (h : unstamped cfg s' = unstamped cfg s) :
    stored cfg s' = stored cfg s :=
  Prod.ext (congrArg ReconciliationState.status h :) (congrArg ReconciliationState.reason h :)

end StateRow

/-! ## Programs that leave the row alone -/

theorem ExchangeMove.reconState {cfg : Config} {s s' : Ledger} (h : ExchangeMove cfg s s') :
    s'.reconState = s.reconState := by
  induction h with
  | keep h => exact (congrArg Ledger.reconState h :)
  | change _ hr => exact hr.reconState
  | fill h => exact (congrArg Ledger.reconState h.rest :)
  | seq _ _ ih ih' => exact ih'.trans ih

theorem Quiet.reconState {cfg : Config} {l : Label} {s s' : Ledger} (h : Quiet cfg l s s') :
    s'.reconState = s.reconState := by
  obtain ⟨hl, h⟩ := h
  cases h with
  | read => rfl
  | exchange h => exact h.2.reconState
  | place h => exact (congrArg Ledger.reconState h.rest :)
  | position _ h => exact (congrArg Ledger.reconState h.rest :)
  | recon hw => rw [hl] at hw; cases hw

namespace StateRow

variable {cfg : Config}

theorem written_of_not_writesRow {l : Label} (h : l.writesRow = false) :
    l.written = none ∧ l ≠ .flagWrite := by
  cases l <;> first | (cases h; done) | exact ⟨rfl, nofun⟩

theorem quiet_step {h : History Label Ans} {l : Label} {s s' : Ledger} (hq : Quiet cfg l s s') :
    (contract cfg).step h l s s' := by
  have hrow : s'.getReconState cfg.bot = s.getReconState cfg.bot :=
    Ledger.getReconState_congr hq.reconState cfg.bot
  obtain ⟨hnone, -⟩ := written_of_not_writesRow hq.1
  refine ⟨fun w hw => absurd (hnone.symm.trans hw) nofun, fun _ => ⟨?_, fun _ => ?_⟩⟩
  · rw [stored, stored, hrow]
  · rw [unstamped, unstamped, hrow]

theorem quiet_safe {α : Type} {p : Engine α} (hp : p.Within (Quiet cfg)) :
    p.Safe (contract cfg) :=
  Proc.safe_of_within hp (fun _ => quiet_step) fun _ _ _ => trivial

theorem admits : Admits cfg (contract cfg) fun _ _ => True where
  rely _ _ := trivial
  step _ _ hq := ⟨quiet_step hq.quiet, trivial⟩
  call _ _ := ⟨trivial, fun _ _ => trivial⟩

/-! ## Programs that write the row -/

theorem saveReconState_ok {st st' : ReconciliationState} {bot : String} {now : Time} {s s' : Ledger}
    (hbot : st.bot = bot) (h : Store.saveReconState st now s = .ok (st', s')) :
    s'.getReconState bot = { st with updatedAt := some now } := by
  subst hbot
  cases h
  exact @Ledger.getReconState_update s _ { st with updatedAt := some now } rfl

/-- A `set_state` writes its status and its reason, whatever it has read. -/
theorem setState_safe {l : Label} {status : ReconciliationStatus} {reason : String}
    {success : Bool} {ws : Option Bool} (hl : l.written = some (status, reason)) :
    (ReconciliationService.setState cfg l status reason success ws).Safe (contract cfg) := by
  intro h s _
  refine (Proc.wp_bind _ _ _ _ _).2 ((wp_query _ _).2 fun s₁ _ =>
    ⟨⟨nofun, fun _ => ⟨rfl, fun _ => rfl⟩⟩, ?_⟩)
  refine (Proc.wp_bind _ _ _ _ _).2 ((wp_clockNow _).2 fun s₂ _ => ⟨trivial, fun now _ => ?_⟩)
  refine (Proc.wp_bind _ _ _ _ _).2 (wp_transaction fun s₃ _ => ⟨fun st' s₄ htx => ⟨⟨?_, ?_⟩,
    trivial⟩, nofun⟩)
  · rintro w hw
    rw [hl] at hw
    cases hw
    rw [stored, saveReconState_ok (by simp) htx]
  · intro hn
    rw [hl] at hn
    cases hn

/-- An update of the row keeps what it does not mean to change, because nobody else has written it
since it was read. -/
theorem updateRow_safe {l : Label} {f : Time → ReconciliationState → ReconciliationState}
    (hl : l = .stampWrite ∨ l = .flagWrite) (hbot : ∀ now st, (f now st).bot = st.bot)
    (hstatus : ∀ now st, (f now st).status = st.status ∧ (f now st).reason = st.reason)
    (hstamp : l = .stampWrite → ∀ now st, strip (f now st) = strip st) :
    (ReconciliationWorker.updateRow cfg l f).Safe (contract cfg) := by
  intro h s _
  refine (Proc.wp_bind _ _ _ _ _).2 ((wp_query _ _).2 fun s₁ _ =>
    ⟨⟨nofun, fun _ => ⟨rfl, fun _ => rfl⟩⟩, ?_⟩)
  refine (Proc.wp_bind _ _ _ _ _).2 ((wp_clockNow _).2 fun s₂ h₂ => ⟨trivial, fun now _ => ?_⟩)
  refine (Proc.wp_bind _ _ _ _ _).2 (wp_transaction fun s₃ h₃ => ⟨fun st' s₄ htx => ⟨⟨?_, ?_⟩,
    trivial⟩, nofun⟩)
  · rcases hl with rfl | rfl <;> exact nofun
  · intro _
    -- the row is pending: what was read is what is stored, but for the time stamps
    have hread : unstamped cfg s₃ = unstamped cfg s₁ := (h₃ rfl).trans (h₂ rfl)
    have hrow : s₄.getReconState cfg.bot = { f now (s₁.getReconState cfg.bot) with
        updatedAt := some now } := saveReconState_ok (by simp [hbot]) htx
    refine ⟨?_, fun hne => ?_⟩
    · rw [stored_of_unstamped hread, stored, stored, hrow]
      exact Prod.ext (hstatus _ _).1 (hstatus _ _).2
    · rw [hread, unstamped, hrow]
      exact hstamp (hl.resolve_right hne) _ _

theorem touch_safe : (ReconciliationService.touch cfg).Safe (contract cfg) :=
  updateRow_safe (f := fun _ st => st) (.inl rfl) (fun _ _ => rfl) (fun _ _ => ⟨rfl, rfl⟩)
    fun _ _ _ => rfl

section
open ReconciliationService ReconciliationWorker

theorem run_safe {reason : String} {ack : Bool} :
    (ReconciliationService.run cfg reason ack).Safe (contract cfg) :=
  admits.run_keeps setState_safe (quiet_safe rebuild_quiet)

theorem reconcile_safe {reason : String} {ack : Bool} :
    (reconcile cfg reason ack).Safe (contract cfg) :=
  run_safe.bind fun _ => admits.ask_keeps.bind fun _ =>
    .ite ((setState_safe rfl).bind fun _ => Proc.keeps_pure _) (Proc.keeps_pure _)

theorem onState_safe {state : StreamState} {detail : String} :
    (onState cfg state detail).Safe (contract cfg) := by
  cases state with
  | connecting =>
    exact (admits.query_keeps _).bind fun _ => .ite (setState_safe rfl) (Proc.keeps_pure _)
  | disconnected =>
    exact (admits.query_keeps _).bind fun _ => .ite (setState_safe rfl) (setState_safe rfl)
  | subscribed =>
    exact (updateRow_safe (.inr rfl) (by intros; rfl) (by intros; exact ⟨rfl, rfl⟩)
      nofun).bind fun _ =>
      reconcile_safe.bind fun _ => Proc.keeps_pure _

theorem onEvent_safe {ev : StreamEvent} : (onEvent cfg ev).Safe (contract cfg) :=
  (admits.keeps handle_exchange).bind fun _ =>
    (updateRow_safe (.inl rfl) (by intros; rfl) (by intros; exact ⟨rfl, rfl⟩) (by intros; rfl)).bind
      fun _ => Proc.keeps_pure _

theorem pollControl_safe {last : Option String} : (pollControl cfg last).Safe (contract cfg) := by
  refine (Proc.Keeps.attempt admits.ask_keeps).bind fun r => ?_
  cases r with
  | error e => exact Proc.keeps_pure _
  | ok control =>
    exact .ite ((Proc.Keeps.attempt (reconcile_safe.bind fun _ =>
      updateRow_safe (.inr rfl) (by intros; rfl) (by intros; exact ⟨rfl, rfl⟩) nofun)).bind
        fun _ => Proc.keeps_pure _) (Proc.keeps_pure _)

theorem start_safe : (start cfg).Safe (contract cfg) :=
  (admits.query_keeps _).bind fun _ => .ite (setState_safe rfl) (Proc.keeps_pure _)

end

/-- Every thread of the worker keeps the contract. -/
theorem WorkerProgram.sound {p : Prog Ledger Label Ans PUnit} (hp : WorkerProgram cfg p)
    (s : Ledger) : p.wp (contract cfg) (fun _ _ _ => True) [] s := by
  cases hp with
  | run => exact Prog.wp_forget (run_safe [] s trivial)
  | reconcile => exact Prog.wp_forget (reconcile_safe [] s trivial)
  | touch => exact Prog.wp_forget (touch_safe [] s trivial)
  | onState => exact Prog.wp_forget (onState_safe [] s trivial)
  | onEvent => exact Prog.wp_forget (onEvent_safe [] s trivial)
  | pollControl => exact Prog.wp_forget (pollControl_safe [] s trivial)
  | start => exact Prog.wp_forget (start_safe [] s trivial)

/-! ## No lost verdict -/

theorem latest_cons_of_ne {τ : Type} {act : Act τ Label Ans} {tr : List (Act τ Label Ans)}
    (h : ∀ i l, act ≠ .event i (.step l)) : latest (act :: tr) = latest tr := by
  cases act with
  | start i => rfl
  | event i e =>
    cases e with
    | step l => exact absurd rfl (h i l)
    | call q a => rfl

theorem undisturbed_start {τ : Type} {P : Pool τ Ledger Label Ans} (i : τ) :
    Undisturbed P (.start i) := by
  rintro j l ⟨⟩

section
variable {τ : Type} [DecidableEq τ] {P P' : Pool τ Ledger Label Ans} {act : Act τ Label Ans}

/-- An undisturbed step keeps every thread's contract, its own and that of the others. -/
theorem step_sound (hP : Pool.Sound (contract cfg) P) (hok : Undisturbed P act)
    (hs : Pool.Step (WorkerProgram cfg) P act P') :
    Pool.Sound (contract cfg) P' ∧
      ((∃ i l, act = .event i (.step l) ∧
        (contract cfg).step (P.hist i) l P.state P'.state) ∨
      ((∀ i l, act ≠ .event i (.step l)) ∧ P'.state = P.state)) := by
  rcases hP.step_cases contract_stable trivial hs with ⟨i, l, rfl, -, hstep, hsound⟩ |
    ⟨i, q, a, rfl, hst, -, -, hsound⟩ | ⟨i, p, rfl, hp, hst, -, hsound⟩
  · refine ⟨hsound fun j hj hpend => ?_, .inl ⟨i, l, rfl, hstep⟩⟩
    have hquiet : ¬ (l.written.isSome ∨ l = .flagWrite) := fun hw => by
      rw [hok i l rfl hw j hj] at hpend
      cases hpend
    have hnone : l.written = none := by simpa using (not_or.1 hquiet).1
    exact (hstep.2 hnone).2 (not_or.1 hquiet).2
  · exact ⟨hsound trivial, .inr ⟨by rintro _ _ ⟨⟩, hst⟩⟩
  · exact ⟨hsound (hp.sound _), .inr ⟨by rintro _ _ ⟨⟩, hst⟩⟩

/-- In every interleaving of the worker's threads in which no `set_state` falls between the read and
the write of another thread's update of the row, the stored status and reason are those of the most
recent `set_state`, and a heartbeat or a stream event changes its time stamps only. -/
theorem stored_eq_latest {s : Ledger}
    (hrun : Pool.Run (WorkerProgram cfg) Undisturbed (.idle s) P) :
    stored cfg P.state = (latest P.trace).getD (stored cfg s) ∧
    ∀ {act : Act τ Label Ans} {P' : Pool τ Ledger Label Ans}, Undisturbed P act →
      Pool.Step (WorkerProgram cfg) P act P' → ∀ i, act = .event i (.step .stampWrite) →
      unstamped cfg P'.state = unstamped cfg P.state := by
  have hinv : Pool.Sound (contract cfg) P ∧
      stored cfg P.state = (latest P.trace).getD (stored cfg s) := by
    refine hrun.invariant (I := fun P => Pool.Sound (contract cfg) P ∧
      stored cfg P.state = (latest P.trace).getD (stored cfg s)) ?_ ⟨Pool.sound_idle _ _, rfl⟩
    rintro P act P' ⟨hP, hstored⟩ hok hs
    obtain ⟨hP', ⟨i, l, rfl, hwritten, hkept⟩ | ⟨hne, hst⟩⟩ := step_sound hP hok hs
    · refine ⟨hP', ?_⟩
      rw [hs.trace_eq, latest]
      cases hl : l.written with
      | some w => exact hwritten w hl
      | none => exact (hkept hl).1.trans hstored
    · exact ⟨hP', by rw [hs.trace_eq, latest_cons_of_ne hne, hst, hstored]⟩
  refine ⟨hinv.2, fun hok hs i hact => ?_⟩
  subst hact
  obtain ⟨-, ⟨j, l, he, -, hkept⟩ | ⟨hne, -⟩⟩ := step_sound hinv.1 hok hs
  · cases he
    exact (hkept rfl).2 nofun
  · exact absurd rfl (hne i _)

/-- While no other thread is in the middle of an update, a thread may run on. -/
theorem run_go_undisturbed {start : Prog Ledger Label Ans PUnit → Prop} (env : Prog.Env Label Ans)
    {i : τ} (n : Nat) (h : ∀ j, j ≠ i → rowPending (P.hist j) = false) :
    Pool.Run start Undisturbed P (P.go env i n) := by
  refine Pool.run_go (I := fun P => ∀ j, j ≠ i → rowPending (P.hist j) = false) env i
    (fun {P e p s} h j hj => ?_) (fun {P e} h k l he _ j hj => ?_) n h
  · rw [Pool.advance]
    simpa [Function.update_of_ne hj] using h j hj
  · cases he
    exact h j hj

end

/-! ## A heartbeat over a verdict -/

/-- A ledger whose last verdict was HEALTHY. -/
def healthyLedger : Ledger :=
  { reconState := fun _ => some { bot := "default", status := .healthy, reason := "reconciled" } }

/-- The heartbeat (process `false`) has read the row; a run of the worker (process `true`) finds the
stray order and halts; then the heartbeat writes. -/
def heartbeatOverHalt : Pool Bool Ledger Label Ans :=
  let cfg := sampleConfig
  let P₁ := ((Pool.idle healthyLedger).restart false (ReconciliationService.touch cfg).run.forget).go
    strayExchange false 1
  let P₂ := (P₁.restart true (ReconciliationService.run cfg "periodic" false).run.forget).go
    strayExchange true 100
  P₂.go strayExchange false 100

/-- The heartbeat overwrites the HALTED verdict with the HEALTHY status it read before. -/
theorem heartbeat_overwrites_halt :
    Pool.Run (WorkerProgram sampleConfig) (fun _ _ => True) (.idle healthyLedger)
      heartbeatOverHalt ∧
    latest heartbeatOverHalt.trace = some (.halted, "UNKNOWN_BOT_ORDER") ∧
    stored sampleConfig heartbeatOverHalt.state = (.healthy, "reconciled") := by
  refine ⟨?_, by decide +kernel, by decide +kernel⟩
  exact (Pool.run_restart false .touch trivial).trans <| (Pool.run_go_any _ _ _ _).trans <|
    (Pool.run_restart true (.run _ _) trivial).trans <| (Pool.run_go_any _ _ _ _).trans <|
    Pool.run_go_any _ _ _ _

/-- A run of the worker that halts, and then a heartbeat up to its write. -/
def heartbeatAfterHalt : Pool Bool Ledger Label Ans :=
  let cfg := sampleConfig
  let P₁ := ((Pool.idle healthyLedger).restart true
    (ReconciliationService.run cfg "periodic" false).run.forget).go strayExchange true 100
  (P₁.restart false (ReconciliationService.touch cfg).run.forget).go strayExchange false 2

/-- A heartbeat that has read the row and the clock writes next. -/
theorem heartbeat_writes (cfg : Config) (env : Prog.Env Label Ans)
    (P : Pool Bool Ledger Label Ans) :
    let P := (P.restart false (ReconciliationService.touch cfg).run.forget).go env false 2
    ∃ P', Pool.Step (WorkerProgram cfg) P (.event false (.step .stampWrite)) P' :=
  ⟨_, .atomic rfl⟩

theorem halt_survives_heartbeat :
    stored sampleConfig heartbeatAfterHalt.state = (.halted, "UNKNOWN_BOT_ORDER") ∧
    ∃ P', Pool.Step (WorkerProgram sampleConfig) heartbeatAfterHalt
        (.event false (.step .stampWrite)) P' ∧
      unstamped sampleConfig P'.state =
        unstamped sampleConfig heartbeatAfterHalt.state := by
  have hrun : Pool.Run (WorkerProgram sampleConfig) Undisturbed (.idle healthyLedger)
      heartbeatAfterHalt :=
    (Pool.run_restart true (.run _ _) (undisturbed_start _)).trans <|
      (run_go_undisturbed _ _ (by decide)).trans <|
      (Pool.run_restart false .touch (undisturbed_start _)).trans <|
      run_go_undisturbed _ _ (by decide +kernel)
  obtain ⟨P', hs⟩ := heartbeat_writes sampleConfig strayExchange _
  exact ⟨(stored_eq_latest hrun).1.trans (by decide +kernel), P', hs,
    (stored_eq_latest hrun).2 (by rintro i l ⟨⟩ (h | h) <;> cases h) hs _ rfl⟩

end StateRow

end CryptoBot
