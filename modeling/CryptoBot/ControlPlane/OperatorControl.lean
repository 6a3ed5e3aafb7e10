import CryptoBot.Application.Authority
import CryptoBot.ControlPlane.BotControl

/-!
# What an operator's command does to the orders

The operators at the desk and the processes of the engine as one system. A cycle asks the control
plane for the control state once, at its beginning; the answer is read from the row at some time
between the request and the response, and any command may commit before, between and after. The
heartbeats of the workers write the row as well, from a model that may be out of date.

An emergency stop that is overtaken by a resume from before it (`Desk.resume_overtakes_stop`) leaves
the bot enabled; no entry comes of it, since a cycle is told of the flag too, and clearing the flag
disables the bot.
-/

namespace CryptoBot

open Lib

/-- What `control` answers of the row. -/
def ControlFields.control (row : ControlFields) : Control :=
  ⟨row.enabled, row.emergencyStop, row.reconciliationAckToken⟩

/-- The `status` a heartbeat that reports `status` writes, by the bot as it was loaded. -/
def heartbeatStatus (b : ControlFields) (status : String) : String :=
  if status = "RUNNING" ∧ b.emergencyStop then "EMERGENCY_STOP"
  else if b.enabled then status else "PAUSED"

/-- The update of a heartbeat, which writes the columns that differ from the bot as it was loaded. -/
def ControlFields.heartbeat (row b : ControlFields) (status : String) : ControlFields :=
  if heartbeatStatus b status = b.status then row
  else { row with status := heartbeatStatus b status }

theorem ControlFields.heartbeat_control (row b : ControlFields) (status : String) :
    (row.heartbeat b status).control = row.control := by
  unfold heartbeat
  split <;> rfl

/-! ## What came after an emergency stop -/

namespace Desk

variable {υ : Type} [DecidableEq υ] {P P' : Desk υ} {e : DeskEvent υ}

/-- The stop has been cleared. -/
def Cleared (log : List (DeskEvent υ)) : Prop := ∃ j, .committed j .clearEmergencyStop ∈ log

/-- The stop has been cleared, and after that the bot has been resumed. -/
def Resumed (log : List (DeskEvent υ)) : Prop :=
  ∃ j k, [.committed k .resume, .committed j .clearEmergencyStop].Sublist log

/-- The row says no more than the commands since the last emergency stop allow. -/
structure Answerable (P : Desk υ) : Prop where
  cleared : P.row.emergencyStop = false → AfterStop P.log Cleared
  resumed : P.row.enabled = true → P.row.emergencyStop = false → AfterStop P.log Resumed

omit [DecidableEq υ] in
theorem Cleared.cons {log : List (DeskEvent υ)} (h : Cleared log) : Cleared (e :: log) := by
  obtain ⟨j, hj⟩ := h
  exact ⟨j, .tail _ hj⟩

omit [DecidableEq υ] in
theorem Resumed.cons {log : List (DeskEvent υ)} (h : Resumed log) : Resumed (e :: log) := by
  obtain ⟨j, k, hlog⟩ := h
  exact ⟨j, k, hlog.cons e⟩

omit [DecidableEq υ] in
theorem answerable_start {row : ControlFields} : Answerable (start row : Desk υ) := by
  have hnone {Q : List (DeskEvent υ) → Prop} : AfterStop [] Q := fun l₁ i l₂ h => by
    cases l₁ <;> cases h
  exact ⟨fun _ => hnone, fun _ _ => hnone⟩

omit [DecidableEq υ] in
/-- An event that is no commit. -/
theorem Answerable.quiet {requests : υ → Option ControlRequest} (hP : Answerable P)
    (he : ∀ i a, e ≠ .committed i a) :
    Answerable { P with requests := requests, log := e :: P.log } where
  cleared h := (hP.cleared h).later (fun _ => Cleared.cons) fun i => he i _
  resumed h h' := (hP.resumed h h').later (fun _ => Resumed.cons) fun i => he i _

/-- Whatever the check of a resume has seen: a stop keeps the flag set until it is cleared, and to
clear it disables the bot. -/
theorem Answerable.committed {i : υ} {r : ControlRequest} (hP : Answerable P) :
    Answerable (P.commit i r) := by
  obtain ⟨actor, action, model, checked⟩ := r
  have hcleared (hne : action ≠ .emergencyStop) (h : P.row.emergencyStop = false) :
      AfterStop (.committed i action :: P.log) Cleared :=
    (hP.cleared h).later (fun _ => Cleared.cons) fun j h => hne (DeskEvent.committed.inj h).2
  cases action with
  | pause => exact ⟨hcleared (fun h => by cases h), fun h => (by cases h)⟩
  | resume =>
    refine ⟨hcleared fun h => (by cases h), fun _ hflag => ?_⟩
    refine .cons (fun l₁ k l₂ hlog => ?_) fun k h => (by cases h)
    obtain ⟨j, hj⟩ := hP.cleared hflag l₁ k l₂ hlog
    exact ⟨j, i, (List.singleton_sublist.2 hj).cons_cons _⟩
  | emergencyStop => exact ⟨fun h => (by cases h), fun h => (by cases h)⟩
  | clearEmergencyStop =>
    exact ⟨fun _ => .cons (fun _ _ _ _ => ⟨i, .head _⟩) fun _ h => (by cases h), fun h => (by cases h)⟩
  | acknowledgeReconciliation token =>
    exact ⟨hcleared fun h => (by cases h), fun h h' =>
      (hP.resumed h h').later (fun _ => Resumed.cons) fun _ h => (by cases h)⟩

theorem Answerable.step (hP : Answerable P) (hs : Step P e P') : Answerable P' := by
  cases hs with
  | began i actor a => exact hP.quiet fun _ _ h => by cases h
  | refused hr h => exact hP.quiet fun _ _ h => by cases h
  | passed hr h => exact hP.quiet fun _ _ h => by cases h
  | committed hr h => exact hP.committed

omit [DecidableEq υ] in
/-- A heartbeat leaves what an operator controls alone. -/
theorem Answerable.row {row : ControlFields} (hP : Answerable P)
    (hrow : row.control = P.row.control) : Answerable { P with row } := by
  have henabled : row.enabled = P.row.enabled := congrArg Control.enabled hrow
  have hflag : row.emergencyStop = P.row.emergencyStop := congrArg Control.emergencyStop hrow
  exact ⟨fun h => hP.cleared (hflag.symm.trans h),
    fun h h' => hP.resumed (henabled.symm.trans h) (hflag.symm.trans h')⟩

end Desk

/-! ## The system -/

/-- The desk, the processes of the engine, the answers that are on their way to them, and the models
that heartbeats have loaded. -/
structure Floor (τ υ : Type) : Type 1 where
  desk : Desk υ
  engine : Pool τ Ledger Label Ans
  answers : τ → Option Control := fun _ => none
  models : List ControlFields := []

inductive FloorEvent (τ υ : Type)
  | desk (e : DeskEvent υ)
  | loaded
  | heartbeat (status : String)
  | read (i : τ)
  | engine (act : Act τ Label Ans)

namespace Floor

variable {τ υ : Type} [DecidableEq τ] [DecidableEq υ] (cfg : Config)

/-- Process `i` has asked for the control state. -/
def Asking (P : Floor τ υ) (i : τ) : Prop := ∃ k, P.engine.prog i = .call (.call .getControl) k

/-- Process `i` hears what became of its request, or is started anew. -/
def Settles (i : τ) : Act τ Label Ans → Prop
  | .start j => j = i
  | .event j (.call q _) => j = i ∧ q = .call .getControl
  | .event _ (.step _) => False

instance (i : τ) : DecidablePred (Settles i) := fun act => by
  unfold Settles
  split <;> infer_instance

/-- An answer reaches the process that asked for it, and none that was started after. -/
def answersAfter (act : Act τ Label Ans) (answers : τ → Option Control) : τ → Option Control :=
  fun i => if Settles i act then none else answers i

/-- What a process hears of the control state is what was read for it; a request may also fail. -/
def Heeds (P : Floor τ υ) (act : Act τ Label Ans) : Prop :=
  ∀ i control, act = .event i (.call (.call .getControl) (.ok control)) → P.answers i = some control

/-- One step: a request of an operator proceeds, a heartbeat loads the bot or writes, the control
plane reads the row for a process, or a process takes its next event or is started anew. -/
inductive Step (P : Floor τ υ) : FloorEvent τ υ → Floor τ υ → Prop
  | desk {e : DeskEvent υ} {desk : Desk υ} (hs : Desk.Step P.desk e desk) :
      Step P (.desk e) { P with desk }
  | loaded : Step P .loaded { P with models := P.desk.row :: P.models }
  | heartbeat {b : ControlFields} (status : String) (hb : b ∈ P.models) :
      Step P (.heartbeat status) { P with
        desk := { P.desk with row := P.desk.row.heartbeat b status } }
  | read {i : τ} (hi : P.Asking i) :
      Step P (.read i) { P with
        answers := Function.update P.answers i (some P.desk.row.control) }
  | engine {act : Act τ Label Ans} {engine : Pool τ Ledger Label Ans}
      (hs : Pool.Step (EngineProgram cfg fun _ => True) P.engine act engine) (hact : P.Heeds act) :
      Step P (.engine act) { P with engine, answers := answersAfter act P.answers }

/-- A run of the system. -/
abbrev Run : Floor τ υ → Floor τ υ → Prop := Runs (Step cfg) fun _ _ => True

/-- The system with a row and a ledger, before anything has happened. -/
def start (row : ControlFields) (s : Ledger) : Floor τ υ where
  desk := .start row
  engine := .idle s

/-! ## What was read for a process -/

variable {cfg} {row : ControlFields} {s : Ledger} {P P' : Floor τ υ} {i : τ}

/-- Since its last start the row was read for process `i`, in the state `P₁` of the run. -/
structure ReadAt (cfg : Config) (row : ControlFields) (s : Ledger) (P : Floor τ υ) (i : τ)
    (P₁ : Floor τ υ) : Prop where
  before : Run cfg (start row s) P₁
  asking : P₁.Asking i
  since : ∃ P₂, Step cfg P₁ (.read i) P₂ ∧ Run cfg P₂ P
  unstarted : ∃ tr, P.engine.trace = tr ++ P₁.engine.trace ∧ .start i ∉ tr

/-- What process `i` has heard of the control state, or is about to hear, was read for it since its
start. -/
structure Informed (cfg : Config) (row : ControlFields) (s : Ledger) (P : Floor τ υ) : Prop where
  answers : ∀ i control, P.answers i = some control →
    ∃ P₁, ReadAt cfg row s P i P₁ ∧ P₁.desk.row.control = control
  heard : ∀ i control, .call (.call .getControl) (.ok control) ∈ P.engine.hist i →
    ∃ P₁, ReadAt cfg row s P i P₁ ∧ P₁.desk.row.control = control

theorem ReadAt.step {e : FloorEvent τ υ} {P₁ : Floor τ υ} (h : ReadAt cfg row s P i P₁)
    (hs : Step cfg P e P') (he : e ≠ .engine (.start i)) : ReadAt cfg row s P' i P₁ := by
  obtain ⟨hbefore, hasking, ⟨P₂, hread, hsince⟩, tr, htr, hi⟩ := h
  refine ⟨hbefore, hasking, ⟨P₂, hread, hsince.tail trivial hs⟩, ?_⟩
  cases hs with
  | desk | loaded | heartbeat | read => exact ⟨tr, htr, hi⟩
  | @engine act engine hs hact =>
    refine ⟨act :: tr, ?_, ?_⟩
    · change engine.trace = _
      rw [hs.trace_eq, htr, List.cons_append]
    · rintro (_ | ⟨_, hmem⟩)
      · exact he rfl
      · exact hi hmem

theorem Informed.step {e : FloorEvent τ υ} (hrun : Run cfg (start row s) P)
    (hP : Informed cfg row s P) (hs : Step cfg P e P') : Informed cfg row s P' := by
  have hkeep {i : τ} {control : Control} (he : e ≠ .engine (.start i))
      (h : ∃ P₁, ReadAt cfg row s P i P₁ ∧ P₁.desk.row.control = control) :
      ∃ P₁, ReadAt cfg row s P' i P₁ ∧ P₁.desk.row.control = control := by
    obtain ⟨P₁, hread, hcontrol⟩ := h
    exact ⟨P₁, hread.step hs he, hcontrol⟩
  cases hs with
  | desk | loaded | heartbeat =>
    exact ⟨fun i c h => hkeep (fun h => by cases h) (hP.answers i c h),
      fun i c h => hkeep (fun h => by cases h) (hP.heard i c h)⟩
  | @read j hj =>
    refine ⟨fun i c h => ?_, fun i c h => hkeep (fun h => by cases h) (hP.heard i c h)⟩
    change Function.update P.answers j _ i = some c at h
    by_cases hij : i = j
    · subst hij
      rw [Function.update_self] at h
      refine ⟨P, ⟨hrun, hj, ⟨_, .read hj, .refl⟩, [], rfl, List.not_mem_nil⟩, ?_⟩
      exact Option.some.inj h
    · rw [Function.update_of_ne hij] at h
      exact hkeep (fun h => by cases h) (hP.answers i c h)
  | @engine act engine hs hact =>
    have hhist (i : τ) : engine.hist i = Pool.histAfter i act (P.engine.hist i) := hs.hist_eq i
    have hnone {i : τ} {c : Control} (h : answersAfter act P.answers i = some c) :
        act ≠ .start i ∧ P.answers i = some c := by
      unfold answersAfter at h
      split at h
      · cases h
      · next hset => exact ⟨fun hact => hset (by rw [hact]; rfl), h⟩
    refine ⟨fun i c h => ?_, fun i c h => ?_⟩
    · obtain ⟨hne, h⟩ := hnone h
      exact hkeep (fun he => hne (FloorEvent.engine.inj he)) (hP.answers i c h)
    · change _ ∈ engine.hist i at h
      rw [hhist] at h
      cases act with
      | start j =>
        rw [Pool.histAfter] at h
        split at h
        · cases h
        · next hji =>
          refine hkeep (fun he => hji ?_) (hP.heard i c h)
          cases he
          rfl
      | event j ev =>
        refine hkeep (fun he => by cases he) ?_
        rw [Pool.histAfter] at h
        split at h
        · next hji =>
          rcases List.mem_cons.1 h with rfl | h
          · subst hji
            exact hP.answers j c (hact j c rfl)
          · exact hP.heard i c h
        · exact hP.heard i c h

/-- The invariant: the row answers to the commands, the processes have heard what was read for them,
and the engine runs as it does alone. -/
structure Governed (cfg : Config) (row : ControlFields) (s : Ledger) (P : Floor τ υ) : Prop where
  desk : P.desk.Answerable
  informed : Informed cfg row s P
  engine : EngineRun cfg (.idle s) P.engine

theorem governed {P : Floor τ υ} (hrun : Run cfg (start row s) P) : Governed cfg row s P := by
  induction hrun with
  | refl =>
    refine ⟨Desk.answerable_start, ⟨fun i c h => ?_, fun i c h => ?_⟩, .refl⟩
    · cases h
    · cases h
  | @tail P P' hbefore h ih =>
    obtain ⟨e, -, hs⟩ := h
    have hinformed := ih.informed.step hbefore hs
    cases hs with
    | desk hs => exact ⟨ih.desk.step hs, hinformed, ih.engine⟩
    | loaded | read => exact ⟨ih.desk, hinformed, ih.engine⟩
    | heartbeat status hb =>
      exact ⟨ih.desk.row (ControlFields.heartbeat_control _ _ _), hinformed, ih.engine⟩
    | engine hs hact => exact ⟨ih.desk, hinformed, ih.engine.tail trivial hs⟩

/-- What a cycle was told of the control state is the row at a state of the run, after the commands
that had been committed by then. -/
theorem told {b : Briefing} {M : History Label Ans → Ledger → Prop}
    (hrun : Run cfg (start row s) P) (hb : CryptoBot.Instructed cfg M b (P.engine.hist i)) :
    ∃ P₁, ReadAt cfg row s P i P₁ ∧ P₁.desk.row.control = b.control ∧ P₁.desk.Answerable := by
  obtain ⟨hg, t, hb, hgate, hmarket, hsignal⟩ := hb.told
  obtain ⟨t', hopen⟩ := hgate.opened
  have hg : hg <:+ hb := List.IsSuffix.trans
    ⟨[.call (.call .balances) _, .step .commit, .call (.ambient .now) t,
      .call (.call (.symbolRules cfg.symbol)) _, .call (.call (.snapshot cfg.symbol)) _,
      .call (.ambient .now) _, .call (.ambient .now) _], rfl⟩ hmarket
  have hhist := ((hopen.trans hg).trans (List.suffix_cons _ _)).trans hsignal
  obtain ⟨P₁, hread, hcontrol⟩ := (governed hrun).informed.heard i b.control
    (hhist.subset (.tail _ (.head _)))
  exact ⟨P₁, hread, hcontrol, (governed hread.before).desk⟩

/-- In every run of the desk and the engine, whatever the operators and the heartbeats do beside it: a
process hands an ENTRY to the executor only after the row was read for it, since its start, when the
bot was enabled without an emergency stop, and when every emergency stop committed before had been
cleared and the bot resumed after that; and an EXIT only after the row was read for it when there was
no emergency stop, and every one before had been cleared. -/
theorem order_heeds_operators (hrun : Run cfg (start row s) P) {o : Order}
    (ho : AtSubmit P.engine i o) :
    (o.purpose = .entry → ∃ P₁, ReadAt cfg row s P i P₁ ∧ P₁.desk.row.enabled = true ∧
      P₁.desk.row.emergencyStop = false ∧ Desk.AfterStop P₁.desk.log Desk.Resumed) ∧
    (o.purpose = .exit → ∃ P₁, ReadAt cfg row s P i P₁ ∧ P₁.desk.row.emergencyStop = false ∧
      Desk.AfterStop P₁.desk.log Desk.Cleared) := by
  obtain ⟨b, hb, hbacked⟩ := order_authorised (governed hrun).engine ho
  obtain ⟨P₁, hread, hcontrol, hdesk⟩ := told hrun hb
  have henabled : P₁.desk.row.enabled = b.control.enabled := congrArg Control.enabled hcontrol
  have hflag : P₁.desk.row.emergencyStop = b.control.emergencyStop :=
    congrArg Control.emergencyStop hcontrol
  refine ⟨fun hpurpose => ?_, fun hpurpose => ?_⟩
  · rw [hpurpose] at hbacked
    obtain ⟨-, hon, hstop, -⟩ := hbacked
    exact ⟨P₁, hread, henabled.trans hon, hflag.trans hstop,
      hdesk.resumed (henabled.trans hon) (hflag.trans hstop)⟩
  · rw [hpurpose] at hbacked
    obtain ⟨-, hstop, -⟩ := hbacked
    exact ⟨P₁, hread, hflag.trans hstop, hdesk.cleared (hflag.trans hstop)⟩

/-! ## An entry after an emergency stop -/

/-- The event is an answer of the control state. -/
def tellsControl : Act τ Label Ans → Bool
  | .event _ (.call (.call .getControl) _) => true
  | _ => false

/-- The engine goes on, while nobody hears of the control state. -/
theorem run_engine (cfg : Config) {engine : Pool τ Ledger Label Ans}
    (hrun : Pool.Run (EngineProgram cfg fun _ => True) (fun _ act => tellsControl act = false)
      P.engine engine) :
    ∃ P', Run cfg P P' ∧ P'.engine = engine ∧ P'.desk = P.desk := by
  induction hrun with
  | refl => exact ⟨P, .refl, rfl, rfl⟩
  | tail _ h ih =>
    obtain ⟨P₁, hrun₁, rfl, hdesk⟩ := ih
    obtain ⟨act, hact, hs⟩ := h
    refine ⟨_, hrun₁.tail trivial (.engine hs ?_), rfl, hdesk⟩
    rintro j c rfl
    cases hact

theorem run_schedule (cfg : Config) (P : Floor τ υ) (env : Prog.Env Label Ans) (i : τ) (n : Nat)
    (hquiet : ((P.engine.scheduled env i n).any fun x => tellsControl x.2) = false) :
    ∃ P', Run cfg P P' ∧ P'.engine = P.engine.go env i n ∧ P'.desk = P.desk :=
  run_engine cfg (Pool.run_go_of_scheduled env i n fun x hx => by
    simpa using List.any_eq_false.1 hquiet x hx)

/-- An operator's command that the check passes, from its beginning to its commit. -/
theorem run_command (cfg : Config) (P : Floor τ υ) (j : υ) (actor : ControlActor)
    {a : ControlAction} (ha : a.refused P.desk.row = false) :
    ∃ P', Run cfg P P' ∧ P'.desk.row = a.apply P.desk.row ∧
      P'.desk.log = .committed j a :: .passed j :: .began j a :: P.desk.log ∧
      P'.engine = P.engine := by
  let r : ControlRequest := ⟨actor, a, P.desk.row, false⟩
  have hbegan : Run cfg P _ := Runs.refl.tail trivial (.desk (.began j actor a))
  have hpassed := hbegan.tail trivial
    (.desk (.passed (i := j) (r := r) (Function.update_self ..) ha))
  exact ⟨_, hpassed.tail trivial
    (.desk (.committed (i := j) (r := { r with checked := true }) (Function.update_self ..) rfl)),
    rfl, rfl, rfl⟩

/-- The control state is read for a process that has asked for it, and the process hears of it. -/
theorem run_told (cfg : Config) {k : Except Exn Control → Prog Ledger Label Ans PUnit}
    (hi : P.engine.prog i = .call (.call .getControl) k) :
    ∃ P', Run cfg P P' ∧ P'.desk = P.desk ∧ P'.engine = P.engine.advance i
      (.call (.call .getControl) (.ok P.desk.row.control)) (k (.ok P.desk.row.control))
      P.engine.state := by
  have hread : Run cfg P _ := Runs.refl.tail trivial (.read ⟨k, hi⟩)
  refine ⟨_, hread.tail trivial (.engine (.call hi (.ok P.desk.row.control)) ?_), rfl, rfl⟩
  rintro j c h
  cases h
  exact Function.update_self ..

/-- The answers on a market that says BUY. -/
def buying : Prog.Env Label Ans := exchangeEnv (marketAnswers .buy (listing (.ok [])))

/-- A cycle that has asked for the control state. -/
def askingEngine : Pool Bool Ledger Label Ans :=
  ((Pool.idle healthyLedger).restart false (TradingCycle.runOnce sampleConfig).run.forget).go
    buying false 1

/-- The cycle has been told that the bot is enabled. -/
def toldEngine : Pool Bool Ledger Label Ans := askingEngine.go buying false 1

/-- The cycle at its entry. -/
def enteringEngine : Pool Bool Ledger Label Ans := toldEngine.go buying false 25

theorem askingEngine_prog :
    ∃ k, askingEngine.prog false = .call (.call .getControl) k := ⟨_, rfl⟩

/-- A bot that was stopped, cleared and resumed enters. -/
theorem entry_after_release : ∃ (P : Floor Bool Bool) (o : Order), AtSubmit P.engine false o ∧
    o.purpose = .entry ∧ .committed true .emergencyStop ∈ P.desk.log ∧
    ∃ P₁, ReadAt sampleConfig Desk.newBot healthyLedger P false P₁ ∧
      P₁.desk.row.enabled = true ∧ P₁.desk.row.emergencyStop = false ∧
      Desk.AfterStop P₁.desk.log Desk.Resumed := by
  obtain ⟨P₁, h₁, hrow₁, hlog₁, hengine₁⟩ := run_command sampleConfig
    (start Desk.newBot healthyLedger : Floor Bool Bool) true Desk.admin
    (a := .emergencyStop) rfl
  obtain ⟨P₂, h₂, hrow₂, hlog₂, hengine₂⟩ := run_command sampleConfig P₁ true Desk.admin
    (a := .clearEmergencyStop) rfl
  obtain ⟨P₃, h₃, hrow₃, hlog₃, hengine₃⟩ := run_command sampleConfig P₂ false Desk.telegram
    (a := .resume) (by rw [hrow₂]; rfl)
  have hcontrol : P₃.desk.row.control = ⟨true, false, none⟩ := by
    rw [hrow₃, hrow₂, hrow₁]
    rfl
  have hengine : P₃.engine = .idle healthyLedger := hengine₃.trans (hengine₂.trans hengine₁)
  obtain ⟨P₄, h₄, hengine₄, hdesk₄⟩ := run_engine sampleConfig (P := P₃)
    (Pool.run_restart false .runOnce rfl)
  rw [hengine] at hengine₄
  obtain ⟨P₅, h₅, hengine₅, hdesk₅⟩ := run_schedule sampleConfig P₄ buying false 1
    (by rw [hengine₄]; decide +kernel)
  replace hengine₅ : P₅.engine = askingEngine := by rw [hengine₅, hengine₄]; rfl
  obtain ⟨k, hk⟩ := askingEngine_prog
  obtain ⟨P₆, h₆, hdesk₆, hengine₆⟩ := run_told sampleConfig (P := P₅) (i := false) (k := k)
    (by rw [hengine₅]; exact hk)
  replace hengine₆ : P₆.engine = toldEngine := by
    rw [hengine₆, hdesk₅, hdesk₄, hcontrol, hengine₅]
    unfold toldEngine Pool.go
    rw [hk]
    rfl
  obtain ⟨P₇, h₇, hengine₇, hdesk₇⟩ := run_schedule sampleConfig P₆ buying false 25
    (by rw [hengine₆]; decide +kernel)
  replace hengine₇ : P₇.engine = enteringEngine := by rw [hengine₇, hengine₆]; rfl
  have hentry : (submitting? (enteringEngine.prog false)).map (·.purpose) = some .entry := by
    decide +kernel
  obtain ⟨o, ho, hpurpose⟩ := Option.map_eq_some_iff.1 hentry
  rw [← hengine₇] at ho
  have hrun := (((((h₁.trans h₂).trans h₃).trans h₄).trans h₅).trans h₆).trans h₇
  refine ⟨P₇, o, ho, hpurpose, ?_, (order_heeds_operators hrun ho).1 hpurpose⟩
  rw [hdesk₇, hdesk₆, hdesk₅, hdesk₄, hlog₃, hlog₂, hlog₁]
  decide

end Floor

end CryptoBot
