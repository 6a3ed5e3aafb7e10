import CryptoBot.Lib.Runs
import Mathlib.Data.List.Sublists
import Mathlib.Logic.Function.Basic

/-!
# Operator control

`BotControlService` under any number of operators. A request loads the bot, `resume` looks at the
emergency flag of what was loaded, and `change` writes in a transaction of its own, which refreshes
the bot for the audit record only. A resume that was begun before an emergency stop commits after it.
-/

namespace CryptoBot

open Lib

/-- `FIELDS`, the columns an operator controls. -/
structure ControlFields where
  enabled : Bool
  emergencyStop : Bool
  status : String
  reconciliationAckToken : Option String
deriving DecidableEq

/-- `ControlActor`, without what identifies the browser. -/
structure ControlActor where
  actor : String
  channel : String
deriving DecidableEq

/-- The actions of `BotControlService`; the token of an acknowledgement is a new one. -/
inductive ControlAction
  | pause | resume | emergencyStop | clearEmergencyStop
  | acknowledgeReconciliation (token : String)
deriving DecidableEq

namespace ControlAction

/-- `$action`. -/
def name : ControlAction → String
  | pause => "pause"
  | resume => "resume"
  | emergencyStop => "emergency_stop"
  | clearEmergencyStop => "clear_emergency_stop"
  | acknowledgeReconciliation _ => "acknowledge_reconciliation_halt"

/-- `$message`. -/
def message : ControlAction → String
  | pause => "Trading paused: no new entries."
  | resume => "Trading resumed."
  | emergencyStop =>
    "Emergency stop engaged: no entries, no strategy exits (stop-loss protection stays active)."
  | clearEmergencyStop => "Emergency stop cleared; bot remains paused."
  | acknowledgeReconciliation _ =>
    "Acknowledged. The engine will re-run reconciliation and only resume if it is clean."

/-- `$changes`, written to a row. -/
def apply (row : ControlFields) : ControlAction → ControlFields
  | pause => { row with enabled := false, status := "PAUSED" }
  | resume => { row with enabled := true, status := "RUNNING" }
  | emergencyStop => { row with enabled := false, emergencyStop := true, status := "EMERGENCY_STOP" }
  | clearEmergencyStop => { row with emergencyStop := false, enabled := false, status := "PAUSED" }
  | acknowledgeReconciliation token => { row with reconciliationAckToken := some token }

/-- The check of `resume`, on the model it was given. -/
def refused (model : ControlFields) (a : ControlAction) : Bool :=
  decide (a = resume) && model.emergencyStop

end ControlAction

/-- A row of `audit_logs`. -/
structure AuditEntry where
  actor : ControlActor
  action : String
  before : ControlFields
  after : ControlFields
deriving DecidableEq

/-- A row of `bot_events`. -/
structure ControlEvent where
  eventType : String
  message : String
deriving DecidableEq

/-- A request under way: the loaded model, and whether the check has passed. -/
structure ControlRequest where
  actor : ControlActor
  action : ControlAction
  model : ControlFields
  checked : Bool
deriving DecidableEq

/-- What happens at the desk. -/
inductive DeskEvent (τ : Type)
  | began (i : τ) (a : ControlAction)
  | refused (i : τ)
  | passed (i : τ)
  | committed (i : τ) (a : ControlAction)
deriving DecidableEq

/-- The committed row with its audit and its events, the requests under way and what has happened,
the latest first. -/
structure Desk (τ : Type) where
  row : ControlFields
  audit : List AuditEntry := []
  events : List ControlEvent := []
  requests : τ → Option ControlRequest := fun _ => none
  log : List (DeskEvent τ) := []

namespace Desk

variable {τ : Type} [DecidableEq τ]

/-- The transaction of `change`. -/
def commit (P : Desk τ) (i : τ) (r : ControlRequest) : Desk τ where
  row := r.action.apply P.row
  audit := { actor := r.actor, action := r.action.name, before := P.row
             after := r.action.apply P.row } :: P.audit
  events :=
    { eventType := "CONTROL_" ++ r.action.name.toUpper
      message := s!"{r.action.message} (by {r.actor.actor} via {r.actor.channel})" } :: P.events
  requests := Function.update P.requests i none
  log := .committed i r.action :: P.log

/-- A step: a request is begun, in place of one that may have been given up, is refused or passed by
the check, or commits. -/
inductive Step : Desk τ → DeskEvent τ → Desk τ → Prop
  | began {P : Desk τ} (i : τ) (actor : ControlActor) (a : ControlAction) :
      Step P (.began i a) { P with
        requests := Function.update P.requests i (some ⟨actor, a, P.row, false⟩)
        log := .began i a :: P.log }
  | refused {P : Desk τ} {i : τ} {r : ControlRequest} (hr : P.requests i = some r)
      (h : r.action.refused r.model = true) :
      Step P (.refused i) { P with
        requests := Function.update P.requests i none
        log := .refused i :: P.log }
  | passed {P : Desk τ} {i : τ} {r : ControlRequest} (hr : P.requests i = some r)
      (h : r.action.refused r.model = false) :
      Step P (.passed i) { P with
        requests := Function.update P.requests i (some { r with checked := true })
        log := .passed i :: P.log }
  | committed {P : Desk τ} {i : τ} {r : ControlRequest} (hr : P.requests i = some r)
      (h : r.checked = true) : Step P (.committed i r.action) (P.commit i r)

/-! ## What has happened since -/

/-- An emergency stop has committed since the request of operator `i` was begun. -/
def stoppedSince (i : τ) : List (DeskEvent τ) → Bool
  | [] => false
  | .committed _ .emergencyStop :: _ => true
  | .began j _ :: log => if j = i then false else stoppedSince i log
  | _ :: log => stoppedSince i log

/-- No resume commits that was begun before an emergency stop. -/
def Fresh (P : Desk τ) (e : DeskEvent τ) : Prop :=
  ∀ i, e = .committed i .resume → stoppedSince i P.log = false

/-- The emergency stop has been cleared, and a resume begun after that has committed. -/
def Released (log : List (DeskEvent τ)) : Prop :=
  ∃ j k, [.committed k .resume, .began k .resume, .committed j .clearEmergencyStop].Sublist log

/-- Whatever emergency stop is in the log, what came after it satisfies `Q`. -/
def AfterStop (log : List (DeskEvent τ)) (Q : List (DeskEvent τ) → Prop) : Prop :=
  ∀ l₁ i l₂, log = l₁ ++ .committed i .emergencyStop :: l₂ → Q l₁

/-- The invariant. -/
structure Guarded (P : Desk τ) : Prop where
  excluded : P.row.emergencyStop = true → P.row.enabled = false
  cleared : P.row.emergencyStop = false →
    AfterStop P.log fun l => ∃ j, .committed j .clearEmergencyStop ∈ l
  released : P.row.enabled = true → AfterStop P.log Released
  /-- The model a resume was begun with. -/
  pending : ∀ k r, P.requests k = some r → r.action = .resume → r.model.emergencyStop = false →
    stoppedSince k P.log = true ∨
      P.row.emergencyStop = false ∧
      AfterStop P.log fun l => ∃ j, [.began k .resume, .committed j .clearEmergencyStop].Sublist l
  checked : ∀ k r, P.requests k = some r → r.checked = true → r.action.refused r.model = false

variable {P P' : Desk τ} {e : DeskEvent τ} {log : List (DeskEvent τ)}
  {Q : List (DeskEvent τ) → Prop} {i k : τ}

omit [DecidableEq τ] in
theorem AfterStop.cons (hlog : AfterStop log fun l => Q (e :: l))
    (hstop : ∀ i, e = .committed i .emergencyStop → Q []) : AfterStop (e :: log) Q := by
  intro l₁ i l₂ h
  cases l₁ with
  | nil => exact hstop i (List.cons.inj h).1
  | cons e' l₁ =>
    obtain ⟨rfl, htail⟩ := List.cons.inj h
    exact hlog l₁ i l₂ htail

omit [DecidableEq τ] in
/-- What an event that is no emergency stop leaves as it was. -/
theorem AfterStop.later (hlog : AfterStop log Q) (hQ : ∀ l, Q l → Q (e :: l))
    (he : ∀ i, e ≠ .committed i .emergencyStop) : AfterStop (e :: log) Q :=
  .cons (fun l₁ i l₂ h => hQ l₁ (hlog l₁ i l₂ h)) fun i h => absurd h (he i)

omit [DecidableEq τ] in
theorem Released.cons (h : Released log) (e : DeskEvent τ) : Released (e :: log) := by
  obtain ⟨j, k, hlog⟩ := h
  exact ⟨j, k, hlog.cons e⟩

/-- Only the beginning of a request makes it forget an emergency stop. -/
theorem stoppedSince_cons (h : stoppedSince k log = true) (he : ∀ a, e ≠ .began k a) :
    stoppedSince k (e :: log) = true := by
  cases e with
  | began j a =>
    rw [stoppedSince, if_neg fun hj => he a (by rw [hj])]
    exact h
  | refused j => exact h
  | passed j => exact h
  | committed j a => cases a with
    | emergencyStop => rfl
    | pause => exact h
    | resume => exact h
    | clearEmergencyStop => exact h
    | acknowledgeReconciliation token => exact h

/-- The pending resume of another operator, after an event that leaves the flag alone. -/
theorem Guarded.pending_later {r : ControlRequest} (hP : Guarded P) (hr : P.requests k = some r)
    (ha : r.action = .resume) (hm : r.model.emergencyStop = false) (hbegan : ∀ a, e ≠ .began k a)
    (he : ∀ i, e ≠ .committed i .emergencyStop) :
    stoppedSince k (e :: P.log) = true ∨
      P.row.emergencyStop = false ∧ AfterStop (e :: P.log) fun l =>
        ∃ j, [.began k .resume, .committed j .clearEmergencyStop].Sublist l := by
  rcases hP.pending k r hr ha hm with h | ⟨hrow, h⟩
  · exact .inl (stoppedSince_cons h hbegan)
  · exact .inr ⟨hrow, h.later (fun l ⟨j, hl⟩ => ⟨j, hl.cons e⟩) he⟩

/-- An event that leaves the row alone, and of the requests all but that of operator `i`, which it may
drop. -/
theorem Guarded.quiet (hP : Guarded P) {request : Option ControlRequest}
    (hrequest : ∀ r ∈ request, ∃ r₀, P.requests i = some r₀ ∧ r.action = r₀.action ∧
      r.model = r₀.model ∧ r.action.refused r.model = false)
    (hbegan : ∀ k a, e ≠ .began k a) (he : ∀ i a, e ≠ .committed i a) :
    Guarded { P with
      requests := Function.update P.requests i request, log := e :: P.log } := by
  have hold {k : τ} {r : ControlRequest} (hr : Function.update P.requests i request k = some r) :
      (∃ r₀, P.requests k = some r₀ ∧ r.action = r₀.action ∧ r.model = r₀.model) ∧
        (r.checked = true → r.action.refused r.model = false) := by
    by_cases hk : k = i
    · subst hk
      rw [Function.update_self] at hr
      obtain ⟨r₀, hr₀, ha, hm, hpass⟩ := hrequest r hr
      exact ⟨⟨r₀, hr₀, ha, hm⟩, fun _ => hpass⟩
    · rw [Function.update_of_ne hk] at hr
      exact ⟨⟨r, hr, rfl, rfl⟩, hP.checked k r hr⟩
  refine
    { excluded := hP.excluded
      cleared := fun h => (hP.cleared h).later (fun l ⟨j, hj⟩ => ⟨j, .tail _ hj⟩) fun i => he i _
      released := fun h => (hP.released h).later (fun l hl => hl.cons e) fun i => he i _
      pending := fun k r hr ha hm => ?_
      checked := fun k r hr => (hold hr).2 }
  obtain ⟨r₀, hr₀, ha₀, hm₀⟩ := (hold hr).1
  exact hP.pending_later hr₀ (ha₀ ▸ ha) (hm₀ ▸ hm) (hbegan k) fun i => he i _

/-- The beginning of a request: a resume that may pass its check was begun after the emergency stop was
cleared. -/
theorem Guarded.began (hP : Guarded P) (actor : ControlActor) (a : ControlAction) :
    Guarded { P with
      requests := Function.update P.requests i (some ⟨actor, a, P.row, false⟩)
      log := .began i a :: P.log } where
  excluded := hP.excluded
  cleared h := (hP.cleared h).later (fun l ⟨j, hj⟩ => ⟨j, .tail _ hj⟩) fun _ h => by cases h
  released h := (hP.released h).later (fun l hl => hl.cons _) fun _ h => by cases h
  pending k r hr ha hm := by
    change Function.update P.requests i _ k = some r at hr
    by_cases hk : k = i
    · subst hk
      rw [Function.update_self] at hr
      cases hr
      obtain rfl : a = .resume := ha
      refine .inr ⟨hm, .cons (fun l₁ j l₂ h => ?_) fun _ h => by cases h⟩
      obtain ⟨j, hj⟩ := hP.cleared hm l₁ j l₂ h
      exact ⟨j, (List.singleton_sublist.2 hj).cons_cons _⟩
    · rw [Function.update_of_ne hk] at hr
      refine hP.pending_later hr ha hm (fun a h => ?_) fun _ h => by cases h
      cases h
      exact hk rfl
  checked k r hr hc := by
    change Function.update P.requests i _ k = some r at hr
    by_cases hk : k = i
    · subst hk
      rw [Function.update_self] at hr
      cases hr
      cases hc
    · rw [Function.update_of_ne hk] at hr
      exact hP.checked k r hr hc

/-- A commit that is no resume from before an emergency stop. -/
theorem Guarded.committed {r : ControlRequest} (hP : Guarded P) (hr : P.requests i = some r)
    (hc : r.checked = true) (hfresh : r.action = .resume → stoppedSince i P.log = false) :
    Guarded (P.commit i r) := by
  have hother {k : τ} {r' : ControlRequest} (h : (P.commit i r).requests k = some r') :
      P.requests k = some r' := by
    change Function.update P.requests i none k = some r' at h
    by_cases hk : k = i
    · subst hk
      rw [Function.update_self] at h
      cases h
    · rwa [Function.update_of_ne hk] at h
  have hchecked : ∀ k r', (P.commit i r).requests k = some r' → r'.checked = true →
      r'.action.refused r'.model = false := fun k r' h => hP.checked k r' (hother h)
  have hlater {k : τ} {r' : ControlRequest} (h : (P.commit i r).requests k = some r')
      (ha : r'.action = .resume) (hm : r'.model.emergencyStop = false)
      (hne : r.action ≠ .emergencyStop) :
      stoppedSince k (P.commit i r).log = true ∨ P.row.emergencyStop = false ∧
        AfterStop (P.commit i r).log fun l =>
          ∃ j, [.began k .resume, .committed j .clearEmergencyStop].Sublist l :=
    hP.pending_later (hother h) ha hm (fun _ h => by cases h)
      fun _ h => hne (DeskEvent.committed.inj h).2
  have hpass := hP.checked i r hr hc
  obtain ⟨actor, action, model, checked⟩ := r
  cases action with
  | pause => exact
    { excluded := fun _ => rfl
      cleared := fun h => (hP.cleared h).later (fun l ⟨j, hj⟩ => ⟨j, .tail _ hj⟩) fun _ h => by cases h
      released := fun h => (by cases h)
      pending := fun k r' h ha hm => hlater h ha hm fun h => by cases h
      checked := hchecked }
  | resume =>
    -- the model of a resume that has passed its check is still true of the row
    have hmodel : model.emergencyStop = false := by
      simpa [ControlAction.refused] using hpass
    obtain ⟨hrow, hbegan⟩ := (hP.pending i _ hr rfl hmodel).resolve_left
      (by rw [hfresh rfl]; exact Bool.false_ne_true)
    exact
      { excluded := fun h => absurd (hrow.symm.trans h) Bool.false_ne_true
        cleared := fun h =>
          (hP.cleared h).later (fun l ⟨j, hj⟩ => ⟨j, .tail _ hj⟩) fun _ h => by cases h
        released := fun _ => .cons (fun l₁ j l₂ h => by
          obtain ⟨j, hj⟩ := hbegan l₁ j l₂ h
          exact ⟨j, i, hj.cons_cons _⟩) fun _ h => by cases h
        pending := fun k r' h ha hm => hlater h ha hm fun h => by cases h
        checked := hchecked }
  | emergencyStop => exact
    { excluded := fun _ => rfl
      cleared := fun h => (by cases h)
      released := fun h => (by cases h)
      pending := fun _ _ _ _ _ => .inl rfl
      checked := hchecked }
  | clearEmergencyStop => exact
    { excluded := fun _ => rfl
      cleared := fun _ => .cons (fun _ _ _ _ => ⟨i, .head _⟩) fun _ h => by cases h
      released := fun h => (by cases h)
      pending := fun k r' h ha hm => (hlater h ha hm fun h => by cases h).imp_right
        fun h => ⟨rfl, h.2⟩
      checked := hchecked }
  | acknowledgeReconciliation token => exact
    { excluded := hP.excluded
      cleared := fun h => (hP.cleared h).later (fun l ⟨j, hj⟩ => ⟨j, .tail _ hj⟩) fun _ h => by cases h
      released := fun h => (hP.released h).later (fun l hl => hl.cons _) fun _ h => by cases h
      pending := fun k r' h ha hm => hlater h ha hm fun h => by cases h
      checked := hchecked }

theorem Guarded.step (hP : Guarded P) (hok : Fresh P e) (hs : Step P e P') : Guarded P' := by
  cases hs with
  | began i actor a => exact hP.began actor a
  | refused hr h =>
    exact hP.quiet (fun _ h => by cases h) (fun _ _ h => by cases h) fun _ _ h => by cases h
  | passed hr h =>
    refine hP.quiet (fun r' hr' => ?_) (fun _ _ h => by cases h) fun _ _ h => by cases h
    cases hr'
    exact ⟨_, hr, rfl, rfl, h⟩
  | committed hr h => exact hP.committed hr h fun ha => hok _ (by rw [ha])

/-- A desk with a row on which an emergency stop excludes enabled, and nothing else. -/
def start (row : ControlFields) : Desk τ where
  row := row

theorem guarded_start {row : ControlFields} (h : row.emergencyStop = true → row.enabled = false) :
    Guarded (start row : Desk τ) := by
  have hnone {Q : List (DeskEvent τ) → Prop} : AfterStop [] Q := fun l₁ i l₂ h => by
    cases l₁ <;> cases h
  exact
    { excluded := h
      cleared := fun _ => hnone
      released := fun _ => hnone
      pending := fun _ _ h => by cases h
      checked := fun _ _ h => by cases h }

/-- In every run in which no resume commits that was begun before an emergency stop, an emergency stop
excludes enabled, and once an emergency stop has committed the bot is enabled only after the stop has
been cleared and a resume begun after that has committed. -/
theorem emergency_stop_holds {row : ControlFields}
    (hrow : row.emergencyStop = true → row.enabled = false) {P : Desk τ}
    (hrun : Runs Step Fresh (start row) P) :
    (P.row.emergencyStop = true → P.row.enabled = false) ∧
      AfterStop P.log fun l => P.row.enabled = true → Released l := by
  have hP : Guarded P := hrun.invariant (fun hP hok hs => hP.step hok hs) (guarded_start hrow)
  exact ⟨hP.excluded, fun l₁ i l₂ h henabled => hP.released henabled l₁ i l₂ h⟩

/-! ## Two operators -/

/-- `forName`: the row of a new bot. -/
def newBot : ControlFields := ⟨false, false, "OFFLINE", none⟩

def telegram : ControlActor := ⟨"telegram:1", "telegram"⟩

def admin : ControlActor := ⟨"admin@example.test", "web"⟩

/-- A resume from Telegram has passed its check when an admin stops the bot; then it commits. -/
theorem resume_overtakes_stop : ∃ P : Desk Nat, Runs Step (fun _ _ => True) (start newBot) P ∧
    P.row.emergencyStop = true ∧ P.row.enabled = true ∧
    P.log = [.committed 0 .resume, .committed 1 .emergencyStop, .passed 1, .began 1 .emergencyStop,
      .passed 0, .began 0 .resume] := by
  have hresume : Runs Step (fun _ _ => True) (start newBot : Desk Nat) _ :=
    (Runs.refl.tail trivial (.began 0 telegram .resume)).tail trivial
      (.passed (i := 0) (r := ⟨telegram, .resume, newBot, false⟩) rfl rfl)
  have hstop := ((hresume.tail trivial (.began 1 admin .emergencyStop)).tail trivial
    (.passed (i := 1) (r := ⟨admin, .emergencyStop, newBot, false⟩) rfl rfl)).tail trivial
      (.committed (i := 1) (r := ⟨admin, .emergencyStop, newBot, true⟩) rfl rfl)
  exact ⟨_, hstop.tail trivial
    (.committed (i := 0) (r := ⟨telegram, .resume, newBot, true⟩) rfl rfl), rfl, rfl,
    rfl⟩

/-- The resume commits before the stop is begun. -/
theorem stop_after_resume : ∃ P : Desk Nat, P.log =
      [.committed 1 .emergencyStop, .passed 1, .began 1 .emergencyStop, .committed 0 .resume,
        .passed 0, .began 0 .resume] ∧
    (P.row.emergencyStop = true → P.row.enabled = false) ∧
      AfterStop P.log fun l => P.row.enabled = true → Released l := by
  have hother {P : Desk Nat} {e : DeskEvent Nat} (h : ∀ i, e ≠ .committed i .resume) : Fresh P e :=
    fun i he => absurd he (h i)
  have hresume : Runs Step Fresh (start newBot : Desk Nat) _ :=
    ((Runs.refl.tail (hother (by simp)) (.began 0 telegram .resume)).tail (hother (by simp))
      (.passed (i := 0) (r := ⟨telegram, .resume, newBot, false⟩) rfl rfl)).tail
        (fun i h => by cases h; rfl) (.committed (i := 0) (r := ⟨telegram, .resume, newBot, true⟩) rfl rfl)
  have hstop := ((hresume.tail (hother (by simp)) (.began 1 admin .emergencyStop)).tail
    (hother (by simp)) (.passed (i := 1) (r := ⟨admin, .emergencyStop, _, false⟩) rfl rfl)).tail
      (hother (by simp)) (.committed (i := 1) (r := ⟨admin, .emergencyStop, _, true⟩) rfl rfl)
  exact ⟨_, rfl, emergency_stop_holds (by decide) hstop⟩

end Desk

end CryptoBot
