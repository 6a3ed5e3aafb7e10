import CryptoBot.Application.OrderRules
import CryptoBot.Lib.Ends

/-!
# A reconciliation run alone

What surrounds the try block of a run leaves orders, fills and positions alone: the state it marks,
the record it persists and the alert of a halt. So a run ends with the ledger its try block has
left, and with the verdict on what the try block has found.
-/

namespace CryptoBot

open Lib OrderService ReconciliationService

variable {ans : Answers Ledger Label Ans} {h h' : History Label Ans} {s s' s'' : Ledger} {α : Type}

/-! ## Single steps -/

theorem ends_query (l : Label) (f : Ledger → α) (r : Except Exn α) :
    Proc.Ends ans (query l f) h s r h' s' ↔ r = .ok (f s) ∧ h' = .step l :: h ∧ s' = s := Iff.rfl

theorem ends_transaction {l : Label} {t : Tx α} {r : Except Exn α}
    (ht : Proc.Ends ans (transaction l t) h s r h' s') :
    h' = .step l :: h ∧
      ((∃ a, t s = .ok (a, s') ∧ r = .ok a) ∨ ∃ e, t s = .error e ∧ r = .error e ∧ s' = s) := by
  obtain ⟨hr, hh, hs⟩ := (Proc.ends_step _ _ _).1 ht
  cases htx : t s with
  | ok x =>
    rw [htx] at hr hs
    subst hr hs
    exact ⟨hh, .inl ⟨x.1, rfl, rfl⟩⟩
  | error e =>
    rw [htx] at hr hs
    exact ⟨hh, .inr ⟨e, rfl, hr, hs⟩⟩

theorem ends_call {r : Req} {a : Except Exn r.Val} (hc : Proc.Ends ans (call r) h s a h' s') :
    ans h (.call r) s a ∧ h' = .call (.call r) a :: h ∧ s' = s := by
  obtain ⟨b, hb, rfl, hh, hs⟩ := (Proc.ends_ask _ _ _).1 hc
  exact ⟨hb, hh, hs⟩

theorem ends_clockNow {r : Except Exn Time} (hc : Proc.Ends ans clockNow h s r h' s') :
    ∃ now, r = .ok now ∧ ans h (.ambient .now) s now ∧ h' = .call (.ambient .now) now :: h ∧
      s' = s := by
  obtain ⟨now, hnow, rfl, hh, hs⟩ := (Proc.ends_ask _ _ _).1 hc
  exact ⟨now, rfl, hnow, hh, hs⟩

/-! ## Aside from orders, fills and positions -/

/-- The messages about orders and fills. -/
def Ledger.tradeMessages (s : Ledger) : List OutboxRow :=
  s.outbox.filter fun r => decide (r.kind = .orders ∨ r.kind = .fills)

/-- Orders, fills, positions and the messages about them are as they were. -/
structure Aside (s s' : Ledger) : Prop where
  intents : s'.intents = s.intents
  orders : s'.orders = s.orders
  fills : s'.fills = s.fills
  positions : s'.positions = s.positions
  messages : s'.tradeMessages = s.tradeMessages

theorem Aside.rfl : Aside s s := ⟨Eq.refl _, Eq.refl _, Eq.refl _, Eq.refl _, Eq.refl _⟩

theorem Aside.trans (h : Aside s s') (h' : Aside s' s'') : Aside s s'' :=
  ⟨h'.intents.trans h.intents, h'.orders.trans h.orders, h'.fills.trans h.fills,
    h'.positions.trans h.positions, h'.messages.trans h.messages⟩

/-- A message about neither orders nor fills. -/
theorem Store.enqueue_aside {kind : OutboxKind} {key : OutboxKey} {message : OutboxMessage}
    {now : Time} (hkind : kind ≠ .orders ∧ kind ≠ .fills)
    (h : Store.enqueue kind key message now s = .ok (⟨⟩, s')) : Aside s s' := by
  unfold Store.enqueue at h
  split at h
  · cases h
    exact .rfl
  · cases h
    refine ⟨rfl, rfl, rfl, rfl, ?_⟩
    simp [Ledger.tradeMessages, hkind.1, hkind.2]

theorem ends_enqueue {l : Label} {kind : OutboxKind} {key : OutboxKey} {message : OutboxMessage}
    {now : Time} {r : Except Exn PUnit} (hkind : kind ≠ .orders ∧ kind ≠ .fills)
    (ht : Proc.Ends ans (transaction l (Store.enqueue kind key message now)) h s r h' s') :
    r = .ok ⟨⟩ ∧ h' = .step l :: h ∧ Aside s s' := by
  obtain ⟨hh, ⟨_, htx, rfl⟩ | ⟨e, htx, -⟩⟩ := ends_transaction ht
  · exact ⟨rfl, hh, Store.enqueue_aside hkind htx⟩
  · obtain ⟨s₁, hok⟩ := Store.enqueue_isOk kind key message now s
    rw [hok] at htx
    cases htx

/-! ## Around the try block -/

section
variable {cfg : Config} {l : Label}

theorem ends_setState {status : ReconciliationStatus} {reason : String} {success : Bool}
    {ws : Option Bool} {r : Except Exn Unit}
    (hrun : Proc.Ends ans (setState cfg l status reason success ws) h s r h' s') :
    r = .ok ⟨⟩ ∧ Aside s s' ∧ ∃ h₁, Later h h₁ ∧ h' = .step l :: h₁ := by
  unfold setState at hrun
  rw [Proc.ends_bind] at hrun
  rcases hrun with ⟨st, h₁, s₁, hq, hrun⟩ | ⟨e, hq, -⟩
  · obtain ⟨-, rfl, rfl⟩ := (ends_query _ _ _).1 hq
    rw [Proc.ends_bind] at hrun
    rcases hrun with ⟨now, h₂, s₂, hnow, hrun⟩ | ⟨e, hnow, -⟩
    · obtain ⟨_, -, -, rfl, rfl⟩ := ends_clockNow hnow
      rw [Proc.ends_bind] at hrun
      rcases hrun with ⟨st', h₃, s₃, htx, hrun⟩ | ⟨e, htx, -⟩
      · obtain ⟨rfl, rfl, rfl⟩ := (Proc.ends_pure _ _).1 hrun
        obtain ⟨rfl, ⟨_, htx, -⟩ | ⟨_, htx, -⟩⟩ := ends_transaction htx
        · cases htx
          exact ⟨rfl, ⟨rfl, rfl, rfl, rfl, rfl⟩, _, (Later.rfl.cons rfl).cons rfl, rfl⟩
        · cases htx
      · obtain ⟨-, ⟨_, -, hr⟩ | ⟨_, htx, -⟩⟩ := ends_transaction htx
        · cases hr
        · cases htx
    · obtain ⟨_, hr, -⟩ := ends_clockNow hnow
      cases hr
  · cases hq.1

theorem ends_persist {result : ReconResult} {reason : String} {started : Time}
    {r : Except Exn Unit}
    (hrun : Proc.Ends ans (persist cfg result reason started) h s r h' s') :
    r = .ok ⟨⟩ ∧ Aside s s' ∧ Later h h' := by
  unfold persist at hrun
  rw [Proc.ends_bind] at hrun
  rcases hrun with ⟨_, h₁, s₁, htx, hrun⟩ | ⟨e, htx, -⟩
  · obtain ⟨rfl, ⟨_, htx, -⟩ | ⟨_, htx, -⟩⟩ := ends_transaction htx
    · cases htx
      rw [Proc.ends_bind] at hrun
      rcases hrun with ⟨now, h₂, s₂, hnow, hrun⟩ | ⟨e, hnow, -⟩
      · obtain ⟨_, -, -, rfl, rfl⟩ := ends_clockNow hnow
        obtain ⟨rfl, rfl, haside⟩ := ends_enqueue ⟨by decide, by decide⟩ hrun
        refine ⟨rfl, Aside.trans ?_ haside, ((Later.rfl.cons rfl).cons rfl).cons rfl⟩
        exact ⟨rfl, rfl, rfl, rfl, rfl⟩
      · obtain ⟨_, hr, -⟩ := ends_clockNow hnow
        cases hr
    · cases htx
  · obtain ⟨-, ⟨_, -, hr⟩ | ⟨_, htx, -⟩⟩ := ends_transaction htx
    · cases hr
    · cases htx

/-- The result of a run whose try block has come to `outcome` with these findings. -/
def resultOf (previous : ReconciliationState) (operatorAck : Bool) (runKey : RunKey)
    (f : Findings) : Except Exn PUnit → ReconResult
  | .ok _ => verdict previous operatorAck runKey f
  | .error e => aborted runKey f e

/-- The label under which the verdict is written. -/
def endLabel (previous : ReconciliationState) (operatorAck : Bool) (runKey : RunKey)
    (f : Findings) : Except Exn PUnit → Label
  | .ok _ =>
    let result := verdict previous operatorAck runKey f
    .runEnd operatorAck (decide (result.critical = [] ∧ f.pendingAmbiguous = 0)) result.status
      result.reason
  | .error e => .runFailed (aborted runKey f e).reason

theorem ends_conclude {previous : ReconciliationState} {ack : Bool} {runKey : RunKey}
    {reason : String} {started : Time} {outcome : Except Exn PUnit} {f : Findings}
    {r : Except Exn ReconResult}
    (hrun : Proc.Ends ans (conclude cfg previous ack runKey reason started outcome f) h s r h' s') :
    r = .ok (resultOf previous ack runKey f outcome) ∧ Aside s s' ∧
      ∃ h₁, Later h h₁ ∧ Later (.step (endLabel previous ack runKey f outcome) :: h₁) h' := by
  cases outcome with
  | error e =>
    simp only [conclude] at hrun
    rw [Proc.ends_bind] at hrun
    rcases hrun with ⟨_, h₁, s₁, hp, hrun⟩ | ⟨e, hp, -⟩
    · obtain ⟨-, ha₁, hh₁⟩ := ends_persist hp
      rw [Proc.ends_bind] at hrun
      rcases hrun with ⟨_, h₂, s₂, hset, hrun⟩ | ⟨e, hset, -⟩
      · obtain ⟨-, ha₂, h₃, hh₃, rfl⟩ := ends_setState hset
        obtain ⟨rfl, rfl, rfl⟩ := (Proc.ends_pure _ _).1 hrun
        exact ⟨rfl, ha₁.trans ha₂, h₃, hh₁.trans hh₃, .rfl⟩
      · cases (ends_setState hset).1
    · cases (ends_persist hp).1
  | ok _ =>
    simp only [conclude] at hrun
    rw [Proc.ends_bind] at hrun
    rcases hrun with ⟨_, h₁, s₁, hp, hrun⟩ | ⟨e, hp, -⟩
    · obtain ⟨-, ha₁, hh₁⟩ := ends_persist hp
      rw [Proc.ends_bind] at hrun
      rcases hrun with ⟨_, h₂, s₂, hset, hrun⟩ | ⟨e, hset, -⟩
      · obtain ⟨-, ha₂, h₃, hh₃, rfl⟩ := ends_setState hset
        split at hrun
        · rw [Proc.ends_bind] at hrun
          rcases hrun with ⟨now, h₄, s₄, hnow, hrun⟩ | ⟨e, hnow, -⟩
          · obtain ⟨_, -, -, rfl, rfl⟩ := ends_clockNow hnow
            rw [Proc.ends_bind] at hrun
            rcases hrun with ⟨_, h₅, s₅, hev, hrun⟩ | ⟨e, hev, -⟩
            · obtain ⟨-, rfl, ha₅⟩ := ends_enqueue ⟨by decide, by decide⟩ hev
              rw [Proc.ends_bind] at hrun
              rcases hrun with ⟨_, h₆, s₆, htg, hrun⟩ | ⟨e, htg, -⟩
              · obtain ⟨-, rfl, ha₆⟩ := ends_enqueue ⟨by decide, by decide⟩ htg
                obtain ⟨rfl, rfl, rfl⟩ := (Proc.ends_pure _ _).1 hrun
                exact ⟨rfl, (ha₁.trans ha₂).trans (ha₅.trans ha₆), h₃, hh₁.trans hh₃,
                  ((Later.rfl.cons rfl).cons rfl).cons rfl⟩
              · cases (ends_enqueue ⟨by decide, by decide⟩ htg).1
            · cases (ends_enqueue ⟨by decide, by decide⟩ hev).1
          · obtain ⟨_, hr, -⟩ := ends_clockNow hnow
            cases hr
        · obtain ⟨rfl, rfl, rfl⟩ := (Proc.ends_pure _ _).1 hrun
          exact ⟨rfl, ha₁.trans ha₂, h₃, hh₁.trans hh₃, .rfl⟩
      · cases (ends_setState hset).1
    · cases (ends_persist hp).1

/-- A run alone: up to its try block and after it, only state, record and alert are written. -/
inductive RunAlone (ans : Answers Ledger Label Ans) (cfg : Config) (ack : Bool)
    (h : History Label Ans) (s : Ledger) :
    Except Exn ReconResult → History Label Ans → Ledger → Prop
  | intro {runKey : RunKey} {starting : String} {h₁ h₂ h₃ h' : History Label Ans}
      {s₁ s₂ s' : Ledger} {outcome : Except Exn PUnit} {f : Findings}
      (hstart : Later h h₁) (haside : Aside s s₁)
      (hbody : LProc.Ends ans (body cfg runKey (s.getReconState cfg.bot).lastSuccessAt) {}
        (.step (.runStart ack (s.getReconState cfg.bot).status starting) :: h₁) s₁ outcome f h₂ s₂)
      (haside' : Aside s₂ s') (hconclude : Later h₂ h₃)
      (hend : Later (.step (endLabel (s.getReconState cfg.bot) ack runKey f outcome) :: h₃) h') :
      RunAlone ans cfg ack h s
        (.ok (resultOf (s.getReconState cfg.bot) ack runKey f outcome)) h' s'

theorem ends_run {reason : String} {ack : Bool} {r : Except Exn ReconResult}
    (hrun : Proc.Ends ans (run cfg reason ack) h s r h' s') :
    RunAlone ans cfg ack h s r h' s' := by
  unfold run at hrun
  rw [Proc.ends_bind] at hrun
  rcases hrun with ⟨started, h₁, s₁, hnow, hrun⟩ | ⟨e, hnow, -⟩
  · obtain ⟨_, -, -, rfl, rfl⟩ := ends_clockNow hnow
    rw [Proc.ends_bind] at hrun
    rcases hrun with ⟨previous, h₂, s₂, hq, hrun⟩ | ⟨e, hq, -⟩
    · obtain ⟨hprev, rfl, rfl⟩ := (ends_query _ _ _).1 hq
      cases hprev
      rw [Proc.ends_bind] at hrun
      rcases hrun with ⟨nonce, h₃, s₃, hnonce, hrun⟩ | ⟨e, hnonce, -⟩
      · obtain ⟨_, -, -, rfl, rfl⟩ := (Proc.ends_ask _ _ _).1 hnonce
        rw [Proc.ends_bind] at hrun
        rcases hrun with ⟨_, h₄, s₄, hset, hrun⟩ | ⟨e, hset, -⟩
        · obtain ⟨-, ha₄, h₅, hh₅, rfl⟩ := ends_setState hset
          rw [Proc.ends_bind] at hrun
          rcases hrun with ⟨⟨outcome, f⟩, h₆, s₆, hbody, hrun⟩ | ⟨e, hbody, -⟩
          · obtain ⟨_, _, heq, hbody⟩ := (LProc.ends_outcome _ _).1 hbody
            cases heq
            obtain ⟨rfl, ha₆, h₇, hh₇, hend⟩ := ends_conclude hrun
            refine .intro (Later.trans ?_ hh₅) ha₄ hbody ha₆ hh₇ hend
            exact ((Later.rfl.cons rfl).cons rfl).cons rfl
          · obtain ⟨_, _, heq, -⟩ := (LProc.ends_outcome _ _).1 hbody
            cases heq
        · cases (ends_setState hset).1
      · obtain ⟨_, -, hr, -⟩ := (Proc.ends_ask _ _ _).1 hnonce
        cases hr
    · cases hq.1
  · obtain ⟨_, hr, -⟩ := ends_clockNow hnow
    cases hr

/-! ## The stages of the try block -/

/-- The try block from its start to its return, stage by stage. -/
inductive Completed (ans : Answers Ledger Label Ans) (cfg : Config) (runKey : RunKey)
    (lastSuccessAt : Option Time) (h : History Label Ans) (s : Ledger) (f : Findings)
    (h' : History Label Ans) (s' : Ledger) : Prop
  | intro {rules : SymbolRules} {listed : List ExchangeOrderReport} {now : Time}
      {xfs : List ExchangeFill} {h₁ h₂ h₃ h₄ h₅ : History Label Ans} {s₁ s₂ s₃ s₄ s₅ : Ledger}
      {f₁ f₂ f₃ f₄ f₅ : Findings}
      (hrules : .call (.call (.symbolRules cfg.symbol)) (.ok rules) ∈ h')
      (hlist : ans (.step .query :: .call (.call (.symbolRules cfg.symbol)) (.ok rules) :: h)
        (.call (.openOrders cfg.symbol)) s (.ok listed))
      (hopen : LProc.Trail ans (checkOpenOrder cfg) (s.nonTerminalOrders cfg.bot cfg.symbol) {}
        (.call (.call (.openOrders cfg.symbol)) (.ok listed) ::
          .step .query :: .call (.call (.symbolRules cfg.symbol)) (.ok rules) :: h) s
        (.ok ⟨⟩) f₁ h₁ s₁)
      (hverify : LProc.Trail ans (verifyTerminal cfg)
        (((s₁.newestOrders cfg.bot cfg.symbol 100).filter
          (isRecentTerminal (now - seconds (cfg.recentFillsLookbackHours * 3600)))).take
            terminalVerifyLimit)
        f₁ (.step .query :: .call (.ambient .now) now :: h₁) s₁ (.ok ⟨⟩) f₂ h₂ s₂)
      (hlisted : LProc.Trail ans (checkExchangeOpen cfg) listed f₂ h₂ s₂ (.ok ⟨⟩) f₃ h₃ s₃)
      (hfills : ans h₃ (.call (.recentFills cfg.symbol (fillsSinceMs
        (now - seconds (cfg.recentFillsLookbackHours * 3600)) lastSuccessAt))) s₃ (.ok xfs))
      (hrecent : LProc.Trail ans (checkRecentFill cfg) xfs f₃
        (.call (.call (.recentFills cfg.symbol (fillsSinceMs
          (now - seconds (cfg.recentFillsLookbackHours * 3600)) lastSuccessAt))) (.ok xfs) :: h₃)
        s₃ (.ok ⟨⟩) f₄ h₄ s₄)
      (hcomplete : LProc.Trail ans (checkFillsComplete cfg (max rules.stepSize (1 / 100000000)))
        (s₄.newestOrders cfg.bot cfg.symbol 100) f₄ (.step .query :: h₄) s₄ (.ok ⟨⟩) f₅ h₅ s₅)
      (hposition : LProc.Ends ans
        (checkPosition cfg runKey rules (max rules.stepSize (1 / 100000000))) f₅ h₅ s₅
        (.ok ⟨⟩) f h' s') : Completed ans cfg runKey lastSuccessAt h s f h' s'

theorem ends_call_ok {q : Req} {a : q.Val} (hc : Proc.Ends ans (call q) h s (.ok a) h' s') :
    ans h (.call q) s (.ok a) ∧ h' = .call (.call q) (.ok a) :: h ∧ s' = s := ends_call hc

theorem ends_body {runKey : RunKey} {last : Option Time} {f : Findings}
    (hrun : LProc.Ends ans (body cfg runKey last) {} h s (.ok ⟨⟩) f h' s') :
    Completed ans cfg runKey last h s f h' s' := by
  unfold body at hrun
  rw [LProc.ends_exec_bind_ok] at hrun
  obtain ⟨rules, _, _, hstage, hrun⟩ := hrun
  obtain ⟨-, rfl, rfl⟩ := ends_call_ok hstage
  have hrules := hrun.suffix.subset (.head _)
  dsimp only at hrun
  rw [LProc.ends_exec_bind_ok] at hrun
  obtain ⟨localOpen, _, _, hstage, hrun⟩ := hrun
  obtain ⟨hq, rfl, rfl⟩ := (ends_query _ _ _).1 hstage
  cases hq
  rw [LProc.ends_exec_bind_ok] at hrun
  obtain ⟨listed, _, _, hstage, hrun⟩ := hrun
  obtain ⟨hlist, rfl, rfl⟩ := ends_call_ok hstage
  rw [LProc.ends_bind_ok] at hrun
  obtain ⟨_, f₁, h₁, s₁, hopen, hrun⟩ := hrun
  rw [LProc.ends_exec_bind_ok] at hrun
  obtain ⟨now, _, _, hstage, hrun⟩ := hrun
  obtain ⟨_, hnow, -, rfl, rfl⟩ := ends_clockNow hstage
  cases hnow
  rw [LProc.ends_exec_bind_ok] at hrun
  obtain ⟨recent, _, _, hstage, hrun⟩ := hrun
  obtain ⟨hq, rfl, rfl⟩ := (ends_query _ _ _).1 hstage
  cases hq
  rw [LProc.ends_bind_ok] at hrun
  obtain ⟨_, f₂, h₂, s₂, hverify, hrun⟩ := hrun
  rw [LProc.ends_bind_ok] at hrun
  obtain ⟨_, f₃, h₃, s₃, hlisted, hrun⟩ := hrun
  rw [LProc.ends_exec_bind_ok] at hrun
  obtain ⟨xfs, _, _, hstage, hrun⟩ := hrun
  obtain ⟨hfills, rfl, rfl⟩ := ends_call_ok hstage
  rw [LProc.ends_bind_ok] at hrun
  obtain ⟨_, f₄, h₄, s₄, hrecent, hrun⟩ := hrun
  rw [LProc.ends_exec_bind_ok] at hrun
  obtain ⟨orders, _, _, hstage, hrun⟩ := hrun
  obtain ⟨hq, rfl, rfl⟩ := (ends_query _ _ _).1 hstage
  cases hq
  rw [LProc.ends_bind_ok] at hrun
  obtain ⟨_, f₅, h₅, s₅, hcomplete, hposition⟩ := hrun
  exact .intro hrules hlist (LProc.ends_forM hopen) (LProc.ends_forM hverify)
    (LProc.ends_forM hlisted) hfills (LProc.ends_forM hrecent) (LProc.ends_forM hcomplete) hposition

/-! ## Orders of a run -/

/-- Exchange data neither adds nor removes an order. -/
theorem ExchangeMove.getOrder_isSome (hm : ExchangeMove cfg s s') (c : String) :
    (s'.getOrder c).isSome = (s.getOrder c).isSome := by
  induction hm with
  | keep hbooks =>
    exact congrArg Option.isSome (Ledger.getOrder_congr (congrArg Ledger.orders hbooks :) c)
  | change _ hr => exact hr.getOrder_isSome c
  | fill hf =>
    exact congrArg Option.isSome (Ledger.getOrder_congr (congrArg Ledger.orders hf.rest :) c)
  | seq _ _ ih ih' => exact ih'.trans ih

/-- What a program that only applies exchange data does to the ledger. -/
theorem ends_exchange {p : RunM α} {t t' : Findings} {r : Except Exn α}
    (hp : p.Within (Exchange cfg)) (hrun : LProc.Ends ans p t h s r t' h' s') :
    ExchangeMove cfg s s' :=
  Prog.Ends.within (I := fun _ s' => ExchangeMove cfg s s') hrun (hp t)
    (fun hR hI => .seq hI hR.2) (fun hI => hI) .rfl

/-! ## Findings accumulate -/

/-- Nothing found is forgotten. -/
structure ReconciliationService.Findings.Grown (f f' : Findings) : Prop where
  mismatches : f.mismatches ⊆ f'.mismatches
  pending : f.pendingAmbiguous ≤ f'.pendingAmbiguous

theorem ReconciliationService.Findings.Grown.rfl {f : Findings} : f.Grown f :=
  ⟨List.Subset.refl _, le_rfl⟩

theorem ReconciliationService.Findings.Grown.trans {f f' f'' : Findings} (h : f.Grown f')
    (h' : f'.Grown f'') : f.Grown f'' :=
  ⟨List.Subset.trans h.mismatches h'.mismatches, h.pending.trans h'.pending⟩

/-- No unresolved CRITICAL mismatch has been found. -/
def ReconciliationService.Findings.Clean (f : Findings) : Prop :=
  ∀ m ∈ f.mismatches, m.isCritical = false

theorem ReconciliationService.Findings.Clean.of_grown {f f' : Findings} (hf : f'.Clean)
    (h : f.Grown f') : f.Clean := fun m hm => hf m (h.mismatches hm)

/-- The program adds to the findings only. -/
def Growing (p : RunM α) : Prop :=
  ∀ ⦃ans t h s r t' h' s'⦄, LProc.Ends ans p t h s r t' h' s' → t.Grown t'

theorem growing_pure (a : α) : Growing (pure a : RunM α) := by
  intro ans t h s r t' h' s' hp
  obtain ⟨⟨-, rfl⟩, -⟩ := (LProc.ends_pure _ _).1 hp
  exact .rfl

theorem growing_throw (e : Exn) : Growing (throw e : RunM α) := by
  intro ans t h s r t' h' s' hp
  obtain ⟨⟨-, rfl⟩, -⟩ := (LProc.ends_throw _ _).1 hp
  exact .rfl

theorem growing_exec (p : Engine α) : Growing (LProc.exec p : RunM α) := by
  intro ans t h s r t' h' s' hp
  obtain ⟨rfl, -⟩ := (LProc.ends_exec _ _).1 hp
  exact .rfl

theorem growing_report (kind : MismatchKind) (severity : MismatchSeverity) (c : Option String)
    (detail : MismatchDetail) (resolved : Bool) :
    Growing (report kind severity c detail resolved) := by
  intro ans t h s r t' h' s' hp
  obtain ⟨⟨-, rfl⟩, -⟩ := (LProc.ends_assign _ _).1 hp
  exact ⟨List.subset_append_left _ _, le_rfl⟩

/-- A critical mismatch, once reported, is among the findings. -/
theorem not_clean_report {kind : MismatchKind} {c : Option String} {detail : MismatchDetail}
    {f f' : Findings} {r : Except Exn PUnit}
    (hp : LProc.Ends ans (report kind .critical c detail) f h s r f' h' s') : ¬ f'.Clean := by
  obtain ⟨⟨-, rfl⟩, -⟩ := (LProc.ends_assign _ _).1 hp
  intro hclean
  cases hclean _ (List.mem_append_right _ (List.mem_singleton_self _))

theorem growing_addPending : Growing addPending := by
  intro ans t h s r t' h' s' hp
  obtain ⟨⟨-, rfl⟩, -⟩ := (LProc.ends_assign _ _).1 hp
  exact ⟨List.Subset.refl _, Nat.le_succ _⟩

theorem Growing.bind {β : Type} {p : RunM α} {g : α → RunM β} (hp : Growing p)
    (hg : ∀ a, Growing (g a)) : Growing (p >>= g) := by
  intro ans t h s r t' h' s' hrun
  rw [LProc.ends_bind] at hrun
  rcases hrun with ⟨a, t₁, h₁, s₁, hrun₁, hrun₂⟩ | ⟨e, hrun, -⟩
  · exact (hp hrun₁).trans (hg a hrun₂)
  · exact hp hrun

theorem Trail.grown {β : Type} {f : β → RunM Unit} (hf : ∀ b, Growing (f b)) {bs : List β}
    {t t' : Findings} {r : Except Exn Unit} (hbs : LProc.Trail ans f bs t h s r t' h' s') :
    t.Grown t' := by
  induction hbs with
  | nil => exact .rfl
  | cons hb _ ih => exact (hf _ hb).trans ih
  | stop _ hb => exact hf _ hb

theorem growing_forM {β : Type} {f : β → RunM Unit} (hf : ∀ b, Growing (f b)) (bs : List β) :
    Growing (bs.forM f) := fun _ _ _ _ _ _ _ _ hrun => Trail.grown hf (LProc.ends_forM hrun)

theorem growing_onConflict {o : Order} {outcome : Except Exn α} {k : α → RunM Unit}
    (hk : ∀ a, Growing (k a)) : Growing (onConflict o outcome k) := by
  unfold onConflict
  split
  · exact hk _
  · exact growing_report ..
  · exact growing_throw _

theorem growing_checkExchangeOpen (r : ExchangeOrderReport) :
    Growing (checkExchangeOpen cfg r) := by
  refine (growing_exec _).bind fun loc => ?_
  cases loc with
  | none => exact growing_report ..
  | some x => exact growing_pure _

theorem growing_verifyTerminal (o : Order) : Growing (verifyTerminal cfg o) := by
  refine (growing_exec _).bind fun rep => ?_
  cases rep with
  | none => exact growing_report ..
  | some r =>
    dsimp only
    split
    · refine (growing_exec _).bind fun outcome => growing_onConflict fun fresh => ?_
      split
      · exact growing_report ..
      · exact growing_pure _
    · exact growing_pure _

theorem growing_adopt (rep : Option ExchangeOrderReport) : Growing (adopt cfg rep) := by
  cases rep with
  | none => exact growing_pure _
  | some r =>
    refine (growing_exec _).bind fun loc => ?_
    cases loc with
    | none => exact growing_pure _
    | some x => exact (growing_exec _).bind fun _ => growing_pure _

theorem growing_checkRecentFill (xf : ExchangeFill) : Growing (checkRecentFill cfg xf) := by
  have howner : Growing (ownerOfFill cfg xf) := by
    refine (growing_exec _).bind fun loc => ?_
    cases loc with
    | some x => exact growing_pure _
    | none =>
      dsimp only
      split
      · exact (growing_exec _).bind fun rep => growing_adopt rep
      · exact growing_adopt none
  refine howner.bind fun res => ?_
  cases res with
  | error c => exact growing_report ..
  | ok _ => exact (growing_exec _).bind fun _ => growing_pure _

theorem growing_checkFillsComplete (tolerance : ℚ) (o : Order) :
    Growing (checkFillsComplete cfg tolerance o) := by
  unfold checkFillsComplete
  split
  · exact growing_pure _
  · refine (growing_exec _).bind fun _ => ?_
    split
    · refine (growing_exec _).bind fun _ => (growing_exec _).bind fun _ => ?_
      split
      · exact growing_report ..
      · exact growing_pure _
    · exact growing_pure _

theorem growing_comparePosition (tolerance : ℚ) (before rebuilt : Position)
    (anomalies : List Anomaly) (baseTotal : ℚ) :
    Growing (comparePosition tolerance before rebuilt anomalies baseTotal) := by
  have hanomalies : Growing (anomalies.forM fun a =>
      report .positionAnomaly .critical none (.anomaly a)) :=
    growing_forM (fun _ => growing_report ..) _
  have hrest : Growing (do
      anomalies.forM fun a => report .positionAnomaly .critical none (.anomaly a)
      if tolerance < rebuilt.quantity - baseTotal then
        report .balanceBelowPosition .critical none (.quantities rebuilt.quantity baseTotal)) := by
    refine hanomalies.bind fun _ => ?_
    split
    · exact growing_report ..
    · exact growing_pure _
  unfold comparePosition
  dsimp only
  split
  · exact (growing_report ..).bind fun _ => hrest
  · exact hrest

theorem growing_checkProtectiveStop (rules : SymbolRules) (p : Position) :
    Growing (checkProtectiveStop cfg rules p) := by
  unfold checkProtectiveStop
  split
  · refine (growing_exec _).bind fun _ => ?_
    split
    · exact growing_report ..
    · exact growing_pure _
  · exact growing_pure _

theorem growing_checkPosition (runKey : RunKey) (rules : SymbolRules) (tolerance : ℚ) :
    Growing (checkPosition cfg runKey rules tolerance) := by
  refine (growing_exec _).bind fun _ => (growing_exec _).bind fun _ => (growing_exec _).bind ?_
  rintro ⟨rebuilt, anomalies⟩
  refine (growing_comparePosition ..).bind fun _ => (growing_exec _).bind fun _ => ?_
  exact (growing_exec _).bind fun _ => (growing_exec _).bind fun _ =>
    growing_checkProtectiveStop ..

/-! ## The verdict -/

/-- A run that ends HEALTHY: its try block has returned, and nothing critical or pending is left. -/
theorem of_healthy {previous : ReconciliationState} {ack : Bool} {runKey : RunKey} {f : Findings}
    {outcome : Except Exn PUnit}
    (h : (resultOf previous ack runKey f outcome).status = .healthy) :
    outcome = .ok ⟨⟩ ∧ f.Clean ∧ f.pendingAmbiguous = 0 := by
  cases outcome with
  | error e => cases h
  | ok _ =>
    simp only [resultOf, verdict] at h
    split at h
    · cases h
    · next hcritical =>
      split at h
      · cases h
      · next hpending =>
        refine ⟨rfl, fun m hm => Bool.eq_false_iff.2 ?_, not_not.1 hpending⟩
        exact List.filter_eq_nil_iff.1 (not_not.1 hcritical) m hm

end

end CryptoBot
