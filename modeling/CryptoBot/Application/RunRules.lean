import CryptoBot.Application.Moves

/-!
# Rules for runs and submissions

A reconciliation run applies exchange data, rebuilds the position and writes the reconciliation row
through `set_state`; a submission persists a new order and then applies exchange data. A contract
and an invariant that put up with each of these put up with the whole program.
-/

namespace CryptoBot

open Lib ReconciliationService

/-- The contract `C` and the invariant `I` put up with every program that only applies exchange
data. -/
structure Admits (cfg : Config) (C : Contract Ledger Label Ans)
    (I : History Label Ans → Ledger → Prop) : Prop where
  rely : ∀ {h s s'}, I h s → C.rely h s s' → I h s'
  step : ∀ {h l s₀ s s'}, C.rely h s₀ s → I h s → Exchange cfg l s s' →
    C.step h l s s' ∧ I (.step l :: h) s'
  call : ∀ {h q s₀ s}, C.rely h s₀ s → I h s →
    C.guard h q s ∧ ∀ a, C.ans h q s a → I (.call q a :: h) s

namespace Admits

variable {cfg : Config} {C : Contract Ledger Label Ans} {I : History Label Ans → Ledger → Prop}
  {α : Type}

theorem keeps (hC : Admits cfg C I) {p : Engine α} (hp : p.Within (Exchange cfg)) :
    p.Keeps C I := Proc.keeps_of_within hp hC.rely hC.step hC.call

theorem keeps_run (hC : Admits cfg C I) {p : RunM α} (hp : p.Within (Exchange cfg)) :
    LProc.Keeps C I p := LProc.keeps_of_within hp hC.rely hC.step hC.call

theorem recording (hC : Admits cfg C I) {p : Engine α} (hp : p.Within (Recording cfg)) :
    p.Keeps C I := hC.keeps (Recording.within_exchange hp)

theorem recording_run (hC : Admits cfg C I) {p : RunM α} (hp : p.Within (Recording cfg)) :
    LProc.Keeps C I p := hC.keeps_run (Recording.run_exchange hp)

theorem ask_keeps (hC : Admits cfg C I) {q : Request} {get : Ans q → Except Exn α} :
    (Proc.ask q get : Engine α).Keeps C I := hC.keeps (Proc.within_ask q get)

theorem query_keeps (hC : Admits cfg C I) (f : Ledger → α) :
    (query .query f).Keeps C I := hC.keeps (query_exchange f)

/-- A loop over checks of a run. -/
theorem forM_keeps {β : Type} (hC : Admits cfg C I) {f : β → RunM PUnit}
    (hf : ∀ b, (f b).Within (Exchange cfg)) (bs : List β) : LProc.Keeps C I (bs.forM f) :=
  hC.keeps_run (LProc.Within.forM hf bs)

theorem checkPosition_keeps (hC : Admits cfg C I) (hrebuild : (rebuild cfg).Keeps C I)
    {runKey : RunKey} {rules : SymbolRules} {tolerance : ℚ} :
    LProc.Keeps C I (checkPosition cfg runKey rules tolerance) :=
  (LProc.keeps_exec hC.ask_keeps).bind fun _ => (LProc.keeps_exec (hC.query_keeps _)).bind fun _ =>
    (LProc.keeps_exec hrebuild).bind fun _ =>
      (hC.recording_run comparePosition_recording).bind fun _ =>
    (LProc.keeps_exec (hC.recording setBalances_recording)).bind fun _ =>
    (LProc.keeps_exec hC.ask_keeps).bind fun _ =>
    (LProc.keeps_exec (hC.recording enqueue_recording)).bind fun _ =>
    hC.recording_run checkProtectiveStop_recording

theorem body_keeps (hC : Admits cfg C I) (hrebuild : (rebuild cfg).Keeps C I) {runKey : RunKey}
    {last : Option Time} : LProc.Keeps C I (body cfg runKey last) :=
  (LProc.keeps_exec hC.ask_keeps).bind fun _ => (LProc.keeps_exec (hC.query_keeps _)).bind fun _ =>
    (LProc.keeps_exec hC.ask_keeps).bind fun _ =>
    (hC.forM_keeps (fun _ => checkOpenOrder_exchange) _).bind fun _ =>
    (LProc.keeps_exec hC.ask_keeps).bind fun _ => (LProc.keeps_exec (hC.query_keeps _)).bind fun _ =>
    (hC.forM_keeps (fun _ => verifyTerminal_exchange) _).bind fun _ =>
    (hC.forM_keeps (fun _ => Recording.run_exchange checkExchangeOpen_recording) _).bind fun _ =>
    (LProc.keeps_exec hC.ask_keeps).bind fun _ =>
    (hC.forM_keeps (fun _ => checkRecentFill_exchange) _).bind fun _ =>
    (LProc.keeps_exec (hC.query_keeps _)).bind fun _ =>
    (hC.forM_keeps (fun _ => Recording.run_exchange checkFillsComplete_recording) _).bind fun _ =>
    hC.checkPosition_keeps hrebuild

theorem conclude_keeps (hC : Admits cfg C I)
    (hset : ∀ {l status reason success ws}, l.written = some (status, reason) →
      (∀ ack previous r, l ≠ .runStart ack previous r) →
      (setState cfg l status reason success ws).Keeps C I)
    {previous : ReconciliationState} {ack : Bool} {runKey : RunKey} {reason : String}
    {started : Time} {outcome : Except Exn PUnit} {f : Findings} :
    (conclude cfg previous ack runKey reason started outcome f).Keeps C I := by
  cases outcome with
  | error e =>
    exact (hC.recording persist_recording).bind fun _ => (hset rfl (by rintro _ _ _ ⟨⟩)).bind fun _ =>
      Proc.keeps_pure _
  | ok _ =>
    have henqueue {kind key message now} : Proc.Keeps C I
        (transaction .commit (Store.enqueue kind key message now)) :=
      hC.recording enqueue_recording
    exact (hC.recording persist_recording).bind fun _ =>
      (hset rfl (by rintro _ _ _ ⟨⟩)).bind fun _ =>
        .ite (hC.ask_keeps.bind fun _ => henqueue.bind fun _ => henqueue.bind fun _ =>
        Proc.keeps_pure _) (Proc.keeps_pure _)

/-- A whole run. -/
theorem run_keeps (hC : Admits cfg C I)
    (hset : ∀ {l status reason success ws}, l.written = some (status, reason) →
      (setState cfg l status reason success ws).Keeps C I)
    (hrebuild : (rebuild cfg).Keeps C I) {reason : String} {ack : Bool} :
    (ReconciliationService.run cfg reason ack).Keeps C I :=
  hC.ask_keeps.bind fun _ => (hC.query_keeps _).bind fun _ => hC.ask_keeps.bind fun _ =>
    (hset rfl).bind fun _ => ((hC.body_keeps hrebuild).outcome _).bind fun _ =>
    hC.conclude_keeps fun hl _ => hset hl

/-- A submission. -/
theorem submitIntent_keeps (hC : Admits cfg C I) {intent : OrderIntent}
    (hplace : ∀ {h s₀ s s' o}, C.rely h s₀ s → I h s → Placed cfg s s' intent o →
      C.step h .commit s s' ∧ I (.step .commit :: h) s') {rules : SymbolRules} :
    (OrderService.submitIntent cfg intent rules).Keeps C I := by
  refine (hC.keeps (query_within fun _ => ⟨rfl, .rfl⟩)).bind fun existing => ?_
  cases existing with
  | some o => exact Proc.keeps_pure _
  | none =>
    refine hC.ask_keeps.bind fun t => ?_
    dsimp only
    split
    · exact Proc.keeps_throw _
    · next o₀ ho =>
      refine Proc.Keeps.bind (fun h s hI => wp_transaction fun s₁ hr => ?_) fun r => ?_
      · have hkeep := hC.step hr (hC.rely hI hr) ⟨rfl, .rfl⟩ (l := .commit)
        refine ⟨fun r s₂ htx => ?_, fun _ _ => hkeep⟩
        rcases persistTx_cases ho htx with ⟨-, rfl, -⟩ | ⟨o, -, hp⟩
        · exact hkeep
        · exact hplace hr (hC.rely hI hr) hp
      · cases r with
        | error existing => exact Proc.keeps_pure _
        | ok o =>
          refine hC.ask_keeps.attempt.bind fun out => ?_
          cases out <;> exact (hC.keeps settle_exchange).bind fun _ => hC.query_keeps _

end Admits

end CryptoBot
