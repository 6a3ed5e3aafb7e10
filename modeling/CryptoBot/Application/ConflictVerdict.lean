import CryptoBot.Application.Escapes

/-!
# The verdict on a conflict

A conflict that a run finds while it checks an open order or verifies a terminal one is handled on
the spot: it becomes a CRITICAL mismatch of that order, and the run ends HALTED. One that is raised
where a fill's order is adopted leaves the try block, as any other exception does that comes after
a conflict already handled: the run then ends DEGRADED. Which of the two it is, the answers of the
exchange decide (`Fatal`).
-/

namespace CryptoBot

open Lib OrderService ReconciliationService

variable {cfg : Config} {ans : Answers Ledger Label Ans} {h h' : History Label Ans}
  {s s' : Ledger} {t t' : Findings} {A : (q : Request) → Ledger → Ans q → Prop} {o : Order}

/-- The executor answers a query for an order with a report about that order. -/
def OwnReports (ans : Answers Ledger Label Ans) : Prop :=
  ∀ h s o r, ans h (.call (.queryOrder o)) s (.ok (some r)) → r.clientOrderId = o.clientOrderId

/-- The findings hold an unresolved CRITICAL conflict of this order. -/
def ReconciliationService.Findings.Charged (f : Findings) (c : String) : Prop :=
  ∃ m ∈ f.mismatches, m.kind = .orderStateConflict ∧ m.clientOrderId = some c ∧ m.isCritical

theorem ReconciliationService.Findings.Charged.grown {f f' : Findings} {c : String}
    (hc : f.Charged c) (h : f.Grown f') : f'.Charged c := by
  obtain ⟨m, hm, hrest⟩ := hc
  exact ⟨m, h.mismatches hm, hrest⟩

/-! ## Conflicts of one order -/

/-- The program has recorded no conflict, or one of the order `c`, which it then raises. -/
def RaisesConflict {α : Type} (c : String) (h : History Label Ans) (r : Except Exn α)
    (h' : History Label Ans) : Prop :=
  conflicts h' = conflicts h ∨
    conflicts h' = c :: conflicts h ∧ ∃ m, r = .error (.orderConflict m)

/-- What has been raised is passed on. -/
theorem RaisesConflict.passed {α β : Type} {c : String} {e : Exn} {h₁ : History Label Ans}
    (hc : RaisesConflict c h₁ (.error e : Except Exn α) h') (hh : conflicts h₁ = conflicts h) :
    RaisesConflict c h (.error e : Except Exn β) h' := by
  rcases hc with hc | ⟨hc, m, hm⟩
  · exact .inl (hc.trans hh)
  · cases hm
    exact .inr ⟨hh ▸ hc, m, rfl⟩

/-- A report about an order that exists conflicts with that order only. -/
theorem Absorbed.raisesConflict {r : ExchangeOrderReport} {res : Except Exn (Option Order)}
    (ha : Absorbed cfg r h s res h' s') (hr : r.clientOrderId = o.clientOrderId)
    (ho : (s.getOrder o.clientOrderId).isSome) : RaisesConflict o.clientOrderId h res h' := by
  cases ha with
  | applied hh => exact .inl hh.conflicts_eq
  | refused hh => exact .inl hh.conflicts_eq
  | @conflict x m h₁ _ _ hh hh' hfind =>
    obtain ⟨y, hy⟩ := Option.isSome_iff_exists.1 ho
    rw [hr, findOrder_of_clientOrderId hy] at hfind
    obtain rfl := Option.some.inj hfind
    rw [← (Ledger.getOrder_eq_some.1 hy).2]
    refine .inr ⟨?_, m, rfl⟩
    rw [hh'.conflicts_eq, ← hh.conflicts_eq]
    rfl

theorem Downloaded.conflicts_eq {x : Option Order} {res : Except Exn Unit}
    (hd : Downloaded cfg A h s x res h' s') : conflicts h' = conflicts h := by
  cases hd with
  | skipped => rfl
  | failed _ hh => exact hh.conflicts_eq
  | recorded _ hh => exact hh.conflicts_eq

theorem Refreshed.raisesConflict {res : Except Exn (Option Order)}
    (hown : ∀ r, A (.call (.queryOrder o)) s (.ok (some r)) → r.clientOrderId = o.clientOrderId)
    (ho : (s.getOrder o.clientOrderId).isSome) (hf : Refreshed cfg A o h s res h' s') :
    RaisesConflict o.clientOrderId h res h' := by
  have hquery {h₁ s₁} (hq : Missing A o h s h₁ ∧ s₁ = s ∨ ∃ r, Told cfg A o r h s h₁ s₁) :
      conflicts h₁ = conflicts h := by
    rcases hq with ⟨hm, -⟩ | ⟨r, ht⟩
    · exact hm.later.conflicts_eq
    · exact ht.later.conflicts_eq
  cases hf with
  | failed _ hh => exact .inl hh.conflicts_eq
  | refused ha hh hr => exact (hr.raisesConflict (hown _ ha) ho).passed hh.conflicts_eq
  | lost hq hd => exact .inl (hd.conflicts_eq.trans (hquery hq))
  | done hq hd hh => exact .inl ((hh.conflicts_eq.trans hd.conflicts_eq).trans (hquery hq))

theorem Resolved.raisesConflict {res : Except Exn Resolution}
    (hown : ∀ r, A (.call (.queryOrder o)) s (.ok (some r)) → r.clientOrderId = o.clientOrderId)
    (ho : (s.getOrder o.clientOrderId).isSome) (hf : Resolved cfg A o h s res h' s') :
    RaisesConflict o.clientOrderId h res h' := by
  cases hf with
  | terminal => exact .inl rfl
  | failed _ hh => exact .inl hh.conflicts_eq
  | waiting hq => exact .inl hq.later.conflicts_eq
  | rejected hq => exact .inl hq.later.conflicts_eq
  | raised hq => exact .inl hq.later.conflicts_eq
  | refused ha hh hr => exact (hr.raisesConflict (hown _ ha) ho).passed hh.conflicts_eq
  | lost hq hd => exact .inl (hd.conflicts_eq.trans hq.later.conflicts_eq)
  | done hq hd => exact .inl (hd.conflicts_eq.trans hq.later.conflicts_eq)

/-! ## The checks -/

/-- Every conflict of the history is charged. -/
def Accounted (h : History Label Ans) (t : Findings) : Prop := ∀ c ∈ conflicts h, t.Charged c

theorem Accounted.of_eq (hacc : Accounted h t) (hh : conflicts h' = conflicts h)
    (ht : t.Grown t') : Accounted h' t' := by
  intro c hc
  rw [hh] at hc
  exact (hacc c hc).grown ht

/-- The handler of a conflict charges the order it has been raised for. -/
theorem ends_onConflict {α : Type} {res : Except Exn α} {k : α → RunM Unit}
    {h₁ : History Label Ans} {s₁ : Ledger} (hres : RaisesConflict o.clientOrderId h res h₁)
    (hacc : Accounted h t) (hgrowing : ∀ a, Growing (k a))
    (hk : ∀ a, LProc.Ends ans (k a) t h₁ s₁ (.ok ⟨⟩) t' h' s' → conflicts h' = conflicts h₁)
    (hrun : LProc.Ends ans (onConflict o res k) t h₁ s₁ (.ok ⟨⟩) t' h' s') : Accounted h' t' := by
  unfold onConflict at hrun
  split at hrun
  · next a =>
    rcases hres with hres | ⟨-, m, hm⟩
    · exact hacc.of_eq ((hk a hrun).trans hres) (hgrowing a hrun)
    · cases hm
  · next m =>
    obtain ⟨⟨-, rfl⟩, rfl, -⟩ := (LProc.ends_assign _ _).1 hrun
    have hgrown := growing_report _ _ _ _ _ hrun
    rcases hres with hres | ⟨hres, -⟩
    · exact hacc.of_eq hres hgrown
    · intro c hc
      rw [hres] at hc
      rcases List.mem_cons.1 hc with rfl | hc
      · exact ⟨_, List.mem_append_right _ (List.mem_singleton_self _), rfl, rfl, rfl⟩
      · exact (hacc c hc).grown hgrown
  · cases ((LProc.ends_throw _ _).1 hrun).1.1

theorem ends_checkOpenOrder_accounted (hown : OwnReports ans)
    (ho : (s.getOrder o.clientOrderId).isSome) (hacc : Accounted h t)
    (hrun : LProc.Ends ans (checkOpenOrder cfg o) t h s (.ok ⟨⟩) t' h' s') : Accounted h' t' := by
  have hown' : ∀ r, (∃ h, ans h (.call (.queryOrder o)) s (.ok (some r))) →
      r.clientOrderId = o.clientOrderId := fun r ⟨h₀, ha⟩ => hown h₀ s o r ha
  unfold checkOpenOrder at hrun
  split at hrun
  · rw [LProc.ends_exec_bind_ok] at hrun
    obtain ⟨res, h₁, s₁, hres, hrun⟩ := hrun
    obtain ⟨_, heq, hres⟩ := (Proc.ends_attempt _ _).1 hres
    cases heq
    have hresolved := hres.post ((sequential_alone ans).wp_resolveAmbiguous o)
    refine ends_onConflict (hresolved.raisesConflict hown' ho) hacc ?_ ?_ hrun
    · rintro (_ | _)
      · exact growing_pure _
      · exact growing_addPending.bind fun _ => growing_report ..
    · rintro (_ | _) hk
      · obtain ⟨-, rfl, -⟩ := (LProc.ends_pure _ _).1 hk
        rfl
      · rw [LProc.ends_bind_ok] at hk
        obtain ⟨_, _, _, _, hp, hk⟩ := hk
        obtain ⟨-, rfl, -⟩ := (LProc.ends_assign _ _).1 hp
        obtain ⟨-, rfl, -⟩ := (LProc.ends_assign _ _).1 hk
        rfl
  · rw [LProc.ends_exec_bind_ok] at hrun
    obtain ⟨res, h₁, s₁, hres, hrun⟩ := hrun
    obtain ⟨_, heq, hres⟩ := (Proc.ends_attempt _ _).1 hres
    cases heq
    have hrefreshed := hres.post ((sequential_alone ans).wp_refresh o)
    refine ends_onConflict (hrefreshed.raisesConflict hown' ho) hacc (fun _ => growing_pure _) ?_ hrun
    intro _ hk
    obtain ⟨-, rfl, -⟩ := (LProc.ends_pure _ _).1 hk
    rfl

theorem ends_compareTerminal {r : ExchangeOrderReport} {res : Except Exn Order}
    (hr : r.clientOrderId = o.clientOrderId) (ho : (s.getOrder o.clientOrderId).isSome)
    (hrun : Proc.Ends ans (compareTerminal cfg o r) h s res h' s') :
    RaisesConflict o.clientOrderId h res h' := by
  unfold compareTerminal at hrun
  rw [Proc.ends_bind] at hrun
  rcases hrun with ⟨_, h₁, s₁, happly, hrun⟩ | ⟨e, happly, rfl⟩
  · have habsorbed := happly.post ((sequential_alone ans).wp_applyReport r "reconciliation")
    rcases habsorbed.raisesConflict hr ho with hconf | ⟨-, _, hm⟩
    · rw [Proc.ends_bind] at hrun
      rcases hrun with ⟨fresh, _, _, hq, hrun⟩ | ⟨e, hq, -⟩
      · obtain ⟨-, rfl, rfl⟩ := (ends_query _ _ _).1 hq
        refine .inl (Eq.trans ?_ hconf)
        cases fresh with
        | some x =>
          obtain ⟨-, rfl, -⟩ := (Proc.ends_pure _ _).1 hrun
          rfl
        | none =>
          obtain ⟨-, rfl, -⟩ := (Proc.ends_throw _ _).1 hrun
          rfl
      · cases hq.1
    · cases hm
  · have habsorbed := happly.post ((sequential_alone ans).wp_applyReport r "reconciliation")
    exact (habsorbed.raisesConflict hr ho).passed rfl

theorem ends_verifyTerminal_accounted (hown : OwnReports ans)
    (ho : (s.getOrder o.clientOrderId).isSome) (hacc : Accounted h t)
    (hrun : LProc.Ends ans (verifyTerminal cfg o) t h s (.ok ⟨⟩) t' h' s') : Accounted h' t' := by
  unfold verifyTerminal at hrun
  rw [LProc.ends_exec_bind_ok] at hrun
  obtain ⟨rep, _, s₁, hcall, hrun⟩ := hrun
  obtain ⟨ha, rfl, rfl⟩ := ends_call_ok hcall
  cases rep with
  | none =>
    obtain ⟨-, rfl, -⟩ := (LProc.ends_assign _ _).1 hrun
    exact hacc.of_eq rfl (growing_report _ _ _ _ _ hrun)
  | some r =>
    dsimp only at hrun
    split at hrun
    · rw [LProc.ends_exec_bind_ok] at hrun
      obtain ⟨res, h₁, s₂, hres, hrun⟩ := hrun
      obtain ⟨_, heq, hres⟩ := (Proc.ends_attempt _ _).1 hres
      cases heq
      refine ends_onConflict (ends_compareTerminal (hown _ _ _ _ ha) ho hres)
        (hacc.of_eq rfl .rfl) (fun _ => ?_) (fun _ hk => ?_) hrun
      · split
        · exact growing_report ..
        · exact growing_pure _
      · split at hk
        · obtain ⟨-, rfl, -⟩ := (LProc.ends_assign _ _).1 hk
          rfl
        · obtain ⟨-, rfl, -⟩ := (LProc.ends_pure _ _).1 hk
          rfl
    · obtain ⟨⟨-, rfl⟩, rfl, -⟩ := (LProc.ends_pure _ _).1 hrun
      exact hacc.of_eq rfl .rfl

/-! ## Checks that find no conflict -/

/-- A step that records no conflict. -/
def Peaceful (l : Label) (_ _ : Ledger) : Prop := ∀ c, l ≠ .recordConflict c

theorem ends_peaceful {α : Type} {p : RunM α} {r : Except Exn α} (hp : p.Within Peaceful)
    (hrun : LProc.Ends ans p t h s r t' h' s') : conflicts h' = conflicts h := by
  refine Prog.Ends.within (I := fun h' _ => conflicts h' = conflicts h) hrun (hp t) ?_ ?_ rfl
  · intro h₁ l _ _ hl hI
    rw [← hI]
    cases l with
    | recordConflict c => exact absurd rfl (hl c)
    | _ => rfl
  · intro h₁ q a _ hI
    exact hI

theorem trail_peaceful {β : Type} {check : β → RunM Unit} {bs : List β} {r : Except Exn Unit}
    (hp : ∀ b, (check b).Within Peaceful) (hrun : LProc.Trail ans check bs t h s r t' h' s') :
    conflicts h' = conflicts h := by
  induction hrun with
  | nil => rfl
  | cons hb _ ih => exact ih.trans (ends_peaceful (hp _) hb)
  | stop _ hb => exact ends_peaceful (hp _) hb

theorem Recording.peaceful (cfg : Config) {α : Type} {p : RunM α} (hp : p.Within (Recording cfg)) :
    p.Within Peaceful := by
  refine fun t => Prog.Within.mono ?_ (hp t)
  rintro l s s' ⟨rfl | rfl, -⟩ c hc <;> cases hc

theorem rebuild_peaceful : (rebuild cfg).Within Peaceful :=
  (query_within fun _ c hc => by cases hc).bind fun _ =>
    (query_within fun _ c hc => by cases hc).bind fun _ => clockNow_within.bind fun _ =>
    (transaction_within (fun _ c hc => by cases hc) fun _ _ _ _ c hc => by cases hc).bind fun _ =>
    Proc.within_pure _

theorem checkPosition_peaceful {runKey : RunKey} {rules : SymbolRules} {tolerance : ℚ} :
    (checkPosition cfg runKey rules tolerance).Within Peaceful :=
  (LProc.within_exec (call_within _)).bind fun _ =>
    (Recording.peaceful cfg (LProc.within_exec (query_recording _))).bind fun _ =>
    (LProc.within_exec rebuild_peaceful).bind fun _ =>
    (Recording.peaceful cfg comparePosition_recording).bind fun _ =>
    (Recording.peaceful cfg (LProc.within_exec setBalances_recording)).bind fun _ =>
    (LProc.within_exec clockNow_within).bind fun _ =>
    (Recording.peaceful cfg (LProc.within_exec enqueue_recording)).bind fun _ =>
    Recording.peaceful cfg checkProtectiveStop_recording

/-- An adoption that returns has met no conflict. -/
theorem ends_adopt {rep : Option ExchangeOrderReport} {res : Except (Option String) PUnit}
    (hrun : LProc.Ends ans (adopt cfg rep) t h s (.ok res) t' h' s') :
    t' = t ∧ conflicts h' = conflicts h := by
  cases rep with
  | none =>
    obtain ⟨⟨-, rfl⟩, rfl, -⟩ := (LProc.ends_pure _ _).1 hrun
    exact ⟨rfl, rfl⟩
  | some r =>
    simp only [adopt] at hrun
    rw [LProc.ends_exec_bind_ok] at hrun
    obtain ⟨loc, _, _, hq, hrun⟩ := hrun
    obtain ⟨-, rfl, rfl⟩ := (ends_query _ _ _).1 hq
    cases loc with
    | none =>
      obtain ⟨⟨-, rfl⟩, rfl, -⟩ := (LProc.ends_pure _ _).1 hrun
      exact ⟨rfl, rfl⟩
    | some x =>
      dsimp only at hrun
      rw [LProc.ends_exec_bind_ok] at hrun
      obtain ⟨_, h₁, _, happly, hrun⟩ := hrun
      obtain ⟨⟨-, rfl⟩, rfl, -⟩ := (LProc.ends_pure _ _).1 hrun
      cases happly.post ((sequential_alone ans).wp_applyReport r "reconciliation") with
      | applied hh => exact ⟨rfl, hh.conflicts_eq⟩

theorem ends_ownerOfFill {xf : ExchangeFill} {res : Except (Option String) PUnit}
    (hrun : LProc.Ends ans (ownerOfFill cfg xf) t h s (.ok res) t' h' s') :
    t' = t ∧ conflicts h' = conflicts h := by
  unfold ownerOfFill at hrun
  rw [LProc.ends_exec_bind_ok] at hrun
  obtain ⟨loc, _, _, hq, hrun⟩ := hrun
  obtain ⟨-, rfl, rfl⟩ := (ends_query _ _ _).1 hq
  cases loc with
  | some x =>
    obtain ⟨⟨-, rfl⟩, rfl, -⟩ := (LProc.ends_pure _ _).1 hrun
    exact ⟨rfl, rfl⟩
  | none =>
    dsimp only at hrun
    split at hrun
    · rw [LProc.ends_exec_bind_ok] at hrun
      obtain ⟨rep, _, _, hcall, hrun⟩ := hrun
      obtain ⟨-, rfl, rfl⟩ := ends_call_ok hcall
      obtain ⟨ht, hconf⟩ := ends_adopt hrun
      exact ⟨ht, hconf⟩
    · obtain ⟨ht, hconf⟩ := ends_adopt hrun
      exact ⟨ht, hconf⟩

theorem ends_checkRecentFill_accounted {xf : ExchangeFill} (hacc : Accounted h t)
    (hrun : LProc.Ends ans (checkRecentFill cfg xf) t h s (.ok ⟨⟩) t' h' s') : Accounted h' t' := by
  unfold checkRecentFill at hrun
  rw [LProc.ends_bind_ok] at hrun
  obtain ⟨res, t₁, h₁, s₁, howner, hrun⟩ := hrun
  obtain ⟨rfl, hconf⟩ := ends_ownerOfFill howner
  cases res with
  | error c =>
    obtain ⟨-, rfl, -⟩ := (LProc.ends_assign _ _).1 hrun
    exact hacc.of_eq hconf (growing_report _ _ _ _ _ hrun)
  | ok _ =>
    rw [LProc.ends_exec_bind_ok] at hrun
    obtain ⟨_, _, _, hingest, hrun⟩ := hrun
    obtain ⟨⟨-, rfl⟩, rfl, -⟩ := (LProc.ends_pure _ _).1 hrun
    have hingest : LProc.Ends ans (LProc.exec (ingestFill cfg xf)) t' h₁ s₁ _ t' _ _ :=
      (LProc.ends_exec _ _).2 ⟨rfl, hingest⟩
    exact hacc.of_eq ((ends_peaceful (Recording.peaceful cfg (LProc.within_exec
      ingestFill_recording)) hingest).trans hconf) .rfl

/-! ## A run -/

/-- A loop of checks, each of which charges the conflict it meets with an order that exists. -/
theorem accounted_of_trail {check : Order → RunM Unit} {os : List Order}
    (hmoves : ∀ o, (check o).Within (Exchange cfg))
    (hcheck : ∀ {o t h s t' h' s'}, (s.getOrder o.clientOrderId).isSome → Accounted h t →
      LProc.Ends ans (check o) t h s (.ok ⟨⟩) t' h' s' → Accounted h' t')
    (hos : ∀ o ∈ os, o ∈ s.orders.rows)
    (hrun : LProc.Trail ans check os t h s (.ok ⟨⟩) t' h' s') (hacc : Accounted h t) :
    Accounted h' t' := by
  let I (rest : List Order) (u : Findings) (k : History Label Ans) (v : Ledger) : Prop :=
    Accounted k u ∧ ∀ o ∈ rest, (v.getOrder o.clientOrderId).isSome
  have hI : I [] t' h' s' := by
    refine hrun.invariant I ?_ rfl ⟨hacc, fun o ho => ?_⟩
    · rintro o rest u k v u' k' v' ⟨hacc, hrest⟩ hcheck'
      obtain ⟨ho, hrest⟩ := List.forall_mem_cons.1 hrest
      refine ⟨hcheck ho hacc hcheck', fun x hx => ?_⟩
      rw [(ends_exchange (hmoves o) hcheck').getOrder_isSome]
      exact hrest x hx
    · rw [Ledger.getOrder_of_mem (hos o ho)]
      rfl
  exact hI.1

/-- A try block that returns has charged every conflict. -/
theorem Completed.accounted {runKey : RunKey} {last : Option Time} {f : Findings}
    (hown : OwnReports ans) (hnone : conflicts h = [])
    (hrun : Completed ans cfg runKey last h s f h' s') : Accounted h' f := by
  obtain ⟨-, -, hopen, hverify, hlisted, -, hrecent, hcomplete, hposition⟩ := hrun
  have hstart : Accounted h {} := fun c hc => by
    rw [hnone] at hc
    cases hc
  have hopen := accounted_of_trail (fun _ => checkOpenOrder_exchange)
    (ends_checkOpenOrder_accounted hown)
    (fun o ho => (Ledger.mem_nonTerminalOrders.1 ho).1) hopen (hstart.of_eq rfl .rfl)
  have hverify := accounted_of_trail (fun _ => verifyTerminal_exchange)
    (ends_verifyTerminal_accounted hown)
    (fun o ho => Ledger.mem_of_newestOrders (List.mem_of_mem_filter (List.mem_of_mem_take ho)))
    hverify (hopen.of_eq rfl .rfl)
  have hlisted : Accounted _ _ := hverify.of_eq
    (trail_peaceful (fun _ => Recording.peaceful cfg checkExchangeOpen_recording) hlisted)
    (Trail.grown (fun _ => growing_checkExchangeOpen _) hlisted)
  have hrecent : Accounted _ _ := hrecent.invariant (fun _ u k _ => Accounted k u)
    (fun _ _ _ _ _ _ _ _ => ends_checkRecentFill_accounted) rfl (hlisted.of_eq rfl .rfl)
  have hconf := trail_peaceful (fun _ => Recording.peaceful cfg checkFillsComplete_recording)
    hcomplete
  have hcomplete : Accounted _ _ := hrecent.of_eq (hconf.trans rfl)
    (Trail.grown (fun _ => growing_checkFillsComplete _ _) hcomplete)
  exact hcomplete.of_eq (ends_peaceful checkPosition_peaceful hposition)
    (growing_checkPosition _ _ _ hposition)

/-- A verdict on a charged order. -/
theorem verdict_of_charged (previous : ReconciliationState) (ack : Bool) (runKey : RunKey)
    {f : Findings} {c : String} (hc : f.Charged c) :
    (verdict previous ack runKey f).status = .halted ∧
      (verdict previous ack runKey f).mismatches = f.mismatches := by
  obtain ⟨m, hm, -, -, hcritical⟩ := hc
  have hne : f.mismatches.filter Mismatch.isCritical ≠ [] :=
    List.ne_nil_of_mem (List.mem_filter.2 ⟨hm, hcritical⟩)
  simp [verdict, hne]

/-- A run that nothing interferes with: its try block, between steps that make no call and meet no
conflict. -/
theorem ends_run_try {env : Prog.Env Label Ans} {F : Answers Ledger Label Ans} {reason : String}
    {ack : Bool} {r : Except Exn ReconResult} (hF : Lenient env F)
    (hrun : Proc.Ends env.answers (run cfg reason ack) h s r h' s') :
    ∃ runKey h₁ s₁ outcome f h₂ s₂, Aside s s₁ ∧ conflicts h₁ = conflicts h ∧
      conflicts h' = conflicts h₂ ∧ LProc.Ends env.answers
        (body cfg runKey (s.getReconState cfg.bot).lastSuccessAt) {} h₁ s₁ outcome f h₂ s₂ ∧
      r = .ok (resultOf (s.getReconState cfg.bot) ack runKey f outcome) ∧
      ((run cfg reason ack).Meets env F h s ↔ LProc.Meets env F
          (body cfg runKey (s.getReconState cfg.bot).lastSuccessAt) {} h₁ s₁) := by
  unfold run at hrun ⊢
  rw [Proc.ends_bind] at hrun
  rcases hrun with ⟨started, h₁, s₁, hnow, hrun⟩ | ⟨e, hnow, -⟩
  · rw [Proc.meets_bind_ok hnow, and_iff_right ((unfailing_clockNow hF).meets _ _)]
    obtain ⟨_, -, -, rfl, rfl⟩ := ends_clockNow hnow
    rw [Proc.ends_bind] at hrun
    rcases hrun with ⟨previous, h₂, s₂, hq, hrun⟩ | ⟨e, hq, -⟩
    · rw [Proc.meets_bind_ok hq, and_iff_right ((unfailing_query _ _).meets _ _)]
      obtain ⟨hprev, rfl, rfl⟩ := (ends_query _ _ _).1 hq
      cases hprev
      rw [Proc.ends_bind] at hrun
      rcases hrun with ⟨nonce, h₃, s₃, hnonce, hrun⟩ | ⟨e, hnonce, -⟩
      · rw [Proc.meets_bind_ok hnonce, and_iff_right ((unfailing_freshNonce hF).meets _ _)]
        obtain ⟨_, -, -, rfl, rfl⟩ := (Proc.ends_ask _ _ _).1 hnonce
        rw [Proc.ends_bind] at hrun
        rcases hrun with ⟨_, h₄, s₄, hset, hrun⟩ | ⟨e, hset, -⟩
        · rw [Proc.meets_bind_ok hset, and_iff_right ((unfailing_setState hF).meets _ _)]
          obtain ⟨-, haside, h₅, hh₅, rfl⟩ := ends_setState hset
          rw [Proc.ends_bind] at hrun
          rcases hrun with ⟨⟨outcome, f⟩, h₆, s₆, hbody, hrun⟩ |
            ⟨e, hbody, -⟩
          · rw [Proc.meets_bind_ok hbody, and_iff_left ((unfailing_conclude hF).meets _ _),
              LProc.meets_outcome]
            obtain ⟨_, _, heq, hbody⟩ := (LProc.ends_outcome _ _).1 hbody
            cases heq
            obtain ⟨rfl, -, h₇, hh₇, hend⟩ := ends_conclude hrun
            refine ⟨_, _, _, _, _, _, _, haside, Eq.trans ?_ hh₅.conflicts_eq, ?_, hbody, rfl, Iff.rfl⟩
            · rfl
            · rw [hend.conflicts_eq, ← hh₇.conflicts_eq]
              cases outcome <;> rfl
          · obtain ⟨_, _, heq, -⟩ := (LProc.ends_outcome _ _).1 hbody
            cases heq
        · cases (ends_setState hset).1
      · obtain ⟨_, -, hr, -⟩ := (Proc.ends_ask _ _ _).1 hnonce
        cases hr
    · cases hq.1
  · obtain ⟨_, hr, -⟩ := ends_clockNow hnow
    cases hr

/-- A run that nothing interferes with, and that meets a conflict, ends HALTED with the conflict
among its unresolved CRITICAL mismatches, if and only if no answer of the exchange is fatal. -/
theorem conflict_halts_iff (cfg : Config) (env : Prog.Env Label Ans) (henv : Adapter env)
    (reason : String) (operatorAck : Bool) (s : Ledger) :
    let p := ReconciliationService.run cfg reason operatorAck
    let out := Prog.run env p.run [] s
    ∀ c ∈ conflicts out.2.1,
      ((∃ result, out.1 = .ok result ∧ result.status = .halted ∧ ∃ m ∈ result.mismatches,
        m.kind = .orderStateConflict ∧ m.clientOrderId = some c ∧ m.isCritical) ↔
      p.Meets env (Survivable cfg env) [] s) := by
  intro p out c hc
  have hown : OwnReports env.answers := fun h _ o r ha => henv.own h o r ha.symm
  obtain ⟨runKey, h₁, s₁, outcome, f, h₂, s₂, -, hstart, hconf, hbody, hr, hmeets⟩ :=
    ends_run_try lenient_survivable (Proc.ends_run env p [] s)
  rw [hmeets, ← exact_body henv hbody]
  change out.1 = _ at hr
  change conflicts out.2.1 = _ at hconf
  cases outcome with
  | error e =>
    refine iff_of_false ?_ (by rintro ⟨_, ⟨⟩⟩)
    rintro ⟨_, heq, hstatus, -⟩
    cases hr.symm.trans heq
    cases hstatus
  | ok _ =>
    refine iff_of_true ?_ ⟨_, rfl⟩
    have hcharged := (ends_body hbody).accounted hown hstart c (hconf ▸ hc)
    obtain ⟨hstatus, hmismatches⟩ :=
      verdict_of_charged (s.getReconState cfg.bot) operatorAck runKey hcharged
    exact ⟨_, hr, hstatus, hmismatches ▸ hcharged⟩

/-! ### Conflicts of an entry -/

/-- The ledger after the sample entry was rejected as not found on the exchange. -/
def notFoundLedger : Ledger where
  orders := ⟨[{ sampleRow sampleEntry .buy 1 "4711" with
    status := .rejected, exchangeOrderId := none, executedQuantity := 0
    rejectReason := some "NOT_FOUND_ON_EXCHANGE after 120s" }], List.pairwise_singleton _ _⟩

/-- An exchange on which the entry was filled after all. -/
def lateFill : (r : Req) → Except Exn r.Val
  | .recentFills .. => .ok [{ sampleFill sampleEntry .buy "1" 2 with clientOrderId := none }]
  | .queryOrderByExchangeId .. => .ok (some (sampleReport sampleEntry .buy .filled 2))
  | r => listing (.ok []) r

/-- The fill leads to the rejected order, the exchange's report contradicts it, and the run ends
DEGRADED without a conflict among its mismatches. -/
theorem adopted_conflict_degrades :
    let out := Prog.run (exchangeEnv lateFill)
      (ReconciliationService.run sampleConfig "periodic" false).run [] notFoundLedger
    conflicts out.2.1 = [(sampleRow sampleEntry .buy 1 "4711").clientOrderId] ∧
      out.1.toOption.map (fun r => (r.status, r.mismatches)) = some (.degraded, []) := by
  decide +kernel

/-- The ledger of an entry that has been canceled. -/
def canceledLedger : Ledger where
  orders := ⟨[{ sampleRow sampleEntry .buy 1 "4711" with
    status := .canceled, executedQuantity := 0, terminalAt := some (seconds 1735689000) }],
    List.pairwise_singleton _ _⟩

theorem adapter_filledEntry : Adapter (exchangeEnv filledEntry) where
  own h o r hr := by
    have hr := Except.ok.inj hr
    split at hr
    · next ho =>
      cases hr
      exact ho
    · cases hr
  raises h r m hr := by
    cases r <;> cases hr

/-- The same conflict, found when the canceled entry is verified: no answer is fatal. -/
theorem verified_conflict_halts :
    let p := ReconciliationService.run sampleConfig "periodic" false
    let out := Prog.run (exchangeEnv filledEntry) p.run [] canceledLedger
    (∃ result, out.1 = .ok result ∧ result.status = .halted ∧ ∃ m ∈ result.mismatches,
      m.kind = .orderStateConflict ∧
        m.clientOrderId = some (sampleRow sampleEntry .buy 1 "4711").clientOrderId ∧
          m.isCritical) ∧
      p.Meets (exchangeEnv filledEntry) (Survivable sampleConfig (exchangeEnv filledEntry)) []
        canceledLedger := by
  intro p out
  have hconf : (sampleRow sampleEntry .buy 1 "4711").clientOrderId ∈ conflicts out.2.1 := by
    decide +kernel
  have hhalted : out.1.toOption.any (fun r => r.status = .halted ∧ r.mismatches.any fun m =>
      m.kind = .orderStateConflict ∧
        m.clientOrderId = some (sampleRow sampleEntry .buy 1 "4711").clientOrderId ∧
          m.isCritical) := by
    decide +kernel
  have hends : ∃ result, out.1 = .ok result ∧ result.status = .halted ∧ ∃ m ∈ result.mismatches,
      m.kind = .orderStateConflict ∧
        m.clientOrderId = some (sampleRow sampleEntry .buy 1 "4711").clientOrderId ∧
          m.isCritical := by
    cases hout : out.1 with
    | error e =>
      rw [hout] at hhalted
      cases hhalted
    | ok result =>
      rw [hout] at hhalted
      exact ⟨result, rfl, by simpa [Except.toOption] using hhalted⟩
  exact ⟨hends, (conflict_halts_iff sampleConfig (exchangeEnv filledEntry) adapter_filledEntry
    "periodic" false canceledLedger _ hconf).1 hends⟩

end CryptoBot
