import CryptoBot.Application.ConflictVerdict

/-!
# How much a run finds

Each check of a run reports one mismatch at most, but for the comparison of the position, which
reports every anomaly. So the ledger before the run and the answers of the exchange bound what a run
finds, and what it can raise.
-/

namespace CryptoBot

open Lib OrderService ReconciliationService

/-! ## What a run comes across -/

/-- The name of the exception and the first characters of its text fit into a reason. -/
def Exn.Short (e : Exn) : Prop := e.typeName.length + min 200 e.message.length ≤ 1975

/-- How much there is for a run to find: open orders of the ledger, open orders of the exchange and
fills that the ledger does not know, and anomalies of the position. -/
structure Budget where
  orders : Nat
  listed : Nat
  fills : Nat
  anomalies : Nat

/-- The local order of a fill, by the exchange's id. -/
def Ledger.ownerOf (cfg : Config) (s : Ledger) (xf : ExchangeFill) : Option Order :=
  if truthy xf.exchangeOrderId then xf.exchangeOrderId.bind (s.getOrderByExchangeId cfg.exchangeName)
  else none

/-- A value shows the run no more than the budget, and no order id that is too long. -/
def Shows (cfg : Config) (b : Budget) (s : Ledger) : (r : Req) → r.Val → Prop
  | .openOrders _, listed =>
      (listed.filter fun r => (s.getOrder r.clientOrderId).isNone).length ≤ b.listed ∧
        ∀ r ∈ listed, (s.getOrder r.clientOrderId).isNone → r.clientOrderId.length ≤ 64
  | .recentFills .., xfs => (xfs.filter fun xf => (s.ownerOf cfg xf).isNone).length ≤ b.fills
  | .queryOrderByExchangeId .., rep => ∀ r ∈ rep, r.clientOrderId.length ≤ 64
  | .balances, _ => (s.folded cfg.bot cfg.symbol).2.length ≤ b.anomalies
  | _, _ => True

/-- An answer keeps within the budget: a nonce has eight characters, a call raises short exceptions
only. -/
def Modest (cfg : Config) (b : Budget) : (q : Request) → Ledger → Ans q → Prop
  | .ambient .uuid, _, nonce => String.length nonce = 8
  | .ambient _, _, _ => True
  | .call r, s, a => (∀ e, a = .error e → e.Short) ∧ ∀ v, a = .ok v → Shows cfg b s r v

variable {cfg : Config} {b : Budget} {ans : Answers Ledger Label Ans} {h h' : History Label Ans}
  {s s' : Ledger} {o : Order} {α β : Type}

/-! ## What is raised -/

theorem Exn.short_of_internal {e : Exn} (he : ∀ t m, e ≠ .external t m) : e.Short := by
  have hname : e.typeName.length ≤ 22 := by
    cases e with
    | external t m => exact absurd rfl (he t m)
    | orderConflict => exact (by decide : "OrderConflict".length ≤ 22)
    | illegalTransition => exact (by decide : "IllegalTransition".length ≤ 22)
    | integrityError => exact (by decide : "IntegrityError".length ≤ 22)
    | concurrentModification => exact (by decide : "ConcurrentModification".length ≤ 22)
    | attributeError => exact (by decide : "AttributeError".length ≤ 22)
  exact (Nat.add_le_add hname (Nat.min_le_left _ _)).trans (by decide)

/-- A transaction that raises short exceptions only. -/
def Tx.Curt (tx : Tx α) : Prop := ∀ s e, tx s = .error e → e.Short

theorem Tx.Curt.bind {tx : Tx α} {f : α → Tx β} (htx : tx.Curt) (hf : ∀ a, (f a).Curt) :
    (tx >>= f).Curt := by
  intro s e he
  rcases Tx.bind_error he with he | ⟨a, s₁, -, he⟩
  · exact htx s e he
  · exact hf a s₁ e he

theorem Tx.Total.curt {tx : Tx α} (htx : tx.Total) : tx.Curt := by
  intro s e he
  obtain ⟨a, s', hok⟩ := htx s
  cases hok.symm.trans he

theorem saveOrder_curt : (Store.saveOrder o).Curt := by
  intro s e he
  unfold Store.saveOrder at he
  dsimp only at he
  split at he
  · split at he
    · cases he
    · cases he
      exact Exn.short_of_internal nofun
  · cases he
    exact Exn.short_of_internal nofun

theorem enqueueOrder_total {now : Time} : (Store.enqueueOrder o now).Total := fun s =>
  ⟨⟨⟩, Store.enqueue_isOk _ _ _ _ s⟩

theorem applyReportTx_curt {r : ExchangeOrderReport} {now : Time} :
    (applyReportTx cfg r now).Curt := by
  intro s e he
  unfold applyReportTx at he
  split at he
  · cases he
  · split at he
    · cases he
    · split at he
      · exact Tx.Curt.bind saveOrder_curt (fun _ => Tx.Curt.bind enqueueOrder_total.curt
          fun _ => (Tx.total_pure _).curt) _ _ he
      · cases he

theorem rejectTx_curt {c reason : String} {now : Time} : (rejectTx c reason now).Curt := by
  intro s e he
  refine Tx.Curt.bind (fun s e he => ?_) (fun x => Tx.Curt.bind (fun s e he => ?_) fun y => ?_)
    s e he
  · unfold Store.present at he
    split at he <;> cases he
    exact Exn.short_of_internal nofun
  · unfold Store.legal at he
    split at he <;> cases he
    exact Exn.short_of_internal nofun
  · obtain ⟨rejected, fresh⟩ := y
    cases rejected with
    | false => exact (Tx.total_pure _).curt
    | true => exact saveOrder_curt.bind fun _ => enqueueOrder_total.curt

/-- A program that raises short exceptions only. -/
def Curt (ans : Answers Ledger Label Ans) (p : Engine α) : Prop :=
  ∀ ⦃h s r h' s'⦄, Proc.Ends ans p h s r h' s' → ∀ e, r = .error e → e.Short

theorem curt_pure (a : α) : Curt ans (pure a : Engine α) := by
  intro h s r h' s' hrun e he
  cases ((Proc.ends_pure _ _).1 hrun).1.symm.trans he

theorem curt_throw {e : Exn} (he : e.Short) : Curt ans (throw e : Engine α) := by
  intro h s r h' s' hrun e' he'
  cases ((Proc.ends_throw _ _).1 hrun).1.symm.trans he'
  exact he

theorem Curt.bind {p : Engine α} {g : α → Engine β} (hp : Curt ans p) (hg : ∀ a, Curt ans (g a)) :
    Curt ans (p >>= g) := by
  intro h s r h' s' hrun e he
  rcases (Proc.ends_bind _ _ _).1 hrun with ⟨a, h₁, s₁, -, hrest⟩ | ⟨e', hfirst, heq⟩
  · exact hg a hrest e he
  · cases heq.symm.trans he
    exact hp hfirst e rfl

theorem Curt.ite {c : Prop} [Decidable c] {p p' : Engine α} (hp : Curt ans p) (hp' : Curt ans p') :
    Curt ans (if c then p else p') := by
  split <;> assumption

theorem Curt.forM {f : β → Engine PUnit} (hf : ∀ x, Curt ans (f x)) :
    ∀ xs : List β, Curt ans (xs.forM f)
  | [] => curt_pure _
  | x :: xs => (hf x).bind fun _ => Curt.forM hf xs

theorem Curt.attempt {p : Engine α} : Curt ans p.attempt := by
  intro h s r h' s' hrun e he
  obtain ⟨_, hok, -⟩ := (Proc.ends_attempt _ _).1 hrun
  cases hok.symm.trans he

theorem curt_query (l : Label) (f : Ledger → α) : Curt ans (query l f) := by
  intro h s r h' s' hrun e he
  cases hrun.1.symm.trans he

theorem curt_clockNow : Curt ans clockNow := by
  intro h s r h' s' hrun e he
  obtain ⟨_, hok, -⟩ := ends_clockNow hrun
  cases hok.symm.trans he

theorem curt_transaction {l : Label} {tx : Tx α} (htx : tx.Curt) : Curt ans (transaction l tx) := by
  intro h s r h' s' hrun e he
  obtain ⟨-, ⟨_, -, hok⟩ | ⟨e', herr, heq, -⟩⟩ := ends_transaction hrun
  · cases hok.symm.trans he
  · cases heq.symm.trans he
    exact htx _ _ herr

section
variable (hans : ∀ h q s a, ans h q s a → Modest cfg b q s a)
include hans

theorem curt_call (r : Req) : Curt ans (call r) := by
  intro h s res h' s' hrun e he
  exact (hans _ _ _ _ (ends_call hrun).1).1 e he

omit hans in
theorem curt_applyReport {r : ExchangeOrderReport} {source : String} :
    Curt ans (applyReport cfg r source) := by
  refine curt_clockNow.bind fun _ => (curt_transaction applyReportTx_curt).bind fun out => ?_
  cases out with
  | unknown | applied => exact curt_pure _
  | conflict c m =>
    refine Curt.bind ?_ fun _ => curt_throw (Exn.short_of_internal nofun)
    exact curt_clockNow.bind fun _ =>
      (curt_transaction (Tx.Total.curt fun s => ⟨⟨⟩, Store.enqueue_isOk _ _ _ _ s⟩)).bind fun _ =>
      curt_transaction (Tx.Total.curt fun s => ⟨⟨⟩, Store.enqueue_isOk _ _ _ _ s⟩)

omit hans in
theorem curt_ingestFill {xf : ExchangeFill} : Curt ans (ingestFill cfg xf) :=
  curt_clockNow.bind fun now => curt_transaction (Tx.Total.curt (ingestFillTx_total xf now))

theorem curt_ingestOrderFills {x : Option Order} : Curt ans (ingestOrderFills cfg x) := by
  cases x with
  | none => exact curt_pure _
  | some o =>
    refine .ite ((curt_call hans _).bind fun _ => ?_) (curt_pure _)
    exact Curt.forM (fun _ => curt_ingestFill.bind fun _ => curt_pure _) _

theorem curt_resolveAmbiguous : Curt ans (resolveAmbiguous cfg o) := by
  refine .ite (curt_pure _) (Curt.attempt.bind fun r => ?_)
  rcases r with e | _ | r
  · exact curt_pure _
  · refine curt_clockNow.bind fun t => .ite (curt_pure _) ?_
    exact (curt_transaction rejectTx_curt).bind fun _ => curt_pure _
  · exact curt_applyReport.bind fun _ => (curt_query _ _).bind fun _ =>
      (curt_ingestOrderFills hans).bind fun _ => curt_pure _

theorem curt_refresh : Curt ans (refresh cfg o) := by
  have hrest : Curt ans (do
      let fresh ← query .query (·.getOrder o.clientOrderId)
      ingestOrderFills cfg fresh
      query .query (·.getOrder o.clientOrderId) : Engine (Option Order)) :=
    (curt_query _ _).bind fun _ => (curt_ingestOrderFills hans).bind fun _ => curt_query _ _
  refine (curt_call hans _).bind fun rep => ?_
  cases rep with
  | none => exact hrest
  | some r => exact curt_applyReport.bind fun _ => hrest

omit hans in
theorem curt_compareTerminal {r : ExchangeOrderReport} : Curt ans (compareTerminal cfg o r) := by
  refine curt_applyReport.bind fun _ => (curt_query _ _).bind fun fresh => ?_
  cases fresh with
  | none => exact curt_throw (Exn.short_of_internal nofun)
  | some _ => exact curt_pure _

omit hans in
theorem curt_rebuild : Curt ans (rebuild cfg) :=
  (curt_query _ _).bind fun _ => (curt_query _ _).bind fun _ => curt_clockNow.bind fun _ =>
    (curt_transaction (Tx.Total.curt fun _ => ⟨_, _, rfl⟩)).bind fun _ => curt_pure _

end

/-! ## What is found -/

/-- The order id of a mismatch fits into a request. -/
def Mismatch.Named (m : Mismatch) : Prop := ∀ id ∈ m.clientOrderId, id.length ≤ 64

/-- At most `n` mismatches and pending orders more, with ids that fit. -/
structure ReconciliationService.Findings.Adds (n : Nat) (f f' : Findings) : Prop where
  mismatches : f'.mismatches.length ≤ f.mismatches.length + n
  pending : f'.pendingAmbiguous ≤ f.pendingAmbiguous + n
  named : (∀ m ∈ f.mismatches, m.Named) → ∀ m ∈ f'.mismatches, m.Named

theorem ReconciliationService.Findings.Adds.rfl {f : Findings} : f.Adds 0 f :=
  ⟨le_rfl, le_rfl, id⟩

theorem ReconciliationService.Findings.Adds.trans {n m : Nat} {f f' f'' : Findings}
    (h : f.Adds n f') (h' : f'.Adds m f'') : f.Adds (n + m) f'' := by
  refine ⟨?_, ?_, fun hf => h'.named (h.named hf)⟩
  · have := h.mismatches
    have := h'.mismatches
    omega
  · have := h.pending
    have := h'.pending
    omega

theorem ReconciliationService.Findings.Adds.mono {n m : Nat} {f f' : Findings} (h : f.Adds n f')
    (hnm : n ≤ m) : f.Adds m f' :=
  ⟨h.mismatches.trans (by omega), h.pending.trans (by omega), h.named⟩

/-- From here the program adds at most `n`, and raises short exceptions only. -/
def Adding (ans : Answers Ledger Label Ans) (n : Nat) (p : RunM α) (h : History Label Ans)
    (s : Ledger) : Prop :=
  ∀ ⦃t r t' h' s'⦄, LProc.Ends ans p t h s r t' h' s' → t.Adds n t' ∧ ∀ e, r = .error e → e.Short

theorem Adding.mono {n m : Nat} {p : RunM α} (hp : Adding ans n p h s) (hnm : n ≤ m) :
    Adding ans m p h s := fun _ _ _ _ _ hrun => ⟨(hp hrun).1.mono hnm, (hp hrun).2⟩

theorem adding_pure (a : α) : Adding ans 0 (pure a) h s := by
  intro t r t' h' s' hrun
  obtain ⟨⟨rfl, rfl⟩, -⟩ := (LProc.ends_pure _ _).1 hrun
  exact ⟨.rfl, nofun⟩

theorem adding_throw {e : Exn} (he : e.Short) : Adding ans 0 (throw e : RunM α) h s := by
  intro t r t' h' s' hrun
  obtain ⟨⟨rfl, rfl⟩, -⟩ := (LProc.ends_throw _ _).1 hrun
  refine ⟨.rfl, ?_⟩
  rintro _ ⟨⟩
  exact he

theorem adding_exec {p : Engine α} (hp : Curt ans p) : Adding ans 0 (LProc.exec p) h s := by
  intro t r t' h' s' hrun
  obtain ⟨rfl, hends⟩ := (LProc.ends_exec _ _).1 hrun
  exact ⟨.rfl, hp hends⟩

theorem adding_report {kind : MismatchKind} {severity : MismatchSeverity} {c : Option String}
    {detail : MismatchDetail} {resolved : Bool} (hc : ∀ id ∈ c, id.length ≤ 64) :
    Adding ans 1 (report kind severity c detail resolved) h s := by
  intro t r t' h' s' hrun
  obtain ⟨⟨rfl, rfl⟩, -⟩ := (LProc.ends_assign _ _).1 hrun
  refine ⟨⟨List.length_append.le, Nat.le_succ _, fun ht m hm => ?_⟩, nofun⟩
  rcases List.mem_append.1 hm with hm | hm
  · exact ht m hm
  · rw [List.mem_singleton.1 hm]
    exact hc

theorem Adding.bind {n m : Nat} {p : RunM α} {g : α → RunM β} (hp : Adding ans n p h s)
    (hg : ∀ {a t t₁ h₁ s₁}, LProc.Ends ans p t h s (.ok a) t₁ h₁ s₁ → Adding ans m (g a) h₁ s₁) :
    Adding ans (n + m) (p >>= g) h s := by
  intro t r t' h' s' hrun
  rcases (LProc.ends_bind _ _ _).1 hrun with ⟨a, t₁, h₁, s₁, hfirst, hrest⟩ | ⟨e, hfirst, rfl⟩
  · exact ⟨(hp hfirst).1.trans (hg hfirst hrest).1, (hg hfirst hrest).2⟩
  · refine ⟨(hp hfirst).1.mono (Nat.le_add_right _ _), ?_⟩
    rintro _ ⟨⟩
    exact (hp hfirst).2 e rfl

/-- A program of the engine finds nothing itself. -/
theorem Adding.after {n : Nat} {p : Engine α} {g : α → RunM β} (hp : Curt ans p)
    (hg : ∀ {a h₁ s₁}, Proc.Ends ans p h s (.ok a) h₁ s₁ → Adding ans n (g a) h₁ s₁) :
    Adding ans n (LProc.exec p >>= g) h s := by
  rw [← Nat.zero_add n]
  exact (adding_exec hp).bind fun hfirst => hg ((LProc.ends_exec _ _).1 hfirst).2

/-- Nor does one whose exceptions are handled. -/
theorem Adding.attempt {n : Nat} {p : Engine α} {g : Except Exn α → RunM β} (hp : Curt ans p)
    (hg : ∀ {r h₁ s₁}, (∀ e, r = .error e → e.Short) → Adding ans n (g r) h₁ s₁) :
    Adding ans n (LProc.exec p.attempt >>= g) h s := by
  refine Adding.after Curt.attempt fun hends => ?_
  obtain ⟨_, heq, hends⟩ := (Proc.ends_attempt _ _).1 hends
  cases heq
  exact hg (hp hends)

theorem Adding.ite {n : Nat} {c : Prop} [Decidable c] {p p' : RunM α} (hp : Adding ans n p h s)
    (hp' : Adding ans n p' h s) : Adding ans n (if c then p else p') h s := by
  split <;> assumption

/-- A loop adds what its elements add; `I` holds of the elements still to come. -/
theorem adding_forM {f : β → RunM PUnit} (cost : β → Nat) (I : List β → Ledger → Prop)
    (hf : ∀ {x xs h s}, I (x :: xs) s → Adding ans (cost x) (f x) h s)
    (hI : ∀ {x xs t h s t' h' s'}, I (x :: xs) s → LProc.Ends ans (f x) t h s (.ok ⟨⟩) t' h' s' →
      I xs s') {xs : List β} (hs : I xs s) : Adding ans (xs.map cost).sum (xs.forM f) h s := by
  induction xs generalizing h s with
  | nil => exact adding_pure _
  | cons x xs ih =>
    rw [List.map_cons, List.sum_cons]
    exact (hf hs).bind fun hx => ih (hI hs hx)

theorem adding_onConflict {out : Except Exn α} {k : α → RunM PUnit}
    (ho : o.clientOrderId.length ≤ 64) (hout : ∀ e, out = .error e → e.Short)
    (hk : ∀ a, Adding ans 1 (k a) h s) : Adding ans 1 (onConflict o out k) h s := by
  unfold onConflict
  split
  · exact hk _
  · refine adding_report ?_
    rintro _ ⟨⟩
    exact ho
  · next e _ => exact (adding_throw (hout e rfl)).mono (Nat.zero_le _)

/-! ## The checks -/

/-- The ids of the ledger's orders fit. -/
def Ledger.Named (s : Ledger) : Prop := ∀ c, (s.getOrder c).isSome → c.length ≤ 64

theorem ExchangeMove.getOrder_isNone (hm : ExchangeMove cfg s s') (c : String) :
    (s'.getOrder c).isNone = (s.getOrder c).isNone := by
  rw [← Option.not_isSome, hm.getOrder_isSome, Option.not_isSome]

theorem ExchangeMove.named (hm : ExchangeMove cfg s s') (hs : s.Named) : s'.Named := by
  intro c hc
  rw [hm.getOrder_isSome] at hc
  exact hs c hc

theorem Ledger.Named.row (hs : s.Named) (ho : o ∈ s.orders.rows) : o.clientOrderId.length ≤ 64 := by
  refine hs _ ?_
  rw [Ledger.getOrder_of_mem ho]
  rfl

/-- An order keeps the exchange's id that it has. -/
theorem OrderChange.exchangeOrderId {o' : Order} (hc : OrderChange cfg s o o')
    (ho : truthy o.exchangeOrderId) : o'.exchangeOrderId = o.exchangeOrderId := by
  cases hc with
  | report _ happly =>
    refine (Order.applyReport_ok happly).1.exchangeOrderId.trans ?_
    rw [Order.adoptsExchangeId, ho, Bool.not_true, Bool.and_false]
    rfl
  | rejected h =>
    rw [Order.markRejected] at h
    split at h
    · cases h
    · unfold Order.transition at h
      split at h
      · cases h
        rfl
      · split at h <;> cases h
        rfl
  | flagged => rfl

/-- An order that is found by the exchange's id stays so. -/
theorem ExchangeMove.ownerOf (hm : ExchangeMove cfg s s') {xf : ExchangeFill}
    (hx : (s.ownerOf cfg xf).isSome) : (s'.ownerOf cfg xf).isSome := by
  unfold Ledger.ownerOf at hx ⊢
  split at hx
  · next hid =>
    rw [if_pos hid]
    cases hxid : xf.exchangeOrderId with
    | none =>
      rw [hxid] at hx
      cases hx
    | some x =>
      rw [hxid] at hx hid
      replace hx : (s.getOrderByExchangeId cfg.exchangeName x).isSome := hx
      show (s'.getOrderByExchangeId cfg.exchangeName x).isSome
      clear hxid
      have hcongr {s s' : Ledger} (ho : s'.orders = s.orders) :
          s'.getOrderByExchangeId cfg.exchangeName x =
            s.getOrderByExchangeId cfg.exchangeName x := by
        rw [Ledger.getOrderByExchangeId, ho, Ledger.getOrderByExchangeId]
      induction hm with
      | keep hbooks => exact hcongr (congrArg Ledger.orders hbooks :) ▸ hx
      | fill hf => exact hcongr (congrArg Ledger.orders hf.rest :) ▸ hx
      | seq _ _ ih ih' => exact ih' (ih hx)
      | @change s s' o o' hc hr =>
        obtain ⟨w, hw⟩ := Option.isSome_iff_exists.1 hx
        obtain ⟨hmem, hexchange, hwid⟩ := Ledger.getOrderByExchangeId_mem hw
        by_cases heq : w.id = o.id
        · obtain rfl := Ledger.eq_of_id hmem hr.mem heq
          rw [Ledger.getOrderByExchangeId_of_mem hr.mem_new (hr.same.exchange.trans hexchange)
            ((hc.exchangeOrderId (by rw [hwid]; exact hid)).trans hwid)]
          rfl
        · rw [Ledger.getOrderByExchangeId_of_mem (hr.mem_iff.2 (.inr ⟨hmem, heq⟩)) hexchange hwid]
          rfl
  · cases hx

section
variable (hans : ∀ h q s a, ans h q s a → Modest cfg b q s a)
include hans

theorem adding_checkOpenOrder (ho : o.clientOrderId.length ≤ 64) :
    Adding ans 1 (checkOpenOrder cfg o) h s := by
  have hid : ∀ id ∈ some o.clientOrderId, id.length ≤ 64 := by
    rintro _ ⟨⟩
    exact ho
  refine .ite (.attempt (curt_resolveAmbiguous hans) fun hres => adding_onConflict ho hres
    fun r => ?_) (.attempt (curt_refresh hans) fun hres => adding_onConflict ho hres
    fun _ => (adding_pure _).mono (Nat.zero_le _))
  cases r with
  | resolved => exact (adding_pure _).mono (Nat.zero_le _)
  | pending =>
    intro t r t' h' s' hrun
    rcases (LProc.ends_bind _ _ _).1 hrun with ⟨_, t₁, h₁, s₁, hadd, hrest⟩ | ⟨e, hadd, -⟩
    · obtain ⟨⟨-, rfl⟩, -⟩ := (LProc.ends_assign _ _).1 hadd
      obtain ⟨hreport, hraised⟩ := adding_report hid hrest
      exact ⟨⟨hreport.mismatches, ((LProc.ends_assign _ _).1 hrest).1.2 ▸ le_rfl,
        hreport.named⟩, hraised⟩
    · cases ((LProc.ends_assign _ _).1 hadd).1.1

theorem adding_verifyTerminal (ho : o.clientOrderId.length ≤ 64) :
    Adding ans 1 (verifyTerminal cfg o) h s := by
  have hid : ∀ id ∈ some o.clientOrderId, id.length ≤ 64 := by
    rintro _ ⟨⟩
    exact ho
  refine .after (curt_call hans _) fun {rep _ _} _ => ?_
  cases rep with
  | none => exact adding_report hid
  | some rep =>
    exact .ite (.attempt curt_compareTerminal fun hres => adding_onConflict ho hres fun _ =>
      .ite (adding_report hid) ((adding_pure _).mono (Nat.zero_le _)))
      ((adding_pure _).mono (Nat.zero_le _))

omit hans in
theorem adding_checkExchangeOpen {r : ExchangeOrderReport}
    (hr : (s.getOrder r.clientOrderId).isNone → r.clientOrderId.length ≤ 64) :
    Adding ans (if (s.getOrder r.clientOrderId).isNone then 1 else 0)
      (checkExchangeOpen cfg r) h s := by
  refine .after (curt_query _ _) fun {loc h₁ s₁} hq => ?_
  obtain ⟨hloc, rfl, rfl⟩ := (ends_query _ _ _).1 hq
  obtain rfl := Except.ok.inj hloc
  cases hget : s₁.getOrder r.clientOrderId with
  | some _ => exact adding_pure _
  | none =>
    refine adding_report ?_
    rintro _ ⟨⟩
    exact hr (by rw [hget]; rfl)

/-- The owner of a fill is not found only where the ledger does not know the order, and the
exchange's report of it has an id that fits. -/
theorem ends_ownerOfFill_unknown {xf : ExchangeFill} {t t' : Findings} {c : Option String}
    (hrun : LProc.Ends ans (ownerOfFill cfg xf) t h s (.ok (.error c)) t' h' s') :
    s.ownerOf cfg xf = none ∧ ∀ id ∈ c, id.length ≤ 64 := by
  unfold ownerOfFill at hrun
  rw [LProc.ends_exec_bind_ok] at hrun
  obtain ⟨loc, _, _, hq, hrun⟩ := hrun
  obtain ⟨hloc, rfl, rfl⟩ := (ends_query _ _ _).1 hq
  cases loc with
  | some x => cases ((LProc.ends_pure _ _).1 hrun).1.1
  | none =>
    refine ⟨(Except.ok.inj hloc).symm, ?_⟩
    dsimp only at hrun
    split at hrun
    · rw [LProc.ends_exec_bind_ok] at hrun
      obtain ⟨rep, _, _, hcall, hrun⟩ := hrun
      obtain ⟨ha, rfl, rfl⟩ := ends_call_ok hcall
      have hrep := (hans _ _ _ _ ha).2 rep rfl
      cases rep with
      | none =>
        cases ((LProc.ends_pure _ _).1 hrun).1.1
        exact nofun
      | some rep =>
        simp only [adopt] at hrun
        rw [LProc.ends_exec_bind_ok] at hrun
        obtain ⟨loc, _, _, hq, hrun⟩ := hrun
        cases loc with
        | none =>
          cases ((LProc.ends_pure _ _).1 hrun).1.1
          rintro _ ⟨⟩
          exact hrep rep rfl
        | some x =>
          dsimp only at hrun
          rw [LProc.ends_exec_bind_ok] at hrun
          obtain ⟨_, _, _, -, hrun⟩ := hrun
          cases ((LProc.ends_pure _ _).1 hrun).1.1
    · cases ((LProc.ends_pure _ _).1 hrun).1.1
      exact nofun

omit hans in
theorem adding_adopt {rep : Option ExchangeOrderReport} : Adding ans 0 (adopt cfg rep) h s := by
  cases rep with
  | none => exact adding_pure _
  | some r =>
    refine .after (curt_query _ _) fun {loc _ _} _ => ?_
    cases loc with
    | none => exact adding_pure _
    | some _ => exact .after curt_applyReport fun _ => adding_pure _

theorem adding_checkRecentFill {xf : ExchangeFill} :
    Adding ans (if (s.ownerOf cfg xf).isNone then 1 else 0) (checkRecentFill cfg xf) h s := by
  have howner : Adding ans 0 (ownerOfFill cfg xf) h s := by
    refine .after (curt_query _ _) fun {loc _ _} _ => ?_
    cases loc with
    | some _ => exact adding_pure _
    | none => exact .ite (.after (curt_call hans _) fun _ => adding_adopt) adding_adopt
  rw [← Nat.zero_add (if (s.ownerOf cfg xf).isNone then 1 else 0)]
  refine howner.bind fun {res _ _ _ _} hres => ?_
  cases res with
  | error c =>
    obtain ⟨hnone, hc⟩ := ends_ownerOfFill_unknown hans hres
    rw [hnone]
    exact adding_report hc
  | ok _ =>
    exact Adding.mono (.after curt_ingestFill fun _ => adding_pure _) (Nat.zero_le _)

theorem adding_checkFillsComplete {tolerance : ℚ} (ho : o.clientOrderId.length ≤ 64) :
    Adding ans 1 (checkFillsComplete cfg tolerance o) h s := by
  have hzero {h s} : Adding ans 1 (pure ⟨⟩ : RunM PUnit) h s := (adding_pure _).mono (Nat.zero_le _)
  refine .ite hzero (.after (curt_query _ _) fun _ => .ite
    (.after (curt_ingestOrderFills hans) fun _ => .after (curt_query _ _) fun _ =>
      .ite (adding_report ?_) hzero) hzero)
  rintro _ ⟨⟩
  exact ho

omit hans in
theorem adding_comparePosition {tolerance baseTotal : ℚ} {before rebuilt : Position}
    {anomalies : List Anomaly} :
    Adding ans (anomalies.length + 2)
      (comparePosition tolerance before rebuilt anomalies baseTotal) h s := by
  have hreport {kind severity detail resolved h s} :
      Adding ans 1 (report kind severity none detail resolved) h s := adding_report nofun
  have hanomalies {h s} : Adding ans anomalies.length (anomalies.forM fun a =>
      report .positionAnomaly .critical none (.anomaly a)) h s := by
    have hloop : Adding ans (anomalies.map fun _ => 1).sum (anomalies.forM fun a =>
        report .positionAnomaly .critical none (.anomaly a)) h s :=
      adding_forM (fun _ => 1) (fun _ _ => True) (fun _ => hreport) (fun _ _ => trivial) trivial
    simpa using hloop
  have hrest {h s} : Adding ans (anomalies.length + 1) (do
      anomalies.forM fun a => report .positionAnomaly .critical none (.anomaly a)
      if tolerance < rebuilt.quantity - baseTotal then
        report .balanceBelowPosition .critical none (.quantities rebuilt.quantity baseTotal)) h s :=
    hanomalies.bind fun _ => .ite hreport ((adding_pure _).mono (Nat.zero_le _))
  exact .ite ((hreport.bind fun _ => hrest).mono (by omega)) (hrest.mono (by omega))

omit hans in
/-- The anomalies of a rebuilt position are those of the fold of the fills. -/
theorem ends_rebuild_anomalies {res : Position × List Anomaly}
    (hrun : Proc.Ends ans (rebuild cfg) h s (.ok res) h' s') :
    res.2 = (s.folded cfg.bot cfg.symbol).2 := by
  unfold rebuild at hrun
  obtain ⟨existing, h₁, s₁, hq, hrun⟩ := (Proc.ends_bind_ok _ _ _).1 hrun
  obtain ⟨hval, rfl, rfl⟩ := (ends_query _ _ _).1 hq
  cases hval
  obtain ⟨fills, h₂, s₂, hq, hrun⟩ := (Proc.ends_bind_ok _ _ _).1 hrun
  obtain ⟨hval, rfl, rfl⟩ := (ends_query _ _ _).1 hq
  cases hval
  obtain ⟨now, h₃, s₃, -, hrun⟩ := (Proc.ends_bind_ok _ _ _).1 hrun
  obtain ⟨p, h₄, s₄, -, hrun⟩ := (Proc.ends_bind_ok _ _ _).1 hrun
  cases ((Proc.ends_pure _ _).1 hrun).1
  rfl

theorem adding_checkPosition {runKey : RunKey} {rules : SymbolRules} {tolerance : ℚ} :
    Adding ans (b.anomalies + 3) (checkPosition cfg runKey rules tolerance) h s := by
  refine .after (curt_call hans _) fun {balances h₁ s₁} hcall => ?_
  obtain ⟨ha, -, rfl⟩ := ends_call hcall
  have hshown := (hans _ _ _ _ ha).2 _ rfl
  refine .after (curt_query _ _) fun {before h₂ s₂} hq => ?_
  obtain ⟨-, -, rfl⟩ := (ends_query _ _ _).1 hq
  refine .after curt_rebuild fun {res _ _} hrebuild => ?_
  have hanomalies := ends_rebuild_anomalies hrebuild
  obtain ⟨rebuilt, anomalies⟩ := res
  have hlast {h s} : Adding ans 1 (checkProtectiveStop cfg rules rebuilt) h s :=
    .ite (.after (curt_query _ _) fun _ => .ite (adding_report nofun)
      ((adding_pure _).mono (Nat.zero_le _))) ((adding_pure _).mono (Nat.zero_le _))
  refine Adding.mono (adding_comparePosition.bind fun _ =>
    .after (curt_transaction (Tx.Total.curt fun _ => ⟨_, _, rfl⟩)) fun _ =>
    .after curt_clockNow fun _ =>
    .after (curt_transaction (Tx.Total.curt fun s => ⟨⟨⟩, Store.enqueue_isOk _ _ _ _ s⟩))
      fun _ => hlast) ?_
  have hle : anomalies.length ≤ b.anomalies := le_of_eq_of_le (congrArg List.length hanomalies) hshown
  omega

omit hans in
/-- A loop over orders. -/
theorem adding_orders {check : Order → RunM PUnit} (hcheck : ∀ {o h s},
    o.clientOrderId.length ≤ 64 → Adding ans 1 (check o) h s) {os : List Order}
    (hos : ∀ o ∈ os, o.clientOrderId.length ≤ 64) : Adding ans os.length (os.forM check) h s := by
  have hloop : Adding ans (os.map fun _ => 1).sum (os.forM check) h s :=
    adding_forM (fun _ => 1) (fun os _ => ∀ o ∈ os, o.clientOrderId.length ≤ 64)
      (fun h => hcheck (h _ (.head _))) (fun h _ o ho => h o (.tail _ ho)) hos
  simpa using hloop

omit hans in
theorem sum_map_ite (p : β → Bool) (xs : List β) :
    (xs.map fun x => if p x then 1 else 0).sum = (xs.filter p).length := by
  induction xs with
  | nil => rfl
  | cons x xs ih =>
    rw [List.map_cons, List.sum_cons, ih, List.filter_cons]
    split
    · rw [List.length_cons, Nat.add_comm]
    · rw [Nat.zero_add]

omit hans in
/-- The loop over the orders that the exchange lists. -/
theorem adding_listed {listed : List ExchangeOrderReport} (hids : ∀ r ∈ listed,
      (s.getOrder r.clientOrderId).isNone → r.clientOrderId.length ≤ 64) :
    Adding ans (listed.filter fun r => (s.getOrder r.clientOrderId).isNone).length
      (listed.forM (checkExchangeOpen cfg)) h s := by
  rw [← sum_map_ite]
  refine adding_forM _ (fun rest v => ExchangeMove cfg s v ∧ ∀ r ∈ rest,
    (s.getOrder r.clientOrderId).isNone → r.clientOrderId.length ≤ 64) ?_ ?_ ⟨.rfl, hids⟩
  · rintro r rest h v ⟨hmoved, hids⟩
    rw [← hmoved.getOrder_isNone]
    refine adding_checkExchangeOpen fun hnone => hids r (.head _) ?_
    rwa [← hmoved.getOrder_isNone]
  · rintro r rest t h v t' h' v' ⟨hmoved, hids⟩ hrun
    exact ⟨hmoved.seq (ends_exchange (Recording.run_exchange checkExchangeOpen_recording) hrun),
      fun x hx => hids x (.tail _ hx)⟩

/-- The loop over the recent fills. -/
theorem adding_fills {xfs : List ExchangeFill} :
    Adding ans (xfs.filter fun xf => (s.ownerOf cfg xf).isNone).length
      (xfs.forM (checkRecentFill cfg)) h s := by
  rw [← sum_map_ite]
  refine adding_forM _ (fun _ v => ∀ xf, (s.ownerOf cfg xf).isSome → (v.ownerOf cfg xf).isSome)
    (fun {xf _ h v} hknown => ?_) (fun hknown hrun xf hxf => ?_) fun _ => id
  · refine Adding.mono (adding_checkRecentFill hans) ?_
    have hxf := hknown xf
    cases howner : s.ownerOf cfg xf with
    | none => split <;> decide
    | some _ =>
      obtain ⟨y, hy⟩ := Option.isSome_iff_exists.1 (hxf (by rw [howner]; rfl))
      rw [hy]
      exact Nat.zero_le _
  · exact (ends_exchange checkRecentFill_exchange hrun).ownerOf (hknown xf hxf)

/-- The try block of a run adds no more than the budget, the terminal orders it verifies, the newest
orders whose fills it counts, and three mismatches of the position. -/
theorem adding_body {runKey : RunKey} {last : Option Time} (hnamed : s.Named)
    (horders : (s.nonTerminalOrders cfg.bot cfg.symbol).length ≤ b.orders) :
    Adding ans (b.orders + b.listed + b.fills + b.anomalies + 123) (body cfg runKey last) h s := by
  have hnewest {s : Ledger} (hs : s.Named) {o : Order}
      (ho : o ∈ s.newestOrders cfg.bot cfg.symbol 100) : o.clientOrderId.length ≤ 64 :=
    hs.row (Ledger.mem_of_newestOrders ho)
  refine .after (curt_call hans _) fun {rules h₁ s₁} hcall => ?_
  obtain ⟨-, -, rfl⟩ := ends_call hcall
  refine .after (curt_query _ _) fun {localOpen h₂ s₂} hq => ?_
  obtain ⟨hopen, -, rfl⟩ := (ends_query _ _ _).1 hq
  obtain rfl := Except.ok.inj hopen
  refine .after (curt_call hans _) fun {exchangeOpen h₃ s₃} hcall => ?_
  obtain ⟨ha, -, rfl⟩ := ends_call hcall
  obtain ⟨hlisted, hids⟩ := (hans _ _ _ _ ha).2 _ rfl
  refine Adding.mono (Adding.bind (adding_orders (adding_checkOpenOrder hans)
    fun o ho => hnamed.row (Ledger.mem_nonTerminalOrders.1 ho).1)
    (m := 20 + (b.listed + (b.fills + (100 + (b.anomalies + 3))))) fun {_ _ _ _ s₄} hrun => ?_)
    (by omega)
  have hmoved := ends_exchange (LProc.Within.forM (fun _ => checkOpenOrder_exchange) _) hrun
  refine .after curt_clockNow fun {now h₅ s₅} hnow => ?_
  obtain ⟨_, -, -, -, rfl⟩ := ends_clockNow hnow
  refine .after (curt_query _ _) fun {recent h₆ s₆} hq => ?_
  obtain ⟨hrecent, -, rfl⟩ := (ends_query _ _ _).1 hq
  obtain rfl := Except.ok.inj hrecent
  refine Adding.bind (Adding.mono (adding_orders (adding_verifyTerminal hans) fun o ho =>
    hnewest (hmoved.named hnamed) (List.mem_of_mem_filter (List.mem_of_mem_take ho)))
    (List.length_take_le _ _)) fun {_ _ _ _ s₇} hrun => ?_
  have hmoved := hmoved.seq
    (ends_exchange (LProc.Within.forM (fun _ => verifyTerminal_exchange) _) hrun)
  refine Adding.bind (Adding.mono (adding_listed fun r hr hnone => hids r hr ?_)
    (le_of_eq_of_le ?_ hlisted)) fun {_ _ _ _ s₈} hrun => ?_
  · rwa [← hmoved.getOrder_isNone]
  · exact congrArg List.length (List.filter_congr fun r _ => hmoved.getOrder_isNone _)
  have hmoved := hmoved.seq (ends_exchange (LProc.Within.forM (fun _ =>
    Recording.run_exchange checkExchangeOpen_recording) _) hrun)
  refine .after (curt_call hans _) fun {fills h₉ s₉} hcall => ?_
  obtain ⟨ha, -, rfl⟩ := ends_call hcall
  have hshown := (hans _ _ _ _ ha).2 _ rfl
  refine Adding.bind (Adding.mono (adding_fills hans) hshown) fun hrun => ?_
  have hmoved := hmoved.seq
    (ends_exchange (LProc.Within.forM (fun _ => checkRecentFill_exchange) _) hrun)
  refine .after (curt_query _ _) fun {orders _ s'} hq => ?_
  obtain ⟨horders, -, rfl⟩ := (ends_query _ _ _).1 hq
  obtain rfl := Except.ok.inj horders
  exact Adding.bind (Adding.mono (adding_orders (adding_checkFillsComplete hans) fun o ho =>
    hnewest (hmoved.named hnamed) ho) (List.length_take_le _ _)) fun _ => adding_checkPosition hans

end

end CryptoBot
