import CryptoBot.Application.SingleSend

/-!
# Retries are exclusive

A new attempt of a decision is placed when every earlier attempt has ended without a fill. Late
reports, ambiguous submissions and orders the exchange did not find could still change an earlier
attempt afterwards. On an exchange that keeps its word they do not: what a terminal report says has
been executed is final, and an order that was refused, or that was unknown after the grace period,
never executes. So at most one attempt of a decision is ever alive.
-/

namespace CryptoBot

open Lib OrderService TradingCycle

/-! ## An exchange that keeps its word -/

/-- What an exchange will have done in the end: under which client order id each of its orders was
placed, and how much of an order executes. -/
structure Outcome where
  owner : String → String
  final : String → ℚ
  nonneg : ∀ c, 0 ≤ final c

/-- A report about the order placed under `c`: it carries that client order id or one of no intent,
and an exchange id of that order or none; it never reports more than what executes in the end, and a
terminal report carries exactly that. -/
structure Outcome.About (X : Outcome) (cfg : Config) (c : String) (r : ExchangeOrderReport) :
    Prop where
  named : r.clientOrderId = c ∨
    ∀ i, makeClientOrderId cfg.textLib cfg.clientOrderIdPrefix i ≠ r.clientOrderId
  owned : ∀ x, r.exchangeOrderId = some x → truthy (some x) → X.owner x = c
  bounded : r.executedQty ≤ X.final c
  terminal : r.status.isTerminal → r.executedQty = X.final c

/-- A report of the exchange. -/
def Outcome.Genuine (X : Outcome) (cfg : Config) (r : ExchangeOrderReport) : Prop :=
  ∃ c, X.About cfg c r

/-- An order that is refused does not execute. -/
def Outcome.Refuses (X : Outcome) : (r : Req) → Except Exn r.Val → Prop
  | .submit o _, .ok out => out.kind = .rejected → X.final o.clientOrderId ≤ 0
  | _, _ => True

/-- The answers of the exchange: its reports are genuine, and neither an order it refused nor one it
did not know when the grace period had passed ever executes. -/
def Outcome.Answers (X : Outcome) (cfg : Config) (h : History Label Ans) :
    (q : Request) → Ans q → Prop
  | .call r, a => Heard (X.Genuine cfg) r a ∧ X.Refuses r a
  | .ambient .now, t => ∀ o h', h = .call (.call (.queryOrder o)) (.ok none) :: h' →
      seconds cfg.ambiguousOrderGraceSeconds ≤ t - o.submittedAt.getD t →
        X.final o.clientOrderId ≤ 0
  | .ambient _, _ => True

/-! ## The attempts of a ledger -/

/-- An attempt is alive while it is not terminal, and for good once it has executed. -/
def Order.Live (o : Order) : Prop := o.isTerminal = false ∨ 0 < o.executedQuantity

/-- Every attempt before the `n`-th of this decision has ended without a fill. -/
def Tried (base : IntentBase) (n : Nat) (s : Ledger) : Prop :=
  ∀ j < n, ∃ a ∈ s.orders.rows, a.clientIntentId = ⟨base, j⟩ ∧ endedWithoutFill a = true

/-- An order of a ledger that agrees with the exchange: its ids are its own, it has not executed
more than it does in the end, and exactly that once it is terminal. -/
structure Agrees (X : Outcome) (cfg : Config) (o : Order) : Prop where
  clientOrderId : o.clientOrderId =
    makeClientOrderId cfg.textLib cfg.clientOrderIdPrefix o.clientIntentId
  owned : ∀ x, o.exchangeOrderId = some x → truthy (some x) → X.owner x = o.clientOrderId
  nonneg : 0 ≤ o.executedQuantity
  bounded : o.executedQuantity ≤ X.final o.clientOrderId
  terminal : o.isTerminal → o.executedQuantity = X.final o.clientOrderId

/-- Every order agrees with the exchange, and comes after attempts that have ended without a fill. -/
structure Attempts (X : Outcome) (cfg : Config) (s : Ledger) : Prop where
  agrees : ∀ o ∈ s.orders.rows, Agrees X cfg o
  tried : ∀ o ∈ s.orders.rows, Tried o.clientIntentId.base o.clientIntentId.attempt s

section
variable {X : Outcome} {cfg : Config} {s s' : Ledger} {o o' : Order} {r : ExchangeOrderReport}

theorem endedWithoutFill_iff :
    endedWithoutFill o = true ↔ o.status ∈ retryableTerminal ∧ o.executedQuantity = 0 := by
  simp [endedWithoutFill]

theorem isTerminal_of_endedWithoutFill (h : endedWithoutFill o = true) : o.isTerminal := by
  have hmem := (endedWithoutFill_iff.1 h).1
  unfold Order.isTerminal
  revert hmem
  cases o.status <;> decide

/-- An attempt that has ended without a fill is not alive. -/
theorem Order.not_live (h : endedWithoutFill o = true) : ¬ o.Live := by
  rintro (hlive | hpos)
  · rw [isTerminal_of_endedWithoutFill h] at hlive
    cases hlive
  · rw [(endedWithoutFill_iff.1 h).2] at hpos
    exact absurd hpos (lt_irrefl 0)

/-- At most one attempt of a decision is alive. -/
theorem Attempts.unique (h : Attempts X cfg s) {a b : Order} (ha : a ∈ s.orders.rows)
    (hb : b ∈ s.orders.rows) (hbase : a.clientIntentId.base = b.clientIntentId.base)
    (hla : a.Live) (hlb : b.Live) : a = b := by
  have hlater {a b : Order} (ha : a ∈ s.orders.rows) (hb : b ∈ s.orders.rows)
      (hbase : a.clientIntentId.base = b.clientIntentId.base) (hla : a.Live) :
      ¬ a.clientIntentId.attempt < b.clientIntentId.attempt := by
    intro hlt
    obtain ⟨a', ha', hid, hended⟩ := h.tried b hb _ hlt
    have heq : a' = a := by
      refine Table.eq_of_key Order.clientIntentId (fun _ _ h => h.2.2.1) s.orders ha' ha ?_
      rw [hid, ← hbase]
    exact Order.not_live hended (heq ▸ hla)
  have hattempt : a.clientIntentId.attempt = b.clientIntentId.attempt := by
    have h₁ := hlater ha hb hbase hla
    have h₂ := hlater hb ha hbase.symm hlb
    omega
  refine Table.eq_of_key Order.clientIntentId (fun _ _ h => h.2.2.1) s.orders ha hb ?_
  cases hia : a.clientIntentId
  cases hib : b.clientIntentId
  simp_all

/-! ## What the transactions do to the attempts -/

theorem Tried.congr {base : IntentBase} {n : Nat} (h : Tried base n s)
    (hrows : s'.orders = s.orders) : Tried base n s' := by
  rw [Tried, hrows]
  exact h

/-- Attempts that have ended without a fill are still there, and still ended without a fill. -/
def Settled (s s' : Ledger) : Prop := ∀ base n, Tried base n s → Tried base n s'

theorem Attempts.congr (h : Attempts X cfg s) (hrows : s'.orders = s.orders) :
    Attempts X cfg s' ∧ Settled s s' := by
  refine ⟨⟨by rw [hrows]; exact h.agrees, fun o ho => ?_⟩, fun _ _ ht => ht.congr hrows⟩
  rw [hrows] at ho
  exact (h.tried o ho).congr hrows

/-- An order that changes and still agrees keeps the attempts, when it stays ended without a fill. -/
theorem Attempts.replaced (h : Attempts X cfg s) (hr : s.Replaced s' o o') (ho' : Agrees X cfg o')
    (hended : endedWithoutFill o = true → endedWithoutFill o' = true) :
    Attempts X cfg s' ∧ Settled s s' := by
  have hsettled : Settled s s' := by
    intro base n ht j hj
    obtain ⟨a, ha, hid, hea⟩ := ht j hj
    by_cases hao : a.id = o.id
    · obtain rfl := Ledger.eq_of_id ha hr.mem hao
      exact ⟨o', hr.mem_new, hr.same.clientIntentId.trans hid, hended hea⟩
    · exact ⟨a, hr.mem_iff.2 (.inr ⟨ha, hao⟩), hid, hea⟩
  refine ⟨⟨fun x hx => ?_, fun x hx => ?_⟩, hsettled⟩
  · rcases hr.mem_iff.1 hx with rfl | ⟨hx, -⟩
    · exact ho'
    · exact h.agrees x hx
  · rcases hr.mem_iff.1 hx with rfl | ⟨hx, -⟩
    · rw [hr.same.clientIntentId]
      exact hsettled _ _ (h.tried o hr.mem)
    · exact hsettled _ _ (h.tried x hx)

/-- A genuine report finds the order it is about. -/
theorem Attempts.about (h : Attempts X cfg s) {c : String} (hr : X.About cfg c r)
    (hfind : findOrder cfg s (some r.clientOrderId) r.exchangeOrderId = some o) :
    o.clientOrderId = c := by
  have hrow := h.agrees o (findOrder_mem hfind)
  unfold findOrder at hfind
  split at hfind
  · next o' hget =>
    cases hfind
    obtain ⟨hmem, hc⟩ := Ledger.getOrder_eq_some.1 hget
    rcases hr.named with hname | hforeign
    · exact hc.trans hname
    · exact absurd (hrow.clientOrderId.symm.trans hc) (hforeign _)
  · split at hfind
    · next htruthy =>
      obtain ⟨x, hx, hget⟩ := Option.bind_eq_some_iff.1 hfind
      have hox := (Ledger.getOrderByExchangeId_mem hget).2.2
      rw [hx] at htruthy
      exact (hrow.owned x hox htruthy).symm.trans (hr.owned x hx htruthy)
    · cases hfind

/-- An order that a genuine report about it is applied to. -/
theorem Agrees.applied (h : Agrees X cfg o) (hr : X.About cfg o.clientOrderId r)
    (ha : Order.Applied o r o') : Agrees X cfg o' := by
  have hmax : max o.executedQuantity r.executedQty ≤ X.final o.clientOrderId :=
    max_le h.bounded hr.bounded
  refine ⟨?_, fun x hx ht => ?_, ?_, ?_, fun ht => ?_⟩
  · rw [ha.same.clientOrderId, ha.same.clientIntentId]
    exact h.clientOrderId
  · rw [ha.same.clientOrderId]
    rw [ha.exchangeOrderId] at hx
    split at hx
    · exact hr.owned x hx ht
    · exact h.owned x hx ht
  · rw [ha.executed]
    exact le_max_of_le_left h.nonneg
  · rw [ha.executed, ha.same.clientOrderId]
    exact hmax
  · rw [ha.executed, ha.same.clientOrderId]
    refine le_antisymm hmax ?_
    cases hto : o.isTerminal with
    | true => exact le_max_of_le_left (h.terminal hto).ge
    | false =>
      rw [Order.isTerminal, ha.status] at ht
      exact le_max_of_le_right (hr.terminal ((OrderStatus.isTerminal_after hto).1 ht).1).ge

/-- An attempt that has ended without a fill ends no other way. -/
theorem Agrees.ended (h : Agrees X cfg o) (ho' : Agrees X cfg o') (hs : Order.Same o o')
    (hstatus : o.isTerminal → o'.status = o.status) (he : endedWithoutFill o = true) :
    endedWithoutFill o' = true := by
  have hterminal := isTerminal_of_endedWithoutFill he
  obtain ⟨hmem, hzero⟩ := endedWithoutFill_iff.1 he
  have hfinal : X.final o.clientOrderId = 0 := (h.terminal hterminal).symm.trans hzero
  refine endedWithoutFill_iff.2 ⟨(hstatus hterminal).symm ▸ hmem, le_antisymm ?_ ho'.nonneg⟩
  rw [← hfinal, ← hs.clientOrderId]
  exact ho'.bounded

theorem Agrees.versioned (h : Agrees X cfg o) (v : Nat) : Agrees X cfg { o with version := v } :=
  ⟨h.clientOrderId, h.owned, h.nonneg, h.bounded, h.terminal⟩

/-- Applying a genuine report. -/
theorem Attempts.report (h : Attempts X cfg s) (hr : X.Genuine cfg r) {now : Time}
    {out : ApplyOutcome} (htx : applyReportTx cfg r now s = .ok (out, s')) :
    Attempts X cfg s' ∧ Settled s s' := by
  rcases applyReportTx_cases htx with ⟨-, -, rfl⟩ | ⟨o, hfind, ⟨_, -, -, rfl⟩ | ⟨-, -, rfl⟩ |
    ⟨o₁, ha, -, hrep⟩⟩
  · exact h.congr rfl
  · exact h.congr rfl
  · exact h.congr rfl
  · obtain ⟨c, hc⟩ := hr
    obtain rfl := h.about hc hfind
    have ho := h.agrees o hrep.mem
    have happlied := (Order.applyReport_ok ha).1
    have ho' : Agrees X cfg { o₁ with version := o₁.version + 1 } :=
      (ho.applied hc happlied).versioned _
    exact h.replaced hrep ho' (ho.ended ho' hrep.same happlied.isTerminal)

/-- Rejecting an order that never executes. -/
theorem Attempts.reject (h : Attempts X cfg s) {c reason : String} {now : Time}
    (hfinal : X.final c ≤ 0) (htx : rejectTx c reason now s = .ok (⟨⟩, s')) :
    Attempts X cfg s' ∧ Settled s s' := by
  obtain ⟨o, hget, ⟨-, rfl⟩ | ⟨o₁, hmark, hrep⟩⟩ := rejectTx_cases htx
  · exact h.congr rfl
  · obtain rfl := (Ledger.getOrder_eq_some.1 hget).2
    have ho := h.agrees o hrep.mem
    obtain ⟨hsame, -, hexec, hxid, -, hyes⟩ := Order.markRejected_ok hmark
    obtain ⟨hnt, -⟩ := hyes rfl
    have hzero : o.executedQuantity = X.final o.clientOrderId := by
      refine le_antisymm ho.bounded (hfinal.trans ho.nonneg)
    refine h.replaced hrep ⟨?_, ?_, ?_, ?_, fun _ => ?_⟩ fun he => ?_
    · exact (hsame.clientOrderId.trans ho.clientOrderId).trans (by rw [hsame.clientIntentId])
    · simp only [hxid, hsame.clientOrderId]
      exact ho.owned
    · simpa only [hexec] using ho.nonneg
    · simpa only [hexec, hsame.clientOrderId] using ho.bounded
    · simpa only [hexec, hsame.clientOrderId] using hzero
    · rw [isTerminal_of_endedWithoutFill he] at hnt
      cases hnt

/-- Flagging an order as ambiguous. -/
theorem Attempts.flag (h : Attempts X cfg s) {c error : String} {now : Time}
    (htx : flagAmbiguousTx cfg c error now s = .ok (⟨⟩, s')) :
    Attempts X cfg s' ∧ Settled s s' := by
  obtain ⟨o, -, hrep⟩ := flagAmbiguousTx_ok htx
  have ho := h.agrees o hrep.mem
  exact h.replaced hrep ⟨ho.clientOrderId, ho.owned, ho.nonneg, ho.bounded, ho.terminal⟩ fun he => he

/-- Placing the next attempt of a decision. -/
theorem Attempts.place (h : Attempts X cfg s) {intent : OrderIntent}
    (hp : Placed cfg s s' intent o)
    (ht : Tried intent.clientIntentId.base intent.clientIntentId.attempt s) :
    Attempts X cfg s' ∧ Settled s s' := by
  have hsettled : Settled s s' := by
    intro base n ht j hj
    obtain ⟨a, ha, hid, he⟩ := ht j hj
    exact ⟨a, hp.rows ▸ List.mem_append_left _ ha, hid, he⟩
  have hnew : Agrees X cfg o ∧ o.clientIntentId = intent.clientIntentId := by
    obtain ⟨-, hid, hcid⟩ := hp.order
    obtain ⟨rules, now, o₀, hmark, rfl⟩ := hp.row
    cases hmark
    refine ⟨⟨hcid, fun x hx => ?_, le_rfl, X.nonneg _, fun hterm => ?_⟩, hid⟩
    · cases hx
    · cases hterm
  refine ⟨⟨fun x hx => ?_, fun x hx => ?_⟩, hsettled⟩ <;> rw [hp.rows] at hx <;>
    rcases List.mem_append.1 hx with hx | hx
  · exact h.agrees x hx
  · exact List.mem_singleton.1 hx ▸ hnew.1
  · exact hsettled _ _ (h.tried x hx)
  · rw [List.mem_singleton.1 hx, hnew.2]
    exact hsettled _ _ ht

/-- The transaction of a stream event applies its report, or leaves the orders alone. -/
theorem handleTx_orders {eventKey : String} {xf : Option ExchangeFill} {now : Time}
    {out : StreamIngestionService.IngestOutcome}
    (htx : StreamIngestionService.handleTx cfg eventKey r xf now s = .ok (out, s')) :
    s'.orders = s.orders ∨ ∃ s₁ out₁ s₂, s₁.orders = s.orders ∧
      applyReportTx cfg r now s₁ = .ok (out₁, s₂) ∧ s'.orders = s₂.orders := by
  obtain ⟨b, s₁, hmark, h₁⟩ := Tx.bind_ok.1 htx
  have horders : s₁.orders = s.orders := by
    unfold Store.markEventProcessed at hmark
    split at hmark <;> (cases hmark; rfl)
  split at h₁
  · obtain ⟨out₁, s₂, happ, h₂⟩ := Tx.bind_ok.1 h₁
    refine .inr ⟨s₁, out₁, s₂, horders, happ, ?_⟩
    cases out₁ with
    | conflict c m => cases h₂
    | unknown | applied o =>
      cases xf with
      | none => cases h₂; rfl
      | some xf =>
        obtain ⟨_, s₃, h₃, h₄⟩ := Tx.bind_ok.1 h₂
        obtain ⟨-, rfl⟩ := Tx.pure_ok.1 h₄
        exact ingestFillTx_orders h₃
  · obtain ⟨-, rfl⟩ := Tx.pure_ok.1 h₁
    exact .inl horders

theorem Attempts.event (h : Attempts X cfg s) (hr : X.Genuine cfg r) {eventKey : String}
    {xf : Option ExchangeFill} {now : Time} {out : StreamIngestionService.IngestOutcome}
    (htx : StreamIngestionService.handleTx cfg eventKey r xf now s = .ok (out, s')) :
    Attempts X cfg s' ∧ Settled s s' := by
  rcases handleTx_orders htx with ho | ⟨s₁, out₁, s₂, ho₁, happ, ho₂⟩
  · exact h.congr ho
  · obtain ⟨h₁, hs₁⟩ := h.congr ho₁
    obtain ⟨h₂, hs₂⟩ := h₁.report hr happ
    obtain ⟨h₃, hs₃⟩ := h₂.congr ho₂
    exact ⟨h₃, fun base n ht => hs₃ _ _ (hs₂ _ _ (hs₁ _ _ ht))⟩

end

/-! ## Under an exchange that keeps its word -/

namespace Outcome

variable {X : Outcome} {cfg : Config} {s s' : Ledger} {h : History Label Ans}

/-- Every step keeps the attempts, and relies on the others for it. -/
def contract (X : Outcome) (cfg : Config) : Contract Ledger Label Ans where
  rely _ s s' := Attempts X cfg s' ∧ Settled s s'
  ans h q _ a := X.Answers cfg h q a
  step _ _ s s' := Attempts X cfg s' ∧ Settled s s'
  guard _ _ _ := True

theorem contract_stable : (X.contract cfg).Stable (Attempts X cfg) where
  refl _ _ hI := ⟨hI, fun _ _ h => h⟩
  trans h h' := ⟨h'.1, fun _ _ ht => h'.2 _ _ (h.2 _ _ ht)⟩

/-- The program keeps the contract from everywhere. -/
abbrev Keeps (X : Outcome) (cfg : Config) (α : Type) (p : Prog Ledger Label Ans α) : Prop :=
  ∀ h s, True → p.wp (X.contract cfg) (fun _ _ _ => True) h s

/-- A transaction that keeps the attempts. -/
theorem keeps_transaction {α : Type} {l : Label} {t : Tx α}
    (ht : ∀ s a s', Attempts X cfg s → t s = .ok (a, s') → Attempts X cfg s' ∧ Settled s s') :
    X.Keeps cfg _ (transaction l t).run := fun _ _ _ =>
  wp_transaction fun _ hr =>
    ⟨fun a s' h => ⟨ht _ a s' hr.1 h, trivial⟩,
      fun _ _ => ⟨⟨hr.1, fun _ _ h => h⟩, trivial⟩⟩

theorem handles : Handles cfg (X.Genuine cfg) (X.Keeps cfg) where
  toSequenced := Sequenced.keeps _ _
  read _ _ := fun _ _ _ => (wp_query _ _).2 fun _ hr => ⟨⟨hr.1, fun _ _ h => h⟩, trivial⟩
  ambient _ _ := fun _ _ _ _ _ => ⟨trivial, fun _ _ => trivial⟩
  call _ _ _ hk := fun _ _ _ _ _ => ⟨trivial, fun a ha => hk a ha.1 _ _ trivial⟩
  keep _ := fun ht => keeps_transaction fun s a s' hI h => hI.congr (ht s a s' h).2
  report _ _ hr := keeps_transaction fun _ _ _ hI h => hI.report hr h
  event _ _ _ _ hr := keeps_transaction fun _ _ _ hI h => hI.event hr h

theorem keeps_reject {c reason : String} {now : Time} (hc : X.final c ≤ 0) :
    X.Keeps cfg _ (transaction .commit (rejectTx c reason now)).run :=
  keeps_transaction fun _ _ _ hI h => hI.reject hc h

/-- An order is rejected as unknown only when the exchange will never execute it. -/
theorem keeps_resolve (o : Order) : X.Keeps cfg _ (resolveAmbiguous cfg o).run := by
  have hP : Handles cfg (X.Genuine cfg) (X.Keeps cfg) := handles
  refine hP.ite (hP.pure _) fun h s _ => ?_
  refine (Proc.wp_bind _ _ _ _ _).2 ((Proc.wp_attempt _ _ _ _).2
    ((wp_call _ _).2 fun s₁ _ => ⟨trivial, fun a ha => ?_⟩))
  rcases a with e | _ | r
  · exact hP.pure _ _ _ trivial
  · refine (Proc.wp_bind _ _ _ _ _).2 ((wp_clockNow _).2 fun s₂ _ => ⟨trivial, fun t ht => ?_⟩)
    refine (Proc.wp_ite _ _ _ _ _ _).2 ?_
    split
    · exact hP.pure _ _ _ trivial
    · next hage =>
      have hfinal : X.final o.clientOrderId ≤ 0 := ht o _ rfl (not_lt.1 hage)
      exact hP.seq (keeps_reject hfinal) (fun _ => hP.pure _) _ _ trivial
  · refine hP.seq (hP.applyReport (ha.1 r rfl)) (fun _ => hP.seq (hP.read _ _) fun _ =>
      hP.seq hP.ingestOrderFills fun _ => hP.pure _) _ _ trivial

/-- The order of an intent is placed after attempts that have ended without a fill, and what becomes
of it agrees with the exchange. -/
theorem wp_submitIntent {intent : OrderIntent} {rules : SymbolRules}
    (ht : Tried intent.clientIntentId.base intent.clientIntentId.attempt s) :
    Proc.wp (X.contract cfg) (submitIntent cfg intent rules) (fun _ _ _ => True) h s := by
  have hP : Handles cfg (X.Genuine cfg) (X.Keeps cfg) := handles
  refine (Proc.wp_bind _ _ _ _ _).2 ((wp_query _ _).2 fun s₁ hs₁ =>
    ⟨⟨hs₁.1, fun _ _ h => h⟩, ?_⟩)
  cases s₁.getOrderByIntent intent.clientIntentId with
  | some existing => exact hP.pure _ _ _ trivial
  | none =>
    refine (Proc.wp_bind _ _ _ _ _).2 ((wp_clockNow _).2 fun s₂ hs₂ => ⟨trivial, fun now _ => ?_⟩)
    dsimp only
    cases ho : (newOrder cfg intent rules).markSubmitting now with
    | error message => exact hP.throw _ _ _ trivial
    | ok o₀ =>
      refine (Proc.wp_bind _ _ _ _ _).2 (wp_transaction fun s₃ hs₃ => ⟨fun res s₄ htx => ?_,
        fun _ _ => ⟨⟨hs₃.1, fun _ _ h => h⟩, trivial⟩⟩)
      have ht₃ := hs₃.2 _ _ (hs₂.2 _ _ (hs₁.2 _ _ ht))
      rcases persistTx_cases ho htx with ⟨rfl, rfl, -⟩ | ⟨o, rfl, hp⟩
      · exact ⟨hs₃.1.congr rfl, hP.pure _ _ _ trivial⟩
      · refine ⟨hs₃.1.place hp ht₃, ?_⟩
        refine (Proc.wp_bind _ _ _ _ _).2 ((Proc.wp_attempt _ _ _ _).2
          ((wp_call _ _).2 fun s₅ _ => ⟨trivial, fun a ha => ?_⟩))
        have hflag (error : String) (now : Time) : X.Keeps cfg _
            (transaction .commit (flagAmbiguousTx cfg o.clientOrderId error now)).run :=
          keeps_transaction fun _ _ _ hI h => hI.flag h
        cases a with
        | error e =>
          refine hP.seq (hP.settle keeps_resolve (fun _ hrep => ?_) (fun hk => ?_) hflag)
            (fun _ => hP.read _ _) _ _ trivial
          · cases hrep
          · cases hk
        | ok out =>
          exact hP.seq (hP.settle keeps_resolve ha.1 (fun hk _ _ => keeps_reject (ha.2 hk)) hflag)
            (fun _ => hP.read _ _) _ _ trivial

/-- The attempts before the next one have all ended without a fill. -/
theorem wp_nextIntentId {base : IntentBase} {attempt n : Nat} (ht : Tried base attempt s) :
    Proc.wp (X.contract cfg) (nextIntentId base attempt n) (fun r _ s =>
      ∀ iid, r = .ok (some iid) → iid.base = base ∧ Tried base iid.attempt s) h s := by
  induction n generalizing attempt h s with
  | zero => exact fun iid hiid => by cases hiid
  | succ n ih =>
    refine (Proc.wp_bind _ _ _ _ _).2 ((wp_query _ _).2 fun s₁ hs₁ =>
      ⟨⟨hs₁.1, fun _ _ h => h⟩, ?_⟩)
    have ht₁ := hs₁.2 _ _ ht
    have hhere : ∀ iid, (.ok (some ⟨base, attempt⟩) : Except Exn (Option IntentId)) =
        .ok (some iid) → iid.base = base ∧ Tried base iid.attempt s₁ := by
      rintro _ ⟨⟩
      exact ⟨rfl, ht₁⟩
    cases hget : s₁.getOrderByIntent ⟨base, attempt⟩ with
    | none => exact hhere
    | some existing =>
      refine (Proc.wp_ite _ _ _ _ _ _).2 ?_
      split
      · next hended =>
        obtain ⟨hmem, hid⟩ := Ledger.getOrderByIntent_eq_some.1 hget
        refine ih fun j hj => ?_
        rcases Nat.lt_succ_iff_lt_or_eq.1 hj with hj | rfl
        · exact ht₁ j hj
        · exact ⟨existing, hmem, hid, hended⟩
      · exact hhere

/-- The whole engine keeps the attempts. -/
theorem governs : Governs cfg (X.Genuine cfg) (X.Keeps cfg) where
  toHandles := handles
  resolve := keeps_resolve
  submit purpose side qty rules refPrice base signalId orderType limit stop := by
    intro h s _
    have hP : Handles cfg (X.Genuine cfg) (X.Keeps cfg) := handles
    have htried : Tried base 0 s := fun j hj => absurd hj (Nat.not_lt_zero j)
    refine (Proc.wp_bind _ _ _ _ _).2 (Proc.wp_mono (wp_nextIntentId htried) ?_)
    rintro (e | _ | iid) h₁ s₁ hr
    · trivial
    · exact hP.seq hP.now (fun _ => hP.seq (hP.enqueue _) fun _ => hP.seq (hP.enqueue _) fun _ =>
        hP.pure _) _ _ trivial
    · obtain ⟨rfl, ht⟩ := hr iid rfl
      exact wp_submitIntent ht

end Outcome

/-! ## Runs of any number of processes -/

section
variable {τ : Type} [DecidableEq τ] {P P' : Pool τ Ledger Label Ans} {act : Act τ Label Ans}
  {X : Outcome} {cfg : Config}

/-- A call is answered as the exchange does that keeps its word. -/
def KeepsWord (X : Outcome) (cfg : Config) (P : Pool τ Ledger Label Ans) : Act τ Label Ans → Prop
  | .event i (.call q a) => X.Answers cfg (P.hist i) q a
  | _ => True

/-- A step of the pool keeps the attempts and every process's contract. -/
theorem step_attempts (hP : Pool.Sound (X.contract cfg) P) (hI : Attempts X cfg P.state)
    (hok : KeepsWord X cfg P act)
    (hs : Pool.Step (EngineProgram cfg (X.Genuine cfg)) P act P') :
    Pool.Sound (X.contract cfg) P' ∧ Attempts X cfg P'.state := by
  rcases hP.step_cases Outcome.contract_stable hI hs with ⟨i, l, rfl, -, hstep, hsound⟩ |
    ⟨i, q, a, rfl, hst, -, -, hsound⟩ | ⟨i, p, rfl, hp, hst, -, hsound⟩
  · exact ⟨hsound fun j _ => hstep, hstep.1⟩
  · exact ⟨hsound hok, hst ▸ hI⟩
  · exact ⟨hsound (Outcome.governs.program hp _ _ trivial), hst ▸ hI⟩

/-- In every run of any number of processes of the engine, killed and started again at any point,
against an exchange that keeps its word, at most one attempt of a decision is non-terminal or has
executed anything. -/
theorem retries_exclusive
    (hrun : Pool.Run (EngineProgram cfg (X.Genuine cfg)) (KeepsWord X cfg) (.idle {}) P)
    {a b : Order} (ha : a ∈ P.state.orders.rows) (hb : b ∈ P.state.orders.rows)
    (hbase : a.clientIntentId.base = b.clientIntentId.base) (hla : a.Live) (hlb : b.Live) :
    a = b := by
  have hinv : Pool.Sound (X.contract cfg) P ∧ Attempts X cfg P.state := by
    refine hrun.invariant (I := fun P => Pool.Sound (X.contract cfg) P ∧ Attempts X cfg P.state) ?_
      ⟨Pool.sound_idle _ _, fun o ho => ?_, fun o ho => ?_⟩
    · exact fun ⟨hP, hI⟩ hok hs => step_attempts hP hI hok hs
    · cases ho
    · cases ho
  exact hinv.2.unique ha hb hbase hla hlb

end

/-! ## A second attempt -/

/-- The client order id of a sample intent. -/
def sampleClientOrderId (id : IntentId) : String :=
  makeClientOrderId sampleConfig.textLib sampleConfig.clientOrderIdPrefix id

/-- An exchange that fills the sample entry, refuses the first exit and is silent about the rest. -/
def refusingExchange : (r : Req) → Except Exn r.Val
  | .submit o _ =>
    if o.clientOrderId = sampleClientOrderId sampleEntry then
      .ok { kind := .acknowledged, report := some (sampleReport sampleEntry .buy .filled 2)
            fills := [sampleFill sampleEntry .buy "1" 2] }
    else if o.clientOrderId = sampleClientOrderId (sampleExit 0) then
      .ok { kind := .rejected, error := some "Filter failure: LOT_SIZE" }
    else .error (.external "Timeout" "read timed out")
  | r => listing (.ok []) r

/-- What that exchange executes. -/
def refusingOutcome : Outcome where
  owner _ := sampleClientOrderId sampleEntry
  final c := if c = sampleClientOrderId sampleEntry then 2 else 0
  nonneg c := by split <;> decide

theorem refusingOutcome_about :
    refusingOutcome.About sampleConfig (sampleClientOrderId sampleEntry)
      (sampleReport sampleEntry .buy .filled 2) := by
  have hfinal : refusingOutcome.final (sampleClientOrderId sampleEntry) = 2 := by
    simp only [refusingOutcome, if_true]
  refine ⟨.inl rfl, fun x _ _ => rfl, ?_, fun _ => ?_⟩
  · exact hfinal.ge
  · exact hfinal.symm

/-- One process runs a program against that exchange, in a market where the strategy says `a`. -/
def refused (P : Pool Unit Ledger Label Ans) (p : Prog Ledger Label Ans PUnit) (a : SignalAction) :
    Pool Unit Ledger Label Ans :=
  (P.restart () p).go (exchangeEnv (marketAnswers a refusingExchange)) () 200

/-- A clean reconciliation, a cycle that enters, and two cycles that want to exit. -/
def retried : Pool Unit Ledger Label Ans :=
  let cycle := (runOnce sampleConfig).run.forget
  let reconcile := (ReconciliationService.run sampleConfig "startup" false).run.forget
  refused (refused (refused (refused (.idle {}) reconcile .hold) cycle .buy) cycle .sell) cycle .sell

theorem refusing_answers (a : SignalAction) (h : History Label Ans) (q : Request)
    (hh : Pool.Answered (exchangeEnv (marketAnswers a refusingExchange)) h) :
    refusingOutcome.Answers sampleConfig h q
      (exchangeEnv (marketAnswers a refusingExchange) h q) := by
  cases q with
  | ambient x =>
    cases x with
    | now =>
      rintro o h' rfl
      cases hh.1
    | uuid | connected => trivial
  | call r =>
    cases r with
    | submit o rules =>
      simp only [exchangeEnv, marketAnswers, refusingExchange]
      by_cases hentry : o.clientOrderId = sampleClientOrderId sampleEntry
      · rw [if_pos hentry]
        refine ⟨?_, fun hk => by cases hk⟩
        rintro r ⟨⟩
        exact ⟨_, refusingOutcome_about⟩
      · have hfinal : refusingOutcome.final o.clientOrderId = 0 := by
          simp only [refusingOutcome, if_neg hentry]
        rw [if_neg hentry]
        by_cases hexit : o.clientOrderId = sampleClientOrderId (sampleExit 0)
        · rw [if_pos hexit]
          refine ⟨fun r hr => ?_, fun _ => hfinal.le⟩
          cases hr
        · rw [if_neg hexit]
          exact ⟨trivial, trivial⟩
    | _ => exact ⟨trivial, trivial⟩

theorem refused_run {P : Pool Unit Ledger Label Ans} {p : Prog Ledger Label Ans PUnit}
    (hp : EngineProgram sampleConfig (refusingOutcome.Genuine sampleConfig) p) (a : SignalAction) :
    Pool.Run (EngineProgram sampleConfig (refusingOutcome.Genuine sampleConfig))
      (KeepsWord refusingOutcome sampleConfig) P (refused P p a) := by
  refine (Pool.run_restart () hp trivial).trans (Pool.run_go_answered _ _ (fun _ _ => trivial) ?_ _ ?_)
  · exact fun P q hh => refusing_answers a _ q hh
  · simp only [Pool.restart, Function.update_self]
    trivial

/-- The second exit is open when the first has been refused; no two attempts are alive. -/
theorem retried_exclusive :
    retried.state.orders.rows.map (fun o => (o.clientIntentId, o.status)) =
      [(sampleEntry, .filled), (sampleExit 0, .rejected), (sampleExit 1, .submitting)] ∧
    ∀ a ∈ retried.state.orders.rows, ∀ b ∈ retried.state.orders.rows,
      a.clientIntentId.base = b.clientIntentId.base → a.Live → b.Live → a = b := by
  refine ⟨by decide +kernel, fun a ha b hb hbase hla hlb => ?_⟩
  have hrun : Pool.Run (EngineProgram sampleConfig (refusingOutcome.Genuine sampleConfig))
      (KeepsWord refusingOutcome sampleConfig) (.idle {}) retried :=
    (refused_run (.run _ _) _).trans <| (refused_run .runOnce _).trans <|
    (refused_run .runOnce _).trans <| refused_run .runOnce _
  exact retries_exclusive hrun ha hb hbase hla hlb

end CryptoBot
