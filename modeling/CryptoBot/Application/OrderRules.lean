import CryptoBot.Application.Moves

/-!
# What the order service's programs come to

A process that is not interfered with takes the programs of the order service step by step. For
each of them a relation says what it can come to: how it ends, what it has done to the ledger, and
which answers of the exchange it rests on. Histories are compared up to `Later`, since only the
conflicts recorded and the orders submitted in them matter.
-/

namespace CryptoBot

open Lib OrderService

/-! ## Histories -/

/-- The client order ids of the conflicts recorded, newest first. -/
def conflicts (h : History Label Ans) : List String :=
  h.filterMap fun
    | .step (.recordConflict clientOrderId) => some clientOrderId
    | _ => none

/-- The orders handed to the executor, newest first. -/
def submits (h : History Label Ans) : List (Order × SymbolRules) :=
  h.filterMap fun
    | .call (.call (.submit order rules)) _ => some (order, rules)
    | _ => none

def Request.isSubmit : Request → Bool
  | .call (.submit ..) => true
  | _ => false

/-- An event that neither records a conflict nor submits an order. -/
def passive : Event Label Ans → Bool
  | .step .query | .step .commit => true
  | .step _ => false
  | .call q _ => !q.isSubmit

/-- `h'` goes on from `h`, without a conflict and without a submission. -/
def Later (h h' : History Label Ans) : Prop := ∃ es, h' = es ++ h ∧ ∀ e ∈ es, passive e

namespace Later

variable {h h' h'' : History Label Ans}

theorem rfl : Later h h := ⟨[], Eq.refl _, List.forall_mem_nil _⟩

theorem trans (h₁ : Later h h') (h₂ : Later h' h'') : Later h h'' := by
  obtain ⟨es, rfl, hes⟩ := h₁
  obtain ⟨es', rfl, hes'⟩ := h₂
  exact ⟨es' ++ es, (List.append_assoc ..).symm, List.forall_mem_append.2 ⟨hes', hes⟩⟩

theorem cons {e : Event Label Ans} (h₁ : Later h h') (he : passive e) : Later h (e :: h') :=
  h₁.trans ⟨[e], Eq.refl _, List.forall_mem_singleton.2 he⟩

theorem suffix (h₁ : Later h h') : h <:+ h' := by
  obtain ⟨es, rfl, -⟩ := h₁
  exact List.suffix_append es h

theorem mem {e : Event Label Ans} (h₁ : Later h h') (he : e ∈ h) : e ∈ h' := h₁.suffix.subset he

theorem conflicts_eq (h₁ : Later h h') : conflicts h' = conflicts h := by
  obtain ⟨es, rfl, hes⟩ := h₁
  rw [conflicts, List.filterMap_append, List.filterMap_eq_nil_iff.2, List.nil_append]
  · rfl
  · intro e he
    have hp := hes e he
    split
    · cases hp
    · exact Eq.refl _

end Later

/-! ## Undisturbed processes -/

/-- The contract of a process that is not interfered with, and owes nothing but at the look-up of
an intent and at a submission. `A` says which answers it meets. -/
structure Sequential (C : Contract Ledger Label Ans)
    (A : (q : Request) → Ledger → Ans q → Prop) : Prop where
  rely : ∀ {h s s'}, C.rely h s s' → s' = s
  ans : ∀ {h q s a}, C.ans h q s a → A q s a
  step : ∀ {h l s s'}, l = .query ∨ l = .commit ∨ (∃ c, l = .recordConflict c) → C.step h l s s'
  guard : ∀ {h q s}, q.isSubmit = false → C.guard h q s

namespace Sequential

variable {C : Contract Ledger Label Ans} {A : (q : Request) → Ledger → Ans q → Prop} {α : Type}
  {Φ : Except Exn α → History Label Ans → Ledger → Prop} {h : History Label Ans} {s : Ledger}

theorem wp_query (hC : Sequential C A) {f : Ledger → α} (hΦ : Φ (.ok (f s)) (.step .query :: h) s) :
    Proc.wp C (query .query f) Φ h s := by
  intro s' hr
  obtain rfl := hC.rely hr
  exact ⟨hC.step (.inl rfl), hΦ⟩

theorem wp_transaction (hC : Sequential C A) {l : Label} {t : Tx α}
    (hl : l = .commit ∨ ∃ c, l = .recordConflict c)
    (hok : ∀ a s', t s = .ok (a, s') → Φ (.ok a) (.step l :: h) s')
    (herr : ∀ e, t s = .error e → Φ (.error e) (.step l :: h) s) :
    Proc.wp C (transaction l t) Φ h s := by
  refine CryptoBot.wp_transaction fun s' hr => ?_
  obtain rfl := hC.rely hr
  exact ⟨fun a s'' htx => ⟨hC.step (.inr hl), hok a s'' htx⟩,
    fun e htx => ⟨hC.step (.inr hl), herr e htx⟩⟩

theorem wp_call (hC : Sequential C A) {r : Req} (hr : (Request.call r).isSubmit = false)
    {Φ : Except Exn r.Val → History Label Ans → Ledger → Prop}
    (hΦ : ∀ a, A (.call r) s a → Φ a (.call (.call r) a :: h) s) :
    Proc.wp C (call r) Φ h s := by
  intro s' hrely
  obtain rfl := hC.rely hrely
  exact ⟨hC.guard hr, fun a ha => hΦ a (hC.ans ha)⟩

theorem wp_now (hC : Sequential C A) {Φ : Except Exn Time → History Label Ans → Ledger → Prop}
    (hΦ : ∀ t, Φ (.ok t) (.call (.ambient .now) t :: h) s) : Proc.wp C clockNow Φ h s := by
  intro s' hrely
  obtain rfl := hC.rely hrely
  exact ⟨hC.guard rfl, fun t _ => hΦ t⟩

end Sequential

/-! ## Applying reports -/

section
variable {cfg : Config} {s s' : Ledger}

/-- The report has been applied, or belongs to no order. -/
def Reported (cfg : Config) (r : ExchangeOrderReport) (s s' : Ledger) : Prop :=
  ∃ now out, applyReportTx cfg r now s = .ok (out, s') ∧ ∀ c m, out ≠ .conflict c m

/-- The report is not taken: it contradicts its order, or the store raises. -/
def Refused (cfg : Config) (r : ExchangeOrderReport) (s : Ledger) : Prop :=
  ∃ now, (∃ e, applyReportTx cfg r now s = .error e) ∨
    ∃ c m, applyReportTx cfg r now s = .ok (.conflict c m, s)

theorem Store.saveOrder_error {o : Order} {e : Exn} (h : Store.saveOrder o s = .error e) :
    ∀ m, e ≠ .orderConflict m := by
  unfold Store.saveOrder at h
  dsimp only at h
  split at h
  · split at h <;> cases h
    exact nofun
  · cases h
    exact nofun

theorem Tx.bind_error {α β : Type} {x : Tx α} {f : α → Tx β} {e : Exn}
    (h : (x >>= f) s = .error e) :
    x s = .error e ∨ ∃ a s₁, x s = .ok (a, s₁) ∧ f a s₁ = .error e := by
  simp only [bind, StateT.bind] at h
  cases hx : x s with
  | error e' =>
    rw [hx] at h
    cases h
    exact .inl rfl
  | ok r =>
    rw [hx] at h
    exact .inr ⟨r.1, r.2, rfl, h⟩

/-- The transaction never raises. -/
def Tx.Total {α : Type} (t : Tx α) : Prop := ∀ s, ∃ a s', t s = .ok (a, s')

theorem Tx.total_pure {α : Type} (a : α) : Tx.Total (pure a : Tx α) := fun s => ⟨a, s, rfl⟩

theorem Tx.Total.bind {α β : Type} {x : Tx α} {f : α → Tx β} (hx : x.Total)
    (hf : ∀ a, (f a).Total) : (x >>= f).Total := by
  intro s
  obtain ⟨a, s₁, h⟩ := hx s
  obtain ⟨b, s₂, h'⟩ := hf a s₁
  exact ⟨b, s₂, Tx.bind_ok.2 ⟨a, s₁, h, h'⟩⟩

/-- The store does not raise an order conflict. -/
theorem applyReportTx_error {r : ExchangeOrderReport} {now : Time} {e : Exn}
    (h : applyReportTx cfg r now s = .error e) : ∀ m, e ≠ .orderConflict m := by
  unfold applyReportTx at h
  split at h
  · cases h
  · split at h
    · cases h
    · split at h
      · rcases Tx.bind_error h with h | ⟨o, s₁, -, h⟩
        · exact Store.saveOrder_error h
        · rcases Tx.bind_error h with h | ⟨_, s₂, -, h⟩
          · obtain ⟨s₂, hok⟩ := Store.enqueue_isOk .orders (.order o.clientOrderId o.version)
              (.order o (s₁.intentSignalId o.clientIntentId)) now s₁
            rw [Store.enqueueOrder, hok] at h
            cases h
          · cases h
      · cases h

/-- What `apply_report` comes to, from the history `h` and the ledger `s`. -/
inductive Absorbed (cfg : Config) (r : ExchangeOrderReport) (h : History Label Ans) (s : Ledger) :
    Except Exn (Option Order) → History Label Ans → Ledger → Prop
  | applied {o h' s'} (hh : Later h h') (hr : Reported cfg r s s') : Absorbed cfg r h s (.ok o) h' s'
  | conflict {x m h₁ h' s'} (hh : Later h h₁)
      (hh' : Later (.step (.recordConflict x.clientOrderId) :: h₁) h')
      (hfind : findOrder cfg s (some r.clientOrderId) r.exchangeOrderId = some x)
      (hx : x.Contradicts r) (hr : Refused cfg r s) (hbooks : s'.books = s.books) :
      Absorbed cfg r h s (.error (.orderConflict m)) h' s'
  | refused {e h'} (hh : Later h h') (hr : Refused cfg r s) (he : ∀ m, e ≠ .orderConflict m) :
      Absorbed cfg r h s (.error e) h' s

variable {C : Contract Ledger Label Ans} {A : (q : Request) → Ledger → Ans q → Prop}
  {h : History Label Ans}

theorem Sequential.wp_enqueue (hC : Sequential C A) {l : Label}
    (hl : l = .commit ∨ ∃ c, l = .recordConflict c) {kind : OutboxKind} {key : OutboxKey}
    {message : OutboxMessage} {now : Time}
    {Φ : Except Exn PUnit → History Label Ans → Ledger → Prop}
    (hΦ : ∀ s', s'.books = s.books → Φ (.ok ⟨⟩) (.step l :: h) s') :
    Proc.wp C (transaction l (Store.enqueue kind key message now)) Φ h s := by
  refine hC.wp_transaction hl (fun _ s' htx => hΦ s' (Store.enqueue_books htx)) fun e htx => ?_
  obtain ⟨s', hok⟩ := Store.enqueue_isOk kind key message now s
  rw [hok] at htx
  cases htx

theorem Sequential.wp_applyReport (hC : Sequential C A) (r : ExchangeOrderReport)
    (source : String) : Proc.wp C (applyReport cfg r source) (Absorbed cfg r h s) h s := by
  refine (Proc.wp_bind _ _ _ _ _).2 (hC.wp_now fun now => ?_)
  have hnow : Later h (.step .commit :: .call (.ambient .now) now :: h) :=
    (Later.rfl.cons rfl).cons rfl
  refine (Proc.wp_bind _ _ _ _ _).2 (hC.wp_transaction (.inl rfl) (fun out s' htx => ?_)
    fun e htx => .refused hnow ⟨now, .inl ⟨e, htx⟩⟩ (applyReportTx_error htx))
  cases out with
  | unknown => exact .applied hnow ⟨now, _, htx, nofun⟩
  | applied o => exact .applied hnow ⟨now, _, htx, nofun⟩
  | conflict c m =>
    rcases applyReportTx_cases htx with ⟨-, ⟨⟩, -⟩ | ⟨o, hf, ⟨m', ⟨⟩, hx, rfl⟩ | ⟨-, ⟨⟩, -⟩ |
      ⟨_, -, ⟨⟩, -⟩⟩
    refine (Proc.wp_bind _ _ _ _ _).2 ((Proc.wp_bind _ _ _ _ _).2 (hC.wp_now fun now' => ?_))
    refine (Proc.wp_bind _ _ _ _ _).2 (hC.wp_enqueue (.inr ⟨_, rfl⟩) fun s₁ hs₁ => ?_)
    refine hC.wp_enqueue (.inl rfl) fun s₂ hs₂ => ?_
    exact .conflict (hnow.cons rfl) (Later.rfl.cons rfl) hf hx
      ⟨now, .inr ⟨_, m, htx⟩⟩ (hs₂.trans hs₁)

/-! ## Recording executions -/

/-- The executions have been ingested one after the other. -/
inductive Recorded (cfg : Config) : List ExchangeFill → Ledger → Ledger → Prop
  | nil {t} : Recorded cfg [] t t
  | cons {xf xfs now b s s₁ s'} (hx : ingestFillTx cfg xf now s = .ok (b, s₁))
      (hxs : Recorded cfg xfs s₁ s') : Recorded cfg (xf :: xfs) s s'

/-- Ingesting an execution does not raise. -/
theorem ingestFillTx_total (xf : ExchangeFill) (now : Time) :
    Tx.Total (ingestFillTx cfg xf now) := by
  intro s
  have henqueue {kind key message} : Tx.Total (Store.enqueue kind key message now) :=
    fun s => ⟨⟨⟩, Store.enqueue_isOk kind key message now s⟩
  unfold ingestFillTx
  split
  · exact ⟨_, _, rfl⟩
  · refine Tx.Total.bind (fun s => ?_) (fun r => ?_) s
    · unfold Store.insertFill
      dsimp only
      split <;> exact ⟨_, _, rfl⟩
    · cases r with
      | none => exact Tx.total_pure _
      | some fill =>
        refine Tx.Total.bind (fun s => ⟨_, _, rfl⟩) fun result => henqueue.bind fun _ =>
          henqueue.bind fun _ => ?_
        dsimp only
        split
        · exact Tx.Total.bind (henqueue.bind fun _ => henqueue) fun _ => Tx.total_pure _
        · exact Tx.total_pure _

theorem Sequential.wp_ingestFill (hC : Sequential C A) {xf : ExchangeFill}
    {Φ : Except Exn Bool → History Label Ans → Ledger → Prop}
    (hΦ : ∀ now b h' s', ingestFillTx cfg xf now s = .ok (b, s') → Later h h' → Φ (.ok b) h' s') :
    Proc.wp C (ingestFill cfg xf) Φ h s := by
  refine (Proc.wp_bind _ _ _ _ _).2 (hC.wp_now fun now => hC.wp_transaction (.inl rfl)
    (fun b s' htx => hΦ now b _ s' htx ((Later.rfl.cons rfl).cons rfl)) fun e htx => ?_)
  obtain ⟨b, s', hok⟩ := ingestFillTx_total xf now s
  rw [hok] at htx
  cases htx

theorem Sequential.wp_ingestFills (hC : Sequential C A) (xfs : List ExchangeFill) :
    ∀ h s, Proc.wp C (ingestFills cfg xfs)
      (fun r h' s' => r = .ok ⟨⟩ ∧ Later h h' ∧ Recorded cfg xfs s s') h s := by
  induction xfs with
  | nil => exact fun h s => ⟨rfl, .rfl, .nil⟩
  | cons xf xfs ih =>
    intro h s
    refine (Proc.wp_bind _ _ _ _ _).2 ((Proc.wp_bind _ _ _ _ _).2 (hC.wp_ingestFill
      fun now b h₁ s₁ htx hh => (Proc.wp_pure _ _ _ _).2 (Proc.wp_mono (ih h₁ s₁) ?_)))
    rintro _ h' s' ⟨rfl, hh', hxs⟩
    exact ⟨rfl, hh.trans hh', .cons htx hxs⟩

/-- What the download of the executions of an order comes to. -/
inductive Downloaded (cfg : Config) (A : (q : Request) → Ledger → Ans q → Prop)
    (h : History Label Ans) (s : Ledger) :
    Option Order → Except Exn Unit → History Label Ans → Ledger → Prop
  | skipped {o} (ho : ∀ x, o = some x → truthy x.exchangeOrderId = false) :
      Downloaded cfg A h s o (.ok ⟨⟩) h s
  | failed {o e h'} (ha : A (.call (.queryFills o)) s (.error e)) (hh : Later h h') :
      Downloaded cfg A h s (some o) (.error e) h' s
  | recorded {o xfs h' s'} (ha : A (.call (.queryFills o)) s (.ok xfs)) (hh : Later h h')
      (hr : Recorded cfg xfs s s') : Downloaded cfg A h s (some o) (.ok ⟨⟩) h' s'

theorem Sequential.wp_ingestOrderFills (hC : Sequential C A) (o : Option Order) :
    Proc.wp C (ingestOrderFills cfg o) (Downloaded cfg A h s o) h s := by
  cases o with
  | none => exact (Proc.wp_pure _ _ _ _).2 (.skipped fun x hx => by cases hx)
  | some o =>
    refine (Proc.wp_ite _ _ _ _ _ _).2 ?_
    split
    · refine (Proc.wp_bind _ _ _ _ _).2 (hC.wp_call rfl fun a ha => ?_)
      cases a with
      | error e => exact .failed ha (Later.rfl.cons rfl)
      | ok xfs =>
        refine Proc.wp_mono (hC.wp_ingestFills xfs _ s) ?_
        rintro _ h' s' ⟨rfl, hh, hr⟩
        exact .recorded ha ((Later.rfl.cons rfl).trans hh) hr
    · next ho => exact .skipped fun x hx => by cases hx; exact Bool.eq_false_iff.2 ho

/-! ## Asking about an order -/

/-- The executor has reported `r` about the order `o`, and the report has been applied. -/
structure Told (cfg : Config) (A : (q : Request) → Ledger → Ans q → Prop) (o : Order)
    (r : ExchangeOrderReport) (h : History Label Ans) (s : Ledger) (h' : History Label Ans)
    (s' : Ledger) : Prop where
  ans : A (.call (.queryOrder o)) s (.ok (some r))
  later : Later h h'
  mem : .call (.call (.queryOrder o)) (.ok (some r)) ∈ h'
  reported : Reported cfg r s s'

/-- The executor does not know the order `o`. -/
structure Missing (A : (q : Request) → Ledger → Ans q → Prop) (o : Order) (h : History Label Ans)
    (s : Ledger) (h' : History Label Ans) : Prop where
  ans : A (.call (.queryOrder o)) s (.ok none)
  later : Later h h'

theorem Told.of_later {o : Order} {r : ExchangeOrderReport} {h' h'' : History Label Ans}
    (ht : Told cfg A o r h s h' s') (hh : Later h' h'') : Told cfg A o r h s h'' s' :=
  ⟨ht.ans, ht.later.trans hh, hh.mem ht.mem, ht.reported⟩

/-- What `refresh` comes to. -/
inductive Refreshed (cfg : Config) (A : (q : Request) → Ledger → Ans q → Prop) (o : Order)
    (h : History Label Ans) (s : Ledger) :
    Except Exn (Option Order) → History Label Ans → Ledger → Prop
  | failed {e h'} (ha : A (.call (.queryOrder o)) s (.error e)) (hh : Later h h') :
      Refreshed cfg A o h s (.error e) h' s
  | refused {r e h₁ h' s'} (ha : A (.call (.queryOrder o)) s (.ok (some r))) (hh : Later h h₁)
      (hr : Absorbed cfg r h₁ s (.error e) h' s') : Refreshed cfg A o h s (.error e) h' s'
  | lost {e h₁ s₁ h' s'}
      (hq : Missing A o h s h₁ ∧ s₁ = s ∨ ∃ r, Told cfg A o r h s h₁ s₁)
      (hd : Downloaded cfg A h₁ s₁ (s₁.getOrder o.clientOrderId) (.error e) h' s') :
      Refreshed cfg A o h s (.error e) h' s'
  | done {h₁ s₁ h₂ h' s'}
      (hq : Missing A o h s h₁ ∧ s₁ = s ∨ ∃ r, Told cfg A o r h s h₁ s₁)
      (hd : Downloaded cfg A h₁ s₁ (s₁.getOrder o.clientOrderId) (.ok ⟨⟩) h₂ s')
      (hh : Later h₂ h') : Refreshed cfg A o h s (.ok (s'.getOrder o.clientOrderId)) h' s'

theorem Sequential.wp_refresh (hC : Sequential C A) (o : Order) :
    Proc.wp C (refresh cfg o) (Refreshed cfg A o h s) h s := by
  have hrest {h₁ s₁} (hq : Missing A o h s h₁ ∧ s₁ = s ∨ ∃ r, Told cfg A o r h s h₁ s₁) :
      Proc.wp C (do
        let fresh ← query .query (·.getOrder o.clientOrderId)
        ingestOrderFills cfg fresh
        query .query (·.getOrder o.clientOrderId)) (Refreshed cfg A o h s) h₁ s₁ := by
    have hq : Missing A o h s (.step .query :: h₁) ∧ s₁ = s ∨
        ∃ r, Told cfg A o r h s (.step .query :: h₁) s₁ := hq.imp
      (fun hm => ⟨⟨hm.1.ans, hm.1.later.cons rfl⟩, hm.2⟩)
      fun ⟨r, ht⟩ => ⟨r, ht.of_later (Later.rfl.cons rfl)⟩
    refine (Proc.wp_bind _ _ _ _ _).2 (hC.wp_query ((Proc.wp_bind _ _ _ _ _).2
      (Proc.wp_mono (hC.wp_ingestOrderFills _) fun res h₂ s₂ hd => ?_)))
    cases res with
    | error e => exact .lost hq hd
    | ok _ => exact hC.wp_query (.done hq hd (Later.rfl.cons rfl))
  refine (Proc.wp_bind _ _ _ _ _).2 (hC.wp_call rfl fun a ha => ?_)
  rcases a with e | _ | r
  · exact .failed ha (Later.rfl.cons rfl)
  · exact hrest (.inl ⟨⟨ha, Later.rfl.cons rfl⟩, rfl⟩)
  · refine (Proc.wp_bind _ _ _ _ _).2 (Proc.wp_mono (hC.wp_applyReport r _) fun res h₁ s₁ hr => ?_)
    cases res with
    | error e => exact .refused ha (Later.rfl.cons rfl) hr
    | ok fresh =>
      cases hr with
      | applied hh hr =>
        exact hrest (.inr ⟨r, ha, (Later.rfl.cons rfl).trans hh, hh.mem (.head _), hr⟩)

/-- What `resolve_ambiguous` comes to. -/
inductive Resolved (cfg : Config) (A : (q : Request) → Ledger → Ans q → Prop) (o : Order)
    (h : History Label Ans) (s : Ledger) :
    Except Exn Resolution → History Label Ans → Ledger → Prop
  | terminal (ho : o.isTerminal) : Resolved cfg A o h s (.ok .resolved) h s
  | failed {e h'} (ha : A (.call (.queryOrder o)) s (.error e)) (hh : Later h h') :
      Resolved cfg A o h s (.ok .pending) h' s
  | waiting {h'} (hq : Missing A o h s h') : Resolved cfg A o h s (.ok .pending) h' s
  | rejected {age now h' s'} (hq : Missing A o h s h')
      (htx : rejectTx o.clientOrderId (notFoundAfter age) now s = .ok (⟨⟩, s')) :
      Resolved cfg A o h s (.ok .resolved) h' s'
  | raised {age now e h'} (hq : Missing A o h s h')
      (htx : rejectTx o.clientOrderId (notFoundAfter age) now s = .error e) :
      Resolved cfg A o h s (.error e) h' s
  | refused {r e h₁ h' s'} (ha : A (.call (.queryOrder o)) s (.ok (some r))) (hh : Later h h₁)
      (hr : Absorbed cfg r h₁ s (.error e) h' s') : Resolved cfg A o h s (.error e) h' s'
  | lost {r e h₁ s₁ h' s'} (hq : Told cfg A o r h s h₁ s₁)
      (hd : Downloaded cfg A h₁ s₁ (s₁.getOrder o.clientOrderId) (.error e) h' s') :
      Resolved cfg A o h s (.error e) h' s'
  | done {r h₁ s₁ h' s'} (hq : Told cfg A o r h s h₁ s₁)
      (hd : Downloaded cfg A h₁ s₁ (s₁.getOrder o.clientOrderId) (.ok ⟨⟩) h' s') :
      Resolved cfg A o h s (.ok .resolved) h' s'

theorem Sequential.wp_resolveAmbiguous (hC : Sequential C A) (o : Order) :
    Proc.wp C (resolveAmbiguous cfg o) (Resolved cfg A o h s) h s := by
  refine (Proc.wp_ite _ _ _ _ _ _).2 ?_
  split
  · next ho => exact .terminal ho
  · refine (Proc.wp_bind _ _ _ _ _).2 ((Proc.wp_attempt _ _ _ _).2
      (hC.wp_call rfl fun a ha => ?_))
    rcases a with e | _ | r
    · exact .failed ha (Later.rfl.cons rfl)
    · refine (Proc.wp_bind _ _ _ _ _).2 (hC.wp_now fun now => ?_)
      have hh : Later h (.call (.ambient .now) now :: .call (.call (.queryOrder o)) (.ok none) :: h) :=
        (Later.rfl.cons rfl).cons rfl
      refine (Proc.wp_ite _ _ _ _ _ _).2 ?_
      split
      · exact .waiting ⟨ha, hh⟩
      · refine (Proc.wp_bind _ _ _ _ _).2 (hC.wp_transaction (.inl rfl) ?_ ?_)
        · exact fun _ s' htx => .rejected ⟨ha, hh.cons rfl⟩ htx
        · exact fun e htx => .raised ⟨ha, hh.cons rfl⟩ htx
    · refine (Proc.wp_bind _ _ _ _ _).2
        (Proc.wp_mono (hC.wp_applyReport r _) fun res h₁ s₁ hr => ?_)
      cases res with
      | error e => exact .refused ha (Later.rfl.cons rfl) hr
      | ok fresh =>
        cases hr with
        | applied hh hr =>
          have ht : Told cfg A o r h s (.step .query :: h₁) s₁ :=
            ⟨ha, ((Later.rfl.cons rfl).trans hh).cons rfl, .tail _ (hh.mem (.head _)), hr⟩
          refine (Proc.wp_bind _ _ _ _ _).2 (hC.wp_query ((Proc.wp_bind _ _ _ _ _).2
            (Proc.wp_mono (hC.wp_ingestOrderFills _) fun res h₂ s₂ hd => ?_)))
          cases res with
          | error e => exact .lost ht hd
          | ok _ => exact .done ht hd

/-! ## Cancelling -/

/-- What the answer to the cancel request of `o` has done to the ledger. -/
inductive CancelTaken (cfg : Config) (A : (q : Request) → Ledger → Ans q → Prop) (o : Order)
    (s : Ledger) : Ledger → Prop
  | reported {out r s'} (ha : A (.call (.cancel o)) s (.ok out)) (hk : out.kind = .acknowledged)
      (hout : out.report = some r) (hr : Reported cfg r s s') : CancelTaken cfg A o s s'
  | unconfirmed : CancelTaken cfg A o s s

/-- What `cancel` comes to: only a conflict found by the refresh is raised. -/
inductive Cancelled (cfg : Config) (A : (q : Request) → Ledger → Ans q → Prop) (o : Order)
    (h : History Label Ans) (s : Ledger) :
    Except Exn (Option Order) → History Label Ans → Ledger → Prop
  | failed {e h'} (ha : A (.call (.cancel o)) s (.error e)) (hh : Later h h') :
      Cancelled cfg A o h s (.error e) h' s
  | refused {out r e h₁ h' s'} (ha : A (.call (.cancel o)) s (.ok out))
      (hk : out.kind = .acknowledged) (hout : out.report = some r) (hh : Later h h₁)
      (hr : Absorbed cfg r h₁ s (.error e) h' s') : Cancelled cfg A o h s (.error e) h' s'
  | conflict {m h₁ s₁ h' s'} (hc : CancelTaken cfg A o s s₁) (hh : Later h h₁)
      (hr : Refreshed cfg A o h₁ s₁ (.error (.orderConflict m)) h' s') :
      Cancelled cfg A o h s (.error (.orderConflict m)) h' s'
  | done {res h₁ s₁ h₂ h' s'} (hc : CancelTaken cfg A o s s₁) (hh : Later h h₁)
      (hr : Refreshed cfg A o h₁ s₁ res h₂ s') (hh' : Later h₂ h') :
      Cancelled cfg A o h s (.ok (s'.getOrder o.clientOrderId)) h' s'

theorem Sequential.wp_cancel (hC : Sequential C A) (o : Order) :
    Proc.wp C (cancel cfg o) (Cancelled cfg A o h s) h s := by
  have hrest {h₁ s₁} (hc : CancelTaken cfg A o s s₁) (hh : Later h h₁) :
      Proc.wp C (lookAgain cfg o) (Cancelled cfg A o h s) h₁ s₁ := by
    refine (Proc.wp_bind _ _ _ _ _).2 ((Proc.wp_attempt _ _ _ _).2
      (Proc.wp_mono (hC.wp_refresh o) fun res h₂ s₂ hr => ?_))
    rcases res with e | fresh
    · cases e with
      | orderConflict m => exact .conflict hc hh hr
      | _ => exact hC.wp_query (.done hc hh hr (Later.rfl.cons rfl))
    · cases hr with
      | done hq hd hh' => exact .done hc hh (.done hq hd hh') .rfl
  refine (Proc.wp_bind _ _ _ _ _).2 (hC.wp_call rfl fun a ha => ?_)
  cases a with
  | error e => exact .failed ha (Later.rfl.cons rfl)
  | ok out =>
    dsimp only
    split
    · next r hk hout =>
      refine (Proc.wp_bind _ _ _ _ _).2
        (Proc.wp_mono (hC.wp_applyReport r _) fun res h₁ s₁ hr => ?_)
      cases res with
      | error e => exact .refused ha hk hout (Later.rfl.cons rfl) hr
      | ok fresh =>
        cases hr with
        | applied hh hr =>
          exact hrest (.reported ha hk hout hr) ((Later.rfl.cons rfl).trans hh)
    · exact hrest .unconfirmed (Later.rfl.cons rfl)

end

end CryptoBot
