import CryptoBot.Application.ConflictVerdict

/-!
# What HEALTHY says about open orders

A run that nothing interferes with asks the exchange about every order that is open in the ledger,
and compares the orders the exchange lists as open with the ledger. While the exchange holds what it
holds, the run can do three things to the status of an order: leave it, move it to the status the
exchange reports, or reject an order in doubt that the exchange does not know. What a HEALTHY run
has confirmed follows from the order and from what the exchange holds about it.
-/

namespace CryptoBot

open Lib OrderService ReconciliationService

variable {cfg : Config} {ans : Answers Ledger Label Ans} {h h' : History Label Ans}
  {s s' s'' s₀ : Ledger} {t t' : Findings}

/-! ## The exchange -/

/-- The order reports in the answer to a query. -/
def Req.reports : (q : Req) → Except Exn q.Val → List ExchangeOrderReport
  | .queryOrder _, .ok r | .queryOrderByExchangeId .., .ok r => r.toList
  | .openOrders _, .ok rs => rs
  | _, _ => []

/-- The order reports the exchange has made in this history. -/
def reports (h : History Label Ans) : List ExchangeOrderReport :=
  h.flatMap fun
    | .call (.call q) a => q.reports a
    | _ => []

/-- While the ledger has the orders of `s`, the exchange answers about them by the status it holds
for each client order id, which does not change. It is asked by client order id, and the orders it
lists as open are not terminal. Each call may fail. -/
structure Truthful (ans : Answers Ledger Label Ans) (held : String → Option OrderStatus)
    (s : Ledger) : Prop where
  asked : ∀ {h v o r}, ans h (.call (.queryOrder o)) v (.ok (some r)) →
    r.clientOrderId = o.clientOrderId
  told : ∀ {h v q a}, ans h (.call q) v a → ∀ r ∈ q.reports a,
    (s.getOrder r.clientOrderId).isSome → held r.clientOrderId = some r.status
  unknown : ∀ {h v o}, ans h (.call (.queryOrder o)) v (.ok none) →
    (s.getOrder o.clientOrderId).isSome → held o.clientOrderId = none
  listed : ∀ {h v symbol rs}, ans h (.call (.openOrders symbol)) v (.ok rs) → ∀ r ∈ rs,
    (s.getOrder r.clientOrderId).isSome → r.status.isTerminal = false

theorem mem_reports {r : ExchangeOrderReport} {q : Req} {a : Except Exn q.Val}
    (ha : .call (.call q) a ∈ h) (hr : r ∈ q.reports a) : r ∈ reports h :=
  List.mem_flatMap.2 ⟨_, ha, hr⟩

/-- A history only gains reports. -/
theorem reports_subset (hh : h <:+ h') : reports h ⊆ reports h' := by
  obtain ⟨es, rfl⟩ := hh
  rw [reports, reports, List.flatMap_append]
  exact List.subset_append_right _ _

theorem Truthful.of_mem_reports {held : String → Option OrderStatus} (hheld : Truthful ans held s)
    (hh : ∀ q a, .call q a ∈ h → ∃ h₀ v, ans h₀ q v a) {r : ExchangeOrderReport}
    (hr : r ∈ reports h) (hown : (s.getOrder r.clientOrderId).isSome) :
    held r.clientOrderId = some r.status := by
  obtain ⟨e, he, hmem⟩ := List.mem_flatMap.1 hr
  split at hmem
  · obtain ⟨h₀, v, ha⟩ := hh _ _ he
    exact hheld.told ha r hmem hown
  · cases hmem

/-! ## What a run makes of an order -/

/-- The order has been rejected as not found, after the grace period. -/
def Order.MarkedNotFound (cfg : Config) (o : Order) : Prop :=
  o.status = .rejected ∧ ∃ age, seconds cfg.ambiguousOrderGraceSeconds ≤ age ∧
    o.rejectReason = some (notFoundAfter age)

/-- What a run makes of an order, given what the exchange holds about it and whether the run takes
its submission to be in doubt. -/
inductive RowMove (cfg : Config) (held : Option OrderStatus) (doubted : Prop) (x : Order) :
    Order → Prop
  | same : RowMove cfg held doubted x x
  | told {st : OrderStatus} {x' : Order} (hheld : held = some st)
      (hstatus : x'.status = x.status.after st) : RowMove cfg held doubted x x'
  | notFound {x' : Order} (hheld : held = none) (hdoubted : doubted)
      (hmark : x'.MarkedNotFound cfg) : RowMove cfg held doubted x x'

theorem RowMove.trans {held : Option OrderStatus} {doubted : Prop} {x x' x'' : Order}
    (hx : RowMove cfg held doubted x x') (hx' : RowMove cfg held doubted x' x'') :
    RowMove cfg held doubted x x'' := by
  cases hx' with
  | same => exact hx
  | notFound hheld hdoubted hmark => exact .notFound hheld hdoubted hmark
  | told hheld' hstatus' =>
    cases hx with
    | same => exact .told hheld' hstatus'
    | told hheld hstatus =>
      -- being told the same once more changes nothing
      obtain rfl := Option.some.inj (hheld.symm.trans hheld')
      exact .told hheld (by rw [hstatus', hstatus, OrderStatus.after_after])
    | notFound hheld =>
      rw [hheld] at hheld'
      cases hheld'

/-- The orders are the same, and each has moved as a run may move it. -/
structure Guided (cfg : Config) (held : String → Option OrderStatus) (doubted : String → Prop)
    (s s' : Ledger) : Prop where
  isSome : ∀ c, (s'.getOrder c).isSome = (s.getOrder c).isSome
  move : ∀ {c x x'}, s.getOrder c = some x → s'.getOrder c = some x' →
    RowMove cfg (held c) (doubted c) x x'

section
variable {held : String → Option OrderStatus} {doubted : String → Prop}

theorem Guided.get (h : Guided cfg held doubted s s') {c : String} {x : Order}
    (hx : s.getOrder c = some x) :
    ∃ x', s'.getOrder c = some x' ∧ RowMove cfg (held c) (doubted c) x x' := by
  have hsome := h.isSome c
  rw [hx] at hsome
  obtain ⟨x', hx'⟩ := Option.isSome_iff_exists.1 hsome
  exact ⟨x', hx', h.move hx hx'⟩

theorem Guided.of_orders (h : s'.orders = s.orders) : Guided cfg held doubted s s' := by
  refine ⟨fun c => congrArg Option.isSome (Ledger.getOrder_congr h c), fun {c x x'} hx hx' => ?_⟩
  rw [Ledger.getOrder_congr h c, hx] at hx'
  cases hx'
  exact .same

theorem Guided.rfl : Guided cfg held doubted s s := .of_orders (Eq.refl _)

theorem Guided.trans (h : Guided cfg held doubted s s') (h' : Guided cfg held doubted s' s'') :
    Guided cfg held doubted s s'' := by
  refine ⟨fun c => (h'.isSome c).trans (h.isSome c), fun {c x x''} hx hx'' => ?_⟩
  obtain ⟨x', hx', hmove⟩ := h.get hx
  exact hmove.trans (h'.move hx' hx'')

theorem Guided.of_books (h : s'.books = s.books) : Guided cfg held doubted s s' :=
  .of_orders (congrArg Ledger.orders h :)

/-- A row has been replaced. -/
theorem Guided.of_replaced {x x' : Order} (h : s.Replaced s' x x')
    (hmove : RowMove cfg (held x.clientOrderId) (doubted x.clientOrderId) x x') :
    Guided cfg held doubted s s' := by
  refine ⟨h.getOrder_isSome, fun {c y y'} hy hy' => ?_⟩
  by_cases hc : c = x.clientOrderId
  · subst hc
    obtain rfl := Option.some.inj ((Ledger.getOrder_of_mem h.mem).symm.trans hy)
    obtain rfl := Option.some.inj (h.getOrder_new.symm.trans hy')
    exact hmove
  · rw [h.getOrder_of_ne hc, hy] at hy'
    cases hy'
    exact .same

/-- A report about an order of the ledger moves that order to the reported status, where it may
move there. -/
theorem Reported.told {r : ExchangeOrderReport} {x : Order} (hr : Reported cfg r s s')
    (hx : s.getOrder r.clientOrderId = some x) :
    ∃ x', s'.getOrder r.clientOrderId = some x' ∧ x'.status = x.status.after r.status := by
  obtain ⟨now, out, htx, hout⟩ := hr
  have hfind : findOrder cfg s (some r.clientOrderId) r.exchangeOrderId = some x :=
    findOrder_of_clientOrderId hx
  have hc := (Ledger.getOrder_eq_some.1 hx).2
  rcases applyReportTx_cases htx with ⟨hnone, -⟩ | ⟨y, hy, ⟨m, rfl, -⟩ | ⟨happly, -, rfl⟩ |
    ⟨y', happly, -, hrep⟩⟩
  · rw [hfind] at hnone
    cases hnone
  · exact absurd rfl (hout _ m)
  · obtain rfl := Option.some.inj (hfind.symm.trans hy)
    exact ⟨x, hx, (Order.applyReport_ok happly).1.status⟩
  · obtain rfl := Option.some.inj (hfind.symm.trans hy)
    rw [← hc]
    exact ⟨_, hrep.getOrder_new, (Order.applyReport_ok happly).1.status⟩

theorem Reported.guided {r : ExchangeOrderReport} (hr : Reported cfg r s s')
    (hown : (s.getOrder r.clientOrderId).isSome) (hheld : held r.clientOrderId = some r.status) :
    Guided cfg held doubted s s' := by
  obtain ⟨now, out, htx, hout⟩ := hr
  obtain ⟨x, hx⟩ := Option.isSome_iff_exists.1 hown
  have hfind : findOrder cfg s (some r.clientOrderId) r.exchangeOrderId = some x :=
    findOrder_of_clientOrderId hx
  have hc := (Ledger.getOrder_eq_some.1 hx).2
  rcases applyReportTx_cases htx with ⟨-, -, rfl⟩ | ⟨y, hy, ⟨m, -, -, rfl⟩ | ⟨-, -, rfl⟩ |
    ⟨y', happly, -, hrep⟩⟩
  · exact .rfl
  · exact .rfl
  · exact .rfl
  · obtain rfl := Option.some.inj (hfind.symm.trans hy)
    refine .of_replaced hrep (.told (hc ▸ hheld) ?_)
    exact (Order.applyReport_ok happly).1.status

theorem Absorbed.guided {r : ExchangeOrderReport} {res : Except Exn (Option Order)}
    (ha : Absorbed cfg r h s res h' s') (hown : (s.getOrder r.clientOrderId).isSome)
    (hheld : held r.clientOrderId = some r.status) : Guided cfg held doubted s s' := by
  cases ha with
  | applied _ hr => exact hr.guided hown hheld
  | conflict _ _ _ _ _ hbooks => exact .of_books hbooks
  | refused => exact .rfl

/-- A rejection as not found. -/
theorem guided_rejectTx {c : String} {age : Int} {now : Time}
    (hheld : held c = none) (hdoubted : doubted c)
    (hage : seconds cfg.ambiguousOrderGraceSeconds ≤ age)
    (htx : rejectTx c (notFoundAfter age) now s = .ok (⟨⟩, s')) :
    Guided cfg held doubted s s' := by
  obtain ⟨x, hx, ⟨-, rfl⟩ | ⟨x', hmark, hrep⟩⟩ := rejectTx_cases htx
  · exact .rfl
  · obtain ⟨-, -, -, -, -, hyes⟩ := Order.markRejected_ok hmark
    obtain ⟨-, hstatus, hreason⟩ := hyes rfl
    have hc := (Ledger.getOrder_eq_some.1 hx).2
    exact .of_replaced hrep (.notFound (hc ▸ hheld) (hc ▸ hdoubted) ⟨hstatus, age, hage, hreason⟩)

/-! ## Checks that leave the orders alone -/

/-- A step that leaves the orders alone. -/
def OrdersKept (_ : Label) (s s' : Ledger) : Prop := s'.orders = s.orders

theorem ends_ordersKept {α : Type} {p : RunM α} {r : Except Exn α} (hp : p.Within OrdersKept)
    (hrun : LProc.Ends ans p t h s r t' h' s') : Guided cfg held doubted s s' := by
  refine .of_orders ?_
  refine Prog.Ends.within (I := fun _ s' => s'.orders = s.orders) hrun (hp t) ?_ ?_ rfl
  · exact fun {_ _ _ _} hkept hI => hkept.trans hI
  · exact fun {_ _ _ _} hI => hI

theorem trail_ordersKept {β : Type} {check : β → RunM Unit} {bs : List β} {r : Except Exn Unit}
    (hp : ∀ b, (check b).Within OrdersKept) (hrun : LProc.Trail ans check bs t h s r t' h' s') :
    Guided cfg held doubted s s' := by
  induction hrun with
  | nil => exact .rfl
  | cons hb _ ih => exact (ends_ordersKept (hp _) hb).trans ih
  | stop _ hb => exact ends_ordersKept (hp _) hb

theorem Recording.ordersKept (cfg : Config) {α : Type} {p : RunM α}
    (hp : p.Within (Recording cfg)) : p.Within OrdersKept :=
  fun t => Prog.Within.mono (fun _ _ _ hr => hr.2.2) (hp t)

theorem rebuild_ordersKept : (rebuild cfg).Within OrdersKept := by
  refine (query_within fun _ => rfl).bind fun _ => (query_within fun _ => rfl).bind fun _ => ?_
  refine clockNow_within.bind fun _ => (transaction_within (fun _ => rfl) ?_).bind fun _ =>
    Proc.within_pure _
  intro v p v' htx
  obtain ⟨-, -, hrest⟩ := Store.savePosition_ok htx
  exact (congrArg Ledger.orders hrest :)

theorem checkPosition_ordersKept {runKey : RunKey} {rules : SymbolRules} {tolerance : ℚ} :
    (checkPosition cfg runKey rules tolerance).Within OrdersKept :=
  (LProc.within_exec (call_within _)).bind fun _ =>
    (Recording.ordersKept cfg (LProc.within_exec (query_recording _))).bind fun _ =>
    (LProc.within_exec rebuild_ordersKept).bind fun _ =>
    (Recording.ordersKept cfg comparePosition_recording).bind fun _ =>
    (Recording.ordersKept cfg (LProc.within_exec setBalances_recording)).bind fun _ =>
    (LProc.within_exec clockNow_within).bind fun _ =>
    (Recording.ordersKept cfg (LProc.within_exec enqueue_recording)).bind fun _ =>
    Recording.ordersKept cfg checkProtectiveStop_recording

/-! ## The checks -/

/-- What the check of an open order establishes, when it finds nothing critical or pending: an order
the exchange knows has been reported, and has moved to the reported status where it may; one in
doubt that the exchange does not know has been rejected. -/
structure Verified (cfg : Config) (held : String → Option OrderStatus) (doubted : String → Prop)
    (o : Order) (h : History Label Ans) (s : Ledger) : Prop where
  known : ∀ st, held o.clientOrderId = some st →
    (∃ r ∈ reports h, r.clientOrderId = o.clientOrderId ∧ r.status = st) ∧
      ∃ x, s.getOrder o.clientOrderId = some x ∧ x.status = o.status.after st
  unknown : held o.clientOrderId = none → doubted o.clientOrderId →
    ∃ x, s.getOrder o.clientOrderId = some x ∧ x.MarkedNotFound cfg

theorem Verified.later {o : Order} (hv : Verified cfg held doubted o h s) (hh : h <:+ h')
    (hs : Guided cfg held doubted s s') : Verified cfg held doubted o h' s' := by
  refine ⟨fun st hst => ?_, fun hnone hdoubted => ?_⟩
  · obtain ⟨⟨r, hr, hrest⟩, x, hx, hstatus⟩ := hv.known st hst
    refine ⟨⟨r, reports_subset hh hr, hrest⟩, ?_⟩
    obtain ⟨x', hx', hmove⟩ := hs.get hx
    refine ⟨x', hx', ?_⟩
    cases hmove with
    | same => exact hstatus
    | told hst' hstatus' =>
      obtain rfl := Option.some.inj (hst.symm.trans hst')
      rw [hstatus', hstatus, OrderStatus.after_after]
    | notFound hnone =>
      rw [hst] at hnone
      cases hnone
  · obtain ⟨x, hx, hmark⟩ := hv.unknown hnone hdoubted
    obtain ⟨x', hx', hmove⟩ := hs.get hx
    refine ⟨x', hx', ?_⟩
    cases hmove with
    | same => exact hmark
    | told hst =>
      rw [hnone] at hst
      cases hst
    | notFound _ _ hmark' => exact hmark'

/-- An order that has been told of. -/
theorem Told.verified {A : (q : Request) → Ledger → Ans q → Prop} {o : Order}
    {r : ExchangeOrderReport} (ht : Told cfg A o r h s h' s')
    (hr : r.clientOrderId = o.clientOrderId) (hheld : held o.clientOrderId = some r.status)
    (hs : Guided cfg held doubted s₀ s) (ho : s₀.getOrder o.clientOrderId = some o) :
    Verified cfg held doubted o h' s' := by
  refine ⟨fun st hst => ?_, fun hnone => ?_⟩
  · obtain rfl := Option.some.inj (hheld.symm.trans hst)
    refine ⟨⟨r, mem_reports ht.mem (Option.mem_toList.2 rfl), hr, rfl⟩, ?_⟩
    obtain ⟨x, hx, hmove⟩ := hs.get ho
    obtain ⟨x', hx', hstatus⟩ := ht.reported.told (hr ▸ hx)
    refine ⟨x', hr ▸ hx', ?_⟩
    cases hmove with
    | same => exact hstatus
    | told hst' hstatus' =>
      obtain rfl := Option.some.inj (hst.symm.trans hst')
      rw [hstatus, hstatus', OrderStatus.after_after]
    | notFound hnone =>
      rw [hst] at hnone
      cases hnone
  · rw [hheld] at hnone
    cases hnone

theorem Recorded.orders {xfs : List ExchangeFill} (h : Recorded cfg xfs s s') :
    s'.orders = s.orders := by
  induction h with
  | nil => rfl
  | cons hx _ ih => exact ih.trans (ingestFillTx_orders hx)

theorem Downloaded.orders {A : (q : Request) → Ledger → Ans q → Prop} {x : Option Order}
    {res : Except Exn Unit} (hd : Downloaded cfg A h s x res h' s') : s'.orders = s.orders := by
  cases hd with
  | skipped => rfl
  | failed => rfl
  | recorded _ _ hr => exact hr.orders

theorem Downloaded.later {A : (q : Request) → Ledger → Ans q → Prop} {x : Option Order}
    {res : Except Exn Unit} (hd : Downloaded cfg A h s x res h' s') : Later h h' := by
  cases hd with
  | skipped => exact .rfl
  | failed _ hh => exact hh
  | recorded _ hh => exact hh

/-- The handler of a conflict, when the run goes on: the outcome is handed on, or a critical mismatch
has been found. -/
theorem ends_onConflict_ok {α : Type} {o : Order} {res : Except Exn α} {k : α → RunM Unit}
    (hrun : LProc.Ends ans (onConflict o res k) t h s (.ok ⟨⟩) t' h' s') :
    (∃ a, res = .ok a ∧ LProc.Ends ans (k a) t h s (.ok ⟨⟩) t' h' s') ∨
      ((∃ m, res = .error (.orderConflict m)) ∧ t.Grown t' ∧ ¬ t'.Clean ∧ h' = h ∧ s' = s) := by
  unfold onConflict at hrun
  split at hrun
  · next a => exact .inl ⟨a, rfl, hrun⟩
  · next m =>
    obtain ⟨-, hh, hs⟩ := (LProc.ends_assign _ _).1 hrun
    exact .inr ⟨⟨m, rfl⟩, growing_report _ _ _ _ _ hrun, not_clean_report hrun, hh, hs⟩
  · cases ((LProc.ends_throw _ _).1 hrun).1.1

/-- The answers of an environment at a ledger, whatever the history. -/
abbrev Answers.at (ans : Answers Ledger Label Ans) (q : Request) (s : Ledger) (a : Ans q) : Prop :=
  ∃ h, ans h q s a

/-- What an answer about an order of the ledger says. -/
theorem Truthful.told_of {o : Order} {r : ExchangeOrderReport} (hheld : Truthful ans held s₀)
    (hs : Guided cfg held doubted s₀ s) (ho : (s₀.getOrder o.clientOrderId).isSome)
    (ha : Answers.at ans (.call (.queryOrder o)) s (.ok (some r))) :
    r.clientOrderId = o.clientOrderId ∧ (s.getOrder r.clientOrderId).isSome ∧
      held r.clientOrderId = some r.status := by
  obtain ⟨h₀, ha⟩ := ha
  have hr := hheld.asked ha
  have hown : (s₀.getOrder r.clientOrderId).isSome := hr ▸ ho
  exact ⟨hr, (hs.isSome _).trans hown, hheld.told ha r (Option.mem_toList.2 rfl) hown⟩

section
variable {o : Order} (hheld : Truthful ans held s₀) (hs : Guided cfg held doubted s₀ s)
  (ho : s₀.getOrder o.clientOrderId = some o)
include hheld hs ho

/-- A refresh that returns has been told of the order, or the exchange does not know it. -/
theorem Refreshed.verified {res : Except Exn (Option Order)}
    (hf : Refreshed cfg (Answers.at ans) o h s res h' s')
    (hdoubted : ¬ doubted o.clientOrderId) :
    Guided cfg held doubted s s' ∧ (∀ x, res = .ok x → Verified cfg held doubted o h' s') := by
  have hquery {h₁ s₁} (hq : Missing (Answers.at ans) o h s h₁ ∧ s₁ = s ∨
      ∃ r, Told cfg (Answers.at ans) o r h s h₁ s₁) :
      Guided cfg held doubted s s₁ ∧ Verified cfg held doubted o h₁ s₁ := by
    rcases hq with ⟨hm, rfl⟩ | ⟨r, ht⟩
    · refine ⟨.rfl, fun st hst => ?_, fun _ hd => absurd hd hdoubted⟩
      obtain ⟨h₀, ha⟩ := hm.ans
      rw [hheld.unknown ha (Option.isSome_of_eq_some ho)] at hst
      cases hst
    · obtain ⟨hr, hown, htold⟩ := hheld.told_of hs (Option.isSome_of_eq_some ho) ht.ans
      exact ⟨ht.reported.guided hown htold, ht.verified hr (hr ▸ htold) hs ho⟩
  cases hf with
  | failed => exact ⟨.rfl, fun x hx => by cases hx⟩
  | refused ha _ hr =>
    obtain ⟨-, hown, htold⟩ := hheld.told_of hs (Option.isSome_of_eq_some ho) ha
    exact ⟨hr.guided hown htold, fun x hx => by cases hx⟩
  | lost hq hd =>
    exact ⟨(hquery hq).1.trans (.of_orders hd.orders), fun x hx => by cases hx⟩
  | done hq hd hh =>
    obtain ⟨hguided, hverified⟩ := hquery hq
    have hdown : Guided cfg held doubted _ _ := .of_orders hd.orders
    exact ⟨hguided.trans hdown, fun x _ => hverified.later (hd.later.trans hh).suffix hdown⟩

/-- The resolution of an order the exchange does not know rejects it, or has not resolved it. -/
theorem ends_resolveAmbiguous_unknown {res : Except Exn Resolution} (hopen : o.isTerminal = false)
    (hnone : held o.clientOrderId = none)
    (hrun : Proc.Ends ans (resolveAmbiguous cfg o) h s res h' s') :
    (s' = s ∧ res ≠ .ok .resolved) ∨ ∃ age now, seconds cfg.ambiguousOrderGraceSeconds ≤ age ∧
      rejectTx o.clientOrderId (notFoundAfter age) now s = .ok (⟨⟩, s') := by
  unfold resolveAmbiguous at hrun
  rw [if_neg (by rw [hopen]; decide), Proc.ends_bind] at hrun
  rcases hrun with ⟨answer, h₁, s₁, hcall, hrun⟩ | ⟨e, hcall, -⟩
  · obtain ⟨x, hx, hcall⟩ := (Proc.ends_attempt _ _).1 hcall
    cases hx
    obtain ⟨ha, rfl, rfl⟩ := ends_call hcall
    cases answer with
    | error e =>
      obtain ⟨rfl, -, rfl⟩ := (Proc.ends_pure _ _).1 hrun
      exact .inl ⟨rfl, fun hres => by cases hres⟩
    | ok answer =>
      cases answer with
      | some r =>
        obtain ⟨hr, -, htold⟩ := hheld.told_of hs (Option.isSome_of_eq_some ho) ⟨_, ha⟩
        rw [hr, hnone] at htold
        cases htold
      | none =>
        dsimp only at hrun
        rw [Proc.ends_bind] at hrun
        rcases hrun with ⟨now, h₂, s₂, hnow, hrun⟩ | ⟨e, hnow, -⟩
        · obtain ⟨_, hnow, -, rfl, rfl⟩ := ends_clockNow hnow
          cases hnow
          split at hrun
          · obtain ⟨rfl, -, rfl⟩ := (Proc.ends_pure _ _).1 hrun
            exact .inl ⟨rfl, fun hres => by cases hres⟩
          · next hage =>
            rw [Proc.ends_bind] at hrun
            rcases hrun with ⟨_, h₃, s₃, htx, hrun⟩ | ⟨e, htx, hres⟩
            · obtain ⟨rfl, -, rfl⟩ := (Proc.ends_pure _ _).1 hrun
              obtain ⟨-, ⟨_, htx, -⟩ | ⟨_, -, hres, -⟩⟩ := ends_transaction htx
              · exact .inr ⟨_, now, not_lt.1 hage, htx⟩
              · cases hres
            · obtain ⟨-, ⟨_, -, herr⟩ | ⟨_, -, -, rfl⟩⟩ := ends_transaction htx
              · cases herr
              · exact .inl ⟨rfl, fun h => by rw [hres] at h; cases h⟩
        · obtain ⟨_, hr, -⟩ := ends_clockNow hnow
          cases hr
  · obtain ⟨x, hx, -⟩ := (Proc.ends_attempt _ _).1 hcall
    cases hx

/-- A resolution that returns without leaving the order pending has been told of the order, or has
rejected it. -/
theorem ends_resolveAmbiguous {res : Except Exn Resolution} (hopen : o.isTerminal = false)
    (hdoubted : doubted o.clientOrderId)
    (hrun : Proc.Ends ans (resolveAmbiguous cfg o) h s res h' s') :
    Guided cfg held doubted s s' ∧
      (res = .ok .resolved → Verified cfg held doubted o h' s') := by
  cases hst : held o.clientOrderId with
  | none =>
    rcases ends_resolveAmbiguous_unknown hheld hs ho hopen hst hrun with ⟨rfl, hres⟩ |
      ⟨age, now, hage, htx⟩
    · exact ⟨.rfl, fun h => absurd h hres⟩
    · refine ⟨guided_rejectTx hst hdoubted hage htx, fun _ => ⟨fun st hst' => ?_, fun _ _ => ?_⟩⟩
      · rw [hst] at hst'
        cases hst'
      · obtain ⟨x, hx, hmove⟩ := hs.get ho
        obtain ⟨y, hy, ⟨hterminal, rfl⟩ | ⟨x', hmark, hrep⟩⟩ := rejectTx_cases htx
        · -- a terminal row has been rejected before
          obtain rfl := Option.some.inj (hx.symm.trans hy)
          refine ⟨x, hx, ?_⟩
          cases hmove with
          | same =>
            rw [hopen] at hterminal
            cases hterminal
          | told hst' =>
            rw [hst] at hst'
            cases hst'
          | notFound _ _ hmark => exact hmark
        · obtain ⟨-, -, -, -, -, hyes⟩ := Order.markRejected_ok hmark
          obtain ⟨-, hstatus, hreason⟩ := hyes rfl
          rw [← (Ledger.getOrder_eq_some.1 hy).2]
          exact ⟨_, hrep.getOrder_new, hstatus, age, hage, hreason⟩
  | some st =>
    have hmissing {h₁} (hm : Missing (Answers.at ans) o h s h₁) : False := by
      obtain ⟨h₀, ha⟩ := hm.ans
      rw [hheld.unknown ha (Option.isSome_of_eq_some ho)] at hst
      cases hst
    cases hrun.post ((sequential_alone ans).wp_resolveAmbiguous o) with
    | terminal hterminal =>
      rw [hopen] at hterminal
      cases hterminal
    | failed => exact ⟨.rfl, fun h => by cases h⟩
    | waiting => exact ⟨.rfl, fun h => by cases h⟩
    | raised => exact ⟨.rfl, fun h => by cases h⟩
    | rejected hq => exact (hmissing hq).elim
    | refused ha _ hr =>
      obtain ⟨-, hown, htold⟩ := hheld.told_of hs (Option.isSome_of_eq_some ho) ha
      exact ⟨hr.guided hown htold, fun h => by cases h⟩
    | lost hq hd =>
      obtain ⟨-, hown, htold⟩ := hheld.told_of hs (Option.isSome_of_eq_some ho) hq.ans
      exact ⟨(hq.reported.guided hown htold).trans (.of_orders hd.orders), fun h => by cases h⟩
    | done hq hd =>
      obtain ⟨hr, hown, htold⟩ := hheld.told_of hs (Option.isSome_of_eq_some ho) hq.ans
      have hdown : Guided cfg held doubted _ _ := .of_orders hd.orders
      refine ⟨(hq.reported.guided hown htold).trans hdown, fun _ => ?_⟩
      exact (hq.verified hr (hr ▸ htold) hs ho).later hd.later.suffix hdown

/-- The check of an open order. -/
theorem ends_checkOpenOrder (hopen : o.isTerminal = false)
    (hdoubted : doubted o.clientOrderId ↔ o.submissionAmbiguous ∨ o.status = .submitting)
    (hrun : LProc.Ends ans (checkOpenOrder cfg o) t h s (.ok ⟨⟩) t' h' s') :
    Guided cfg held doubted s s' ∧ t.Grown t' ∧
      (t'.Clean → t'.pendingAmbiguous = 0 → Verified cfg held doubted o h' s') := by
  unfold checkOpenOrder at hrun
  split at hrun
  · next hbranch =>
    rw [LProc.ends_exec_bind_ok] at hrun
    obtain ⟨res, h₁, s₁, hres, hrun⟩ := hrun
    obtain ⟨_, heq, hres⟩ := (Proc.ends_attempt _ _).1 hres
    cases heq
    obtain ⟨hguided, hverified⟩ :=
      ends_resolveAmbiguous hheld hs ho hopen (hdoubted.2 hbranch) hres
    rcases ends_onConflict_ok hrun with ⟨outcome, rfl, hk⟩ | ⟨-, hgrown, hclean, rfl, rfl⟩
    · cases outcome with
      | resolved =>
        obtain ⟨⟨-, rfl⟩, rfl, rfl⟩ := (LProc.ends_pure _ _).1 hk
        exact ⟨hguided, .rfl, fun _ _ => hverified rfl⟩
      | pending =>
        rw [LProc.ends_bind_ok] at hk
        obtain ⟨_, t₁, h₂, s₂, hp, hk⟩ := hk
        have hgrown := (growing_addPending hp).trans (growing_report _ _ _ _ _ hk)
        obtain ⟨⟨-, rfl⟩, rfl, rfl⟩ := (LProc.ends_assign _ _).1 hp
        obtain ⟨⟨-, rfl⟩, rfl, rfl⟩ := (LProc.ends_assign _ _).1 hk
        exact ⟨hguided, hgrown, fun _ hpending => absurd hpending (Nat.succ_ne_zero _)⟩
    · exact ⟨hguided, hgrown, fun h => absurd h hclean⟩
  · next hbranch =>
    rw [LProc.ends_exec_bind_ok] at hrun
    obtain ⟨res, h₁, s₁, hres, hrun⟩ := hrun
    obtain ⟨_, heq, hres⟩ := (Proc.ends_attempt _ _).1 hres
    cases heq
    obtain ⟨hguided, hverified⟩ := Refreshed.verified hheld hs ho
      (hres.post ((sequential_alone ans).wp_refresh o)) fun hd => hbranch (hdoubted.1 hd)
    rcases ends_onConflict_ok hrun with ⟨outcome, rfl, hk⟩ | ⟨-, hgrown, hclean, rfl, rfl⟩
    · obtain ⟨⟨-, rfl⟩, rfl, rfl⟩ := (LProc.ends_pure _ _).1 hk
      exact ⟨hguided, .rfl, fun _ _ => hverified _ rfl⟩
    · exact ⟨hguided, hgrown, fun h => absurd h hclean⟩

end

/-- The comparison of a terminal order tells it what the exchange holds. -/
theorem ends_compareTerminal_guided {o : Order} {r : ExchangeOrderReport} {res : Except Exn Order}
    (hown : (s.getOrder r.clientOrderId).isSome) (htold : held r.clientOrderId = some r.status)
    (hrun : Proc.Ends ans (compareTerminal cfg o r) h s res h' s') :
    Guided cfg held doubted s s' := by
  unfold compareTerminal at hrun
  rw [Proc.ends_bind] at hrun
  rcases hrun with ⟨_, h₁, s₁, happly, hrun⟩ | ⟨e, happly, -⟩
  · have habsorbed := happly.post ((sequential_alone ans).wp_applyReport r "reconciliation")
    refine (habsorbed.guided hown htold).trans (.of_orders (congrArg Ledger.orders ?_))
    rw [Proc.ends_bind] at hrun
    rcases hrun with ⟨fresh, _, _, hq, hrun⟩ | ⟨e, hq, -⟩
    · obtain ⟨-, rfl, rfl⟩ := (ends_query _ _ _).1 hq
      cases fresh with
      | some x => exact ((Proc.ends_pure _ _).1 hrun).2.2
      | none => exact ((Proc.ends_throw _ _).1 hrun).2.2
    · cases hq.1
  · have habsorbed := happly.post ((sequential_alone ans).wp_applyReport r "reconciliation")
    exact habsorbed.guided hown htold

/-- The adoption of an order tells it what the exchange holds. -/
theorem ends_adopt_guided {rep : Option ExchangeOrderReport} {res : Except (Option String) PUnit}
    (htold : ∀ r, rep = some r → (s.getOrder r.clientOrderId).isSome →
      held r.clientOrderId = some r.status)
    (hrun : LProc.Ends ans (adopt cfg rep) t h s (.ok res) t' h' s') :
    Guided cfg held doubted s s' := by
  cases rep with
  | none =>
    obtain ⟨-, -, rfl⟩ := (LProc.ends_pure _ _).1 hrun
    exact .rfl
  | some r =>
    simp only [adopt] at hrun
    rw [LProc.ends_exec_bind_ok] at hrun
    obtain ⟨loc, _, v, hq, hrun⟩ := hrun
    obtain ⟨hloc, rfl, rfl⟩ := (ends_query _ _ _).1 hq
    cases loc with
    | none =>
      obtain ⟨-, -, rfl⟩ := (LProc.ends_pure _ _).1 hrun
      exact .rfl
    | some x =>
      have hown : (v.getOrder r.clientOrderId).isSome := by
        have hloc := Except.ok.inj hloc
        split at hloc
        · exact Option.isSome_of_eq_some hloc.symm
        · cases hloc
      dsimp only at hrun
      rw [LProc.ends_exec_bind_ok] at hrun
      obtain ⟨_, h₁, _, happly, hrun⟩ := hrun
      obtain ⟨-, -, rfl⟩ := (LProc.ends_pure _ _).1 hrun
      have habsorbed := happly.post ((sequential_alone ans).wp_applyReport r "reconciliation")
      exact habsorbed.guided hown (htold r rfl hown)

section
variable (hheld : Truthful ans held s₀) (hs : Guided cfg held doubted s₀ s)
include hheld hs

/-- The verification of a terminal order tells it what the exchange holds. -/
theorem ends_verifyTerminal {o : Order} (ho : (s₀.getOrder o.clientOrderId).isSome)
    (hrun : LProc.Ends ans (verifyTerminal cfg o) t h s (.ok ⟨⟩) t' h' s') :
    Guided cfg held doubted s s' := by
  unfold verifyTerminal at hrun
  rw [LProc.ends_exec_bind_ok] at hrun
  obtain ⟨rep, _, _, hcall, hrun⟩ := hrun
  obtain ⟨ha, rfl, rfl⟩ := ends_call_ok hcall
  cases rep with
  | none =>
    obtain ⟨-, -, rfl⟩ := (LProc.ends_assign _ _).1 hrun
    exact .rfl
  | some r =>
    obtain ⟨-, hown, htold⟩ := hheld.told_of hs ho ⟨_, ha⟩
    dsimp only at hrun
    split at hrun
    · rw [LProc.ends_exec_bind_ok] at hrun
      obtain ⟨res, h₁, v, hres, hrun⟩ := hrun
      obtain ⟨_, heq, hres⟩ := (Proc.ends_attempt _ _).1 hres
      cases heq
      have hguided : Guided cfg held doubted _ v := ends_compareTerminal_guided hown htold hres
      rcases ends_onConflict_ok hrun with ⟨fresh, -, hk⟩ | ⟨-, -, -, -, rfl⟩
      · split at hk
        · obtain ⟨-, -, rfl⟩ := (LProc.ends_assign _ _).1 hk
          exact hguided
        · obtain ⟨-, -, rfl⟩ := (LProc.ends_pure _ _).1 hk
          exact hguided
      · exact hguided
    · obtain ⟨-, -, rfl⟩ := (LProc.ends_pure _ _).1 hrun
      exact .rfl

/-- The check of a recent fill may adopt an order, and records the fill. -/
theorem ends_checkRecentFill {xf : ExchangeFill}
    (hrun : LProc.Ends ans (checkRecentFill cfg xf) t h s (.ok ⟨⟩) t' h' s') :
    Guided cfg held doubted s s' := by
  unfold checkRecentFill at hrun
  rw [LProc.ends_bind_ok] at hrun
  obtain ⟨res, t₁, h₁, s₁, howner, hrun⟩ := hrun
  have hguided : Guided cfg held doubted s s₁ := by
    unfold ownerOfFill at howner
    rw [LProc.ends_exec_bind_ok] at howner
    obtain ⟨loc, _, _, hq, howner⟩ := howner
    obtain ⟨-, rfl, rfl⟩ := (ends_query _ _ _).1 hq
    cases loc with
    | some x =>
      obtain ⟨-, -, rfl⟩ := (LProc.ends_pure _ _).1 howner
      exact .rfl
    | none =>
      dsimp only at howner
      split at howner
      · rw [LProc.ends_exec_bind_ok] at howner
        obtain ⟨rep, _, _, hcall, howner⟩ := howner
        obtain ⟨ha, rfl, rfl⟩ := ends_call_ok hcall
        refine ends_adopt_guided (fun r hr hown => ?_) howner
        subst hr
        exact hheld.told ha r (Option.mem_toList.2 rfl) ((hs.isSome _).symm.trans hown)
      · exact ends_adopt_guided (fun r hr => by cases hr) howner
  cases res with
  | error c =>
    obtain ⟨-, -, rfl⟩ := (LProc.ends_assign _ _).1 hrun
    exact hguided
  | ok _ =>
    rw [LProc.ends_exec_bind_ok] at hrun
    obtain ⟨_, _, _, hingest, hrun⟩ := hrun
    obtain ⟨⟨-, rfl⟩, rfl, rfl⟩ := (LProc.ends_pure _ _).1 hrun
    have hingest : LProc.Ends ans (LProc.exec (ingestFill cfg xf)) t' h₁ s₁ _ t' _ _ :=
      (LProc.ends_exec _ _).2 ⟨rfl, hingest⟩
    exact hguided.trans (ends_ordersKept (Recording.ordersKept cfg (LProc.within_exec
      ingestFill_recording)) hingest)

end

/-! ## The try block -/

/-- The open orders of the start have been checked, one after the other. -/
theorem verified_of_trail {os : List Order} (hheld : Truthful ans held s)
    (hos : ∀ o ∈ os, s.getOrder o.clientOrderId = some o ∧ o.isTerminal = false ∧
      (doubted o.clientOrderId ↔ o.submissionAmbiguous ∨ o.status = .submitting))
    (hrun : LProc.Trail ans (checkOpenOrder cfg) os t h s (.ok ⟨⟩) t' h' s') :
    Guided cfg held doubted s s' ∧ t.Grown t' ∧
      (t'.Clean → t'.pendingAmbiguous = 0 → ∀ o ∈ os, Verified cfg held doubted o h' s') := by
  let I (rest : List Order) (u : Findings) (k : History Label Ans) (v : Ledger) : Prop :=
    Guided cfg held doubted s v ∧ t.Grown u ∧ rest ⊆ os ∧
      (u.Clean → u.pendingAmbiguous = 0 → ∀ o ∈ os, o ∉ rest → Verified cfg held doubted o k v)
  have hI : I [] t' h' s' := by
    refine hrun.invariant I ?_ rfl
      ⟨.rfl, .rfl, List.Subset.refl _, fun _ _ o ho hn => absurd ho hn⟩
    rintro o rest u k v u' k' v' ⟨hguided, hgrown, hrest, hdone⟩ hcheck
    obtain ⟨ho, hopen, hdoubted⟩ := hos o (hrest (.head _))
    obtain ⟨hguided', hgrown', hverified⟩ :=
      ends_checkOpenOrder hheld hguided ho hopen hdoubted hcheck
    refine ⟨hguided.trans hguided', hgrown.trans hgrown', fun x hx => hrest (.tail _ hx), ?_⟩
    intro hclean hpending x hx hn
    by_cases heq : x = o
    · exact heq ▸ hverified hclean hpending
    · have hnone : u.pendingAmbiguous = 0 := Nat.le_zero.1 (hpending ▸ hgrown'.pending)
      have hbefore := hdone (hclean.of_grown hgrown') hnone x hx (by simp [heq, hn])
      exact hbefore.later hcheck.suffix hguided'
  obtain ⟨hguided, hgrown, -, hall⟩ := hI
  exact ⟨hguided, hgrown, fun hclean hpending o ho => hall hclean hpending o ho List.not_mem_nil⟩

/-- A loop of checks, each of which moves the orders as a run may move them. -/
theorem guided_of_trail {β : Type} {check : β → RunM Unit} {bs : List β}
    (hcheck : ∀ b ∈ bs, ∀ {t h s t' h' s'}, Guided cfg held doubted s₀ s →
      LProc.Ends ans (check b) t h s (.ok ⟨⟩) t' h' s' → Guided cfg held doubted s s')
    (hrun : LProc.Trail ans check bs t h s (.ok ⟨⟩) t' h' s')
    (hs : Guided cfg held doubted s₀ s) : Guided cfg held doubted s s' := by
  let I (rest : List β) (_ : Findings) (_ : History Label Ans) (v : Ledger) : Prop :=
    Guided cfg held doubted s v ∧ rest ⊆ bs
  have hI : I [] t' h' s' := by
    refine hrun.invariant I ?_ rfl ⟨.rfl, List.Subset.refl _⟩
    rintro b rest u k v u' k' v' ⟨hguided, hrest⟩ hb
    have hstep := hcheck b (hrest (.head _)) (hs.trans hguided) hb
    exact ⟨hguided.trans hstep, fun x hx => hrest (.tail _ hx)⟩
  exact hI.1

/-- A listed order of the bot that a run knows nothing of is a critical mismatch. -/
theorem ends_checkExchangeOpen {r : ExchangeOrderReport} (hclean : t'.Clean)
    (hrun : LProc.Ends ans (checkExchangeOpen cfg r) t h s (.ok ⟨⟩) t' h' s')
    (hown : startsWith r.clientOrderId (StreamIngestionService.ownPrefix cfg)) :
    (s.getOrder r.clientOrderId).isSome := by
  unfold checkExchangeOpen at hrun
  rw [LProc.ends_exec_bind_ok] at hrun
  obtain ⟨loc, _, _, hq, hrun⟩ := hrun
  obtain ⟨hloc, rfl, rfl⟩ := (ends_query _ _ _).1 hq
  cases loc with
  | some x => exact Option.isSome_of_eq_some (Except.ok.inj hloc).symm
  | none =>
    simp only [hown, if_true] at hrun
    exact absurd hclean (not_clean_report hrun)

theorem known_of_trail {rs : List ExchangeOrderReport}
    (hrun : LProc.Trail ans (checkExchangeOpen cfg) rs t h s (.ok ⟨⟩) t' h' s')
    (hclean : t'.Clean) : ∀ r ∈ rs,
      startsWith r.clientOrderId (StreamIngestionService.ownPrefix cfg) →
        (s.getOrder r.clientOrderId).isSome := by
  generalize hres : (.ok ⟨⟩ : Except Exn Unit) = res at hrun
  induction hrun with
  | nil => exact fun r hr => absurd hr List.not_mem_nil
  | cons hr hrs ih =>
    have hclean₁ := hclean.of_grown (Trail.grown (fun _ => growing_checkExchangeOpen _) hrs)
    have hguided : Guided cfg (fun _ => none) (fun _ => False) _ _ :=
      ends_ordersKept (Recording.ordersKept cfg checkExchangeOpen_recording) hr
    refine List.forall_mem_cons.2 ⟨ends_checkExchangeOpen hclean₁ hr, fun x hx hown => ?_⟩
    exact (hguided.isSome _).symm.trans (ih hclean hres x hx hown)
  | stop _ _ => cases hres

/-- The orders of the ledger whose submission a run takes to be in doubt. -/
def Ledger.Doubted (s : Ledger) (cfg : Config) (c : String) : Prop :=
  ∃ o ∈ s.nonTerminalOrders cfg.bot cfg.symbol, o.clientOrderId = c ∧
    (o.submissionAmbiguous ∨ o.status = .submitting)

theorem Ledger.doubted_iff {o : Order} (ho : o ∈ s.nonTerminalOrders cfg.bot cfg.symbol) :
    s.Doubted cfg o.clientOrderId ↔ o.submissionAmbiguous ∨ o.status = .submitting := by
  constructor
  · rintro ⟨x, hx, hc, hdoubt⟩
    have hx := (Ledger.mem_nonTerminalOrders.1 hx).1
    rwa [Ledger.eq_of_clientOrderId hx (Ledger.mem_nonTerminalOrders.1 ho).1 hc] at hdoubt
  · exact fun hdoubt => ⟨o, ho, rfl, hdoubt⟩

/-- What a try block that returns, with nothing critical or pending, has made of the orders. -/
theorem Completed.guided {runKey : RunKey} {last : Option Time} {f : Findings}
    (hrun : Completed ans cfg runKey last h s f h' s') (hheld : Truthful ans held s)
    (hclean : f.Clean) (hpending : f.pendingAmbiguous = 0) :
    Guided cfg held (s.Doubted cfg) s s' ∧
      (∀ o ∈ s.nonTerminalOrders cfg.bot cfg.symbol,
        Verified cfg held (s.Doubted cfg) o h' s') ∧
      ∃ h₀ v listed, ans h₀ (.call (.openOrders cfg.symbol)) v (.ok listed) ∧ ∀ r ∈ listed,
        startsWith r.clientOrderId (StreamIngestionService.ownPrefix cfg) →
          (s.getOrder r.clientOrderId).isSome := by
  obtain ⟨-, hlist, hopen, hverify, hlisted, -, hrecent, hcomplete, hposition⟩ := hrun
  -- every finding of a stage is among the findings at the end
  have hclean₅ := hclean.of_grown (growing_checkPosition _ _ _ hposition)
  have hclean₄ := hclean₅.of_grown (Trail.grown (fun _ => growing_checkFillsComplete _ _) hcomplete)
  have hclean₃ := hclean₄.of_grown (Trail.grown growing_checkRecentFill hrecent)
  have hclean₂ := hclean₃.of_grown (Trail.grown growing_checkExchangeOpen hlisted)
  have hgrown := (Trail.grown growing_verifyTerminal hverify).trans <|
    (Trail.grown growing_checkExchangeOpen hlisted).trans <|
    (Trail.grown growing_checkRecentFill hrecent).trans <|
    (Trail.grown (fun _ => growing_checkFillsComplete _ _) hcomplete).trans
      (growing_checkPosition _ _ _ hposition)
  have hos : ∀ o ∈ s.nonTerminalOrders cfg.bot cfg.symbol, s.getOrder o.clientOrderId = some o ∧
      o.isTerminal = false ∧
      (s.Doubted cfg o.clientOrderId ↔ o.submissionAmbiguous ∨ o.status = .submitting) :=
    fun o ho => ⟨Ledger.getOrder_of_mem (Ledger.mem_nonTerminalOrders.1 ho).1,
      (Ledger.mem_nonTerminalOrders.1 ho).2.2.2, Ledger.doubted_iff ho⟩
  obtain ⟨hguided₁, -, hverified⟩ := verified_of_trail hheld hos hopen
  have hguided₂ := guided_of_trail (fun o ho {_ _ _ _ _ _} hs hcheck =>
    ends_verifyTerminal hheld hs (by
      have hmem := Ledger.mem_of_newestOrders (List.mem_of_mem_filter (List.mem_of_mem_take ho))
      rw [← hguided₁.isSome, Ledger.getOrder_of_mem hmem]
      rfl) hcheck) hverify hguided₁
  have hguided₃ := hguided₂.trans (trail_ordersKept
    (fun _ => Recording.ordersKept cfg checkExchangeOpen_recording) hlisted)
  have hguided₄ := hguided₃.trans (guided_of_trail
    (fun _ _ {_ _ _ _ _ _} hs hcheck => ends_checkRecentFill hheld hs hcheck) hrecent
    (hguided₁.trans hguided₃))
  have hguided₅ := (hguided₄.trans (trail_ordersKept
    (fun _ => Recording.ordersKept cfg checkFillsComplete_recording) hcomplete)).trans
      (ends_ordersKept checkPosition_ordersKept hposition)
  refine ⟨hguided₁.trans hguided₅, fun o ho => ?_, ?_⟩
  · refine (hverified (hclean₂.of_grown (Trail.grown growing_verifyTerminal hverify))
      (Nat.le_zero.1 (hpending ▸ hgrown.pending)) o ho).later ?_ hguided₅
    have hsuffix₂ := ((List.suffix_cons _ _).trans (List.suffix_cons _ _)).trans hverify.suffix
    have hsuffix₃ := hlisted.suffix.trans ((List.suffix_cons _ _).trans hrecent.suffix)
    have hsuffix₄ := ((List.suffix_cons _ _).trans hcomplete.suffix).trans hposition.suffix
    exact hsuffix₂.trans (hsuffix₃.trans hsuffix₄)
  · refine ⟨_, _, _, hlist, fun r hr hown => ?_⟩
    have hknown := known_of_trail hlisted hclean₃ r hr hown
    rwa [hguided₂.isSome, hguided₁.isSome] at hknown

end

/-! ## A run -/

/-- An order that was open at the start has been confirmed: the exchange has reported it, or it is
marked as not found after the grace period; and if the exchange has reported a terminal status for
it, it is terminal. -/
structure Confirmed (cfg : Config) (h : History Label Ans) (s : Ledger) (c : String) : Prop where
  found : (∃ r ∈ reports h, r.clientOrderId = c) ∨
    ∃ x, s.getOrder c = some x ∧ x.MarkedNotFound cfg
  ended : ∀ r ∈ reports h, r.clientOrderId = c → r.status.isTerminal →
    ∃ x, s.getOrder c = some x ∧ x.isTerminal

/-- Whether a run can confirm an open order about which the exchange holds this: one it does not know
must be in doubt, and a terminal status must be one the order may move to. -/
def Order.Confirmable (o : Order) : Option OrderStatus → Prop
  | none => o.submissionAmbiguous ∨ o.status = .submitting
  | some st => st.isTerminal → canTransition o.status st

theorem Truthful.congr {held : String → Option OrderStatus} (h : Truthful ans held s)
    (hs : s'.orders = s.orders) : Truthful ans held s' := by
  constructor
  · exact fun {_ _ _ _} => h.asked
  all_goals simp only [Ledger.getOrder_congr hs]
  · exact fun {_ _ _ _} => h.told
  · exact fun {_ _ _} => h.unknown
  · exact fun {_ _ _ _} => h.listed

theorem Aside.guided {held : String → Option OrderStatus} {doubted : String → Prop}
    (h : Aside s s') : Guided cfg held doubted s s' := .of_orders h.orders

/-- What a HEALTHY run has made of the orders. -/
theorem RunAlone.guided {ack : Bool} {result : ReconResult} {held : String → Option OrderStatus}
    (hrun : RunAlone ans cfg ack h s (.ok result) h' s') (hheld : Truthful ans held s)
    (hhealthy : result.status = .healthy) :
    Guided cfg held (s.Doubted cfg) s s' ∧
      (∀ o ∈ s.nonTerminalOrders cfg.bot cfg.symbol,
        Verified cfg held (s.Doubted cfg) o h' s') ∧
      ∃ h₀ v listed, ans h₀ (.call (.openOrders cfg.symbol)) v (.ok listed) ∧ ∀ r ∈ listed,
        startsWith r.clientOrderId (StreamIngestionService.ownPrefix cfg) →
          (s.getOrder r.clientOrderId).isSome := by
  cases hrun with
  | @intro runKey starting h₁ h₂ h₃ _ s₁ s₂ _ outcome f _ haside hbody haside' hconclude hend =>
    obtain ⟨rfl, hclean, hpending⟩ := of_healthy hhealthy
    have hopen : s₁.nonTerminalOrders cfg.bot cfg.symbol = s.nonTerminalOrders cfg.bot cfg.symbol :=
      by rw [Ledger.nonTerminalOrders, haside.orders, Ledger.nonTerminalOrders]
    have hdoubted : s₁.Doubted cfg = s.Doubted cfg := by
      funext c
      rw [Ledger.Doubted, hopen, Ledger.Doubted]
    obtain ⟨hguided, hverified, h₀, v, listed, hlisted, hknown⟩ :=
      (ends_body hbody).guided (hheld.congr haside.orders) hclean hpending
    rw [hdoubted] at hguided hverified
    have hsuffix : h₂ <:+ h' :=
      hconclude.suffix.trans ((List.suffix_cons _ _).trans hend.suffix)
    refine ⟨haside.guided.trans (hguided.trans haside'.guided), fun o ho => ?_,
      h₀, v, listed, hlisted, fun r hr hown => ?_⟩
    · exact (hverified o (hopen ▸ ho)).later hsuffix haside'.guided
    · rw [← Ledger.getOrder_congr haside.orders]
      exact hknown r hr hown

/-- When a run that nothing interferes with ends HEALTHY, it has confirmed an order that was open at
its start if and only if what the exchange holds about it is something the run can confirm. -/
theorem open_order_confirmed_iff (cfg : Config) (env : Prog.Env Label Ans)
    (held : String → Option OrderStatus) (s : Ledger)
    (hheld : Truthful (fun h q _ a => a = env h q) held s) (reason : String) (operatorAck : Bool) :
    let out := Prog.run env (ReconciliationService.run cfg reason operatorAck).run [] s
    ∀ result, out.1 = .ok result → result.status = .healthy →
      ∀ o ∈ s.nonTerminalOrders cfg.bot cfg.symbol,
        (Confirmed cfg out.2.1 out.2.2 o.clientOrderId ↔
          o.Confirmable (held o.clientOrderId)) := by
  intro out result hresult hhealthy o ho
  have hrun := Proc.ends_run env (ReconciliationService.run cfg reason operatorAck) [] s
  rw [hresult] at hrun
  have hends : Prog.Ends (fun h q _ a => a = env h q) _ [] s _ out.2.1 out.2.2 := hrun
  obtain ⟨hguided, hverified, -⟩ := (ends_run hrun).guided hheld hhealthy
  obtain ⟨hmem, -, -, hopen⟩ := Ledger.mem_nonTerminalOrders.1 ho
  have hget := Ledger.getOrder_of_mem hmem
  obtain ⟨x, hx, hmove⟩ := hguided.get hget
  have hverified := hverified o ho
  -- every report about the order tells what is held
  have hreports {r} (hr : r ∈ reports out.2.1) (hc : r.clientOrderId = o.clientOrderId) :
      held o.clientOrderId = some r.status := by
    have hown : (s.getOrder r.clientOrderId).isSome := hc ▸ Option.isSome_of_eq_some hget
    rw [← hc]
    refine hheld.of_mem_reports (fun q a ha => ?_) hr hown
    rcases hends.answers ha with ha | ha
    · cases ha
    · exact ha
  cases hst : held o.clientOrderId with
  | none =>
    rw [hst] at hmove
    have hnone : ¬ ∃ r ∈ reports out.2.1, r.clientOrderId = o.clientOrderId := by
      rintro ⟨r, hr, hc⟩
      rw [hreports hr hc] at hst
      cases hst
    constructor
    · rintro ⟨hfound | ⟨y, hy, hmark⟩, -⟩
      · exact absurd hfound hnone
      · obtain rfl := Option.some.inj (hx.symm.trans hy)
        cases hmove with
        | same =>
          rw [Order.isTerminal, hmark.1] at hopen
          cases hopen
        | told hst' => cases hst'
        | notFound _ hdoubted => exact (Ledger.doubted_iff ho).1 hdoubted
    · intro hdoubt
      refine ⟨.inr (hverified.unknown hst ((Ledger.doubted_iff ho).2 hdoubt)), fun r hr hc => ?_⟩
      exact absurd ⟨r, hr, hc⟩ hnone
  | some st =>
    obtain ⟨⟨r, hr, hc, rfl⟩, y, hy, hstatus⟩ := hverified.known st hst
    obtain rfl := Option.some.inj (hx.symm.trans hy)
    have hterminal : x.isTerminal ↔ r.status.isTerminal ∧ canTransition o.status r.status := by
      rw [Order.isTerminal, hstatus]
      exact OrderStatus.isTerminal_after hopen
    constructor
    · intro hconfirmed hend
      obtain ⟨y, hy, hyterminal⟩ := hconfirmed.ended r hr hc hend
      obtain rfl := Option.some.inj (hx.symm.trans hy)
      exact (hterminal.1 hyterminal).2
    · intro hcan
      refine ⟨.inl ⟨r, hr, hc⟩, fun r' hr' hc' hend => ⟨x, hx, hterminal.2 ?_⟩⟩
      have heq := Option.some.inj (hst.symm.trans (hreports hr' hc'))
      exact ⟨heq ▸ hend, hcan (heq ▸ hend)⟩

/-- When a run that nothing interferes with ends HEALTHY, an order of the bot that the exchange lists
as open is open in the ledger if and only if the ledger did not have it as terminal at the start. -/
theorem listed_order_open_iff (cfg : Config) (env : Prog.Env Label Ans)
    (held : String → Option OrderStatus) (listed : List ExchangeOrderReport) (s : Ledger)
    (hheld : Truthful (fun h q _ a => a = env h q) held s)
    (hlisted : ∀ h rs, env h (.call (.openOrders cfg.symbol)) = .ok rs → rs = listed)
    (reason : String) (operatorAck : Bool) :
    let out := Prog.run env (ReconciliationService.run cfg reason operatorAck).run [] s
    ∀ result, out.1 = .ok result → result.status = .healthy →
      ∀ r ∈ listed, startsWith r.clientOrderId (StreamIngestionService.ownPrefix cfg) →
        ((∃ x, out.2.2.getOrder r.clientOrderId = some x ∧ x.isTerminal = false) ↔
          ∀ x, s.getOrder r.clientOrderId = some x → x.isTerminal = false) := by
  intro out result hresult hhealthy r hr hown
  have hrun := Proc.ends_run env (ReconciliationService.run cfg reason operatorAck) [] s
  rw [hresult] at hrun
  obtain ⟨hguided, -, h₀, v, rs, hrs, hknown⟩ := (ends_run hrun).guided hheld hhealthy
  obtain rfl := hlisted h₀ rs hrs.symm
  obtain ⟨x, hx⟩ := Option.isSome_iff_exists.1 (hknown r hr hown)
  have hreport : held r.clientOrderId = some r.status :=
    hheld.told (v := v) hrs r hr (Option.isSome_of_eq_some hx)
  have hopen : r.status.isTerminal = false :=
    hheld.listed (v := v) hrs r hr (Option.isSome_of_eq_some hx)
  obtain ⟨x', hx', hmove⟩ := hguided.get hx
  -- an open status ends no order and revives none
  have hsame : x'.isTerminal = x.isTerminal := by
    cases hmove with
    | same => rfl
    | told hst hstatus =>
      obtain rfl := Option.some.inj (hreport.symm.trans hst)
      rw [Order.isTerminal, hstatus]
      exact OrderStatus.isTerminal_after_of_open hopen
    | notFound hnone =>
      rw [hreport] at hnone
      cases hnone
  constructor
  · rintro ⟨y, hy, hyopen⟩ z hz
    obtain rfl := Option.some.inj (hx'.symm.trans hy)
    obtain rfl := Option.some.inj (hx.symm.trans hz)
    exact hsame ▸ hyopen
  · exact fun hlive => ⟨x', hx', hsame.trans (hlive x hx)⟩

/-! ### An entry the exchange does not know, and one it lists -/

/-- An exchange that does not know the entry. -/
def unknownEntry : (r : Req) → Except Exn r.Val
  | .queryOrder _ => .ok none
  | r => listing (.ok []) r

/-- The run ends HEALTHY, although the exchange has not reported the resting entry and the entry has
not been rejected. -/
theorem unknown_entry_unconfirmed :
    let out := Prog.run (exchangeEnv unknownEntry)
      (ReconciliationService.run sampleConfig "periodic" false).run [] restingLedger
    out.1.toOption.map (·.status) = some .healthy ∧
      ∃ o ∈ restingLedger.nonTerminalOrders "default" ⟨"BTC", "USDT"⟩,
        ¬ Confirmed sampleConfig out.2.1 out.2.2 o.clientOrderId := by
  intro out
  refine ⟨by decide +kernel, _, List.mem_singleton_self _, fun hconfirmed => ?_⟩
  have hreports : reports out.2.1 = [] := by decide +kernel
  have hstatus : (out.2.2.getOrder (sampleRow sampleEntry .buy 1 "4711").clientOrderId).map
      (·.status) = some .new := by decide +kernel
  rcases hconfirmed.found with ⟨r, hr, -⟩ | ⟨x, hx, hmark, -⟩
  · rw [hreports] at hr
    cases hr
  · have hnew := hstatus
    rw [show out.2.2.getOrder _ = some x from hx, Option.map_some, hmark] at hnew
    cases hnew

/-- An exchange on which the entry rests. -/
def openEntry : (r : Req) → Except Exn r.Val
  | .queryOrder o =>
    let r := sampleReport sampleEntry .buy .new 0
    .ok (if r.clientOrderId = o.clientOrderId then some r else none)
  | r => listing (.ok [sampleReport sampleEntry .buy .new 0]) r

/-- What that exchange holds. -/
def openEntryHeld (c : String) : Option OrderStatus :=
  if (sampleReport sampleEntry .buy .new 0).clientOrderId = c then some .new else none

theorem openEntry_truthful (s : Ledger) :
    Truthful (fun h q _ a => a = exchangeEnv openEntry h q) openEntryHeld s := by
  constructor
  · intro h v o r hr
    have hr := Except.ok.inj hr
    split at hr
    · next ho =>
      cases hr
      exact ho
    · cases hr
  · intro h v q a ha r hr _
    obtain rfl : a = openEntry q := ha
    cases q with
    | queryOrder o =>
      have hr := Option.mem_toList.1 hr
      split at hr
      · cases hr
        exact if_pos rfl
      · cases hr
    | openOrders symbol =>
      obtain rfl := List.mem_singleton.1 hr
      exact if_pos rfl
    | _ => cases hr
  · intro h v o hr _
    have hr := Except.ok.inj hr
    split at hr
    · cases hr
    · next ho => exact if_neg ho
  · intro h v symbol rs hrs r hr _
    obtain rfl := Except.ok.inj hrs
    obtain rfl := List.mem_singleton.1 hr
    rfl

/-- The resting entry is confirmed. -/
theorem open_entry_confirmed :
    let out := Prog.run (exchangeEnv openEntry)
      (ReconciliationService.run sampleConfig "periodic" false).run [] restingLedger
    Confirmed sampleConfig out.2.1 out.2.2 (sampleRow sampleEntry .buy 1 "4711").clientOrderId := by
  intro out
  have hstatus : out.1.toOption.map (·.status) = some .healthy := by decide +kernel
  cases hresult : out.1 with
  | error e =>
    rw [hresult] at hstatus
    cases hstatus
  | ok result =>
    rw [hresult] at hstatus
    refine (open_order_confirmed_iff sampleConfig (exchangeEnv openEntry) openEntryHeld
      restingLedger (openEntry_truthful _) "periodic" false result hresult
      (Option.some.inj hstatus) _ (List.mem_singleton_self _)).2 ?_
    rw [show openEntryHeld _ = some .new by decide +kernel]
    exact fun hend => by cases hend

/-- The run ends HEALTHY, although the exchange lists the entry as open that is canceled in the
ledger. -/
theorem listed_entry_canceled :
    let out := Prog.run (exchangeEnv openEntry)
      (ReconciliationService.run sampleConfig "periodic" false).run [] canceledLedger
    out.1.toOption.map (·.status) = some .healthy ∧
      startsWith (sampleReport sampleEntry .buy .new 0).clientOrderId
        (StreamIngestionService.ownPrefix sampleConfig) ∧
      (out.2.2.getOrder (sampleReport sampleEntry .buy .new 0).clientOrderId).map (·.status) =
        some .canceled := by
  decide +kernel

/-- The resting entry is listed, and open. -/
theorem listed_entry_open :
    let out := Prog.run (exchangeEnv openEntry)
      (ReconciliationService.run sampleConfig "periodic" false).run [] restingLedger
    ∃ x, out.2.2.getOrder (sampleReport sampleEntry .buy .new 0).clientOrderId = some x ∧
      x.isTerminal = false := by
  intro out
  have hstatus : out.1.toOption.map (·.status) = some .healthy := by decide +kernel
  cases hresult : out.1 with
  | error e =>
    rw [hresult] at hstatus
    cases hstatus
  | ok result =>
    rw [hresult] at hstatus
    refine (listed_order_open_iff sampleConfig (exchangeEnv openEntry) openEntryHeld
      [sampleReport sampleEntry .buy .new 0] restingLedger (openEntry_truthful _)
      (fun h rs hrs => (Except.ok.inj hrs).symm) "periodic" false result hresult
      (Option.some.inj hstatus) _ (List.mem_singleton_self _) (by decide +kernel)).2 ?_
    intro x hx
    have hmem := (Ledger.getOrder_eq_some.1 hx).1
    obtain rfl := List.mem_singleton.1 hmem
    rfl

end CryptoBot
