import CryptoBot.Application.Holdings
import CryptoBot.Infrastructure.OrderLife
import CryptoBot.Lib.Pool

/-!
# Deliveries of one order

The events of an order reach the engine through the user-data stream and through REST answers, late,
twice or in another order, and several workers apply them at the same time. Each transaction makes
the ledger tell at least what its event tells, and none takes anything back; so once every event has
been delivered, the ledger holds what in-order delivery leaves.
-/

namespace CryptoBot

open Lib OrderService

/-- An event of an order on the exchange: its key on the user-data stream, the report, and the
execution it is about. -/
structure OrderEvent where
  eventKey : String
  report : ExchangeOrderReport
  fill : Option ExchangeFill
deriving DecidableEq

/-- The executions among the events. -/
def OrderEvent.trades (es : List OrderEvent) : List ExchangeFill := es.filterMap (·.fill)

/-- The two paths of an event into the ledger: `StreamIngestionService.handle`, or `apply_report`
followed by `ingest_fill`. -/
inductive DeliveryPath
  | stream
  | rest (source : String)

/-- One delivery of an event. -/
def OrderEvent.deliver (cfg : Config) (e : OrderEvent) : DeliveryPath → Engine PUnit
  | .stream => do
    let _ ← StreamIngestionService.handle cfg (.order e.eventKey e.report e.fill)
  | .rest source => do
    let _ ← applyReport cfg e.report source
    match e.fill with
    | some xf => let _ ← ingestFill cfg xf
    | none => pure ⟨⟩

/-- A worker: the deliveries it makes, one after the other. -/
def worker (cfg : Config) (jobs : List (DeliveryPath × OrderEvent)) : Engine PUnit :=
  jobs.forM fun job => job.2.deliver cfg job.1

/-- The workers before their first transaction. -/
def workers {τ : Type} (cfg : Config) (jobs : τ → List (DeliveryPath × OrderEvent)) (s : Ledger) :
    Pool τ Ledger Label Ans (Except Exn PUnit) :=
  ⟨fun i => (worker cfg (jobs i)).run, fun _ => [], [], s⟩

/-- The ledger after the events have been delivered once each and in order, by one path. -/
def inOrder (cfg : Config) (env : Prog.Env Label Ans) (path : DeliveryPath) (es : List OrderEvent)
    (s : Ledger) : Ledger := ((worker cfg (es.map fun e => (path, e))).run.run env [] s).2.2

/-! ## The history of an order -/

/-- A status an order may have on the exchange after another. -/
def OrderStatus.Follows (a b : OrderStatus) : Prop :=
  canTransition a b ∨ b = a ∧ a ≠ .submitting

instance : DecidableRel OrderStatus.Follows := fun _ _ => by
  unfold OrderStatus.Follows; infer_instance

/-- `es` is the history of the order `o` on the exchange, where its id is `x`, and the ledger knows
nothing of it yet. -/
structure OrderHistory (cfg : Config) (s : Ledger) (o : Order) (x : String) (es : List OrderEvent) :
    Prop where
  row : o ∈ s.orders.rows
  exchange : o.exchange = cfg.exchangeName
  submitting : o.status = .submitting
  average : 0 < o.executedQuantity →
    o.averageFillPrice = some (o.cumulativeQuoteQuantity / o.executedQuantity)
  /-- No other order has the exchange's id, and this one has no other. -/
  exchangeId : (truthy o.exchangeOrderId → o.exchangeOrderId = some x) ∧
    ∀ y ∈ s.orders.rows, y.exchange = o.exchange → y.exchangeOrderId = some x → y = o
  /-- The reports are about this order. -/
  reports : ∀ e ∈ es, e.report.clientOrderId = o.clientOrderId ∧
    (truthy e.report.exchangeOrderId → e.report.exchangeOrderId = some x)
  statuses : (OrderStatus.submitting :: es.map (·.report.status)).IsChain OrderStatus.Follows
  /-- The executions name this order, by the client order id or else by the exchange's. -/
  executions : ∀ e ∈ es, ∀ xf ∈ e.fill, xf.clientOrderId.filter (· ≠ "") = some o.clientOrderId ∨
    xf.clientOrderId.filter (· ≠ "") = none ∧ truthy xf.exchangeOrderId ∧
      xf.exchangeOrderId = some x ∧ e.report.exchangeOrderId = some x
  /-- Every trade has its own id, and a fee in the base asset is below its quantity. -/
  trades : (OrderEvent.trades es).Pairwise fun a b =>
    a.eventKey ≠ b.eventKey ∧ a.exchangeTradeId ≠ b.exchangeTradeId
  fees : ∀ xf ∈ OrderEvent.trades es,
    0 ≤ (fillOf o xf 0).baseFee ∧ (fillOf o xf 0).baseFee < xf.quantity
  /-- An event has its own key, and neither it nor its trade has been recorded. -/
  eventKeys : (es.map (·.eventKey)).Nodup
  newEvents : ∀ e ∈ es, e.eventKey ∉ s.processedEvents
  newTrades : ∀ xf ∈ OrderEvent.trades es, ∀ f ∈ s.fills.rows, f.eventKey ≠ xf.eventKey ∧
    ¬ (f.orderId = o.id ∧ f.exchangeTradeId = some xf.exchangeTradeId)
  /-- A BUY, or a SELL of no more than the tracked position. -/
  side : o.side = .buy ∧ 0 ≤ (s.getPosition cfg.bot o.symbol).quantity ∨
    o.side = .sell ∧ ((OrderEvent.trades es).map fun xf => (fillOf o xf 0).delivered).sum ≤
      (s.getPosition cfg.bot o.symbol).quantity

/-- What is compared of an order: the status, the quantities and the average price. -/
def Order.progress (o : Order) : OrderStatus × ℚ × ℚ × Option ℚ :=
  (o.status, o.executedQuantity, o.cumulativeQuoteQuantity, o.averageFillPrice)

/-- A recorded fill without its row id; a fill whose trade came without an execution time has the
time at which it was recorded, which is left out too. -/
def Fill.content (ts : List ExchangeFill) (f : Fill) : Fill :=
  { f with
    id := 0
    executionTime := if ∃ xf ∈ ts, xf.eventKey = f.eventKey ∧ xf.executionTimeMs = 0 then 0
      else f.executionTime }

/-- Two ledgers tell the same about an order with these events: its progress, the recorded fills,
and the position. -/
structure Agree (cfg : Config) (o : Order) (es : List OrderEvent) (s s' : Ledger) : Prop where
  order : (s.getOrder o.clientOrderId).map Order.progress =
    (s'.getOrder o.clientOrderId).map Order.progress
  fills : (s.fills.rows.map (Fill.content (OrderEvent.trades es))).Perm
    (s'.fills.rows.map (Fill.content (OrderEvent.trades es)))
  position : Core.Alike (s.getPosition cfg.bot o.symbol).core (s'.getPosition cfg.bot o.symbol).core

/-! ## Statuses -/

theorem OrderStatus.Follows.trans {a b c : OrderStatus} (ha : a ≠ .intentCreated)
    (h : a.Follows b) (h' : b.Follows c) : a.Follows c := by
  revert ha h h'
  unfold Follows
  cases a <;> cases b <;> cases c <;> decide

theorem OrderStatus.Follows.ne {a b : OrderStatus} (ha : a ≠ .intentCreated) (h : a.Follows b) :
    b ≠ .intentCreated ∧ rank .submitting < rank b := by
  revert ha h
  unfold Follows
  cases a <;> cases b <;> decide

/-- Every status of a history follows every earlier one. -/
theorem pairwise_follows {a : OrderStatus} {l : List OrderStatus} (ha : a ≠ .intentCreated)
    (h : (a :: l).IsChain OrderStatus.Follows) : (a :: l).Pairwise OrderStatus.Follows := by
  induction l generalizing a with
  | nil => exact List.pairwise_singleton _ _
  | cons b l ih =>
    obtain ⟨hab, hl⟩ := List.isChain_cons_cons.1 h
    have hrest := ih (hab.ne ha).1 hl
    refine List.pairwise_cons.2 ⟨fun c hc => ?_, hrest⟩
    rcases List.mem_cons.1 hc with rfl | hc
    · exact hab
    · exact hab.trans ha ((List.pairwise_cons.1 hrest).1 c hc)

/-! ## The order row -/

namespace Order

/-- The order tells at least what the report tells. -/
structure Reflects (y : Order) (r : ExchangeOrderReport) : Prop where
  status : y.status = r.status ∨ rank r.status < rank y.status
  executed : r.executedQty ≤ y.executedQuantity
  quote : r.cumQuoteQty ≤ y.cumulativeQuoteQuantity
  exchangeId : truthy r.exchangeOrderId → y.exchangeOrderId = r.exchangeOrderId

/-- `y` is the order `o` after some of the events `es`. -/
structure Stage (o : Order) (x : String) (es : List OrderEvent) (y : Order) : Prop where
  same : Same o y
  status : y.status = .submitting ∨ ∃ e ∈ es, y.status = e.report.status
  executed_ge : o.executedQuantity ≤ y.executedQuantity
  executed_le : ∀ b, o.executedQuantity ≤ b → (∀ e ∈ es, e.report.executedQty ≤ b) →
    y.executedQuantity ≤ b
  quote_ge : o.cumulativeQuoteQuantity ≤ y.cumulativeQuoteQuantity
  quote_le : ∀ b, o.cumulativeQuoteQuantity ≤ b → (∀ e ∈ es, e.report.cumQuoteQty ≤ b) →
    y.cumulativeQuoteQuantity ≤ b
  average : y.averageFillPrice =
    if 0 < y.executedQuantity then some (y.cumulativeQuoteQuantity / y.executedQuantity)
    else o.averageFillPrice
  exchangeId : y.exchangeOrderId = o.exchangeOrderId ∨ y.exchangeOrderId = some x
  ownId : truthy y.exchangeOrderId → y.exchangeOrderId = some x

/-- A stage of an order that reflects every event is determined by the events. -/
theorem Stage.progress_eq {o y y' : Order} {x : String} {es : List OrderEvent}
    (h : o.Stage x es y) (h' : o.Stage x es y') (hy : ∀ e ∈ es, y.Reflects e.report)
    (hy' : ∀ e ∈ es, y'.Reflects e.report)
    (hes : ∀ e ∈ es, rank .submitting < rank e.report.status) : y.progress = y'.progress := by
  have rank_le {y y' : Order} (h : o.Stage x es y) (hy' : ∀ e ∈ es, y'.Reflects e.report)
      (h' : o.Stage x es y') : y.status = y'.status ∨ rank y.status < rank y'.status := by
    rcases h.status with hs | ⟨e, he, hs⟩
    · rw [hs]
      rcases h'.status with hs' | ⟨e', he', hs'⟩
      · exact .inl hs'.symm
      · exact .inr (hs' ▸ hes e' he')
    · rw [hs]
      exact (hy' e he).status.imp_left Eq.symm
  have hstatus : y.status = y'.status := by
    rcases rank_le h hy' h' with hs | hs
    · exact hs
    · rcases rank_le h' hy h with hs' | hs'
      · exact hs'.symm
      · omega
  have hexecuted : y.executedQuantity = y'.executedQuantity :=
    le_antisymm (h.executed_le _ h'.executed_ge fun e he => (hy' e he).executed)
      (h'.executed_le _ h.executed_ge fun e he => (hy e he).executed)
  have hquote : y.cumulativeQuoteQuantity = y'.cumulativeQuoteQuantity :=
    le_antisymm (h.quote_le _ h'.quote_ge fun e he => (hy' e he).quote)
      (h'.quote_le _ h.quote_ge fun e he => (hy e he).quote)
  simp only [progress, h.average, h'.average, hstatus, hexecuted, hquote]

end Order

/-! ## One report -/

namespace OrderHistory

variable {cfg : Config} {s₀ : Ledger} {o : Order} {x : String} {es : List OrderEvent}

theorem pairwise (h : OrderHistory cfg s₀ o x es) :
    (OrderStatus.submitting :: es.map (·.report.status)).Pairwise OrderStatus.Follows :=
  pairwise_follows (by decide) h.statuses

theorem rank_lt (h : OrderHistory cfg s₀ o x es) :
    ∀ e ∈ es, rank .submitting < rank e.report.status := fun e he =>
  (((List.pairwise_cons.1 h.pairwise).1 _ (List.mem_map_of_mem he)).ne (by decide)).2

/-- The status of the order and a reported one come one after the other. -/
theorem comparable (h : OrderHistory cfg s₀ o x es) {y : Order} (hy : o.Stage x es y)
    {e : OrderEvent} (he : e ∈ es) :
    canTransition y.status e.report.status ∨ canTransition e.report.status y.status ∨
      e.report.status = y.status := by
  let R (a b : OrderStatus) : Prop := canTransition a b ∨ canTransition b a ∨ b = a
  have hpair : (OrderStatus.submitting :: es.map (·.report.status)).Pairwise R := by
    refine h.pairwise.imp fun {a b} hab => ?_
    rcases hab with hab | ⟨rfl, -⟩
    · exact .inl hab
    · exact .inr (.inr rfl)
  have hflip : (OrderStatus.submitting :: es.map (·.report.status)).Pairwise (flip R) := by
    refine hpair.imp fun {a b} hab => ?_
    rcases hab with hab | hab | hab
    · exact .inr (.inl hab)
    · exact .inl hab
    · exact .inr (.inr hab.symm)
  have hmem : y.status ∈ OrderStatus.submitting :: es.map (·.report.status) := by
    rcases hy.status with hs | ⟨e', he', hs⟩
    · exact hs ▸ .head _
    · exact hs ▸ List.mem_cons_of_mem _ (List.mem_map.2 ⟨e', he', rfl⟩)
  exact List.Pairwise.forall_of_forall_of_flip (fun a _ => .inr (.inr rfl)) hpair hflip hmem
    (List.mem_cons_of_mem _ (List.mem_map.2 ⟨e, he, rfl⟩))

/-- No report of the history contradicts the order. -/
theorem not_contradicts (h : OrderHistory cfg s₀ o x es) {y : Order} (hy : o.Stage x es y)
    {e : OrderEvent} (he : e ∈ es) : ¬ y.Contradicts e.report := by
  have hrank := h.rank_lt e he
  rintro (⟨hnotFound, hne⟩ | ⟨hterminal, hne, hle⟩)
  · have hrejected : y.status = .rejected := by
      simp only [Order.rejectedNotFound, Bool.and_eq_true, decide_eq_true_eq] at hnotFound
      exact hnotFound.1
    have hcomp := h.comparable hy he
    rw [hrejected] at hcomp
    revert hne hrank hcomp
    cases e.report.status <;> decide
  · rcases h.comparable hy he with hc | hc | hc
    · rw [not_canTransition_of_isTerminal hterminal] at hc
      cases hc
    · exact absurd (rank_lt_of_canTransition hc) (not_lt.2 hle)
    · exact hne hc

/-- An applied report is reflected, and everything reflected before still is. -/
theorem reflects_applied (h : OrderHistory cfg s₀ o x es) {y y' : Order} (hy : o.Stage x es y)
    {e : OrderEvent} (he : e ∈ es) (ha : Order.Applied y e.report y') :
    y'.Reflects e.report ∧ ∀ r, y.Reflects r → y'.Reflects r := by
  constructor
  · refine ⟨?_, ?_, ?_, fun ht => ?_⟩
    · rw [ha.status, OrderStatus.after]
      split
      · exact .inl rfl
      · next hnot =>
        rcases h.comparable hy he with hc | hc | hc
        · exact absurd hc hnot
        · exact .inr (rank_lt_of_canTransition hc)
        · exact .inl hc.symm
    · exact ha.executed ▸ le_max_right _ _
    · exact ha.quote ▸ le_max_right _ _
    · rw [ha.exchangeOrderId]
      split
      · rfl
      · next hadopt =>
        have hown : truthy y.exchangeOrderId := by
          simpa [Order.adoptsExchangeId, ht] using hadopt
        rw [hy.ownId hown, (h.reports e he).2 ht]
  · refine fun r hr => ⟨?_, ?_, ?_, fun ht => ?_⟩
    · rw [ha.status, OrderStatus.after]
      split
      · next hc =>
        have hlt := rank_lt_of_canTransition hc
        rcases hr.status with hs | hs
        · exact .inr (hs ▸ hlt)
        · exact .inr (hs.trans hlt)
      · exact hr.status
    · exact ha.executed ▸ hr.executed.trans (le_max_left _ _)
    · exact ha.quote ▸ hr.quote.trans (le_max_left _ _)
    · have hown : y.exchangeOrderId = r.exchangeOrderId := hr.exchangeId ht
      rw [ha.exchangeOrderId, if_neg (by simp [Order.adoptsExchangeId, hown, ht]), hown]

/-- A report of the history can be applied to every stage of the order, and gives another one. -/
theorem applyReport (h : OrderHistory cfg s₀ o x es) {y : Order} (hy : o.Stage x es y)
    {e : OrderEvent} (he : e ∈ es) (now : Time) :
    ∃ b y', y.applyReport e.report now = .ok (b, y') ∧ o.Stage x es y' ∧
      y'.version = y.version ∧ y'.Reflects e.report ∧ ∀ r, y.Reflects r → y'.Reflects r := by
  cases hres : y.applyReport e.report now with
  | error m => exact absurd (Order.applyReport_error.1 ⟨m, hres⟩) (h.not_contradicts hy he)
  | ok res =>
    obtain ⟨b, y'⟩ := res
    have ha := (Order.applyReport_ok hres).1
    refine ⟨b, y', rfl, ?_, ha.version, h.reflects_applied hy he ha⟩
    have haverage := Order.applyReport_average hres fun hpos => by rw [hy.average, if_pos hpos]
    refine ⟨hy.same.trans ha.same, ?_, ?_, fun b hb hes => ?_, ?_, fun b hb hes => ?_, ?_, ?_, ?_⟩
    · rcases OrderStatus.after_eq_or y.status e.report.status with hs | hs
      · exact .inr ⟨e, he, ha.status.trans hs⟩
      · rw [ha.status, hs]
        exact hy.status
    · exact ha.executed ▸ hy.executed_ge.trans (le_max_left _ _)
    · exact ha.executed ▸ max_le (hy.executed_le b hb hes) (hes e he)
    · exact ha.quote ▸ hy.quote_ge.trans (le_max_left _ _)
    · exact ha.quote ▸ max_le (hy.quote_le b hb hes) (hes e he)
    · rw [haverage]
      split
      · rfl
      · next hpos =>
        have hnot : ¬ 0 < y.executedQuantity := fun h₀ =>
          hpos (ha.executed ▸ h₀.trans_le (le_max_left _ _))
        rw [hy.average, if_neg hnot]
    · rw [ha.exchangeOrderId]
      split
      · next hadopt =>
        exact .inr ((h.reports e he).2 (Bool.and_eq_true_iff.1 hadopt).1)
      · exact hy.exchangeId
    · rw [ha.exchangeOrderId]
      split
      · next hadopt => exact fun _ => (h.reports e he).2 (Bool.and_eq_true_iff.1 hadopt).1
      · exact hy.ownId

end OrderHistory

/-! ## The ledger while the events are delivered -/

/-- The ledger tells at least what the report tells. -/
def Reflected (o : Order) (r : ExchangeOrderReport) (s : Ledger) : Prop :=
  ∃ y ∈ s.orders.rows, y.id = o.id ∧ y.Reflects r

/-- The trade is recorded. -/
def TradeKnown (xf : ExchangeFill) (s : Ledger) : Prop := ∃ f ∈ s.fills.rows, f.eventKey = xf.eventKey

/-- The ledger tells at least what the event tells. -/
def Delivered (o : Order) (e : OrderEvent) (s : Ledger) : Prop :=
  Reflected o e.report s ∧ ∀ xf ∈ e.fill, TradeKnown xf s

/-- Nothing that was told has been taken back. -/
structure Unlost (o : Order) (s s' : Ledger) : Prop where
  reflected : ∀ r, Reflected o r s → Reflected o r s'
  fills : s.fills.rows ⊆ s'.fills.rows

/-- What trading fills of one side has made of a position. -/
def Core.Traded (c₀ : Core) : OrderSide → List Fill → Core → Prop
  | .buy => Bought c₀
  | .sell => Sold c₀
  | .other _ => fun _ _ => False

/-- The ledger after some deliveries of the events `es` of the order `o`. -/
structure Underway (cfg : Config) (s₀ : Ledger) (o : Order) (x : String) (es : List OrderEvent)
    (s : Ledger) : Prop where
  row : ∃ y ∈ s.orders.rows, o.Stage x es y
  others : ∀ y ∈ s.orders.rows, y.id ≠ o.id → y ∈ s₀.orders.rows
  fills : ∃ ts fs, ts.Nodup ∧ ts ⊆ OrderEvent.trades es ∧ s.fills.rows = s₀.fills.rows ++ fs ∧
    (fs.map (Fill.content (OrderEvent.trades es))).Perm (ts.map (fillOf o · 0)) ∧
    (s₀.getPosition cfg.bot o.symbol).core.Traded o.side (ts.map (fillOf o · 0))
      (s.getPosition cfg.bot o.symbol).core

theorem Unlost.rfl {o : Order} {s : Ledger} : Unlost o s s := ⟨fun _ h => h, fun _ h => h⟩

theorem Unlost.trans {o : Order} {s s' s'' : Ledger} (h : Unlost o s s') (h' : Unlost o s' s'') :
    Unlost o s s'' :=
  ⟨fun r hr => h'.reflected r (h.reflected r hr), List.Subset.trans h.fills h'.fills⟩

theorem Unlost.delivered {o : Order} {e : OrderEvent} {s s' : Ledger} (h : Unlost o s s')
    (he : Delivered o e s) : Delivered o e s' := by
  refine ⟨h.reflected _ he.1, fun xf hxf => ?_⟩
  obtain ⟨f, hf, hkey⟩ := he.2 xf hxf
  exact ⟨f, h.fills hf, hkey⟩

section
variable {cfg : Config} {s₀ s s' : Ledger} {o : Order} {x : String} {es : List OrderEvent}

/-- What touches neither orders, fills nor positions. -/
theorem Underway.congr (hs : Underway cfg s₀ o x es s) (ho : s'.orders = s.orders)
    (hf : s'.fills = s.fills) (hp : s'.positions = s.positions) :
    Underway cfg s₀ o x es s' ∧ Unlost o s s' := by
  refine ⟨⟨by rw [ho]; exact hs.row, by rw [ho]; exact hs.others, ?_⟩, fun r hr => ?_, ?_⟩
  · rw [hf, Ledger.getPosition_congr hp]
    exact hs.fills
  · rw [Reflected, ho]
    exact hr
  · rw [hf]
    exact fun _ h => h

end

/-! ## The report's transaction -/

namespace OrderHistory

variable {cfg : Config} {s₀ s s' : Ledger} {o : Order} {x : String} {es : List OrderEvent}
  {e : OrderEvent} {y : Order}

/-- A stage of the order is found under its client order id. -/
theorem getOrder (h : OrderHistory cfg s₀ o x es) (hy : o.Stage x es y)
    (hmem : y ∈ s.orders.rows) (he : e ∈ es) :
    findOrder cfg s (some e.report.clientOrderId) e.report.exchangeOrderId = some y := by
  refine findOrder_of_clientOrderId ?_
  rw [(h.reports e he).1, ← hy.same.clientOrderId]
  exact Ledger.getOrder_of_mem hmem

/-- No other order has the exchange id of a stage. -/
theorem exchangeId_unique (h : OrderHistory cfg s₀ o x es) (hs : Underway cfg s₀ o x es s)
    (hy : o.Stage x es y) {z : Order} (hz : z ∈ s.orders.rows) (hid : z.id ≠ o.id)
    (hsome : y.exchangeOrderId.isSome) :
    ¬ (z.exchange = o.exchange ∧ z.exchangeOrderId = y.exchangeOrderId) := by
  rintro ⟨hexchange, heq⟩
  have hz₀ := hs.others z hz hid
  rcases hy.exchangeId with hown | hown
  · refine hid (congrArg Order.id ?_)
    exact Ledger.eq_of_exchangeOrderId hz₀ h.row hexchange (heq ▸ hsome) (heq.trans hown)
  · exact hid (congrArg Order.id (h.exchangeId.2 z hz₀ hexchange (heq.trans hown)))

/-- Replacing a stage by a later one. -/
theorem replaced (hs : Underway cfg s₀ o x es s) {y y' : Order} (hid : y.id = o.id)
    (hy' : o.Stage x es y') (hreflects : ∀ r, y.Reflects r → y'.Reflects r)
    (hr : s.Replaced s' y y') : Underway cfg s₀ o x es s' ∧ Unlost o s s' := by
  refine ⟨⟨⟨y', hr.mem_new, hy'⟩, fun z hz hne => ?_, ?_⟩, fun r hr' => ?_, ?_⟩
  · rcases hr.mem_iff.1 hz with rfl | ⟨hz, -⟩
    · exact absurd (hr.same.id.trans hid) hne
    · exact hs.others z hz hne
  · rw [hr.fills, Ledger.getPosition_congr hr.positions]
    exact hs.fills
  · obtain ⟨z, hz, hzid, hzr⟩ := hr'
    obtain rfl := Ledger.eq_of_id hz hr.mem (hzid.trans hid.symm)
    exact ⟨y', hr.mem_new, hr.same.id.trans hzid, hreflects r hzr⟩
  · rw [hr.fills]
    exact fun _ h => h

/-- The transaction of a report of the history succeeds, and leaves the ledger telling it. -/
theorem applyReportTx_ok (h : OrderHistory cfg s₀ o x es) (hs : Underway cfg s₀ o x es s)
    (he : e ∈ es) (now : Time) :
    ∃ y s', applyReportTx cfg e.report now s = .ok (.applied y, s') ∧
      s'.processedEvents = s.processedEvents ∧ Underway cfg s₀ o x es s' ∧ Unlost o s s' ∧
      Reflected o e.report s' := by
  obtain ⟨y, hmem, hy⟩ := hs.row
  obtain ⟨b, y', happly, hy', hversion, hreflects, hkeep⟩ := h.applyReport hy he now
  have hfind := h.getOrder hy hmem he
  have hid : y.id = o.id := hy.same.id
  cases b with
  | false =>
    obtain rfl := (Order.applyReport_ok happly).2 rfl
    refine ⟨y', s, ?_, rfl, hs, .rfl, y', hmem, hid, hreflects⟩
    simp only [applyReportTx, hfind, happly, Bool.false_eq_true, if_false]
  | true =>
    have hsame := (Order.applyReport_ok happly).1.same
    obtain ⟨orders, hsave⟩ := Store.saveOrder_isOk hmem hsame hversion fun z hz hne hsome => by
      rw [hy.same.exchange]
      exact h.exchangeId_unique hs hy' hz (hid ▸ hne) hsome
    obtain ⟨-, hr⟩ := Store.saveOrder_ok hmem hsame hsave
    obtain ⟨outbox, henqueue⟩ := Store.enqueueOrder_eq_ok { y' with version := y'.version + 1 } now
      { s with orders }
    have hr' : s.Replaced { s with orders, outbox } y { y' with version := y'.version + 1 } :=
      hr.of_books rfl
    have hy'' : o.Stage x es { y' with version := y'.version + 1 } :=
      { hy' with same := hy'.same.trans (by constructor <;> rfl) }
    obtain ⟨hunder, hext⟩ := replaced hs hid hy'' (fun r hr => { hkeep r hr with }) hr'
    refine ⟨{ y' with version := y'.version + 1 }, { s with orders, outbox }, ?_, rfl, hunder, hext,
      _, hr'.mem_new, hr'.same.id.trans hid, { hreflects with }⟩
    simp only [applyReportTx, hfind, happly, if_true]
    rw [Tx.bind_eq hsave, Tx.bind_eq henqueue]
    rfl

end OrderHistory

/-! ## The execution's transaction -/

namespace OrderHistory

variable {cfg : Config} {s₀ s s' : Ledger} {o : Order} {x : String} {es : List OrderEvent}
  {e : OrderEvent} {y : Order} {xf xf' : ExchangeFill}

theorem mem_trades (he : e ∈ es) (hxf : xf ∈ e.fill) : xf ∈ OrderEvent.trades es :=
  List.mem_filterMap.2 ⟨e, he, hxf⟩

/-- Two trades of the history with one event key, or one trade id, are the same. -/
theorem trade_eq (h : OrderHistory cfg s₀ o x es) (hxf : xf ∈ OrderEvent.trades es)
    (hxf' : xf' ∈ OrderEvent.trades es)
    (heq : xf.eventKey = xf'.eventKey ∨ xf.exchangeTradeId = xf'.exchangeTradeId) : xf = xf' := by
  let R (a b : ExchangeFill) : Prop :=
    a.eventKey = b.eventKey ∨ a.exchangeTradeId = b.exchangeTradeId → a = b
  have hpair : (OrderEvent.trades es).Pairwise R := h.trades.imp fun {a b} hab heq =>
    absurd heq (not_or.2 hab)
  have hflip : (OrderEvent.trades es).Pairwise (flip R) := h.trades.imp fun {a b} hab heq =>
    absurd (heq.imp Eq.symm Eq.symm) (not_or.2 hab)
  exact List.Pairwise.forall_of_forall_of_flip (R := R) (fun _ _ _ => rfl) hpair hflip hxf hxf' heq

theorem trades_nodup (h : OrderHistory cfg s₀ o x es) : (OrderEvent.trades es).Nodup :=
  h.trades.imp fun hab heq => hab.1 (congrArg ExchangeFill.eventKey heq)

/-- The content of the row that records a trade of the history. -/
theorem content_fillOf (h : OrderHistory cfg s₀ o x es) (hsame : Order.Same o y)
    (hxf : xf ∈ OrderEvent.trades es) (now : Time) (id : Nat) :
    Fill.content (OrderEvent.trades es) { fillOf y xf now with id } = fillOf o xf 0 := by
  have htime : (if ∃ xf' ∈ OrderEvent.trades es, xf'.eventKey = xf.eventKey ∧
      xf'.executionTimeMs = 0 then 0
      else if xf.executionTimeMs ≠ 0 then xf.executionTimeMs * 1000 else now) =
      if xf.executionTimeMs ≠ 0 then xf.executionTimeMs * 1000 else 0 := by
    by_cases hms : xf.executionTimeMs = 0
    · rw [if_pos ⟨xf, hxf, rfl, hms⟩, if_neg (not_not.2 hms)]
    · rw [if_neg, if_pos hms, if_pos hms]
      rintro ⟨xf', hxf', hkey, hms'⟩
      rw [h.trade_eq hxf' hxf (.inl hkey)] at hms'
      exact hms hms'
  simp only [Fill.content, fillOf, hsame.id, hsame.clientOrderId, hsame.symbol, hsame.side]
  exact congrArg (fun t => ({ fillOf o xf 0 with executionTime := t } : Fill)) htime

/-- An execution of the history is found to belong to the order, once its report is reflected. -/
theorem findOrder_execution (h : OrderHistory cfg s₀ o x es) (hs : Underway cfg s₀ o x es s)
    (he : e ∈ es) (hxf : xf ∈ e.fill) (hreflected : Reflected o e.report s) :
    ∃ y ∈ s.orders.rows, o.Stage x es y ∧
      findOrder cfg s (xf.clientOrderId.filter (· ≠ "")) xf.exchangeOrderId = some y := by
  obtain ⟨y, hmem, hy⟩ := hs.row
  refine ⟨y, hmem, hy, ?_⟩
  rcases h.executions e he xf hxf with hc | ⟨hc, ht, hx, hreport⟩
  · rw [hc]
    refine findOrder_of_clientOrderId ?_
    rw [← hy.same.clientOrderId]
    exact Ledger.getOrder_of_mem hmem
  · obtain ⟨z, hz, hzid, hzr⟩ := hreflected
    obtain rfl := Ledger.eq_of_id hz hmem (hzid.trans hy.same.id.symm)
    have hown : z.exchangeOrderId = some x := (hzr.exchangeId (hreport ▸ hx ▸ ht)).trans hreport
    have hexchange : z.exchange = cfg.exchangeName := hy.same.exchange.trans h.exchange
    have hfound : s.getOrderByExchangeId cfg.exchangeName x = some z :=
      Ledger.getOrderByExchangeId_of_mem hz hexchange hown
    have ht' : truthy (some x) := hx ▸ ht
    rw [findOrder, hc, hx]
    simp only [Option.bind_none, ht', if_true, Option.bind_some]
    exact hfound

/-- A row of the order that has the event key or the trade id of a trade records that trade. -/
theorem known_of_clash (h : OrderHistory cfg s₀ o x es) (hs : Underway cfg s₀ o x es s)
    (hxf : xf ∈ OrderEvent.trades es) {g : Fill} (hg : g ∈ s.fills.rows)
    (hclash : g.eventKey = xf.eventKey ∨
      g.orderId = o.id ∧ g.exchangeTradeId = some xf.exchangeTradeId) : TradeKnown xf s := by
  refine ⟨g, hg, ?_⟩
  rcases hclash with hkey | ⟨hid, htrade⟩
  · exact hkey
  · obtain ⟨ts, fs, -, hsub, hrows, hperm, -⟩ := hs.fills
    rw [hrows] at hg
    rcases List.mem_append.1 hg with hg | hg
    · exact absurd ⟨hid, htrade⟩ (h.newTrades xf hxf g hg).2
    · have hcontent := hperm.mem_iff.1 (List.mem_map_of_mem (f := Fill.content _) hg)
      obtain ⟨xf', hxf', heq⟩ := List.mem_map.1 hcontent
      have htrade' : some xf'.exchangeTradeId = g.exchangeTradeId :=
        (congrArg Fill.exchangeTradeId heq :)
      have hkey : xf'.eventKey = g.eventKey := (congrArg Fill.eventKey heq :)
      rw [htrade, Option.some.injEq] at htrade'
      rw [← hkey, h.trade_eq (hsub hxf') hxf (.inr htrade')]

/-- What the trade makes of the position, when it has not been recorded. -/
theorem traded (h : OrderHistory cfg s₀ o x es) {ts : List ExchangeFill}
    (hnodup : (xf :: ts).Nodup) (hsub : xf :: ts ⊆ OrderEvent.trades es) {c₀ c : Core}
    (hc₀ : c₀ = (s₀.getPosition cfg.bot o.symbol).core)
    (hc : c₀.Traded o.side (ts.map (fillOf o · 0)) c) {f : Fill} (hside : f.side = o.side)
    (hreceived : f.received = (fillOf o xf 0).received)
    (hcost : f.cost = (fillOf o xf 0).cost)
    (hdelivered : f.delivered = (fillOf o xf 0).delivered)
    (hproceeds : f.proceeds = (fillOf o xf 0).proceeds) :
    c₀.Traded o.side ((xf :: ts).map (fillOf o · 0)) (c.apply f) := by
  have hfee {xf' : ExchangeFill} (hxf' : xf' ∈ xf :: ts) :
      0 < (fillOf o xf' 0).received ∧ 0 < (fillOf o xf' 0).delivered := by
    obtain ⟨hfee, hlt⟩ := h.fees xf' (hsub hxf')
    constructor
    · exact sub_pos.2 hlt
    · exact add_pos_of_pos_of_nonneg (hfee.trans_lt hlt) hfee
  rcases h.side with ⟨hbuy, hpos⟩ | ⟨hsell, hle⟩
  · rw [hbuy] at hc hside ⊢
    have hb := Core.Bought.apply (f := f) hc (hc₀ ▸ hpos) (fun g hg => ?_) hside
      (hreceived ▸ (hfee (.head _)).1)
    · exact ⟨by rw [hb.quantity]; simp [hreceived], by rw [hb.cost]; simp [hcost], nofun,
        hb.realizedPnl⟩
    · obtain ⟨xf', hxf', rfl⟩ := List.mem_map.1 hg
      exact (hfee (.tail _ hxf')).1
  · rw [hsell] at hc hside ⊢
    have hall : (((xf :: ts).map (fillOf o · 0)).map Fill.delivered).sum ≤ c₀.quantity := by
      obtain ⟨l, hl, hlsub⟩ := List.subperm_of_subset hnodup hsub
      have hsum := (hl.map fun xf => (fillOf o xf 0).delivered).sum_eq
      have hmono := List.Sublist.sum_le_sum
        (hlsub.map fun xf => (fillOf o xf 0).delivered) fun a ha => ?_
      · rw [List.map_map]
        exact (hsum.symm.le.trans hmono).trans (hc₀ ▸ hle)
      · obtain ⟨xf', hxf', rfl⟩ := List.mem_map.1 ha
        obtain ⟨hfee, hlt⟩ := h.fees xf' hxf'
        exact (add_pos_of_pos_of_nonneg (hfee.trans_lt hlt) hfee).le
    have hb := Core.Sold.apply (f := f) hc hside (hdelivered ▸ (hfee (.head _)).2) (by
      rw [List.map_cons, List.sum_cons, hdelivered]
      simpa using hall)
    exact ⟨by rw [hb.quantity]; simp [hdelivered], by rw [hb.average]; simp,
      by rw [hb.realizedPnl]; simp [hdelivered, hproceeds]⟩

end OrderHistory

/-! ### What leaves the processed events alone -/

section
variable {α β : Type}

/-- The transaction marks no event as processed. -/
def Tx.KeepsEvents (t : Tx α) : Prop :=
  ∀ s a s', t s = .ok (a, s') → s'.processedEvents = s.processedEvents

theorem Tx.keepsEvents_pure (a : α) : Tx.KeepsEvents (pure a : Tx α) := fun _ _ _ h => by
  cases h
  rfl

theorem Tx.KeepsEvents.bind {t : Tx α} {f : α → Tx β} (ht : t.KeepsEvents)
    (hf : ∀ a, (f a).KeepsEvents) : (t >>= f).KeepsEvents := fun s b s' h => by
  obtain ⟨a, s₁, h₁, h₂⟩ := Tx.bind_ok.1 h
  exact (hf a s₁ b s' h₂).trans (ht s a s₁ h₁)

theorem Store.enqueue_keepsEvents (kind : OutboxKind) (key : OutboxKey) (message : OutboxMessage)
    (now : Time) : Tx.KeepsEvents (enqueue kind key message now) := fun s _ s' h => by
  obtain ⟨outbox, hok⟩ := Store.enqueue_eq_ok kind key message now s
  rw [hok] at h
  cases h
  rfl

theorem ingestFillTx_keepsEvents (cfg : Config) (xf : ExchangeFill) (now : Time) :
    Tx.KeepsEvents (ingestFillTx cfg xf now) := by
  intro s a s' h
  have henqueue {kind key message} : Tx.KeepsEvents (Store.enqueue kind key message now) :=
    Store.enqueue_keepsEvents kind key message now
  unfold ingestFillTx at h
  split at h
  · cases h
    rfl
  · refine Tx.KeepsEvents.bind (fun s a s' h => ?_) (fun r => ?_) s a s' h
    · unfold Store.insertFill at h
      dsimp only at h
      split at h <;> (cases h; rfl)
    · cases r with
      | none => exact Tx.keepsEvents_pure _
      | some fill =>
        refine Tx.KeepsEvents.bind (fun s a s' h => by cases h; rfl) fun result =>
          henqueue.bind fun _ => henqueue.bind fun _ => ?_
        dsimp only
        split
        · exact Tx.KeepsEvents.bind (henqueue.bind fun _ => henqueue) fun _ => Tx.keepsEvents_pure _
        · exact Tx.keepsEvents_pure _

end

namespace OrderHistory

variable {cfg : Config} {s₀ s s' : Ledger} {o : Order} {x : String} {es : List OrderEvent}
  {e : OrderEvent} {y : Order} {xf : ExchangeFill}

/-- A trade that is recorded now. -/
theorem filled (h : OrderHistory cfg s₀ o x es) (hs : Underway cfg s₀ o x es s)
    (hy : o.Stage x es y) (hxf : xf ∈ OrderEvent.trades es) {f : Fill} {now : Time} {id : Nat}
    (hrow : f = { fillOf y xf now with id }) (hf : Filled cfg s s' y xf f) :
    Underway cfg s₀ o x es s' ∧ Unlost o s s' := by
  have horders : s'.orders = s.orders := (congrArg Ledger.orders hf.rest :)
  refine ⟨⟨by rw [horders]; exact hs.row, by rw [horders]; exact hs.others, ?_⟩, fun r hr => ?_, ?_⟩
  · obtain ⟨ts, fs, hnodup, hsub, hrows, hperm, htraded⟩ := hs.fills
    have hnew : xf ∉ ts := by
      intro hmem
      have hcontent := hperm.mem_iff.2 (List.mem_map_of_mem (f := (fillOf o · 0)) hmem)
      obtain ⟨g, hg, heq⟩ := List.mem_map.1 hcontent
      have hkey : g.eventKey = xf.eventKey := (congrArg Fill.eventKey heq :)
      refine (hf.fresh g (hrows ▸ List.mem_append_right _ hg)).2.1 ?_
      rw [hkey, hrow]
      rfl
    refine ⟨xf :: ts, fs ++ [f], List.nodup_cons.2 ⟨hnew, hnodup⟩,
      List.cons_subset.2 ⟨hxf, hsub⟩, ?_, ?_, ?_⟩
    · rw [hf.rows, hrows, List.append_assoc]
    · rw [List.map_append, List.map_cons, List.map_nil, List.map_cons, hrow,
        h.content_fillOf hy.same hxf]
      exact (List.perm_append_singleton _ _).trans (hperm.cons _)
    · obtain ⟨t, hpositions⟩ := hf.positions
      have hsymbol : f.symbol = o.symbol := by
        rw [hrow]
        exact hy.same.symbol
      obtain ⟨hkb, hks⟩ := applyFillToPosition_key (s.getPosition cfg.bot f.symbol) f
      obtain ⟨hgb, hgs⟩ := Ledger.getPosition_key s cfg.bot f.symbol
      rw [Ledger.getPosition_upsert_self hpositions (hkb.trans hgb)
        ((hks.trans hgs).trans hsymbol)]
      have hcore : ({ (applyFillToPosition (s.getPosition cfg.bot f.symbol) f).position with
          updatedAt := some t } : Position).core =
            (s.getPosition cfg.bot o.symbol).core.apply f := by
        rw [← hsymbol, ← core_applyFill]
        rfl
      rw [hcore]
      have hfill : fillOf y xf now = fillOf o xf now := by
        simp only [fillOf, hy.same.id, hy.same.clientOrderId, hy.same.symbol, hy.same.side]
      rw [hfill] at hrow
      exact h.traded (List.nodup_cons.2 ⟨hnew, hnodup⟩) (List.cons_subset.2 ⟨hxf, hsub⟩) rfl
        htraded (by rw [hrow]; rfl) (by rw [hrow]; rfl) (by rw [hrow]; rfl) (by rw [hrow]; rfl)
        (by rw [hrow]; rfl)
  · rw [Reflected, horders]
    exact hr
  · rw [hf.rows]
    exact List.subset_append_left _ _

/-- The transaction of an execution of the history, after its report, leaves the ledger with the
trade recorded. -/
theorem ingestFillTx_ok (h : OrderHistory cfg s₀ o x es) (hs : Underway cfg s₀ o x es s)
    (he : e ∈ es) (hxf : xf ∈ e.fill) (hreflected : Reflected o e.report s) (now : Time) :
    ∃ b s', ingestFillTx cfg xf now s = .ok (b, s') ∧ s'.processedEvents = s.processedEvents ∧
      Underway cfg s₀ o x es s' ∧ Unlost o s s' ∧ TradeKnown xf s' := by
  obtain ⟨b, s', htx⟩ := @ingestFillTx_total cfg xf now s
  refine ⟨b, s', htx, ingestFillTx_keepsEvents cfg xf now s b s' htx, ?_⟩
  have hmem := mem_trades he hxf
  obtain ⟨y, -, hy, hfind⟩ := h.findOrder_execution hs he hxf hreflected
  rcases ingestFillTx_cases htx with ⟨hnone, -⟩ | ⟨z, hz, hcases⟩
  · rw [hfind] at hnone
    cases hnone
  · rw [hfind, Option.some.injEq] at hz
    subst hz
    rcases hcases with ⟨rfl, hclash⟩ | ⟨f, hrow, hf⟩
    · refine ⟨hs, .rfl, ?_⟩
      obtain ⟨g, hg, hnot⟩ := not_forall₂.1 hclash
      refine h.known_of_clash hs hmem hg ?_
      by_contra hno
      obtain ⟨hkey, htrade⟩ := not_or.1 hno
      refine hnot ⟨Store.lt_nextId (List.mem_map_of_mem hg), hkey, fun hc => htrade ?_⟩
      exact ⟨hc.1.trans hy.same.id, hc.2.2⟩
    · obtain ⟨hunder, hext⟩ := h.filled hs hy hmem hrow hf
      refine ⟨hunder, hext, f, hf.rows ▸ List.mem_append_right _ (.head _), ?_⟩
      rw [hrow]
      rfl

end OrderHistory

/-! ## The event's transaction -/

/-- The ledger after some deliveries, whose processed events have all been delivered. -/
structure Consistent (cfg : Config) (s₀ : Ledger) (o : Order) (x : String) (es : List OrderEvent)
    (s : Ledger) : Prop where
  underway : Underway cfg s₀ o x es s
  processed : ∀ k ∈ s.processedEvents, k ∈ s₀.processedEvents ∨
    ∃ e ∈ es, e.eventKey = k ∧ Delivered o e s

section
variable {cfg : Config} {s₀ s s' : Ledger} {o : Order} {x : String} {es : List OrderEvent}
  {e : OrderEvent}

/-- A transaction that marks no event. -/
theorem Consistent.step (hs : Consistent cfg s₀ o x es s) (hs' : Underway cfg s₀ o x es s')
    (hlost : Unlost o s s') (hevents : s'.processedEvents = s.processedEvents) :
    Consistent cfg s₀ o x es s' := by
  refine ⟨hs', fun k hk => ?_⟩
  rw [hevents] at hk
  exact (hs.processed k hk).imp_right fun ⟨e, he, hkey, hd⟩ => ⟨e, he, hkey, hlost.delivered hd⟩

namespace OrderHistory

theorem consistent (h : OrderHistory cfg s₀ o x es) : Consistent cfg s₀ o x es s₀ := by
  refine ⟨⟨⟨o, h.row, ?_⟩, fun y hy _ => hy, [], [], .nil, List.nil_subset _,
    (List.append_nil _).symm, .refl _, ?_⟩, fun k hk => .inl hk⟩
  · refine ⟨.rfl, .inl h.submitting, le_rfl, fun b hb _ => hb, le_rfl, fun b hb _ => hb, ?_, .inl rfl,
      h.exchangeId.1⟩
    split
    · next hpos => exact h.average hpos
    · rfl
  · rcases h.side with ⟨hside, -⟩ | ⟨hside, -⟩
    · rw [hside]
      exact Core.bought_nil _
    · rw [hside]
      exact Core.sold_nil _

/-- An event that is marked as processed has been delivered. -/
theorem delivered_of_processed (h : OrderHistory cfg s₀ o x es) (hs : Consistent cfg s₀ o x es s)
    (he : e ∈ es) (hkey : e.eventKey ∈ s.processedEvents) : Delivered o e s := by
  rcases hs.processed _ hkey with hold | ⟨e', he', hkey', hd⟩
  · exact absurd hold (h.newEvents e he)
  · rwa [← List.inj_on_of_nodup_map h.eventKeys he' he hkey']

/-- The transaction of an event of the history succeeds, and leaves the event delivered. -/
theorem handleTx_ok (h : OrderHistory cfg s₀ o x es) (hs : Consistent cfg s₀ o x es s) (he : e ∈ es)
    (now : Time) :
    ∃ out s', StreamIngestionService.handleTx cfg e.eventKey e.report e.fill now s = .ok (out, s') ∧
      Consistent cfg s₀ o x es s' ∧ Unlost o s s' ∧ Delivered o e s' := by
  unfold StreamIngestionService.handleTx
  by_cases hkey : e.eventKey ∈ s.processedEvents
  · have hmark : Store.markEventProcessed e.eventKey s = .ok (false, s) := by
      rw [Store.markEventProcessed, if_pos hkey]
    refine ⟨.duplicate, s, ?_, hs, .rfl, h.delivered_of_processed hs he hkey⟩
    rw [Tx.bind_eq hmark]
    rfl
  · let s₁ : Ledger := { s with processedEvents := s.processedEvents ++ [e.eventKey] }
    have hmark : Store.markEventProcessed e.eventKey s = .ok (true, s₁) := by
      rw [Store.markEventProcessed, if_neg hkey]
    have horders : s₁.orders = s.orders := rfl
    obtain ⟨hs₁, hlost₁⟩ := hs.underway.congr horders rfl rfl
    obtain ⟨y, s₂, happly, hevents₂, hs₂, hlost₂, hreflected⟩ := h.applyReportTx_ok hs₁ he now
    have hprocessed {s' : Ledger} (hlost : Unlost o s s') (hd : Delivered o e s')
        (hevents : s'.processedEvents = s.processedEvents ++ [e.eventKey]) :
        ∀ k ∈ s'.processedEvents, k ∈ s₀.processedEvents ∨
          ∃ e ∈ es, e.eventKey = k ∧ Delivered o e s' := by
      intro k hk
      rw [hevents] at hk
      rcases List.mem_append.1 hk with hk | hk
      · exact (hs.processed k hk).imp_right fun ⟨e, he, hkey, hd⟩ =>
          ⟨e, he, hkey, hlost.delivered hd⟩
      · exact .inr ⟨e, he, (List.mem_singleton.1 hk).symm, hd⟩
    rw [Tx.bind_eq hmark, if_pos rfl, Tx.bind_eq happly]
    dsimp only
    cases hfill : e.fill with
    | none =>
      have hd : Delivered o e s₂ := ⟨hreflected, fun xf hxf => by rw [hfill] at hxf; cases hxf⟩
      have hlost := hlost₁.trans hlost₂
      exact ⟨.applied, s₂, rfl, ⟨hs₂, hprocessed hlost hd hevents₂⟩, hlost, hd⟩
    | some xf =>
      have hxf : xf ∈ e.fill := hfill
      obtain ⟨b, s₃, hingest, hevents₃, hs₃, hlost₃, hknown⟩ :=
        h.ingestFillTx_ok hs₂ he hxf hreflected now
      have hd : Delivered o e s₃ := by
        refine ⟨hlost₃.reflected _ hreflected, fun xf' hxf' => ?_⟩
        rw [hfill] at hxf'
        cases hxf'
        exact hknown
      have hlost := hlost₁.trans (hlost₂.trans hlost₃)
      refine ⟨.applied, s₃, ?_, ⟨hs₃, hprocessed hlost hd (hevents₃.trans hevents₂)⟩, hlost, hd⟩
      dsimp only
      rw [Tx.bind_eq hingest]
      rfl

end OrderHistory

/-! ## The workers -/

/-- What the workers rely on and keep: a consistent ledger, from which nothing is lost. -/
def deliveryContract (cfg : Config) (s₀ : Ledger) (o : Order) (x : String) (es : List OrderEvent) :
    Contract Ledger Label Ans where
  rely _ s s' := Consistent cfg s₀ o x es s' ∧ Unlost o s s'
  ans _ _ _ _ := True
  step _ _ s s' := Consistent cfg s₀ o x es s' ∧ Unlost o s s'
  guard _ _ _ := True

/-- The worker has returned, with every event of its jobs delivered. -/
def Returned (o : Order) (jobs : List (DeliveryPath × OrderEvent)) (r : Except Exn PUnit)
    (_ : History Label Ans) (s : Ledger) : Prop :=
  r = .ok ⟨⟩ ∧ ∀ job ∈ jobs, Delivered o job.2 s

theorem deliveryContract_stable :
    (deliveryContract cfg s₀ o x es).Stable (Consistent cfg s₀ o x es) where
  refl _ _ hs := ⟨hs, .rfl⟩
  trans h h' := ⟨h'.1, h.2.trans h'.2⟩

namespace OrderHistory

/-- Every delivery of an event of the history returns, with the event delivered. -/
theorem wp_deliver (h : OrderHistory cfg s₀ o x es) (he : e ∈ es) (path : DeliveryPath)
    (hist : History Label Ans) :
    Proc.wp (deliveryContract cfg s₀ o x es) (e.deliver cfg path)
      (fun r _ s => r = .ok ⟨⟩ ∧ Delivered o e s) hist s := by
  cases path with
  | stream =>
    refine (Proc.wp_bind _ _ _ _ _).2 ?_
    unfold StreamIngestionService.handle
    refine (Proc.wp_bind _ _ _ _ _).2 ((wp_query _ _).2 fun s₁ hs₁ => ⟨⟨hs₁.1, .rfl⟩, ?_⟩)
    obtain ⟨y, hmem, hy⟩ := hs₁.1.underway.row
    rw [h.getOrder hy hmem he]
    refine (Proc.wp_bind _ _ _ _ _).2 ((wp_clockNow _).2 fun s₂ hs₂ => ⟨trivial, fun now _ => ?_⟩)
    refine (Proc.wp_bind _ _ _ _ _).2 ((Proc.wp_attempt _ _ _ _).2 (wp_transaction_ok
      fun s₃ hs₃ => ?_))
    obtain ⟨out, s₄, htx, hs₄, hlost, hd⟩ := h.handleTx_ok hs₃.1 he now
    exact ⟨out, s₄, htx, ⟨hs₄, hlost⟩, rfl, hd⟩
  | rest source =>
    refine (Proc.wp_bind _ _ _ _ _).2 ?_
    unfold OrderService.applyReport
    refine (Proc.wp_bind _ _ _ _ _).2 ((wp_clockNow _).2 fun s₁ hs₁ => ⟨trivial, fun now _ => ?_⟩)
    refine (Proc.wp_bind _ _ _ _ _).2 (wp_transaction_ok fun s₂ hs₂ => ?_)
    obtain ⟨y, s₃, htx, hevents, hs₃, hlost, hreflected⟩ :=
      h.applyReportTx_ok hs₂.1.underway he now
    refine ⟨.applied y, s₃, htx, ⟨hs₂.1.step hs₃ hlost hevents, hlost⟩, ?_⟩
    change Proc.wp _ (match e.fill with
      | some xf => do let _ ← ingestFill cfg xf
      | none => pure ⟨⟩) _ _ _
    cases hfill : e.fill with
    | none => exact ⟨rfl, hreflected, fun xf hxf => by rw [hfill] at hxf; cases hxf⟩
    | some xf =>
      have hxf : xf ∈ e.fill := hfill
      refine (Proc.wp_bind _ _ _ _ _).2 ?_
      refine (Proc.wp_bind _ _ _ _ _).2 ((wp_clockNow _).2 fun s₄ hs₄ =>
        ⟨trivial, fun now _ => ?_⟩)
      refine wp_transaction_ok fun s₅ hs₅ => ?_
      have hreflected₅ := hs₅.2.reflected _ (hs₄.2.reflected _ hreflected)
      obtain ⟨b, s₆, htx, hevents, hs₆, hlost, hknown⟩ :=
        h.ingestFillTx_ok hs₅.1.underway he hxf hreflected₅ now
      refine ⟨b, s₆, htx, ⟨hs₅.1.step hs₆ hlost hevents, hlost⟩, rfl,
        hlost.reflected _ hreflected₅, fun xf' hxf' => ?_⟩
      rw [hfill] at hxf'
      cases hxf'
      exact hknown

/-- A worker returns with every event of its jobs delivered. -/
theorem wp_worker (h : OrderHistory cfg s₀ o x es) {jobs : List (DeliveryPath × OrderEvent)}
    (hjobs : ∀ job ∈ jobs, job.2 ∈ es) (hist : History Label Ans) (s : Ledger) :
    Proc.wp (deliveryContract cfg s₀ o x es) (worker cfg jobs) (Returned o jobs) hist s := by
  -- the jobs already done stay delivered while the next one is
  refine Proc.wp_forM (fun rest _ s => ∃ made, jobs = made ++ rest ∧
    ∀ job ∈ made, Delivered o job.2 s) (fun job rest hist s hI => ?_) (fun hist s hI => ?_) jobs hist
    s ⟨[], rfl, List.forall_mem_nil _⟩
  · obtain ⟨made, rfl, hmade⟩ := hI
    have hkeep (s s' : Ledger) (hs : ∀ job ∈ made, Delivered o job.2 s) (hlost : Unlost o s s') :
        ∀ job ∈ made, Delivered o job.2 s' := fun job hjob => hlost.delivered (hs job hjob)
    have hjob : job.2 ∈ es := hjobs job (List.mem_append_right _ (.head _))
    have hframe := Prog.wp_frame (C := deliveryContract cfg s₀ o x es)
      (K := fun s => ∀ job ∈ made, Delivered o job.2 s)
      (fun _ s s' hK hr => hkeep s s' hK hr.2) (fun _ _ s s' hK hstep => hkeep s s' hK hstep.2)
      (h.wp_deliver hjob job.1 hist) hmade
    refine Proc.wp_mono hframe fun r hist s hr => ?_
    obtain ⟨⟨rfl, hd⟩, hmade⟩ := hr
    refine ⟨made ++ [job], by simp, fun job' hjob' => ?_⟩
    rcases List.mem_append.1 hjob' with hjob' | hjob'
    · exact hmade job' hjob'
    · obtain rfl := List.mem_singleton.1 hjob'
      exact hd
  · obtain ⟨made, rfl, hmade⟩ := hI
    rw [List.append_nil]
    exact ⟨rfl, hmade⟩

end OrderHistory

end

/-! ## The schedule does not matter -/

section
variable {cfg : Config} {s₀ s s' : Ledger} {o : Order} {x : String} {es : List OrderEvent}

namespace OrderHistory

/-- Where every event has been delivered, the recorded trades are those of the history. -/
theorem trades_recorded (h : OrderHistory cfg s₀ o x es) {ts : List ExchangeFill} {fs : List Fill}
    (hnodup : ts.Nodup) (hsub : ts ⊆ OrderEvent.trades es)
    (hrows : s.fills.rows = s₀.fills.rows ++ fs)
    (hperm : (fs.map (Fill.content (OrderEvent.trades es))).Perm (ts.map (fillOf o · 0)))
    (hd : ∀ e ∈ es, Delivered o e s) : ts.Perm (OrderEvent.trades es) := by
  refine (List.perm_ext_iff_of_nodup hnodup h.trades_nodup).2 fun xf =>
    ⟨fun h => hsub h, fun hxf => ?_⟩
  obtain ⟨e, he, hfill⟩ := List.mem_filterMap.1 hxf
  obtain ⟨f, hf, hkey⟩ := (hd e he).2 xf hfill
  rw [hrows] at hf
  rcases List.mem_append.1 hf with hf | hf
  · exact absurd hkey (h.newTrades xf hxf f hf).1
  · have hcontent := hperm.mem_iff.1 (List.mem_map_of_mem (f := Fill.content _) hf)
    obtain ⟨xf', hxf', heq⟩ := List.mem_map.1 hcontent
    have hkey' : xf'.eventKey = f.eventKey := (congrArg Fill.eventKey heq :)
    rwa [← h.trade_eq (hsub hxf') hxf (.inl (hkey'.trans hkey))]

/-- Two ledgers in which every event has been delivered agree. -/
theorem agree (h : OrderHistory cfg s₀ o x es) (hs : Underway cfg s₀ o x es s)
    (hs' : Underway cfg s₀ o x es s') (hd : ∀ e ∈ es, Delivered o e s)
    (hd' : ∀ e ∈ es, Delivered o e s') : Agree cfg o es s s' := by
  obtain ⟨ts, fs, hnodup, hsub, hrows, hperm, htraded⟩ := hs.fills
  obtain ⟨ts', fs', hnodup', hsub', hrows', hperm', htraded'⟩ := hs'.fills
  have hts : ts.Perm ts' := (h.trades_recorded hnodup hsub hrows hperm hd).trans
    (h.trades_recorded hnodup' hsub' hrows' hperm' hd').symm
  have hfills : (ts.map (fillOf o · 0)).Perm (ts'.map (fillOf o · 0)) := hts.map _
  refine ⟨?_, ?_, ?_⟩
  · obtain ⟨y, hmem, hy⟩ := hs.row
    obtain ⟨y', hmem', hy'⟩ := hs'.row
    rw [Ledger.getOrder_eq_some.2 ⟨hmem, hy.same.clientOrderId⟩,
      Ledger.getOrder_eq_some.2 ⟨hmem', hy'.same.clientOrderId⟩]
    have hreflects {s : Ledger} {y : Order} (hmem : y ∈ s.orders.rows) (hy : o.Stage x es y)
        (hd : ∀ e ∈ es, Delivered o e s) : ∀ e ∈ es, y.Reflects e.report := by
      intro e he
      obtain ⟨z, hz, hzid, hzr⟩ := (hd e he).1
      rwa [← Ledger.eq_of_id hz hmem (hzid.trans hy.same.id.symm)]
    exact congrArg some (hy.progress_eq hy' (hreflects hmem hy hd) (hreflects hmem' hy' hd')
      h.rank_lt)
  · rw [hrows, hrows', List.map_append, List.map_append]
    exact ((hperm.trans hfills).trans hperm'.symm).append_left _
  · rcases h.side with ⟨hside, hpos⟩ | ⟨hside, -⟩
    · rw [hside] at htraded htraded'
      refine Core.Bought.alike htraded htraded' hfills hpos fun f hf => ?_
      obtain ⟨xf, hxf, rfl⟩ := List.mem_map.1 hf
      exact sub_pos.2 (h.fees xf (hsub hxf)).2
    · rw [hside] at htraded htraded'
      exact Core.Sold.alike htraded htraded' hfills

end OrderHistory

section
variable {τ : Type} [DecidableEq τ] {jobs : τ → List (DeliveryPath × OrderEvent)}
  {P : Pool τ Ledger Label Ans (Except Exn PUnit)}

/-- Along every interleaving the ledger stays consistent, and every worker is on its way to return
with its events delivered. -/
theorem OrderHistory.sound_of_run (h : OrderHistory cfg s₀ o x es)
    (hjobs : ∀ i, ∀ job ∈ jobs i, job.2 ∈ es)
    (hrun : Pool.Run (fun _ => False) (fun _ _ => True) (workers cfg jobs s₀) P) :
    Pool.Sound (deliveryContract cfg s₀ o x es) P (fun i => Returned o (jobs i)) ∧
      Consistent cfg s₀ o x es P.state := by
  refine hrun.invariant (I := fun P => Pool.Sound (deliveryContract cfg s₀ o x es) P
    (fun i => Returned o (jobs i)) ∧ Consistent cfg s₀ o x es P.state) ?_
    ⟨fun i => h.wp_worker (hjobs i) [] s₀, h.consistent⟩
  rintro P act P' ⟨hP, hs⟩ - hstep
  have hlasting (i : τ) : (deliveryContract cfg s₀ o x es).Lasting (Returned o (jobs i)) :=
    fun _ _ _ _ hΦ hr => ⟨hΦ.1, fun job hjob => hr.2.delivered (hΦ.2 job hjob)⟩
  rcases hP.step_cases_post deliveryContract_stable hlasting hs hstep with
    ⟨i, l, -, -, hown, hsound⟩ | ⟨i, q, a, -, hst, -, -, hsound⟩ | ⟨i, p, -, hp, -⟩
  · exact ⟨hsound fun _ _ => hown, hown.1⟩
  · exact ⟨hsound trivial, hst ▸ hs⟩
  · exact hp.elim

/-- Workers deliver the events of an order's history, each at least once, any number of times, in
any order, by either path and with their transactions interleaved at will. No call raises; and when
all have returned, the ledger agrees with in-order exactly-once delivery. -/
theorem delivery_order_irrelevant (h : OrderHistory cfg s₀ o x es)
    (hjobs : ∀ i, ∀ job ∈ jobs i, job.2 ∈ es) (hall : ∀ e ∈ es, ∃ i, ∃ job ∈ jobs i, job.2 = e)
    (hrun : Pool.Run (fun _ => False) (fun _ _ => True) (workers cfg jobs s₀) P) :
    (∀ i r, P.prog i = .done r → r = .ok ⟨⟩) ∧
    ((∀ i, ∃ r, P.prog i = .done r) → ∀ env path,
      Agree cfg o es P.state (inOrder cfg env path es s₀)) := by
  obtain ⟨hsound, hs⟩ := h.sound_of_run hjobs hrun
  have hdone {i : τ} {r : Except Exn PUnit} (hr : P.prog i = .done r) :
      Returned o (jobs i) r (P.hist i) P.state := by
    have hi := hsound i
    rw [hr] at hi
    exact hi
  refine ⟨fun i r hr => (hdone hr).1, fun hreturned env path => ?_⟩
  have hd : ∀ e ∈ es, Delivered o e P.state := by
    intro e he
    obtain ⟨i, job, hjob, rfl⟩ := hall e he
    obtain ⟨r, hr⟩ := hreturned i
    exact (hdone hr).2 job hjob
  have hjobs' : ∀ job ∈ es.map fun e => (path, e), job.2 ∈ es := by
    intro job hjob
    obtain ⟨e, he, rfl⟩ := List.mem_map.1 hjob
    exact he
  obtain ⟨⟨-, hd'⟩, hs'⟩ := Prog.run_of_wp_rely (I := Consistent cfg s₀ o x es) env
    deliveryContract_stable.refl (fun hstep => hstep.1) (fun _ _ _ => trivial) h.consistent
    (h.wp_worker hjobs' [] s₀)
  exact h.agree hs.underway hs'.underway hd fun e he => hd' (path, e) (List.mem_map_of_mem he)

end

end

/-! ## Two workers -/

/-- The sample entry, persisted and on its way to the exchange. -/
def entryRow : Order :=
  { sampleRow sampleEntry .buy 1 "4711" with
    status := .submitting, exchangeOrderId := none, executedQuantity := 0 }

def entryLedger : Ledger where
  orders := ⟨[entryRow], List.pairwise_singleton _ _⟩

/-- It rests, is filled in part, and is filled. -/
def entryEvents : List OrderEvent :=
  [⟨"1:NEW", sampleReport sampleEntry .buy .new 0, none⟩,
   ⟨"2:TRADE", sampleReport sampleEntry .buy .partiallyFilled 1,
    some (sampleTrade sampleEntry .buy "1" 100 1)⟩,
   ⟨"3:TRADE", sampleReport sampleEntry .buy .filled 2,
    some (sampleTrade sampleEntry .buy "2" 100 2)⟩]

/-- The stream delivers the events backwards and one of them twice, REST in order. -/
def entryJobs : Bool → List (DeliveryPath × OrderEvent)
  | true => (entryEvents.reverse ++ entryEvents.take 2).map fun e => (.stream, e)
  | false => entryEvents.map fun e => (.rest "rest_trades", e)

/-- The stream's worker is interrupted by the other one. -/
def entryDelivered : Pool Bool Ledger Label Ans (Except Exn PUnit) :=
  let env := exchangeEnv (listing (.ok []))
  (((workers sampleConfig entryJobs entryLedger).go env true 4).go env false 100).go env true 100

theorem entry_delivered :
    Agree sampleConfig entryRow entryEvents entryDelivered.state
      (inOrder sampleConfig (exchangeEnv (listing (.ok []))) .stream entryEvents entryLedger) := by
  have h : OrderHistory sampleConfig entryLedger entryRow "4711" entryEvents :=
    ⟨.head _, rfl, rfl, by decide +kernel, by decide +kernel, by decide +kernel, by decide +kernel,
      by decide +kernel, by decide +kernel, by decide +kernel, by decide +kernel, by decide +kernel,
      by decide +kernel, by decide +kernel⟩
  have hrun : Pool.Run (fun _ => False) (fun _ _ => True)
      (workers sampleConfig entryJobs entryLedger) entryDelivered :=
    ((Pool.run_go_any _ _ _ _).trans (Pool.run_go_any _ _ _ _)).trans (Pool.run_go_any _ _ _ _)
  have hjobs : ∀ i, ∀ job ∈ entryJobs i, job.2 ∈ entryEvents := by
    intro i job hjob
    cases i with
    | true =>
      obtain ⟨e, he, rfl⟩ := List.mem_map.1 hjob
      rcases List.mem_append.1 he with he | he
      · exact List.mem_reverse.1 he
      · exact List.mem_of_mem_take he
    | false =>
      obtain ⟨e, he, rfl⟩ := List.mem_map.1 hjob
      exact he
  have hreturned : ∀ i, ∃ r, entryDelivered.prog i = .done r := by
    have hdone : ∀ i, (entryDelivered.prog i).isDone := by decide +kernel
    exact fun i => Prog.exists_of_isDone (hdone i)
  exact (delivery_order_irrelevant h hjobs
    (fun e he => ⟨false, _, List.mem_map_of_mem he, rfl⟩) hrun).2 hreturned _ _

end CryptoBot
