import CryptoBot.Application.Escapes
import CryptoBot.Application.Sizing
import Mathlib.Algebra.Order.BigOperators.Group.List

/-!
# What an exit may sell

`_exit` cancels the resting stops before it sells, since a stop may have sold part of the position.
What a stop has executed is known from the answer to the cancel or to the query after it, and has left
the position once its executions are downloaded. `cancel` swallows a failure of the query and of the
download, so that a stop may be terminal with executions the position does not know of. The exit
then sells the whole position.
-/

namespace CryptoBot

open Lib OrderService TradingCycle

/-! ## Executions without fills -/

/-- What an order has executed beyond its recorded fills. -/
def Ledger.uncovered (s : Ledger) (o : Order) : ℚ := max 0 (o.executedQuantity - s.fillQuantity o)

/-- The sells of a bot on a symbol. -/
def Ledger.sells (s : Ledger) (bot : String) (symbol : Symbol) : List Order :=
  s.orders.rows.filter fun o => decide (o.bot = bot ∧ o.symbol = symbol ∧ o.side = .sell)

/-- What the sells of a bot have executed beyond their recorded fills. -/
def Ledger.uncoveredSells (s : Ledger) (bot : String) (symbol : Symbol) : ℚ :=
  ((s.sells bot symbol).map s.uncovered).sum

/-- The quantity is in the position when every executed sell is counted. -/
def Sellable (cfg : Config) (intent : OrderIntent) (s : Ledger) : Prop :=
  intent.quantity ≤
    (s.getPosition cfg.bot cfg.symbol).quantity - s.uncoveredSells cfg.bot cfg.symbol

/-- The intent that a program is about to hand to `submit_intent`. -/
def handing? {α : Type} : Prog Ledger Label Ans α → Option OrderIntent
  | .atomic (.submitIntent intent) _ _ => some intent
  | _ => none

/-- A sell has executed no more than its recorded fills add up to. -/
def Covered (s : Ledger) (o : Order) : Prop :=
  o.side = .sell → o.executedQuantity ≤ s.fillQuantity o

instance {s : Ledger} {o : Order} : Decidable (Covered s o) := inferInstanceAs (Decidable (_ → _))

/-- Every sell of the bot on its symbol is covered. -/
def SellsCovered (cfg : Config) (s : Ledger) : Prop :=
  ∀ o ∈ s.orders.rows, o.bot = cfg.bot → o.symbol = cfg.symbol → Covered s o

instance {cfg : Config} {s : Ledger} : Decidable (SellsCovered cfg s) :=
  inferInstanceAs (Decidable (∀ o ∈ s.orders.rows, _))

/-- A terminal sell is not covered. -/
def Lacks (s : Ledger) (o : Order) : Prop := o.isTerminal ∧ ¬ Covered s o

instance {s : Ledger} {o : Order} : Decidable (Lacks s o) := inferInstanceAs (Decidable (_ ∧ _))

/-! ## What the exchange answers -/

/-- A report about the order `o`, under an id of the exchange. -/
def About (o : Order) (r : ExchangeOrderReport) : Prop :=
  r.clientOrderId = o.clientOrderId ∧ truthy r.exchangeOrderId

instance {o : Order} {r : ExchangeOrderReport} : Decidable (About o r) :=
  inferInstanceAs (Decidable (_ ∧ _))

/-- The execution belongs to the order and is not recorded. -/
def Ledger.Misses (cfg : Config) (s : Ledger) (o : Order) (xf : ExchangeFill) : Prop :=
  findOrder cfg s (xf.clientOrderId.filter (· ≠ "")) xf.exchangeOrderId = some o ∧
    ∀ f ∈ s.fills.rows, f.eventKey ≠ xf.eventKey ∧
      ¬ (f.orderId = o.id ∧ f.exchangeTradeId = some xf.exchangeTradeId)

instance {cfg : Config} {s : Ledger} {o : Order} : DecidablePred (s.Misses cfg o) := fun _ =>
  inferInstanceAs (Decidable (_ ∧ ∀ f ∈ s.fills.rows, _))

/-- What the executions add to the recorded fills of the order. -/
def Ledger.missed (cfg : Config) (s : Ledger) (o : Order) (xfs : List ExchangeFill) : ℚ :=
  (xfs.map fun xf => if s.Misses cfg o xf then xf.quantity else 0).sum

/-- Executions of an order as an exchange lists them: none of a negative quantity, and each of them
once. -/
structure Listed (o : Order) (xfs : List ExchangeFill) : Prop where
  own : ∀ xf ∈ xfs, xf.clientOrderId.filter (· ≠ "") = some o.clientOrderId
  quantity : ∀ xf ∈ xfs, 0 ≤ xf.quantity
  distinct : xfs.Pairwise fun a b =>
    a.eventKey ≠ b.eventKey ∧ a.exchangeTradeId ≠ b.exchangeTradeId

instance {o : Order} {xfs : List ExchangeFill} : Decidable (Listed o xfs) :=
  decidable_of_iff (_ ∧ _ ∧ _) ⟨fun h => ⟨h.1, h.2.1, h.2.2⟩, fun h => ⟨h.1, h.2, h.3⟩⟩

/-- The executor answers about the order it is asked about, and lists its executions as an exchange
does. -/
def Documented : (q : Request) → Ans q → Prop
  | .call (.cancel o), a => ∀ out ∈ Except.toOption a, out.kind = .acknowledged →
      ∀ r ∈ out.report, About o r
  | .call (.queryOrder o), a => ∀ r ∈ (Except.toOption a).join, About o r
  | .call (.queryFills o), a => ∀ xfs ∈ Except.toOption a, Listed o xfs
  | _, _ => True

/-- While a sell is terminal with executions that are not recorded, neither the query of the order
nor the download raises, and the download lists them. -/
def Attends (cfg : Config) : (q : Request) → Ledger → Ans q → Prop
  | .call (.queryOrder o), s, a =>
      Except.toOption a = none → ∀ x ∈ s.getOrder o.clientOrderId, ¬ Lacks s x
  | .call (.queryFills o), s, a => Lacks s o → ∃ xfs ∈ Except.toOption a,
      o.executedQuantity ≤ s.fillQuantity o + s.missed cfg o xfs
  | _, _, _ => True

section
variable {cfg : Config} {s s' s'' : Ledger} {o x : Order} {c : String}

theorem uncovered_eq_zero (h : o.executedQuantity ≤ s.fillQuantity o) : s.uncovered o = 0 :=
  max_eq_left (sub_nonpos.2 h)

/-- Where every sell is covered, a part of the position may be sold. -/
theorem SellsCovered.sellable (hs : SellsCovered cfg s) {intent : OrderIntent}
    (hq : intent.quantity ≤ (s.getPosition cfg.bot cfg.symbol).quantity) : Sellable cfg intent s := by
  have hzero : s.uncoveredSells cfg.bot cfg.symbol = 0 := by
    refine List.sum_eq_zero fun q hq => ?_
    obtain ⟨o, ho, rfl⟩ := List.mem_map.1 hq
    obtain ⟨hmem, ho⟩ := List.mem_filter.1 ho
    obtain ⟨hbot, hsymbol, hside⟩ := of_decide_eq_true ho
    exact uncovered_eq_zero (hs o hmem hbot hsymbol hside)
  rw [Sellable, hzero, sub_zero]
  exact hq

/-- Where not every sell is covered, some executions have no fills. -/
theorem uncoveredSells_pos (hs : ¬ SellsCovered cfg s) :
    0 < s.uncoveredSells cfg.bot cfg.symbol := by
  unfold SellsCovered at hs
  push Not at hs
  obtain ⟨o, hmem, hbot, hsymbol, hno⟩ := hs
  obtain ⟨hside, hlt⟩ := Classical.not_imp.1 hno
  have hsell : o ∈ s.sells cfg.bot cfg.symbol :=
    List.mem_filter.2 ⟨hmem, decide_eq_true ⟨hbot, hsymbol, hside⟩⟩
  have hpos : 0 < s.uncovered o := lt_max_of_lt_right (sub_pos.2 (not_le.1 hlt))
  refine hpos.trans_le (List.single_le_sum (fun q hq => ?_) _ (List.mem_map_of_mem hsell))
  obtain ⟨p, -, rfl⟩ := List.mem_map.1 hq
  exact le_max_left _ _

/-! ## What a cancel touches -/

/-- Only the order `c` and its fills have changed, and no fill is lost. -/
structure Touches (c : String) (s s' : Ledger) : Prop where
  old : ∀ o ∈ s'.orders.rows, o.clientOrderId ≠ c → o ∈ s.orders.rows
  new : ∀ o ∈ s.orders.rows, ∃ o' ∈ s'.orders.rows, Order.Same o o'
  kept : ∀ o ∈ s.orders.rows, o.clientOrderId ≠ c →
    o ∈ s'.orders.rows ∧ s'.fillQuantity o = s.fillQuantity o
  fills : ∀ o ∈ s.orders.rows, s.fillQuantity o ≤ s'.fillQuantity o

namespace Touches

theorem of_eq (ho : s'.orders = s.orders) (hf : s'.fills = s.fills) : Touches c s s' := by
  have hquantity (o : Order) : s'.fillQuantity o = s.fillQuantity o :=
    Ledger.fillQuantity_congr hf (Eq.refl _)
  refine ⟨fun o h _ => ?_, fun o h => ⟨o, ?_, .rfl⟩, fun o h _ => ⟨?_, hquantity o⟩,
    fun o _ => (hquantity o).ge⟩
  · rwa [← ho]
  · rwa [ho]
  · rwa [ho]

theorem rfl : Touches c s s := .of_eq (Eq.refl _) (Eq.refl _)

theorem trans (h : Touches c s s') (h' : Touches c s' s'') : Touches c s s'' := by
  refine ⟨fun o ho hne => h.old o (h'.old o ho hne) hne, fun o ho => ?_, fun o ho hne => ?_,
    fun o ho => ?_⟩
  · obtain ⟨o', ho', hsame⟩ := h.new o ho
    obtain ⟨o'', ho'', hsame'⟩ := h'.new o' ho'
    exact ⟨o'', ho'', hsame.trans hsame'⟩
  · obtain ⟨hmem, hquantity⟩ := h.kept o ho hne
    obtain ⟨hmem', hquantity'⟩ := h'.kept o hmem hne
    exact ⟨hmem', hquantity'.trans hquantity⟩
  · obtain ⟨o', ho', hsame⟩ := h.new o ho
    have hrest := h'.fills o' ho'
    rw [Ledger.fillQuantity_congr (Eq.refl _) hsame.id,
      Ledger.fillQuantity_congr (Eq.refl _) hsame.id] at hrest
    exact (h.fills o ho).trans hrest

/-- An order is still found, as the same order. -/
theorem getOrder (h : Touches c s s') {n : String} (hx : s.getOrder n = some x) :
    ∃ x', s'.getOrder n = some x' ∧ Order.Same x x' := by
  obtain ⟨hmem, hname⟩ := Ledger.getOrder_eq_some.1 hx
  obtain ⟨x', hx', hsame⟩ := h.new x hmem
  exact ⟨x', Ledger.getOrder_eq_some.2 ⟨hx', hsame.clientOrderId.trans hname⟩, hsame⟩

/-- The other sells stay covered. -/
theorem sellsCovered (h : Touches c s s') (hs : SellsCovered cfg s)
    (hc : ∀ x, s'.getOrder c = some x → Covered s' x) : SellsCovered cfg s' := by
  intro o ho hbot hsymbol
  by_cases hname : o.clientOrderId = c
  · exact hc o (Ledger.getOrder_eq_some.2 ⟨ho, hname⟩)
  · have hold := h.old o ho hname
    exact fun hside => (hs o hold hbot hsymbol hside).trans (h.fills o hold)

end Touches

/-- A report about an order touches only that order, which has the exchange's id from then on. -/
theorem Reported.touches {r : ExchangeOrderReport} (h : Reported cfg r s s')
    (hget : s.getOrder r.clientOrderId = some x) :
    Touches r.clientOrderId s s' ∧ (truthy r.exchangeOrderId →
      ∀ x', s'.getOrder r.clientOrderId = some x' → truthy x'.exchangeOrderId) := by
  obtain ⟨now, out, htx, hout⟩ := h
  have hfind : findOrder cfg s (some r.clientOrderId) r.exchangeOrderId = some x :=
    findOrder_of_clientOrderId hget
  have hname := (Ledger.getOrder_eq_some.1 hget).2
  have hnamed (hr : truthy r.exchangeOrderId) : truthy
      (if x.adoptsExchangeId r then r.exchangeOrderId else x.exchangeOrderId) := by
    rw [Order.adoptsExchangeId, hr, Bool.true_and]
    cases hx : truthy x.exchangeOrderId with
    | false => exact hr
    | true => exact hx
  rcases applyReportTx_cases htx with ⟨hnone, -⟩ | ⟨y, hfind', hcases⟩
  · cases hfind.symm.trans hnone
  obtain rfl := Option.some.inj (hfind.symm.trans hfind')
  rcases hcases with ⟨m, rfl, -⟩ | ⟨hok, -, rfl⟩ | ⟨o₁, hok, -, hrep⟩
  · exact absurd rfl (hout _ m)
  · refine ⟨.rfl, fun hr x' hx' => ?_⟩
    cases hget.symm.trans hx'
    rw [(Order.applyReport_ok hok).1.exchangeOrderId]
    exact hnamed hr
  · have hquantity (o : Order) : s'.fillQuantity o = s.fillQuantity o :=
      Ledger.fillQuantity_congr hrep.fills rfl
    refine ⟨⟨fun o ho hne => ?_, fun o ho => ?_, fun o ho hne => ?_, fun o _ => (hquantity o).ge⟩,
      fun hr x' hx' => ?_⟩
    · rcases hrep.mem_iff.1 ho with rfl | ⟨ho, -⟩
      · exact absurd (hrep.same.clientOrderId.trans hname) hne
      · exact ho
    · by_cases hid : o.id = x.id
      · obtain rfl := Ledger.eq_of_id ho hrep.mem hid
        exact ⟨_, hrep.mem_new, hrep.same⟩
      · exact ⟨o, hrep.mem_iff.2 (.inr ⟨ho, hid⟩), .rfl⟩
    · refine ⟨hrep.mem_iff.2 (.inr ⟨ho, fun hid => hne ?_⟩), hquantity o⟩
      rw [Ledger.eq_of_id ho hrep.mem hid]
      exact hname
    · have hnew := hrep.getOrder_new
      rw [hname] at hnew
      cases hnew.symm.trans hx'
      show truthy o₁.exchangeOrderId
      rw [(Order.applyReport_ok hok).1.exchangeOrderId]
      exact hnamed hr

/-! ## Downloads -/

/-- An execution adds to the fills of an order what it is missing there. -/
theorem ingestFillTx_fillQuantity {xf : ExchangeFill} {now : Time} {b : Bool}
    (ho : o ∈ s.orders.rows) (h : ingestFillTx cfg xf now s = .ok (b, s')) :
    s'.fillQuantity o =
      s.fillQuantity o + if s.Misses cfg o xf then xf.quantity else 0 := by
  rcases ingestFillTx_cases h with ⟨hnone, rfl⟩ | ⟨y, hfind, ⟨rfl, hdup⟩ | ⟨f, hrow, hfilled⟩⟩
  · have hno : ¬ s'.Misses cfg o xf := fun hmiss => by cases hmiss.1.symm.trans hnone
    rw [if_neg hno, add_zero]
  · rw [if_neg, add_zero]
    rintro ⟨hfind', hmiss⟩
    obtain rfl := Option.some.inj (hfind'.symm.trans hfind)
    refine hdup fun g hg => ⟨Store.lt_nextId (List.mem_map_of_mem hg), (hmiss g hg).1, ?_⟩
    rintro ⟨hid, -, htrade⟩
    exact (hmiss g hg).2 ⟨hid, htrade⟩
  · have hid : f.orderId = y.id := by rw [hrow]; rfl
    have hsum : s'.fillQuantity o =
        s.fillQuantity o + if f.orderId = o.id then xf.quantity else 0 := by
      have hquantity : f.quantity = xf.quantity := by rw [hrow]; rfl
      rw [Ledger.fillQuantity, Ledger.fillsForOrder, hfilled.rows, List.filter_append,
        List.map_append, List.sum_append]
      congr 1
      split
      · next hid => simp [hid, hquantity]
      · next hid => simp [hid]
    have hmisses : f.orderId = o.id ↔ s.Misses cfg o xf := by
      constructor
      · intro heq
        obtain rfl := Ledger.eq_of_id (findOrder_mem hfind) ho (hid.symm.trans heq)
        refine ⟨hfind, fun g hg => ⟨fun hkey => ?_, fun hboth => ?_⟩⟩
        · exact (hfilled.fresh g hg).2.1 (hkey.trans (by rw [hrow]; rfl))
        · refine (hfilled.fresh g hg).2.2 ⟨hboth.1.trans hid.symm, ?_, ?_⟩
          · rw [hboth.2]
            rfl
          · rw [hboth.2, hrow]
            rfl
      · intro hmiss
        obtain rfl := Option.some.inj (hmiss.1.symm.trans hfind)
        exact hid
    rw [hsum]
    simp only [hmisses]

/-- What is missing of the other executions is not affected by one that is recorded. -/
theorem ingestFillTx_misses {xf y : ExchangeFill} {now : Time} {b : Bool}
    (hne : xf.eventKey ≠ y.eventKey ∧ xf.exchangeTradeId ≠ y.exchangeTradeId)
    (h : ingestFillTx cfg xf now s = .ok (b, s')) : s'.Misses cfg o y ↔ s.Misses cfg o y := by
  have hfind : findOrder cfg s' (y.clientOrderId.filter (· ≠ "")) y.exchangeOrderId =
      findOrder cfg s (y.clientOrderId.filter (· ≠ "")) y.exchangeOrderId := by
    unfold findOrder Ledger.getOrder Ledger.getOrderByExchangeId
    rw [ingestFillTx_orders h]
  unfold Ledger.Misses
  rw [hfind]
  refine and_congr_right fun _ => ?_
  rcases ingestFillTx_cases h with ⟨-, rfl⟩ | ⟨z, -, ⟨rfl, -⟩ | ⟨g, hrow, hfilled⟩⟩
  · exact Iff.rfl
  · exact Iff.rfl
  · rw [hfilled.rows, List.forall_mem_append, List.forall_mem_singleton, hrow]
    exact and_iff_left ⟨hne.1, fun htrade => hne.2 (Option.some.inj htrade.2)⟩

/-- A download adds to an order what its executions are that were missing. -/
theorem Recorded.fillQuantity {y : Order} {xfs : List ExchangeFill} (hl : Listed y xfs)
    (h : Recorded cfg xfs s s') (ho : o ∈ s.orders.rows) :
    s'.orders = s.orders ∧ s'.fillQuantity o = s.fillQuantity o + s.missed cfg o xfs := by
  induction h with
  | nil => exact ⟨rfl, (add_zero _).symm⟩
  | @cons xf xfs now b s s₁ s' hx _ ih =>
    obtain ⟨hpos, hquantity⟩ := List.forall_mem_cons.1 hl.quantity
    obtain ⟨hne, hdistinct⟩ := List.pairwise_cons.1 hl.distinct
    have hfirst := ingestFillTx_orders hx
    obtain ⟨horders, hrest⟩ := ih ⟨(List.forall_mem_cons.1 hl.own).2, hquantity, hdistinct⟩
      (by rwa [hfirst])
    have hmissed : s₁.missed cfg o xfs = s.missed cfg o xfs := by
      refine congrArg List.sum (List.map_congr_left fun y hy => ?_)
      simp only [ingestFillTx_misses (hne y hy) hx]
    refine ⟨horders.trans hfirst, ?_⟩
    rw [hrest, hmissed, ingestFillTx_fillQuantity ho hx, add_assoc]
    rfl

/-- The download of the executions of an order touches that order. -/
theorem Recorded.touches {xfs : List ExchangeFill} (hget : s.getOrder o.clientOrderId = some o)
    (hl : Listed o xfs) (h : Recorded cfg xfs s s') : Touches o.clientOrderId s s' := by
  have ho := (Ledger.getOrder_eq_some.1 hget).1
  obtain ⟨horders, -⟩ := h.fillQuantity hl ho
  refine ⟨fun x hx _ => ?_, fun x hx => ⟨x, ?_, .rfl⟩, fun x hx hne => ⟨?_, ?_⟩, fun x hx => ?_⟩
  · rwa [← horders]
  · rwa [horders]
  · rwa [horders]
  · exact (recorded_own ho hl.own h).2 x hx fun heq => hne (congrArg Order.clientOrderId heq)
  · rw [(h.fillQuantity hl hx).2]
    refine le_add_of_nonneg_right (List.sum_nonneg fun q hq => ?_)
    obtain ⟨xf, hxf, rfl⟩ := List.mem_map.1 hq
    split
    · exact hl.quantity xf hxf
    · exact le_refl 0

/-! ## Cancelling a stop -/

/-- A sell that is not covered can be asked about. -/
def Traceable (c : String) (s : Ledger) : Prop :=
  ∀ x, s.getOrder c = some x → Covered s x ∨ truthy x.exchangeOrderId

/-- The order is not a terminal sell that lacks fills. -/
def Cleared (c : String) (s : Ledger) : Prop := ∀ x, s.getOrder c = some x → ¬ Lacks s x

/-- The order is one of the bot's. -/
def Owned (cfg : Config) (s : Ledger) (o : Order) : Prop :=
  ∃ x, s.getOrder o.clientOrderId = some x ∧ x.bot = cfg.bot ∧ x.symbol = cfg.symbol

theorem Owned.touches (ho : Owned cfg s o) (h : Touches c s s') : Owned cfg s' o := by
  obtain ⟨x, hx, hbot, hsymbol⟩ := ho
  obtain ⟨x', hx', hsame⟩ := h.getOrder hx
  exact ⟨x', hx', hsame.bot.trans hbot, hsame.symbol.trans hsymbol⟩

theorem SellsCovered.traceable (hs : SellsCovered cfg s) (ho : Owned cfg s o) :
    Traceable o.clientOrderId s := by
  obtain ⟨x, hget, hbot, hsymbol⟩ := ho
  intro x' hx'
  cases hget.symm.trans hx'
  exact .inl (hs x (Ledger.getOrder_eq_some.1 hget).1 hbot hsymbol)

/-- A download clears its order when it lists the executions that the order lacks. -/
theorem Recorded.cleared_iff {xfs : List ExchangeFill} (hget : s.getOrder o.clientOrderId = some o)
    (hl : Listed o xfs) (h : Recorded cfg xfs s s') : Cleared o.clientOrderId s' ↔
      (Lacks s o → o.executedQuantity ≤ s.fillQuantity o + s.missed cfg o xfs) := by
  have ho := (Ledger.getOrder_eq_some.1 hget).1
  obtain ⟨horders, hquantity⟩ := h.fillQuantity hl ho
  have hcleared : Cleared o.clientOrderId s' ↔ ¬ Lacks s' o := by
    have hget' := (Ledger.getOrder_congr horders _).trans hget
    exact ⟨fun hall => hall o hget', fun hno x hx => Option.some.inj (hget'.symm.trans hx) ▸ hno⟩
  rw [hcleared, ← hquantity]
  constructor
  · intro hno hlacks
    by_contra hle
    exact hno ⟨hlacks.1, fun hcovered => hle (hcovered (by_contra fun hside =>
      hlacks.2 fun hsell => absurd hsell hside))⟩
  · rintro hlists ⟨hterminal, hno⟩
    refine hno fun hside => ?_
    by_cases hcovered : Covered s o
    · exact (hcovered hside).trans ((h.touches hget hl).fills o ho)
    · exact hlists ⟨hterminal, hcovered⟩

section
variable {C : Contract Ledger Label Ans} {A : (q : Request) → Ledger → Ans q → Prop}
  {h : History Label Ans}

/-- Applying a report raises an order conflict, or nothing unless the report collides. -/
theorem Sequential.wp_applyReport_raises (hC : Sequential C A) (r : ExchangeOrderReport)
    (source : String) : Proc.wp C (applyReport cfg r source) (fun res _ _ => ∀ e, res = .error e →
      (∃ m, e = .orderConflict m) ∨ Collides cfg s r) h s := by
  refine (Proc.wp_bind _ _ _ _ _).2 (hC.wp_now fun now => ?_)
  refine (Proc.wp_bind _ _ _ _ _).2 (hC.wp_transaction (.inl rfl) (fun out s' htx => ?_)
    fun e htx _ _ => .inr (applyReportTx_raises_iff.1 ⟨e, htx⟩))
  cases out with
  | unknown => exact nofun
  | applied o => exact nofun
  | conflict c m =>
    refine (Proc.wp_bind _ _ _ _ _).2 ((Proc.wp_bind _ _ _ _ _).2 (hC.wp_now fun _ => ?_))
    refine (Proc.wp_bind _ _ _ _ _).2 (hC.wp_enqueue (.inr ⟨_, rfl⟩) fun _ _ => ?_)
    exact hC.wp_enqueue (.inl rfl) fun _ _ e he => .inl ⟨m, (Except.error.inj he).symm⟩

/-- The report of an order that the ledger has. -/
theorem Sequential.wp_applyReport_touches (hC : Sequential C A) {r : ExchangeOrderReport}
    (source : String) (hget : s.getOrder r.clientOrderId = some x) (hr : truthy r.exchangeOrderId)
    (hs : Traceable r.clientOrderId s) :
    Proc.wp C (applyReport cfg r source) (fun res _ s' => Touches r.clientOrderId s s' ∧
      ((∃ m, res = .error (.orderConflict m)) ∨ Traceable r.clientOrderId s' ∧
        ∀ e, res = .error e → s' = s ∧ Covered s x)) h s := by
  refine Proc.wp_mono (Prog.wp_and (hC.wp_applyReport r source) (hC.wp_applyReport_raises r source))
    fun res h' s' hres => ?_
  obtain ⟨habsorbed, hraises⟩ := hres
  cases habsorbed with
  | applied hh hreported =>
    obtain ⟨htouches, hknown⟩ := hreported.touches hget
    exact ⟨htouches, .inr ⟨fun x' hx' => .inr (hknown hr x' hx'), nofun⟩⟩
  | conflict hh hh' hfind hx hrefused hbooks =>
    exact ⟨.of_eq (congrArg Ledger.orders hbooks :) (congrArg Ledger.fills hbooks :), .inl ⟨_, rfl⟩⟩
  | @refused e _ hh hrefused he =>
    refine ⟨.rfl, .inr ⟨hs, fun _ _ => ⟨rfl, ?_⟩⟩⟩
    rcases hraises e rfl with ⟨m, rfl⟩ | ⟨y, z, hfind, -, hadopts, -⟩
    · exact absurd rfl (he m)
    · obtain rfl := Option.some.inj ((findOrder_of_clientOrderId hget).symm.trans hfind)
      refine (hs x hget).resolve_right fun hknown => ?_
      rw [Order.adoptsExchangeId, hknown, Bool.not_true, Bool.and_false] at hadopts
      cases hadopts

end

/-! ## What a cancel clears

A cancel that returns has cleared its order exactly when its answers attend to the order. -/

section
variable {env : Prog.Env Label Ans} {h h' : History Label Ans}

/-- `Attends`, of every answer that a run gets. -/
abbrev attended (cfg : Config) : Answers Ledger Label Ans := fun _ q s a => Attends cfg q s a

theorem lenient_attended : Lenient env (attended cfg) := fun _ _ _ => trivial

variable (hdoc : ∀ h q, Documented q (env h q))
include hdoc

theorem attended_ingestOrderFills {res : Except Exn PUnit} (hs : Traceable c s)
    (hrun : Proc.Ends env.answers (ingestOrderFills cfg (s.getOrder c)) h s res h' s') :
    ((ingestOrderFills cfg (s.getOrder c)).Meets env (attended cfg) h s ↔ Cleared c s') ∧
      Touches c s s' := by
  unfold ingestOrderFills at hrun ⊢
  cases hget : s.getOrder c with
  | none =>
    rw [hget] at hrun
    obtain ⟨-, -, rfl⟩ := (Proc.ends_pure _ _).1 hrun
    exact ⟨iff_of_true trivial fun x hx => (by cases hget.symm.trans hx), .rfl⟩
  | some o =>
    rw [hget] at hrun
    dsimp only at hrun ⊢
    split at hrun
    · next hid =>
      rw [if_pos hid]
      obtain rfl := (Ledger.getOrder_eq_some.1 hget).2
      rcases (Proc.ends_bind _ _ _).1 hrun with ⟨xfs, h₁, s₁, hcall, hrest⟩ | ⟨e, hcall, rfl⟩
      · rw [Proc.meets_bind_ok hcall, and_iff_left ((unfailing_ingestFills lenient_attended).meets _ _)]
        obtain ⟨ha, rfl, rfl⟩ := ends_call hcall
        have hlisted : Listed o xfs := by
          have hd := hdoc h (.call (.queryFills o))
          rw [← ha] at hd
          exact hd xfs rfl
        obtain ⟨-, -, hrecorded⟩ := hrest.post ((sequential_alone _).wp_ingestFills xfs _ _)
        refine ⟨?_, hrecorded.touches hget hlisted⟩
        rw [hrecorded.cleared_iff hget hlisted]
        refine (and_iff_left trivial).trans ?_
        rw [← ha]
        constructor
        · intro hlists hlacks
          obtain ⟨_, hxfs, hle⟩ := hlists hlacks
          cases hxfs
          exact hle
        · exact fun hle hlacks => ⟨xfs, rfl, hle hlacks⟩
      · rw [Proc.meets_bind_error hcall]
        obtain ⟨ha, rfl, rfl⟩ := ends_call hcall
        refine ⟨(and_iff_left trivial).trans ?_, .rfl⟩
        rw [← ha]
        constructor
        · intro hlists x hx hlacks
          cases hget.symm.trans hx
          obtain ⟨_, hxfs, -⟩ := hlists hlacks
          cases hxfs
        · exact fun hcleared hlacks => absurd hlacks (hcleared o hget)
    · next hid =>
      rw [if_neg hid]
      obtain ⟨-, -, rfl⟩ := (Proc.ends_pure _ _).1 hrun
      refine ⟨iff_of_true trivial fun x hx hlacks => ?_, .rfl⟩
      cases hget.symm.trans hx
      exact hlacks.2 ((hs o hget).resolve_right hid)

/-- What follows the answer to the query of an order. -/
theorem attended_download {res : Except Exn (Option Order)} (hs : Traceable c s)
    (hrun : Proc.Ends env.answers (do
      let fresh ← query .query (·.getOrder c)
      ingestOrderFills cfg fresh
      query .query (·.getOrder c)) h s res h' s') :
    (Proc.Meets env (attended cfg) (do
      let fresh ← query .query (·.getOrder c)
      ingestOrderFills cfg fresh
      query .query (·.getOrder c)) h s ↔ Cleared c s') ∧ Touches c s s' ∧
        ∀ y, res = .ok y → y = s'.getOrder c := by
  rcases (Proc.ends_bind _ _ _).1 hrun with ⟨fresh, h₁, s₁, hq, hrest⟩ | ⟨e, hq, -⟩
  · rw [Proc.meets_bind_ok hq, and_iff_right ((unfailing_query _ _).meets _ _)]
    obtain ⟨hfresh, rfl, rfl⟩ := (ends_query _ _ _).1 hq
    obtain rfl := Except.ok.inj hfresh
    rcases (Proc.ends_bind _ _ _).1 hrest with ⟨u, h₂, s₂, hin, hlast⟩ | ⟨e, hin, rfl⟩
    · rw [Proc.meets_bind_ok hin, and_iff_left ((unfailing_query _ _).meets _ _)]
      obtain ⟨rfl, -, rfl⟩ := (ends_query _ _ _).1 hlast
      obtain ⟨hmeets, htouches⟩ := attended_ingestOrderFills hdoc hs hin
      exact ⟨hmeets, htouches, fun y hy => (Except.ok.inj hy).symm⟩
    · rw [Proc.meets_bind_error hin]
      obtain ⟨hmeets, htouches⟩ := attended_ingestOrderFills hdoc hs hin
      exact ⟨hmeets, htouches, fun y hy => by cases hy⟩
  · cases hq.1

/-- A refresh that does not end in a conflict. -/
theorem attended_refresh {res : Except Exn (Option Order)}
    (hget : s.getOrder o.clientOrderId = some x) (hs : Traceable o.clientOrderId s)
    (hrun : Proc.Ends env.answers (refresh cfg o) h s res h' s') :
    Touches o.clientOrderId s s' ∧ ((∃ m, res = .error (.orderConflict m)) ∨
      ((refresh cfg o).Meets env (attended cfg) h s ↔ Cleared o.clientOrderId s') ∧
        ∀ y, res = .ok y → y = s'.getOrder o.clientOrderId) := by
  unfold refresh at hrun ⊢
  rcases (Proc.ends_bind _ _ _).1 hrun with ⟨a, h₁, s₁, hcall, hrest⟩ | ⟨e, hcall, rfl⟩
  · rw [Proc.meets_bind_ok hcall]
    obtain ⟨ha, rfl, rfl⟩ := ends_call hcall
    have hmet : (call (.queryOrder o)).Meets env (attended cfg) h s₁ := by
      refine ⟨?_, trivial⟩
      rw [← ha]
      exact fun hanswer => by cases hanswer
    rw [and_iff_right hmet]
    cases a with
    | none =>
      obtain ⟨hmeets, htouches, hfresh⟩ := attended_download hdoc hs hrest
      exact ⟨htouches, .inr ⟨hmeets, hfresh⟩⟩
    | some r =>
      have habout : About o r := by
        have hd := hdoc h (.call (.queryOrder o))
        rw [← ha] at hd
        exact hd r rfl
      obtain ⟨hname, hknown⟩ := habout
      have hget' := hget
      rw [← hname] at hget hs
      dsimp only at hrest ⊢
      rcases (Proc.ends_bind _ _ _).1 hrest with ⟨u, h₂, s₂, happly, hrest⟩ | ⟨e, happly, rfl⟩
      · rw [Proc.meets_bind_ok happly, and_iff_right ((unfailing_applyReport lenient_attended).meets _ _)]
        obtain ⟨htouches, ⟨m, hm⟩ | ⟨hs', -⟩⟩ :=
          happly.post ((sequential_alone _).wp_applyReport_touches "rest_query" hget hknown hs)
        · cases hm
        · rw [hname] at htouches hs'
          obtain ⟨hmeets, htouches', hfresh⟩ := attended_download hdoc hs' hrest
          exact ⟨htouches.trans htouches', .inr ⟨hmeets, hfresh⟩⟩
      · rw [Proc.meets_bind_error happly]
        obtain ⟨htouches, ⟨m, hm⟩ | ⟨-, hraised⟩⟩ :=
          happly.post ((sequential_alone _).wp_applyReport_touches "rest_query" hget hknown hs)
        · rw [hname] at htouches
          exact ⟨htouches, .inl ⟨m, congrArg _ (Except.error.inj hm)⟩⟩
        · obtain ⟨rfl, hcovered⟩ := hraised e rfl
          refine ⟨.rfl, .inr ⟨iff_of_true ((unfailing_applyReport lenient_attended).meets _ _) ?_, fun y hy => by cases hy⟩⟩
          intro x' hx' hlacks
          cases hget'.symm.trans hx'
          exact hlacks.2 hcovered
  · rw [Proc.meets_bind_error hcall]
    obtain ⟨ha, rfl, rfl⟩ := ends_call hcall
    refine ⟨.rfl, .inr ⟨(and_iff_left trivial).trans ?_, fun y hy => by cases hy⟩⟩
    rw [← ha]
    exact ⟨fun hanswer => hanswer rfl, fun hcleared _ => hcleared⟩

/-- A cancel leaves the other orders alone, and when it returns it has cleared its own exactly when
its answers attend to it. -/
theorem attended_cancel {res : Except Exn (Option Order)}
    (hget : s.getOrder o.clientOrderId = some x) (hs : Traceable o.clientOrderId s)
    (hrun : Proc.Ends env.answers (cancel cfg o) h s res h' s') :
    Touches o.clientOrderId s s' ∧ ∀ y, res = .ok y → y = s'.getOrder o.clientOrderId ∧
      ((cancel cfg o).Meets env (attended cfg) h s ↔ Cleared o.clientOrderId s') := by
  have hlook {h₁ s₁ x₁} (hget₁ : s₁.getOrder o.clientOrderId = some x₁)
      (hs₁ : Traceable o.clientOrderId s₁)
      (hrest : Proc.Ends env.answers (lookAgain cfg o) h₁ s₁ res h' s') :
      Touches o.clientOrderId s₁ s' ∧ ∀ y, res = .ok y → y = s'.getOrder o.clientOrderId ∧
        ((lookAgain cfg o).Meets env (attended cfg) h₁ s₁ ↔ Cleared o.clientOrderId s') := by
    unfold lookAgain at hrest ⊢
    rcases (Proc.ends_bind _ _ _).1 hrest with ⟨out, h₂, s₂, hattempt, hend⟩ | ⟨e, hattempt, -⟩
    · rw [Proc.meets_bind_ok hattempt, Proc.meets_attempt]
      obtain ⟨_, hout, hrefresh⟩ := (Proc.ends_attempt _ _).1 hattempt
      obtain rfl := Except.ok.inj hout
      obtain ⟨htouches, hres⟩ := attended_refresh hdoc hget₁ hs₁ hrefresh
      rcases out with e | fresh
      · cases e with
        | orderConflict m =>
          obtain ⟨rfl, -, rfl⟩ := (Proc.ends_throw _ _).1 hend
          exact ⟨htouches, fun y hy => by cases hy⟩
        | _ =>
          obtain ⟨rfl, -, rfl⟩ := (ends_query _ _ _).1 hend
          rcases hres with ⟨m, hm⟩ | ⟨hmeets, -⟩
          · cases hm
          · refine ⟨htouches, fun y hy => ⟨(Except.ok.inj hy).symm, ?_⟩⟩
            exact (and_iff_left ((unfailing_query _ _).meets _ _)).trans hmeets
      · obtain ⟨rfl, -, rfl⟩ := (Proc.ends_pure _ _).1 hend
        rcases hres with ⟨m, hm⟩ | ⟨hmeets, hfresh⟩
        · cases hm
        · refine ⟨htouches, fun y hy => ⟨?_, (and_iff_left trivial).trans hmeets⟩⟩
          rw [← Except.ok.inj hy]
          exact hfresh fresh rfl
    · obtain ⟨_, hx, -⟩ := (Proc.ends_attempt _ _).1 hattempt
      cases hx
  unfold cancel at hrun ⊢
  rcases (Proc.ends_bind _ _ _).1 hrun with ⟨out, h₁, s₁, hcall, hrest⟩ | ⟨e, hcall, rfl⟩
  · have hmet : (call (.cancel o)).Meets env (attended cfg) h s := ⟨trivial, trivial⟩
    rw [Proc.meets_bind_ok hcall, and_iff_right hmet]
    obtain ⟨ha, rfl, rfl⟩ := ends_call hcall
    dsimp only at hrest ⊢
    split at hrest
    · next r hk hout =>
      have habout : About o r := by
        have hd := hdoc h (.call (.cancel o))
        rw [← ha] at hd
        exact hd out rfl hk r hout
      obtain ⟨hname, hknown⟩ := habout
      have hget' := hget
      rw [← hname] at hget hs
      rcases (Proc.ends_bind _ _ _).1 hrest with ⟨u, h₂, s₂, happly, hrest⟩ | ⟨e, happly, rfl⟩
      · rw [Proc.meets_bind_ok happly, and_iff_right ((unfailing_applyReport lenient_attended).meets _ _)]
        obtain ⟨htouches, ⟨m, hm⟩ | ⟨hs', -⟩⟩ :=
          happly.post ((sequential_alone _).wp_applyReport_touches "rest_cancel" hget hknown hs)
        · cases hm
        · rw [hname] at htouches hs'
          obtain ⟨x', hget'', -⟩ := htouches.getOrder hget'
          obtain ⟨htouches', hres⟩ := hlook hget'' hs' hrest
          exact ⟨htouches.trans htouches', hres⟩
      · obtain ⟨htouches, -⟩ :=
          happly.post ((sequential_alone _).wp_applyReport_touches "rest_cancel" hget hknown hs)
        rw [hname] at htouches
        exact ⟨htouches, fun y hy => by cases hy⟩
    · exact hlook hget hs hrest
  · obtain ⟨-, rfl, rfl⟩ := ends_call hcall
    exact ⟨.rfl, fun y hy => by cases hy⟩

end

/-! ## The stops of an exit -/

/-- A cancel of another order leaves the order traceable. -/
theorem Traceable.touches {n : String} (ht : Traceable n s) (h : Touches c s s') (hne : n ≠ c) :
    Traceable n s' := by
  intro x hx
  obtain ⟨hmem, rfl⟩ := Ledger.getOrder_eq_some.1 hx
  have hold := h.old x hmem hne
  refine (ht x (Ledger.getOrder_of_mem hold)).imp_left fun hcovered hside => ?_
  exact (hcovered hside).trans (h.fills x hold)

/-- The first of the stops has been cancelled, and the others after it. -/
theorem ends_cancelStops {env : Prog.Env Label Ans} {h h' : History Label Ans} {os : List Order}
    (hrun : Proc.Ends env.answers (cancelStops cfg (o :: os)) h s (.ok true) h' s') :
    (Proc.Ends env.answers (cancelStops cfg os) h s (.ok true) h' s' ∧
      ∀ F, (cancelStops cfg (o :: os)).Meets env F h s ↔ (cancelStops cfg os).Meets env F h s) ∨
    ∃ y h₁ s₁, Proc.Ends env.answers (cancel cfg o) h s (.ok (some y)) h₁ s₁ ∧ y.isTerminal ∧
      Proc.Ends env.answers (cancelStops cfg os) h₁ s₁ (.ok true) h' s' ∧
      ∀ F, (cancelStops cfg (o :: os)).Meets env F h s ↔
        (cancel cfg o).Meets env F h s ∧ (cancelStops cfg os).Meets env F h₁ s₁ := by
  unfold cancelStops at hrun
  rw [cancelStops]
  split at hrun
  · next hstop =>
    rw [if_pos hstop]
    obtain ⟨y, h₁, s₁, hcancel, hrest⟩ := (Proc.ends_bind_ok _ _ _).1 hrun
    obtain ⟨z, _, _, hraise, hend⟩ := (Proc.ends_bind_ok _ _ _).1 hrest
    cases y with
    | none => cases hraise.1
    | some y =>
      obtain ⟨hz, rfl, rfl⟩ := (Proc.ends_pure _ _).1 hraise
      obtain rfl := Except.ok.inj hz
      refine .inr ⟨z, _, _, hcancel, ?_⟩
      split at hend
      · next hterminal =>
        refine ⟨hterminal, hend, fun F => ?_⟩
        rw [Proc.meets_bind_ok hcancel, Proc.meets_bind_ok hraise, if_pos hterminal]
        exact and_congr_right fun _ => and_iff_right trivial
      · cases hend.1
  · next hstop =>
    rw [if_neg hstop]
    exact .inl ⟨hrun, fun _ => Iff.rfl⟩

section
variable {env : Prog.Env Label Ans} {h h' : History Label Ans} {os : List Order}

/-- The cancels of other stops leave an order and its fills alone. -/
theorem cancelStops_kept (hdoc : ∀ h q, Documented q (env h q)) (hx : x ∈ s.orders.rows)
    (hdistinct : (x :: os).Pairwise fun a b => a.clientOrderId ≠ b.clientOrderId)
    (hos : ∀ o ∈ os, (s.getOrder o.clientOrderId).isSome ∧ Traceable o.clientOrderId s)
    (hrun : Proc.Ends env.answers (cancelStops cfg os) h s (.ok true) h' s') :
    x ∈ s'.orders.rows ∧ s'.fillQuantity x = s.fillQuantity x := by
  induction os generalizing h s with
  | nil =>
    obtain ⟨-, -, rfl⟩ := (Proc.ends_pure _ _).1 hrun
    exact ⟨hx, rfl⟩
  | cons o os ih =>
    obtain ⟨⟨hsome, htrace⟩, hos⟩ := List.forall_mem_cons.1 hos
    obtain ⟨hne, hrest⟩ := List.pairwise_cons.1 hdistinct
    obtain ⟨hxo, hxos⟩ := List.forall_mem_cons.1 hne
    obtain ⟨ho, hos'⟩ := List.pairwise_cons.1 hrest
    have hdistinct' := List.pairwise_cons.2 ⟨hxos, hos'⟩
    rcases ends_cancelStops hrun with ⟨hend, -⟩ | ⟨y, h₁, s₁, hcancel, -, hend, -⟩
    · exact ih hx hdistinct' hos hend
    · obtain ⟨z, hz⟩ := Option.isSome_iff_exists.1 hsome
      obtain ⟨htouches, -⟩ := attended_cancel hdoc hz htrace hcancel
      obtain ⟨hmem, hquantity⟩ := htouches.kept x hx hxo
      have hothers : ∀ p ∈ os, (s₁.getOrder p.clientOrderId).isSome ∧
          Traceable p.clientOrderId s₁ := fun p hp => by
        obtain ⟨hpsome, hptrace⟩ := hos p hp
        obtain ⟨w, hw⟩ := Option.isSome_iff_exists.1 hpsome
        obtain ⟨w', hw', -⟩ := htouches.getOrder hw
        exact ⟨Option.isSome_iff_exists.2 ⟨w', hw'⟩, hptrace.touches htouches (ho p hp).symm⟩
      obtain ⟨hmem', hquantity'⟩ := ih hmem hdistinct' hothers hend
      exact ⟨hmem', hquantity'.trans hquantity⟩

/-- When the cancels are confirmed, every sell is covered exactly when all the answers attend to
their stops. -/
theorem attended_cancelStops (hdoc : ∀ h q, Documented q (env h q))
    (hdistinct : os.Pairwise fun a b => a.clientOrderId ≠ b.clientOrderId)
    (hos : ∀ o ∈ os, Owned cfg s o) (hs : SellsCovered cfg s)
    (hrun : Proc.Ends env.answers (cancelStops cfg os) h s (.ok true) h' s') :
    (cancelStops cfg os).Meets env (attended cfg) h s ↔ SellsCovered cfg s' := by
  induction os generalizing h s with
  | nil =>
    obtain ⟨-, -, rfl⟩ := (Proc.ends_pure _ _).1 hrun
    exact iff_of_true trivial hs
  | cons o os ih =>
    obtain ⟨ho, hos⟩ := List.forall_mem_cons.1 hos
    obtain ⟨hne, hdistinct⟩ := List.pairwise_cons.1 hdistinct
    rcases ends_cancelStops hrun with ⟨hend, hmeets⟩ | ⟨y, h₁, s₁, hcancel, hterminal, hend, hmeets⟩
    · rw [hmeets]
      exact ih hdistinct hos hs hend
    · obtain ⟨x, hget, hbot, hsymbol⟩ := id ho
      obtain ⟨htouches, hres⟩ := attended_cancel hdoc hget (hs.traceable ho) hcancel
      obtain ⟨hy, hcleared⟩ := hres (some y) rfl
      rw [hmeets, hcleared]
      by_cases hcovered : Covered s₁ y
      · have hall : Cleared o.clientOrderId s₁ := fun z hz hlacks => by
          cases hy.trans hz
          exact hlacks.2 hcovered
        rw [and_iff_right hall]
        refine ih hdistinct (fun p hp => (hos p hp).touches htouches)
          (htouches.sellsCovered hs fun z hz => ?_) hend
        cases hy.trans hz
        exact hcovered
      · -- the others are cancelled without regard to it
        refine iff_of_false (fun hboth => hboth.1 y hy.symm ⟨hterminal, hcovered⟩) fun hall => ?_
        obtain ⟨hmem, hname⟩ := Ledger.getOrder_eq_some.1 hy.symm
        have hothers : ∀ p ∈ os, (s₁.getOrder p.clientOrderId).isSome ∧
            Traceable p.clientOrderId s₁ := fun p hp => by
          obtain ⟨w, hw, -⟩ := (hos p hp).touches htouches
          exact ⟨Option.isSome_iff_exists.2 ⟨w, hw⟩,
            (hs.traceable (hos p hp)).touches htouches (hne p hp).symm⟩
        obtain ⟨hmem', hquantity⟩ := cancelStops_kept hdoc hmem
          (List.pairwise_cons.2 ⟨fun p hp => hname ▸ hne p hp, hdistinct⟩) hothers hend
        obtain ⟨x', hx', hsame⟩ := htouches.getOrder hget
        cases hy.trans hx'
        refine hcovered fun hside => ?_
        rw [← hquantity]
        exact hall y hmem' (hsame.bot.trans hbot) (hsame.symbol.trans hsymbol) hside

end

/-! ## Handing over -/

/-- The contract of a program that runs against `env` and hands over only intents for which `P`
holds. -/
def handContract (env : Prog.Env Label Ans) (P : OrderIntent → Ledger → Prop) :
    Contract Ledger Label Ans where
  rely _ s s' := s' = s
  ans h q _ a := a = env h q
  step _ l s _ := ∀ intent, l = .submitIntent intent → P intent s
  guard _ _ _ := True

section
variable {C : Contract Ledger Label Ans} {A : (q : Request) → Ledger → Ans q → Prop}
  {P : OrderIntent → Ledger → Prop} {env : Prog.Env Label Ans} {h : History Label Ans}

theorem sequential_hand : Sequential (handContract env P) fun _ _ _ => True where
  rely h := h
  ans _ := trivial
  step hl intent heq := by
    subst heq
    rcases hl with h | h | ⟨c, h⟩ <;> cases h
  guard _ := trivial

/-- What follows a submission hands over nothing. -/
theorem Sequential.wp_settle (hC : Sequential C A) (o : Order) (out : SubmitOutcome) :
    Proc.wp C (settle cfg o out) (fun _ _ _ => True) h s := by
  unfold settle
  split
  · have hreport (r : ExchangeOrderReport) {h : History Label Ans} : Proc.wp C (do
        let _ ← applyReport cfg r "rest_submit"
        ingestFills cfg out.fills) (fun _ _ _ => True) h s := by
      refine (Proc.wp_bind _ _ _ _ _).2 (Proc.wp_mono (hC.wp_applyReport r _) ?_)
      rintro (e | _) h₁ s₁ -
      · trivial
      · exact Proc.wp_mono (hC.wp_ingestFills _ _ _) fun _ _ _ _ => trivial
    exact (Proc.wp_bind _ _ _ _ _).2 (wp_orRaise (fun r _ => hreport r) fun _ _ => trivial)
  · refine (Proc.wp_bind _ _ _ _ _).2 (hC.wp_now fun now => ?_)
    exact hC.wp_transaction (.inl rfl) (fun _ _ _ => trivial) fun _ _ => trivial
  · refine (Proc.wp_bind _ _ _ _ _).2 (hC.wp_now fun now => ?_)
    refine (Proc.wp_bind _ _ _ _ _).2
      (hC.wp_transaction (.inl rfl) (fun _ s₁ _ => ?_) fun _ _ => trivial)
    refine (Proc.wp_bind _ _ _ _ _).2 (hC.wp_query ((Proc.wp_bind _ _ _ _ _).2
      (wp_orRaise (fun fresh _ => ?_) fun _ _ => trivial)))
    refine (Proc.wp_bind _ _ _ _ _).2 (Proc.wp_mono (hC.wp_resolveAmbiguous fresh) ?_)
    rintro (e | _) h₂ s₂ - <;> trivial

/-- A submission hands over its intent, and nothing after it. -/
theorem wp_submitIntent_hand {intent : OrderIntent} {rules : SymbolRules} (hP : P intent s) :
    Proc.wp (handContract env P) (submitIntent cfg intent rules) (fun _ _ _ => True) h s := by
  have hC : Sequential (handContract env P) _ := sequential_hand
  refine (Proc.wp_bind _ _ _ _ _).2 ((wp_query _ _).2 fun s₁ hs₁ => ⟨?_, ?_⟩)
  · rintro _ ⟨⟩
    obtain rfl : s₁ = s := hs₁
    exact hP
  dsimp only
  cases s₁.getOrderByIntent intent.clientIntentId with
  | some existing => trivial
  | none =>
    refine (Proc.wp_bind _ _ _ _ _).2 (hC.wp_now fun now => ?_)
    dsimp only
    split
    · trivial
    · refine (Proc.wp_bind _ _ _ _ _).2
        (hC.wp_transaction (.inl rfl) (fun res s₂ _ => ?_) fun _ _ => trivial)
      cases res with
      | error existing => trivial
      | ok o =>
        refine (Proc.wp_bind _ _ _ _ _).2 ((Proc.wp_attempt _ _ _ _).2
          ((wp_call _ _).2 fun s₃ _ => ⟨trivial, fun a _ => ?_⟩))
        have hsettle {h₃} (out : SubmitOutcome) : Proc.wp (handContract env P) (do
            settle cfg o out
            query .query (·.getOrder o.clientOrderId)) (fun _ _ _ => True) h₃ s₃ := by
          refine (Proc.wp_bind _ _ _ _ _).2 (Proc.wp_mono (hC.wp_settle o out) ?_)
          rintro (e | _) h₄ s₄ -
          · trivial
          · exact hC.wp_query trivial
        cases a with
        | error e => exact hsettle _
        | ok out => exact hsettle _

theorem Sequential.wp_nextIntentId (hC : Sequential C A) {base : IntentBase} {attempt n : Nat} :
    Proc.wp C (nextIntentId base attempt n) (fun _ _ s' => s' = s) h s := by
  induction n generalizing attempt h with
  | zero => exact rfl
  | succ n ih =>
    refine (Proc.wp_bind _ _ _ _ _).2 (hC.wp_query ?_)
    dsimp only
    cases s.getOrderByIntent ⟨base, attempt⟩ with
    | none => exact rfl
    | some existing =>
      refine (Proc.wp_ite _ _ _ _ _ _).2 ?_
      split
      · exact ih
      · exact rfl

theorem Sequential.wp_cancelStops (hC : Sequential C A) (os : List Order) :
    Proc.wp C (cancelStops cfg os) (fun _ _ _ => True) h s := by
  induction os generalizing h s with
  | nil => trivial
  | cons o os ih =>
    refine (Proc.wp_ite _ _ _ _ _ _).2 ?_
    split
    · refine (Proc.wp_bind _ _ _ _ _).2 (Proc.wp_mono (hC.wp_cancel o) ?_)
      rintro (e | _ | y) h₁ s₁ -
      · trivial
      · trivial
      · refine (Proc.wp_ite _ _ _ _ _ _).2 ?_
        split
        · exact ih
        · trivial
    · exact ih

/-- The position is sold in whole lots. -/
theorem wp_sellPosition_hand {purpose : OrderPurpose} {rules : SymbolRules} {refPrice : ℚ}
    (hP : ∀ intent : OrderIntent, 0 < intent.quantity →
      intent.quantity = rules.roundQty (s.getPosition cfg.bot cfg.symbol).quantity → P intent s) :
    Proc.wp (handContract env P) (sellPosition cfg purpose rules refPrice) (fun _ _ _ => True) h s := by
  have hC : Sequential (handContract env P) _ := sequential_hand
  refine (Proc.wp_bind _ _ _ _ _).2 (hC.wp_query ((Proc.wp_ite _ _ _ _ _ _).2 ?_))
  split
  · trivial
  next htradeable =>
  have hpos : 0 < rules.roundQty (s.getPosition cfg.bot cfg.symbol).quantity := by
    by_contra hno
    rw [SymbolRules.isTradeable, if_pos (.inl (not_lt.1 hno))] at htradeable
    exact htradeable rfl
  have hsubmit : Proc.wp (handContract env P) (submit cfg purpose .sell
      (rules.roundQty (s.getPosition cfg.bot cfg.symbol).quantity) rules refPrice
      (positionBase cfg (s.getPosition cfg.bot cfg.symbol) purpose) none) (fun _ _ _ => True)
      (.step .query :: h) s := by
    refine (Proc.wp_bind _ _ _ _ _).2 (Proc.wp_mono hC.wp_nextIntentId ?_)
    rintro (e | _ | iid) h₁ s₁ rfl
    · trivial
    · refine (Proc.wp_bind _ _ _ _ _).2 (hC.wp_now fun now => ?_)
      refine (Proc.wp_bind _ _ _ _ _).2 (hC.wp_enqueue (.inl rfl) fun _ _ => ?_)
      refine (Proc.wp_bind _ _ _ _ _).2 (hC.wp_enqueue (.inl rfl) fun _ _ => ?_)
      trivial
    · exact wp_submitIntent_hand (hP _ hpos rfl)
  refine (Proc.wp_bind _ _ _ _ _).2 (Proc.wp_mono hsubmit ?_)
  rintro (e | _ | o) h₁ s₁ -
  · trivial
  · trivial
  · refine (Proc.wp_bind _ _ _ _ _).2 (hC.wp_query ((Proc.wp_ite _ _ _ _ _ _).2 ?_))
    split <;> trivial

/-- Rounding to lots adds nothing to a position. -/
theorem roundQty_le_of_pos {rules : SymbolRules} {q : ℚ} (hpos : 0 < rules.roundQty q) :
    rules.roundQty q ≤ q := by
  unfold SymbolRules.roundQty at hpos ⊢
  rcases le_total q 0 with hq | hq
  · by_cases hstep : rules.stepSize ≤ 0
    · rw [floorToStep, if_pos hstep]
    · exact absurd (floorToStep_nonpos hq (not_le.1 hstep)) (not_le.2 hpos)
  · exact floorToStep_le hq

/-- An exit hands over its position in whole lots, once the stops are cancelled. -/
theorem wp_exit_hand {purpose : OrderPurpose} {rules : SymbolRules} {refPrice : ℚ}
    {I : Ledger → Prop} (hstops : ∀ h' s', Proc.Ends env.answers
      (cancelStops cfg (s.nonTerminalOrders cfg.bot cfg.symbol)) (.step .query :: h) s (.ok true)
      h' s' → I s')
    (hP : ∀ s' (intent : OrderIntent), I s' → 0 < intent.quantity → intent.quantity =
      rules.roundQty (s'.getPosition cfg.bot cfg.symbol).quantity → P intent s') :
    Proc.wp (handContract env P) (exit cfg purpose rules refPrice) (fun _ _ _ => True) h s := by
  have hC : Sequential (handContract env P) _ := sequential_hand
  refine (Proc.wp_bind _ _ _ _ _).2 (hC.wp_query ((Proc.wp_bind _ _ _ _ _).2 ?_))
  refine Prog.wp_of_ends hC.rely id (Proc.wp_mono (hC.wp_cancelStops _) fun _ _ _ _ => trivial) ?_
  rintro (e | ok) h₁ s₁ hends
  · trivial
  · refine (Proc.wp_ite _ _ _ _ _ _).2 ?_
    split
    · next hok =>
      rw [hok] at hends
      exact wp_sellPosition_hand fun intent => hP s₁ intent (hstops _ _ hends)
    · trivial

end

/-- The start of an exit. -/
def exitFrom (cfg : Config) (purpose : OrderPurpose) (rules : SymbolRules) (refPrice : ℚ)
    (s : Ledger) : Point Ledger Label Ans (Except Exn Action) :=
  ⟨(exit cfg purpose rules refPrice).run, [], s⟩

theorem handing?_eq_some {α : Type} {p : Prog Ledger Label Ans α} {intent : OrderIntent}
    (h : handing? p = some intent) : ∃ (β : Type) (f : Ledger → β × Ledger)
      (k : β → Prog Ledger Label Ans α), p = .atomic (.submitIntent intent) f k := by
  unfold handing? at h
  split at h
  · cases h
    exact ⟨_, _, _, rfl⟩
  · cases h

/-- Every answer to the cancels of the exit attends to its stop. -/
def Attending (cfg : Config) (env : Prog.Env Label Ans) (s : Ledger) : Prop :=
  (cancelStops cfg (s.nonTerminalOrders cfg.bot cfg.symbol)).Meets env (attended cfg)
    [.step .query] s

/-- An exit never sells executions twice, as long as the exchange attends to the stops that become
terminal with executions the ledger lacks. Where it does not, some executions have no fills, and the
exit sells no more than it may exactly when rounding to lots has left as much of the position; of a
position in whole lots it leaves nothing. -/
theorem exit_sellable_iff {env : Prog.Env Label Ans} (hdoc : ∀ h q, Documented q (env h q))
    {purpose : OrderPurpose} {rules : SymbolRules} {refPrice : ℚ} {intent : OrderIntent} (n : ℕ)
    (hs : SellsCovered cfg s)
    (hi : handing? ((exitFrom cfg purpose rules refPrice s).go env n).prog = some intent) :
    let s' := ((exitFrom cfg purpose rules refPrice s).go env n).state
    let position := (s'.getPosition cfg.bot cfg.symbol).quantity
    (Sellable cfg intent s' ↔ Attending cfg env s ∨
      s'.uncoveredSells cfg.bot cfg.symbol ≤ position - rules.roundQty position) ∧
    (rules.roundQty position = position → (Sellable cfg intent s' ↔ Attending cfg env s)) := by
  have hpath : Path (fun h q _ a => a = env h q) (exitFrom cfg purpose rules refPrice s)
      ((exitFrom cfg purpose rules refPrice s).go env n) := by
    refine Point.path_go ?_ n _
    exact fun _ _ _ => rfl
  generalize (exitFrom cfg purpose rules refPrice s).go env n = x at hi hpath
  obtain ⟨p, h, s'⟩ := x
  obtain ⟨β, f, k, rfl⟩ := handing?_eq_some hi
  intro s' position
  have hexit : Proc.wp (handContract env fun intent s' => (Attending cfg env s ↔
      SellsCovered cfg s') ∧ 0 < intent.quantity ∧ intent.quantity =
        rules.roundQty (s'.getPosition cfg.bot cfg.symbol).quantity)
      (exit cfg purpose rules refPrice) (fun _ _ _ => True) [] s := by
    refine wp_exit_hand (I := fun s' => Attending cfg env s ↔ SellsCovered cfg s')
      (fun h' s' hstops => ?_) fun s' intent hI hpos hq => ⟨hI, hpos, hq⟩
    refine attended_cancelStops hdoc ?_ (fun o ho => ?_) hs hstops
    · exact (s.orders.ok.filter _).imp fun hcompatible => hcompatible.2.1
    · obtain ⟨hmem, hbot, hsymbol, -⟩ := Ledger.mem_nonTerminalOrders.1 ho
      exact ⟨o, Ledger.getOrder_of_mem hmem, hbot, hsymbol⟩
  obtain ⟨hcovered, hpos, hq⟩ := Path.step (x := exitFrom cfg purpose rules refPrice s)
    (fun _ _ _ => rfl) (fun _ _ _ _ ha => ha) hexit hpath intent rfl
  have hremainder : Sellable cfg intent s' ↔
      s'.uncoveredSells cfg.bot cfg.symbol ≤ position - rules.roundQty position := by
    show intent.quantity ≤ _ ↔ _
    rw [hq]
    exact le_sub_comm
  have hattending (ha : Attending cfg env s) : Sellable cfg intent s' := by
    rw [hq] at hpos
    exact (hcovered.1 ha).sellable (hq ▸ roundQty_le_of_pos hpos)
  refine ⟨⟨fun hsell => .inr (hremainder.1 hsell), fun hor => hor.elim hattending hremainder.2⟩,
    fun hlots => ⟨fun hsell => by_contra fun hno => ?_, hattending⟩⟩
  have hle := hremainder.1 hsell
  rw [hlots, sub_self] at hle
  exact absurd (uncoveredSells_pos fun hall => hno (hcovered.2 hall)) (not_lt.2 hle)

end

/-! ## A stop that fills while it is cancelled -/

/-- A report that the sample stop is canceled, with half of it executed. -/
def halfCanceled : ExchangeOrderReport :=
  { sampleReport sampleStop .sell .canceled 1 with exchangeOrderId := some "4712" }

/-- The execution. -/
def halfFill : ExchangeFill :=
  { sampleFill sampleStop .sell "2" 1 with exchangeOrderId := some "4712" }

/-- The exchange has canceled the stop after half of it was executed, and lists the execution. -/
def halfCancel : (r : Req) → Except Exn r.Val
  | .cancel o => .ok { kind := .acknowledged
                       report := (some halfCanceled).filter (·.clientOrderId = o.clientOrderId) }
  | .queryOrder o => .ok ((some halfCanceled).filter (·.clientOrderId = o.clientOrderId))
  | .queryFills o => .ok ([halfFill].filter (·.clientOrderId = some o.clientOrderId))
  | r => listing (.ok []) r

/-- The same, while the query after the cancel fails. -/
def lostCancel : (r : Req) → Except Exn r.Val
  | .queryOrder _ => .error (.external "Timeout" "read timed out")
  | r => halfCancel r

theorem halfCanceled_about {o : Order} {r : ExchangeOrderReport}
    (hr : r ∈ (some halfCanceled).filter (·.clientOrderId = o.clientOrderId)) : About o r := by
  obtain ⟨hr, hname⟩ := Option.filter_eq_some_iff.1 hr
  obtain rfl := Option.some.inj hr
  exact ⟨of_decide_eq_true hname, rfl⟩

theorem halfFill_listed (o : Order) :
    Listed o ([halfFill].filter (·.clientOrderId = some o.clientOrderId)) := by
  have hmem {xf : ExchangeFill}
      (hxf : xf ∈ [halfFill].filter (·.clientOrderId = some o.clientOrderId)) :
      xf = halfFill ∧ halfFill.clientOrderId = some o.clientOrderId := by
    obtain ⟨hxf, hname⟩ := List.mem_filter.1 hxf
    obtain rfl := List.mem_singleton.1 hxf
    exact ⟨rfl, of_decide_eq_true hname⟩
  refine ⟨fun xf hxf => ?_, fun xf hxf => ?_, (List.pairwise_singleton _ _).filter _⟩
  · obtain ⟨rfl, hname⟩ := hmem hxf
    rw [← hname]
    decide +kernel
  · rw [(hmem hxf).1]
    decide +kernel

theorem halfCancel_documented (h : History Label Ans) :
    ∀ q, Documented q (exchangeEnv halfCancel h q)
  | .ambient _ => trivial
  | .call r => by
    cases r with
    | cancel o =>
      intro out hout _ r hr
      obtain rfl := Option.some.inj hout
      exact halfCanceled_about hr
    | queryOrder o => exact fun r hr => halfCanceled_about hr
    | queryFills o =>
      intro xfs hxfs
      obtain rfl := Option.some.inj hxfs
      exact halfFill_listed o
    | _ => trivial

theorem lostCancel_documented (h : History Label Ans) :
    ∀ q, Documented q (exchangeEnv lostCancel h q)
  | .ambient _ => trivial
  | .call r => by
    cases r with
    | queryOrder o => exact fun r hr => by cases hr
    | cancel o => exact halfCancel_documented h (.call (.cancel o))
    | queryFills o => exact halfCancel_documented h (.call (.queryFills o))
    | _ => trivial

/-- The exit of the sample position after `n` events, with its stop resting. -/
def exiting (answer : (r : Req) → Except Exn r.Val) (n : Nat) :
    Point Ledger Label Ans (Except Exn Action) :=
  Point.go (exchangeEnv answer) n (exitFrom stoppingConfig .exit
    { symbol := ⟨"BTC", "USDT"⟩, baseAsset := "BTC", quoteAsset := "USDT" } 100 stoppedPoint.state)

/-- What is left of the position is sold. -/
theorem exit_sells_rest : ∃ intent, handing? (exiting halfCancel 14).prog = some intent ∧
    intent.quantity = 1 ∧ Sellable stoppingConfig intent (exiting halfCancel 14).state ∧
    Attending stoppingConfig (exchangeEnv halfCancel) stoppedPoint.state := by
  have hhanding : (handing? (exiting halfCancel 14).prog).map (·.quantity) = some 1 := by
    decide +kernel
  obtain ⟨intent, hi, hq⟩ := Option.map_eq_some_iff.1 hhanding
  have hcovered : SellsCovered stoppingConfig stoppedPoint.state := by decide +kernel
  obtain ⟨hrest, hlots⟩ := exit_sellable_iff halfCancel_documented 14 hcovered hi
  have hsellable := hrest.2 (.inr (by decide +kernel))
  exact ⟨intent, hi, hq, hsellable, (hlots (by decide +kernel)).1 hsellable⟩

/-- The query after the cancel fails, and the whole position is sold, although half of it has been. -/
theorem exit_oversells : (∀ h q, Documented q (exchangeEnv lostCancel h q)) ∧
    SellsCovered stoppingConfig stoppedPoint.state ∧
    ∃ intent, handing? (exiting lostCancel 8).prog = some intent ∧ intent.side = .sell ∧
      ¬ Sellable stoppingConfig intent (exiting lostCancel 8).state := by
  have hhanding : (handing? (exiting lostCancel 8).prog).map (fun i => (i.side, i.quantity)) =
      some (.sell, 2) := by decide +kernel
  have hposition : ((exiting lostCancel 8).state.getPosition "default" ⟨"BTC", "USDT"⟩).quantity -
      (exiting lostCancel 8).state.uncoveredSells "default" ⟨"BTC", "USDT"⟩ = 1 := by
    decide +kernel
  obtain ⟨intent, hi, hkind⟩ := Option.map_eq_some_iff.1 hhanding
  refine ⟨lostCancel_documented, by decide +kernel, intent, hi, (congrArg Prod.fst hkind :),
    fun hsell => ?_⟩
  have hle := hsell.trans hposition.le
  rw [show intent.quantity = 2 from (congrArg Prod.snd hkind :)] at hle
  norm_num at hle

end CryptoBot
