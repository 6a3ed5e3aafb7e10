import CryptoBot.Application.OrderRules
import CryptoBot.Application.PositionLaws
import CryptoBot.Lib.Runs

/-!
# The books of a ledger

A position is a function of its fills: of the quantities, the prices and the fees, in the order in
which they are applied. `ingest_fill` applies them in the order in which they arrive, `rebuild` in
the order in which they were executed. This module follows both through a run of the transactions
that keep the books. The two orders agree as long as executions are recorded in the order in which
they happened.
-/

namespace CryptoBot

open Lib OrderService

/-! ## What the fills determine -/

/-- The part of a position that its fills determine. -/
structure Core where
  quantity : ℚ := 0
  averageEntryPrice : ℚ := 0
  realizedPnl : ℚ := 0
  openedAt : Option Time := none
deriving DecidableEq

def Position.core (p : Position) : Core :=
  ⟨p.quantity, p.averageEntryPrice, p.realizedPnl, p.openedAt⟩

/-- One fill on the core of a position. -/
def Core.apply (c : Core) (f : Fill) : Core :=
  match f.side with
  | .buy =>
    if f.received ≤ 0 then c
    else { c with
      quantity := c.quantity + f.received
      averageEntryPrice :=
        (c.quantity * c.averageEntryPrice + f.cost) / (c.quantity + f.received)
      openedAt := if c.quantity ≤ 0 then some f.executionTime else c.openedAt }
  | .sell =>
    let realized := f.proceeds - c.averageEntryPrice *
      (if c.quantity + 1 / 1000000000000 < f.delivered then c.quantity else f.delivered)
    if max 0 (c.quantity - f.delivered) = 0 then { realizedPnl := c.realizedPnl + realized }
    else { c with
      quantity := max 0 (c.quantity - f.delivered)
      realizedPnl := c.realizedPnl + realized }
  | .other _ => c

@[simp] theorem Position.core_mark (p : Position) (price : ℚ) : (p.mark price).core = p.core := rfl

@[simp] theorem Position.core_remark (p : Position) : p.remark.core = p.core := by
  unfold remark; split <;> rfl

/-- The accounting routine works on the core alone. -/
theorem core_applyFill (p : Position) (f : Fill) :
    (applyFillToPosition p f).position.core = p.core.apply f := by
  obtain ⟨fees, hfees⟩ := p.withOtherFee_eq f
  unfold applyFillToPosition Core.apply
  cases f.side with
  | buy =>
    dsimp only
    split
    · rw [hfees]
      rfl
    · dsimp only
      rw [Position.core_remark, hfees]
      rfl
  | sell =>
    dsimp only
    rw [Position.core_remark, hfees, Position.sell]
    dsimp only
    split
    · next hzero =>
      have hzero' : max 0 (p.core.quantity - f.delivered) = 0 := hzero
      rw [if_pos hzero', Position.core, hzero]
      rfl
    · next hzero =>
      have hzero' : ¬ max 0 (p.core.quantity - f.delivered) = 0 := hzero
      rw [if_neg hzero']
      rfl
  | other text =>
    dsimp only
    rw [Position.core_remark, hfees]
    rfl

theorem core_replay (p : Position) (fs : List Fill) :
    (PositionService.replay p fs).1.core = fs.foldl Core.apply p.core := by
  induction fs generalizing p with
  | nil => rfl
  | cons f fs ih =>
    rw [List.foldl_cons, ← core_applyFill]
    exact ih _

/-- The rebuild folds the fills from a flat position. -/
theorem core_rebuilt (existing : Position) (bot : String) (symbol : Symbol) (fs : List Fill) :
    (PositionService.rebuilt existing bot symbol fs).1.core = fs.foldl Core.apply {} := by
  have h := core_replay { bot, symbol, lastMarkPrice := existing.lastMarkPrice } fs
  unfold PositionService.rebuilt
  dsimp only
  split <;> exact h

/-! ## The transactions of the books -/

/-- The recorded fills of a symbol in their order of arrival. -/
def Ledger.arrivals (s : Ledger) (symbol : Symbol) : List Fill :=
  s.fills.rows.filter fun f => decide (f.symbol = symbol)

/-- A transaction that keeps the books: an execution, a report, a new order, a mark or a stop. -/
inductive BookEvent
  | ingestFill (xf : ExchangeFill) (now : Time)
  | applyReport (report : ExchangeOrderReport) (now : Time)
  | persist (intent : OrderIntent) (rules : SymbolRules) (now : Time)
  | mark (symbol : Symbol) (price : ℚ) (now : Time)
  | setStop (symbol : Symbol) (price : ℚ) (now : Time)

/-- What a transaction makes of the ledger, when it does not raise. -/
inductive BookStep (cfg : Config) (s : Ledger) : BookEvent → Ledger → Prop
  | ingestFill {xf now b s'} (h : ingestFillTx cfg xf now s = .ok (b, s')) :
      BookStep cfg s (.ingestFill xf now) s'
  | applyReport {r now out s'} (h : applyReportTx cfg r now s = .ok (out, s')) :
      BookStep cfg s (.applyReport r now) s'
  | persist {intent rules now o r s'} (ho : (newOrder cfg intent rules).markSubmitting now = .ok o)
      (h : persistTx intent o now s = .ok (r, s')) : BookStep cfg s (.persist intent rules now) s'
  | mark {symbol price now p s'} (h : PositionService.mark cfg.bot symbol price now s = .ok (p, s')) :
      BookStep cfg s (.mark symbol price now) s'
  | setStop {symbol price now p s'}
      (h : PositionService.setStop cfg.bot symbol price now s = .ok (p, s')) :
      BookStep cfg s (.setStop symbol price now) s'

/-- A run of such transactions. -/
abbrev BookRun (cfg : Config) (ok : Ledger → BookEvent → Prop) : Ledger → Ledger → Prop :=
  Runs (BookStep cfg) ok

/-- The fill that ingesting an execution would record: none without a local order, and none for an
execution that is already recorded. -/
def newFill (cfg : Config) (s : Ledger) (xf : ExchangeFill) (now : Time) : Option Fill :=
  (findOrder cfg s (xf.clientOrderId.filter (· ≠ "")) xf.exchangeOrderId).bind fun o =>
    let f := { fillOf o xf now with id := Store.nextId (s.fills.rows.map (·.id)) }
    if ∀ g ∈ s.fills.rows, Fill.Compatible g f then some f else none

/-- A ledger of the bot before its first execution. -/
structure Opening (cfg : Config) (s : Ledger) : Prop where
  orders : ∀ o ∈ s.orders.rows, o.bot = cfg.bot
  fills : s.fills.rows = []
  positions : ∀ symbol, (s.getPosition cfg.bot symbol).core = {}

/-- The orders are the bot's, every fill belongs to one, and every position is the fold of its
fills in their order of arrival. -/
structure Kept (cfg : Config) (s : Ledger) : Prop where
  orders : ∀ o ∈ s.orders.rows, o.bot = cfg.bot
  fills : ∀ f ∈ s.fills.rows, ∃ o ∈ s.orders.rows, o.id = f.orderId
  positions : ∀ symbol,
    (s.getPosition cfg.bot symbol).core = (s.arrivals symbol).foldl Core.apply {}

variable {cfg : Config} {s s' : Ledger}

theorem Opening.kept (h : Opening cfg s) : Kept cfg s where
  orders := h.orders
  fills f hf := by rw [h.fills] at hf; exact absurd hf List.not_mem_nil
  positions symbol := by
    rw [h.positions, Ledger.arrivals, h.fills]
    rfl

theorem Ledger.arrivals_congr (h : s'.fills = s.fills) (symbol : Symbol) :
    s'.arrivals symbol = s.arrivals symbol := by
  rw [Ledger.arrivals, Ledger.arrivals, h]

theorem Kept.replaced {o o' : Order} (hk : Kept cfg s) (hr : s.Replaced s' o o') : Kept cfg s' where
  orders x hx := by
    rcases hr.mem_iff.1 hx with rfl | ⟨hx, -⟩
    · rw [hr.same.bot]
      exact hk.orders o hr.mem
    · exact hk.orders x hx
  fills f hf := by
    rw [hr.fills] at hf
    obtain ⟨x, hx, hid⟩ := hk.fills f hf
    by_cases hxo : x.id = o.id
    · exact ⟨o', hr.mem_new, hr.same.id.trans (hxo.symm.trans hid)⟩
    · exact ⟨x, hr.mem_iff.2 (.inr ⟨hx, hxo⟩), hid⟩
  positions symbol := by
    rw [Ledger.getPosition_congr hr.positions, Ledger.arrivals_congr hr.fills]
    exact hk.positions symbol

theorem Kept.placed {intent : OrderIntent} {o : Order} (hk : Kept cfg s)
    (h : Placed cfg s s' intent o) : Kept cfg s' := by
  obtain ⟨rules, now, o₀, hmark, rfl⟩ := h.row
  cases hmark
  have hf : s'.fills = s.fills := (congrArg Ledger.fills h.rest :)
  have hp : s'.positions = s.positions := (congrArg Ledger.positions h.rest :)
  refine ⟨fun x hx => ?_, fun f hf' => ?_, fun symbol => ?_⟩
  · rw [h.rows] at hx
    rcases List.mem_append.1 hx with hx | hx
    · exact hk.orders x hx
    · obtain rfl := List.mem_singleton.1 hx
      rfl
  · rw [hf] at hf'
    obtain ⟨x, hx, hid⟩ := hk.fills f hf'
    exact ⟨x, h.rows ▸ List.mem_append_left _ hx, hid⟩
  · rw [Ledger.getPosition_congr hp, Ledger.arrivals_congr hf]
    exact hk.positions symbol

/-- A recorded fill is the last arrival of its symbol, and the position has taken it. -/
theorem Kept.filled {o : Order} {xf : ExchangeFill} {f : Fill} (hk : Kept cfg s)
    (h : Filled cfg s s' o xf f) : Kept cfg s' := by
  obtain ⟨t, hrow⟩ := h.row
  have hmem := findOrder_mem h.find
  have horders : s'.orders = s.orders := (congrArg Ledger.orders h.rest :)
  refine ⟨by rw [horders]; exact hk.orders, fun g hg => ?_, fun symbol => ?_⟩
  · rw [horders]
    rw [h.rows] at hg
    rcases List.mem_append.1 hg with hg | hg
    · exact hk.fills g hg
    · obtain rfl := List.mem_singleton.1 hg
      exact ⟨o, hmem, by rw [hrow]; rfl⟩
  · obtain ⟨now, hpos⟩ := h.positions
    obtain ⟨hkb, hks⟩ := applyFillToPosition_key (s.getPosition cfg.bot f.symbol) f
    obtain ⟨hgb, hgs⟩ := Ledger.getPosition_key s cfg.bot f.symbol
    rw [Ledger.arrivals, h.rows, List.filter_append, List.foldl_append]
    by_cases hsym : f.symbol = symbol
    · rw [Ledger.getPosition_upsert_self hpos (hkb.trans hgb) ((hks.trans hgs).trans hsym)]
      have hcore := core_applyFill (s.getPosition cfg.bot f.symbol) f
      rw [hk.positions f.symbol, hsym] at hcore
      simp only [hsym, decide_true, List.filter_cons_of_pos, List.filter_nil, List.foldl_cons,
        List.foldl_nil]
      exact hcore
    · rw [Ledger.getPosition_upsert_of_ne (by simp [hks, hgs, hsym]) hpos, hk.positions]
      simp only [hsym, decide_false, Bool.false_eq_true, not_false_eq_true,
        List.filter_cons_of_neg, List.filter_nil, List.foldl_nil]
      rfl

/-- A position saved with its core unchanged. -/
theorem Kept.positioned {p : Position} {symbol : Symbol} (hk : Kept cfg s)
    (h : Positioned s s' p) (hbot : p.bot = cfg.bot) (hsymbol : p.symbol = symbol)
    (hcore : p.core = (s.getPosition cfg.bot symbol).core) : Kept cfg s' := by
  have ho : s'.orders = s.orders := (congrArg Ledger.orders h.rest :)
  have hf : s'.fills = s.fills := (congrArg Ledger.fills h.rest :)
  refine ⟨by rw [ho]; exact hk.orders, by rw [ho, hf]; exact hk.fills, fun t => ?_⟩
  rw [Ledger.arrivals_congr hf, ← hk.positions t]
  by_cases ht : p.symbol = t
  · rw [Ledger.getPosition_upsert_self h.positions hbot ht, hcore, ← hsymbol, ht]
  · rw [Ledger.getPosition_upsert_of_ne (fun hh => ht hh.2) h.positions]

theorem Kept.step {e : BookEvent} (hk : Kept cfg s) (h : BookStep cfg s e s') : Kept cfg s' := by
  cases h with
  | ingestFill h =>
    rcases ingestFillTx_cases h with ⟨-, rfl⟩ | ⟨o, -, ⟨rfl, -⟩ | ⟨f, -, hf⟩⟩
    · exact hk
    · exact hk
    · exact hk.filled hf
  | applyReport h =>
    rcases applyReportTx_cases h with ⟨-, -, rfl⟩ | ⟨o, -, ⟨_, -, -, rfl⟩ | ⟨-, -, rfl⟩ |
      ⟨o₁, -, -, hr⟩⟩
    · exact hk
    · exact hk
    · exact hk
    · exact hk.replaced hr
  | persist ho h =>
    rcases persistTx_cases ho h with ⟨-, rfl, -⟩ | ⟨o, -, hp⟩
    · exact hk
    · exact hk.placed hp
  | @mark symbol price now p s' h =>
    obtain ⟨_, _, hget, h⟩ := Tx.bind_ok.1 h
    cases hget
    obtain ⟨rfl, hpos, hrest⟩ := Store.savePosition_ok h
    obtain ⟨hb, hs⟩ := Ledger.getPosition_key s cfg.bot symbol
    exact hk.positioned ⟨hpos, hrest⟩ hb hs rfl
  | @setStop symbol price now p s' h =>
    obtain ⟨_, _, hget, h⟩ := Tx.bind_ok.1 h
    cases hget
    obtain ⟨rfl, hpos, hrest⟩ := Store.savePosition_ok h
    obtain ⟨hb, hs⟩ := Ledger.getPosition_key s cfg.bot symbol
    exact hk.positioned ⟨hpos, hrest⟩ hb hs rfl

theorem Opening.kept_of_run {ok : Ledger → BookEvent → Prop} (h₀ : Opening cfg s)
    (hrun : BookRun cfg ok s s') : Kept cfg s' :=
  hrun.invariant (fun hk _ h => hk.step h) h₀.kept

/-- The store's fills of the bot are the arrivals in order of execution. -/
theorem Kept.fillsOf (hk : Kept cfg s) (symbol : Symbol) :
    s.fillsOf cfg.bot symbol =
      (s.arrivals symbol).insertionSort fun a b => a.executionTime ≤ b.executionTime := by
  unfold Ledger.fillsOf Ledger.arrivals
  congr 1
  refine List.filter_congr fun f hf => ?_
  obtain ⟨o, ho, hid⟩ := hk.fills f hf
  rw [List.any_eq_true.2 ⟨o, ho, decide_eq_true ⟨hid, hk.orders o ho⟩⟩, Bool.and_true]

/-! ## Execution order -/

/-- An execution that is not recorded yet is not older than the recorded ones of its symbol. -/
def InOrder (cfg : Config) (s : Ledger) : BookEvent → Prop
  | .ingestFill xf now =>
    ∀ f ∈ newFill cfg s xf now, ∀ g ∈ s.arrivals f.symbol, g.executionTime ≤ f.executionTime
  | _ => True

instance (cfg : Config) (s : Ledger) (xf : ExchangeFill) (now : Time) :
    Decidable (InOrder cfg s (.ingestFill xf now)) :=
  inferInstanceAs (Decidable (∀ f ∈ newFill cfg s xf now, ∀ g ∈ s.arrivals f.symbol, _ ≤ _))

theorem newFill_of_filled {o : Order} {xf : ExchangeFill} {now : Time}
    (hfind : findOrder cfg s (xf.clientOrderId.filter (· ≠ "")) xf.exchangeOrderId = some o)
    (hfresh : ∀ g ∈ s.fills.rows, Fill.Compatible g
      { fillOf o xf now with id := Store.nextId (s.fills.rows.map (·.id)) }) :
    newFill cfg s xf now =
      some { fillOf o xf now with id := Store.nextId (s.fills.rows.map (·.id)) } := by
  unfold newFill
  rw [hfind, Option.bind_some, if_pos hfresh]

/-- A step records a fill that the execution makes new, or leaves the fills alone. -/
theorem BookStep.fills_cases {e : BookEvent} (h : BookStep cfg s e s') :
    s'.fills = s.fills ∨ ∃ xf now f, e = .ingestFill xf now ∧ newFill cfg s xf now = some f ∧
      s'.fills.rows = s.fills.rows ++ [f] := by
  cases h with
  | @ingestFill xf now b s' h =>
    rcases ingestFillTx_cases h with ⟨-, rfl⟩ | ⟨o, hfind, ⟨rfl, -⟩ | ⟨f, hrow, hf⟩⟩
    · exact .inl rfl
    · exact .inl rfl
    · refine .inr ⟨xf, now, f, rfl, ?_, hf.rows⟩
      rw [hrow]
      exact newFill_of_filled hfind (hrow ▸ hf.fresh)
  | applyReport h =>
    rcases applyReportTx_cases h with ⟨-, -, rfl⟩ | ⟨o, -, ⟨_, -, -, rfl⟩ | ⟨-, -, rfl⟩ |
      ⟨o₁, -, -, hr⟩⟩
    · exact .inl rfl
    · exact .inl rfl
    · exact .inl rfl
    · exact .inl hr.fills
  | persist ho h =>
    rcases persistTx_cases ho h with ⟨-, rfl, -⟩ | ⟨o, -, hp⟩
    · exact .inl rfl
    · exact .inl (congrArg Ledger.fills hp.rest :)
  | mark h => cases h; exact .inl rfl
  | setStop h => cases h; exact .inl rfl

/-- Executions that are recorded in order arrive in order. -/
theorem arrivals_sorted_step {e : BookEvent} (hok : InOrder cfg s e) (h : BookStep cfg s e s')
    (hs : ∀ symbol, (s.arrivals symbol).Pairwise fun a b => a.executionTime ≤ b.executionTime) :
    ∀ symbol, (s'.arrivals symbol).Pairwise fun a b => a.executionTime ≤ b.executionTime := by
  intro symbol
  rcases h.fills_cases with hf | ⟨xf, now, f, rfl, hnew, hrows⟩
  · rw [Ledger.arrivals_congr hf]
    exact hs symbol
  · have hlast : ∀ g ∈ s.arrivals f.symbol, g.executionTime ≤ f.executionTime := hok f hnew
    rw [Ledger.arrivals, hrows, List.filter_append]
    refine List.pairwise_append.2 ⟨hs symbol, ?_, fun g hg x hx => ?_⟩
    · exact (List.pairwise_singleton _ f).filter _
    · obtain ⟨hx, hsym⟩ := List.mem_filter.1 hx
      obtain rfl := List.mem_singleton.1 hx
      rw [← of_decide_eq_true hsym] at hg
      exact hlast g hg

/-- When every execution is recorded in the order in which it happened, the stored position is
always what a rebuild computes from the recorded fills. -/
theorem position_eq_rebuilt {s₀ : Ledger} (h₀ : Opening cfg s₀)
    (hrun : BookRun cfg (InOrder cfg) s₀ s) (symbol : Symbol) :
    (s.getPosition cfg.bot symbol).core =
      (PositionService.rebuilt (s.getPosition cfg.bot symbol) cfg.bot symbol
        (s.fillsOf cfg.bot symbol)).1.core := by
  have hk : Kept cfg s := h₀.kept_of_run hrun
  have hsorted : ∀ symbol,
      (s.arrivals symbol).Pairwise fun a b => a.executionTime ≤ b.executionTime := by
    refine hrun.invariant (I := fun s : Ledger => ∀ symbol,
      (s.arrivals symbol).Pairwise fun a b => a.executionTime ≤ b.executionTime) ?_ ?_
    · exact fun hs hok h => arrivals_sorted_step hok h hs
    · intro symbol
      rw [Ledger.arrivals, h₀.fills]
      exact .nil
  rw [core_rebuilt, hk.fillsOf, (hsorted symbol).insertionSort_eq, hk.positions]

/-! ### A late execution -/

/-- The ledger after ingesting an execution. -/
def ingested (cfg : Config) (s : Ledger) (xf : ExchangeFill) : Ledger :=
  match ingestFillTx cfg xf 0 s with
  | .ok (_, s') => s'
  | .error _ => s

theorem step_ingested (cfg : Config) (s : Ledger) (xf : ExchangeFill) :
    BookStep cfg s (.ingestFill xf 0) (ingested cfg s xf) := by
  have htotal : Tx.Total (ingestFillTx cfg xf 0) := ingestFillTx_total xf 0
  obtain ⟨b, s', h⟩ := htotal s
  rw [ingested, h]
  exact .ingestFill h

/-- A filled BUY and a filled SELL of the sample bot, without their executions. -/
def sampleOrders : Ledger where
  orders := ⟨[sampleRow sampleEntry .buy 1 "4711", sampleRow (sampleExit 0) .sell 2 "4712"],
    by decide +kernel⟩

/-- An execution of one BTC at a price and a second of 2025. -/
def sampleTrade (id : IntentId) (side : OrderSide) (trade : String) (price : ℚ) (second : Int) :
    ExchangeFill :=
  { sampleFill id side trade 1 with
    price, quoteQuantity := price, executionTimeMs := (1735689600 + second) * 1000 }

/-- The position after two purchases and the sale between them, which arrives last. -/
def lateSale : Ledger :=
  ingested sampleConfig (ingested sampleConfig (ingested sampleConfig sampleOrders
    (sampleTrade sampleEntry .buy "1" 100 1)) (sampleTrade sampleEntry .buy "3" 200 3))
    (sampleTrade (sampleExit 0) .sell "2" 150 2)

/-- The sale is booked against the average of both purchases; the rebuild closes the position
before the second one. -/
theorem late_sale_differs :
    Opening sampleConfig sampleOrders ∧
    BookRun sampleConfig (fun _ _ => True) sampleOrders lateSale ∧
    (lateSale.getPosition "default" ⟨"BTC", "USDT"⟩).core ≠
      (PositionService.rebuilt (lateSale.getPosition "default" ⟨"BTC", "USDT"⟩) "default"
        ⟨"BTC", "USDT"⟩ (lateSale.fillsOf "default" ⟨"BTC", "USDT"⟩)).1.core := by
  refine ⟨⟨by decide +kernel, rfl, fun _ => rfl⟩, ?_, by decide +kernel⟩
  exact ((Runs.refl.tail trivial (step_ingested _ _ _)).tail trivial (step_ingested _ _ _)).tail
    trivial (step_ingested _ _ _)

/-- The same executions, recorded as they happened. -/
def saleInOrder : Ledger :=
  ingested sampleConfig (ingested sampleConfig (ingested sampleConfig sampleOrders
    (sampleTrade sampleEntry .buy "1" 100 1)) (sampleTrade (sampleExit 0) .sell "2" 150 2))
    (sampleTrade sampleEntry .buy "3" 200 3)

theorem sale_in_order_agrees :
    (PositionService.rebuilt (saleInOrder.getPosition "default" ⟨"BTC", "USDT"⟩) "default"
      ⟨"BTC", "USDT"⟩ (saleInOrder.fillsOf "default" ⟨"BTC", "USDT"⟩)).1.core =
        ⟨1, 200, 50, some 1735689603000000⟩ := by
  have hrun : BookRun sampleConfig (InOrder sampleConfig) sampleOrders saleInOrder :=
    ((Runs.refl.tail (by decide +kernel) (step_ingested _ _ _)).tail (by decide +kernel)
      (step_ingested _ _ _)).tail (by decide +kernel) (step_ingested _ _ _)
  have hopening : Opening sampleConfig sampleOrders := ⟨by decide +kernel, rfl, fun _ => rfl⟩
  exact (position_eq_rebuilt hopening hrun ⟨"BTC", "USDT"⟩).symm.trans (by decide +kernel)

end CryptoBot
