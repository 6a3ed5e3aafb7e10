import CryptoBot.Application.Bookkeeping
import Mathlib.Tactic.FieldSimp
import Mathlib.Tactic.Ring

/-!
# The accounting identity

Whatever a position has realized, less what its holding has cost, is what its sales brought in less
what its purchases cost. The cash of a paper account is counted from the same fills on its own, so
cash and position always add up to the starting balance and the profit.
-/

namespace CryptoBot

open Lib

/-- What a fill brings in, or costs, in the quote asset. -/
def Fill.cashFlow (f : Fill) : ℚ := if f.side = .sell then f.proceeds else -f.cost

/-- No fill raises an anomaly, and no SELL delivers more than the tracked quantity. -/
def Regular : Position → List Fill → Prop
  | _, [] => True
  | p, f :: fs => (applyFillToPosition p f).anomalies = [] ∧
      (f.side = .sell → f.delivered ≤ p.quantity) ∧ Regular (applyFillToPosition p f).position fs

instance Regular.decidable : (p : Position) → (fs : List Fill) → Decidable (Regular p fs)
  | _, [] => .isTrue trivial
  | p, f :: fs =>
    have := Regular.decidable (applyFillToPosition p f).position fs
    inferInstanceAs (Decidable (_ ∧ _ ∧ _))

/-- What has been realized, less what the holding has cost. -/
def Core.balance (c : Core) : ℚ := c.realizedPnl - c.quantity * c.averageEntryPrice

/-! ## One fill -/

/-- A fill without an anomaly is a BUY that receives something or a SELL. -/
theorem side_of_no_anomaly {p : Position} {f : Fill} (h : (applyFillToPosition p f).anomalies = []) :
    (f.side = .buy ∧ 0 < f.received) ∨ f.side = .sell := by
  unfold applyFillToPosition at h
  cases hside : f.side with
  | buy =>
    rw [hside] at h
    dsimp only at h
    split at h
    · cases h
    · next hrec => exact .inl ⟨rfl, not_le.1 hrec⟩
  | sell => exact .inr rfl
  | other text =>
    rw [hside] at h
    cases h

theorem Core.balance_buy {c : Core} {f : Fill} (hside : f.side = .buy) (hrec : 0 < f.received)
    (hc : 0 ≤ c.quantity) :
    (c.apply f).balance = c.balance + f.cashFlow ∧ 0 ≤ (c.apply f).quantity := by
  have hpos : 0 < c.quantity + f.received := by linarith
  simp only [Core.apply, Core.balance, Fill.cashFlow, hside, if_neg (not_le.2 hrec)]
  refine ⟨?_, hpos.le⟩
  rw [mul_div_cancel₀ _ hpos.ne']
  simp only [reduceCtorEq, if_false]
  ring

/-- A SELL of what is tracked; one that takes everything resets the average price. -/
theorem Core.balance_sell {c : Core} {f : Fill} (hside : f.side = .sell)
    (hdel : f.delivered ≤ c.quantity) :
    (c.apply f).balance = c.balance + f.cashFlow ∧ 0 ≤ (c.apply f).quantity := by
  have hnot : ¬ c.quantity + 1 / 1000000000000 < f.delivered := by
    intro h
    linarith
  have hmax : max 0 (c.quantity - f.delivered) = c.quantity - f.delivered :=
    max_eq_right (by linarith)
  simp only [Core.apply, Core.balance, Fill.cashFlow, hside, if_neg hnot, hmax, if_true]
  split
  · next hzero =>
    have hall : c.quantity = f.delivered := by linarith
    refine ⟨?_, le_rfl⟩
    rw [hall]
    ring
  · refine ⟨?_, by linarith⟩
    ring

/-- Every regular sequence of fills moves the balance by its cash flow. -/
theorem balance_replay {p : Position} {fs : List Fill} (hreg : Regular p fs)
    (hp : 0 ≤ p.quantity) :
    (fs.foldl Core.apply p.core).balance = p.core.balance + (fs.map Fill.cashFlow).sum ∧
      0 ≤ (fs.foldl Core.apply p.core).quantity := by
  induction fs generalizing p with
  | nil => exact ⟨(add_zero _).symm, hp⟩
  | cons f fs ih =>
    obtain ⟨hanomaly, hdelivered, hrest⟩ := hreg
    have hstep : (p.core.apply f).balance = p.core.balance + f.cashFlow ∧
        0 ≤ (p.core.apply f).quantity := by
      rcases side_of_no_anomaly hanomaly with ⟨hside, hrec⟩ | hside
      · exact Core.balance_buy hside hrec hp
      · exact Core.balance_sell hside (hdelivered hside)
    rw [← core_applyFill] at hstep
    obtain ⟨hbalance, hquantity⟩ := ih hrest hstep.2
    rw [List.foldl_cons, ← core_applyFill, List.map_cons, List.sum_cons]
    refine ⟨?_, hquantity⟩
    rw [hbalance, hstep.1, add_assoc]

/-! ## Sums over the fills -/

/-- The cash flow of SELL and BUY fills is the proceeds of the ones less the costs of the others. -/
theorem sum_cashFlow {fs : List Fill} (hsides : ∀ f ∈ fs, f.side = .buy ∨ f.side = .sell) :
    (fs.map Fill.cashFlow).sum =
      ((fs.filter fun f => decide (f.side = .sell)).map fun f => f.gross - f.quoteFee).sum -
      ((fs.filter fun f => decide (f.side = .buy)).map fun f => f.gross + f.quoteFee).sum := by
  induction fs with
  | nil => simp
  | cons f fs ih =>
    obtain ⟨hside, hrest⟩ := List.forall_mem_cons.1 hsides
    rw [List.map_cons, List.sum_cons, ih hrest]
    rcases hside with hside | hside
    · simp only [Fill.cashFlow, Fill.cost, hside, List.filter_cons, reduceCtorEq, decide_false,
        decide_true, if_false, if_true, Bool.false_eq_true, List.map_cons, List.sum_cons]
      ring
    · simp only [Fill.cashFlow, Fill.proceeds, hside, List.filter_cons, reduceCtorEq, decide_false,
        decide_true, if_false, if_true, Bool.false_eq_true, List.map_cons, List.sum_cons]
      ring

theorem Regular.sides {p : Position} {fs : List Fill} (h : Regular p fs) :
    ∀ f ∈ fs, f.side = .buy ∨ f.side = .sell := by
  induction fs generalizing p with
  | nil => exact List.forall_mem_nil _
  | cons f fs ih =>
    refine List.forall_mem_cons.2 ⟨?_, ih h.2.2⟩
    exact (side_of_no_anomaly h.1).imp_left And.left

/-- The cash of a paper account is the starting balance and the cash flow of the fills. -/
theorem paperCash_eq (s : Ledger) (start : ℚ) (bot : String) (symbol : Symbol) :
    PositionService.paperCash s start bot symbol =
      start + ((s.fillsOf bot symbol).map Fill.cashFlow).sum := by
  have hsymbol : ∀ f ∈ s.fillsOf bot symbol, f.symbol = symbol := by
    intro f hf
    rw [Ledger.fillsOf, List.mem_insertionSort, List.mem_filter, Bool.and_eq_true] at hf
    exact of_decide_eq_true hf.2.1
  unfold PositionService.paperCash
  generalize s.fillsOf bot symbol = fs at hsymbol
  induction fs generalizing start with
  | nil => exact (add_zero _).symm
  | cons f fs ih =>
    obtain ⟨hf, hrest⟩ := List.forall_mem_cons.1 hsymbol
    rw [List.foldl_cons, ih _ hrest, List.map_cons, List.sum_cons]
    simp only [Fill.cashFlow, Fill.proceeds, Fill.cost, Fill.quoteFee, hf]
    ring

/-! ## The ledger -/

/-- After every run of the books whose fills are regular, the realized P&L less the cost of the
holding is what the sales brought in less what the purchases cost, fees included; and the cash of a
paper account, counted from the fills, adds up with the position to the starting balance and the
profit, at every mark price. -/
theorem accounting_identity {cfg : Config} {s₀ s : Ledger} (h₀ : Opening cfg s₀)
    (hrun : BookRun cfg (fun _ _ => True) s₀ s) {symbol : Symbol}
    (hreg : Regular { bot := cfg.bot, symbol } (s.arrivals symbol)) (start price : ℚ) :
    let p := s.getPosition cfg.bot symbol
    let cash := PositionService.paperCash s start cfg.bot symbol
    p.realizedPnl - p.quantity * p.averageEntryPrice =
      (((s.arrivals symbol).filter fun f => decide (f.side = .sell)).map
        fun f => f.gross - f.quoteFee).sum -
      (((s.arrivals symbol).filter fun f => decide (f.side = .buy)).map
        fun f => f.gross + f.quoteFee).sum ∧
    cash + p.quantity * p.averageEntryPrice = start + p.realizedPnl ∧
    PositionService.equity s cfg.bot symbol cash price =
      start + p.realizedPnl + (p.mark price).unrealizedPnl := by
  intro p cash
  have hk : Kept cfg s := h₀.kept_of_run hrun
  obtain ⟨hbalance, hquantity⟩ := balance_replay hreg le_rfl
  have hcore : p.core = (s.arrivals symbol).foldl Core.apply {} := hk.positions symbol
  have hflow : p.realizedPnl - p.quantity * p.averageEntryPrice =
      ((s.arrivals symbol).map Fill.cashFlow).sum := by
    have h : p.core.balance = 0 - 0 * 0 + ((s.arrivals symbol).map Fill.cashFlow).sum := by
      rw [hcore]
      exact hbalance
    rw [zero_mul, sub_zero, zero_add] at h
    exact h
  have hnonneg : 0 ≤ p.quantity := by
    have h : 0 ≤ p.core.quantity := by
      rw [hcore]
      exact hquantity
    exact h
  have hcash : cash = start + ((s.arrivals symbol).map Fill.cashFlow).sum := by
    have hperm : (s.fillsOf cfg.bot symbol).Perm (s.arrivals symbol) := by
      rw [hk.fillsOf]
      exact List.perm_insertionSort _ _
    rw [← (hperm.map Fill.cashFlow).sum_eq]
    exact paperCash_eq s start cfg.bot symbol
  refine ⟨hflow.trans (sum_cashFlow hreg.sides), by linarith, ?_⟩
  have hequity : PositionService.equity s cfg.bot symbol cash price = cash + p.quantity * price := rfl
  rw [hequity, Position.mark]
  dsimp only
  split
  · linarith
  · next hzero =>
    have hq : p.quantity = 0 := le_antisymm (not_lt.1 hzero) hnonneg
    rw [hq, zero_mul] at hflow
    rw [hq]
    linarith

/-- Two purchases with a sale at a profit between them: the account is worth what it began with,
the 50 realized and the 10 the holding has gained. -/
theorem accounting_identity_sale :
    PositionService.equity saleInOrder "default" ⟨"BTC", "USDT"⟩
      (PositionService.paperCash saleInOrder 1000 "default" ⟨"BTC", "USDT"⟩) 210 =
        1000 + 50 + 10 := by
  have hrun : BookRun sampleConfig (fun _ _ => True) sampleOrders saleInOrder :=
    ((Runs.refl.tail trivial (step_ingested _ _ _)).tail trivial
      (step_ingested _ _ _)).tail trivial (step_ingested _ _ _)
  have hopening : Opening sampleConfig sampleOrders := ⟨by decide +kernel, rfl, fun _ => rfl⟩
  have hreg : Regular { bot := "default", symbol := ⟨"BTC", "USDT"⟩ }
      (saleInOrder.arrivals ⟨"BTC", "USDT"⟩) := by decide +kernel
  exact (accounting_identity hopening hrun hreg 1000 210).2.2.trans (by decide +kernel)

end CryptoBot
