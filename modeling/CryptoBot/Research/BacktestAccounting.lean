import CryptoBot.Research.BacktestLaws

/-!
# The backtester's books

In exact arithmetic, at every step of a run: the quantity is not negative, and neither is the cash
while a fee is at most what it is charged on; trades follow one another without overlap; the fees paid
are those of all entries and exits; and the cash, with what the open position has cost, is the initial
balance and the results of the trades.
-/

namespace CryptoBot

namespace Backtest

variable {cfg : BTConfig ℚ} {b : Book ℚ} {i : Nat}

/-- The fees of a trade, on what was paid for it and on what it brought. -/
def Trade.fees (cfg : BTConfig ℚ) (t : Trade ℚ) : ℚ :=
  t.qty * t.entryPrice * cfg.feeRate + t.qty * t.exitPrice * cfg.feeRate

/-- The fee of the open position. -/
def Book.openFee (b : Book ℚ) : ℚ := if 0 < b.qty then b.entryFee else 0

/-- What the open position has cost. -/
def Book.cost (b : Book ℚ) : ℚ := if 0 < b.qty then b.qty * b.entryPx + b.entryFee else 0

/-- Nothing is owed and nothing is sold short. -/
structure Solvent (cfg : BTConfig ℚ) (b : Book ℚ) : Prop where
  qty : 0 ≤ b.qty
  cash : cfg.feeRate ≤ 1 → 0 ≤ b.cash

/-- The books before bar `i`. -/
structure Balanced (cfg : BTConfig ℚ) (i : Nat) (b : Book ℚ) : Prop extends Solvent cfg b where
  entryFee : 0 < b.qty → b.entryFee = b.qty * b.entryPx * cfg.feeRate
  entered : 0 < b.qty → b.entryI < i ∧ ∀ t ∈ b.trades, t.exitBar < b.entryI
  left : ∀ t ∈ b.trades, t.entryBar ≤ t.exitBar ∧ t.exitBar < i
  disjoint : b.trades.Pairwise fun t t' => t.exitBar < t'.entryBar
  fees : b.feesPaid = (b.trades.map (Trade.fees cfg)).sum + b.openFee
  value : b.cash + b.cost = cfg.initial + (b.trades.map (·.pnl)).sum

/-- The costs of a run: no negative balance or fee, and a slippage of less than the price. -/
structure Charged (cfg : BTConfig ℚ) : Prop where
  initial : 0 ≤ cfg.initial
  feeRate : 0 ≤ cfg.feeRate
  slip : -1 < cfg.slip ∧ cfg.slip < 1

/-- A candle at positive prices. -/
structure Priced (c : Candle ℚ) : Prop where
  open_ : 0 < c.open_
  high : 0 < c.high
  low : 0 < c.low
  close : 0 < c.close

/-! ## Each step keeps the books -/

namespace Balanced

theorem start (hcfg : Charged cfg) : Balanced cfg 0 (Book.start cfg) where
  qty := le_refl 0
  cash _ := hcfg.initial
  entryFee h := absurd h (lt_irrefl 0)
  entered h := absurd h (lt_irrefl 0)
  left t ht := by cases ht
  disjoint := .nil
  fees := by simp [Book.start, Book.openFee]
  value := by simp [Book.start, Book.cost]

theorem mono {j : Nat} (h : Balanced cfg i b) (hij : i ≤ j) : Balanced cfg j b :=
  { h with
    entered := fun hq => ⟨Nat.lt_of_lt_of_le (h.entered hq).1 hij, (h.entered hq).2⟩
    left := fun t ht => ⟨(h.left t ht).1, Nat.lt_of_lt_of_le (h.left t ht).2 hij⟩ }

theorem newDay {c : Candle ℚ} (h : Balanced cfg i b) : Balanced cfg i (newDay c b) := by
  unfold Backtest.newDay
  split
  · exact ⟨⟨h.qty, h.cash⟩, h.entryFee, h.entered, h.left, h.disjoint, h.fees, h.value⟩
  · exact h

theorem mark {c : Candle ℚ} (h : Balanced cfg i b) : Balanced cfg i (mark cfg c b) :=
  ⟨⟨h.qty, h.cash⟩, h.entryFee, h.entered, h.left, h.disjoint, h.fees, h.value⟩

/-- A position that is closed on the bar it was entered on, or later. -/
theorem closePosition {time : Time} {rawPx : ℚ} {reason : ExitReason} (hcfg : Charged cfg)
    (h : Balanced cfg (i + 1) b) (hq : 0 < b.qty) (hpx : 0 ≤ rawPx) :
    Balanced cfg (i + 1) (closePosition cfg i time rawPx reason b) := by
  have hprice : 0 ≤ rawPx * (1 - cfg.slip) := mul_nonneg hpx (by linarith [hcfg.slip.2])
  have hproceeds : 0 ≤ b.qty * (rawPx * (1 - cfg.slip)) := mul_nonneg hq.le hprice
  obtain ⟨hentry, hexits⟩ := h.entered hq
  refine ⟨⟨le_refl 0, fun hfee => ?_⟩, fun h0 => absurd h0 (lt_irrefl 0),
    fun h0 => absurd h0 (lt_irrefl 0), fun t ht => ?_, ?_, ?_, ?_⟩
  · have hkept : b.qty * (rawPx * (1 - cfg.slip)) * cfg.feeRate ≤
        b.qty * (rawPx * (1 - cfg.slip)) := mul_le_of_le_one_right hproceeds hfee
    show 0 ≤ b.cash + (b.qty * (rawPx * (1 - cfg.slip)) -
      b.qty * (rawPx * (1 - cfg.slip)) * cfg.feeRate)
    linarith [h.cash hfee]
  · rcases List.mem_append.1 ht with ht | ht
    · exact h.left t ht
    · obtain rfl := List.mem_singleton.1 ht
      exact ⟨Nat.lt_succ_iff.1 hentry, Nat.lt_succ_self i⟩
  · refine List.pairwise_append.2 ⟨h.disjoint, List.pairwise_singleton _ _, fun t ht t' ht' => ?_⟩
    obtain rfl := List.mem_singleton.1 ht'
    exact hexits t ht
  · have hfees := h.fees
    simp only [Book.openFee, if_pos hq, h.entryFee hq] at hfees
    simp only [Backtest.closePosition, Book.openFee, lt_irrefl, if_false, List.map_append,
      List.sum_append, List.map_singleton, List.sum_singleton, Trade.fees, hfees]
    ring
  · have hvalue := h.value
    simp only [Book.cost, if_pos hq] at hvalue
    simp only [Backtest.closePosition, Book.cost, lt_irrefl, if_false, List.map_append,
      List.sum_append, List.map_singleton, List.sum_singleton]
    linarith

end Balanced

/-- What an entry spends leaves enough for its fee. -/
theorem notional_le {cash px : ℚ} : notional cfg cash px ≤ cash / (1 + cfg.feeRate) := by
  unfold notional
  split
  · exact min_le_right _ _
  · exact le_refl _

namespace Balanced

theorem enter {c : Candle ℚ} (hcfg : Charged cfg) (h : Balanced cfg i b) (hq : b.qty = 0)
    (hopen : 0 < c.open_) : Balanced cfg (i + 1) (enter cfg i c b) := by
  unfold Backtest.enter
  dsimp only
  split
  swap
  · exact h.mono (Nat.le_succ i)
  next hspent =>
  obtain ⟨spent, hspent_eq⟩ : ∃ x, x = notional cfg b.cash (c.open_ * (1 + cfg.slip)) := ⟨_, rfl⟩
  rw [← hspent_eq] at hspent ⊢
  have hpx : 0 < c.open_ * (1 + cfg.slip) := mul_pos hopen (by linarith [hcfg.slip.1])
  have hqty : 0 < spent / (c.open_ * (1 + cfg.slip)) := div_pos hspent hpx
  have hback : spent / (c.open_ * (1 + cfg.slip)) * (c.open_ * (1 + cfg.slip)) = spent :=
    div_mul_cancel₀ spent hpx.ne'
  have hfeeRate := hcfg.feeRate
  have hafford : spent * (1 + cfg.feeRate) ≤ b.cash := by
    rw [← le_div_iff₀ (by linarith), hspent_eq]
    exact notional_le
  have hcost := h.value
  have hfees := h.fees
  simp only [Book.cost, Book.openFee, hq, lt_irrefl, if_false] at hcost hfees
  refine ⟨⟨hqty.le, fun _ => ?_⟩, fun _ => ?_, fun _ => ⟨Nat.lt_succ_self i, fun t ht => ?_⟩,
    fun t ht => ?_, h.disjoint, ?_, ?_⟩
  · show 0 ≤ b.cash - (spent + spent * cfg.feeRate)
    linarith
  · show spent * cfg.feeRate = _
    rw [hback]
  · exact (h.left t ht).2
  · exact ⟨(h.left t ht).1, Nat.lt_succ_of_lt (h.left t ht).2⟩
  · simp only [Book.openFee, if_pos hqty]
    rw [hfees]
    ring
  · simp only [Book.cost, if_pos hqty, hback]
    linarith

theorem act {s : ℚ} {c : Candle ℚ} (hcfg : Charged cfg) (h : Balanced cfg i b)
    (hopen : 0 < c.open_) : Balanced cfg (i + 1) (act cfg i s c b) := by
  unfold Backtest.act
  split
  · next hclose => exact (h.mono (Nat.le_succ i)).closePosition hcfg hclose.1 hopen.le
  · split
    · next henter => exact h.enter hcfg (by simpa using henter.1) hopen
    · exact h.mono (Nat.le_succ i)

theorem opening {signal : Option ℚ} {c : Candle ℚ} (hcfg : Charged cfg) (h : Balanced cfg i b)
    (hc : Priced c) : Balanced cfg (i + 1) (opening cfg i signal c b) := by
  cases signal with
  | none => exact h.newDay.mono (Nat.le_succ i)
  | some s => exact h.newDay.act hcfg hc.open_

theorem stopOut {c : Candle ℚ} (hcfg : Charged cfg) (h : Balanced cfg (i + 1) b) (hc : Priced c) :
    Balanced cfg (i + 1) (stopOut cfg i c b) := by
  unfold Backtest.stopOut
  split
  · next stopPx _ =>
    split
    · next hstop =>
      have hpx : 0 ≤ min stopPx c.open_ := le_min (hc.low.le.trans hstop.2) hc.open_.le
      exact h.closePosition hcfg hstop.1 hpx
    · exact h
  · exact h

end Balanced

/-! ## Every step of a run -/

/-- `P` holds at every step of a run: before each bar, after its open and after its stop, and when
the last bar has closed. -/
def Throughout (cfg : BTConfig ℚ) (P : Book ℚ → Prop) :
    Nat → Option ℚ → List (Candle ℚ × ℚ) → Book ℚ → Prop
  | _, _, [], b => P b
  | i, signal, (c, s) :: bars, b =>
    P b ∧ P (opening cfg i signal c b) ∧ P (stopOut cfg i c (opening cfg i signal c b)) ∧
      Throughout cfg P (i + 1) (some s) bars (bar cfg i signal c b)

theorem balanced_loop {signal : Option ℚ} {bars : List (Candle ℚ × ℚ)} (hcfg : Charged cfg)
    (hbars : ∀ x ∈ bars, Priced x.1) (h : Balanced cfg i b) :
    Throughout cfg (Solvent cfg) i signal bars b ∧
      Balanced cfg (i + bars.length) (loop cfg i signal bars b) := by
  induction bars generalizing i signal b with
  | nil => exact ⟨h.toSolvent, h⟩
  | cons x bars ih =>
    obtain ⟨c, s⟩ := x
    have hc : Priced c := hbars _ (.head _)
    have hopening : Balanced cfg (i + 1) (opening cfg i signal c b) := h.opening hcfg hc
    have hstop : Balanced cfg (i + 1) (stopOut cfg i c (opening cfg i signal c b)) :=
      hopening.stopOut hcfg hc
    have hmark : Balanced cfg (i + 1) (bar cfg i signal c b) := hstop.mark
    obtain ⟨hsteps, hend⟩ : Throughout cfg (Solvent cfg) (i + 1) (some s) bars _ ∧ _ :=
      ih (fun x hx => hbars x (.tail _ hx)) hmark
    refine ⟨⟨h.toSolvent, hopening.toSolvent, hstop.toSolvent, hsteps⟩, ?_⟩
    rw [List.length_cons, Nat.add_comm bars.length 1, ← Nat.add_assoc]
    exact hend

/-- The equity marked on the last bar is the value of the book at its close. -/
theorem getLast?_equity {signal : Option ℚ} {bars : List (Candle ℚ × ℚ)} {c : Candle ℚ} {s : ℚ}
    (hbars : bars.getLast? = some (c, s)) :
    (loop cfg i signal bars b).equity.getLast? =
      some ((loop cfg i signal bars b).cash + (loop cfg i signal bars b).qty * c.close) := by
  obtain ⟨bars, rfl⟩ : ∃ l, bars = l ++ [(c, s)] := List.getLast?_eq_some_iff.1 hbars
  rw [loop_append]
  exact List.getLast?_concat

/-- What is settled is closed, and its last equity is its cash. -/
theorem settled {bars : List (Candle ℚ × ℚ)} (hcfg : Charged cfg) (hbars : ∀ x ∈ bars, Priced x.1)
    (hb : Balanced cfg bars.length (lastBook cfg bars)) :
    Balanced cfg bars.length (settle cfg bars (lastBook cfg bars)) ∧
      (settle cfg bars (lastBook cfg bars)).qty = 0 ∧
      (settle cfg bars (lastBook cfg bars)).equity.getLast?.getD cfg.initial =
        (settle cfg bars (lastBook cfg bars)).cash := by
  unfold settle
  split
  · next c s hlast =>
    have hne : bars.length ≠ 0 := by
      rintro hzero
      rw [List.length_eq_zero_iff.1 hzero] at hlast
      cases hlast
    have hc : Priced c := hbars _ (List.mem_of_getLast? hlast)
    split
    · next hopen =>
      have hclosed : Balanced cfg bars.length (closePosition cfg (bars.length - 1) c.timestamp c.close
          .end_ (lastBook cfg bars)) := by
        have hsucc : bars.length - 1 + 1 = bars.length := Nat.succ_pred hne
        rw [← hsucc] at hb ⊢
        exact hb.closePosition hcfg hopen hc.close.le
      refine ⟨⟨⟨hclosed.qty, hclosed.cash⟩, hclosed.entryFee, hclosed.entered, hclosed.left,
        hclosed.disjoint, hclosed.fees, hclosed.value⟩, rfl, ?_⟩
      dsimp only
      rw [List.getLast?_concat, Option.getD_some]
    · next hopen =>
      have hzero : (lastBook cfg bars).qty = 0 := le_antisymm (not_lt.1 hopen) hb.qty
      refine ⟨hb, hzero, ?_⟩
      have hequity : (lastBook cfg bars).equity.getLast? =
          some ((lastBook cfg bars).cash + (lastBook cfg bars).qty * c.close) :=
        getLast?_equity hlast
      rw [hequity, hzero, zero_mul, add_zero, Option.getD_some]
  · next hnone =>
    obtain rfl : bars = [] := by simpa using hnone
    exact ⟨hb, rfl, rfl⟩

theorem finalEquity_metrics {lib : NumberLib ℚ} {equity : List ℚ} {trades : List (Trade ℚ)}
    {feesPaid : ℚ} : (metrics cfg lib equity trades feesPaid).finalEquity =
      equity.getLast?.getD cfg.initial := by
  cases equity with
  | nil => rfl
  | cons x xs =>
    rw [List.getLast?_eq_some_getLast (List.cons_ne_nil x xs)]
    simp only [metrics, List.getLast?_eq_some_getLast (List.cons_ne_nil x xs), Option.getD_some]

theorem feesPaid_metrics {lib : NumberLib ℚ} {equity : List ℚ} {trades : List (Trade ℚ)}
    {feesPaid : ℚ} (hnil : equity = [] → feesPaid = 0) :
    (metrics cfg lib equity trades feesPaid).feesPaid = feesPaid := by
  cases equity with
  | nil => exact (hnil rfl).symm
  | cons x xs => simp only [metrics, List.getLast?_eq_some_getLast (List.cons_ne_nil x xs)]

theorem priced_aligned {df : List (Candle ℚ)} {signals : List (Option ℚ)}
    (hdf : ∀ c ∈ df, Priced c) : ∀ x ∈ aligned df signals, Priced x.1 :=
  fun _ hx => hdf _ (List.of_mem_zip hx).1

/-- The backtester keeps its books: it owes nothing and sells nothing short at any step, as long as no
fee is above what it is charged on; its trades follow one another; it has paid the fees of all entries
and exits; and it ends with the initial balance and the results of its trades. -/
theorem bookkeeping (hcfg : Charged cfg) (lib : NumberLib ℚ) {df : List (Candle ℚ)}
    (signals : List (Option ℚ)) (hdf : ∀ c ∈ df, Priced c) :
    Throughout cfg (Solvent cfg) 0 none (aligned df signals) (Book.start cfg) ∧
    Solvent cfg (settle cfg (aligned df signals) (lastBook cfg (aligned df signals))) ∧
    ((run cfg lib df signals).trades.Pairwise fun t t' => t.exitBar < t'.entryBar) ∧
    (∀ t ∈ (run cfg lib df signals).trades, t.entryBar ≤ t.exitBar ∧ t.exitBar < df.length) ∧
    (run cfg lib df signals).metrics.feesPaid =
      ((run cfg lib df signals).trades.map (Trade.fees cfg)).sum ∧
    (run cfg lib df signals).metrics.finalEquity =
      cfg.initial + ((run cfg lib df signals).trades.map (·.pnl)).sum := by
  have hbars : ∀ x ∈ aligned df signals, Priced x.1 := priced_aligned hdf
  obtain ⟨hsteps, hend⟩ : Throughout cfg (Solvent cfg) 0 none (aligned df signals) _ ∧ _ :=
    balanced_loop hcfg hbars (Balanced.start hcfg)
  rw [Nat.zero_add] at hend
  obtain ⟨hb, hq, hequity⟩ := settled hcfg hbars hend
  have hopenFee : (settle cfg (aligned df signals) (lastBook cfg (aligned df signals))).openFee = 0 :=
    if_neg (by rw [hq]; exact lt_irrefl 0)
  have hcost : (settle cfg (aligned df signals) (lastBook cfg (aligned df signals))).cost = 0 :=
    if_neg (by rw [hq]; exact lt_irrefl 0)
  have hfees := hb.fees
  have hvalue := hb.value
  rw [hopenFee, add_zero] at hfees
  rw [hcost, add_zero] at hvalue
  refine ⟨hsteps, hb.toSolvent, hb.disjoint, fun t ht => ⟨(hb.left t ht).1, ?_⟩, ?_, ?_⟩
  · refine (hb.left t ht).2.trans_le ?_
    rw [aligned, List.length_zip]
    exact Nat.min_le_left _ _
  · refine (feesPaid_metrics fun hnil => ?_).trans hfees
    cases hlast : (aligned df signals).getLast? with
    | none =>
      unfold settle
      rw [hlast]
      obtain hnil : aligned df signals = [] := by simpa using hlast
      rw [hnil]
      rfl
    | some x =>
      have hmarked : (lastBook cfg (aligned df signals)).equity.getLast? = some _ :=
        getLast?_equity hlast
      unfold settle at hnil
      rw [hlast] at hnil
      dsimp only at hnil
      split at hnil
      · simp at hnil
      · rw [hnil] at hmarked
        cases hmarked
  · exact (finalEquity_metrics.trans hequity).trans hvalue

/-- With a fee of twice the amount, what a sale brings is less than its fee; with a slippage of twice
the price, what is bought is a negative quantity. -/
theorem overcharged_run :
    (lastBook { freeCosts with feeRate := 2 }
      (aligned (flatFrame [100, 100, 100]) [some 1, some (-1), none])).cash = -1000 / 3 ∧
    (lastBook { freeCosts with slippageBps := -20000 }
      (aligned (flatFrame [100, 100]) [some 1, none])).qty = -10 := by
  decide +kernel

theorem bookkeeping_three :
    (run freeCosts sampleLib (flatFrame [100, 110, 90]) [some 1, some (-1), none]).metrics.finalEquity =
      1000 + ((run freeCosts sampleLib (flatFrame [100, 110, 90])
        [some 1, some (-1), none]).trades.map (·.pnl)).sum := by
  have hcfg : Charged freeCosts := ⟨by decide +kernel, by decide +kernel, by decide +kernel⟩
  have hdf : ∀ c ∈ flatFrame [100, 110, 90], Priced c := by
    intro c hc
    have hprices : c.open_ ∈ [(100 : ℚ), 110, 90] ∧ c.high = c.open_ ∧ c.low = c.open_ ∧
        c.close = c.open_ := by
      revert c
      decide +kernel
    obtain ⟨hopen, hhigh, hlow, hclose⟩ := hprices
    have hpos : 0 < c.open_ := (by decide +kernel : ∀ x ∈ [(100 : ℚ), 110, 90], 0 < x) _ hopen
    exact ⟨hpos, hhigh ▸ hpos, hlow ▸ hpos, hclose ▸ hpos⟩
  exact (bookkeeping hcfg sampleLib [some 1, some (-1), none] hdf).2.2.2.2.2

end Backtest
end CryptoBot
