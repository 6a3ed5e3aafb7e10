import CryptoBot.Research.BacktestLaws

/-!
# Where the backtester stops out

A position is stopped out on a candle whose low is at or below its stop, at the stop or, when the
candle opens below it, at the open. Without slippage the stop is that part of the entry price.
-/

namespace CryptoBot

namespace Backtest

variable {cfg : BTConfig ℚ} {df : List (Candle ℚ)} {b : Book ℚ} {i : Nat}

/-- The stop price of an entry without slippage. -/
def stopOf (entryPrice stopPct : ℚ) : ℚ := entryPrice * (1 - stopPct / 100)

/-- A trade that was stopped out on its exit bar. -/
def StoppedOut (cfg : BTConfig ℚ) (df : List (Candle ℚ)) (t : Trade ℚ) : Prop :=
  ∃ pct c, cfg.stop = some pct ∧ df[t.exitBar]? = some c ∧ c.low ≤ stopOf t.entryPrice pct ∧
    t.exitPrice = min (stopOf t.entryPrice pct) c.open_

/-- An open position has the stop of its entry, and the trades closed at a stop were stopped out. -/
structure Stopped (cfg : BTConfig ℚ) (df : List (Candle ℚ)) (b : Book ℚ) : Prop where
  stopPx : 0 < b.qty → b.stopPx = cfg.stop.map (stopOf b.entryPx)
  trades : ∀ t ∈ b.trades, t.reason = .stop → StoppedOut cfg df t

namespace Stopped

theorem start : Stopped cfg df (Book.start cfg) where
  stopPx h := absurd h (lt_irrefl 0)
  trades t ht := by cases ht

theorem newDay {c : Candle ℚ} (h : Stopped cfg df b) : Stopped cfg df (newDay c b) := by
  unfold Backtest.newDay
  split
  · exact ⟨h.stopPx, h.trades⟩
  · exact h

theorem mark {c : Candle ℚ} (h : Stopped cfg df b) : Stopped cfg df (mark cfg c b) :=
  ⟨h.stopPx, h.trades⟩

/-- A position is closed at the stop only when it is stopped out. -/
theorem closePosition {time : Time} {rawPx : ℚ} {reason : ExitReason} (h : Stopped cfg df b)
    (hstop : reason = .stop → ∃ pct c, cfg.stop = some pct ∧ df[i]? = some c ∧
      c.low ≤ stopOf b.entryPx pct ∧ rawPx * (1 - cfg.slip) = min (stopOf b.entryPx pct) c.open_) :
    Stopped cfg df (closePosition cfg i time rawPx reason b) := by
  refine ⟨fun h0 => absurd h0 (lt_irrefl 0), fun t ht hreason => ?_⟩
  rcases List.mem_append.1 ht with ht | ht
  · exact h.trades t ht hreason
  · obtain rfl := List.mem_singleton.1 ht
    exact hstop hreason

theorem act {s : ℚ} {c : Candle ℚ} (h : Stopped cfg df b) :
    Stopped cfg df (act cfg i s c b) := by
  unfold Backtest.act
  split
  · refine h.closePosition fun hreason => ?_
    split at hreason <;> cases hreason
  · split
    · unfold enter
      dsimp only
      split
      · refine ⟨fun _ => ?_, h.trades⟩
        rfl
      · exact h
    · exact h

theorem opening {signal : Option ℚ} {c : Candle ℚ} (h : Stopped cfg df b) :
    Stopped cfg df (opening cfg i signal c b) := by
  unfold Backtest.opening
  split
  · exact h.newDay.act
  · exact h.newDay

theorem stopOut {c : Candle ℚ} (hslip : cfg.slip = 0) (h : Stopped cfg df b)
    (hc : df[i]? = some c) : Stopped cfg df (stopOut cfg i c b) := by
  unfold Backtest.stopOut
  split
  · next stopPx hpx =>
    split
    · next hhit =>
      have hstop := h.stopPx hhit.1
      rw [hpx, eq_comm, Option.map_eq_some_iff] at hstop
      obtain ⟨pct, hpct, rfl⟩ := hstop
      refine h.closePosition fun _ => ⟨pct, c, hpct, hc, hhit.2, ?_⟩
      rw [hslip, sub_zero, mul_one]
    · exact h
  · exact h

theorem bar {signal : Option ℚ} {c : Candle ℚ} (hslip : cfg.slip = 0) (h : Stopped cfg df b)
    (hc : df[i]? = some c) : Stopped cfg df (bar cfg i signal c b) :=
  (h.opening.stopOut hslip hc).mark

theorem loop {signal : Option ℚ} {bars : List (Candle ℚ × ℚ)} (hslip : cfg.slip = 0)
    (h : Stopped cfg df b) (hbars : ∀ k x, bars[k]? = some x → df[i + k]? = some x.1) :
    Stopped cfg df (loop cfg i signal bars b) := by
  induction bars generalizing i signal b with
  | nil => exact h
  | cons x bars ih =>
    refine ih (h.bar hslip (hbars 0 x rfl)) fun k y hy => ?_
    rw [Nat.add_assoc, Nat.add_comm 1 k]
    exact hbars (k + 1) y hy

end Stopped

end Backtest

end CryptoBot
