import CryptoBot.Application.Effects
import CryptoBot.Domain.Instants
import CryptoBot.MarketData.Candles
import Mathlib.Algebra.Order.Floor.Ring
import Mathlib.Data.Rat.Floor

/-!
# The market data service

`MarketDataService.snapshot` of `engine/market_data/fetcher.py`: the candles of a market are fetched
and checked, and the last two of them, the forming one included, are kept for the stop check.
-/

namespace CryptoBot

open Lib

/-- The part of `config` the service reads. -/
structure MarketSettings where
  timeframe : Timeframe
  candleHistoryLimit : Nat := 300
  emaSlow : Nat := 200
  signalOnClosedCandles : Bool := true
  marketDataMaxAgeCandles : ℚ := 2

/-- The rounding of a `timedelta` that is multiplied by a number: to the nearest microsecond, ties
to even. -/
def divideAndRound (q : ℚ) : Time :=
  let rest := q - ⌊q⌋
  if rest < 1 / 2 ∨ rest = 1 / 2 ∧ ⌊q⌋ % 2 = 0 then ⌊q⌋ else ⌊q⌋ + 1

namespace MarketDataService

variable (cfg : MarketSettings)

/-- The frame that the strategy evaluates: without the forming candle, if signals are those of
closed candles. -/
def evaluatedFrame (raw : List (Candle ℚ)) (last : Candle ℚ) (now : Time) : List (Candle ℚ) :=
  if cfg.signalOnClosedCandles ∧ now < last.timestamp + cfg.timeframe.length then raw.dropLast
  else raw

theorem evaluatedFrame_ne_nil {raw : List (Candle ℚ)} (h : 2 ≤ raw.length) (last : Candle ℚ)
    (now : Time) : evaluatedFrame cfg raw last now ≠ [] := by
  refine List.ne_nil_of_length_pos ?_
  unfold evaluatedFrame
  split
  · rw [List.length_dropLast]
    omega
  · omega

/-- `snapshot`, with the clock read as `now` before the fetch. -/
def snapshot (fetched : Except Exn (Option (List (Candle ℚ)))) (now : Time) :
    Except String MarketSnapshot :=
  match fetched with
  | .error e => .error s!"candle fetch failed: {e.typeName}"
  | .ok raw =>
    let raw := raw.getD []
    if h : raw.length < cfg.emaSlow + 5 then .error s!"insufficient candles ({raw.length})"
    else
      let last := raw.getLast (List.ne_nil_of_length_pos (by omega))
      let evaluated := (evaluatedFrame cfg raw last now).getLast
        (evaluatedFrame_ne_nil cfg (by omega) last now)
      let age := now - (evaluated.timestamp + cfg.timeframe.length)
      if divideAndRound (cfg.timeframe.length * cfg.marketDataMaxAgeCandles) < age then
        .error s!"stale market data: evaluated candle closed {age.tdiv 1000000}s ago"
      else .ok {
        candleTs := isoformat evaluated.timestamp
        markPrice := last.close
        signalPrice := evaluated.close
        recentCandles :=
          (lastTwo raw).map fun c => (c.timestamp + cfg.timeframe.length, c.low) }

variable {cfg}

/-- A snapshot is taken of at least two candles, and carries the last two. -/
theorem snapshot_ok {raw : List (Candle ℚ)} {now : Time} {snap : MarketSnapshot}
    (h : snapshot cfg (.ok (some raw)) now = .ok snap) : 2 ≤ raw.length ∧
      snap.recentCandles =
        (lastTwo raw).map fun c => (c.timestamp + cfg.timeframe.length, c.low) := by
  simp only [snapshot, Option.getD_some] at h
  split at h
  · cases h
  · next hlength =>
    split at h
    · cases h
    · cases h
      exact ⟨by omega, rfl⟩

end MarketDataService

end CryptoBot
