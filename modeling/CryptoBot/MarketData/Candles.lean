import CryptoBot.Domain.Types
import CryptoBot.Lib.Buckets

/-!
# Ticks and candles

A candle sums up the ticks of one interval of a timeframe. The intervals are counted from an origin,
since those of some timeframes do not begin with the epoch: a weekly candle opens on a Monday. An
interval without a tick has no candle.
-/

namespace CryptoBot

open Lib

/-- A candle of a frame. -/
structure Candle (K : Type) where
  timestamp : Time
  open_ : K
  high : K
  low : K
  close : K
deriving DecidableEq

/-! ## Timeframes -/

inductive TimeUnit
  | minute | hour | day | week
deriving DecidableEq, Repr

/-- `_TF`. -/
def TimeUnit.seconds : TimeUnit → Nat
  | minute => 60
  | hour => 3600
  | day => 86400
  | week => 604800

/-- A timeframe such as `15m` or `1w`. -/
structure Timeframe where
  count : Nat
  unit : TimeUnit
  pos : 0 < count

/-- `timeframe_seconds`. -/
def timeframeSeconds (tf : Timeframe) : Nat := tf.count * tf.unit.seconds

/-- The length of a candle. -/
def Timeframe.length (tf : Timeframe) : Time := seconds (timeframeSeconds tf)

theorem Timeframe.length_pos (tf : Timeframe) : 0 < tf.length := by
  have hunit : 0 < tf.unit.seconds := by cases tf.unit <;> decide
  have hsecs : 0 < timeframeSeconds tf := Nat.mul_pos tf.pos hunit
  show 0 < (timeframeSeconds tf : Int) * 1000000
  omega

/-! ## Candles of ticks -/

/-- A trade on the market. -/
structure Tick where
  time : Time
  price : ℚ
deriving DecidableEq

/-- The intervals of a market: their timeframe, and the beginning of one of them. -/
structure Intervals where
  timeframe : Timeframe
  origin : Time

namespace Intervals

variable (g : Intervals)

/-- When the candle opens that an instant belongs to. -/
def opens (t : Time) : Time := intervalStart g.origin g.timeframe.length t

/-- The candle that opens at an instant, if a tick belongs to it. -/
def candleAt (ticks : List Tick) (openTime : Time) : Option (Candle ℚ) := do
  let prices := (ticks.filter fun t => decide (g.opens t.time = openTime)).map (·.price)
  return {
    timestamp := openTime
    open_ := ← prices.head?
    high := ← prices.max?
    low := ← prices.min?
    close := ← prices.getLast? }

/-- The candles of ticks in chronological order. -/
def candles (ticks : List Tick) : List (Candle ℚ) :=
  (bucketKeys (fun t => g.opens t.time) ticks).filterMap (g.candleAt ticks)

variable {g}

theorem opens_mono {t u : Time} (h : t ≤ u) : g.opens t ≤ g.opens u :=
  intervalStart_mono g.timeframe.length_pos h

/-- The interval of a tick has a candle, whose low is the lowest price of its ticks. -/
theorem candleAt_eq_some {ticks : List Tick} {t : Tick} (ht : t ∈ ticks) :
    ∃ c, g.candleAt ticks (g.opens t.time) = some c ∧ c.timestamp = g.opens t.time ∧
      ∀ bound, bound < c.low ↔
        ∀ u ∈ ticks, g.opens u.time = g.opens t.time → bound < u.price := by
  have hmem : t.price ∈ (ticks.filter fun u => decide (g.opens u.time = g.opens t.time)).map
      (·.price) := List.mem_map_of_mem (List.mem_filter.2 ⟨ht, decide_eq_true rfl⟩)
  unfold candleAt
  generalize hprices : (ticks.filter fun u => decide (g.opens u.time = g.opens t.time)).map
    (·.price) = prices at hmem
  have hne := List.ne_nil_of_mem hmem
  obtain ⟨high, hhigh⟩ := Option.isSome_iff_exists.1 (List.isSome_max?_of_mem hmem)
  obtain ⟨low, hlow⟩ := Option.isSome_iff_exists.1 (List.isSome_min?_of_mem hmem)
  refine ⟨⟨g.opens t.time, prices.head hne, high, low, prices.getLast hne⟩, ?_, rfl,
    fun bound => ?_⟩
  · dsimp only
    rw [List.head?_eq_some_head hne, List.getLast?_eq_some_getLast hne, hhigh, hlow]
    rfl
  · have hleast := @lt_min?_iff _ _ prices bound
    rw [hlow] at hleast
    refine Iff.trans ⟨fun h x hx => Option.some.inj hx ▸ h, fun h => h low rfl⟩
      (hleast.trans ?_)
    rw [← hprices, List.forall_mem_map]
    simp only [List.mem_filter, decide_eq_true_eq, and_imp]

/-- The candles stand in the order of their opening times, which are those of the ticks. -/
theorem candles_timestamps (ticks : List Tick) :
    (g.candles ticks).map (·.timestamp) = bucketKeys (fun t => g.opens t.time) ticks := by
  have hall : ∀ k ∈ bucketKeys (fun t => g.opens t.time) ticks,
      (g.candleAt ticks k).map (·.timestamp) = some k := by
    intro k hk
    obtain ⟨t, ht, rfl⟩ := mem_bucketKeys.1 hk
    obtain ⟨c, hc, htime, -⟩ := candleAt_eq_some (g := g) ht
    rw [hc, Option.map_some, htime]
  rw [candles, List.map_filterMap]
  exact (List.filterMap_congr hall).trans List.filterMap_some

/-- The low of a candle is the lowest price of its ticks. -/
theorem lt_low_iff {ticks : List Tick} {c : Candle ℚ} (hc : c ∈ g.candles ticks) (bound : ℚ) :
    bound < c.low ↔ ∀ t ∈ ticks, g.opens t.time = c.timestamp → bound < t.price := by
  obtain ⟨k, hk, hat⟩ := List.mem_filterMap.1 hc
  obtain ⟨t, ht, rfl⟩ := mem_bucketKeys.1 hk
  obtain ⟨c', hc', htime, hlow⟩ := candleAt_eq_some (g := g) ht
  obtain rfl : c' = c := Option.some.inj (hc'.symm.trans hat)
  rw [htime]
  exact hlow bound

end Intervals

end CryptoBot
