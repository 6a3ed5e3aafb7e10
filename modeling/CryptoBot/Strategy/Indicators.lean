import CryptoBot.Strategy.MultiFactor

/-!
# Indicator columns

`indicators.py`, with the moving averages of pandas it is built on, over exact numbers; `none` is
not a number. The Bollinger bands are columns that nothing reads.
-/

namespace CryptoBot

/-- The constants of the indicators. -/
structure IndicatorConfig where
  emaFast : Nat := 20
  emaMid : Nat := 50
  emaSlow : Nat := 200
  rsiPeriod : Nat := 14
  macdFast : Nat := 12
  macdSlow : Nat := 26
  macdSignal : Nat := 9

namespace IndicatorColumns

/-- A column of a frame. -/
abbrev Series : Type := List (Option ℚ)

/-- `ewm(alpha, adjust=False).mean()` from the second value on: the mean so far, and the weight it
still has, which wanes over values that are not numbers. -/
def ewmFrom (alpha : ℚ) : Option ℚ → ℚ → Series → Series
  | _, _, [] => []
  | none, oldWt, cur :: series => cur :: ewmFrom alpha cur oldWt series
  | some weighted, oldWt, none :: series =>
    some weighted :: ewmFrom alpha (some weighted) (oldWt * (1 - alpha)) series
  | some weighted, oldWt, some cur :: series =>
    let oldWt := oldWt * (1 - alpha)
    let mean := (oldWt * weighted + alpha * cur) / (oldWt + alpha)
    some mean :: ewmFrom alpha (some mean) 1 series

/-- `ewm(alpha, adjust=False).mean()`. -/
def ewm (alpha : ℚ) : Series → Series
  | [] => []
  | cur :: series => cur :: ewmFrom alpha cur 1 series

/-- `ema`: the smoothing factor of a span. -/
def ema (series : Series) (period : Nat) : Series := ewm (2 / (period + 1)) series

/-- A number of two columns, where both have one. -/
def combine (f : ℚ → ℚ → ℚ) (xs ys : Series) : Series :=
  List.zipWith (fun x y => x.bind fun x => y.map (f x)) xs ys

/-- `diff`. -/
def diff : Series → Series
  | [] => []
  | x :: xs => none :: combine (fun cur prev => cur - prev) xs (x :: xs)

/-- The strength of a candle, neutral while warming up and where nothing was lost. -/
def rsiOf (avgGain avgLoss : Option ℚ) : ℚ :=
  let avgLoss := avgLoss.filter (· ≠ 0)
  ((avgGain.bind fun gain => avgLoss.map fun loss => 100 - 100 / (1 + gain / loss))).getD 50

/-- `rsi`, with Wilder's smoothing. -/
def rsi (series : Series) (period : Nat) : List ℚ :=
  let delta := diff series
  let gain := delta.map (Option.map fun x => max 0 x)
  let loss := delta.map (Option.map fun x => -(min 0 x))
  List.zipWith rsiOf (ewm (1 / period) gain) (ewm (1 / period) loss)

/-- `macd`: the histogram. -/
def macdHistogram (series : Series) (fast slow signal : Nat) : Series :=
  let macdLine := combine (· - ·) (ema series fast) (ema series slow)
  combine (· - ·) macdLine (ema macdLine signal)

/-- `add_all_indicators`: the columns that the strategy reads, row by row. -/
def addAllIndicators (cfg : IndicatorConfig) (df : List (Candle ℚ)) : List Indicators :=
  let close : Series := df.map fun c => some c.close
  let averages := (ema close cfg.emaFast).zip ((ema close cfg.emaMid).zip (ema close cfg.emaSlow))
  let momentum := (rsi close cfg.rsiPeriod).zip
    (macdHistogram close cfg.macdFast cfg.macdSlow cfg.macdSignal)
  List.zipWith (fun e m => ⟨e.1, e.2.1, e.2.2, some m.1, m.2⟩) averages momentum

/-! ## Lengths -/

@[simp] theorem length_ewmFrom (alpha : ℚ) (weighted : Option ℚ) (oldWt : ℚ) (series : Series) :
    (ewmFrom alpha weighted oldWt series).length = series.length := by
  induction series generalizing weighted oldWt with
  | nil => cases weighted <;> rfl
  | cons cur series ih =>
    cases weighted with
    | none => simp [ewmFrom, ih]
    | some w => cases cur <;> simp [ewmFrom, ih]

@[simp] theorem length_ewm (alpha : ℚ) (series : Series) :
    (ewm alpha series).length = series.length := by
  cases series <;> simp [ewm]

@[simp] theorem length_ema (series : Series) (period : Nat) :
    (ema series period).length = series.length := length_ewm _ _

@[simp] theorem length_combine (f : ℚ → ℚ → ℚ) (xs ys : Series) :
    (combine f xs ys).length = min xs.length ys.length := List.length_zipWith

@[simp] theorem length_diff (series : Series) : (diff series).length = series.length := by
  cases series <;> simp [diff]

@[simp] theorem length_rsi (series : Series) (period : Nat) :
    (rsi series period).length = series.length := by
  simp [rsi]

@[simp] theorem length_macdHistogram (series : Series) (fast slow signal : Nat) :
    (macdHistogram series fast slow signal).length = series.length := by
  simp [macdHistogram]

/-- Every candle has its row. -/
@[simp] theorem length_addAllIndicators (cfg : IndicatorConfig) (df : List (Candle ℚ)) :
    (addAllIndicators cfg df).length = df.length := by
  simp [addAllIndicators]

end IndicatorColumns

end CryptoBot
