import CryptoBot.Strategy.Sentiment
import CryptoBot.Domain.Messages
import CryptoBot.Research.Evaluate

/-!
# The multi-factor strategy

`strategy.py`: four components are added up, the action is decided on their sum, and the sum rounded
to two decimals is recorded as the score. So the recorded score may reach a threshold that the sum
has not reached, and only then do the recorded scores call for other actions than those taken.
-/

namespace CryptoBot

open Lib

/-- The indicators at the latest candle; `none` is not a number. -/
structure Indicators where
  emaFast : Option ℚ
  emaMid : Option ℚ
  emaSlow : Option ℚ
  rsi : Option ℚ
  macdHist : Option ℚ
deriving DecidableEq

/-- The market-wide data of a snapshot. -/
structure MarketData where
  btcDominance : Option ℚ
deriving DecidableEq

/-- The constants of the strategy. -/
structure StrategyConfig where
  rsiOversold : ℚ := 35
  rsiOverbought : ℚ := 70
  scoreBuyThreshold : ℚ := 5 / 2
  scoreSellThreshold : ℚ := -(5 / 2)
deriving DecidableEq

namespace MultiFactor

/-- `x < y`, which fails where one of them is not a number. -/
def less (x y : Option ℚ) : Bool :=
  match x, y with
  | some x, some y => decide (x < y)
  | _, _ => false

/-- A number with a fixed count of decimals, as in `f"{x:.2f}"`. -/
def fixed (digits : Nat) (x : ℚ) : String :=
  let n := (roundHalfEven (|x| * 10 ^ digits)).toNat
  let decimals := Nat.repr (n % 10 ^ digits)
  (if x < 0 then "-" else "") ++ Nat.repr (n / 10 ^ digits) ++ "." ++
    "".pushn '0' (digits - decimals.length) ++ decimals

/-! ## The components -/

/-- `_trend_score`. -/
def trendScore (row : Indicators) : ℚ × String :=
  if less row.emaMid row.emaFast && less row.emaSlow row.emaMid then
    (2, "Bullish trend: EMA20 > EMA50 > EMA200")
  else if less row.emaFast row.emaMid && less row.emaMid row.emaSlow then
    (-2, "Bearish trend: EMA20 < EMA50 < EMA200")
  else (0, "No clear EMA trend stack")

/-- `_momentum_score`. -/
def momentumScore (cfg : StrategyConfig) (row : Indicators) : ℚ × String :=
  let rsi :=
    if less row.rsi (some cfg.rsiOversold) then (1, " (oversold - potential bounce)")
    else if less (some cfg.rsiOverbought) row.rsi then (-1, " (overbought - potential pullback)")
    else (0, "")
  let macd :=
    if less (some 0) row.macdHist then (1 / 2, ", MACD histogram positive")
    else (-(1 / 2), ", MACD histogram negative")
  (rsi.1 + macd.1, "RSI " ++ row.rsi.elim "nan" (fixed 1) ++ rsi.2 ++ macd.2)

/-- `_regime_score`. -/
def regimeScore (symbol : String) (marketData : Option MarketData) : ℚ × String :=
  match marketData.bind (·.btcDominance) with
  | none => (0, "Market-wide data unavailable")
  | some dom =>
    if symbol.toUpper.startsWith "BTC" then
      (0, "Trading BTC directly - dominance (" ++ fixed 1 dom ++ "%) not used as a filter")
    else if 55 < dom then
      (-1, "BTC dominance high (" ++ fixed 1 dom ++ "%) - unfavorable backdrop for altcoins")
    else (1, "BTC dominance moderate/low (" ++ fixed 1 dom ++ "%) - more room for altcoins")

/-- `_sentiment_score`. -/
def sentimentScore (sentiment : Option Sentiment) : ℚ × String :=
  match sentiment with
  | none => (0, "No recent news sentiment available")
  | some sent =>
    if sent.count = 0 then (0, "No recent news sentiment available")
    else
      (sent.score * (3 / 2), "News sentiment " ++ sent.label.value ++ " (" ++
        (if sent.score < 0 then "" else "+") ++ fixed 2 sent.score ++ " avg over " ++
        Nat.repr sent.count ++ " headlines)")

/-! ## The decision -/

/-- The components in the order in which they are added up. -/
def components (cfg : StrategyConfig) (row : Indicators) (symbol : String)
    (marketData : Option MarketData) (sentiment : Option Sentiment) : List (ℚ × String) :=
  [trendScore row, momentumScore cfg row, regimeScore symbol marketData, sentimentScore sentiment]

/-- The variable `total` of `analyze`. -/
def total (cfg : StrategyConfig) (row : Indicators) (symbol : String)
    (marketData : Option MarketData) (sentiment : Option Sentiment) : ℚ :=
  ((components cfg row symbol marketData sentiment).map Prod.fst).sum

/-- `analyze` on the latest row. -/
def analyze (cfg : StrategyConfig) (row : Indicators) (symbol : String)
    (marketData : Option MarketData) (sentiment : Option Sentiment) : Signal :=
  let total := total cfg row symbol marketData sentiment
  { action :=
      if cfg.scoreBuyThreshold ≤ total then .buy
      else if total ≤ cfg.scoreSellThreshold then .sell
      else .hold
    score := Grid.nearest (1 / 100) total
    reasons := (components cfg row symbol marketData sentiment).map Prod.snd }

/-- An action as the signals of the research encode it. -/
def encode {K : Type} [Zero K] [One K] [Neg K] : SignalAction → K
  | .buy => 1
  | .sell => -1
  | .hold => 0

theorem one_eq_encode {action : SignalAction} : (1 : ℚ) = encode action ↔ action = .buy := by
  cases action with
  | buy => exact iff_of_true rfl rfl
  | sell => exact iff_of_false (by norm_num [encode]) (by decide)
  | hold => exact iff_of_false (by norm_num [encode]) (by decide)

theorem neg_one_eq_encode {action : SignalAction} : (-1 : ℚ) = encode action ↔ action = .sell := by
  cases action with
  | buy => exact iff_of_false (by norm_num [encode]) (by decide)
  | sell => exact iff_of_true rfl rfl
  | hold => exact iff_of_false (by norm_num [encode]) (by decide)

theorem zero_eq_encode {action : SignalAction} : (0 : ℚ) = encode action ↔ action = .hold := by
  cases action with
  | buy => exact iff_of_false (by norm_num [encode]) (by decide)
  | sell => exact iff_of_false (by norm_num [encode]) (by decide)
  | hold => exact iff_of_true rfl rfl

/-- The action is the one that the recorded score calls for. -/
def Agrees (cfg : StrategyConfig) (signal : Signal) : Prop :=
  (signal.action = .buy ↔ cfg.scoreBuyThreshold ≤ signal.score) ∧
    (signal.action = .sell ↔ signal.score ≤ cfg.scoreSellThreshold)

/-! ## Action and score -/

section
variable {cfg : StrategyConfig} {row : Indicators} {symbol : String}
  {marketData : Option MarketData} {sentiment : Option Sentiment}

theorem analyze_buy : (analyze cfg row symbol marketData sentiment).action = .buy ↔
    cfg.scoreBuyThreshold ≤ total cfg row symbol marketData sentiment := by
  unfold analyze
  dsimp only
  split
  · next hbuy => exact iff_of_true rfl hbuy
  · next hbuy =>
    split
    · exact iff_of_false SignalAction.noConfusion hbuy
    · exact iff_of_false SignalAction.noConfusion hbuy

theorem analyze_sell : (analyze cfg row symbol marketData sentiment).action = .sell ↔
    total cfg row symbol marketData sentiment < cfg.scoreBuyThreshold ∧
      total cfg row symbol marketData sentiment ≤ cfg.scoreSellThreshold := by
  unfold analyze
  dsimp only
  split
  · next hbuy => exact iff_of_false SignalAction.noConfusion fun h => absurd hbuy (not_le.2 h.1)
  · next hbuy =>
    split
    · next hsell => exact iff_of_true rfl ⟨not_le.1 hbuy, hsell⟩
    · next hsell => exact iff_of_false SignalAction.noConfusion fun h => hsell h.2

theorem analyze_score : (analyze cfg row symbol marketData sentiment).score =
    Grid.nearest (1 / 100) (total cfg row symbol marketData sentiment) := rfl

/-- Every component but the sentiment is a multiple of one half. -/
theorem total_eq : ∃ n : ℤ, total cfg row symbol marketData sentiment =
    n * (1 / 2) + (sentimentScore sentiment).1 := by
  have htrend : ∃ n : ℤ, (trendScore row).1 = n := by
    unfold trendScore
    split
    · exact ⟨2, by norm_num⟩
    · split
      · exact ⟨-2, by norm_num⟩
      · exact ⟨0, by norm_num⟩
  have hmomentum : ∃ n : ℤ, (momentumScore cfg row).1 = n * (1 / 2) := by
    unfold momentumScore
    dsimp only
    split
    · split
      · exact ⟨3, by norm_num⟩
      · exact ⟨1, by norm_num⟩
    · split
      · split
        · exact ⟨-1, by norm_num⟩
        · exact ⟨-3, by norm_num⟩
      · split
        · exact ⟨1, by norm_num⟩
        · exact ⟨-1, by norm_num⟩
  have hregime : ∃ n : ℤ, (regimeScore symbol marketData).1 = n := by
    unfold regimeScore
    split
    · exact ⟨0, by norm_num⟩
    · split
      · exact ⟨0, by norm_num⟩
      · split
        · exact ⟨-1, by norm_num⟩
        · exact ⟨1, by norm_num⟩
  obtain ⟨a, ha⟩ := htrend
  obtain ⟨b, hb⟩ := hmomentum
  obtain ⟨c, hc⟩ := hregime
  refine ⟨2 * a + b + 2 * c, ?_⟩
  simp only [total, components, List.map_cons, List.map_nil, List.sum_cons, List.sum_nil, ha, hb, hc]
  push_cast
  ring

/-- Rounding carries the sum across a threshold. -/
def Carried (cfg : StrategyConfig) (sum score : ℚ) : Prop :=
  sum < cfg.scoreBuyThreshold ∧ cfg.scoreBuyThreshold ≤ score ∨
  score < cfg.scoreBuyThreshold ∧ cfg.scoreBuyThreshold ≤ sum ∨
  cfg.scoreSellThreshold < sum ∧ score ≤ cfg.scoreSellThreshold ∨
  sum ≤ cfg.scoreSellThreshold ∧ cfg.scoreSellThreshold < score

/-- A score within half a hundredth carries no sum across thresholds that are farther away. -/
theorem not_carried_of_far {sum score : ℚ} (hnear : |score - sum| ≤ 1 / 200)
    (hbuy : 1 / 200 < |sum - cfg.scoreBuyThreshold|)
    (hsell : 1 / 200 < |sum - cfg.scoreSellThreshold|) : ¬ Carried cfg sum score := by
  obtain ⟨hlow, hhigh⟩ := abs_le.1 hnear
  rintro (⟨h, h'⟩ | ⟨h, h'⟩ | ⟨h, h'⟩ | ⟨h, h'⟩)
  · rw [abs_of_neg (by linarith)] at hbuy
    linarith
  · rw [abs_of_nonneg (by linarith)] at hbuy
    linarith
  · rw [abs_of_pos (by linarith)] at hsell
    linarith
  · rw [abs_of_nonpos (by linarith)] at hsell
    linarith

theorem not_carried_self {sum : ℚ} : ¬ Carried cfg sum sum := by
  unfold Carried
  grind

/-- Action and score agree exactly when the thresholds of the research, on the score, give the
action. -/
theorem agrees_iff_thresholds {signal : Signal}
    (hcfg : cfg.scoreSellThreshold < cfg.scoreBuyThreshold) : Agrees cfg signal ↔
      thresholds cfg.scoreBuyThreshold cfg.scoreSellThreshold [some signal.score] =
        [encode signal.action] := by
  have hvalue : thresholds cfg.scoreBuyThreshold cfg.scoreSellThreshold
      [some signal.score] = [if signal.score ≤ cfg.scoreSellThreshold then -1
        else if cfg.scoreBuyThreshold ≤ signal.score then 1 else 0] := rfl
  rw [hvalue, List.cons.injEq, and_iff_left rfl, Agrees]
  by_cases hsell : signal.score ≤ cfg.scoreSellThreshold
  · have hbuy : ¬ cfg.scoreBuyThreshold ≤ signal.score := by linarith
    rw [if_pos hsell, iff_false_right hbuy, iff_true_right hsell, neg_one_eq_encode]
    refine and_iff_right_of_imp fun h => ?_
    rw [h]
    decide
  · rw [if_neg hsell, iff_false_right hsell]
    by_cases hbuy : cfg.scoreBuyThreshold ≤ signal.score
    · rw [if_pos hbuy, iff_true_right hbuy, one_eq_encode]
      refine and_iff_left_of_imp fun h => ?_
      rw [h]
      decide
    · rw [if_neg hbuy, iff_false_right hbuy, zero_eq_encode]
      cases signal.action <;> decide

/-- The action is decided on the sum of the components, and the score is within half a hundredth of
it. They agree, and the thresholds of the research give the action, exactly when rounding carries the
sum across no threshold: when both thresholds are farther away, when the sum is a multiple of a
hundredth, and always without news. -/
theorem action_agrees_with_score (cfg : StrategyConfig) (row : Indicators) (symbol : String)
    (marketData : Option MarketData) (sentiment : Option Sentiment)
    (hcfg : cfg.scoreSellThreshold < cfg.scoreBuyThreshold) :
    let signal := analyze cfg row symbol marketData sentiment
    let sum := total cfg row symbol marketData sentiment
    (signal.action = .buy ↔ cfg.scoreBuyThreshold ≤ sum) ∧
    (signal.action = .sell ↔ sum ≤ cfg.scoreSellThreshold) ∧
    |signal.score - sum| ≤ 1 / 200 ∧
    (Agrees cfg signal ↔ ¬ Carried cfg sum signal.score) ∧
    (Agrees cfg signal ↔
      thresholds cfg.scoreBuyThreshold cfg.scoreSellThreshold [some signal.score] =
        [encode signal.action]) ∧
    (1 / 200 < |sum - cfg.scoreBuyThreshold| → 1 / 200 < |sum - cfg.scoreSellThreshold| →
      Agrees cfg signal) ∧
    ((∃ n : ℤ, sum = n * (1 / 100)) → Agrees cfg signal) ∧
    ((∀ sent ∈ sentiment, sent.count = 0) → Agrees cfg signal) := by
  intro signal sum
  have hbuy : signal.action = .buy ↔ cfg.scoreBuyThreshold ≤ sum := analyze_buy
  have hsell : signal.action = .sell ↔ sum ≤ cfg.scoreSellThreshold :=
    analyze_sell.trans (and_iff_right_of_imp fun h => lt_of_le_of_lt h hcfg)
  have hnear : |signal.score - sum| ≤ 1 / 200 := by
    refine (Grid.abs_nearest_sub_le (by norm_num)).trans ?_
    norm_num
  have hcarried : Agrees cfg signal ↔ ¬ Carried cfg sum signal.score := by
    rw [Agrees, hbuy, hsell, Carried]
    grind
  have hmultiple (h : ∃ n : ℤ, sum = n * (1 / 100)) : Agrees cfg signal := by
    obtain ⟨n, hn⟩ := h
    have hscore : signal.score = sum := by
      show Grid.nearest (1 / 100) sum = sum
      rw [hn, Grid.nearest_mul (by norm_num)]
    rw [hcarried, hscore]
    exact not_carried_self
  refine ⟨hbuy, hsell, hnear, hcarried, agrees_iff_thresholds hcfg, ?_, hmultiple, ?_⟩
  · intro hfar hfar'
    exact hcarried.2 (not_carried_of_far hnear hfar hfar')
  · intro hnone
    have hzero : (sentimentScore sentiment).1 = 0 := by
      cases sentiment with
      | none => rfl
      | some sent =>
        rw [sentimentScore, if_pos (hnone sent rfl)]
    obtain ⟨n, hn⟩ : ∃ n : ℤ, total cfg row symbol marketData sentiment =
      n * (1 / 2) + (sentimentScore sentiment).1 := total_eq
    refine hmultiple ⟨50 * n, ?_⟩
    show total cfg row symbol marketData sentiment = _
    rw [hn, hzero]
    push_cast
    ring

end

/-! ## Sums just below a threshold -/

/-- A bullish trend with a positive histogram. -/
def bullishRow : Indicators where
  emaFast := some 3
  emaMid := some 2
  emaSlow := some 1
  rsi := some 50
  macdHist := some 1

/-- Ten headlines, three of them with words of the lexicon. -/
def mixedHeadlines : List Headline :=
  ["rally and record, gains after lawsuit", "crash crash gains", "ban fraud fear gains buy"].map
    (fun title => { title := title }) ++ List.replicate 7 { title := "weekly overview" }

/-- The mean of the headlines is a hair below zero: the sum misses the threshold to buy, and the score
reaches it. Where the thresholds cross, the action is to buy on a score that calls for selling. -/
theorem score_reaches_missed_threshold :
    let signal := analyze {} bullishRow "BTC/USDT" none
      (some (Sentiment.scoreHeadlines none mixedHeadlines))
    let crossed : StrategyConfig := { scoreBuyThreshold := 1, scoreSellThreshold := 3 }
    signal.action = .hold ∧ signal.score = 5 / 2 ∧ ¬ Agrees {} signal ∧
    (thresholds (5 / 2) (-(5 / 2)) [some signal.score] : List ℚ) = [1] ∧
    ¬ Agrees crossed (analyze crossed bullishRow "BTC/USDT" none none) := by
  refine ⟨by decide +kernel, by decide +kernel, ?_, by decide +kernel, ?_⟩
  · intro h
    have hscore : (5 / 2 : ℚ) ≤ (analyze {} bullishRow "BTC/USDT" none
      (some (Sentiment.scoreHeadlines none mixedHeadlines))).score := by decide +kernel
    exact absurd (h.1.2 hscore) (by decide +kernel)
  · intro h
    exact absurd (h.2.2 (by decide +kernel)) (by decide +kernel)

/-- Without news the same row is bought on. -/
theorem bullish_row_agrees : Agrees {} (analyze {} bullishRow "BTC/USDT" none none) :=
  (action_agrees_with_score {} bullishRow "BTC/USDT" none none (by norm_num)).2.2.2.2.2.2.2 (by simp)

end MultiFactor

end CryptoBot
