import CryptoBot.MarketData.EntryCandle
import CryptoBot.Research.OutOfSample
import CryptoBot.Strategy.Indicators

/-!
# The strategy that was measured is the one that trades

`v1_scores` of `research/strategies.py` is to score every closed bar of an archive as the live
engine does. The archive grows with the market and keeps what it has, so that the window a live
snapshot is taken of is the window of the same bar in every later archive, if it is as long: a
snapshot that is taken before the first trade of a candle has one more closed candle than the
research gives its strategy. The files in which the research caches its scores are left out.
-/

namespace CryptoBot

open Lib Backtest

/-! ## The archive -/

namespace Intervals

variable {g : Intervals}

theorem candleAt_timestamp {ticks : List Tick} {k : Time} {c : Candle ℚ}
    (hc : g.candleAt ticks k = some c) : c.timestamp = k := by
  simp only [candleAt, Option.bind_eq_bind, Option.bind_eq_some_iff] at hc
  obtain ⟨open_, -, high, -, low, -, close, -, hc⟩ := hc
  exact congrArg Candle.timestamp (Option.some.inj hc).symm

/-- Candles that are selected by when they open. -/
theorem candles_filter (ticks : List Tick) (p : Time → Bool) :
    (g.candles ticks).filter (fun c => p c.timestamp) =
      ((bucketKeys (fun t => g.opens t.time) ticks).filter p).filterMap (g.candleAt ticks) := by
  rw [candles, List.filter_filterMap, List.filterMap_filter]
  refine List.filterMap_congr fun k _ => ?_
  cases hk : g.candleAt ticks k with
  | none => simp
  | some c => simp [Option.filter, candleAt_timestamp hk]

end Intervals

namespace Market

variable (m : Market)

/-- Whether a candle that opens at an instant is closed. -/
def closedBy (now openTime : Time) : Bool :=
  decide (openTime + m.settings.timeframe.length ≤ now)

/-- The closed candles of the market. -/
def archive (now : Time) : List (Candle ℚ) :=
  (m.intervals.candles (m.seen now)).filter fun c => m.closedBy now c.timestamp

variable {m} {now later : Time}

theorem mem_keys {k : Time} : k ∈ bucketKeys (fun t => m.intervals.opens t.time) (m.seen now) ↔
    ∃ t ∈ m.ticks, t.time ≤ now ∧ m.intervals.opens t.time = k := by
  rw [mem_bucketKeys]
  simp only [seen, List.mem_filter, decide_eq_true_eq, and_assoc]

/-- A tick of a candle that is closed has been seen. -/
theorem seen_of_closed {k : Time} {t : Tick} (hk : m.closedBy now k)
    (ht : m.intervals.opens t.time = k) : t.time ≤ now := by
  have hlt : t.time < m.intervals.opens t.time + m.settings.timeframe.length :=
    lt_intervalStart_add m.settings.timeframe.length_pos
  rw [ht] at hlt
  exact hlt.le.trans (of_decide_eq_true hk)

/-- Nothing is traded in a closed candle any more. -/
theorem candleAt_seen {k : Time} (h : now ≤ later) (hk : m.closedBy now k) :
    m.intervals.candleAt (m.seen now) k = m.intervals.candleAt (m.seen later) k := by
  have hticks : (m.seen now).filter (fun t => decide (m.intervals.opens t.time = k)) =
      (m.seen later).filter fun t => decide (m.intervals.opens t.time = k) := by
    rw [seen, seen, List.filter_filter, List.filter_filter]
    refine List.filter_congr fun t _ => ?_
    by_cases ht : m.intervals.opens t.time = k
    · have hnow := seen_of_closed hk ht
      simp [ht, hnow, hnow.trans h]
    · simp [ht]
  rw [Intervals.candleAt, Intervals.candleAt, hticks]

/-- The archive keeps what it has, and grows at its end. -/
theorem archive_grows (h : now ≤ later) : m.archive now <+: m.archive later := by
  have hkeys : (bucketKeys (fun t => m.intervals.opens t.time) (m.seen now)).filter
      (m.closedBy now) = ((bucketKeys (fun t => m.intervals.opens t.time) (m.seen later)).filter
        (m.closedBy later)).filter (m.closedBy now) := by
    refine List.Pairwise.eq_of_mem_iff ((keys_sorted now).filter _)
      (((keys_sorted later).filter _).filter _) fun k => ?_
    simp only [List.mem_filter, mem_keys]
    constructor
    · rintro ⟨⟨t, ht, htime, hk⟩, hclosed⟩
      exact ⟨⟨⟨t, ht, htime.trans h, hk⟩, decide_eq_true ((of_decide_eq_true hclosed).trans h)⟩,
        hclosed⟩
    · rintro ⟨⟨⟨t, ht, -, hk⟩, -⟩, hclosed⟩
      exact ⟨⟨t, ht, seen_of_closed hclosed hk, hk⟩, hclosed⟩
  rw [archive, archive, Intervals.candles_filter, Intervals.candles_filter]
  have hsame : ((bucketKeys (fun t => m.intervals.opens t.time) (m.seen now)).filter
      (m.closedBy now)).filterMap (m.intervals.candleAt (m.seen now)) =
      ((bucketKeys (fun t => m.intervals.opens t.time) (m.seen now)).filter
        (m.closedBy now)).filterMap (m.intervals.candleAt (m.seen later)) :=
    List.filterMap_congr fun k hk => candleAt_seen h (List.mem_filter.1 hk).2
  rw [hsame, hkeys]
  refine List.IsPrefix.filterMap _ (filter_initial ((keys_sorted later).filter _) ?_)
  intro a b hab hb
  exact decide_eq_true ((Int.add_le_add_right (le_of_lt hab) _).trans (of_decide_eq_true hb))

/-- Whether the newest candle is still forming. -/
def Forming (m : Market) (now : Time) : Prop :=
  ∃ t ∈ m.seen now, now < m.intervals.opens t.time + m.settings.timeframe.length

/-- What the live engine has of the archive: all candles, or all but the forming one. -/
theorem archive_eq {last : Candle ℚ}
    (hlast : (m.intervals.candles (m.seen now)).getLast? = some last) :
    (m.Forming now ↔ now < last.timestamp + m.settings.timeframe.length) ∧
    m.archive now = if now < last.timestamp + m.settings.timeframe.length then
      (m.intervals.candles (m.seen now)).dropLast else m.intervals.candles (m.seen now) := by
  generalize hcandles : m.intervals.candles (m.seen now) = candles at hlast ⊢
  have hkeys : candles.map (·.timestamp) =
      bucketKeys (fun t => m.intervals.opens t.time) (m.seen now) :=
    hcandles ▸ Intervals.candles_timestamps (m.seen now)
  have hmem {c : Candle ℚ} (hc : c ∈ candles) :
      ∃ t ∈ m.ticks, t.time ≤ now ∧ m.intervals.opens t.time = c.timestamp :=
    mem_keys.1 (hkeys ▸ List.mem_map_of_mem hc)
  have hsorted : (candles.map (·.timestamp)).Pairwise (· < ·) := hkeys ▸ keys_sorted now
  have hsplit : candles.dropLast ++ [last] = candles := List.dropLast_append_getLast? last hlast
  have hlastmem : last ∈ candles := List.mem_of_getLast? hlast
  obtain ⟨t, ht, htime, hopens⟩ := hmem hlastmem
  -- every other candle opens before the last one, so it is closed when that one opens
  have hbefore : ∀ c ∈ candles.dropLast, c.timestamp < last.timestamp := by
    intro c hc
    rw [← hsplit, List.map_append] at hsorted
    exact (List.pairwise_append.1 hsorted).2.2 _ (List.mem_map_of_mem hc) _ (.head _)
  have hclosed : ∀ c ∈ candles.dropLast, m.closedBy now c.timestamp := by
    intro c hc
    obtain ⟨u, -, -, hu⟩ := hmem ((List.dropLast_sublist candles).subset hc)
    have hlt := hbefore c hc
    rw [← hu, ← hopens] at hlt
    have hle := intervalStart_add_le m.settings.timeframe.length_pos hlt
    refine decide_eq_true ?_
    rw [← hu]
    exact hle.trans ((intervalStart_le m.settings.timeframe.length_pos).trans htime)
  constructor
  · constructor
    · rintro ⟨u, hu, hforming⟩
      have hkey : m.intervals.opens u.time ∈ candles.map (·.timestamp) :=
        hkeys ▸ mem_bucketKeys.2 ⟨u, hu, rfl⟩
      obtain ⟨c, hc, hcu⟩ := List.mem_map.1 hkey
      have hle : c.timestamp ≤ last.timestamp := by
        rw [← hsplit] at hc
        rcases List.mem_append.1 hc with hc | hc
        · exact (hbefore c hc).le
        · rw [List.mem_singleton.1 hc]
      rw [← hcu] at hforming
      exact hforming.trans_le (Int.add_le_add_right hle _)
    · intro hforming
      exact ⟨t, List.mem_filter.2 ⟨ht, decide_eq_true htime⟩, hopens.symm ▸ hforming⟩
  · rw [archive, hcandles]
    conv_lhs => rw [← hsplit]
    rw [List.filter_append, List.filter_eq_self.2 hclosed]
    split
    · next hforming =>
      rw [List.filter_cons_of_neg, List.filter_nil, List.append_nil]
      rw [closedBy, decide_eq_true_eq]
      exact not_le.2 hforming
    · next hnot =>
      rw [List.filter_cons_of_pos, List.filter_nil, hsplit]
      exact decide_eq_true (not_lt.1 hnot)

/-- `w` is how many candles the strategy is handed: all that are fetched, or all but the forming
one. -/
def Window (m : Market) (now : Time) (w : Nat) : Prop :=
  m.Forming now ∧ w + 1 = m.settings.candleHistoryLimit ∨
    ¬ m.Forming now ∧ w = m.settings.candleHistoryLimit

theorem exists_window (m : Market) (now : Time) (hlimit : 0 < m.settings.candleHistoryLimit) :
    ∃ w, m.Window now w := by
  by_cases hf : m.Forming now
  · exact ⟨m.settings.candleHistoryLimit - 1, .inl ⟨hf, by omega⟩⟩
  · exact ⟨_, .inr ⟨hf, rfl⟩⟩

/-- A market with as many candles as are fetched has archived a window of them. -/
theorem Window.le_length {w : Nat} (hw : m.Window now w)
    (hcandles : m.intervals.candles (m.seen now) ≠ [])
    (hfull : m.settings.candleHistoryLimit ≤ (m.intervals.candles (m.seen now)).length) :
    w ≤ (m.archive now).length := by
  obtain ⟨hforming, harchive⟩ := archive_eq (List.getLast?_eq_some_getLast hcandles)
  rw [harchive]
  rcases hw with ⟨hf, hw⟩ | ⟨hf, rfl⟩
  · rw [if_pos (hforming.1 hf), List.length_dropLast]
    omega
  · rw [if_neg fun h => hf (hforming.2 h)]
    exact hfull

/-- The candles that the strategy is handed at an instant. -/
def frame (m : Market) (now : Time) : List (Candle ℚ) :=
  match (m.fetch now).getLast? with
  | some last => MarketDataService.evaluatedFrame m.settings (m.fetch now) last now
  | none => []

/-- The strategy is handed the newest bars of the archive, one more of them when no candle is
forming. -/
theorem frame_eq {w : Nat} (hclosed : m.settings.signalOnClosedCandles)
    (hlimit : 0 < m.settings.candleHistoryLimit)
    (hcandles : m.intervals.candles (m.seen now) ≠ [])
    (hw : m.Window now w) :
    m.frame now = (m.archive now).drop ((m.archive now).length - w) := by
  obtain ⟨last, hlast⟩ : ∃ last, (m.intervals.candles (m.seen now)).getLast? = some last :=
    ⟨_, List.getLast?_eq_some_getLast hcandles⟩
  obtain ⟨hforming, harchive⟩ := archive_eq hlast
  have hlength := List.length_pos_iff.2 hcandles
  have hfetch : (m.fetch now).getLast? = some last := by
    rw [fetch, List.getLast?_drop, if_neg (by omega), hlast]
  rw [frame, hfetch]
  dsimp only
  rw [MarketDataService.evaluatedFrame, harchive]
  rcases hw with ⟨hf, hw⟩ | ⟨hf, rfl⟩
  · rw [if_pos ⟨hclosed, hforming.1 hf⟩, if_pos (hforming.1 hf), fetch,
      List.dropLast_drop_eq_drop_dropLast, List.length_dropLast]
    congr 1
    omega
  · rw [hforming] at hf
    rw [if_neg fun h => hf h.2, if_neg hf]
    rfl

end Market

namespace MarketDataService

variable {cfg : MarketSettings}

/-- What a snapshot says of the candle it evaluates. -/
theorem snapshot_evaluated {raw : List (Candle ℚ)} {now : Time} {snap : MarketSnapshot}
    (h : snapshot cfg (.ok (some raw)) now = .ok snap) : ∃ last evaluated,
      raw.getLast? = some last ∧ (evaluatedFrame cfg raw last now).getLast? = some evaluated ∧
      snap.candleTs = isoformat evaluated.timestamp ∧ snap.signalPrice = evaluated.close := by
  simp only [snapshot, Option.getD_some] at h
  split at h
  · cases h
  · split at h
    · cases h
    · cases h
      exact ⟨_, _, List.getLast?_eq_some_getLast _, List.getLast?_eq_some_getLast _, rfl, rfl⟩

end MarketDataService

/-! ## The scores of the research -/

/-- `warmup_bars`: the bars the live engine is taken to hand its strategy. -/
def warmupBars (cfg : MarketSettings) : Nat :=
  cfg.candleHistoryLimit - if cfg.signalOnClosedCandles then 1 else 0

/-- `v1_scores`: the score of every bar that has a whole window. -/
def v1Scores (indicators : IndicatorConfig) (cfg : StrategyConfig) (df : List (Candle ℚ))
    (window : Nat) (symbol : String) : List (Option ℚ) :=
  (List.range df.length).map fun i =>
    if window ≤ i + 1 then
      let frame := IndicatorColumns.addAllIndicators indicators (slice (i + 1 - window) (i + 1) df)
      frame.getLast?.map fun row => (MultiFactor.analyze cfg row symbol none none).score
    else none

/-- A score depends on the bars up to its own. -/
theorem v1Scores_causal (indicators : IndicatorConfig) (cfg : StrategyConfig) (window : Nat)
    (symbol : String) : Causal fun df => v1Scores indicators cfg df window symbol :=
  .range fun i xs ys h _ => by rw [slice_congr h le_rfl]

/-- What the market-wide data and the news add to the technical part of a sum. -/
theorem MultiFactor.total_technical (cfg : StrategyConfig) (row : Indicators) (symbol : String)
    (marketData : Option MarketData) (sentiment : Option Sentiment) :
    total cfg row symbol marketData sentiment - (regimeScore symbol marketData).1 -
      (sentimentScore sentiment).1 = total cfg row symbol none none := by
  simp only [total, components, List.map_cons, List.map_nil, List.sum_cons, List.sum_nil]
  simp only [regimeScore, sentimentScore, Option.bind_none]
  ring

section
variable {m : Market} {now later : Time} {snap : MarketSnapshot}

/-- The score of a bar of a later archive, with a window that reaches back as far as the frame. -/
theorem v1Scores_of_frame {indicators : IndicatorConfig} {cfg : StrategyConfig} {symbol : String}
    {w : Nat} (hlater : now ≤ later) (hpos : 0 < (m.archive now).length)
    (hw : w ≤ (m.archive now).length)
    (hframe : m.frame now = (m.archive now).drop ((m.archive now).length - w)) :
    (v1Scores indicators cfg (m.archive later) w symbol)[(m.archive now).length - 1]? =
      some ((IndicatorColumns.addAllIndicators indicators (m.frame now)).getLast?.map fun row =>
        (MultiFactor.analyze cfg row symbol none none).score) := by
  obtain ⟨more, hmore⟩ := m.archive_grows hlater
  have hlt : (m.archive now).length - 1 < (m.archive later).length := by
    rw [← hmore, List.length_append]
    omega
  have hend : (m.archive now).length - 1 + 1 = (m.archive now).length := by omega
  have hslice : slice ((m.archive now).length - w) (m.archive now).length (m.archive later) =
      m.frame now := by
    rw [hframe, slice, ← hmore, List.take_left']
    rfl
  rw [v1Scores, List.getElem?_map, List.getElem?_range hlt, Option.map_some, hend, if_pos hw,
    hslice]

/-- The candle that a snapshot evaluates is the newest bar of the archive, and the technical part of
the live score is the score of that bar in every later archive: with the window of the research
while a candle is forming, and with one more bar when none is. -/
theorem live_score_researched (indicators : IndicatorConfig) (cfg : StrategyConfig)
    (symbol : String) (hlater : now ≤ later) (hclosed : m.settings.signalOnClosedCandles)
    (hfull : m.settings.candleHistoryLimit ≤ (m.intervals.candles (m.seen now)).length)
    (hsnap : m.snapshot now = .ok snap) :
    ∃ bar row, (m.archive later)[(m.archive now).length - 1]? = some bar ∧
      snap.candleTs = isoformat bar.timestamp ∧ snap.signalPrice = bar.close ∧
      (IndicatorColumns.addAllIndicators indicators (m.frame now)).getLast? = some row ∧
      ∀ marketData sentiment, ∃ score,
        score = Grid.nearest (1 / 100) (MultiFactor.total cfg row symbol marketData sentiment -
          (MultiFactor.regimeScore symbol marketData).1 -
          (MultiFactor.sentimentScore sentiment).1) ∧
        (m.Forming now → (v1Scores indicators cfg (m.archive later) (warmupBars m.settings)
          symbol)[(m.archive now).length - 1]? = some (some score)) ∧
        (¬ m.Forming now → (v1Scores indicators cfg (m.archive later) (warmupBars m.settings + 1)
          symbol)[(m.archive now).length - 1]? = some (some score)) := by
  obtain ⟨last, evaluated, hlast, hevaluated, htime, hprice⟩ :=
    MarketDataService.snapshot_evaluated hsnap
  have htwo := (MarketDataService.snapshot_ok hsnap).1
  have hlimit : 2 ≤ m.settings.candleHistoryLimit := by
    rw [Market.fetch, List.length_drop] at htwo
    omega
  have hcandles : m.intervals.candles (m.seen now) ≠ [] :=
    List.ne_nil_of_length_pos (by omega)
  have hwarmup : warmupBars m.settings + 1 = m.settings.candleHistoryLimit := by
    rw [warmupBars, if_pos hclosed]
    omega
  have hframe {w : Nat} (hw : m.Window now w) :
      m.frame now = (m.archive now).drop ((m.archive now).length - w) :=
    m.frame_eq hclosed (by omega) hcandles hw
  obtain ⟨w, hw⟩ := m.exists_window now (by omega)
  have hle := hw.le_length hcandles hfull
  have hpos : 0 < w := by
    rcases hw with ⟨-, hw⟩ | ⟨-, rfl⟩ <;> omega
  have hlastframe : (m.frame now).getLast? = some evaluated := by
    rw [Market.frame, hlast]
    exact hevaluated
  have hbar : (m.archive now)[(m.archive now).length - 1]? = some evaluated := by
    rw [← List.getLast?_eq_getElem?, ← hlastframe, hframe hw, List.getLast?_drop, if_neg (by omega)]
  obtain ⟨row, hrow⟩ : ∃ row,
      (IndicatorColumns.addAllIndicators indicators (m.frame now)).getLast? = some row := by
    refine ⟨_, List.getLast?_eq_some_getLast (List.ne_nil_of_length_pos ?_)⟩
    rw [IndicatorColumns.length_addAllIndicators]
    exact List.length_pos_of_mem (List.mem_of_getLast? hlastframe)
  have hscore {w : Nat} (hw : m.Window now w) :
      (v1Scores indicators cfg (m.archive later) w symbol)[(m.archive now).length - 1]? =
        some (some (MultiFactor.analyze cfg row symbol none none).score) := by
    rw [v1Scores_of_frame hlater (by omega) (hw.le_length hcandles hfull) (hframe hw), hrow]
    rfl
  refine ⟨evaluated, row, ?_, htime, hprice, hrow, fun marketData sentiment => ⟨_, rfl, ?_, ?_⟩⟩
  · obtain ⟨more, hmore⟩ := m.archive_grows hlater
    rw [← hmore, List.getElem?_append_left (by omega), hbar]
  · rw [MultiFactor.total_technical]
    exact fun hf => hscore (.inl ⟨hf, hwarmup⟩)
  · rw [MultiFactor.total_technical]
    exact fun hf => hscore (.inr ⟨hf, hwarmup⟩)

end

/-! ## A market of ten minutes -/

/-- A tick in every minute, at rising prices, and a service that asks for six candles. -/
def risingMarket : Market where
  settings := { timeframe := ⟨1, .minute, Nat.one_pos⟩, candleHistoryLimit := 6, emaSlow := 1 }
  origin := 0
  ticks := (List.range 10).map fun i => ⟨seconds (60 * (i : Int) + 5), 100 + (i : ℚ)⟩
  chronological := by decide +kernel

/-- The snapshot in the middle of the ninth minute. -/
def risingSnapshot : MarketSnapshot where
  candleTs := "1970-01-01T00:07:00+00:00"
  markPrice := 108
  signalPrice := 107
  recentCandles := [(seconds 480, 107), (seconds 540, 108)]

theorem rising_score_researched : (risingMarket.archive (seconds 510)).length = 8 ∧
    ∃ score, (v1Scores {} {} (risingMarket.archive (seconds 600)) 5 "BTC/USDT")[7]? =
      some (some score) := by
  refine ⟨by decide +kernel, ?_⟩
  obtain ⟨bar, row, -, -, -, -, h⟩ := @live_score_researched risingMarket (seconds 510)
    (seconds 600) risingSnapshot {} {} "BTC/USDT" (by decide) rfl (by decide +kernel)
    (by decide +kernel)
  obtain ⟨score, -, hforming, -⟩ := h none none
  exact ⟨score, hforming ⟨⟨seconds 485, 108⟩, by decide +kernel, by decide +kernel⟩⟩

/-! ## Research that is done again -/

theorem monthsFrom_head (start i : Nat) (name : Int × Int) (names : List (Int × Int)) :
    ∃ m, (monthsFrom start i name names)[0]? = some m ∧ m.start = start := by
  induction names generalizing i with
  | nil => exact ⟨_, rfl, rfl⟩
  | cons name' names ih =>
    by_cases hname : name' = name
    · subst hname
      rw [monthsFrom, if_neg (not_not.2 rfl)]
      exact ih (i + 1)
    · rw [monthsFrom, if_pos hname]
      exact ⟨_, rfl, rfl⟩

/-- More bars leave the months where they begin. -/
theorem monthsFrom_append {start i j : Nat} {name : Int × Int} {names : List (Int × Int)}
    {m : Month} (more : List (Int × Int)) (hm : (monthsFrom start i name names)[j]? = some m) :
    ∃ m', (monthsFrom start i name (names ++ more))[j]? = some m' ∧ m'.start = m.start := by
  induction names generalizing start i j name with
  | nil =>
    cases j with
    | zero =>
      obtain rfl := Option.some.inj hm
      exact monthsFrom_head start i name more
    | succ j => cases hm
  | cons name' names ih =>
    by_cases hname : name' = name
    · subst hname
      rw [monthsFrom, if_neg (not_not.2 rfl)] at hm
      rw [List.cons_append, monthsFrom, if_neg (not_not.2 rfl)]
      exact ih hm
    · rw [monthsFrom, if_pos hname] at hm
      rw [List.cons_append, monthsFrom, if_pos hname]
      cases j with
      | zero => exact ⟨_, rfl, congrArg Month.start (Option.some.inj hm)⟩
      | succ j => exact ih hm

theorem monthBounds_grown {K : Type} {df df' : List (Candle K)} {k : Nat} {m : Month}
    (hdf : df <+: df') (hm : (monthBounds df)[k]? = some m) :
    ∃ m', (monthBounds df')[k]? = some m' ∧ m'.start = m.start := by
  obtain ⟨more, rfl⟩ := hdf
  unfold monthBounds at hm ⊢
  rw [List.map_append]
  cases hnames : df.map fun c => monthOf c.timestamp with
  | nil =>
    rw [hnames] at hm
    cases hm
  | cons name names =>
    rw [hnames] at hm
    exact monthsFrom_append _ hm

/-- A walk-forward over the archive of an instant and one over a later archive, both on the scores
of their own bars: the parameters that are selected for a month of the first are those of the
second, and so are every turn and every fold of the months before it. -/
theorem walkForward_reproduced {m : Market} {now later : Time} (hlater : now ≤ later)
    (indicators : IndicatorConfig) (scfg : StrategyConfig) (window : Nat) (symbol : String)
    (lib : NumberLib ℚ) (warm : Nat) (g : Evaluate.Grid ℚ) (cfg : BTConfig ℚ) {k : Nat} {te : Month}
    (hte : (monthBounds (m.archive now))[k + 1]? = some te) :
    Evaluate.foldParams lib (m.archive now)
        (v1Scores indicators scfg (m.archive now) window symbol) warm g cfg (k + 1) =
      Evaluate.foldParams lib (m.archive later)
        (v1Scores indicators scfg (m.archive later) window symbol) warm g cfg (k + 1) ∧
    (∀ j < k, ∀ st, Evaluate.turn lib (m.archive now)
        (v1Scores indicators scfg (m.archive now) window symbol) warm g cfg (j + 1) st =
      Evaluate.turn lib (m.archive later)
        (v1Scores indicators scfg (m.archive later) window symbol) warm g cfg (j + 1) st) ∧
    ∀ j, 3 ≤ j → j ≤ k → Evaluate.fold lib (m.archive now)
        (v1Scores indicators scfg (m.archive now) window symbol) warm g cfg j =
      Evaluate.fold lib (m.archive later)
        (v1Scores indicators scfg (m.archive later) window symbol) warm g cfg j := by
  have hprefix := m.archive_grows hlater
  have htake : (m.archive now).take (m.archive now).length =
      (m.archive later).take (m.archive now).length := by
    obtain ⟨more, hmore⟩ := hprefix
    rw [List.take_length, ← hmore, List.take_left']
    rfl
  obtain ⟨te', hte', hstart⟩ := monthBounds_grown hprefix hte
  obtain ⟨-, hlt, hend⟩ := monthBounds_take hte
  have hmonths : SameMonths (m.archive now).length k (m.archive now) (m.archive later) :=
    sameMonths_start hte hte' hstart.symm (hlt.le.trans hend) htake
  have hscores := v1Scores_causal indicators scfg window symbol _ _ _ htake
  exact ⟨Evaluate.foldParams_congr hmonths hscores,
    fun j hj st => Evaluate.turn_congr (hmonths.mono hj) hscores,
    fun j hj hle => Evaluate.fold_congr hj (hmonths.mono hle) hscores⟩

/-- A tick a day, from the beginning of a year on. -/
def dailyMarket : Market where
  settings := { timeframe := ⟨1, .day, Nat.one_pos⟩ }
  origin := 0
  ticks := (List.range 130).map fun i => ⟨seconds (86400 * (i : Int) + 5), 100 + (i : ℚ)⟩
  chronological := by decide +kernel

/-- The archives of two days of May select the same parameters for May and test April alike. -/
theorem daily_fold_reproduced :
    Evaluate.foldParams sampleLib (dailyMarket.archive (seconds 10800000))
      (v1Scores {} {} (dailyMarket.archive (seconds 10800000)) 5 "BTC/USDT") 4 Evaluate.grid
      .defaults 4 =
    Evaluate.foldParams sampleLib (dailyMarket.archive (seconds 11232000))
      (v1Scores {} {} (dailyMarket.archive (seconds 11232000)) 5 "BTC/USDT") 4 Evaluate.grid
      .defaults 4 ∧
    Evaluate.fold sampleLib (dailyMarket.archive (seconds 10800000))
      (v1Scores {} {} (dailyMarket.archive (seconds 10800000)) 5 "BTC/USDT") 4 Evaluate.grid
      .defaults 3 =
    Evaluate.fold sampleLib (dailyMarket.archive (seconds 11232000))
      (v1Scores {} {} (dailyMarket.archive (seconds 11232000)) 5 "BTC/USDT") 4 Evaluate.grid
      .defaults 3 := by
  obtain ⟨hparams, -, hfolds⟩ := @walkForward_reproduced dailyMarket (seconds 10800000)
    (seconds 11232000) (by decide) {} {} 5 "BTC/USDT" sampleLib 4 Evaluate.grid .defaults 3
    ⟨(1970, 5), 120, 125⟩ (by decide +kernel)
  exact ⟨hparams, hfolds 3 (le_refl 3) (le_refl 3)⟩

end CryptoBot
