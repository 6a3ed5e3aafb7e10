import CryptoBot.Application.Gating
import CryptoBot.MarketData.Fetcher

/-!
# The candle of the entry

The stop check leaves out the candles that closed before the position was opened, so that a wick
before the entry does not trigger the stop. The candle in which the position was opened closes
later: while it is one of the last two, a wick at its beginning counts.
-/

namespace CryptoBot

open Lib OrderService TradingCycle

/-! ## A market -/

/-- The ticks of a market in their order, and how the service is set up that fetches its candles. -/
structure Market where
  settings : MarketSettings
  origin : Time
  ticks : List Tick
  chronological : ticks.Pairwise fun t u => t.time ≤ u.time

namespace Market

variable (m : Market)

def intervals : Intervals := ⟨m.settings.timeframe, m.origin⟩

/-- The ticks up to an instant. -/
def seen (now : Time) : List Tick := m.ticks.filter fun t => decide (t.time ≤ now)

/-- The newest candles, as many as the service asks for. -/
def fetch (now : Time) : List (Candle ℚ) :=
  let candles := m.intervals.candles (m.seen now)
  candles.drop (candles.length - m.settings.candleHistoryLimit)

/-- What the service answers at an instant. -/
def snapshot (now : Time) : Except String MarketSnapshot :=
  MarketDataService.snapshot m.settings (.ok (some (m.fetch now))) now

/-- From the entry on, the price stays above the stop. -/
def StaysAbove (openedAt : Time) (stop : ℚ) : Prop :=
  ∀ t ∈ m.ticks, openedAt ≤ t.time → stop < t.price

/-- In the candle of the entry the price was above the stop before the entry too, or two later
candles have begun. -/
def EntryCandleClear (now openedAt : Time) (stop : ℚ) : Prop :=
  (∃ t ∈ m.seen now, ∃ u ∈ m.seen now, m.intervals.opens openedAt < m.intervals.opens t.time ∧
    m.intervals.opens t.time < m.intervals.opens u.time) ∨
  ∀ t ∈ m.seen now, t.time < openedAt → m.intervals.opens t.time = m.intervals.opens openedAt →
    stop < t.price

variable {m}

theorem keys_sorted (now : Time) :
    (bucketKeys (fun t => m.intervals.opens t.time) (m.seen now)).Pairwise (· < ·) :=
  bucketKeys_sorted ((m.chronological.sublist List.filter_sublist).imp Intervals.opens_mono)

/-- The last two candles of a fetch are the last two of the market. -/
theorem lastTwo_fetch {now : Time} (h : 2 ≤ (m.fetch now).length) :
    lastTwo (m.fetch now) = lastTwo (m.intervals.candles (m.seen now)) := by
  refine lastTwo_drop ?_
  rw [fetch, List.length_drop] at h
  omega

/-- The low of the stop check is above a bound exactly when the price of every tick is, in the
candles that are among the last two and close after the entry. -/
theorem lt_stopCheckLow_iff {now openedAt : Time} {snap : MarketSnapshot} {stop : ℚ}
    (h : m.snapshot now = .ok snap) :
    (∀ low, snap.stopCheckLow (some openedAt) = some low → stop < low) ↔
      ∀ t ∈ m.seen now,
        m.intervals.opens t.time ∈ lastTwo (bucketKeys (fun t => m.intervals.opens t.time)
          (m.seen now)) →
        openedAt < m.intervals.opens t.time + m.settings.timeframe.length → stop < t.price := by
  obtain ⟨hlength, hrecent⟩ := MarketDataService.snapshot_ok h
  have hlows : (∀ low, snap.stopCheckLow (some openedAt) = some low → stop < low) ↔
      ∀ c ∈ lastTwo (m.intervals.candles (m.seen now)),
        openedAt < c.timestamp + m.settings.timeframe.length → stop < c.low := by
    rw [MarketSnapshot.stopCheckLow, lt_min?_iff, hrecent, lastTwo_fetch hlength, List.filter_map,
      List.map_map, List.forall_mem_map]
    simp only [List.mem_filter, Function.comp_apply, Option.all_some, decide_eq_true_eq, and_imp]
  rw [hlows, ← Intervals.candles_timestamps, lastTwo_map]
  constructor
  · intro hcandles t ht hkey hclose
    obtain ⟨c, hc, htime⟩ := List.mem_map.1 hkey
    exact (Intervals.lt_low_iff (mem_of_mem_lastTwo hc) stop).1
      (hcandles c hc (htime ▸ hclose)) t ht htime.symm
  · intro hticks c hc hclose
    refine (Intervals.lt_low_iff (mem_of_mem_lastTwo hc) stop).2 fun t ht htime => ?_
    exact hticks t ht (htime ▸ List.mem_map_of_mem hc) (htime ▸ hclose)

/-- When the price stays above the stop from the entry on, the stop check does not hit exactly when
the candle of the entry is clear. -/
theorem stop_spared_iff {now openedAt : Time} {snap : MarketSnapshot} {stop : ℚ}
    (h : m.snapshot now = .ok snap) (habove : m.StaysAbove openedAt stop) :
    (∀ low, snap.stopCheckLow (some openedAt) = some low → stop < low) ↔
      m.EntryCandleClear now openedAt stop := by
  rw [lt_stopCheckLow_iff h]
  have hlast {t : Tick} (ht : t ∈ m.seen now) := mem_lastTwo_iff (keys_sorted now)
    (mem_bucketKeys.2 ⟨t, ht, rfl⟩)
  constructor
  · intro hticks
    refine or_iff_not_imp_left.2 fun hnone t ht hbefore hsame => ?_
    refine hticks t ht ((hlast ht).2 ?_) ?_
    · rintro ⟨a, ha, b, hb, hta, hab⟩
      obtain ⟨u, hu, rfl⟩ := mem_bucketKeys.1 ha
      obtain ⟨v, hv, rfl⟩ := mem_bucketKeys.1 hb
      exact hnone ⟨u, hu, v, hv, hsame ▸ hta, hab⟩
    · rw [hsame]
      exact lt_intervalStart_add m.settings.timeframe.length_pos
  · intro hclear t ht hkey hclose
    by_cases hbefore : t.time < openedAt
    · have hsame : m.intervals.opens openedAt = m.intervals.opens t.time :=
        intervalStart_eq m.settings.timeframe.length_pos
          ((intervalStart_le m.settings.timeframe.length_pos).trans hbefore.le) hclose
      rcases hclear with ⟨u, hu, v, hv, htu, huv⟩ | hclear
      · refine absurd ⟨_, mem_bucketKeys.2 ⟨u, hu, rfl⟩, _, mem_bucketKeys.2 ⟨v, hv, rfl⟩, ?_, huv⟩
          ((hlast ht).1 hkey)
        rwa [← hsame]
      · exact hclear t ht hbefore hsame.symm
    · exact habove t (List.mem_of_mem_filter ht) (not_lt.1 hbefore)

/-- An answer that is a snapshot was taken of this market. -/
def Answers (m : Market) : (q : Request) → Ans q → Prop
  | .call (.snapshot _), .ok answer => ∃ now, answer = m.snapshot now
  | _, _ => True

/-- Every snapshot that a program is told was taken of this market. -/
def Informs (m : Market) (h : History Label Ans) : Prop :=
  ∀ q a, .call q a ∈ h → m.Answers q a

end Market

/-! ## The stop exit of a cycle -/

/-- The snapshot a cycle decides on is one that it was told. -/
theorem Briefing.Given.snapshot_mem {cfg : Config} {V : History Label Ans → Ledger → Prop}
    {b : Briefing} {h : History Label Ans} (hb : b.Given cfg V h) :
    .call (.call (.snapshot cfg.symbol)) (.ok (.ok b.snap)) ∈ h := by
  obtain ⟨hg, t, hmid, -, hmarket, hsignal⟩ := hb
  refine (((List.suffix_cons _ _).trans hsignal).subset (hmarket.subset ?_))
  simp [Briefing.market]

/-- When the price stays above the stop from the entry on, the stop check does not hit exactly when
the candle of the entry is clear; and a cycle that sells at the stop of a position whose price
stayed above it has, at an earlier moment of the same run, seen the candle of the entry not clear. -/
theorem preEntryWick_ignored_iff {m : Market} :
    (∀ {now openedAt snap stop}, m.snapshot now = .ok snap → m.StaysAbove openedAt stop →
      ((∀ low, snap.stopCheckLow (some openedAt) = some low → stop < low) ↔
        m.EntryCandleClear now openedAt stop)) ∧
    ∀ {cfg s₀ x o}, Cycle cfg s₀ x → m.Informs x.hist → submitting? x.prog = some o →
      o.purpose = .stopExit → ∃ h s now stop, h <:+ x.hist ∧ Passed cfg s₀ h s ∧
        (s.getPosition cfg.bot cfg.symbol).stopPrice = some stop ∧
        .call (.call (.snapshot cfg.symbol)) (.ok (m.snapshot now)) ∈ h ∧
        ∀ openedAt, (s.getPosition cfg.bot cfg.symbol).openedAt = some openedAt →
          m.StaysAbove openedAt stop → ¬ m.EntryCandleClear now openedAt stop := by
  refine ⟨Market.stop_spared_iff, ?_⟩
  intro cfg s₀ x o hx hinforms ho hpurpose
  obtain ⟨b, h, s, hpassed, hh, hd, hw, -⟩ := (submission_granted hx).1 o ho
  rw [hpurpose] at hw
  obtain ⟨stop, low, hstop, hlow, hle⟩ := hw
  have hmem := hd.given.snapshot_mem
  obtain ⟨now, hnow⟩ := hinforms _ _ (hh.subset hmem)
  refine ⟨h, s, now, stop, hh, hpassed, hstop, hnow ▸ hmem, fun openedAt hopened habove hclear => ?_⟩
  rw [hopened] at hlow
  exact ((Market.stop_spared_iff hnow.symm habove).2 hclear low hlow).not_ge hle

/-! ## A wick before the entry -/

/-- Midnight of the first day of 2025. -/
def newYear : Time := seconds 1735689600

/-- A hourly market at 100, with a wick to 90 at five minutes past midnight. -/
def wickMarket : Market where
  settings := { timeframe := ⟨1, .hour, by decide⟩ }
  origin := 0
  ticks := (List.range 210).map (fun i => ⟨newYear + seconds (3600 * ((i : Int) - 210)), 100⟩) ++
    [⟨newYear + seconds 300, 90⟩, ⟨newYear + seconds 1800, 100⟩, ⟨newYear + seconds 1830, 101⟩]
  chronological := by
    refine List.pairwise_append.2 ⟨List.pairwise_map.2 ?_, by decide, ?_⟩
    · refine List.pairwise_lt_range.imp fun {i j} hij => ?_
      have hmono (a b start : Int) (h : a < b) :
          start + 3600 * (a - 210) * 1000000 ≤ start + 3600 * (b - 210) * 1000000 := by omega
      exact hmono i j newYear (Int.ofNat_lt.2 hij)
    · decide +kernel

/-- The intents of an entry on the last closed candle, and of the stop exit of a position that was
opened at half past midnight. -/
def wickEntry : IntentId :=
  ⟨⟨"default", ⟨"BTC", "USDT"⟩, .candle "2024-12-31T23:00:00+00:00", .entry⟩, 0⟩

def wickExit : IntentId :=
  ⟨⟨"default", ⟨"BTC", "USDT"⟩, .openedAt (newYear + seconds 1800), .stopExit⟩, 0⟩

def wickConfig : Config := .testnet <| .table
  [(wickEntry, "4200841d1dd0ab9b9609b57fad5c3c802c24119780c87cc42d98aa603d6a3369"),
   (wickExit, "3edb31e0e1063e32123ecac4b3e2424defadce2869458314bc2e08d85104b366")]

/-- What the service answers half a minute after half past midnight. -/
def wickSnapshot : MarketSnapshot where
  candleTs := "2024-12-31T23:00:00+00:00"
  markPrice := 101
  signalPrice := 100
  recentCandles := [(newYear, 100), (newYear + seconds 3600, 90)]

theorem wickMarket_snapshot :
    wickMarket.snapshot (newYear + seconds 1830) = .ok wickSnapshot := by
  decide +kernel

/-- An exchange that fills an entry at half past midnight. -/
def wickEnv (now : Time) (snap : MarketSnapshot) (action : SignalAction) :
    Prog.Env Label Ans := fun h q =>
  match q with
  | .ambient .now => now
  | .call (.snapshot _) => .ok (.ok snap)
  | .call (.submit o _) => .ok {
      kind := .acknowledged
      report := some { sampleReport sampleEntry .buy .filled 2 with
        clientOrderId := o.clientOrderId }
      fills := [{ sampleFill sampleEntry .buy "1" 2 with
        clientOrderId := some o.clientOrderId, executionTimeMs := newYear / 1000 + 1800000 }] }
  | q => exchangeEnv (marketAnswers action (listing (.ok []))) h q

/-- The ledger after a clean reconciliation and an entry at half past midnight. -/
def wickLedger : Ledger :=
  let env := wickEnv (newYear + seconds 1800) { wickSnapshot with markPrice := 100 } .buy
  let s := (Prog.run env (ReconciliationService.run wickConfig "startup" false).run [] {}).2.2
  (Prog.run env (runOnce wickConfig).run [] s).2.2

/-- The cycle half a minute later, at the call that sends its first order. -/
def wickCycle : Point Ledger Label Ans PUnit :=
  Point.go (wickEnv (newYear + seconds 1830) wickSnapshot .hold) 27
    ⟨(runOnce wickConfig).run.forget, [], wickLedger⟩

theorem wickCycle_stopExit : (submitting? wickCycle.prog).map (·.purpose) = some .stopExit := by
  decide +kernel

theorem wickCycle_reached :
    Cycle wickConfig wickLedger wickCycle ∧ wickMarket.Informs wickCycle.hist := by
  refine ⟨Point.path_go (fun _ _ _ => trivial) _ _, ?_⟩
  refine Path.answers (fun _ _ _ _ h => h) (fun _ _ h => absurd h List.not_mem_nil)
    (Point.path_go (fun h q s => ?_) _ _)
  show wickMarket.Answers q (wickEnv _ _ _ h q)
  unfold Market.Answers
  split
  · next heq =>
    refine ⟨newYear + seconds 1830, ?_⟩
    rw [wickMarket_snapshot]
    exact (Except.ok.inj heq).symm
  · trivial

/-- The position was opened after the wick and the price stayed above its stop; yet the stop check
sees the wick, and the cycle sells at the stop. -/
theorem preEntryWick_sells :
    (wickLedger.getPosition "default" ⟨"BTC", "USDT"⟩).openedAt = some (newYear + seconds 1800) ∧
    (wickLedger.getPosition "default" ⟨"BTC", "USDT"⟩).stopPrice = some 97 ∧
    wickMarket.StaysAbove (newYear + seconds 1800) 97 ∧
    wickMarket.snapshot (newYear + seconds 1830) = .ok wickSnapshot ∧
    wickSnapshot.stopCheckLow (some (newYear + seconds 1800)) = some 90 ∧
    Cycle wickConfig wickLedger wickCycle ∧ wickMarket.Informs wickCycle.hist ∧
    (submitting? wickCycle.prog).map (·.purpose) = some .stopExit := by
  refine ⟨by decide +kernel, by decide +kernel, ?_, wickMarket_snapshot, by decide +kernel,
    wickCycle_reached.1, wickCycle_reached.2, wickCycle_stopExit⟩
  unfold Market.StaysAbove
  decide +kernel

/-- A stop below the wick is spared; and the cycle has seen the candle of the entry not clear. -/
theorem preEntryWick_sample :
    (∀ low, wickSnapshot.stopCheckLow (some (newYear + seconds 1800)) = some low → 85 < low) ∧
    ∃ h s now stop, h <:+ wickCycle.hist ∧ Passed wickConfig wickLedger h s ∧
      (s.getPosition "default" ⟨"BTC", "USDT"⟩).stopPrice = some stop ∧
      .call (.call (.snapshot ⟨"BTC", "USDT"⟩)) (.ok (wickMarket.snapshot now)) ∈ h ∧
      ∀ openedAt, (s.getPosition "default" ⟨"BTC", "USDT"⟩).openedAt = some openedAt →
        wickMarket.StaysAbove openedAt stop → ¬ wickMarket.EntryCandleClear now openedAt stop := by
  have hticks : wickMarket.ticks.all (85 < ·.price) = true := by decide +kernel
  have habove : ∀ t ∈ wickMarket.ticks, 85 < t.price := fun t ht =>
    of_decide_eq_true (List.all_eq_true.1 hticks t ht)
  obtain ⟨o, ho, hpurpose⟩ := Option.map_eq_some_iff.1 wickCycle_stopExit
  refine ⟨(preEntryWick_ignored_iff.1 wickMarket_snapshot fun t ht _ => habove t ht).2 (.inr ?_),
    preEntryWick_ignored_iff.2 wickCycle_reached.1 wickCycle_reached.2 ho hpurpose⟩
  exact fun t ht _ _ => habove t (List.mem_of_mem_filter ht)

end CryptoBot
