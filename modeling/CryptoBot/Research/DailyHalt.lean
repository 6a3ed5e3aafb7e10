import CryptoBot.Research.BacktestLaws

/-!
# The daily-loss halt in engine and backtest

Both halt entries once the equity of a day has fallen by the limit. The engine compares the drawdown
in percent and halts at the limit; the backtester compares the equity with a scaled baseline and
halts below it. A halt lasts for the day, so an observation exactly at the limit makes a difference
until the equity falls below it.
-/

namespace CryptoBot

/-! ## The engine -/

/-- The stored day after a sequence of observations on that day. -/
def RiskManager.observe (cfg : Config) (d : RiskDay) (equities : List ℚ) : RiskDay :=
  equities.foldl (fun d equity => nextDay cfg (some d) equity d.date) d

/-- The equity at which the drawdown of a day reaches the limit. -/
def lossLimit (baseline limitPct : ℚ) : ℚ := baseline * (1 - limitPct / 100)

theorem drawdown_le_iff {baseline equity limitPct : ℚ} (hbaseline : 0 < baseline) :
    limitPct ≤ (baseline - equity) / baseline * 100 ↔ equity ≤ lossLimit baseline limitPct := by
  have hdrawdown : (baseline - equity) / baseline * 100 = (baseline - equity) * 100 / baseline := by
    ring
  rw [hdrawdown, le_div_iff₀ hbaseline, lossLimit]
  constructor <;> intro h <;> linarith

namespace RiskManager

variable {cfg : Config} {d : RiskDay} {equity : ℚ}

/-- An observation on the stored day keeps the baseline, and halts at the limit. -/
theorem nextDay_observe (hbaseline : 0 < d.dayStartEquity) :
    nextDay cfg (some d) equity d.date =
      { d with halted :=
          d.halted || decide (equity ≤ lossLimit d.dayStartEquity cfg.dailyLossLimitPct) } := by
  rw [nextDay]
  simp only [↓reduceIte]
  rw [RiskV1.checkDailyLossLimit, if_neg (not_le.2 hbaseline),
    decide_eq_decide.2 (drawdown_le_iff hbaseline)]

theorem observe_halted (hbaseline : 0 < d.dayStartEquity) (equities : List ℚ) :
    (observe cfg d equities).halted ↔ d.halted ∨
      ∃ e ∈ equities, e ≤ lossLimit d.dayStartEquity cfg.dailyLossLimitPct := by
  induction equities generalizing d with
  | nil => simp [observe]
  | cons e es ih =>
    have hcons : observe cfg d (e :: es) = observe cfg (nextDay cfg (some d) e d.date) es := rfl
    have hstart : (nextDay cfg (some d) e d.date).dayStartEquity = d.dayStartEquity := by
      rw [nextDay_observe hbaseline]
    rw [hcons, ih (hstart.symm ▸ hbaseline), hstart, nextDay_observe hbaseline, Bool.or_eq_true,
      decide_eq_true_iff, List.exists_mem_cons_iff, or_assoc]

end RiskManager

/-! ## The backtester -/

namespace Backtest

section
variable {K : Type} {b b' b'' : Book K}

/-- Nothing of the daily-loss state has changed. -/
structure SameDay (b b' : Book K) : Prop where
  dayStartEq : b'.dayStartEq = b.dayStartEq
  curDay : b'.curDay = b.curDay
  halted : b'.halted = b.halted

theorem SameDay.trans (h : SameDay b b') (h' : SameDay b' b'') : SameDay b b'' :=
  ⟨h'.dayStartEq.trans h.dayStartEq, h'.curDay.trans h.curDay, h'.halted.trans h.halted⟩

end

section
variable {K : Type} [Zero K] [One K] [Add K] [Sub K] [Mul K] [Div K] [NatCast K] [LT K] [LE K]
  [DecidableLT K] [DecidableLE K] [BEq K] [Min K] [Max K] (cfg : BTConfig K)

/-- What the close of a bar does to the flag `halted`. -/
def lossHalt (dayStartEq : K) (halted : Bool) (eq : K) : Bool :=
  halted || (nonzero cfg.dailyLossPct).any fun pct => decide (eq < dayStartEq * (1 - pct / 100))

variable {cfg} {b : Book K}

theorem sameDay_enter {i : Nat} {c : Candle K} : SameDay b (enter cfg i c b) := by
  unfold enter
  dsimp only
  split <;> exact ⟨rfl, rfl, rfl⟩

theorem sameDay_act {i : Nat} {s : K} {c : Candle K} : SameDay b (act cfg i s c b) := by
  unfold act
  split
  · exact ⟨rfl, rfl, rfl⟩
  · split
    · exact sameDay_enter
    · exact ⟨rfl, rfl, rfl⟩

omit [BEq K] [Max K] in
theorem sameDay_stopOut {i : Nat} {c : Candle K} : SameDay b (stopOut cfg i c b) := by
  unfold stopOut
  split
  · split <;> exact ⟨rfl, rfl, rfl⟩
  · exact ⟨rfl, rfl, rfl⟩

variable (cfg) in
/-- A bar of the current day. -/
theorem bar_sameDay (i : Nat) (signal : Option K) {c : Candle K}
    (hday : b.curDay = some (dayOf c)) :
    ∃ eq, (bar cfg i signal c b).equity = b.equity ++ [eq] ∧
      (bar cfg i signal c b).dayStartEq = b.dayStartEq ∧
      (bar cfg i signal c b).curDay = b.curDay ∧
      (bar cfg i signal c b).halted = lossHalt cfg b.dayStartEq b.halted eq := by
  have hnew : newDay c b = b := if_neg (not_not.2 hday)
  have hopening : SameDay b (opening cfg i signal c b) := by
    unfold opening
    rw [hnew]
    split
    · exact sameDay_act
    · exact ⟨rfl, rfl, rfl⟩
  have hbefore : SameDay b (stopOut cfg i c (opening cfg i signal c b)) :=
    hopening.trans sameDay_stopOut
  have hequity : (stopOut cfg i c (opening cfg i signal c b)).equity = b.equity :=
    (traded_opening.trans traded_stopOut).equity
  refine ⟨_, congrArg (· ++ [_]) hequity, hbefore.dayStartEq, hbefore.curDay, ?_⟩
  show lossHalt cfg _ _ _ = _
  rw [hbefore.dayStartEq, hbefore.halted]

/-- Over the bars of one day the flag is that of the equities at their closes. -/
theorem loop_halted {day : Int} {bars : List (Candle K × K)}
    (hbars : ∀ x ∈ bars, dayOf x.1 = day) (i : Nat) (signal : Option K)
    (hday : b.curDay = some day) :
    ∃ eqs, (loop cfg i signal bars b).equity = b.equity ++ eqs ∧
      (loop cfg i signal bars b).halted = eqs.foldl (lossHalt cfg b.dayStartEq) b.halted := by
  induction bars generalizing i signal b with
  | nil => exact ⟨[], (List.append_nil _).symm, rfl⟩
  | cons x bars ih =>
    obtain ⟨c, s⟩ := x
    obtain ⟨hx, hbars⟩ := List.forall_mem_cons.1 hbars
    obtain ⟨eq, hequity, hstart, hcur, hhalted⟩ :=
      bar_sameDay cfg i signal (c := c) (hday.trans (by rw [← hx]))
    obtain ⟨eqs, heqs, hrest⟩ := ih hbars (i + 1) (some s) (hcur.trans hday)
    refine ⟨eq :: eqs, ?_, ?_⟩
    · rw [loop, heqs, hequity, List.append_assoc, List.singleton_append]
    · rw [loop, hrest, hstart, hhalted, List.foldl_cons]

end

theorem foldl_lossHalt {cfg : BTConfig ℚ} {baseline limitPct : ℚ} {halted : Bool}
    (hlimit : 0 < limitPct) (hcfg : cfg.dailyLossPct = some limitPct) (equities : List ℚ) :
    equities.foldl (lossHalt cfg baseline) halted ↔
      halted ∨ ∃ e ∈ equities, e < lossLimit baseline limitPct := by
  have hrule (halted : Bool) (e : ℚ) : lossHalt cfg baseline halted e =
      (halted || decide (e < lossLimit baseline limitPct)) := by
    rw [lossHalt, nonzero, hcfg, Option.filter_some, if_pos (by simpa using hlimit.ne')]
    rfl
  induction equities generalizing halted with
  | nil => simp
  | cons e es ih =>
    rw [List.foldl_cons, hrule]
    refine ih.trans ?_
    rw [Bool.or_eq_true, decide_eq_true_iff, List.exists_mem_cons_iff, or_assoc]

/-! ## Agreement -/

/-- Engine and backtester halt the same observations of a day if and only if every observation
exactly at the limit comes after one below it. -/
theorem halts_agree_iff {cfg : Config} {bt : BTConfig ℚ} {today : Int} {baseline : ℚ}
    {equities : List ℚ} (hbaseline : 0 < baseline) (hlimit : 0 < cfg.dailyLossLimitPct)
    (hbt : bt.dailyLossPct = some cfg.dailyLossLimitPct) :
    (∀ seen, seen <+: equities →
      (RiskManager.observe cfg ⟨today, baseline, false⟩ seen).halted =
        seen.foldl (lossHalt bt baseline) false) ↔
    ∀ seen, seen ++ [lossLimit baseline cfg.dailyLossLimitPct] <+: equities →
      ∃ e ∈ seen, e < lossLimit baseline cfg.dailyLossLimitPct := by
  have hengine (seen : List ℚ) :
      (RiskManager.observe cfg ⟨today, baseline, false⟩ seen).halted ↔
        ∃ e ∈ seen, e ≤ lossLimit baseline cfg.dailyLossLimitPct := by
    rw [RiskManager.observe_halted hbaseline]
    simp
  have hbacktest (seen : List ℚ) : seen.foldl (lossHalt bt baseline) false ↔
      ∃ e ∈ seen, e < lossLimit baseline cfg.dailyLossLimitPct := by
    rw [foldl_lossHalt hlimit hbt]
    simp
  constructor
  · intro hagree seen hseen
    have hhalt := (hengine (seen ++ [lossLimit baseline cfg.dailyLossLimitPct])).2
      ⟨_, List.mem_append_right _ (List.mem_singleton_self _), le_rfl⟩
    rw [hagree _ hseen] at hhalt
    obtain ⟨e, he, hlt⟩ := (hbacktest _).1 hhalt
    rcases List.mem_append.1 he with he | he
    · exact ⟨e, he, hlt⟩
    · obtain rfl := List.mem_singleton.1 he
      exact absurd hlt (lt_irrefl _)
  · intro hat seen hseen
    rw [Bool.eq_iff_iff, hengine, hbacktest]
    constructor
    · rintro ⟨e, he, hle⟩
      rcases hle.lt_or_eq with hlt | rfl
      · exact ⟨e, he, hlt⟩
      · obtain ⟨earlier, later, rfl⟩ := List.append_of_mem he
        obtain ⟨e, he, hlt⟩ := hat earlier
          (.trans ⟨later, by rw [List.append_assoc, List.singleton_append]⟩ hseen)
        exact ⟨e, List.mem_append_left _ he, hlt⟩
    · exact fun ⟨e, he, hlt⟩ => ⟨e, he, hlt.le⟩

/-- A day that starts at 1000 with a limit of 5 percent: both halt at 940. -/
theorem halts_agree_sample :
    (RiskManager.observe sampleConfig ⟨20089, 1000, false⟩ [990, 940]).halted =
      [990, 940].foldl (lossHalt (BTConfig.defaults (K := ℚ)) 1000) false := by
  have hbaseline : (0 : ℚ) < 1000 := by norm_num
  have hlimit : 0 < sampleConfig.dailyLossLimitPct := by decide +kernel
  have hbt : (BTConfig.defaults (K := ℚ)).dailyLossPct = some sampleConfig.dailyLossLimitPct := rfl
  suffices hat : ∀ seen, seen ++ [lossLimit 1000 sampleConfig.dailyLossLimitPct] <+:
      [990, 940, 950] → ∃ e ∈ seen, e < lossLimit 1000 sampleConfig.dailyLossLimitPct from
    (halts_agree_iff hbaseline hlimit hbt).2 hat [990, 940] ⟨[950], rfl⟩
  intro seen hseen
  have hloss : lossLimit 1000 sampleConfig.dailyLossLimitPct = 950 := by decide +kernel
  rw [hloss] at hseen ⊢
  obtain ⟨rest, hrest⟩ := hseen
  rcases seen with _ | ⟨a, _ | ⟨b, seen⟩⟩
  · norm_num at hrest
  · norm_num at hrest
  · obtain ⟨-, rfl, -⟩ : a = 990 ∧ b = 940 ∧ _ := by simpa using hrest
    exact ⟨940, .tail _ (.head _), by norm_num⟩

/-- At a loss of exactly the limit the engine halts, the backtester goes on. -/
theorem halt_at_limit_differs :
    (RiskManager.observe sampleConfig ⟨20089, 1000, false⟩ [950]).halted = true ∧
      [950].foldl (lossHalt (BTConfig.defaults (K := ℚ)) 1000) false = false := by
  decide +kernel

end Backtest

end CryptoBot
