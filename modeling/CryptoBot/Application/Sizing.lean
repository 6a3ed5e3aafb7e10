import CryptoBot.Application.RiskManager
import CryptoBot.Lib.Grid
import Mathlib.Data.Rat.Floor
import Mathlib.Order.Bounds.Basic

/-!
# The size of an entry

`size_entry` combines the risk budget, the equity, the free quote balance, the lot size and the
minima of the exchange. What it returns is the largest whole number of lots within all of them, and
it returns nothing only where there is none.
-/

namespace CryptoBot

open Lib

/-! ## Rounding to lots -/

/-- The integer part of a number that is not negative is its floor. -/
theorem toIntegralDown_eq_floor {x : ℚ} (hx : 0 ≤ x) : toIntegralDown x = ⌊x⌋ := by
  rw [toIntegralDown, Rat.floor_def', Int.tdiv_eq_ediv_of_nonneg (Rat.num_nonneg.2 hx)]

theorem floorToStep_eq_down {x step : ℚ} (hx : 0 ≤ x) (hs : 0 < step) :
    floorToStep x step = Grid.down step x := by
  rw [floorToStep, if_neg (not_le.2 hs), toIntegralDown_eq_floor (div_nonneg hx hs.le), Grid.down]

/-- What is not positive is rounded to what is not positive. -/
theorem floorToStep_nonpos {x step : ℚ} (hx : x ≤ 0) (hs : 0 < step) : floorToStep x step ≤ 0 := by
  have hnum : (x / step).num ≤ 0 := Rat.num_nonpos.2 (div_nonpos_of_nonpos_of_nonneg hx hs.le)
  have hdown : toIntegralDown (x / step) ≤ 0 := by
    have h := Int.tdiv_nonneg (neg_nonneg.2 hnum) (Int.natCast_nonneg (x / step).den)
    rw [Int.neg_tdiv] at h
    rw [toIntegralDown]
    omega
  rw [floorToStep, if_neg (not_le.2 hs)]
  exact mul_nonpos_of_nonpos_of_nonneg (by exact_mod_cast hdown) hs.le

/-- Rounding to lots adds nothing to what is not negative. -/
theorem floorToStep_le {x step : ℚ} (hx : 0 ≤ x) : floorToStep x step ≤ x := by
  by_cases hs : step ≤ 0
  · rw [floorToStep, if_pos hs]
  · rw [floorToStep_eq_down hx (not_le.1 hs)]
    exact Grid.down_le (not_le.1 hs)

theorem SymbolRules.isTradeable_iff {rules : SymbolRules} {qty price : ℚ} :
    rules.isTradeable qty price ↔
      0 < qty ∧ rules.minQty ≤ qty ∧ rules.minNotional ≤ qty * price := by
  unfold SymbolRules.isTradeable
  split
  · next h =>
    refine iff_of_false Bool.false_ne_true ?_
    rintro ⟨hpos, hmin, -⟩
    exact h.elim (not_le.2 hpos) (not_lt.2 hmin)
  · next h =>
    rw [not_or, not_le, not_lt] at h
    rw [decide_eq_true_iff]
    exact ⟨fun hn => ⟨h.1, h.2, hn⟩, fun ⟨_, _, hn⟩ => hn⟩

/-! ## Sizing -/

/-- A size for an entry: a whole number of lots that the exchange takes, the free balance and the
equity pay for, and the stop loses no more of than the risk budget. -/
structure EntrySize (cfg : Config) (equity price : ℚ) (rules : SymbolRules) (free q : ℚ) :
    Prop where
  positive : 0 < q
  lots : ∃ n : ℤ, q = n * rules.stepSize
  minQty : rules.minQty ≤ q
  minNotional : rules.minNotional ≤ q * price
  funded : q * price ≤ free
  solvent : q * price ≤ equity
  budget : q * price * cfg.stopLossPct ≤ equity * cfg.riskPerTradePct

section
variable {cfg : Config} {equity price free q : ℚ} {rules : SymbolRules}

/-- The three bounds on the value of an entry are one bound on its size. -/
theorem le_positionSize_iff (hequity : 0 < equity) (hprice : 0 < price)
    (hrisk : 0 < cfg.riskPerTradePct) (hstop : 0 < cfg.stopLossPct) :
    q ≤ RiskV1.positionSize equity price cfg.riskPerTradePct cfg.stopLossPct ↔
      q * price ≤ equity ∧ q * price * cfg.stopLossPct ≤ equity * cfg.riskPerTradePct := by
  have hvalue : 0 ≤ min (equity * (cfg.riskPerTradePct / 100) / (cfg.stopLossPct / 100)) equity :=
    le_min (by positivity) hequity.le
  have hbudget : equity * (cfg.riskPerTradePct / 100) / (cfg.stopLossPct / 100) =
      equity * cfg.riskPerTradePct / cfg.stopLossPct := by field_simp
  rw [RiskV1.positionSize,
    if_neg (by simp only [not_or, not_le]; exact ⟨hequity, hprice, hrisk, hstop⟩)]
  dsimp only
  rw [max_eq_right (div_nonneg hvalue hprice.le), le_div_iff₀ hprice, le_min_iff, hbudget,
    le_div_iff₀ hstop]
  exact and_comm

theorem positionSize_nonneg (equity price risk stop : ℚ) :
    0 ≤ RiskV1.positionSize equity price risk stop := by
  unfold RiskV1.positionSize
  split
  · exact le_rfl
  · exact le_max_left _ _

/-- An entry is the largest size there is, and it is not taken only where there is none. -/
theorem sizeEntry_greatest (hprice : 0 < price) (hrisk : 0 < cfg.riskPerTradePct)
    (hstop : 0 < cfg.stopLossPct) (hfree : 0 ≤ free) (hstep : 0 < rules.stepSize) :
    match RiskManager.sizeEntry cfg equity price rules (some free) with
    | some q => IsGreatest {q | EntrySize cfg equity price rules free q} q
    | none => ∀ q, ¬ EntrySize cfg equity price rules free q := by
  have hsize : RiskManager.sizeEntry cfg equity price rules (some free) =
      if rules.isTradeable (Grid.down rules.stepSize
        (min (RiskV1.positionSize equity price cfg.riskPerTradePct cfg.stopLossPct)
          (free / price))) price
      then some (Grid.down rules.stepSize
        (min (RiskV1.positionSize equity price cfg.riskPerTradePct cfg.stopLossPct)
          (free / price))) else none := by
    rw [RiskManager.sizeEntry, if_pos hprice, SymbolRules.roundQty, floorToStep_eq_down _ hstep]
    exact le_min (positionSize_nonneg _ _ _ _) (div_nonneg hfree hprice.le)
  rw [hsize]
  set size := min (RiskV1.positionSize equity price cfg.riskPerTradePct cfg.stopLossPct)
    (free / price)
  -- within the bounds means within the size, where the equity is positive
  have hle (hequity : 0 < equity) (q : ℚ) : q ≤ size ↔ (q * price ≤ equity ∧
      q * price * cfg.stopLossPct ≤ equity * cfg.riskPerTradePct) ∧ q * price ≤ free := by
    rw [le_min_iff, le_positionSize_iff hequity hprice hrisk hstop, le_div_iff₀ hprice]
  have hpositive {q : ℚ} (hq : EntrySize cfg equity price rules free q) : 0 < equity :=
    (mul_pos hq.positive hprice).trans_le hq.solvent
  have hdown {q : ℚ} (hq : EntrySize cfg equity price rules free q) :
      q ≤ Grid.down rules.stepSize size := by
    have hqs := (hle (hpositive hq) q).2 ⟨⟨hq.solvent, hq.budget⟩, hq.funded⟩
    obtain ⟨n, rfl⟩ := hq.lots
    exact Grid.mul_le_down hstep hqs
  split
  · next q hq =>
    split at hq
    · next htrade =>
      obtain rfl := Option.some.inj hq
      obtain ⟨hpos, hmin, hnotional⟩ := SymbolRules.isTradeable_iff.1 htrade
      have hequity : 0 < equity := by
        by_contra hneg
        have hzero : size ≤ 0 := (min_le_left _ _).trans_eq (if_pos (.inl (not_lt.1 hneg)))
        exact absurd ((Grid.down_le hstep).trans hzero) (not_le.2 hpos)
      obtain ⟨⟨hsolvent, hbudget⟩, hfunded⟩ := (hle hequity _).1 (Grid.down_le hstep)
      exact ⟨⟨hpos, ⟨_, rfl⟩, hmin, hnotional, hfunded, hsolvent, hbudget⟩, fun q hq => hdown hq⟩
    · cases hq
  · next hnone =>
    split at hnone
    · cases hnone
    · next htrade =>
      intro q hq
      have h := hdown hq
      exact htrade (SymbolRules.isTradeable_iff.2 ⟨hq.positive.trans_le h, hq.minQty.trans h,
        hq.minNotional.trans (mul_le_mul_of_nonneg_right h hprice.le)⟩)

end

/-- The rules of a market with whole thousandths and a minimum of 5. -/
def milliRules : SymbolRules :=
  { symbol := ⟨"BTC", "USDT"⟩, baseAsset := "BTC", quoteAsset := "USDT", stepSize := 1 / 1000
    minQty := 1 / 1000, minNotional := 5 }

/-- A third of 1000 at a price of 100, rounded down to thousandths. -/
theorem sizeEntry_sample :
    IsGreatest {q | EntrySize sampleConfig 1000 100 milliRules 600 q} (3333 / 1000) := by
  have h := @sizeEntry_greatest sampleConfig 1000 100 600 milliRules (by norm_num)
    (by decide +kernel) (by decide +kernel) (by norm_num) (by decide +kernel)
  rwa [show RiskManager.sizeEntry sampleConfig 1000 100 milliRules (some 600) =
    some (3333 / 1000) by decide +kernel] at h

end CryptoBot
