import CryptoBot.Application.Effects

/-!
# Risk limits

`risk_manager.py`, `engine/risk/rules.py` and `engine/risk/manager.py`, in exact arithmetic: sizing,
the stop price, the daily loss limit with its persisted state, and the entry rules.
-/

namespace CryptoBot

open Lib

namespace RiskV1

/-- `position_size`. -/
def positionSize (equity price riskPct stopLossPct : ℚ) : ℚ :=
  if equity ≤ 0 ∨ price ≤ 0 ∨ riskPct ≤ 0 ∨ stopLossPct ≤ 0 then 0
  else
    let riskAmount := equity * (riskPct / 100)
    let positionValue := min (riskAmount / (stopLossPct / 100)) equity
    max 0 (positionValue / price)

/-- `stop_loss_price` of a long position. -/
def stopLossPrice (entryPrice stopLossPct : ℚ) : ℚ := entryPrice * (1 - stopLossPct / 100)

/-- `check_daily_loss_limit`: a halt, once set, stays. -/
def checkDailyLossLimit (equity dayStartEquity : ℚ) (halted : Bool) (limitPct : ℚ) : Bool :=
  if dayStartEquity ≤ 0 then halted
  else halted || decide (limitPct ≤ (dayStartEquity - equity) / dayStartEquity * 100)

end RiskV1

/-- Why an entry is not taken. -/
inductive EntryBlock
  | botPaused | emergencyStop | globalTradingDisabled
  | reconciliation (status : ReconciliationStatus)
  | balancesUnavailable
  | maxOpenPositions (openCount limit : Nat)
  | dailyLossLimit
  | strategyExitsSuspended
deriving DecidableEq

namespace RiskManager

variable (cfg : Config)

/-- `update_daily` on the stored state: a new date starts a new day at the current equity. -/
def nextDay (stored : Option RiskDay) (equity : ℚ) (today : Int) : RiskDay :=
  let st := match stored with
    | some d => if d.date = today then d else ⟨today, equity, false⟩
    | none => ⟨today, equity, false⟩
  { st with halted :=
      RiskV1.checkDailyLossLimit equity st.dayStartEquity st.halted cfg.dailyLossLimitPct }

/-- `update_daily`. -/
def updateDaily (equity : ℚ) (today : Int) : Engine Bool := do
  let stored ← query .query (·.riskDay cfg.bot)
  let day := nextDay cfg stored equity today
  transaction .commit (Store.setRiskDay cfg.bot day)
  return day.halted

/-- `is_daily_halted`. -/
def isDailyHalted (s : Ledger) : Bool := (s.riskDay cfg.bot).any (·.halted)

/-- `size_entry`: a tradeable quantity within the risk and the spendable quote balance. -/
def sizeEntry (equity price : ℚ) (rules : SymbolRules) (quoteFree : Option ℚ) : Option ℚ :=
  let size := RiskV1.positionSize equity price cfg.riskPerTradePct cfg.stopLossPct
  let size := match quoteFree with
    | some free => if 0 < price then min size (free / price) else size
    | none => size
  let qty := rules.roundQty size
  if rules.isTradeable qty price then some qty else none

/-- `stop_price`. -/
def stopPrice (entryPrice : ℚ) : ℚ := RiskV1.stopLossPrice entryPrice cfg.stopLossPct

/-- `entry_checks`. -/
def entryChecks (openPositions : Nat) (dailyHalted : Bool) : List EntryBlock :=
  (if openPositions < cfg.maxOpenPositions then []
    else [.maxOpenPositions openPositions cfg.maxOpenPositions]) ++
  (if dailyHalted then [.dailyLossLimit] else [])

end RiskManager

end CryptoBot
