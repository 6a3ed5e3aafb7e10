import CryptoBot.Application.RiskManager
import CryptoBot.MarketData.Candles
import Mathlib.Data.Rat.Cast.Defs

/-!
# The backtester

`research/backtest.py`: one loop over the bars of a frame, long only, one position at a time. A
signal is evaluated at a bar's close and acted on at the next bar's open. Nothing here depends on
the arithmetic, so the numbers are those of any type that has the operations; `none` is a signal
that is not a number.
-/

namespace CryptoBot

namespace Backtest

variable {K : Type} [Zero K] [One K] [Add K] [Sub K] [Mul K] [Div K] [NatCast K] [LT K] [LE K]
  [DecidableLT K] [DecidableLE K] [BEq K] [Min K] [Max K]

/-! ## Numerals

The numerals that several of the research modules write, each with its bound. -/

instance atLeastTwo_two : Nat.AtLeastTwo 2 := ⟨by decide⟩

instance atLeastTwo_three : Nat.AtLeastTwo 3 := ⟨by decide⟩

instance atLeastTwo_five : Nat.AtLeastTwo 5 := ⟨by decide⟩

instance atLeastTwo_hundred : Nat.AtLeastTwo 100 := ⟨by decide⟩

instance atLeastTwo_thousand : Nat.AtLeastTwo 1000 := ⟨by decide⟩

/-! ## Configuration and result -/

/-- The text of `sizing`: everything but `risk` puts all the cash in. -/
inductive Sizing
  | risk | allIn
deriving DecidableEq

structure BTConfig (K : Type) where
  initial : K
  feeRate : K
  slippageBps : K
  sizing : Sizing
  riskPct : K
  stopPct : Option K
  dailyLossPct : Option K
  maxHoldBars : Option Int
  barsPerYear : K
deriving DecidableEq

/-- What the truth value of an optional number lets through: neither `None` nor zero. -/
def nonzero (x : Option K) : Option K := x.filter (· != 0)

namespace BTConfig

/-- The defaults of the fields. -/
def defaults : BTConfig K where
  initial := 1000
  feeRate := 1 / 1000
  slippageBps := 5
  sizing := .risk
  riskPct := 1
  stopPct := some 3
  dailyLossPct := some 5
  maxHoldBars := none
  barsPerYear := 8760

variable (cfg : BTConfig K)

/-- `slip`. -/
def slip : K := cfg.slippageBps / 10000

/-- The stop, if there is one. -/
def stop : Option K := nonzero cfg.stopPct

/-- The time exit, if there is one. -/
def maxHold : Option Int := cfg.maxHoldBars.filter (· ≠ 0)

end BTConfig

inductive ExitReason
  | signal | time | stop | end_
deriving DecidableEq

/-- A row of the trades, with the bars it was entered and left on. -/
structure Trade (K : Type) where
  entryTime : Time
  entryPrice : K
  exitTime : Time
  exitPrice : K
  qty : K
  pnl : K
  return_ : K
  reason : ExitReason
  entryBar : Nat
  exitBar : Nat
deriving DecidableEq

/-- The column `bars`. -/
def Trade.bars (t : Trade K) : Nat := t.exitBar - t.entryBar

/-! ## The loop -/

/-- The local variables of `run`. `entryI`, `entryTime` and the other entry data are read only while
a position is open. -/
structure Book (K : Type) where
  cash : K
  qty : K
  entryPx : K
  stopPx : Option K
  entryI : Nat
  entryTime : Time
  entryFee : K
  equity : List K
  trades : List (Trade K)
  dayStartEq : K
  curDay : Option Int
  halted : Bool
  prevEq : K
  feesPaid : K
deriving DecidableEq

/-- The variables before the first bar. -/
def Book.start (cfg : BTConfig K) : Book K where
  cash := cfg.initial
  qty := 0
  entryPx := 0
  stopPx := none
  entryI := 0
  entryTime := 0
  entryFee := 0
  equity := []
  trades := []
  dayStartEq := cfg.initial
  curDay := none
  halted := false
  prevEq := cfg.initial
  feesPaid := 0

/-- `risk_manager.position_size`. -/
def positionSize (equity price riskPct stopLossPct : K) : K :=
  if equity ≤ 0 ∨ price ≤ 0 ∨ riskPct ≤ 0 ∨ stopLossPct ≤ 0 then 0
  else
    let riskAmount := equity * (riskPct / 100)
    let positionValue := min (riskAmount / (stopLossPct / 100)) equity
    max 0 (positionValue / price)

/-- The engine sizes its entries by the same function. -/
theorem positionSize_rat : positionSize (K := ℚ) = RiskV1.positionSize := rfl

variable (cfg : BTConfig K)

/-- `close_position`. -/
def closePosition (i : Nat) (time : Time) (rawPx : K) (reason : ExitReason) (b : Book K) : Book K :=
  let px := rawPx * (1 - cfg.slip)
  let proceeds := b.qty * px
  let fee := proceeds * cfg.feeRate
  let pnl := proceeds - fee - (b.qty * b.entryPx + b.entryFee)
  { b with
    cash := b.cash + (proceeds - fee)
    feesPaid := b.feesPaid + fee
    trades := b.trades ++
      [{ entryTime := b.entryTime, entryPrice := b.entryPx, exitTime := time, exitPrice := px
         qty := b.qty, pnl, return_ := pnl / (b.qty * b.entryPx + b.entryFee), reason
         entryBar := b.entryI, exitBar := i }]
    qty := 0 }

/-- The day a bar belongs to. -/
def dayOf (c : Candle K) : Int := c.timestamp / seconds 86400

/-- A new UTC day resets the daily-loss baseline. -/
def newDay (c : Candle K) (b : Book K) : Book K :=
  if b.curDay ≠ some (dayOf c) then
    { b with curDay := some (dayOf c), dayStartEq := b.prevEq, halted := false }
  else b

/-- What an entry at the price `px` spends, without its fee. -/
def notional (cash px : K) : K :=
  match cfg.sizing, cfg.stop with
  | .risk, some stopPct =>
    min (positionSize cash px cfg.riskPct stopPct * px) (cash / (1 + cfg.feeRate))
  | _, _ => cash / (1 + cfg.feeRate)

/-- The entry at a bar's open, if there is anything to spend. -/
def enter (i : Nat) (c : Candle K) (b : Book K) : Book K :=
  let px := c.open_ * (1 + cfg.slip)
  let spent := notional cfg b.cash px
  if 0 < spent then
    let entryFee := spent * cfg.feeRate
    { b with
      entryFee
      cash := b.cash - (spent + entryFee)
      feesPaid := b.feesPaid + entryFee
      qty := spent / px
      entryPx := px
      entryI := i
      entryTime := c.timestamp
      stopPx := cfg.stop.map fun stopPct => px * (1 - stopPct / 100) }
  else b

/-- Whether the position has been held for `max_hold_bars`. -/
def holdExpired (i : Nat) (b : Book K) : Bool :=
  cfg.maxHold.any fun bars => decide (bars ≤ (i : Int) - b.entryI)

/-- What is done at a bar's open on the signal `s` of the bar before. -/
def act (i : Nat) (s : K) (c : Candle K) (b : Book K) : Book K :=
  if 0 < b.qty ∧ (s < 0 ∨ holdExpired cfg i b) then
    closePosition cfg i c.timestamp c.open_ (if s < 0 then .signal else .time) b
  else if (b.qty == 0) ∧ 0 < s ∧ !b.halted then enter cfg i c b
  else b

/-- The intrabar stop: at the stop price, or at the open if that is lower. -/
def stopOut (i : Nat) (c : Candle K) (b : Book K) : Book K :=
  match b.stopPx with
  | some stopPx =>
    if 0 < b.qty ∧ c.low ≤ stopPx then
      closePosition cfg i c.timestamp (min stopPx c.open_) .stop b
    else b
  | none => b

/-- The mark to market at the close, and the daily-loss halt. -/
def mark (c : Candle K) (b : Book K) : Book K :=
  let eq := b.cash + b.qty * c.close
  { b with
    equity := b.equity ++ [eq]
    prevEq := eq
    halted := b.halted || (nonzero cfg.dailyLossPct).any fun pct =>
      decide (eq < b.dayStartEq * (1 - pct / 100)) }

/-- The open of a bar: a new day, then the signal of the bar before, if there is one. -/
def opening (i : Nat) (signal : Option K) (c : Candle K) (b : Book K) : Book K :=
  match signal with
  | some s => act cfg i s c (newDay c b)
  | none => newDay c b

/-- One turn of the loop. -/
def bar (i : Nat) (signal : Option K) (c : Candle K) (b : Book K) : Book K :=
  mark cfg c (stopOut cfg i c (opening cfg i signal c b))

/-- The loop from bar `i` on, where `signal` is that of the bar before. A bar comes with the signal
at its own close. -/
def loop (i : Nat) (signal : Option K) : List (Candle K × K) → Book K → Book K
  | [], b => b
  | (c, s) :: bars, b => loop (i + 1) (some s) bars (bar cfg i signal c b)

/-- The bars of a frame with signals aligned to it: `np.nan_to_num` makes a signal that is not a
number zero. -/
def aligned (df : List (Candle K)) (signals : List (Option K)) : List (Candle K × K) :=
  df.zip (signals.map (·.getD 0))

/-- The book when the last bar has closed. -/
def lastBook (bars : List (Candle K × K)) : Book K := loop cfg 0 none bars (Book.start cfg)

/-- What is still open at the end is closed at the last close. -/
def settle (bars : List (Candle K × K)) (b : Book K) : Book K :=
  match bars.getLast? with
  | some (c, _) =>
    if 0 < b.qty then
      let b := closePosition cfg (bars.length - 1) c.timestamp c.close .end_ b
      { b with equity := b.equity.dropLast ++ [b.cash] }
    else b
  | none => b

/-! ## Metrics -/

/-- Square roots and powers, and the infinite number. -/
structure NumberLib (K : Type) where
  sqrt : K → K
  pow : K → K → K
  inf : K

structure Metrics (K : Type) where
  totalReturn : K
  cagr : K
  maxDrawdown : K
  sharpe : K
  sortino : K
  calmar : K
  trades : Nat
  winRate : K
  profitFactor : K
  avgTradeReturn : K
  exposure : K
  feesPaid : K
  finalEquity : K
deriving DecidableEq

/-- `EMPTY_METRICS`, with the balance nothing was done to. -/
def emptyMetrics : Metrics K where
  totalReturn := 0
  cagr := 0
  maxDrawdown := 0
  sharpe := 0
  sortino := 0
  calmar := 0
  trades := 0
  winRate := 0
  profitFactor := 0
  avgTradeReturn := 0
  exposure := 0
  feesPaid := 0
  finalEquity := cfg.initial

def mean (xs : List K) : K := xs.sum / (xs.length : K)

/-- The changes from one equity to the next, none where there was nothing to change. -/
def returns : List K → List K
  | x :: y :: xs => (if 0 < x then (y - x) / x else 0) :: returns (y :: xs)
  | _ => []

/-- How far the equity is below its highest value so far. -/
def drawdowns : (peak : K) → List K → List K
  | _, [] => []
  | peak, x :: xs =>
    let peak := max peak x
    (if 0 < peak then (x - peak) / peak else 0) :: drawdowns peak xs

/-- The standard deviation of a sample. -/
def deviation (lib : NumberLib K) (xs : List K) : K :=
  let m := mean xs
  lib.sqrt ((xs.map fun x => (x - m) * (x - m)).sum / ((xs.length : K) - 1))

/-- `metrics`. -/
def metrics (lib : NumberLib K) (equity : List K) (trades : List (Trade K)) (feesPaid : K) :
    Metrics K :=
  match equity, equity.getLast? with
  | first :: rest, some last =>
    let rets := match rest with
      | [] => [0]
      | _ :: _ => returns equity
    let years := max ((equity.length : K) / cfg.barsPerYear) (1 / 1000000000)
    let total := if 0 < first then last / first - 1 else 0
    let maxDd := (drawdowns first equity).foldl min 0
    let sd := if 1 < rets.length then deviation lib rets else 0
    let downside := rets.filter fun r => decide (r < 0)
    let dsd := match downside with
      | [] => 0
      | _ :: _ => lib.sqrt (mean (downside.map fun r => r * r))
    let ann := lib.sqrt cfg.barsPerYear
    let wins := ((trades.filter fun t => decide (0 < t.pnl)).map (·.pnl)).sum
    let losses := 0 - ((trades.filter fun t => decide (t.pnl < 0)).map (·.pnl)).sum
    let cagr := if 0 - 1 < total then lib.pow (1 + total) (1 / years) - 1 else 0 - 1
    { totalReturn := total
      cagr
      maxDrawdown := maxDd
      sharpe := if 0 < sd then mean rets / sd * ann else 0
      sortino := if 0 < dsd then mean rets / dsd * ann else 0
      calmar := if maxDd < 0 then cagr / (0 - maxDd) else 0
      trades := trades.length
      winRate := if trades = [] then 0
        else mean (trades.map fun t => if 0 < t.pnl then 1 else 0)
      profitFactor := if 0 < losses then wins / losses else if 0 < wins then lib.inf else 0
      avgTradeReturn := if trades = [] then 0 else mean (trades.map (·.return_))
      exposure := if trades = [] then 0
        else (((trades.map (·.bars)).sum : Nat) : K) / ((max equity.length 1 : Nat) : K)
      feesPaid
      finalEquity := last }
  | _, _ => emptyMetrics cfg

structure BTResult (K : Type) where
  equity : List K
  trades : List (Trade K)
  metrics : Metrics K

/-- `run`. -/
def run (lib : NumberLib K) (df : List (Candle K)) (signals : List (Option K)) : BTResult K :=
  let bars := aligned df signals
  let b := settle cfg bars (lastBook cfg bars)
  { equity := b.equity, trades := b.trades
    metrics := metrics cfg lib b.equity b.trades b.feesPaid }

/-! ### Samples -/

/-- Square roots rounded down to a millionth, and powers with whole exponents. -/
def sampleLib : NumberLib ℚ where
  sqrt x := (Nat.sqrt (x * 1000000000000).floor.toNat : ℚ) / 1000000
  pow x y := x ^ y.num.toNat
  inf := 10 ^ 300

/-- A candle of one price, `hours` after the epoch. -/
def flatCandle (hours : Int) (price : ℚ) : Candle ℚ :=
  ⟨hours * seconds 3600, price, price, price, price⟩

/-- Hourly candles of these prices. -/
def flatFrame (prices : List ℚ) : List (Candle ℚ) :=
  prices.zipIdx.map fun x => flatCandle x.2 x.1

/-- All the cash, no costs, no stop and no daily limit. -/
def freeCosts : BTConfig ℚ :=
  { BTConfig.defaults with
    feeRate := 0, slippageBps := 0, sizing := .allIn, stopPct := none, dailyLossPct := none
    barsPerYear := 4 }

end Backtest
end CryptoBot
