import CryptoBot.Lib.Causal
import CryptoBot.Research.Backtest

/-!
# Walk-forward tuning

`research/evaluate.py`, with the signals of `research/strategies.py` it trades on: the frame is cut
into calendar months, parameters are selected on three months and tested on the next one. A score
that is not a number is `none`.
-/

namespace CryptoBot

open Lib Backtest

/-! ## Months -/

/-- `strftime("%Y-%m")`: the year and the month of an instant. -/
def monthOf (t : Time) : Int × Int :=
  let days := t / seconds 86400 + 719468
  let era := days / 146097
  let doe := days - era * 146097
  let yoe := (doe - doe / 1460 + doe / 36524 - doe / 146096) / 365
  let doy := doe - (365 * yoe + yoe / 4 - yoe / 100)
  let mp := (5 * doy + 2) / 153
  let month := if mp < 10 then mp + 3 else mp - 9
  (yoe + era * 400 + if month ≤ 2 then 1 else 0, month)

example : monthOf 0 = (1970, 1) ∧ monthOf (seconds (-1)) = (1969, 12) ∧
    monthOf (seconds 1709164800) = (2024, 2) ∧ monthOf (seconds 1709251200) = (2024, 3) := by decide

/-- A month of a frame and its bars, from `start` up to `end_`. -/
structure Month where
  name : Int × Int
  start : Nat
  end_ : Nat
deriving DecidableEq

/-- The months from bar `i` on, where the month `name` began at bar `start`. -/
def monthsFrom (start i : Nat) (name : Int × Int) : List (Int × Int) → List Month
  | [] => [⟨name, start, i⟩]
  | name' :: names =>
    if name' ≠ name then ⟨name, start, i⟩ :: monthsFrom i (i + 1) name' names
    else monthsFrom start (i + 1) name names

/-- The runs of equal names. -/
def monthsOf : List (Int × Int) → List Month
  | [] => []
  | name :: names => monthsFrom 0 1 name names

variable {K : Type} [Zero K] [One K] [Add K] [Sub K] [Mul K] [Div K] [Neg K] [NatCast K] [LT K] [LE K]
  [DecidableLT K] [DecidableLE K] [BEq K] [Min K] [Max K]

/-- `month_bounds`. -/
def monthBounds (df : List (Candle K)) : List Month := monthsOf (df.map fun c => monthOf c.timestamp)

/-! ## Signals -/

/-- `thresholds`. -/
def thresholds (buy sell : K) (scores : List (Option K)) : List K :=
  scores.map fun score =>
    match score with
    | some x => if x ≤ sell then -1 else if buy ≤ x then 1 else 0
    | none => 0

/-- `buy_hold`, from the first bar on. -/
def buyHold (df : List (Candle K)) : List K :=
  (List.range df.length).map fun i => if i = 0 then 1 else 0

/-! ## Selection -/

/-- `key > best_key`, for pairs. -/
def keyGreater (key best : K × K) : Bool :=
  if key.1 == best.1 then decide (best.2 < key.2) else decide (best.1 < key.1)

/-- The search of both `select`s: the first candidate with the greatest key, among those that have
one. -/
def selectBy {P : Type} (key : P → Option (K × K)) (candidates : List P) : Option P :=
  (candidates.foldl (fun best p =>
    match key p with
    | none => best
    | some k =>
      match best with
      | none => some (p, k)
      | some (_, best') => if keyGreater k best' then some (p, k) else best) none).map Prod.fst

namespace Evaluate

structure Params (K : Type) where
  buy : K
  sell : K
  stop : K
deriving DecidableEq

structure Grid (K : Type) where
  buy : List K
  sell : List K
  stop : List K

/-- `GRID`. -/
def grid : Grid K where
  buy := [3 / 2, 2, 5 / 2, 3, 7 / 2]
  sell := [-(3 / 2), -2, -(5 / 2), -3, -(7 / 2)]
  stop := [2, 3, 4, 5, 6]

/-- `V1_DEFAULT`. -/
def v1Default : Params K := { buy := 5 / 2, sell := -(5 / 2), stop := 3 }

/-- `COSTS`. -/
def costs : BTConfig K := .defaults

/-- `STRESS`. -/
def stress : BTConfig K := { costs with feeRate := 2 / 1000, slippageBps := 10 }

/-- `itertools.product` over the grid. -/
def Grid.product (g : Grid K) : List (Params K) :=
  g.buy.flatMap fun buy => g.sell.flatMap fun sell => g.stop.map fun stop => { buy, sell, stop }

variable (lib : NumberLib K)

/-- `v1_run`. -/
def v1Run (df : List (Candle K)) (scores : List (Option K)) (p : Params K) (cfg : BTConfig K)
    (start end_ : Nat) (initial : Option K) : BTResult K :=
  let sub := slice start end_ df
  let sig := thresholds p.buy p.sell (slice start end_ scores)
  run { cfg with stopPct := some p.stop, initial := initial.getD cfg.initial } lib sub (sig.map some)

/-- `select`. -/
def select (df : List (Candle K)) (scores : List (Option K)) (start end_ : Nat) (g : Grid K)
    (cfg : BTConfig K) (minTrades : Nat := 3) : Params K :=
  (selectBy (fun p =>
    let m := (v1Run lib df scores p cfg start end_ none).metrics
    if m.trades < minTrades then none else some (m.sharpe, m.totalReturn)) g.product).getD v1Default

/-- A fold of the report. -/
structure Fold (K : Type) where
  testMonth : Int × Int
  params : Params K
  totalReturn : K
  maxDrawdown : K
  trades : Nat
  v1DefaultReturn : K
deriving DecidableEq

/-- What is carried from fold to fold. -/
structure Carried (K : Type) where
  equity : K
  trades : Nat
deriving DecidableEq

/-- The first bar a fold trains on: three months back, but not within the warm-up. -/
def trainStart (months : List Month) (warm k : Nat) : Option Nat :=
  months[k - 3]?.map fun m => max m.start warm

/-- The parameters of fold `k`. -/
def foldParams (df : List (Candle K)) (scores : List (Option K)) (warm : Nat) (g : Grid K)
    (cfg : BTConfig K) (k : Nat) : Option (Params K) := do
  let trStart ← trainStart (monthBounds df) warm k
  let last ← (monthBounds df)[k - 1]?
  return select lib df scores trStart last.end_ g cfg

/-- One turn of the loop of `walk_forward`: a fold without enough bars to train or to test on is
skipped. -/
def turn (df : List (Candle K)) (scores : List (Option K)) (warm : Nat) (g : Grid K)
    (cfg : BTConfig K) (k : Nat) (st : Carried K) : Option (Fold K × Carried K) := do
  let months := monthBounds df
  let trStart ← trainStart months warm k
  let last ← months[k - 1]?
  let te ← months[k]?
  if last.end_ - trStart < 20 ∨ te.end_ - max te.start warm < 2 then none
  else
    let p ← foldParams lib df scores warm g cfg k
    let r := v1Run lib df scores p cfg (max te.start warm) te.end_ (some st.equity)
    let d := v1Run lib df scores v1Default cfg (max te.start warm) te.end_ (some 1000)
    some ({ testMonth := te.name, params := p, totalReturn := r.metrics.totalReturn
            maxDrawdown := r.metrics.maxDrawdown, trades := r.metrics.trades
            v1DefaultReturn := d.metrics.totalReturn },
          { equity := r.metrics.finalEquity, trades := st.trades + r.metrics.trades })

/-- `_sharpe`, and the Sharpe ratio of `walk_forward`: over twelve months. -/
def monthlySharpe (rets : List K) : K :=
  if 1 < rets.length ∧ 0 < deviation lib rets then
    mean rets / deviation lib rets * lib.sqrt 12
  else 0

/-- The summary of `walk_forward`. -/
structure Summary (K : Type) where
  oosTotalReturn : K
  oosTrades : Nat
  oosMonthlySharpe : K
  oosWorstMonth : K

/-- `walk_forward`. -/
def walkForward (df : List (Candle K)) (scores : List (Option K)) (warm : Nat) (g : Grid K)
    (cfg : BTConfig K) : List (Fold K) × Summary K :=
  let (folds, st) := turns (turn lib df scores warm g cfg) 3 ((monthBounds df).length - 3) ⟨1000, 0⟩
  let rets := folds.map (·.totalReturn)
  (folds,
    { oosTotalReturn := st.equity / 1000 - 1, oosTrades := st.trades
      oosMonthlySharpe := monthlySharpe lib rets
      oosWorstMonth := match rets with
        | [] => 0
        | r :: rets => rets.foldl min r })

end Evaluate
end CryptoBot
