import CryptoBot.Research.Evaluate

/-!
# The learned model

`research/ml.py`: labels look ahead from the next bar's open, so a training row is purged when its
label window reaches the bars the model is to predict. The features of a bar, the model and the area
under the curve are parameters, as the libraries that compute them are not part of the repository.
What `walk_forward` is told of costs and stops it does not pass on, so they are no parameters here.
-/

namespace CryptoBot

open Lib Backtest Evaluate

namespace Ml

variable {K : Type} [Zero K] [One K] [Add K] [Sub K] [Mul K] [Div K] [Neg K] [NatCast K] [LT K] [LE K]
  [DecidableLT K] [DecidableLE K] [BEq K] [Min K] [Max K]

/-- The libraries of the model: rows of features, fitted models, their predictions, and the area under
the curve of labels and probabilities. -/
structure Learner (K Row Model : Type) where
  fit : List (Row × K) → Model
  predictProba : Model → List Row → List K
  rocAuc : List (K × K) → K

/-! ## Labels and rows -/

/-- `labels`: whether buying at the next bar's open and selling `horizon` bars later beats `edge`;
`none` where that is unknown. -/
def labels (df : List (Candle K)) (horizon : Nat) (edge : K) : List (Option K) :=
  let o := df.map (·.open_)
  (List.range o.length).map fun i =>
    if i < o.length - horizon - 1 then do
      let sell ← o[i + 1 + horizon]?
      let buy ← o[i + 1]?
      return if edge < sell / buy - 1 then 1 else 0
    else none

/-- `rows`: the rows with a known label whose label window does not reach `purgeBefore`. -/
def rows (start end_ : Nat) (y : List (Option K)) (purgeBefore : Option Nat) (horizon : Nat) :
    List Nat :=
  (List.range' start (end_ - start)).filter fun i =>
    y[i]?.join.isSome && purgeBefore.all fun bar => decide (i + 1 + horizon < bar)

/-! ## Signals -/

inductive Mode
  | ml | veto
deriving DecidableEq

/-- A value for each mode. -/
structure PerMode (α : Type) where
  ml : α
  veto : α
deriving DecidableEq

def PerMode.get {α : Type} (x : PerMode α) : Mode → α
  | .ml => x.ml
  | .veto => x.veto

def PerMode.of {α : Type} (f : Mode → α) : PerMode α := ⟨f .ml, f .veto⟩

/-- `ml_signals`. -/
def mlSignals (p : List (Option K)) (thr exitP : K) : List K :=
  p.map fun x =>
    match x with
    | some x => if x < exitP then -1 else if thr ≤ x then 1 else 0
    | none => 0

/-- `veto_signals`: the model may only block a buy. -/
def vetoSignals (v1Sig : List K) (p : List (Option K)) (thr : K) : List K :=
  (v1Sig.zip p).map fun x =>
    if 0 < x.1 ∧ !(x.2.any fun p => decide (thr ≤ p)) then 0 else x.1

/-- `EXIT_P`. -/
def exitP : K := 1 / 2

/-- `_signals`. -/
def signals (mode : Mode) (p : List (Option K)) (v1Sig : List K) (thr : K) : List K :=
  match mode with
  | .ml => mlSignals p thr exitP
  | .veto => vetoSignals v1Sig p thr

/-- `THRESHOLDS`, and the threshold without a validation. -/
def thresholdGrid : List K := [1 / 2, 55 / 100, 3 / 5, 65 / 100]

def defaultThreshold : K := 55 / 100

variable (lib : NumberLib K)

/-- `_bt`, with the stop of `V1_DEFAULT`. -/
def backtest (df : List (Candle K)) (sig : List K) (start end_ : Nat) (cfg : BTConfig K)
    (initial : Option K) : BTResult K :=
  run { cfg with
    stopPct := some (v1Default (K := K)).stop, initial := initial.getD cfg.initial } lib
    (slice start end_ df) ((slice start end_ sig).map some)

/-! ## Fitting -/

section
variable {Row Model : Type} (learner : Learner K Row Model)

/-- The rows of a training set with their labels. -/
def trainingSet (X : List Row) (y : List (Option K)) (idx : List Nat) : List (Row × K) :=
  idx.filterMap fun i => do return (← X[i]?, ← y[i]?.join)

/-- Too few rows, or only one label: there is nothing to fit. -/
def tooFew (data : List (Row × K)) (idx : List Nat) : Bool :=
  decide (idx.length < 200) || decide ((data.map Prod.snd).eraseDups.length < 2)

/-- `p[start:end] = values`. -/
def assign (p : List (Option K)) (start end_ : Nat) (values : List K) : List (Option K) :=
  (List.range p.length).map fun i =>
    if start ≤ i ∧ i < end_ then values[i - start]? else p[i]?.join

/-- The greatest Sharpe ratio of the thresholds that trade: the first threshold to reach it. -/
def bestThreshold (sharpe : K → Option K) : K :=
  (thresholdGrid.foldl (fun best thr =>
    match sharpe thr with
    | none => best
    | some s => if best.2.all (· < s) then (thr, some s) else best) (defaultThreshold, none)).1

/-- `choose_threshold`. -/
def chooseThreshold (mode : Mode) (df : List (Candle K)) (X : List Row) (y : List (Option K))
    (v1Sig : List K) (fitIdx : List Nat) (valStart valEnd : Nat) : K :=
  let data := trainingSet X y fitIdx
  if tooFew data fitIdx then defaultThreshold
  else
    let m := learner.fit data
    let p := assign (List.replicate df.length none) valStart valEnd
      (learner.predictProba m (slice valStart valEnd X))
    bestThreshold fun thr =>
      let r := backtest lib df (signals mode p v1Sig thr) valStart valEnd costs none
      if 1 ≤ r.metrics.trades then some r.metrics.sharpe else none

/-! ## Walk-forward -/

/-- A fold of the report. -/
structure Fold (K : Type) where
  testMonth : Int × Int
  auc : Option K
  trainRows : Nat
  thresholds : PerMode K
  return_ : PerMode K
  trades : PerMode Nat

/-- What is carried from fold to fold. -/
structure Carried (K : Type) where
  probs : List (Option K)
  eq : PerMode K
  eqStress : PerMode K
  eqFull : PerMode K
  trades : PerMode Nat

/-- The rows the model of a fold is fitted on, and those its thresholds are chosen with. -/
def trainRows (y : List (Option K)) (warm horizon teStart : Nat) : List Nat :=
  rows warm teStart y (some teStart) horizon

def innerRows (y : List (Option K)) (warm horizon vaStart : Nat) : List Nat :=
  rows warm vaStart y (some vaStart) horizon

/-- The first bar of the validation months of fold `k`. -/
def valStart (months : List Month) (valMonths k : Nat) : Option Nat :=
  months[max (k - valMonths) 1]?.map (·.start)

/-- The thresholds of fold `k`. -/
def foldThresholds (df : List (Candle K)) (X : List Row) (y : List (Option K)) (v1Sig : List K)
    (warm horizon valMonths k : Nat) : Option (PerMode K) := do
  let vaStart ← valStart (monthBounds df) valMonths k
  let last ← (monthBounds df)[k - 1]?
  return .of fun mode => chooseThreshold lib learner mode df X y v1Sig
    (innerRows y warm horizon vaStart) vaStart last.end_

/-- The training set of fold `k`. -/
def foldTraining (df : List (Candle K)) (X : List Row) (y : List (Option K)) (warm horizon k : Nat) :
    Option (List (Row × K)) :=
  (monthBounds df)[k]?.map fun te => trainingSet X y (trainRows y warm horizon (max te.start warm))

/-- One turn of the loop of `walk_forward`, without a shuffle. -/
def turn (df : List (Candle K)) (X : List Row) (y : List (Option K)) (v1Sig : List K)
    (warm horizon valMonths k : Nat) (st : Carried K) : Option (Fold K × Carried K) := do
  let te ← (monthBounds df)[k]?
  let teStart := max te.start warm
  let trainIdx := trainRows y warm horizon teStart
  let data ← foldTraining df X y warm horizon k
  if te.end_ - teStart < 2 then none
  else if tooFew data trainIdx then none
  else
    let thr ← foldThresholds lib learner df X y v1Sig warm horizon valMonths k
    let m := learner.fit data
    let probs := assign st.probs teStart te.end_ (learner.predictProba m (slice teStart te.end_ X))
    let tested := (rows teStart te.end_ y none horizon).filterMap fun i => do
      return (← y[i]?.join, ← probs[i]?.join)
    let auc := if (tested.map Prod.fst).eraseDups.length = 2 then some (learner.rocAuc tested)
      else none
    let result (cfg : BTConfig K) (initial : PerMode K) : PerMode (BTResult K) := .of fun mode =>
      backtest lib df (signals mode probs v1Sig (thr.get mode)) teStart te.end_ cfg
        (some (initial.get mode))
    let r := result costs st.eq
    let rs := result stress st.eqStress
    let rf := result { costs with sizing := .allIn } st.eqFull
    some ({ testMonth := te.name, auc, trainRows := trainIdx.length, thresholds := thr
            return_ := .of fun mode => (r.get mode).metrics.totalReturn
            trades := .of fun mode => (r.get mode).metrics.trades },
          { probs
            eq := .of fun mode => (r.get mode).metrics.finalEquity
            eqStress := .of fun mode => (rs.get mode).metrics.finalEquity
            eqFull := .of fun mode => (rf.get mode).metrics.finalEquity
            trades := .of fun mode => st.trades.get mode + (r.get mode).metrics.trades })

/-- The summary of one mode. -/
structure Summary (K : Type) where
  oosTotalReturn : K
  oosTrades : Nat
  oosStressReturn : K
  oosFullAllocReturn : K
  oosMonthlySharpe : K

/-- `walk_forward` without a shuffle: the folds, the summaries, the pooled area under the curve and the
probabilities. -/
def walkForward (df : List (Candle K)) (X : List Row) (y : List (Option K)) (v1Sig : List K)
    (warm horizon : Nat) (valMonths : Nat := 3) :
    List (Fold K) × PerMode (Summary K) × Option K × List (Option K) :=
  let (folds, st) := turns (turn lib learner df X y v1Sig warm horizon valMonths) 3
    ((monthBounds df).length - 3)
    { probs := List.replicate df.length none
      eq := ⟨1000, 1000⟩, eqStress := ⟨1000, 1000⟩, eqFull := ⟨1000, 1000⟩, trades := ⟨0, 0⟩ }
  let oos := (y.zip st.probs).filterMap fun x => do return (← x.1, ← x.2)
  let pooled := if (oos.map Prod.fst).eraseDups.length = 2 then some (learner.rocAuc oos) else none
  (folds, .of fun mode =>
    { oosTotalReturn := st.eq.get mode / 1000 - 1
      oosTrades := st.trades.get mode
      oosStressReturn := st.eqStress.get mode / 1000 - 1
      oosFullAllocReturn := st.eqFull.get mode / 1000 - 1
      oosMonthlySharpe := monthlySharpe lib (folds.map fun f => f.return_.get mode) }, pooled, st.probs)

end
end Ml
end CryptoBot
