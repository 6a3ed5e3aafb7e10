import CryptoBot.Research.Evaluate

/-!
# The overlay

`research/overlay.py`: hold while the close is not below a moving average, with a confirmation before
every change. The rule tracks whether it holds over the whole frame and signals its changes; a window
is run on the signals that fall into it. `none` is a moving average or a signal that is not a number.
-/

namespace CryptoBot

open Lib

/-- The last `n` of the elements up to the one at `i`: `rolling(n)`, where it has enough of them. -/
def rolling {α : Type} (n i : Nat) (xs : List α) : List α := slice (i + 1 - n) (i + 1) xs

namespace Overlay

open Backtest

variable {K : Type} [Zero K] [One K] [Add K] [Sub K] [Mul K] [Div K] [Neg K] [NatCast K] [LT K] [LE K]
  [DecidableLT K] [DecidableLE K] [BEq K] [Min K] [Max K]

structure Params (K : Type) where
  ma : Nat
  confirm : Nat
  buffer : K
deriving DecidableEq

/-- The variable `state` of `signals`: 0, 1 or -1. -/
inductive Stance
  | undecided | hold | flat
deriving DecidableEq

/-! ## The rule -/

/-- The moving average at bar `i`. -/
def line (p : Params K) (closes : List K) (i : Nat) : Option K :=
  if 0 < p.ma ∧ p.ma ≤ i + 1 then some (mean (rolling p.ma i closes)) else none

/-- `above`, bar by bar. -/
def above (p : Params K) (closes : List K) : List Bool :=
  closes.zipIdx.map fun x =>
    (line p closes x.2).any fun avg => decide (avg * (1 - p.buffer) ≤ x.1)

/-- `below`, bar by bar. -/
def below (p : Params K) (closes : List K) : List Bool :=
  closes.zipIdx.map fun x =>
    (line p closes x.2).any fun avg => decide (x.1 < avg * (1 - p.buffer))

/-- Whether `confirm` bars in a row up to bar `i` are flagged. -/
def confirmed (confirm : Nat) (flags : List Bool) (i : Nat) : Bool :=
  decide (confirm ≤ i + 1) && (rolling confirm i flags).all id

/-- What the rule sees at a bar: whether it has an average, and which change is confirmed. -/
structure Reading where
  known : Bool
  runUp : Bool
  runDn : Bool
deriving DecidableEq

def readings (p : Params K) (closes : List K) : List Reading :=
  (List.range closes.length).map fun i =>
    { known := (line p closes i).isSome
      runUp := confirmed p.confirm (above p closes) i
      runDn := confirmed p.confirm (below p closes) i }

/-- One turn of the loop of `signals`: the new state and the signal. -/
def react (state : Stance) (r : Reading) : Stance × K :=
  if !r.known then (state, 0)
  else if state ≠ .hold ∧ r.runUp then (.hold, 1)
  else if state = .hold ∧ r.runDn then (.flat, -1)
  else (state, 0)

/-- The loop of `signals`: the state after each bar, and its signal. -/
def track (state : Stance) : List Reading → List (Stance × K)
  | [] => []
  | r :: rs => react state r :: track (react (K := K) state r).1 rs

/-- The rule over a frame. -/
def rule (p : Params K) (df : List (Candle K)) : List (Stance × K) :=
  track .undecided (readings p (df.map (·.close)))

/-- `signals`. -/
def signals (p : Params K) (df : List (Candle K)) : List K := (rule p df).map Prod.snd

/-- The state of the rule after each bar. -/
def stances (p : Params K) (df : List (Candle K)) : List Stance := (rule p df).map Prod.fst

/-! ## A window -/

/-- The bars of a window, with the signals that fall into it. -/
def window (p : Params K) (df : List (Candle K)) (start end_ : Nat) : List (Candle K × K) :=
  aligned (slice start end_ df) ((slice start end_ (signals p df)).map some)

/-- `run_variant`. -/
def runVariant (lib : NumberLib K) (df : List (Candle K)) (p : Params K) (cfg : BTConfig K)
    (start : Nat) (end_ : Option Nat) (initial : Option K) : BTResult K :=
  let end_ := end_.getD df.length
  let sub := slice start end_ df
  let sig := slice start end_ (signals p df)
  let cfg := match initial with
    | some initial => { cfg with initial }
    | none => cfg
  run cfg lib sub (sig.map some)

/-! ## Walk-forward -/

structure Grid (K : Type) where
  ma : List Nat
  confirm : List Nat
  buffer : List K

/-- `GRID`. -/
def grid : Grid K where
  ma := [50, 100, 150, 200]
  confirm := [1, 2, 3]
  buffer := [0, 1 / 100, 2 / 100]

/-- `itertools.product` over the grid. -/
def Grid.product (g : Grid K) : List (Params K) :=
  g.ma.flatMap fun ma => g.confirm.flatMap fun confirm => g.buffer.map fun buffer =>
    { ma, confirm, buffer }

/-- `COSTS`. -/
def costs : BTConfig K := { Evaluate.costs with sizing := .allIn, stopPct := none }

variable (lib : NumberLib K)

/-- `select`: by return per unit of drawdown. -/
def select (g : Grid K) (df : List (Candle K)) (cfg : BTConfig K) (start end_ : Nat) : Params K :=
  (selectBy (fun p =>
    let m := (runVariant lib df p cfg start (some end_) none).metrics
    if m.trades < 1 then none else some (m.calmar, m.totalReturn)) g.product).getD
      { ma := 200, confirm := 2, buffer := 0 }

/-- A fold of the report. -/
structure Fold (K : Type) where
  month : Int × Int
  params : Params K
  return_ : K
  holdReturn : K
  trades : Nat
deriving DecidableEq

/-- What is carried from fold to fold. -/
structure Carried (K : Type) where
  equity : K
  holdEquity : K
deriving DecidableEq

/-- The parameters of fold `k`. -/
def foldParams (g : Grid K) (df : List (Candle K)) (cfg : BTConfig K) (warm k : Nat) :
    Option (Params K) :=
  (monthBounds df)[k - 1]?.map fun last => select lib g df cfg warm last.end_

/-- One turn of the loop of `walk_forward`. -/
def turn (g : Grid K) (df : List (Candle K)) (cfg : BTConfig K) (warm k : Nat) (st : Carried K) :
    Option (Fold K × Carried K) := do
  let months := monthBounds df
  let last ← months[k - 1]?
  let te ← months[k]?
  let teStart := max te.start warm
  if last.end_ - warm < 30 ∨ te.end_ - teStart < 2 then none
  else
    let p ← foldParams lib g df cfg warm k
    let r := runVariant lib df p cfg teStart (some te.end_) (some st.equity)
    let sub := slice teStart te.end_ df
    let h := run { cfg with initial := st.holdEquity } lib sub ((buyHold sub).map some)
    some ({ month := te.name, params := p, return_ := r.metrics.totalReturn
            holdReturn := h.metrics.totalReturn, trades := r.metrics.trades },
          { equity := r.metrics.finalEquity, holdEquity := h.metrics.finalEquity })

/-- `walk_forward`: the folds, and what the strategy and holding have made of 1000. -/
def walkForward (g : Grid K) (df : List (Candle K)) (cfg : BTConfig K) (warm : Nat) :
    List (Fold K) × Carried K :=
  turns (turn lib g df cfg warm) 6 ((monthBounds df).length - 6) ⟨1000, 1000⟩

end Overlay
end CryptoBot
