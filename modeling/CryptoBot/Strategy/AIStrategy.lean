import CryptoBot.Strategy.MultiFactor
import CryptoBot.Research.Ml

/-!
# The AI layer of the live engine

`engine/strategy/ai_strategy.py`, beside the signals of `research/ml.py` that its model was validated
with. The engine decides by a chain of comparisons and the research by assignments of which the last
one wins, so a probability that is not a number, or one that asks for both a buy and a sell, is
treated differently. Formatting and rounding of numbers are parameters.
-/

namespace CryptoBot

open Lib

/-- A strategy's signal; a score that is not a number is `none`. -/
structure StrategySignal (K : Type) where
  action : SignalAction
  score : Option K
  reasons : List String
deriving DecidableEq

/-- What the engine reads of an artifact's `meta`. -/
structure ArtifactMeta (K : Type) where
  mode : Ml.Mode
  threshold : K
  exitP : K
  edge : K
deriving DecidableEq

/-- `ModelRejected` of a validated artifact. -/
inductive ModelRejected
  | modeMismatch (validated configured : Ml.Mode)
deriving DecidableEq

structure AIStrategy (K : Type) where
  mode : Ml.Mode
  threshold : K
  exitP : K
  edge : K
deriving DecidableEq

/-- How numbers are written and rounded: `f"{x:.2f}"` and `round(x, 4)`. -/
structure NumberText (K : Type) where
  fixed2 : Option K → String
  round4 : K → K

namespace AIStrategy

open MultiFactor

section
variable {K : Type}

/-- `__init__` of an artifact that has been verified. -/
def init (strategyMode : Ml.Mode) (artifact : ArtifactMeta K) :
    Except ModelRejected (AIStrategy K) :=
  if artifact.mode ≠ strategyMode then .error (.modeMismatch artifact.mode strategyMode)
  else .ok { mode := artifact.mode, threshold := artifact.threshold, exitP := artifact.exitP
             edge := artifact.edge }

variable [Mul K] [NatCast K] [LT K] [LE K] [DecidableLT K] [DecidableLE K]

/-- `evaluate`, from the signal of V1 and the probability of the model. -/
def evaluate (text : NumberText K) (self : AIStrategy K) (base : StrategySignal K) (p : Option K) :
    StrategySignal K :=
  let note := "AI p(24h up > " ++ text.fixed2 (some (self.edge * (100 : Nat))) ++ "%) = " ++
    text.fixed2 p ++ " (threshold " ++ text.fixed2 (some self.threshold) ++ ")"
  match self.mode with
  | .veto =>
    if base.action = .buy ∧ (p.any fun x => decide (x < self.threshold)) then
      { action := .hold, score := base.score
        reasons := base.reasons ++ [note ++ " - V1 buy vetoed"] }
    else { action := base.action, score := base.score, reasons := base.reasons ++ [note] }
  | .ml =>
    { action :=
        if p.any fun x => decide (self.threshold ≤ x) then .buy
        else if p.any fun x => decide (x < self.exitP) then .sell
        else .hold
      score := p.map text.round4
      reasons := note :: base.reasons }

variable [Zero K] [One K] [Neg K]

/-- The signals of the research for the mode and the parameters of an artifact. -/
def researched (self : AIStrategy K) (v1Sig : List K) (p : List (Option K)) : List K :=
  match self.mode with
  | .veto => Ml.vetoSignals v1Sig p self.threshold
  | .ml => Ml.mlSignals p self.threshold self.exitP

/-- What the encoding of actions and the comparisons rest on. Floating point has it, numbers or not. -/
structure Comparable (K : Type) [Zero K] [One K] [Neg K] [LT K] [LE K] : Prop where
  not_lt : ∀ a b : K, a ≤ b → ¬ b < a
  zero_lt_one : (0 : K) < 1
  not_pos_zero : ¬ (0 : K) < 0
  not_pos_neg : ¬ (0 : K) < -1
  neg_ne_zero : (-1 : K) ≠ 0

/-- Engine and research decide alike: in veto mode on a buy of V1, the probability compares with the
threshold; in ml mode it does not ask for a buy and a sell. -/
def Decided (self : AIStrategy K) (base : SignalAction) (p : Option K) : Prop :=
  match self.mode with
  | .veto => base = .buy → ∃ x ∈ p, self.threshold ≤ x ∨ x < self.threshold
  | .ml => ∀ x ∈ p, self.threshold ≤ x → ¬ x < self.exitP

end

/-! ## The two decisions at a bar -/

section
variable {K : Type} [Zero K] [One K] [Neg K] [Mul K] [NatCast K] [LT K] [LE K] [DecidableLT K]
  [DecidableLE K] {text : NumberText K} {self : AIStrategy K} {base : StrategySignal K}
  {p : Option K} {thr exitP : K}

omit [Mul K] [NatCast K] [DecidableLT K] [DecidableLE K] in
theorem Comparable.encode_inj (hK : Comparable K) {a b : SignalAction} :
    (encode a : K) = encode b ↔ a = b := by
  have hone : (1 : K) ≠ 0 := fun h => hK.not_pos_zero (h ▸ hK.zero_lt_one)
  have hneg : (1 : K) ≠ -1 := fun h => hK.not_pos_neg (h ▸ hK.zero_lt_one)
  refine ⟨fun h => ?_, congrArg encode⟩
  cases a with
  | buy =>
    cases b with
    | buy => rfl
    | sell => exact absurd h hneg
    | hold => exact absurd h hone
  | sell =>
    cases b with
    | buy => exact absurd h.symm hneg
    | sell => rfl
    | hold => exact absurd h hK.neg_ne_zero
  | hold =>
    cases b with
    | buy => exact absurd h.symm hone
    | sell => exact absurd h.symm hK.neg_ne_zero
    | hold => rfl

/-- The action that `veto_signals` encodes at a bar. -/
def vetoed (thr : K) (base : SignalAction) (p : Option K) : SignalAction :=
  if base = .buy ∧ !(p.any fun x => decide (thr ≤ x)) then .hold else base

/-- The action that `ml_signals` encodes at a bar. -/
def predicted (thr exitP : K) (p : Option K) : SignalAction :=
  if p.any fun x => decide (x < exitP) then .sell
  else if p.any fun x => decide (thr ≤ x) then .buy
  else .hold

omit [Mul K] [NatCast K] in
theorem vetoSignals_get (hK : Comparable K) {v1 : List SignalAction} {ps : List (Option K)} {i : Nat}
    {a : SignalAction} (ha : v1[i]? = some a) (hp : ps[i]? = some p) :
    (Ml.vetoSignals (v1.map encode) ps thr)[i]? = some (encode (vetoed thr a p)) := by
  have hpos : (0 : K) < encode a ↔ a = .buy := by
    cases a with
    | buy => exact iff_of_true hK.zero_lt_one rfl
    | sell => exact iff_of_false hK.not_pos_neg (by decide)
    | hold => exact iff_of_false hK.not_pos_zero (by decide)
  have hzip : ((v1.map encode).zip ps)[i]? = some ((encode a : K), p) := by
    rw [List.getElem?_zip_eq_some]
    exact ⟨by rw [List.getElem?_map, ha]; rfl, hp⟩
  rw [Ml.vetoSignals, List.getElem?_map, hzip, Option.map_some, vetoed]
  simp only [hpos]
  split
  · rfl
  · rfl

omit [Mul K] [NatCast K] in
theorem mlSignals_get {ps : List (Option K)} {i : Nat} (hp : ps[i]? = some p) :
    (Ml.mlSignals ps thr exitP)[i]? = some (encode (predicted thr exitP p)) := by
  rw [Ml.mlSignals, List.getElem?_map, hp, Option.map_some, predicted]
  cases p with
  | none => rfl
  | some x =>
    simp only [Option.any_some, decide_eq_true_eq]
    split
    · rfl
    · split
      · rfl
      · rfl

omit [Zero K] [One K] [Neg K] in
theorem evaluate_veto (hmode : self.mode = .veto) : (evaluate text self base p).action =
    if base.action = .buy ∧ (p.any fun x => decide (x < self.threshold)) then .hold
    else base.action := by
  unfold evaluate
  rw [hmode]
  dsimp only
  split
  · rfl
  · rfl

omit [Zero K] [One K] [Neg K] in
theorem evaluate_ml (hmode : self.mode = .ml) : (evaluate text self base p).action =
    if p.any fun x => decide (self.threshold ≤ x) then .buy
    else if p.any fun x => decide (x < self.exitP) then .sell
    else .hold := by
  unfold evaluate
  rw [hmode]

omit [Mul K] [NatCast K] in
/-- The veto of the engine is that of the research when the probability compares with the threshold,
or there is no buy to block. -/
theorem veto_iff (hK : Comparable K) {a : SignalAction} : vetoed thr a p =
    (if a = .buy ∧ (p.any fun x => decide (x < thr)) then .hold else a) ↔
      (a = .buy → ∃ x ∈ p, thr ≤ x ∨ x < thr) := by
  unfold vetoed
  by_cases hbuy : a = .buy
  · subst hbuy
    cases p with
    | none => simp
    | some x =>
      have hexcl := hK.not_lt thr x
      by_cases hle : thr ≤ x
      · simp [hle, hexcl hle]
      · by_cases hlt : x < thr <;> simp [hle, hlt]
  · simp [hbuy]

omit [Zero K] [One K] [Neg K] [Mul K] [NatCast K] in
/-- Of overlapping comparisons the engine takes the first and the research the last. -/
theorem ml_iff : predicted thr exitP p =
    (if p.any fun x => decide (thr ≤ x) then .buy
      else if p.any fun x => decide (x < exitP) then .sell
      else .hold) ↔ ∀ x ∈ p, thr ≤ x → ¬ x < exitP := by
  unfold predicted
  cases p with
  | none => simp
  | some x => by_cases hle : thr ≤ x <;> by_cases hlt : x < exitP <;> simp [hle, hlt]

variable (text self) in
/-- At a bar with the same inputs the engine takes the action that the research encodes exactly when,
in veto mode, V1 does not buy or the probability compares with the threshold; in ml mode, the
probability is not both at least the threshold and below the exit. -/
theorem action_eq_researched_iff (hK : Comparable K) {v1 : List (StrategySignal K)}
    {ps : List (Option K)} {i : Nat} (hbase : v1[i]? = some base) (hp : ps[i]? = some p) :
    (self.researched (v1.map fun s => encode s.action) ps)[i]? =
        some (encode (evaluate text self base p).action) ↔ self.Decided base.action p := by
  unfold researched Decided
  cases hmode : self.mode with
  | veto =>
    have hactions : (v1.map fun s => (encode s.action : K)) =
        (v1.map StrategySignal.action).map encode := by
      rw [List.map_map]
      rfl
    have ha : (v1.map StrategySignal.action)[i]? = some base.action := by
      rw [List.getElem?_map, hbase]
      rfl
    dsimp only
    rw [hactions, vetoSignals_get hK ha hp, Option.some.injEq, hK.encode_inj,
      evaluate_veto hmode, veto_iff hK]
  | ml =>
    dsimp only
    rw [mlSignals_get hp, Option.some.injEq, hK.encode_inj, evaluate_ml hmode, ml_iff]

end

/-! ## Where they differ -/

theorem comparable_rat : Comparable ℚ where
  not_lt _ _ := not_lt_of_ge
  zero_lt_one := by norm_num
  not_pos_zero := by norm_num
  not_pos_neg := by norm_num
  neg_ne_zero := by norm_num

/-- Numbers with two and four decimals. -/
def decimalText : NumberText ℚ where
  fixed2 x := x.elim "nan" (fixed 2)
  round4 := Grid.nearest (1 / 10000)

/-- A buy of V1, and the strategy of an artifact. -/
def v1Buy : StrategySignal ℚ where
  action := .buy
  score := some 3
  reasons := []

def sampleStrategy (mode : Ml.Mode) (threshold : ℚ) : AIStrategy ℚ where
  mode := mode
  threshold := threshold
  exitP := 1 / 2
  edge := 5 / 1000

/-- A probability that is not a number: the engine lets the buy of V1 pass, the research blocks it. A
probability between a threshold and a higher exit: the engine buys, the research sells. -/
theorem live_decisions_differ :
    ((evaluate decimalText (sampleStrategy .veto (55 / 100)) v1Buy none).action = .buy ∧
      (sampleStrategy .veto (55 / 100)).researched [encode v1Buy.action] [none] = [0] ∧
      (encode .buy : ℚ) ≠ 0) ∧
    (evaluate decimalText (sampleStrategy .ml (4 / 10)) v1Buy (some (45 / 100))).action = .buy ∧
      (sampleStrategy .ml (4 / 10)).researched [encode v1Buy.action] [some (45 / 100)] = [-1] ∧
      (encode .buy : ℚ) ≠ -1 := by
  decide +kernel

theorem live_veto_agrees :
    ((sampleStrategy .veto (55 / 100)).researched ([v1Buy].map fun s => encode s.action)
      [some (1 / 2)])[0]? = some (encode (evaluate decimalText (sampleStrategy .veto (55 / 100))
        v1Buy (some (1 / 2))).action : ℚ) := by
  refine (action_eq_researched_iff decimalText (sampleStrategy .veto (55 / 100)) comparable_rat
    rfl rfl).2 fun _ => ⟨1 / 2, rfl, .inr ?_⟩
  norm_num [sampleStrategy]

end AIStrategy

end CryptoBot
