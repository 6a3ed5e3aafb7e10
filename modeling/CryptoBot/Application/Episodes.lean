import CryptoBot.Application.TradingCycle
import CryptoBot.Application.PositionLaws
import CryptoBot.Lib.Runs

/-!
# Position episodes

An episode of a position begins with its first BUY and ends when the position stops being open
under the symbol rules. The intent ids of exits and protective stops are built from `openedAt`, so
two episodes must not share it.

`applyFillToPosition` starts over only at quantity exactly zero, and `Position.isOpen` draws the
line at one lot. The two agree as long as no SELL leaves a remainder smaller than a lot; then
episodes never share their identity. A base-asset commission leaves such a remainder.
-/

namespace CryptoBot

open Lib

/-- What the engine does to the position of a symbol: a fill, a mark, or the stop price. -/
inductive PositionOp
  | fill (f : Fill)
  | mark (price : ℚ)
  | setStop (price : ℚ)

/-- A position with the fills of its episode, those of earlier episodes, and the episode's number. -/
structure Episode where
  position : Position
  current : List Fill := []
  earlier : List Fill := []
  number : Nat := 0

namespace Episode

variable (rules : SymbolRules)

/-- The flat position before the first fill. -/
def init (bot : String) (symbol : Symbol) : Episode := { position := { bot, symbol } }

/-- A step of the position. A fill after which it is no longer open is the last of its episode. -/
def next (e : Episode) : PositionOp → Episode
  | .fill f =>
    let p := (applyFillToPosition e.position f).position
    if e.position.isOpen rules && !p.isOpen rules then
      { position := p, earlier := f :: (e.current ++ e.earlier), number := e.number + 1 }
    else { e with position := p, current := f :: e.current }
  | .mark price => { e with position := e.position.mark price }
  | .setStop price => { e with position := { e.position with stopPrice := some price } }

/-- When the cycle takes a step: it sets a stop for an open position only. -/
def Allowed (e : Episode) : PositionOp → Prop
  | .setStop _ => e.position.isOpen rules
  | _ => True

/-- A SELL delivers something, and of an open position it takes the whole tracked quantity or
leaves at least one lot; and no two episodes trade at one instant. -/
def Clean (e : Episode) : PositionOp → Prop
  | .fill f => (f.side = .sell → 0 ≤ f.delivered ∧ (e.position.isOpen rules →
      e.position.quantity ≤ f.delivered ∨
        max rules.minQty rules.stepSize ≤ e.position.quantity - f.delivered)) ∧
      ∀ g ∈ e.earlier, g.executionTime ≠ f.executionTime
  | _ => True

/-- The sequences of steps the cycle can take, under a further condition. -/
abbrev Run (ok : Episode → PositionOp → Prop) : Episode → Episode → Prop :=
  Runs (fun e op e' => e' = e.next rules op) fun e op => e.Allowed rules op ∧ ok e op

end Episode

/-! ## The invariant of clean runs -/

namespace Position

variable {rules : SymbolRules} {p p' : Position}

theorem isOpen_iff : p.isOpen rules ↔ 0 < p.quantity ∧ max rules.minQty rules.stepSize ≤ p.quantity :=
  decide_eq_true_iff

theorem isOpen_congr (h : p'.quantity = p.quantity) : p'.isOpen rules = p.isOpen rules := by
  rw [isOpen, isOpen, h]

theorem isOpen_mono (hp : p.isOpen rules) (h : p.quantity ≤ p'.quantity) : p'.isOpen rules :=
  have ⟨hpos, hlot⟩ := isOpen_iff.1 hp
  isOpen_iff.2 ⟨hpos.trans_le h, hlot.trans h⟩

end Position

namespace Episode

variable {rules : SymbolRules} {e e' e₀ : Episode} {op : PositionOp}

/-- What holds of a position between the steps of a clean run. -/
structure Good (rules : SymbolRules) (e : Episode) : Prop where
  nonneg : 0 ≤ e.position.quantity
  opened : 0 < e.position.quantity →
    ∃ f ∈ e.current, f.side = .buy ∧ e.position.openedAt = some f.executionTime
  closed : e.position.isOpen rules = false → e.position.stopPrice = none
  apart : ∀ g ∈ e.earlier, ∀ f ∈ e.current, g.executionTime ≠ f.executionTime

theorem good_init (bot : String) (symbol : Symbol) : Good rules (init bot symbol) where
  nonneg := le_rfl
  opened h := absurd h (lt_irrefl _)
  closed _ := rfl
  apart := nofun

/-- A fill that ends an episode of a clean run takes the whole tracked quantity. -/
theorem Clean.quantity_eq_zero {f : Fill} (hc : Clean rules e (.fill f))
    (hopen : e.position.isOpen rules)
    (hclose : (applyFillToPosition e.position f).position.isOpen rules = false) :
    f.side = .sell ∧ (applyFillToPosition e.position f).position.quantity = 0 := by
  have hnot : ¬ (applyFillToPosition e.position f).position.isOpen rules := by simp [hclose]
  rcases applyFillToPosition_cases e.position f with ⟨-, hrec, hq, -⟩ | ⟨hside, hq, -⟩ |
    ⟨-, -, hq, -⟩
  · exact absurd (Position.isOpen_mono hopen (by rw [hq]; linarith)) hnot
  · refine ⟨hside, ?_⟩
    rcases (hc.1 hside).2 hopen with hall | hlot
    · rw [hq]; exact max_eq_left (by linarith)
    · by_contra hne
      have hpos : 0 < e.position.quantity - f.delivered := by
        rw [hq] at hne
        exact lt_of_not_ge fun h => hne (max_eq_left h)
      exact hnot (Position.isOpen_iff.2 (by rw [hq, max_eq_right hpos.le]; exact ⟨hpos, hlot⟩))
  · exact absurd ((Position.isOpen_congr hq).trans hopen) hnot

/-- A fill of a clean run keeps the invariant. -/
theorem Good.fill {f : Fill} (hg : Good rules e) (hc : Clean rules e (.fill f)) :
    Good rules (e.next rules (.fill f)) := by
  by_cases hend : e.position.isOpen rules ∧
      (applyFillToPosition e.position f).position.isOpen rules = false
  · -- the last fill of an episode leaves nothing and resets the position
    obtain ⟨hside, hzero⟩ := hc.quantity_eq_zero hend.1 hend.2
    have hreset : (applyFillToPosition e.position f).position.stopPrice = none := by
      rcases applyFillToPosition_cases e.position f with ⟨h, -⟩ | ⟨-, -, h, -⟩ | ⟨h, -⟩
      · rw [hside] at h; cases h
      · exact (h hzero).2
      · exact absurd hside h
    simp only [next, hend.1, hend.2, Bool.not_false, Bool.and_self, if_true]
    exact ⟨hzero.ge, fun h => absurd hzero h.ne', fun _ => hreset, by simp⟩
  · have hnext : e.next rules (.fill f) =
        { e with position := (applyFillToPosition e.position f).position
                 current := f :: e.current } := by
      simp only [next]
      rw [if_neg]
      simpa using hend
    rw [hnext]
    have hwas : (applyFillToPosition e.position f).position.isOpen rules = false →
        e.position.isOpen rules = false := by
      intro h
      simpa [h] using hend
    refine ⟨?_, fun hpos => ?_, fun hclosed => ?_, fun g hg' x hx => ?_⟩
    · rcases applyFillToPosition_cases e.position f with ⟨-, hrec, hq, -⟩ | ⟨-, hq, -⟩ |
        ⟨-, -, hq, -⟩
      · rw [hq]; exact add_nonneg hg.nonneg hrec.le
      · rw [hq]; exact le_max_left _ _
      · rw [hq]; exact hg.nonneg
    · rcases applyFillToPosition_cases e.position f with ⟨hside, -, -, ho, -⟩ | ⟨hside, hq, -, hkeep⟩ |
        ⟨-, -, hq, ho, -⟩
      · by_cases hflat : e.position.quantity ≤ 0
        · rw [if_pos hflat] at ho
          exact ⟨f, .head _, hside, ho⟩
        · rw [if_neg hflat] at ho
          obtain ⟨g, hg', hb, hgo⟩ := hg.opened (not_le.1 hflat)
          exact ⟨g, .tail _ hg', hb, ho.trans hgo⟩
      · have hpos' : 0 < e.position.quantity := by
          have := (hc.1 hside).1
          simp only [hq, lt_max_iff, lt_self_iff_false, false_or] at hpos
          linarith
        obtain ⟨g, hg', hb, hgo⟩ := hg.opened hpos'
        exact ⟨g, .tail _ hg', hb, (hkeep hpos.ne').1.trans hgo⟩
      · obtain ⟨g, hg', hb, hgo⟩ := hg.opened (hq ▸ hpos)
        exact ⟨g, .tail _ hg', hb, ho.trans hgo⟩
    · have hstop := hg.closed (hwas hclosed)
      rcases applyFillToPosition_cases e.position f with ⟨-, -, -, -, hs⟩ | ⟨-, -, hreset, hkeep⟩ |
        ⟨-, -, -, -, hs⟩
      · exact hs.trans hstop
      · by_cases hz : (applyFillToPosition e.position f).position.quantity = 0
        · exact (hreset hz).2
        · exact (hkeep hz).2.trans hstop
      · exact hs.trans hstop
    · rcases List.mem_cons.1 hx with rfl | hx
      · exact hc.2 g hg'
      · exact hg.apart g hg' x hx

/-- Every step of a clean run keeps the invariant. -/
theorem Good.next (hg : Good rules e) (ha : Allowed rules e op) (hc : Clean rules e op) :
    Good rules (e.next rules op) := by
  cases op with
  | fill f => exact hg.fill hc
  | mark price => exact ⟨hg.nonneg, hg.opened, hg.closed, hg.apart⟩
  | setStop price =>
    exact ⟨hg.nonneg, hg.opened, fun h => absurd ha (Bool.eq_false_iff.1 h), hg.apart⟩

theorem Good.run (hrun : Run rules (Clean rules) e e') (hg : Good rules e) : Good rules e' := by
  refine hrun.invariant (I := Good rules) ?_ hg
  rintro e op _ hg ⟨ha, hc⟩ rfl
  exact hg.next ha hc

/-- The fills of an episode are fills of an earlier episode once the number has moved on. -/
theorem current_subset {ok : Episode → PositionOp → Prop} (hrun : Run rules ok e₀ e) :
    (e.number = e₀.number ∧ e₀.current ⊆ e.current) ∨
      (e₀.number < e.number ∧ e₀.current ⊆ e.earlier) := by
  refine hrun.invariant (I := fun e => (e.number = e₀.number ∧ e₀.current ⊆ e.current) ∨
      (e₀.number < e.number ∧ e₀.current ⊆ e.earlier)) ?_ (.inl ⟨rfl, fun _ h => h⟩)
  rintro e op _ hI - rfl
  cases op with
  | mark price | setStop price => exact hI
  | fill f =>
    simp only [Episode.next]
    split
    · refine .inr ?_
      rcases hI with ⟨hn, hsub⟩ | ⟨hn, hsub⟩
      · exact ⟨by dsimp only; omega, fun g hg => .tail _ (List.mem_append_left _ (hsub hg))⟩
      · exact ⟨by dsimp only; omega, fun g hg => .tail _ (List.mem_append_right _ (hsub hg))⟩
    · rcases hI with ⟨hn, hsub⟩ | ⟨hn, hsub⟩
      · exact .inl ⟨hn, fun g hg => .tail _ (hsub hg)⟩
      · exact .inr ⟨hn, hsub⟩

/-! ## Episodes do not share identity -/

/-- The base intent ids of positions that opened at different times differ. -/
theorem positionBase_ne {cfg : Config} {p p' : Position} {t t' : Time} {purpose purpose' : OrderPurpose}
    (h : p.openedAt = some t) (h' : p'.openedAt = some t') (hne : t ≠ t') :
    TradingCycle.positionBase cfg p purpose ≠ TradingCycle.positionBase cfg p' purpose' := by
  intro he
  have := congrArg IntentBase.anchor he
  simp only [TradingCycle.positionBase, h, h', IntentAnchor.openedAt.injEq] at this
  exact hne this

/-- Along every clean run of a position, a reopened position carries the time of a BUY of its new
episode and no stop price, and the intent ids of two episodes differ. -/
theorem identity_of_clean_run {cfg : Config} {bot : String} {symbol : Symbol}
    (hrun : Run rules (Clean rules) (init bot symbol) e)
    (hopen : (e.next rules op).position.isOpen rules) (ha : Allowed rules e op)
    (hc : Clean rules e op) :
    (e.position.isOpen rules = false →
      (∃ f ∈ (e.next rules op).current, f.side = .buy ∧
        (e.next rules op).position.openedAt = some f.executionTime) ∧
      (e.next rules op).position.stopPrice = none) ∧
    ∀ e₀, Run rules (Clean rules) (init bot symbol) e₀ → Run rules (Clean rules) e₀ e →
      e₀.position.isOpen rules → e₀.number < (e.next rules op).number →
      ∀ purpose purpose', TradingCycle.positionBase cfg e₀.position purpose ≠
        TradingCycle.positionBase cfg (e.next rules op).position purpose' := by
  have hg := (good_init bot symbol).run hrun
  have hg' := hg.next ha hc
  obtain ⟨f, hf, hbuy, hfo⟩ := hg'.opened (Position.isOpen_iff.1 hopen).1
  refine ⟨fun hclosed => ⟨⟨f, hf, hbuy, hfo⟩, ?_⟩, fun e₀ h₀ h₁ hopen₀ hlt purpose purpose' => ?_⟩
  · have hstop := hg.closed hclosed
    cases op with
    | mark price => exact hstop
    | setStop price => exact absurd ha (Bool.eq_false_iff.1 hclosed)
    | fill x =>
      have hp : (e.next rules (.fill x)).position = (applyFillToPosition e.position x).position := by
        simp only [next]; split <;> rfl
      rw [hp]
      rcases applyFillToPosition_cases e.position x with ⟨-, -, -, -, hs⟩ | ⟨-, -, hreset, hkeep⟩ |
        ⟨-, -, -, -, hs⟩
      · exact hs.trans hstop
      · by_cases hz : (applyFillToPosition e.position x).position.quantity = 0
        · exact (hreset hz).2
        · exact (hkeep hz).2.trans hstop
      · exact hs.trans hstop
  · obtain ⟨g, hgc, -, hgo⟩ :=
      ((good_init bot symbol).run h₀).opened (Position.isOpen_iff.1 hopen₀).1
    have hrun' : Run rules (Clean rules) e₀ (e.next rules op) := h₁.tail ⟨ha, hc⟩ rfl
    rcases current_subset hrun' with ⟨hn, -⟩ | ⟨-, hsub⟩
    · exact absurd hn hlt.ne'
    · exact positionBase_ne hgo hfo (hg'.apart g (hsub hgc) f hf)

/-! ## Dust -/

/-- A fill of BTC/USDT at 100, with a commission in BTC. -/
def btcFill (side : OrderSide) (quantity baseFee : ℚ) (at_ : Int) : PositionOp :=
  .fill { orderId := 1, clientOrderId := "cb1-1", symbol := ⟨"BTC", "USDT"⟩, side, quantity
          price := 100, quoteQuantity := quantity * 100, commission := baseFee
          commissionAsset := some "BTC", executionTime := seconds at_, eventKey := "" }

/-- Lots of a hundredth. -/
def btcRules : SymbolRules :=
  { symbol := ⟨"BTC", "USDT"⟩, baseAsset := "BTC", quoteAsset := "USDT", stepSize := 1 / 100
    minQty := 1 / 100, minNotional := 5 }

instance (rules : SymbolRules) (e : Episode) (op : PositionOp) : Decidable (e.Allowed rules op) :=
  match op with
  | .setStop _ => inferInstanceAs (Decidable (e.position.isOpen rules = true))
  | .fill _ | .mark _ => .isTrue trivial

instance (rules : SymbolRules) (e : Episode) (op : PositionOp) : Decidable (e.Clean rules op) :=
  match op with
  | .fill _ => inferInstanceAs (Decidable (_ ∧ _))
  | .setStop _ | .mark _ => .isTrue trivial

/-- The position after the steps `ops`. -/
def after (rules : SymbolRules) (e : Episode) (ops : List PositionOp) : Episode :=
  ops.foldl (next rules) e

/-- Every one of the steps `ops` meets the condition when its turn comes. -/
def Legal (rules : SymbolRules) (ok : Episode → PositionOp → Prop) (e : Episode) :
    List PositionOp → Prop
  | [] => True
  | op :: ops => (e.Allowed rules op ∧ ok e op) ∧ Legal rules ok (e.next rules op) ops

instance decidableLegal (rules : SymbolRules) (ok : Episode → PositionOp → Prop)
    [∀ e op, Decidable (ok e op)] :
    (e : Episode) → (ops : List PositionOp) → Decidable (Legal rules ok e ops)
  | _, [] => .isTrue trivial
  | e, op :: ops =>
    have := decidableLegal rules ok (e.next rules op) ops
    inferInstanceAs (Decidable (_ ∧ _))

theorem run_after {ok : Episode → PositionOp → Prop} {ops : List PositionOp}
    (h : Legal rules ok e ops) : Run rules ok e (after rules e ops) := by
  induction ops generalizing e with
  | nil => exact .refl
  | cons op ops ih =>
    have hstep : Run rules ok e (e.next rules op) := Runs.refl.tail h.1 rfl
    exact hstep.trans (ih h.2)

/-- A BUY, its stop, and a SELL of every whole lot: the position is closed, and the commission of
the BUY leaves a remainder below one lot. -/
def dusty : Episode :=
  after btcRules (init "default" ⟨"BTC", "USDT"⟩)
    [btcFill .buy 1 (1 / 1000) 10, .setStop 97, btcFill .sell (99 / 100) 0 20]

/-- The BUY that reopens a position over such a remainder inherits the opening time, the stop price
and the intent ids of the earlier episode. -/
theorem dust_inherits_identity :
    Run btcRules (fun _ _ => True) (init "default" ⟨"BTC", "USDT"⟩) dusty ∧
      dusty.position.isOpen btcRules = false ∧
      let e := dusty.next btcRules (btcFill .buy 1 0 30)
      e.position.isOpen btcRules ∧ e.position.openedAt = some (seconds 10) ∧
      (∀ f ∈ e.current, e.position.openedAt ≠ some f.executionTime) ∧
      e.position.stopPrice = some 97 ∧
      TradingCycle.positionBase (.testnet (.table [])) e.position .exit =
        TradingCycle.positionBase (.testnet (.table []))
          (after btcRules (init "default" ⟨"BTC", "USDT"⟩) [btcFill .buy 1 (1 / 1000) 10]).position
          .exit :=
  ⟨run_after (by decide +kernel), by decide +kernel⟩

/-- A position bought, sold whole and bought again. -/
theorem identity_of_resold :
    let e := after btcRules (init "default" ⟨"BTC", "USDT"⟩)
      [btcFill .buy 1 0 10, .setStop 97, btcFill .sell 1 0 20]
    let e' := e.next btcRules (btcFill .buy 1 0 30)
    (e.position.isOpen btcRules = false →
      (∃ f ∈ e'.current, f.side = .buy ∧ e'.position.openedAt = some f.executionTime) ∧
        e'.position.stopPrice = none) ∧
    ∀ e₀, Run btcRules (Clean btcRules) (init "default" ⟨"BTC", "USDT"⟩) e₀ →
      Run btcRules (Clean btcRules) e₀ e → e₀.position.isOpen btcRules → e₀.number < e'.number →
      ∀ purpose purpose', TradingCycle.positionBase (.testnet (.table [])) e₀.position purpose ≠
        TradingCycle.positionBase (.testnet (.table [])) e'.position purpose' :=
  identity_of_clean_run (run_after (by decide +kernel)) (by decide +kernel) trivial
    (by decide +kernel)

end Episode

end CryptoBot
