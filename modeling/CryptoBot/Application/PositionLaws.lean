import CryptoBot.Application.PositionService
import Mathlib.Tactic.Linarith

/-!
# Laws of the position accounting

What one fill does to a position, and what the rebuild makes of the recorded fills.
-/

namespace CryptoBot

/-! ## One fill -/

@[simp] theorem Position.mark_bot (p : Position) (price : ℚ) : (p.mark price).bot = p.bot := rfl

@[simp] theorem Position.mark_symbol (p : Position) (price : ℚ) :
    (p.mark price).symbol = p.symbol := rfl

@[simp] theorem Position.mark_quantity (p : Position) (price : ℚ) :
    (p.mark price).quantity = p.quantity := rfl

@[simp] theorem Position.mark_openedAt (p : Position) (price : ℚ) :
    (p.mark price).openedAt = p.openedAt := rfl

@[simp] theorem Position.mark_stopPrice (p : Position) (price : ℚ) :
    (p.mark price).stopPrice = p.stopPrice := rfl

@[simp] theorem Position.remark_quantity (p : Position) : p.remark.quantity = p.quantity := by
  unfold remark; split <;> rfl

@[simp] theorem Position.remark_openedAt (p : Position) : p.remark.openedAt = p.openedAt := by
  unfold remark; split <;> rfl

@[simp] theorem Position.remark_stopPrice (p : Position) : p.remark.stopPrice = p.stopPrice := by
  unfold remark; split <;> rfl

theorem Position.withOtherFee_eq (p : Position) (f : Fill) :
    ∃ fees, p.withOtherFee f = { p with feesOther := fees } := by
  unfold withOtherFee
  split
  · exact ⟨p.feesOther, rfl⟩
  · split
    · exact ⟨_, rfl⟩
    · exact ⟨p.feesOther, rfl⟩

/-- The quantity, the opening time and the stop price after a fill. -/
theorem applyFillToPosition_cases (p : Position) (f : Fill) :
    let p' := (applyFillToPosition p f).position
    (f.side = .buy ∧ 0 < f.received ∧ p'.quantity = p.quantity + f.received ∧
      p'.openedAt = (if p.quantity ≤ 0 then some f.executionTime else p.openedAt) ∧
      p'.stopPrice = p.stopPrice) ∨
    (f.side = .sell ∧ p'.quantity = max 0 (p.quantity - f.delivered) ∧
      (p'.quantity = 0 → p'.openedAt = none ∧ p'.stopPrice = none) ∧
      (p'.quantity ≠ 0 → p'.openedAt = p.openedAt ∧ p'.stopPrice = p.stopPrice)) ∨
    (f.side ≠ .sell ∧ (f.side = .buy → f.received ≤ 0) ∧ p'.quantity = p.quantity ∧
      p'.openedAt = p.openedAt ∧ p'.stopPrice = p.stopPrice) := by
  intro p'
  obtain ⟨fees, hfees⟩ := p.withOtherFee_eq f
  cases hside : f.side with
  | buy =>
    by_cases hrec : f.received ≤ 0
    · refine .inr (.inr ⟨nofun, fun _ => hrec, ?_⟩)
      simp only [p', applyFillToPosition, hside, if_pos hrec, hfees, and_self]
    · refine .inl ⟨rfl, not_le.1 hrec, ?_⟩
      simp [p', applyFillToPosition, hside, if_neg hrec, hfees, Position.buy]
  | sell =>
    refine .inr (.inl ⟨rfl, ?_⟩)
    simp only [p', applyFillToPosition, hside, hfees, Position.sell, Position.remark_quantity,
      Position.remark_openedAt, Position.remark_stopPrice]
    split
    · next h => exact ⟨rfl, fun _ => ⟨rfl, rfl⟩, fun h' => absurd h h'⟩
    · next h => exact ⟨rfl, fun h' => absurd h' h, fun _ => ⟨rfl, rfl⟩⟩
  | other text =>
    refine .inr (.inr ⟨nofun, nofun, ?_⟩)
    simp [p', applyFillToPosition, hside, hfees]

@[simp] theorem Position.remark_bot (p : Position) : p.remark.bot = p.bot := by
  unfold remark; split <;> rfl

@[simp] theorem Position.remark_symbol (p : Position) : p.remark.symbol = p.symbol := by
  unfold remark; split <;> rfl

/-- A fill leaves a position with its bot and its symbol. -/
theorem applyFillToPosition_key (p : Position) (f : Fill) :
    (applyFillToPosition p f).position.bot = p.bot ∧
      (applyFillToPosition p f).position.symbol = p.symbol := by
  obtain ⟨fees, hfees⟩ := p.withOtherFee_eq f
  unfold applyFillToPosition
  cases f.side with
  | buy =>
    dsimp only
    split <;> simp [hfees, Position.buy]
  | sell =>
    simp only [Position.remark_bot, Position.remark_symbol, hfees, Position.sell]
    split <;> exact ⟨rfl, rfl⟩
  | other text => simp [hfees]

theorem Position.remark_lastMarkPrice (p : Position) : p.remark.lastMarkPrice = p.lastMarkPrice := by
  unfold remark
  split
  · next price h => exact h.symm
  · rfl

/-- The mark price is none of a fill's business. -/
theorem applyFillToPosition_lastMarkPrice (p : Position) (f : Fill) :
    (applyFillToPosition p f).position.lastMarkPrice = p.lastMarkPrice := by
  obtain ⟨fees, hfees⟩ := p.withOtherFee_eq f
  unfold applyFillToPosition
  cases f.side with
  | buy =>
    dsimp only
    split
    · rw [hfees]
    · rw [Position.remark_lastMarkPrice, hfees, Position.buy]
  | sell =>
    simp only [Position.remark_lastMarkPrice, hfees, Position.sell]
    split <;> rfl
  | other text => rw [Position.remark_lastMarkPrice, hfees]

/-- A BUY adds what it receives, unless its commission exceeds its quantity. -/
theorem applyFillToPosition_buy {p : Position} {f : Fill} (hside : f.side = .buy)
    (hrec : 0 ≤ f.received) :
    (applyFillToPosition p f).position.quantity = p.quantity + f.received := by
  rcases applyFillToPosition_cases p f with ⟨-, -, hq, -⟩ | ⟨hsell, -⟩ | ⟨-, hle, hq, -⟩
  · exact hq
  · rw [hside] at hsell
    cases hsell
  · rw [hq, le_antisymm (hle hside) hrec, add_zero]

/-! ## The rebuild -/

namespace PositionService

theorem replay_key (p : Position) (fs : List Fill) :
    (replay p fs).1.bot = p.bot ∧ (replay p fs).1.symbol = p.symbol := by
  induction fs generalizing p with
  | nil => exact ⟨rfl, rfl⟩
  | cons f fs ih =>
    obtain ⟨hb, hs⟩ := applyFillToPosition_key p f
    exact ⟨(ih _).1.trans hb, (ih _).2.trans hs⟩

theorem replay_lastMarkPrice (p : Position) (fs : List Fill) :
    (replay p fs).1.lastMarkPrice = p.lastMarkPrice := by
  induction fs generalizing p with
  | nil => rfl
  | cons f fs ih => exact (ih _).trans (applyFillToPosition_lastMarkPrice p f)

/-- Replaying BUY fills adds up what they received. -/
theorem replay_quantity {fs : List Fill} (hfs : ∀ f ∈ fs, f.side = .buy ∧ 0 ≤ f.received)
    (p : Position) : (replay p fs).1.quantity = p.quantity + (fs.map Fill.received).sum := by
  induction fs generalizing p with
  | nil => exact (add_zero _).symm
  | cons f fs ih =>
    obtain ⟨⟨hside, hrec⟩, hfs⟩ := List.forall_mem_cons.1 hfs
    calc (replay (applyFillToPosition p f).position fs).1.quantity
        = (applyFillToPosition p f).position.quantity + (fs.map Fill.received).sum := ih hfs _
      _ = p.quantity + f.received + (fs.map Fill.received).sum := by
        rw [applyFillToPosition_buy hside hrec]
      _ = p.quantity + ((f :: fs).map Fill.received).sum := by
        rw [List.map_cons, List.sum_cons, add_assoc]

theorem rebuilt_key (existing : Position) (bot : String) (symbol : Symbol) (fs : List Fill) :
    (rebuilt existing bot symbol fs).1.bot = bot ∧
      (rebuilt existing bot symbol fs).1.symbol = symbol := by
  unfold rebuilt
  dsimp only
  split <;> exact replay_key _ fs

theorem rebuilt_lastMarkPrice (existing : Position) (bot : String) (symbol : Symbol)
    (fs : List Fill) :
    (rebuilt existing bot symbol fs).1.lastMarkPrice = existing.lastMarkPrice := by
  unfold rebuilt
  dsimp only
  split <;> exact replay_lastMarkPrice _ fs

/-- The rebuilt quantity of a ledger that only ever bought. -/
theorem rebuilt_quantity {existing : Position} {bot : String} {symbol : Symbol} {fs : List Fill}
    (hfs : ∀ f ∈ fs, f.side = .buy ∧ 0 ≤ f.received) :
    (rebuilt existing bot symbol fs).1.quantity = (fs.map Fill.received).sum := by
  have h := replay_quantity hfs { bot, symbol, lastMarkPrice := existing.lastMarkPrice }
  rw [zero_add] at h
  unfold rebuilt
  dsimp only
  split <;> exact h

end PositionService

end CryptoBot
