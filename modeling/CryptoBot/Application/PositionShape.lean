import CryptoBot.Application.PositionLaws
import Mathlib.Tactic.Positivity

/-!
# The shape of a position

What holds of a position whatever fills and mark prices it has seen, anomalies included: a fill that
is not booked leaves the relations between the fields as they are, one that is booked restores them.
-/

namespace CryptoBot

namespace Position

/-- The relations between the fields of a position. -/
structure WellFormed (p : Position) : Prop where
  quantity : 0 ≤ p.quantity
  averageEntryPrice : 0 ≤ p.averageEntryPrice
  flat : p.quantity = 0 →
    p.averageEntryPrice = 0 ∧ p.stopPrice = none ∧ p.openedAt = none ∧ p.unrealizedPnl = 0
  opened : 0 < p.quantity → p.openedAt.isSome
  marked : ∀ price, p.lastMarkPrice = some price →
    p.unrealizedPnl = (price - p.averageEntryPrice) * p.quantity
  unmarked : p.lastMarkPrice = none → p.unrealizedPnl = 0

/-- What is left of it while the unrealized P&L is yet to be recomputed. -/
structure Booked (p : Position) : Prop where
  quantity : 0 ≤ p.quantity
  averageEntryPrice : 0 ≤ p.averageEntryPrice
  flat : p.quantity = 0 → p.averageEntryPrice = 0 ∧ p.stopPrice = none ∧ p.openedAt = none
  opened : 0 < p.quantity → p.openedAt.isSome
  unmarked : p.lastMarkPrice = none → p.unrealizedPnl = 0

variable {p : Position} {f : Fill} {price : ℚ}

theorem WellFormed.booked (h : p.WellFormed) : p.Booked where
  quantity := h.quantity
  averageEntryPrice := h.averageEntryPrice
  flat hq := ⟨(h.flat hq).1, (h.flat hq).2.1, (h.flat hq).2.2.1⟩
  opened := h.opened
  unmarked := h.unmarked

/-- A mark price restores the unrealized P&L. -/
theorem Booked.mark (h : p.Booked) (price : ℚ) : (p.mark price).WellFormed where
  quantity := h.quantity
  averageEntryPrice := h.averageEntryPrice
  flat hq := ⟨(h.flat hq).1, (h.flat hq).2.1, (h.flat hq).2.2,
    if_neg (not_lt.2 (le_of_eq hq))⟩
  opened := h.opened
  marked price' hprice := by
    obtain rfl := Option.some.inj hprice
    rcases h.quantity.eq_or_lt with hzero | hpos
    · have hpnl : (p.mark price).unrealizedPnl = 0 := if_neg (not_lt.2 hzero.ge)
      rw [hpnl, mark_quantity, ← hzero, mul_zero]
    · exact if_pos hpos
  unmarked hnone := by cases hnone

theorem Booked.remark (h : p.Booked) : p.remark.WellFormed := by
  cases hmark : p.lastMarkPrice with
  | some price =>
    have hremark : p.remark = p.mark price := by rw [Position.remark, hmark]
    exact hremark ▸ h.mark price
  | none =>
    have hremark : p.remark = p := by rw [Position.remark, hmark]
    rw [hremark]
    exact
      { quantity := h.quantity
        averageEntryPrice := h.averageEntryPrice
        flat := fun hq => ⟨(h.flat hq).1, (h.flat hq).2.1, (h.flat hq).2.2, h.unmarked hmark⟩
        opened := h.opened
        marked := fun price hprice => by
          rw [hmark] at hprice
          cases hprice
        unmarked := h.unmarked }

theorem WellFormed.withOtherFee (h : p.WellFormed) (f : Fill) : (p.withOtherFee f).WellFormed := by
  obtain ⟨fees, hfees⟩ := p.withOtherFee_eq f
  rw [hfees]
  exact ⟨h.quantity, h.averageEntryPrice, h.flat, h.opened, h.marked, h.unmarked⟩

/-! ## One event -/

end Position

/-- What an exchange reports of an execution: a quantity at a price, with a commission that may be
anything and in any asset. -/
structure Fill.Plausible (f : Fill) : Prop where
  quantity : 0 < f.quantity
  price : 0 < f.price
  commission : 0 ≤ f.commission

namespace Fill.Plausible

variable {f : Fill}

theorem cost_nonneg (hf : f.Plausible) : 0 ≤ f.cost := by
  have hgross : 0 ≤ f.gross := by
    unfold Fill.gross
    split
    · next h => exact h.le
    · exact (mul_pos hf.quantity hf.price).le
  have hfee : 0 ≤ f.quoteFee := by
    unfold Fill.quoteFee
    split
    · exact hf.commission
    · exact le_rfl
  exact add_nonneg hgross hfee

theorem delivered_pos (hf : f.Plausible) : 0 < f.delivered := by
  have hfee : 0 ≤ f.baseFee := by
    unfold Fill.baseFee
    split
    · exact hf.commission
    · exact le_rfl
  exact add_pos_of_pos_of_nonneg hf.quantity hfee

end Fill.Plausible

namespace Position

variable {p : Position} {f : Fill}

theorem WellFormed.buy (h : p.WellFormed) (hf : f.Plausible) (hreceived : 0 < f.received) :
    (p.buy f).Booked where
  quantity := add_nonneg h.quantity hreceived.le
  averageEntryPrice :=
    div_nonneg (add_nonneg (mul_nonneg h.quantity h.averageEntryPrice) hf.cost_nonneg)
      (add_nonneg h.quantity hreceived.le)
  flat hq := absurd hq (add_pos_of_nonneg_of_pos h.quantity hreceived).ne'
  opened _ := by
    show (if p.quantity ≤ 0 then some f.executionTime else p.openedAt).isSome
    split
    · rfl
    · next hpos => exact h.opened (not_le.1 hpos)
  unmarked := h.unmarked

/-- A SELL that leaves nothing resets the position, oversold or not. -/
theorem WellFormed.sell (h : p.WellFormed) (hf : f.Plausible) : (p.sell f).Booked := by
  unfold Position.sell
  dsimp only
  split
  · next hzero =>
    exact
      { quantity := le_max_left _ _
        averageEntryPrice := le_rfl
        flat := fun _ => ⟨rfl, rfl, rfl⟩
        opened := fun hpos => absurd hzero (ne_of_gt hpos)
        unmarked := h.unmarked }
  · next hne =>
    have hpos : 0 < p.quantity := by
      refine h.quantity.lt_of_ne fun hzero => hne (max_eq_left ?_)
      rw [← hzero, zero_sub]
      exact neg_nonpos.2 hf.delivered_pos.le
    exact
      { quantity := le_max_left _ _
        averageEntryPrice := h.averageEntryPrice
        flat := fun hq => absurd hq hne
        opened := fun _ => h.opened hpos
        unmarked := h.unmarked }

/-- A fill keeps a position well formed, on whichever path it is booked or refused. -/
theorem WellFormed.applyFill (h : p.WellFormed) (hf : f.Plausible) :
    (applyFillToPosition p f).position.WellFormed := by
  have hfee := h.withOtherFee f
  unfold applyFillToPosition
  cases f.side with
  | buy =>
    dsimp only
    split
    · exact hfee
    · next hreceived => exact (hfee.buy hf (not_le.1 hreceived)).remark
  | sell => exact (hfee.sell hf).remark
  | other text => exact hfee.booked.remark

/-! ## Every order of fills and marks -/

/-- A fill, or a call of `mark`. -/
inductive Event
  | fill (f : Fill)
  | mark (price : ℚ)

def Event.Plausible : Event → Prop
  | .fill f => f.Plausible
  | .mark _ => True

/-- The position after an event. -/
def after (p : Position) : Event → Position
  | .fill f => (applyFillToPosition p f).position
  | .mark price => p.mark price

theorem WellFormed.after (h : p.WellFormed) {e : Event} (he : e.Plausible) :
    (p.after e).WellFormed := by
  cases e with
  | fill f => exact h.applyFill he
  | mark price => exact h.booked.mark price

/-- A new position is well formed. -/
theorem wellFormed_new (bot : String) (symbol : Symbol) :
    ({ bot, symbol } : Position).WellFormed where
  quantity := le_rfl
  averageEntryPrice := le_rfl
  flat _ := ⟨rfl, rfl, rfl, rfl⟩
  opened hpos := absurd hpos (lt_irrefl _)
  marked price hprice := by cases hprice
  unmarked _ := rfl

/-- Whatever fills and marks it sees, in any order, a position stays well formed. -/
theorem wellFormed_foldl {bot : String} {symbol : Symbol} {es : List Event}
    (hes : ∀ e ∈ es, e.Plausible) : (es.foldl Position.after { bot, symbol }).WellFormed := by
  suffices hfrom : ∀ p : Position, p.WellFormed → (es.foldl Position.after p).WellFormed from
    hfrom _ (wellFormed_new bot symbol)
  induction es with
  | nil => exact fun p hp => hp
  | cons e es ih =>
    obtain ⟨he, hes⟩ := List.forall_mem_cons.1 hes
    exact fun p hp => ih hes _ (hp.after he)

end Position

/-- A fill of a market whose commission is taken in the base asset. -/
def marketFill (side : OrderSide) (quantity price commission : ℚ) : Fill where
  orderId := 1
  clientOrderId := "cb1-721ab8"
  symbol := ⟨"BTC", "USDT"⟩
  side := side
  quantity := quantity
  price := price
  quoteQuantity := 0
  commission := commission
  commissionAsset := some "BTC"
  executionTime := seconds 1735689600
  eventKey := "fill:binance:BTCUSDT:1"

/-- A purchase, a mark, a purchase that its fee exceeds, and a sale of more than is held. -/
theorem wellFormed_oversold :
    let p := List.foldl Position.after { bot := "default", symbol := ⟨"BTC", "USDT"⟩ }
      [.fill (marketFill .buy 2 100 (1 / 10)), .mark 110, .fill (marketFill .buy 1 100 3),
        .fill (marketFill .sell 5 110 0)]
    p.WellFormed ∧ p.quantity = 0 ∧ p.lastMarkPrice = some 110 := by
  refine ⟨Position.wellFormed_foldl ?_, by decide +kernel⟩
  intro e he
  rcases he with _ | ⟨_, _ | ⟨_, _ | ⟨_, _ | ⟨_, ⟨⟩⟩⟩⟩⟩
  · exact ⟨by decide +kernel, by decide +kernel, by decide +kernel⟩
  · trivial
  · exact ⟨by decide +kernel, by decide +kernel, by decide +kernel⟩
  · exact ⟨by decide +kernel, by decide +kernel, by decide +kernel⟩

end CryptoBot
