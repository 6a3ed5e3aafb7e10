import CryptoBot.Domain.Models

/-!
# Laws of the order state machine

What an exchange report may do to an order: it never changes what the order is, it moves the status
forward or not at all, it never lowers a quantity, and it raises exactly when it contradicts a
terminal order.
-/

namespace CryptoBot

/-! ## Ranks and transitions -/

/-- An allowed transition raises the rank. -/
theorem rank_lt_of_canTransition {s t : OrderStatus} (h : canTransition s t) : rank s < rank t := by
  revert h; cases s <;> cases t <;> decide

theorem not_canTransition_of_isTerminal {s t : OrderStatus} (h : s.isTerminal) :
    canTransition s t = false := by
  revert h; cases s <;> cases t <;> decide

theorem isTerminal_iff_rank {s : OrderStatus} : s.isTerminal ↔ rank s = 4 := by
  cases s <;> decide

theorem rank_le (s : OrderStatus) : rank s ≤ 4 := by
  cases s <;> decide

/-- The status after a report: the reported one where the order may move to it. -/
def OrderStatus.after (s next : OrderStatus) : OrderStatus :=
  if canTransition s next then next else s

namespace OrderStatus

theorem after_of_isTerminal {s next : OrderStatus} (h : s.isTerminal) : s.after next = s := by
  simp [after, not_canTransition_of_isTerminal h]

/-- Applying the same status twice does nothing more. -/
@[simp] theorem after_after (s next : OrderStatus) : (s.after next).after next = s.after next := by
  cases s <;> cases next <;> rfl

theorem after_eq_or (s next : OrderStatus) : s.after next = next ∨ s.after next = s := by
  unfold after; split <;> simp

theorem isTerminal_after {s next : OrderStatus} (hs : s.isTerminal = false) :
    (s.after next).isTerminal ↔ next.isTerminal ∧ canTransition s next := by
  unfold after
  split <;> simp_all

/-- A status of an open order neither ends an order nor revives one. -/
theorem isTerminal_after_of_open {s next : OrderStatus} (hnext : next.isTerminal = false) :
    (s.after next).isTerminal = s.isTerminal := by
  revert hnext
  cases s <;> cases next <;> decide

end OrderStatus

namespace Order

/-! ## What an update keeps -/

/-- `o'` is the same order as `o`, at some point of its life. -/
structure Same (o o' : Order) : Prop where
  id : o'.id = o.id
  bot : o'.bot = o.bot
  exchange : o'.exchange = o.exchange
  symbol : o'.symbol = o.symbol
  side : o'.side = o.side
  orderType : o'.orderType = o.orderType
  purpose : o'.purpose = o.purpose
  clientOrderId : o'.clientOrderId = o.clientOrderId
  clientIntentId : o'.clientIntentId = o.clientIntentId
  requestedQuantity : o'.requestedQuantity = o.requestedQuantity
  limitPrice : o'.limitPrice = o.limitPrice
  stopPrice : o'.stopPrice = o.stopPrice
  referencePrice : o'.referencePrice = o.referencePrice

theorem Same.rfl {o : Order} : Same o o := by constructor <;> rfl

theorem Same.trans {o o' o'' : Order} (h : Same o o') (h' : Same o' o'') : Same o o'' := by
  constructor <;> first
  | exact h'.id.trans h.id
  | exact h'.bot.trans h.bot
  | exact h'.exchange.trans h.exchange
  | exact h'.symbol.trans h.symbol
  | exact h'.side.trans h.side
  | exact h'.orderType.trans h.orderType
  | exact h'.purpose.trans h.purpose
  | exact h'.clientOrderId.trans h.clientOrderId
  | exact h'.clientIntentId.trans h.clientIntentId
  | exact h'.requestedQuantity.trans h.requestedQuantity
  | exact h'.limitPrice.trans h.limitPrice
  | exact h'.stopPrice.trans h.stopPrice
  | exact h'.referencePrice.trans h.referencePrice

/-- A report contradicts an order: the order was rejected as not found and the exchange has it, or
it is terminal and the exchange reports another terminal status. -/
def Contradicts (o : Order) (r : ExchangeOrderReport) : Prop :=
  (o.rejectedNotFound ∧ r.status ≠ .rejected) ∨
    (o.isTerminal ∧ r.status ≠ o.status ∧ rank o.status ≤ rank r.status)

/-- A terminal order is contradicted by a terminal status only, unless it was not found. -/
theorem Contradicts.isTerminal {o : Order} {r : ExchangeOrderReport} (h : o.Contradicts r) :
    o.isTerminal := by
  rcases h with ⟨h, _⟩ | ⟨h, _⟩
  · simp only [rejectedNotFound, Bool.and_eq_true, decide_eq_true_eq] at h
    rw [Order.isTerminal, h.1]; rfl
  · exact h

/-- What an applied report has made of an order. -/
structure Applied (o : Order) (r : ExchangeOrderReport) (o' : Order) : Prop where
  same : Same o o'
  version : o'.version = o.version
  status : o'.status = o.status.after r.status
  executed : o'.executedQuantity = max o.executedQuantity r.executedQty
  quote : o'.cumulativeQuoteQuantity = max o.cumulativeQuoteQuantity r.cumQuoteQty
  exchangeOrderId : o'.exchangeOrderId =
    if o.adoptsExchangeId r then r.exchangeOrderId else o.exchangeOrderId
  rejectReason : o'.status = o.status → o'.rejectReason = o.rejectReason

/-! ## The stages of a report -/

section
variable {o o' : Order} {r : ExchangeOrderReport} {now : Time} {b : Bool} {message : String}

/-- The quantity stage replaces the exchange id, the quantities and the average price. -/
theorem withQuantities_eq (o : Order) (r : ExchangeOrderReport) :
    ∃ average, (o.withQuantities r).2 = { o with
      exchangeOrderId := if o.adoptsExchangeId r then r.exchangeOrderId else o.exchangeOrderId
      executedQuantity := max o.executedQuantity r.executedQty
      cumulativeQuoteQuantity := max o.cumulativeQuoteQuantity r.cumQuoteQty
      averageFillPrice := average } := by
  have hmax (x y : ℚ) : (if decide (x < y) then y else x) = max x y := by
    simp only [decide_eq_true_eq]
    split
    · next h => exact (max_eq_right h.le).symm
    · next h => exact (max_eq_left (not_lt.1 h)).symm
  unfold withQuantities
  dsimp only
  rw [hmax, hmax]
  generalize (_ && _) = c
  cases c <;> exact ⟨_, rfl⟩

theorem withQuantities_status (o : Order) (r : ExchangeOrderReport) :
    (o.withQuantities r).2.status = o.status := by
  obtain ⟨_, h⟩ := withQuantities_eq o r
  rw [h]

theorem withQuantities_rejectReason (o : Order) (r : ExchangeOrderReport) :
    (o.withQuantities r).2.rejectReason = o.rejectReason := by
  obtain ⟨_, h⟩ := withQuantities_eq o r
  rw [h]

theorem withQuantities_applied (o : Order) (r : ExchangeOrderReport) :
    Same o (o.withQuantities r).2 ∧ (o.withQuantities r).2.version = o.version ∧
      (o.withQuantities r).2.executedQuantity = max o.executedQuantity r.executedQty ∧
      (o.withQuantities r).2.cumulativeQuoteQuantity =
        max o.cumulativeQuoteQuantity r.cumQuoteQty ∧
      (o.withQuantities r).2.exchangeOrderId =
        if o.adoptsExchangeId r then r.exchangeOrderId else o.exchangeOrderId := by
  obtain ⟨_, h⟩ := withQuantities_eq o r
  rw [h]
  exact ⟨by constructor <;> rfl, rfl, rfl, rfl, rfl⟩

theorem withQuantities_unchanged (h : (o.withQuantities r).1 = false) :
    (o.withQuantities r).2 = o := by
  simp only [withQuantities, Bool.or_eq_false_iff] at h ⊢
  simp [h.1.1, h.1.2, h.2]

/-- The status stage raises exactly on a contradiction. -/
theorem withStatus_error : (∃ m, o.withStatus r now = .error m) ↔ o.Contradicts r := by
  unfold withStatus Contradicts
  dsimp only
  split
  · next h => exact iff_of_true ⟨_, rfl⟩ (.inl h)
  · next h =>
    split
    · next h' =>
      have hnt : o.isTerminal = false := by
        by_contra ht
        rw [not_canTransition_of_isTerminal (Bool.not_eq_false _ ▸ ht)] at h'
        exact absurd h'.2.2 (by decide)
      have : o.status ≠ r.status := fun e => h'.1 e.symm
      simp [transition, h'.1, h'.2.2, hnt, Except.map, h]
    · split
      · next h'' => exact iff_of_true ⟨_, rfl⟩ (.inr ⟨h''.2.2, h''.1, h''.2.1⟩)
      · next h'' =>
        refine iff_of_false (by simp) (not_or.2 ⟨h, fun hc => h'' ⟨hc.2.1, hc.2.2, hc.1⟩⟩)

theorem withStatus_ok (h : o.withStatus r now = .ok (b, o')) :
    Same o o' ∧ o'.version = o.version ∧ o'.executedQuantity = o.executedQuantity ∧
      o'.cumulativeQuoteQuantity = o.cumulativeQuoteQuantity ∧
      o'.exchangeOrderId = o.exchangeOrderId ∧ o'.status = o.status.after r.status ∧
      (o'.status = o.status → o'.rejectReason = o.rejectReason) ∧ (b = false → o' = o) := by
  unfold withStatus at h
  dsimp only at h
  split at h
  · cases h
  · split at h
    · next h' =>
      simp only [transition, h'.1, h'.2.2, if_true, if_false, Except.map, Except.ok.injEq,
        Prod.mk.injEq] at h
      obtain ⟨rfl, rfl⟩ := h
      have hs : o.status.after r.status = r.status := by simp [OrderStatus.after, h'.2.2]
      rw [hs]
      split <;>
        exact ⟨by constructor <;> rfl, rfl, rfl, rfl, rfl, rfl, fun e => absurd e h'.1, nofun⟩
    · next h' =>
      split at h
      · cases h
      · cases h
        have : o.status.after r.status = o.status := by
          unfold OrderStatus.after
          split
          · next hc =>
            by_contra hne
            exact h' ⟨hne, rank_lt_of_canTransition hc, hc⟩
          · rfl
        exact ⟨.rfl, rfl, rfl, rfl, rfl, this.symm, fun _ => rfl, fun _ => rfl⟩

theorem withUpdateTime_ok (o : Order) (r : ExchangeOrderReport) :
    Same o (o.withUpdateTime r).2 ∧ (o.withUpdateTime r).2.version = o.version ∧
      (o.withUpdateTime r).2.executedQuantity = o.executedQuantity ∧
      (o.withUpdateTime r).2.cumulativeQuoteQuantity = o.cumulativeQuoteQuantity ∧
      (o.withUpdateTime r).2.exchangeOrderId = o.exchangeOrderId ∧
      (o.withUpdateTime r).2.status = o.status ∧
      (o.withUpdateTime r).2.rejectReason = o.rejectReason ∧
      ((o.withUpdateTime r).1 = false → (o.withUpdateTime r).2 = o) := by
  unfold withUpdateTime
  split
  · exact ⟨.rfl, rfl, rfl, rfl, rfl, rfl, rfl, fun _ => rfl⟩
  · split
    · exact ⟨by constructor <;> rfl, rfl, rfl, rfl, rfl, rfl, rfl, nofun⟩
    · exact ⟨.rfl, rfl, rfl, rfl, rfl, rfl, rfl, fun _ => rfl⟩

theorem withAcknowledgement_ok (o : Order) (now : Time) :
    Same o (o.withAcknowledgement now).2 ∧ (o.withAcknowledgement now).2.version = o.version ∧
      (o.withAcknowledgement now).2.executedQuantity = o.executedQuantity ∧
      (o.withAcknowledgement now).2.cumulativeQuoteQuantity = o.cumulativeQuoteQuantity ∧
      (o.withAcknowledgement now).2.exchangeOrderId = o.exchangeOrderId ∧
      (o.withAcknowledgement now).2.status = o.status ∧
      (o.withAcknowledgement now).2.rejectReason = o.rejectReason ∧
      ((o.withAcknowledgement now).1 = false → (o.withAcknowledgement now).2 = o) := by
  unfold withAcknowledgement
  split
  · exact ⟨by constructor <;> rfl, rfl, rfl, rfl, rfl, rfl, rfl, nofun⟩
  · exact ⟨.rfl, rfl, rfl, rfl, rfl, rfl, rfl, fun _ => rfl⟩

/-! ## The whole report -/

theorem withQuantities_contradicts :
    (o.withQuantities r).2.Contradicts r ↔ o.Contradicts r := by
  simp only [Contradicts, rejectedNotFound, Order.isTerminal, withQuantities_status,
    withQuantities_rejectReason]

/-- Applying a report raises exactly when it contradicts the order. -/
theorem applyReport_error : (∃ m, o.applyReport r now = .error m) ↔ o.Contradicts r := by
  have hstatus : (∃ m, (o.withQuantities r).2.withStatus r now = .error m) ↔ o.Contradicts r :=
    withStatus_error.trans withQuantities_contradicts
  rw [← hstatus]
  simp only [applyReport]
  cases (o.withQuantities r).2.withStatus r now with
  | error m => exact iff_of_true ⟨m, rfl⟩ ⟨m, rfl⟩
  | ok st => exact iff_of_false (by rintro ⟨_, ⟨⟩⟩) (by rintro ⟨_, ⟨⟩⟩)

theorem applyReport_ok (h : o.applyReport r now = .ok (b, o')) :
    Applied o r o' ∧ (b = false → o' = o) := by
  simp only [applyReport] at h
  cases hst : (o.withQuantities r).2.withStatus r now with
  | error m => rw [hst] at h; cases h
  | ok st =>
    obtain ⟨b₁, o₁⟩ := st
    rw [hst] at h
    simp only [Except.map, Except.ok.injEq, Prod.mk.injEq] at h
    obtain ⟨rfl, rfl⟩ := h
    obtain ⟨hq, hqv, hqe, hqc, hqx⟩ := withQuantities_applied o r
    obtain ⟨hs, hsv, hse, hsc, hsx, hss, hsr, hsu⟩ := withStatus_ok hst
    obtain ⟨ht, htv, hte, htc, htx, hts, htr, htu⟩ := withUpdateTime_ok o₁ r
    obtain ⟨ha, hav, hae, hac, hax, has, har, hau⟩ :=
      withAcknowledgement_ok (o₁.withUpdateTime r).2 now
    rw [withQuantities_status] at hss hsr
    rw [withQuantities_rejectReason] at hsr
    refine ⟨⟨((hq.trans hs).trans ht).trans ha, ?_, ?_, ?_, ?_, ?_, ?_⟩, ?_⟩
    · rw [hav, htv, hsv, hqv]
    · rw [has, hts, hss]
    · rw [hae, hte, hse, hqe]
    · rw [hac, htc, hsc, hqc]
    · rw [hax, htx, hsx, hqx]
    · rw [has, hts, har, htr]
      exact hsr
    · simp only [Bool.or_eq_false_iff]
      rintro ⟨⟨⟨h₁, h₂⟩, h₃⟩, h₄⟩
      rw [hau h₄, htu h₃, hsu h₂, withQuantities_unchanged h₁]

/-- A terminal order keeps its status through every report. -/
theorem Applied.isTerminal (h : Applied o r o') (ht : o.isTerminal) : o'.status = o.status := by
  rw [h.status, OrderStatus.after_of_isTerminal ht]

/-- Rejecting an order that is not terminal. -/
theorem markRejected_ok {reason : String} (h : o.markRejected reason now = .ok (b, o')) :
    Same o o' ∧ o'.version = o.version ∧ o'.executedQuantity = o.executedQuantity ∧
      o'.exchangeOrderId = o.exchangeOrderId ∧
      (b = false → o' = o ∧ o.isTerminal) ∧
      (b = true → o.isTerminal = false ∧ o'.status = .rejected ∧ o'.rejectReason = some reason) := by
  unfold markRejected at h
  split at h
  · next ht =>
    cases h
    exact ⟨.rfl, rfl, rfl, rfl, fun _ => ⟨rfl, ht⟩, nofun⟩
  · next ht =>
    unfold transition at h
    split at h
    · next hr =>
      rw [Order.isTerminal, ← hr] at ht
      exact absurd rfl ht
    · split at h
      · cases h
        exact ⟨by constructor <;> rfl, rfl, rfl, rfl, nofun, fun _ => ⟨by simpa using ht, rfl, rfl⟩⟩
      · cases h

end

end Order

end CryptoBot
