import CryptoBot.Infrastructure.Store
import CryptoBot.Domain.OrderMachine

/-!
# The life of a stored order

An order lives through calls of `mark_submitting`, `mark_rejected` and `apply_report`. A call that
returns is saved; one that raises an `IllegalTransition` leaves a half-changed order in memory,
which is discarded, so the stored row stays as it was. Whatever the calls and the reports are, the
stored row keeps what the order state machine promises.
-/

namespace CryptoBot

/-- A call on an order. -/
inductive OrderCall
  | markSubmitting (now : Time)
  | markRejected (reason : String) (now : Time)
  | applyReport (report : ExchangeOrderReport) (now : Time)

namespace Order

/-- An order as it is created, before its first call. -/
structure Created (o : Order) : Prop where
  status : o.status = .intentCreated
  executed : o.executedQuantity = 0
  quote : o.cumulativeQuoteQuantity = 0
  average : o.averageFillPrice = none
  updateMs : o.lastExchangeUpdateMs = none
  terminalAt : o.terminalAt = none

/-- The order in memory after a call, or the message of the exception. -/
def perform (o : Order) : OrderCall → Except String Order
  | .markSubmitting now => o.markSubmitting now
  | .markRejected reason now => (o.markRejected reason now).map (·.2)
  | .applyReport report now => (o.applyReport report now).map (·.2)

/-- The stored row after a call: saved when the call returns, reloaded when it raises. -/
def stored (o : Order) (c : OrderCall) : Order :=
  match o.perform c with
  | .ok o' => Store.savedRow o o'
  | .error _ => o

/-- The stored row after a sequence of calls. -/
def life (o : Order) (cs : List OrderCall) : Order := cs.foldl stored o

/-! ## What a call may do -/

/-- The quantities and the update time have not gone back. -/
structure Grown (o o' : Order) : Prop where
  executed : o.executedQuantity ≤ o'.executedQuantity
  quote : o.cumulativeQuoteQuantity ≤ o'.cumulativeQuoteQuantity
  updateMs : ∀ ms, o.lastExchangeUpdateMs = some ms →
    ∃ ms', o'.lastExchangeUpdateMs = some ms' ∧ ms ≤ ms'

theorem Grown.rfl {o : Order} : Grown o o := ⟨le_rfl, le_rfl, fun ms h => ⟨ms, h, le_rfl⟩⟩

theorem Grown.trans {o o' o'' : Order} (h : Grown o o') (h' : Grown o' o'') : Grown o o'' := by
  refine ⟨h.executed.trans h'.executed, h.quote.trans h'.quote, fun ms hms => ?_⟩
  obtain ⟨ms', hms', hle⟩ := h.updateMs ms hms
  obtain ⟨ms'', hms'', hle'⟩ := h'.updateMs ms' hms'
  exact ⟨ms'', hms'', hle.trans hle'⟩

/-- The average price belongs to the quantities, and the terminal time to the status. -/
structure Coherent (o : Order) : Prop where
  average : 0 < o.executedQuantity →
    o.averageFillPrice = some (o.cumulativeQuoteQuantity / o.executedQuantity)
  terminalAt : o.terminalAt.isSome = o.isTerminal

/-- What one call may do to an order: the status moves along an allowed transition or not at all, a
terminal status stays, and nothing else goes back. -/
structure Advanced (o o' : Order) : Prop where
  status : o'.status = o.status ∨ canTransition o.status o'.status
  terminal : o.isTerminal → o'.status = o.status
  grown : Grown o o'

/-- A call that moves the status at most along an allowed transition keeps a terminal one. -/
theorem advanced_of_status {o o' : Order}
    (hstatus : o'.status = o.status ∨ canTransition o.status o'.status) (hgrown : Grown o o') :
    Advanced o o' := by
  refine ⟨hstatus, fun ht => ?_, hgrown⟩
  rcases hstatus with h | h
  · exact h
  · rw [not_canTransition_of_isTerminal ht] at h
    cases h

/-! ## The stages of a report -/

section
variable {o o' : Order} {r : ExchangeOrderReport} {now : Time} {b : Bool} {next : OrderStatus}

theorem withQuantities_grown (o : Order) (r : ExchangeOrderReport) :
    Grown o (o.withQuantities r).2 := by
  obtain ⟨_, h⟩ := withQuantities_eq o r
  rw [h]
  exact ⟨le_max_left _ _, le_max_left _ _, fun ms h => ⟨ms, h, le_rfl⟩⟩

theorem withQuantities_executed : (if decide (o.executedQuantity < r.executedQty) then r.executedQty
    else o.executedQuantity) = (o.withQuantities r).2.executedQuantity := by
  unfold withQuantities
  dsimp only
  generalize (_ && _) = c
  cases c <;> rfl

/-- A report that changes a quantity or the exchange id has the average price computed anew. -/
theorem withQuantities_average (hchanged : (o.withQuantities r).1 = true)
    (hpos : 0 < (o.withQuantities r).2.executedQuantity) :
    (o.withQuantities r).2.averageFillPrice = some
      ((o.withQuantities r).2.cumulativeQuoteQuantity / (o.withQuantities r).2.executedQuantity) := by
  rw [← withQuantities_executed] at hpos
  unfold withQuantities at hchanged ⊢
  dsimp only at hchanged ⊢
  rw [if_pos (by rw [hchanged, Bool.true_and]; exact decide_eq_true hpos)]

/-- Without an execution there is no average price to compute. -/
theorem withQuantities_average_of_nonpos (hpos : ¬ 0 < (o.withQuantities r).2.executedQuantity) :
    (o.withQuantities r).2.averageFillPrice = o.averageFillPrice := by
  rw [← withQuantities_executed] at hpos
  unfold withQuantities
  dsimp only
  rw [decide_eq_false hpos, Bool.and_false]
  rfl

theorem Coherent.withQuantities (ho : o.Coherent) (r : ExchangeOrderReport) :
    (o.withQuantities r).2.Coherent := by
  have hterminal : (o.withQuantities r).2.terminalAt = o.terminalAt := by
    obtain ⟨_, h⟩ := withQuantities_eq o r
    rw [h]
  refine ⟨?_, by rw [hterminal, isTerminal, withQuantities_status]; exact ho.terminalAt⟩
  cases hchanged : (o.withQuantities r).1 with
  | false =>
    rw [withQuantities_unchanged hchanged]
    exact ho.average
  | true => exact withQuantities_average hchanged

/-- A transition keeps the order coherent: it sets the terminal time with a terminal status. -/
theorem Coherent.transition (ho : o.Coherent) (h : o.transition next now = .ok o') :
    o'.Coherent ∧ Grown o o' ∧ (o'.status = o.status ∨ canTransition o.status o'.status) := by
  unfold Order.transition at h
  split at h
  · cases h
    exact ⟨ho, .rfl, .inl rfl⟩
  · split at h
    · next hcan =>
      cases h
      refine ⟨⟨ho.average, ?_⟩, ⟨le_rfl, le_rfl, fun ms h => ⟨ms, h, le_rfl⟩⟩, .inr hcan⟩
      have hnt : o.isTerminal = false := by
        by_contra ht
        rw [not_canTransition_of_isTerminal (Bool.not_eq_false _ ▸ ht)] at hcan
        cases hcan
      cases hnext : next.isTerminal <;> simp [isTerminal, hnext, ho.terminalAt]
      exact hnt
    · cases h

theorem Coherent.withStatus (ho : o.Coherent) (h : o.withStatus r now = .ok (b, o')) :
    o'.Coherent ∧ Grown o o' ∧ (o'.status = o.status ∨ canTransition o.status o'.status) := by
  unfold Order.withStatus at h
  dsimp only at h
  split at h
  · cases h
  · split at h
    · cases ht : o.transition r.status now with
      | error m => rw [ht] at h; cases h
      | ok o₁ =>
        rw [ht] at h
        obtain ⟨hc, hg, hs⟩ := ho.transition ht
        cases h
        split
        · exact ⟨⟨hc.average, hc.terminalAt⟩, ⟨hg.executed, hg.quote, hg.updateMs⟩, hs⟩
        · exact ⟨hc, hg, hs⟩
    · split at h
      · cases h
      · cases h
        exact ⟨ho, .rfl, .inl rfl⟩

theorem Coherent.withUpdateTime (ho : o.Coherent) (r : ExchangeOrderReport) :
    (o.withUpdateTime r).2.Coherent ∧ Grown o (o.withUpdateTime r).2 := by
  unfold Order.withUpdateTime
  split
  · exact ⟨ho, .rfl⟩
  · next ms _ =>
    split
    · next hnew =>
      refine ⟨⟨ho.average, ho.terminalAt⟩, le_rfl, le_rfl, fun ms' hms' => ⟨ms, rfl, ?_⟩⟩
      have hlt := hnew.2
      rw [hms'] at hlt
      exact le_of_lt (of_decide_eq_true hlt)
    · exact ⟨ho, .rfl⟩

theorem Coherent.withAcknowledgement (ho : o.Coherent) (now : Time) :
    (o.withAcknowledgement now).2.Coherent ∧ Grown o (o.withAcknowledgement now).2 := by
  unfold Order.withAcknowledgement
  split
  · exact ⟨⟨ho.average, ho.terminalAt⟩, le_rfl, le_rfl, fun ms h => ⟨ms, h, le_rfl⟩⟩
  · exact ⟨ho, .rfl⟩

theorem Coherent.applyReport (ho : o.Coherent) (h : o.applyReport r now = .ok (b, o')) :
    o'.Coherent ∧ Advanced o o' := by
  simp only [Order.applyReport] at h
  cases hst : (o.withQuantities r).2.withStatus r now with
  | error m => rw [hst] at h; cases h
  | ok st =>
    obtain ⟨b₁, o₁⟩ := st
    rw [hst] at h
    simp only [Except.map, Except.ok.injEq, Prod.mk.injEq] at h
    obtain ⟨-, rfl⟩ := h
    obtain ⟨hc₁, hg₁, hs₁⟩ := (ho.withQuantities r).withStatus hst
    obtain ⟨hc₂, hg₂⟩ := hc₁.withUpdateTime r
    obtain ⟨hc₃, hg₃⟩ := hc₂.withAcknowledgement now
    obtain ⟨-, -, -, -, -, ht, -⟩ := withUpdateTime_ok o₁ r
    obtain ⟨-, -, -, -, -, ha, -⟩ := withAcknowledgement_ok (o₁.withUpdateTime r).2 now
    rw [withQuantities_status] at hs₁
    refine ⟨hc₃, advanced_of_status ?_ ?_⟩
    · rw [ha, ht]
      exact hs₁
    · exact (withQuantities_grown o r).trans (hg₁.trans (hg₂.trans hg₃))

end

/-! ## The average price of a report -/

section
variable {o o' : Order} {r : ExchangeOrderReport} {now : Time} {b : Bool}

theorem withStatus_average (h : o.withStatus r now = .ok (b, o')) :
    o'.averageFillPrice = o.averageFillPrice := by
  unfold Order.withStatus at h
  dsimp only at h
  split at h
  · cases h
  · split at h
    · next hcan =>
      simp only [transition, hcan.1, hcan.2.2, if_true, if_false, Except.map, Except.ok.injEq,
        Prod.mk.injEq] at h
      obtain ⟨-, rfl⟩ := h
      split <;> rfl
    · split at h <;> cases h
      rfl

theorem withUpdateTime_average (o : Order) (r : ExchangeOrderReport) :
    (o.withUpdateTime r).2.averageFillPrice = o.averageFillPrice := by
  unfold Order.withUpdateTime
  split
  · rfl
  · split <;> rfl

theorem withAcknowledgement_average (o : Order) (now : Time) :
    (o.withAcknowledgement now).2.averageFillPrice = o.averageFillPrice := by
  unfold Order.withAcknowledgement
  split <;> rfl

/-- The stages after the quantities leave the average price alone. -/
theorem applyReport_average_eq (h : o.applyReport r now = .ok (b, o')) :
    o'.averageFillPrice = (o.withQuantities r).2.averageFillPrice := by
  simp only [applyReport] at h
  cases hst : (o.withQuantities r).2.withStatus r now with
  | error m => rw [hst] at h; cases h
  | ok st =>
    rw [hst] at h
    cases h
    rw [← withStatus_average hst, ← withUpdateTime_average st.2 r]
    exact withAcknowledgement_average _ now

/-- After a report the average price belongs to the quantities, and is what it was as long as
nothing has been executed. -/
theorem applyReport_average (h : o.applyReport r now = .ok (b, o'))
    (ho : 0 < o.executedQuantity →
      o.averageFillPrice = some (o.cumulativeQuoteQuantity / o.executedQuantity)) :
    o'.averageFillPrice =
      if 0 < o'.executedQuantity then some (o'.cumulativeQuoteQuantity / o'.executedQuantity)
      else o.averageFillPrice := by
  obtain ⟨-, -, hexecuted, hquote, -⟩ := withQuantities_applied o r
  have happlied := (applyReport_ok h).1
  rw [applyReport_average_eq h, happlied.executed, happlied.quote, ← hexecuted, ← hquote]
  cases hchanged : (o.withQuantities r).1 with
  | false =>
    rw [withQuantities_unchanged hchanged]
    split
    · next hpos => exact ho hpos
    · rfl
  | true =>
    split
    · next hpos => exact withQuantities_average hchanged hpos
    · next hpos => exact withQuantities_average_of_nonpos hpos

end

/-! ## Calls -/

/-- A call that returns keeps the order coherent and only moves it forward. -/
theorem Coherent.perform {o o' : Order} {c : OrderCall} (ho : o.Coherent)
    (h : o.perform c = .ok o') : o'.Coherent ∧ Advanced o o' := by
  cases c with
  | markSubmitting now =>
    simp only [Order.perform, Order.markSubmitting] at h
    cases ht : o.transition .submitting now with
    | error m => rw [ht] at h; cases h
    | ok o₁ =>
      rw [ht] at h
      cases h
      obtain ⟨hc, hg, hs⟩ := ho.transition ht
      exact ⟨⟨hc.average, hc.terminalAt⟩,
        advanced_of_status hs ⟨hg.executed, hg.quote, hg.updateMs⟩⟩
  | markRejected reason now =>
    simp only [Order.perform, Order.markRejected] at h
    split at h
    · cases h
      exact ⟨ho, advanced_of_status (.inl rfl) .rfl⟩
    · cases ht : o.transition .rejected now with
      | error m => rw [ht] at h; cases h
      | ok o₁ =>
        rw [ht] at h
        cases h
        obtain ⟨hc, hg, hs⟩ := ho.transition ht
        exact ⟨⟨hc.average, hc.terminalAt⟩,
          advanced_of_status hs ⟨hg.executed, hg.quote, hg.updateMs⟩⟩
  | applyReport r now =>
    simp only [Order.perform] at h
    cases ha : o.applyReport r now with
    | error m => rw [ha] at h; cases h
    | ok res =>
      rw [ha] at h
      cases h
      exact ho.applyReport ha

/-- One stored call. -/
theorem Coherent.stored {o : Order} (ho : o.Coherent) (c : OrderCall) :
    (o.stored c).Coherent ∧ Advanced o (o.stored c) := by
  unfold Order.stored
  split
  · next o' h =>
    obtain ⟨hc, ha⟩ := ho.perform h
    exact ⟨⟨hc.average, hc.terminalAt⟩, ha.status, ha.terminal,
      ha.grown.executed, ha.grown.quote, ha.grown.updateMs⟩
  · exact ⟨ho, advanced_of_status (.inl rfl) .rfl⟩

/-- Every sequence of stored calls keeps an order coherent. -/
theorem Coherent.life {o : Order} (ho : o.Coherent) (cs : List OrderCall) :
    (o.life cs).Coherent := by
  induction cs generalizing o with
  | nil => exact ho
  | cons c cs ih => exact ih (ho.stored c).1

/-- Over a whole sequence of calls nothing goes back, and a terminal status stays. -/
theorem Coherent.life_grown {o : Order} (ho : o.Coherent) (cs : List OrderCall) :
    Grown o (o.life cs) ∧ (o.isTerminal → (o.life cs).status = o.status) := by
  induction cs generalizing o with
  | nil => exact ⟨.rfl, fun _ => rfl⟩
  | cons c cs ih =>
    obtain ⟨hc, ha⟩ := ho.stored c
    obtain ⟨hg, ht⟩ := ih hc
    refine ⟨ha.grown.trans hg, fun hterm => (ht ?_).trans (ha.terminal hterm)⟩
    rw [isTerminal, ha.terminal hterm]
    exact hterm

theorem Created.coherent {o : Order} (ho : o.Created) : o.Coherent := by
  refine ⟨fun hpos => ?_, by rw [ho.terminalAt, isTerminal, ho.status]; rfl⟩
  rw [ho.executed] at hpos
  exact absurd hpos (lt_irrefl 0)

/-- After every sequence of calls with arbitrary reports the stored order is coherent; the next call
moves its status along an allowed transition or not at all, keeps a terminal status, and lowers
neither a quantity nor the update time; and so do all later calls together. -/
theorem life_advances {o : Order} (ho : o.Created) (cs : List OrderCall) :
    (o.life cs).Coherent ∧ (∀ c, Advanced (o.life cs) (o.life (cs ++ [c]))) ∧
      ∀ cs', Grown (o.life cs) (o.life (cs ++ cs')) ∧
        ((o.life cs).isTerminal → (o.life (cs ++ cs')).status = (o.life cs).status) := by
  have hlife := ho.coherent.life cs
  have happend (cs' : List OrderCall) : o.life (cs ++ cs') = (o.life cs).life cs' :=
    List.foldl_append ..
  refine ⟨hlife, fun c => ?_, fun cs' => ?_⟩
  · rw [happend]
    exact (hlife.stored c).2
  · rw [happend]
    exact hlife.life_grown cs'

/-- A market order that has just been created. -/
def freshMarketOrder : Order where
  bot := "default"
  exchange := "binance"
  symbol := ⟨"BTC", "USDT"⟩
  side := .buy
  orderType := .market
  purpose := .entry
  clientOrderId := "cb1-721a"
  clientIntentId := ⟨⟨"default", ⟨"BTC", "USDT"⟩, .candle "2025-01-01T00:00:00+00:00", .entry⟩, 0⟩
  requestedQuantity := 2

/-- A report of the exchange about it, executed at 100. -/
def freshReport (status : OrderStatus) (executed : ℚ) : ExchangeOrderReport where
  clientOrderId := "cb1-721a"
  symbol := ⟨"BTC", "USDT"⟩
  side := .buy
  orderType := .market
  status := status
  origQty := 2
  executedQty := executed
  cumQuoteQty := executed * 100

/-- A late acknowledgement of an order that is already filled in part changes nothing. -/
theorem life_advances_late_report :
    let cs : List OrderCall := [.markSubmitting 1, .applyReport (freshReport .partiallyFilled 1) 2]
    Advanced (freshMarketOrder.life cs)
      (freshMarketOrder.life (cs ++ [.applyReport (freshReport .new 0) 3])) ∧
    (freshMarketOrder.life (cs ++ [.applyReport (freshReport .new 0) 3])).averageFillPrice =
      some 100 :=
  ⟨(life_advances ⟨rfl, rfl, rfl, rfl, rfl, rfl⟩ _).2.1 _, by decide +kernel⟩

end Order

end CryptoBot
