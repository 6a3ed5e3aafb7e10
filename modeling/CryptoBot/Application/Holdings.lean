import CryptoBot.Application.Bookkeeping
import Mathlib.Algebra.Order.BigOperators.Group.List
import Mathlib.Tactic.FieldSimp
import Mathlib.Tactic.Ring

/-!
# Holdings in any order

Purchases only, or sales only of what is held, leave a position that the sums over the fills
determine: the order in which the fills are applied does not matter.
-/

namespace CryptoBot

namespace Core

/-- What the purchases `fs` have made of a position. -/
structure Bought (c₀ : Core) (fs : List Fill) (c : Core) : Prop where
  quantity : c.quantity = c₀.quantity + (fs.map Fill.received).sum
  cost : c.quantity * c.averageEntryPrice =
    c₀.quantity * c₀.averageEntryPrice + (fs.map Fill.cost).sum
  average : fs = [] → c.averageEntryPrice = c₀.averageEntryPrice
  realizedPnl : c.realizedPnl = c₀.realizedPnl

/-- What the sales `fs` have made of a position; one that they have emptied is reset. -/
structure Sold (c₀ : Core) (fs : List Fill) (c : Core) : Prop where
  quantity : c.quantity = c₀.quantity - (fs.map Fill.delivered).sum
  average : c.averageEntryPrice =
    if fs ≠ [] ∧ c.quantity = 0 then 0 else c₀.averageEntryPrice
  realizedPnl : c.realizedPnl = c₀.realizedPnl + (fs.map Fill.proceeds).sum -
    c₀.averageEntryPrice * (fs.map Fill.delivered).sum

/-- The fields that trading determines whatever its order. -/
structure Alike (c c' : Core) : Prop where
  quantity : c.quantity = c'.quantity
  average : c.averageEntryPrice = c'.averageEntryPrice
  realizedPnl : c.realizedPnl = c'.realizedPnl

section
variable {c₀ c c' : Core} {fs fs' : List Fill} {f : Fill}

/-! ## Purchases -/

theorem bought_nil (c₀ : Core) : Bought c₀ [] c₀ :=
  ⟨(add_zero _).symm, (add_zero _).symm, fun _ => rfl, rfl⟩

theorem received_sum_nonneg (hfs : ∀ f ∈ fs, 0 < f.received) : 0 ≤ (fs.map Fill.received).sum := by
  refine List.sum_nonneg fun x hx => ?_
  obtain ⟨f, hf, rfl⟩ := List.mem_map.1 hx
  exact (hfs f hf).le

theorem Bought.apply (h : Bought c₀ fs c) (h₀ : 0 ≤ c₀.quantity)
    (hfs : ∀ f ∈ fs, 0 < f.received) (hside : f.side = .buy) (hrec : 0 < f.received) :
    Bought c₀ (f :: fs) (c.apply f) := by
  have hsum := received_sum_nonneg hfs
  have hpos : 0 < c.quantity + f.received := by
    have := h.quantity
    linarith
  simp only [Core.apply, hside, if_neg (not_le.2 hrec)]
  refine ⟨?_, ?_, nofun, h.realizedPnl⟩
  · rw [List.map_cons, List.sum_cons, h.quantity]
    ring
  · dsimp only
    rw [mul_div_cancel₀ _ hpos.ne', h.cost, List.map_cons, List.sum_cons]
    ring

/-- The same purchases in another order leave the same position. -/
theorem Bought.alike (h : Bought c₀ fs c) (h' : Bought c₀ fs' c') (hperm : fs.Perm fs')
    (h₀ : 0 ≤ c₀.quantity) (hfs : ∀ f ∈ fs, 0 < f.received) : Alike c c' := by
  have hquantity : c.quantity = c'.quantity := by
    rw [h.quantity, h'.quantity, (hperm.map Fill.received).sum_eq]
  refine ⟨hquantity, ?_, h.realizedPnl.trans h'.realizedPnl.symm⟩
  cases fs with
  | nil => rw [h.average rfl, h'.average (List.Perm.nil_eq hperm).symm]
  | cons f fs =>
    obtain ⟨hf, hrest⟩ := List.forall_mem_cons.1 hfs
    have hsum := received_sum_nonneg hrest
    have hpos : 0 < c'.quantity := by
      have := h.quantity
      rw [List.map_cons, List.sum_cons] at this
      linarith
    have hcost : c'.quantity * c.averageEntryPrice = c'.quantity * c'.averageEntryPrice := by
      rw [← hquantity, h.cost, hquantity, h'.cost, (hperm.map Fill.cost).sum_eq]
    exact mul_left_cancel₀ hpos.ne' hcost

/-! ## Sales -/

theorem sold_nil (c₀ : Core) : Sold c₀ [] c₀ := by
  refine ⟨(sub_zero _).symm, ?_, ?_⟩
  · rw [if_neg fun h => h.1 rfl]
  · simp

/-- A sale of what is left: until it empties the position, the average price is the first one. -/
theorem Sold.apply (h : Sold c₀ fs c) (hside : f.side = .sell) (hdel : 0 < f.delivered)
    (hall : ((f :: fs).map Fill.delivered).sum ≤ c₀.quantity) :
    Sold c₀ (f :: fs) (c.apply f) := by
  rw [List.map_cons, List.sum_cons] at hall
  have hle : f.delivered ≤ c.quantity := by
    have := h.quantity
    linarith
  have haverage : c.averageEntryPrice = c₀.averageEntryPrice := by
    rw [h.average, if_neg fun hzero => ?_]
    have := hzero.2
    linarith
  have hnot : ¬ c.quantity + 1 / 1000000000000 < f.delivered := by
    intro hlt
    linarith
  have hmax : max 0 (c.quantity - f.delivered) = c.quantity - f.delivered :=
    max_eq_right (by linarith)
  have hquantity : c.quantity - f.delivered =
      c₀.quantity - ((f :: fs).map Fill.delivered).sum := by
    rw [h.quantity, List.map_cons, List.sum_cons]
    ring
  have hpnl : c.realizedPnl + (f.proceeds - c.averageEntryPrice * f.delivered) =
      c₀.realizedPnl + ((f :: fs).map Fill.proceeds).sum -
        c₀.averageEntryPrice * ((f :: fs).map Fill.delivered).sum := by
    rw [h.realizedPnl, haverage]
    simp only [List.map_cons, List.sum_cons]
    ring
  simp only [Core.apply, hside, if_neg hnot, hmax]
  split
  · next hzero => exact ⟨by rw [← hquantity, hzero], by simp, hpnl⟩
  · next hzero => exact ⟨hquantity, by rw [if_neg fun h => hzero h.2]; exact haverage, hpnl⟩

/-- The same sales in another order leave the same position. -/
theorem Sold.alike (h : Sold c₀ fs c) (h' : Sold c₀ fs' c') (hperm : fs.Perm fs') :
    Alike c c' := by
  have hdel := (hperm.map Fill.delivered).sum_eq
  have hquantity : c.quantity = c'.quantity := by rw [h.quantity, h'.quantity, hdel]
  refine ⟨hquantity, ?_, ?_⟩
  · rw [h.average, h'.average, hquantity]
    exact if_congr (and_congr_left fun _ => not_congr ⟨fun e => by subst e; exact hperm.nil_eq.symm,
      fun e => by subst e; exact hperm.eq_nil⟩) rfl rfl
  · rw [h.realizedPnl, h'.realizedPnl, hdel, (hperm.map Fill.proceeds).sum_eq]

end

end Core

end CryptoBot
