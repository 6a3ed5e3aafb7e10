import Mathlib.Algebra.BigOperators.Group.List.Basic
import Mathlib.Algebra.Order.Monoid.Defs
import Mathlib.Data.List.Nodup
import Mathlib.Data.List.Perm.Subperm

/-!
# Sums over matched rows

Two lists of rows that have the same keys, with the same values, have the same sum; and a part of
some positive values sums up to all of them only when it is all of them.
-/

namespace Lib

variable {α β κ K : Type}

/-- The sums of rows that a key matches with rows of the same value. -/
theorem sum_eq_of_matched [AddCommMonoid K] {xs : List α} {ys : List β} {k : α → κ} {l : β → κ}
    {v : α → K} {w : β → K} (hx : (xs.map k).Nodup) (hy : (ys.map l).Nodup)
    (hxy : ∀ a ∈ xs, ∃ b ∈ ys, k a = l b ∧ v a = w b) (hyx : ∀ b ∈ ys, ∃ a ∈ xs, k a = l b) :
    (xs.map v).sum = (ys.map w).sum := by
  have hx' : (xs.map fun a => (k a, v a)).Nodup :=
    List.Nodup.of_map Prod.fst (by rwa [List.map_map])
  have hy' : (ys.map fun b => (l b, w b)).Nodup :=
    List.Nodup.of_map Prod.fst (by rwa [List.map_map])
  have hperm : (xs.map fun a => (k a, v a)).Perm (ys.map fun b => (l b, w b)) := by
    refine (List.perm_ext_iff_of_nodup hx' hy').2 fun p => ⟨fun hp => ?_, fun hp => ?_⟩
    · obtain ⟨a, ha, rfl⟩ := List.mem_map.1 hp
      obtain ⟨b, hb, hkey, hval⟩ := hxy a ha
      exact List.mem_map.2 ⟨b, hb, by rw [hkey, hval]⟩
    · obtain ⟨b, hb, rfl⟩ := List.mem_map.1 hp
      obtain ⟨a, ha, hkey⟩ := hyx b hb
      obtain ⟨b', hb', hkey', hval⟩ := hxy a ha
      obtain rfl := List.inj_on_of_nodup_map hy hb' hb (hkey'.symm.trans hkey)
      exact List.mem_map.2 ⟨a, ha, by rw [hkey, hval]⟩
  have hsum := (hperm.map Prod.snd).sum_eq
  rwa [List.map_map, List.map_map] at hsum

/-- What holds outside the first `n` rows is all that is left to say of the rows. -/
theorem forall_or_mem_take_iff {xs : List α} (h : xs.Nodup) {p : α → Prop} {n : Nat} :
    (∀ a ∈ xs, p a ∨ a ∈ xs.take n) ↔ ∀ a ∈ xs.drop n, p a := by
  refine ⟨fun hall a ha => ?_, fun hdrop a ha => ?_⟩
  · refine (hall a (List.mem_of_mem_drop ha)).resolve_right fun htake => ?_
    exact List.disjoint_take_drop h le_rfl htake ha
  · rw [← List.take_append_drop n xs, List.mem_append] at ha
    exact ha.elim .inr fun ha => .inl (hdrop a ha)

variable [AddCommMonoid K] [PartialOrder K] [IsOrderedCancelAddMonoid K]

theorem sum_filter_le {xs : List α} {v : α → K} (hpos : ∀ a ∈ xs, 0 < v a) (p : α → Bool) :
    ((xs.filter p).map v).sum ≤ (xs.map v).sum := by
  induction xs with
  | nil => exact le_rfl
  | cons a xs ih =>
    obtain ⟨ha, hpos⟩ := List.forall_mem_cons.1 hpos
    rw [List.map_cons, List.sum_cons]
    by_cases hp : p a
    · rw [List.filter_cons_of_pos hp, List.map_cons, List.sum_cons]
      exact add_le_add_right (ih hpos) _
    · rw [List.filter_cons_of_neg hp]
      exact (ih hpos).trans (le_add_of_nonneg_left ha.le)

/-- A part of positive values sums up to all of them exactly when nothing is missing. -/
theorem sum_filter_eq_iff {xs : List α} {v : α → K} (hpos : ∀ a ∈ xs, 0 < v a) (p : α → Bool) :
    ((xs.filter p).map v).sum = (xs.map v).sum ↔ ∀ a ∈ xs, p a := by
  induction xs with
  | nil => simp
  | cons a xs ih =>
    obtain ⟨ha, hpos⟩ := List.forall_mem_cons.1 hpos
    rw [List.map_cons, List.sum_cons, List.forall_mem_cons]
    by_cases hp : p a
    · rw [List.filter_cons_of_pos hp, List.map_cons, List.sum_cons, add_right_inj, ih hpos]
      exact ⟨fun h => ⟨hp, h⟩, fun h => h.2⟩
    · rw [List.filter_cons_of_neg hp]
      have hless : ((xs.filter p).map v).sum < v a + (xs.map v).sum :=
        (sum_filter_le hpos p).trans_lt (lt_add_of_pos_left _ ha)
      exact ⟨fun h => absurd h hless.ne, fun h => absurd h.1 hp⟩

end Lib
