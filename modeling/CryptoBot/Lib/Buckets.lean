import Mathlib.Data.List.Dedup
import Mathlib.Data.List.Perm.Subperm
import Mathlib.Order.MinMax

/-!
# Samples in buckets

A sequence of samples, put into buckets by a key that does not decrease along it: the keys that
occur, the two that are newest, and the least value of a bucket. The key of an instant is the
beginning of its interval, where the intervals are of one length and one of them begins at an
origin.
-/

namespace Lib

/-! ## Intervals -/

/-- The beginning of the interval an instant belongs to. -/
def intervalStart (origin length t : Int) : Int := origin + (t - origin) / length * length

section
variable {origin length t u : Int} (hlength : 0 < length)
include hlength

theorem intervalStart_le : intervalStart origin length t ≤ t := by
  have := Int.ediv_mul_le (t - origin) hlength.ne'
  unfold intervalStart
  omega

theorem lt_intervalStart_add : t < intervalStart origin length t + length := by
  have := Int.lt_ediv_add_one_mul_self (t - origin) hlength
  rw [Int.add_mul, Int.one_mul] at this
  unfold intervalStart
  omega

theorem intervalStart_mono (h : t ≤ u) :
    intervalStart origin length t ≤ intervalStart origin length u := by
  have hdiv : (t - origin) / length ≤ (u - origin) / length :=
    Int.ediv_le_ediv hlength (by omega)
  have hmul := Int.mul_le_mul_of_nonneg_right hdiv hlength.le
  unfold intervalStart
  omega

/-- An instant between the beginning and the end of an interval belongs to it. -/
theorem intervalStart_eq (hle : intervalStart origin length t ≤ u)
    (hlt : u < intervalStart origin length t + length) :
    intervalStart origin length u = intervalStart origin length t := by
  unfold intervalStart at hle hlt ⊢
  have hquot : (u - origin) / length = (t - origin) / length := by
    exact (Int.ediv_eq_iff_of_pos hlength).2 ⟨by omega, by omega⟩
  rw [hquot]

/-- Different intervals do not overlap. -/
theorem intervalStart_add_le (h : intervalStart origin length t < intervalStart origin length u) :
    intervalStart origin length t + length ≤ intervalStart origin length u := by
  by_contra hlt
  have hsame := intervalStart_eq hlength h.le (by omega)
  have hself : intervalStart origin length (intervalStart origin length u) =
      intervalStart origin length u := intervalStart_eq hlength le_rfl (by omega)
  omega

end

/-! ## Buckets -/

section
variable {α κ : Type}

/-- The keys of the buckets that are not empty. -/
def bucketKeys [DecidableEq κ] (key : α → κ) (xs : List α) : List κ := (xs.map key).dedup

theorem mem_bucketKeys [DecidableEq κ] {key : α → κ} {xs : List α} {k : κ} :
    k ∈ bucketKeys key xs ↔ ∃ x ∈ xs, key x = k := by
  rw [bucketKeys, List.mem_dedup, List.mem_map]

/-- The keys of samples in order are strictly increasing. -/
theorem bucketKeys_sorted [LinearOrder κ] {key : α → κ} {xs : List α}
    (h : xs.Pairwise fun x y => key x ≤ key y) : (bucketKeys key xs).Pairwise (· < ·) := by
  have hle : (bucketKeys key xs).Pairwise (· ≤ ·) :=
    (List.pairwise_map.2 h).sublist (List.dedup_sublist _)
  exact (hle.and (List.nodup_dedup _)).imp fun ⟨hle, hne⟩ => lt_of_le_of_ne hle hne

/-- What lies below some bound begins an increasing list. -/
theorem filter_initial [LinearOrder κ] {ks : List κ} {p : κ → Bool} (h : ks.Pairwise (· < ·))
    (hp : ∀ {a b}, a < b → p b → p a) : ks.filter p <+: ks := by
  induction ks with
  | nil => exact List.prefix_rfl
  | cons k ks ih =>
    obtain ⟨hk, hks⟩ := List.pairwise_cons.1 h
    by_cases hpk : p k
    · rw [List.filter_cons_of_pos hpk]
      exact (List.prefix_cons_inj k).2 (ih hks)
    · have hnone : ks.filter p = [] :=
        List.filter_eq_nil_iff.2 fun b hb hpb => hpk (hp (hk b hb) hpb)
      rw [List.filter_cons_of_neg hpk, hnone]
      exact List.nil_prefix

/-- The last two of a list. -/
def lastTwo (ks : List κ) : List κ := ks.drop (ks.length - 2)

theorem mem_of_mem_lastTwo {ks : List κ} {k : κ} (h : k ∈ lastTwo ks) : k ∈ ks :=
  List.mem_of_mem_drop h

/-- The last two of what is left of a list when not all but one have been dropped. -/
theorem lastTwo_drop {ks : List κ} {n : Nat} (h : n + 2 ≤ ks.length) :
    lastTwo (ks.drop n) = lastTwo ks := by
  rw [lastTwo, lastTwo, List.drop_drop, List.length_drop]
  congr 1
  omega

theorem lastTwo_map {β : Type} (f : κ → β) (ks : List κ) :
    lastTwo (ks.map f) = (lastTwo ks).map f := by
  rw [lastTwo, lastTwo, List.map_drop, List.length_map]

/-- A member of an increasing list is one of the last two unless two others are above it. -/
theorem mem_lastTwo_iff [LinearOrder κ] {ks : List κ} (h : ks.Pairwise (· < ·)) {k : κ}
    (hk : k ∈ ks) : k ∈ lastTwo ks ↔ ¬ ∃ a ∈ ks, ∃ b ∈ ks, k < a ∧ a < b := by
  have hsplit := List.take_append_drop (ks.length - 2) ks
  rw [← hsplit, List.pairwise_append] at h
  obtain ⟨-, hlast, hbelow⟩ := h
  have hlength : (lastTwo ks).length = ks.length - (ks.length - 2) := List.length_drop
  constructor
  · rintro hmem ⟨a, ha, b, hb, hka, hab⟩
    have hup {x : κ} (hx : x ∈ ks) (hkx : k < x) : x ∈ lastTwo ks := by
      rw [← hsplit, List.mem_append] at hx
      exact hx.resolve_left fun hx => (hbelow x hx k hmem).not_gt hkx
    have hsub : [k, a, b] ⊆ lastTwo ks := by
      simpa using ⟨hmem, hup ha hka, hup hb (hka.trans hab)⟩
    have hnodup : [k, a, b].Nodup := by
      simpa using ⟨⟨hka.ne, (hka.trans hab).ne⟩, hab.ne⟩
    have hthree := (List.subperm_of_subset hnodup hsub).length_le
    rw [List.length_cons, List.length_cons, List.length_singleton] at hthree
    omega
  · refine fun hno => Classical.byContradiction fun hmem => hno ?_
    have hinit : k ∈ ks.take (ks.length - 2) := by
      rw [← hsplit, List.mem_append] at hk
      exact hk.resolve_right hmem
    have hlong : 2 < ks.length := by
      have := List.length_pos_of_mem hinit
      rw [List.length_take] at this
      omega
    obtain ⟨a, b, hab⟩ : ∃ a b, lastTwo ks = [a, b] :=
      List.length_eq_two.1 (hlength.trans (by omega))
    have hmem_of {x : κ} (hx : x ∈ lastTwo ks) : x ∈ ks := mem_of_mem_lastTwo hx
    rw [lastTwo] at hab
    rw [hab] at hlast hbelow
    refine ⟨a, hmem_of ?_, b, hmem_of ?_, hbelow k hinit a (.head _), ?_⟩
    · rw [lastTwo, hab]
      exact .head _
    · rw [lastTwo, hab]
      exact .tail _ (.head _)
    · exact (List.pairwise_cons.1 hlast).1 b (.head _)

theorem lt_foldl_min [LinearOrder κ] {x b : κ} {xs : List κ} :
    b < xs.foldl min x ↔ b < x ∧ ∀ y ∈ xs, b < y := by
  induction xs generalizing x with
  | nil => simp
  | cons y ys ih => rw [List.foldl_cons, ih, lt_min_iff, List.forall_mem_cons, and_assoc]

/-- The least value, if there is one, is above a bound exactly when everything is. -/
theorem lt_min?_iff [LinearOrder κ] {xs : List κ} {b : κ} :
    (∀ low, xs.min? = some low → b < low) ↔ ∀ x ∈ xs, b < x := by
  cases xs with
  | nil => simp
  | cons x xs =>
    rw [List.min?_cons', List.forall_mem_cons, ← lt_foldl_min]
    exact ⟨fun h => h _ rfl, fun h low hlow => Option.some.inj hlow ▸ h⟩

end

end Lib
