import Mathlib.Data.List.Basic
import Mathlib.Order.Lattice

/-!
# Reading a sorted list page by page

A list whose elements are strictly sorted by a key is read in pages, each asked for by the last key
of the page before. Only the keys matter: between two pages the list may grow at its end.
-/

namespace Lib

namespace Keyset

variable {α κ : Type*} [LinearOrder κ] {key : α → κ} {l l' a : List α} {x : α} {n : Nat}

/-- The elements in the order of their keys. -/
def Sorted (key : α → κ) (l : List α) : Prop := l.Pairwise fun x y => key x < key y

theorem Sorted.filter (hl : Sorted key l) (p : α → Bool) : Sorted key (l.filter p) :=
  List.Pairwise.filter p hl

/-- Behind the last element of a prefix comes the rest of the list, and nothing of the prefix. -/
theorem filter_after {b : List α} (hl : Sorted key (a ++ b)) (hx : a.getLast? = some x) :
    (a ++ b).filter (fun y => key x < key y) = b := by
  obtain ⟨ha, -, hab⟩ := List.pairwise_append.1 hl
  obtain ⟨a, rfl⟩ := List.getLast?_eq_some_iff.1 hx
  have hlast : ∀ y ∈ a ++ [x], ¬ key x < key y := by
    intro y hy
    rcases List.mem_append.1 hy with hy | hy
    · exact ((List.pairwise_append.1 ha).2.2 y hy x (List.mem_singleton_self x)).not_gt
    · rw [List.mem_singleton.1 hy]
      exact lt_irrefl _
  rw [List.filter_append, List.filter_eq_nil_iff.2, List.nil_append, List.filter_eq_self.2]
  · intro y hy
    exact decide_eq_true (hab x (List.mem_append_right _ (List.mem_singleton_self x)) y hy)
  · intro y hy h
    exact hlast y hy (of_decide_eq_true h)

/-- A page continues a prefix that has been read before, also if the list has grown since. -/
theorem append_page (hl : Sorted key l') (ha : a <+: l) (hgrow : l <+: l')
    (hx : a.getLast? = some x) :
    a ++ (l'.filter fun y => key x < key y).take n = l'.take (a.length + n) := by
  obtain ⟨b, rfl⟩ := ha.trans hgrow
  rw [filter_after hl hx, List.take_append, List.take_of_length_le (Nat.le_add_right _ _),
    Nat.add_sub_cancel_left]

/-- A page that is not full is the last one. -/
theorem take_eq_self (h : (l.take n).length < n) : l.take n = l := by
  rw [List.length_take] at h
  exact List.take_of_length_le (by omega)

/-- A last page completes the list. -/
theorem append_last (hl : Sorted key l') (ha : a <+: l) (hgrow : l <+: l')
    (hx : a.getLast? = some x)
    (hshort : ((l'.filter fun y => key x < key y).take n).length < n) :
    a ++ (l'.filter fun y => key x < key y).take n = l' := by
  obtain ⟨b, rfl⟩ := ha.trans hgrow
  rw [take_eq_self hshort, filter_after hl hx]

end Keyset
end Lib
