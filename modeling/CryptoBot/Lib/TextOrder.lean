import Mathlib.Data.List.Lex
import Mathlib.Order.Lattice

/-!
# The order of texts made of fields

Texts are compared character by character. Texts that begin with fields of the same width are compared
field by field.
-/

namespace Lib

variable {α : Type*} [LinearOrder α] {x x' u v : List α}

/-- Texts with a first field of the same width: the field decides, and then the rest. -/
theorem append_lt_append_iff (hlen : x.length = x'.length) :
    x ++ u < x' ++ v ↔ x < x' ∨ x = x' ∧ u < v := by
  induction x generalizing x' with
  | nil =>
    cases x' with
    | nil => simp
    | cons b x' => cases hlen
  | cons a x ih =>
    cases x' with
    | nil => cases hlen
    | cons b x' =>
      rw [List.cons_append, List.cons_append, List.cons_lt_cons_iff, List.cons_lt_cons_iff,
        ih (Nat.succ.inj hlen), List.cons.injEq]
      tauto

/-- A separator in the same place decides nothing. -/
theorem cons_lt_cons_same {c : α} : c :: u < c :: v ↔ u < v := by
  rw [List.cons_lt_cons_iff]
  simp

end Lib
