import Mathlib.Data.List.Basic

/-!
# Texts made of fields

A text that ends in a field without the separator is read back from its end: what stands before the
last separator, and the field after it.
-/

namespace Lib

/-- What stands before and after the last separator is determined by the text. -/
theorem append_sep_inj {α : Type*} {sep : α} {a a' b b' : List α} (hb : sep ∉ b) (hb' : sep ∉ b') :
    a ++ sep :: b = a' ++ sep :: b' ↔ a = a' ∧ b = b' := by
  refine ⟨fun h => ?_, fun h => by rw [h.1, h.2]⟩
  induction a generalizing a' with
  | nil =>
    cases a' with
    | nil => exact ⟨rfl, (List.cons.inj h).2⟩
    | cons x a' =>
      refine absurd ?_ hb
      rw [(List.cons.inj h).2]
      exact List.mem_append_right _ (.head _)
  | cons x a ih =>
    cases a' with
    | nil =>
      refine absurd ?_ hb'
      rw [← (List.cons.inj h).2]
      exact List.mem_append_right _ (.head _)
    | cons y a' =>
      obtain ⟨rfl, htail⟩ := List.cons.inj h
      obtain ⟨ha, hb⟩ := ih htail
      exact ⟨congrArg (x :: ·) ha, hb⟩

/-- The white space between fields, at which `str.split` splits and which `\s` of `re` matches. -/
def isSpace (c : Char) : Bool :=
  let n := c.toNat
  decide (9 ≤ n ∧ n ≤ 13 ∨ 28 ≤ n ∧ n ≤ 32 ∨ n = 133 ∨ n = 160 ∨ n = 5760 ∨
    8192 ≤ n ∧ n ≤ 8202 ∨ n = 8232 ∨ n = 8233 ∨ n = 8239 ∨ n = 8287 ∨ n = 12288)

/-- A text without a character. -/
def Free (c : Char) (text : String) : Prop := c ∉ text.toList

instance {c : Char} {text : String} : Decidable (Free c text) :=
  inferInstanceAs (Decidable (c ∉ text.toList))

theorem Free.append {c : Char} {s t : String} (hs : Free c s) (ht : Free c t) : Free c (s ++ t) := by
  unfold Free
  rw [String.toList_append]
  exact fun h => (List.mem_append.1 h).elim hs ht

/-- A number is written in digits. -/
theorem Free.repr {c : Char} (hc : c.isDigit = false) (n : Nat) : Free c (toString n) := by
  intro h
  change c ∈ (Nat.repr n).toList at h
  rw [Nat.toList_repr] at h
  have hdigit := Nat.isDigit_of_mem_toDigits (by decide) (by decide) h
  rw [hc] at hdigit
  cases hdigit

theorem repr_nat_inj {n m : Nat} : n.repr = m.repr ↔ n = m := by
  refine ⟨fun h => ?_, fun h => by rw [h]⟩
  have h' := congrArg String.toList h
  rw [Nat.toList_repr, Nat.toList_repr] at h'
  rw [← Nat.ofDigitChars_ten_toDigits (n := n), h', Nat.ofDigitChars_ten_toDigits]

/-- Two texts with a last field each are the same when the fields and what stands before them are. -/
theorem field_inj {a a' b b' : String} (hb : Free ':' b) (hb' : Free ':' b') :
    a ++ ":" ++ b = a' ++ ":" ++ b' ↔ a = a' ∧ b = b' := by
  refine ⟨fun h => ?_, fun h => by rw [h.1, h.2]⟩
  have hlist := congrArg String.toList h
  simp only [String.toList_append, List.append_assoc] at hlist
  obtain ⟨ha, hb⟩ := (append_sep_inj hb hb').1 hlist
  exact ⟨String.toList_inj.1 ha, String.toList_inj.1 hb⟩

end Lib
