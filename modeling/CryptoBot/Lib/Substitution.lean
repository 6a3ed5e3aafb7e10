import Mathlib.Data.List.Infix
import Mathlib.Data.List.Lex

/-!
# Replacing parts of a text

Matches are replaced from left to right. What replaces them ends in a mark, so a text without the mark
that occurs in the result has occurred before.
-/

namespace Lib

variable {α : Type*}

/-- Replaces matches from left to right; `skip` more elements belong to the last match. A match has a
length and a replacement. -/
def substitute (found : List α → Option (Nat × List α)) : (skip : Nat) → List α → List α
  | _, [] => []
  | skip + 1, _ :: xs => substitute found skip xs
  | 0, x :: xs =>
    match found (x :: xs) with
    | some (n, by_) => by_ ++ substitute found (n - 1) xs
    | none => x :: substitute found 0 xs

/-- `str.replace`. -/
def replaceAll [DecidableEq α] (pattern by_ xs : List α) : List α :=
  substitute (fun ys => if pattern.isPrefixOf ys then some (pattern.length, by_) else none) 0 xs

/-! ## Masks -/

/-- The second text is the first with parts replaced by marks. -/
inductive Masked (mark : α) : List α → List α → Prop
  | nil : Masked mark [] []
  | keep {xs ys : List α} (x : α) (h : Masked mark xs ys) : Masked mark (x :: xs) (x :: ys)
  | mask {xs ys : List α} (dropped : List α) (h : Masked mark xs ys) :
      Masked mark (dropped ++ xs) (mark :: ys)

variable {mark : α} {s t xs ys zs : List α}

theorem Masked.refl (mark : α) : (xs : List α) → Masked mark xs xs
  | [] => .nil
  | x :: xs => .keep x (refl mark xs)

theorem Masked.keepAll (h : Masked mark xs ys) : (kept : List α) →
    Masked mark (kept ++ xs) (kept ++ ys)
  | [] => h
  | x :: kept => .keep x (h.keepAll kept)

theorem Masked.maskAll (h : Masked mark xs ys) (dropped : List α) (n : Nat) :
    Masked mark (dropped ++ xs) (List.replicate (n + 1) mark ++ ys) := by
  induction n generalizing dropped with
  | zero => exact .mask dropped h
  | succ n ih => exact .mask dropped (ih [])

theorem Masked.isPrefix (h : Masked mark xs ys) (ht : mark ∉ t) (hpre : t <+: ys) : t <+: xs := by
  induction h generalizing t with
  | nil => exact hpre
  | keep x _ ih =>
    cases t with
    | nil => exact List.nil_prefix
    | cons y t =>
      obtain ⟨rfl, hrest⟩ := List.cons_prefix_cons.1 hpre
      exact List.cons_prefix_cons.2 ⟨rfl, ih (fun h => ht (.tail _ h)) hrest⟩
  | mask dropped _ _ =>
    cases t with
    | nil => exact List.nil_prefix
    | cons y t =>
      obtain ⟨rfl, -⟩ := List.cons_prefix_cons.1 hpre
      exact absurd (.head _) ht

/-- A text without the mark that occurs in the result has occurred before. -/
theorem Masked.isInfix (h : Masked mark xs ys) (ht : mark ∉ t) (hin : t <:+: ys) : t <:+: xs := by
  induction h with
  | nil => exact hin
  | keep x h ih =>
    rcases List.infix_cons_iff.1 hin with hpre | hin
    · exact ((h.keep x).isPrefix ht hpre).isInfix
    · exact List.infix_cons (ih hin)
  | mask dropped h ih =>
    rcases List.infix_cons_iff.1 hin with hpre | hin
    · exact ((h.mask dropped).isPrefix ht hpre).isInfix
    · exact List.infix_append_of_infix_right (ih hin)

/-! ## Substitutions mask -/

/-- A match keeps a part of what it has found and replaces the rest by marks. -/
def Masks (mark : α) (found : List α → Option (Nat × List α)) : Prop :=
  ∀ xs n by_, found xs = some (n, by_) → 0 < n ∧ ∃ kept dropped m,
    xs.take n = kept ++ dropped ∧ by_ = kept ++ List.replicate (m + 1) mark

theorem masked_substitute {found : List α → Option (Nat × List α)} (hfound : Masks mark found)
    (skip : Nat) : Masked mark (xs.drop skip) (substitute found skip xs) := by
  induction xs generalizing skip with
  | nil => cases skip <;> exact .nil
  | cons x xs ih =>
    cases skip with
    | succ skip => exact ih skip
    | zero =>
      rw [List.drop_zero, substitute]
      split
      · next n by_ hmatch =>
        obtain ⟨hpos, kept, dropped, m, htake, rfl⟩ := hfound _ _ _ hmatch
        obtain ⟨n, rfl⟩ := Nat.exists_eq_add_of_le' hpos
        have hsplit : x :: xs = kept ++ (dropped ++ xs.drop n) := by
          rw [← List.append_assoc, ← htake]
          exact (List.take_append_drop (n + 1) (x :: xs)).symm
        rw [hsplit, List.append_assoc]
        exact ((ih n).maskAll dropped m).keepAll kept
      · exact .keep x (by simpa using ih 0)

section
variable [DecidableEq α]

theorem masks_replace (hs : s ≠ []) (m : Nat) : Masks mark fun ys =>
    if s.isPrefixOf ys then some (s.length, List.replicate (m + 1) mark) else none := by
  intro ys n by_ hmatch
  dsimp only at hmatch
  split at hmatch
  · cases hmatch
    exact ⟨List.length_pos_of_ne_nil hs, [], ys.take s.length, m, rfl, rfl⟩
  · cases hmatch

theorem masked_replaceAll (hs : s ≠ []) (m : Nat) (xs : List α) :
    Masked mark xs (replaceAll s (List.replicate (m + 1) mark) xs) :=
  masked_substitute (masks_replace hs m) 0

/-- What has been replaced by marks does not occur any more. -/
theorem not_infix_replaceAll (hs : s ≠ []) (hmark : mark ∉ s) (m : Nat) (xs : List α) :
    ¬ s <:+: replaceAll s (List.replicate (m + 1) mark) xs := by
  unfold replaceAll
  generalize 0 = skip
  induction xs generalizing skip with
  | nil => cases skip <;> simpa [substitute] using hs
  | cons x xs ih =>
    cases skip with
    | succ skip => exact ih skip
    | zero =>
      rw [substitute]
      split
      · next n by_ hmatch =>
        split at hmatch
        · cases hmatch
          -- a text without marks does not reach into the marks
          intro hin
          have hrest : s <:+: substitute (fun ys => if s.isPrefixOf ys then
              some (s.length, List.replicate (m + 1) mark) else none) (s.length - 1) xs := by
            refine Masked.isInfix ?_ hmark hin
            exact (Masked.refl mark _).maskAll [] m
          exact ih _ hrest
        · cases hmatch
      · next hmatch =>
        intro hin
        rcases List.infix_cons_iff.1 hin with hpre | hin
        · have hmasked : Masked mark (x :: xs) (x :: substitute (fun ys => if s.isPrefixOf ys then
              some (s.length, List.replicate (m + 1) mark) else none) 0 xs) :=
            .keep x (by simpa using masked_substitute (masks_replace hs m) 0)
          have hfound := hmasked.isPrefix hmark hpre
          rw [if_pos (List.isPrefixOf_iff_prefix.2 hfound)] at hmatch
          cases hmatch
        · exact ih 0 hin

end

/-! ## Texts cut at a separator -/

/-- A text without the separator occurs before it or after it. -/
theorem infix_append_cons_iff {q : α} (hq : q ∉ s) :
    s <:+: xs ++ q :: ys ↔ s <:+: xs ∨ s <:+: ys := by
  constructor
  · intro h
    rcases List.infix_append_iff.1 h with h | h | ⟨l, l', rfl, hl, hl'⟩
    · exact .inl h
    · rcases List.infix_cons_iff.1 h with h | h
      · cases s with
        | nil => exact .inl List.nil_infix
        | cons x s =>
          obtain ⟨rfl, -⟩ := List.cons_prefix_cons.1 h
          exact absurd (.head _) hq
      · exact .inr h
    · cases l' with
      | nil =>
        rw [List.append_nil]
        exact .inl hl.isInfix
      | cons x l' =>
        obtain ⟨rfl, -⟩ := List.cons_prefix_cons.1 hl'
        exact absurd (List.mem_append_right _ (.head _)) hq
  · rintro (h | h)
    · exact List.infix_append_of_infix_left h
    · exact List.infix_append_of_infix_right (List.infix_cons h)

end Lib
