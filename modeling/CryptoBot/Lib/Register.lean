import Mathlib.Data.List.MinMax

/-!
# Registers guarded by a stamp

A register holds at most one value. `keep` takes a write only when it is newer by its stamp than the
value held; `take` refuses a write only when the value held is newer. The two differ in what a write
of the same stamp does, and so in which of the newest writes survives: the first, or the last.
-/

namespace Lib.Register

variable {α κ : Type*} [LinearOrder κ] (stamp : α → κ)

/-- A write that must be newer than what is held. -/
def keep (held : Option α) (a : α) : Option α :=
  match held with
  | some b => if stamp b < stamp a then some a else some b
  | none => some a

/-- A write that must not be older than what is held. -/
def take (held : Option α) (a : α) : Option α :=
  match held with
  | some b => if stamp a < stamp b then some b else some a
  | none => some a

variable {stamp}

/-! ## The first of the newest -/

/-- What survives guarded writes is the first of the newest, with what was held as the first. -/
theorem foldl_keep (held : Option α) (l : List α) :
    l.foldl (keep stamp) held = (held.toList ++ l).argmax stamp := by
  induction l using List.reverseRecOn with
  | nil => cases held <;> rfl
  | append_singleton l a ih =>
    rw [List.foldl_concat, ih, ← List.append_assoc, List.argmax_concat]
    cases (held.toList ++ l).argmax stamp <;> rfl

theorem argmax_cons_of_le {a : α} {l : List α} (h : ∀ b ∈ l, stamp b ≤ stamp a) :
    (a :: l).argmax stamp = some a := by
  rw [List.argmax_cons]
  cases hl : l.argmax stamp with
  | none => rfl
  | some b => exact if_neg (not_lt.2 (h b (List.argmax_mem hl)))

/-- The newest of the writes survives, when it is newer than what was held and alone in its
stamp. -/
theorem foldl_keep_newest {held : Option α} {l : List α} {a : α} (ha : a ∈ l)
    (hheld : ∀ b ∈ held, stamp b < stamp a) (hmax : ∀ b ∈ l, stamp b ≤ stamp a)
    (huniq : ∀ b ∈ l, stamp b = stamp a → b = a) :
    l.foldl (keep stamp) held = some a := by
  rw [foldl_keep]
  have hle : ∀ b ∈ held.toList ++ l, stamp b ≤ stamp a := by
    intro b hb
    rcases List.mem_append.1 hb with hb | hb
    · exact (hheld b (Option.mem_toList.1 hb)).le
    · exact hmax b hb
  cases hm : (held.toList ++ l).argmax stamp with
  | none =>
    rw [List.argmax_eq_none] at hm
    exact absurd (List.mem_append_right _ ha) (hm ▸ List.not_mem_nil)
  | some b =>
    have hb := List.argmax_mem hm
    have hab : stamp a ≤ stamp b := List.le_of_mem_argmax (List.mem_append_right _ ha) hm
    rcases List.mem_append.1 hb with hh | hl
    · exact absurd (hheld b (Option.mem_toList.1 hh)) (not_lt.2 hab)
    · rw [huniq b hl (le_antisymm (hle b hb) hab)]

/-- The order of the writes does not matter when each stamp has one write. -/
theorem foldl_keep_congr {held : Option α} {l l' : List α} (hmem : ∀ a, a ∈ l ↔ a ∈ l')
    (huniq : ∀ a ∈ l, ∀ b ∈ l, stamp a = stamp b → a = b) :
    l.foldl (keep stamp) held = l'.foldl (keep stamp) held := by
  by_cases hnew : ∃ a ∈ l, (∀ b ∈ held, stamp b < stamp a) ∧ ∀ b ∈ l, stamp b ≤ stamp a
  · obtain ⟨a, ha, hheld, hmax⟩ := hnew
    rw [foldl_keep_newest ha hheld hmax fun b hb => huniq b hb a ha,
      foldl_keep_newest ((hmem a).1 ha) hheld (fun b hb => hmax b ((hmem b).2 hb))
        fun b hb => huniq b ((hmem b).2 hb) a ha]
  -- nothing is newer than what is held, so it stays
  · cases hm : l.argmax stamp with
    | none =>
      rw [List.argmax_eq_none] at hm
      have hnil : l' = [] := List.eq_nil_iff_forall_not_mem.2 fun a ha => by
        simpa [hm] using (hmem a).2 ha
      rw [hm, hnil]
    | some a =>
      have hmax : ∀ b ∈ l, stamp b ≤ stamp a := fun b hb => List.le_of_mem_argmax hb hm
      cases held with
      | none => exact absurd ⟨a, List.argmax_mem hm, fun b hb => by (cases hb), hmax⟩ hnew
      | some c =>
        have hc : stamp a ≤ stamp c := by
          by_contra hlt
          refine hnew ⟨a, List.argmax_mem hm, fun b hb => ?_, hmax⟩
          cases hb
          exact not_le.1 hlt
        rw [foldl_keep, foldl_keep]
        change (c :: l).argmax stamp = (c :: l').argmax stamp
        rw [argmax_cons_of_le fun b hb => (hmax b hb).trans hc,
          argmax_cons_of_le fun b hb => (hmax b ((hmem b).2 hb)).trans hc]

/-! ## The last of the newest -/

theorem mem_of_foldl_take {l : List α} {b : α} (h : l.foldl (take stamp) none = some b) : b ∈ l := by
  induction l using List.reverseRecOn with
  | nil => cases h
  | append_singleton l a ih =>
    rw [List.foldl_concat] at h
    cases hl : l.foldl (take stamp) none with
    | none =>
      rw [hl] at h
      cases h
      exact List.mem_append_right _ (.head _)
    | some c =>
      rw [hl] at h ih
      dsimp only [take] at h
      split at h
      · cases h
        exact List.mem_append_left _ (ih rfl)
      · cases h
        exact List.mem_append_right _ (.head _)

/-- What survives unguarded ties is the last write of the newest stamp. -/
theorem foldl_take {k : κ} {l : List α} (hmax : ∀ a ∈ l, stamp a ≤ k) (hk : ∃ a ∈ l, stamp a = k) :
    l.foldl (take stamp) none = (l.filter fun a => decide (stamp a = k)).getLast? := by
  induction l using List.reverseRecOn with
  | nil =>
    obtain ⟨a, ha, -⟩ := hk
    cases ha
  | append_singleton l a ih =>
    have hmax' : ∀ b ∈ l, stamp b ≤ k := fun b hb => hmax b (List.mem_append_left _ hb)
    rw [List.foldl_concat, List.filter_append]
    by_cases ha : stamp a = k
    · have hlast : ([a].filter fun a => decide (stamp a = k)) = [a] := by simp [ha]
      rw [hlast, List.getLast?_concat]
      cases hl : l.foldl (take stamp) none with
      | none => rfl
      | some c =>
        have hc := hmax' c (mem_of_foldl_take hl)
        exact if_neg (by rw [ha]; exact not_lt.2 hc)
    · have hnone : ([a].filter fun a => decide (stamp a = k)) = [] := by simp [ha]
      have hk' : ∃ b ∈ l, stamp b = k := by
        obtain ⟨b, hb, hbk⟩ := hk
        rcases List.mem_append.1 hb with hb | hb
        · exact ⟨b, hb, hbk⟩
        · rw [List.mem_singleton.1 hb] at hbk
          exact absurd hbk ha
      rw [hnone, List.append_nil, ih hmax' hk']
      cases hl : (l.filter fun a => decide (stamp a = k)).getLast? with
      | none =>
        obtain ⟨b, hb, hbk⟩ := hk'
        rw [List.getLast?_eq_none_iff] at hl
        have : b ∈ l.filter fun a => decide (stamp a = k) := List.mem_filter.2 ⟨hb, by simp [hbk]⟩
        rw [hl] at this
        cases this
      | some c =>
        have hc : stamp c = k := by
          simpa using (List.mem_filter.1 (List.mem_of_getLast? hl)).2
        have hlt : stamp a < stamp c := by
          rw [hc]
          exact lt_of_le_of_ne (hmax a (List.mem_append_right _ (.head _))) ha
        exact if_pos hlt

end Lib.Register
