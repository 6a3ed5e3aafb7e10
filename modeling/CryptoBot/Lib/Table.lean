import Mathlib.Data.List.Pairwise
import Mathlib.Data.List.Sort
import Mathlib.Tactic.Common

/-!
# Tables with a row constraint

A table is a list of rows in insertion order that satisfy a constraint `R` pairwise, earlier row
first: increasing row ids, distinct keys. A statement proposes new rows, and the table takes them
exactly when the constraint holds, as a database checks its unique indexes.
-/

namespace Lib

variable {ρ κ : Type*} {R : ρ → ρ → Prop}

/-- Rows in insertion order, pairwise related by `R`. -/
structure Table (R : ρ → ρ → Prop) where
  rows : List ρ
  ok : rows.Pairwise R

namespace Table

/-- The table without rows. -/
def empty : Table R := ⟨[], .nil⟩

@[simp] theorem rows_empty : (empty : Table R).rows = [] := rfl

@[ext] theorem ext {t t' : Table R} (h : t.rows = t'.rows) : t = t' := by
  cases t; cases t'; cases h; rfl

section
variable [DecidableRel R]

/-- The table with the proposed rows, if they satisfy the constraint. -/
def commit? (rows : List ρ) : Option (Table R) :=
  if h : rows.Pairwise R then some ⟨rows, h⟩ else none

theorem commit?_eq_some {rows : List ρ} {t : Table R} :
    commit? rows = some t ↔ t.rows = rows := by
  unfold commit?
  constructor
  · intro h
    split at h
    · cases h; rfl
    · cases h
  · rintro rfl
    rw [dif_pos t.ok]

theorem commit?_eq_none {rows : List ρ} :
    (commit? rows : Option (Table R)) = none ↔ ¬ rows.Pairwise R := by
  unfold commit?
  split <;> simp_all

/-- Inserting a row at the end. -/
def insert? (t : Table R) (r : ρ) : Option (Table R) := commit? (t.rows ++ [r])

theorem insert?_eq_some {t t' : Table R} {r : ρ} :
    t.insert? r = some t' ↔ t'.rows = t.rows ++ [r] := commit?_eq_some

theorem insert?_isSome {t : Table R} {r : ρ} :
    (t.insert? r).isSome ↔ ∀ a ∈ t.rows, R a r := by
  rw [insert?, Option.isSome_iff_ne_none, Ne, commit?_eq_none, not_not, List.pairwise_append]
  simp [t.ok]

/-- Replacing the rows that satisfy `p` by their image under `f`. -/
def update? (t : Table R) (p : ρ → Bool) (f : ρ → ρ) : Option (Table R) :=
  commit? (t.rows.map fun r => if p r then f r else r)

theorem update?_eq_some {t t' : Table R} {p : ρ → Bool} {f : ρ → ρ} :
    t.update? p f = some t' ↔ t'.rows = t.rows.map fun r => if p r then f r else r :=
  commit?_eq_some

end

/-! ## Keys -/

section
variable (key : ρ → κ)

/-- Two rows with one key are the same row, when the constraint separates keys. -/
theorem eq_of_key (hR : ∀ a b, R a b → key a ≠ key b) (t : Table R) {a b : ρ} (ha : a ∈ t.rows)
    (hb : b ∈ t.rows) (h : key a = key b) : a = b := by
  have key_ne : t.rows.Pairwise fun a b => key a ≠ key b := t.ok.imp (hR _ _)
  have hnodup := List.pairwise_map.2 key_ne
  exact List.inj_on_of_nodup_map hnodup ha hb h

/-- The row looked up under a key is the one row with that key. -/
theorem find?_eq_some [DecidableEq κ] (hR : ∀ a b, R a b → key a ≠ key b) (t : Table R) {k : κ}
    {a : ρ} : t.rows.find? (fun r => decide (key r = k)) = some a ↔ a ∈ t.rows ∧ key a = k := by
  constructor
  · intro h
    exact ⟨List.mem_of_find?_eq_some h, by simpa using List.find?_some h⟩
  · rintro ⟨ha, rfl⟩
    cases hf : t.rows.find? (fun r => decide (key r = key a)) with
    | none => simpa using List.find?_eq_none.1 hf a ha
    | some b =>
      have hb : key b = key a := by simpa using List.find?_some hf
      rw [eq_of_key key hR t (List.mem_of_find?_eq_some hf) ha hb]

end

end Table
end Lib
