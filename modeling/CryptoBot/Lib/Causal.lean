import Mathlib.Data.List.Basic
import Mathlib.Data.List.TakeDrop

/-!
# Functions of the past

A function on lists is causal when the first elements of its value depend on as many elements of its
argument. A loop whose turns may report something is read off turn by turn: what a turn reports
depends on the turns before it and on nothing else.
-/

namespace Lib

variable {α β γ σ τ ρ : Type*}

/-! ## Slices -/

/-- `xs[start:end]`. -/
def slice (start end_ : Nat) (xs : List α) : List α := (xs.take end_).drop start

theorem take_eq_of_le {n m : Nat} {xs ys : List α} (h : xs.take n = ys.take n) (hm : m ≤ n) :
    xs.take m = ys.take m := by
  rw [← Nat.min_eq_left hm, ← List.take_take, h, List.take_take]

/-- Lists that agree up to `n` are equal, or have `n` elements. -/
theorem eq_or_le_length {n : Nat} {xs ys : List α} (h : xs.take n = ys.take n) :
    xs = ys ∨ n ≤ xs.length ∧ n ≤ ys.length := by
  have hlen : min n xs.length = min n ys.length := by
    rw [← List.length_take, h, List.length_take]
  by_cases hn : n ≤ xs.length
  · exact .inr ⟨hn, by omega⟩
  · refine .inl ?_
    rw [← List.take_of_length_le (by omega : xs.length ≤ n), h, List.take_of_length_le (by omega)]

/-- A slice that ends where two lists still agree is the same of both. -/
theorem slice_congr {n start end_ : Nat} {xs ys : List α} (h : xs.take n = ys.take n)
    (hend : end_ ≤ n) : slice start end_ xs = slice start end_ ys :=
  congrArg (List.drop start) (take_eq_of_le h hend)

theorem getElem?_congr {n i : Nat} {xs ys : List α} (h : xs.take n = ys.take n) (hi : i < n) :
    xs[i]? = ys[i]? := by
  rw [← List.getElem?_take_of_lt hi, h, List.getElem?_take_of_lt hi]

/-! ## Causal functions -/

/-- The first elements of the value depend on as many elements of the argument. -/
def Causal (f : List α → List β) : Prop :=
  ∀ n xs ys, xs.take n = ys.take n → (f xs).take n = (f ys).take n

theorem Causal.map (g : α → β) : Causal (List.map g) := fun n xs ys h => by
  rw [← List.map_take, h, List.map_take]

theorem Causal.comp {f : List α → List β} {g : List β → List γ} (hg : Causal g) (hf : Causal f) :
    Causal (g ∘ f) := fun n xs ys h => hg n _ _ (hf n xs ys h)

/-- A function that commutes with `take`. -/
theorem Causal.of_take {f : List α → List β} (h : ∀ n xs, (f xs).take n = f (xs.take n)) : Causal f :=
  fun n xs ys hn => by rw [h, h, hn]

theorem Causal.of_getElem? {f : List α → List β}
    (h : ∀ i xs ys, xs.take (i + 1) = ys.take (i + 1) → (f xs)[i]? = (f ys)[i]?) : Causal f := by
  intro n xs ys hn
  refine List.ext_getElem? fun i => ?_
  by_cases hi : i < n
  · rw [List.getElem?_take_of_lt hi, List.getElem?_take_of_lt hi]
    exact h i xs ys (take_eq_of_le hn hi)
  · rw [List.getElem?_eq_none, List.getElem?_eq_none] <;> simp <;> omega

/-- A list computed index by index, from the elements up to the index. -/
theorem Causal.range {f : Nat → List α → β} (h : ∀ i xs ys, xs.take (i + 1) = ys.take (i + 1) →
    i < xs.length → f i xs = f i ys) : Causal fun xs => (List.range xs.length).map fun i => f i xs := by
  refine .of_getElem? fun i xs ys hi => ?_
  have hlen : min (i + 1) xs.length = min (i + 1) ys.length := by
    rw [← List.length_take, hi, List.length_take]
  by_cases hx : i < xs.length
  · rw [List.getElem?_map, List.getElem?_map, List.getElem?_range hx, List.getElem?_range (by omega)]
    exact congrArg some (h i xs ys hi hx)
  · rw [List.getElem?_eq_none, List.getElem?_eq_none]
    · simp only [List.length_map, List.length_range]
      omega
    · simpa using hx

/-- A list computed element by element, from the elements up to each. -/
theorem Causal.zipIdx {f : List α → Nat → α → β} (h : ∀ i xs ys, xs.take (i + 1) = ys.take (i + 1) →
    f xs i = f ys i) : Causal fun xs => xs.zipIdx.map fun x => f xs x.2 x.1 := by
  refine .of_getElem? fun i xs ys hi => ?_
  have hget : xs[i]? = ys[i]? := getElem?_congr hi (Nat.lt_succ_self i)
  rw [List.getElem?_map, List.getElem?_map, List.getElem?_zipIdx, List.getElem?_zipIdx, hget]
  cases ys[i]? with
  | none => rfl
  | some x => exact congrArg some (congrFun (h _ _ _ (by rwa [Nat.zero_add])) x)

/-! ## Loops that report -/

/-- The turns `start, start + 1, …` of a loop: a turn reports something and moves on, or is skipped. -/
def turns (turn : Nat → σ → Option (ρ × σ)) : (start n : Nat) → σ → List ρ × σ
  | _, 0, s => ([], s)
  | i, n + 1, s =>
    match turn i s with
    | none => turns turn (i + 1) n s
    | some (r, s') => (r :: (turns turn (i + 1) n s').1, (turns turn (i + 1) n s').2)

/-- The state before turn `start + n`. -/
def before (turn : Nat → σ → Option (ρ × σ)) (start n : Nat) (s : σ) : σ := (turns turn start n s).2

/-- What turn `start + n` reports. -/
def report (turn : Nat → σ → Option (ρ × σ)) (start n : Nat) (s : σ) : Option ρ :=
  (turn (start + n) (before turn start n s)).map Prod.fst

theorem before_succ {turn : Nat → σ → Option (ρ × σ)} {start n : Nat} {s : σ} :
    before turn start (n + 1) s =
      ((turn (start + n) (before turn start n s)).map Prod.snd).getD (before turn start n s) := by
  induction n generalizing start s with
  | zero =>
    unfold before turns
    cases turn start s with
    | none => rfl
    | some x => rfl
  | succ n ih =>
    have hstep (k : Nat) : before turn start (k + 1) s =
        before turn (start + 1) k (((turn start s).map Prod.snd).getD s) := by
      unfold before
      rw [turns]
      cases turn start s with
      | none => rfl
      | some x => rfl
    rw [hstep (n + 1), hstep n, ih, Nat.add_right_comm, Nat.add_assoc]

/-- The reports of a loop are those of its turns. -/
theorem turns_fst {turn : Nat → σ → Option (ρ × σ)} {start n : Nat} {s : σ} :
    (turns turn start n s).1 = (List.range n).filterMap fun k => report turn start k s := by
  induction n generalizing start s with
  | zero => rfl
  | succ n ih =>
    have hshift (k : Nat) : report turn start (k + 1) s =
        report turn (start + 1) k (((turn start s).map Prod.snd).getD s) := by
      unfold report before
      rw [turns, Nat.add_right_comm, Nat.add_assoc]
      cases turn start s with
      | none => rfl
      | some x => rfl
    rw [List.range_succ_eq_map, List.filterMap_cons, List.filterMap_map]
    have hzero : report turn start 0 s = (turn start s).map Prod.fst := rfl
    rw [hzero, turns]
    cases hturn : turn start s with
    | none =>
      rw [hturn] at hshift
      dsimp only [Option.map_none]
      rw [ih]
      exact List.filterMap_congr fun k _ => (hshift k).symm
    | some x =>
      rw [hturn] at hshift
      dsimp only [Option.map_some]
      rw [ih]
      exact congrArg _ (List.filterMap_congr fun k _ => (hshift k).symm)

/-- Two loops whose turns agree up to turn `k` are in related states before it. -/
theorem before_related {turn : Nat → σ → Option (ρ × σ)} {turn' : Nat → τ → Option (ρ × τ)}
    {R : σ → τ → Prop} {start k : Nat} {s : σ} {t : τ} (h : R s t)
    (hturn : ∀ j < k, ∀ s t, R s t →
      Option.Rel (fun x y => R x.2 y.2) (turn (start + j) s) (turn' (start + j) t)) :
    R (before turn start k s) (before turn' start k t) := by
  induction k with
  | zero => exact h
  | succ k ih =>
    have hk := ih fun j hj => hturn j (Nat.lt_succ_of_lt hj)
    have hrel := hturn k (Nat.lt_succ_self k) _ _ hk
    rw [before_succ, before_succ]
    generalize turn (start + k) (before turn start k s) = o at hrel ⊢
    generalize turn' (start + k) (before turn' start k t) = o' at hrel ⊢
    cases hrel with
    | none => exact hk
    | some hxy => exact hxy

/-- Two loops whose turns report related things, and move on to related states, report related
things. -/
theorem report_related {turn : Nat → σ → Option (ρ × σ)} {turn' : Nat → τ → Option (ρ × τ)}
    {R : σ → τ → Prop} {S : ρ → ρ → Prop} {start k : Nat} {s : σ} {t : τ} (h : R s t)
    (hturn : ∀ j ≤ k, ∀ s t, R s t →
      Option.Rel (fun x y => S x.1 y.1 ∧ R x.2 y.2) (turn (start + j) s) (turn' (start + j) t)) :
    Option.Rel S (report turn start k s) (report turn' start k t) := by
  have hbefore : R (before turn start k s) (before turn' start k t) := by
    refine before_related h fun j hj s t hst => ?_
    have hrel := hturn j (Nat.le_of_lt hj) s t hst
    generalize turn (start + j) s = o at hrel ⊢
    generalize turn' (start + j) t = o' at hrel ⊢
    cases hrel with
    | none => exact .none
    | some hxy => exact .some hxy.2
  have hrel := hturn k (Nat.le_refl k) _ _ hbefore
  unfold report
  generalize turn (start + k) (before turn start k s) = o at hrel ⊢
  generalize turn' (start + k) (before turn' start k t) = o' at hrel ⊢
  cases hrel with
  | none => exact .none
  | some hxy => exact .some hxy.1

/-- Two loops with the same turns up to turn `k` report the same in it. -/
theorem report_congr {turn turn' : Nat → σ → Option (ρ × σ)} {start k : Nat} {s : σ}
    (hturn : ∀ j ≤ k, ∀ s, turn (start + j) s = turn' (start + j) s) :
    report turn start k s = report turn' start k s := by
  have hbefore : before turn start k s = before turn' start k s := by
    refine before_related (R := fun s t => s = t) rfl ?_
    rintro j hj s - rfl
    rw [hturn j (Nat.le_of_lt hj) s]
    cases turn' (start + j) s with
    | none => exact .none
    | some x => exact .some rfl
  unfold report
  rw [hbefore, hturn k (Nat.le_refl k)]

end Lib
