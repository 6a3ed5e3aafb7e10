import CryptoBot.Research.Ml
import CryptoBot.Research.Overlay

/-!
# Walk-forward folds are out of sample

The months up to the one that ends at bar `n` are the months of the first `n` bars, so two frames
that agree up to the end of a fold's test have the same folds up to it. What a fold is given of the
frame are slices that end there, and what is chosen for it are slices that end where its test starts;
training labels look ahead, but not that far.
-/

namespace CryptoBot

open Lib Backtest

/-! ## Months of a beginning -/

theorem mem_monthsFrom {start i : Nat} {name : Int × Int} {names : List (Int × Int)} {m : Month}
    (hstart : start < i) (hm : m ∈ monthsFrom start i name names) :
    start ≤ m.start ∧ m.start < m.end_ ∧ i ≤ m.end_ ∧ m.end_ ≤ i + names.length := by
  induction names generalizing start i name with
  | nil =>
    obtain rfl := List.mem_singleton.1 hm
    exact ⟨le_refl _, hstart, le_refl _, Nat.le_add_right _ _⟩
  | cons name' names ih =>
    unfold monthsFrom at hm
    rw [List.length_cons]
    split at hm
    · rcases List.mem_cons.1 hm with rfl | hm
      · exact ⟨le_refl _, hstart, le_refl _, Nat.le_add_right _ _⟩
      · obtain ⟨h₁, h₂, h₃, h₄⟩ := ih (Nat.lt_succ_self i) hm
        exact ⟨hstart.le.trans h₁, h₂, (Nat.le_succ i).trans h₃, by omega⟩
    · obtain ⟨h₁, h₂, h₃, h₄⟩ := ih (Nat.lt_succ_of_lt hstart) hm
      exact ⟨h₁, h₂, (Nat.le_succ i).trans h₃, by omega⟩

theorem monthsFrom_take {start i k : Nat} {name : Int × Int} {names : List (Int × Int)} {m : Month}
    (hstart : start < i) (hm : (monthsFrom start i name names)[k]? = some m) :
    (monthsFrom start i name names).take (k + 1) =
      monthsFrom start i name (names.take (m.end_ - i)) := by
  induction names generalizing start i k name with
  | nil =>
    cases k with
    | zero => rw [List.take_nil]; rfl
    | succ k => simp [monthsFrom] at hm
  | cons name' names ih =>
    unfold monthsFrom at hm ⊢
    split at hm
    · next hne =>
      rw [if_pos hne]
      cases k with
      | zero =>
        obtain rfl : _ = m := Option.some.inj hm
        rw [Nat.sub_self]
        rfl
      | succ k =>
        rw [List.getElem?_cons_succ] at hm
        obtain ⟨-, -, hend, -⟩ := mem_monthsFrom (Nat.lt_succ_self i) (List.mem_of_getElem? hm)
        rw [List.take_succ_cons, ih (Nat.lt_succ_self i) hm,
          show m.end_ - i = m.end_ - (i + 1) + 1 by omega, List.take_succ_cons]
        dsimp only
        rw [if_pos hne]
    · next heq =>
      obtain ⟨-, -, hend, -⟩ := mem_monthsFrom (Nat.lt_succ_of_lt hstart) (List.mem_of_getElem? hm)
      rw [if_neg heq, ih (Nat.lt_succ_of_lt hstart) hm,
        show m.end_ - i = m.end_ - (i + 1) + 1 by omega, List.take_succ_cons]
      dsimp only
      rw [if_neg heq]

/-- A month starts where the one before it ends. -/
theorem monthsFrom_succ {start i k : Nat} {name : Int × Int} {names : List (Int × Int)} {m : Month}
    (hm : (monthsFrom start i name names)[k + 1]? = some m) :
    ∃ m', (monthsFrom start i name names)[k]? = some m' ∧ m'.end_ = m.start := by
  induction names generalizing start i k name with
  | nil => simp [monthsFrom] at hm
  | cons name' names ih =>
    unfold monthsFrom at hm ⊢
    split at hm
    · next hne =>
      rw [if_pos hne]
      rw [List.getElem?_cons_succ] at hm
      cases k with
      | zero =>
        refine ⟨_, rfl, ?_⟩
        -- the month after a change starts at the change
        have hhead (names : List (Int × Int)) (start i : Nat) (name : Int × Int) :
            ∀ m ∈ (monthsFrom start i name names)[0]?, m.start = start := by
          induction names generalizing start i name with
          | nil => rintro m ⟨⟩; rfl
          | cons name' names ih =>
            unfold monthsFrom
            split
            · rintro m ⟨⟩; rfl
            · exact ih _ _ _
        exact (hhead _ _ _ _ m hm).symm
      | succ k => exact ih hm
    · next heq =>
      rw [if_neg heq]
      exact ih hm

section
variable {K : Type} {df df' : List (Candle K)} {n k : Nat} {m m' : Month}

/-- The months up to one that ends at bar `n` are those of the first `n` bars. -/
theorem monthBounds_take (hm : (monthBounds df)[k]? = some m) :
    (monthBounds df).take (k + 1) = monthBounds (df.take m.end_) ∧ m.start < m.end_ ∧
      m.end_ ≤ df.length := by
  unfold monthBounds at hm ⊢
  rw [List.map_take]
  cases hnames : df.map fun c => monthOf c.timestamp with
  | nil =>
    rw [hnames] at hm
    cases hm
  | cons name names =>
    rw [hnames] at hm
    obtain ⟨-, hlt, hend, hle⟩ := mem_monthsFrom Nat.zero_lt_one (List.mem_of_getElem? hm)
    have hlen : names.length + 1 = df.length := by
      rw [← List.length_cons, ← hnames, List.length_map]
    refine ⟨?_, hlt, by omega⟩
    have htake : (name :: names).take m.end_ = name :: names.take (m.end_ - 1) := by
      rw [show m.end_ = m.end_ - 1 + 1 by omega, List.take_succ_cons]
      rfl
    rw [htake]
    exact monthsFrom_take Nat.zero_lt_one hm

theorem monthBounds_succ (hm : (monthBounds df)[k + 1]? = some m) :
    ∃ m', (monthBounds df)[k]? = some m' ∧ m'.end_ = m.start := by
  unfold monthBounds at hm ⊢
  cases hnames : df.map fun c => monthOf c.timestamp with
  | nil =>
    rw [hnames] at hm
    cases hm
  | cons name names =>
    rw [hnames] at hm
    exact monthsFrom_succ hm

/-- Two frames that agree up to the end of month `k` of both have the same months up to it. -/
theorem monthBounds_congr (hdf : df.take n = df'.take n) (hm : (monthBounds df)[k]? = some m)
    (hm' : (monthBounds df')[k]? = some m') (hend : m.end_ = n) (hend' : m'.end_ = n) {j : Nat}
    (hj : j ≤ k) : (monthBounds df)[j]? = (monthBounds df')[j]? := by
  refine getElem?_congr (n := k + 1) ?_ (Nat.lt_succ_of_le hj)
  rw [(monthBounds_take hm).1, (monthBounds_take hm').1, hend, hend', hdf]

/-- A month ends no later than a later one. -/
theorem monthBounds_le {j : Nat} {mj : Month} (hm : (monthBounds df)[k]? = some m)
    (hj : (monthBounds df)[j]? = some mj) (hjk : j ≤ k) : mj.end_ ≤ m.end_ := by
  have hmem : (monthBounds (df.take m.end_))[j]? = some mj := by
    rw [← (monthBounds_take hm).1, List.getElem?_take_of_lt (Nat.lt_succ_of_le hjk), hj]
  have hle := (monthBounds_take hmem).2.2
  rw [List.length_take] at hle
  omega

end

/-! ## Common pasts -/

section
variable {K : Type} {df df' : List (Candle K)} {n k : Nat}

/-- Two frames that agree up to bar `n`, with the same months up to `k`, all of them ending there at
the latest. -/
structure SameMonths (n k : Nat) (df df' : List (Candle K)) : Prop where
  take : df.take n = df'.take n
  months : ∀ j ≤ k, (monthBounds df)[j]? = (monthBounds df')[j]?
  ends : ∀ j ≤ k, ∀ m, (monthBounds df)[j]? = some m → m.end_ ≤ n

theorem SameMonths.mono {k j : Nat} (h : SameMonths n k df df') (hj : j ≤ k) :
    SameMonths n j df df' :=
  ⟨h.take, fun i hi => h.months i (hi.trans hj), fun i hi => h.ends i (hi.trans hj)⟩

/-- Frames that agree up to the end of a test have the months up to it in common. -/
theorem sameMonths_end {k : Nat} {te te' : Month} (hte : (monthBounds df)[k]? = some te)
    (hte' : (monthBounds df')[k]? = some te') (hend : te.end_ = te'.end_)
    (hdf : df.take te.end_ = df'.take te.end_) : SameMonths te.end_ k df df' where
  take := hdf
  months _ hj := monthBounds_congr hdf hte hte' rfl hend.symm hj
  ends _ hj _ hm := monthBounds_le hte hm hj

/-- Frames that agree up to the start of a test have the months before it in common. -/
theorem sameMonths_start {k : Nat} {te te' : Month} (hte : (monthBounds df)[k + 1]? = some te)
    (hte' : (monthBounds df')[k + 1]? = some te') (hstart : te.start = te'.start)
    (hn : te.start ≤ n) (hdf : df.take n = df'.take n) : SameMonths n k df df' := by
  obtain ⟨m, hm, hend⟩ := monthBounds_succ hte
  obtain ⟨m', hm', hend'⟩ := monthBounds_succ hte'
  refine ⟨hdf, fun j hj => ?_, fun j hj mj hmj => ?_⟩
  · exact monthBounds_congr (take_eq_of_le hdf hn) hm hm' hend (hend'.trans hstart.symm) hj
  · exact (monthBounds_le hm hmj hj).trans (hend.trans_le hn)

namespace Ml

variable {Row : Type} {X X' : List Row} {y y' : List (Option K)} {v1Sig v1Sig' : List K}
  {warm horizon valMonths : Nat}

theorem mem_rows {start end_ bar i : Nat} (hi : i ∈ rows start end_ y (some bar) horizon) :
    i + 1 + horizon < bar := by
  have h := (List.mem_filter.1 hi).2
  simp only [Bool.and_eq_true, Option.all_some, decide_eq_true_eq] at h
  exact h.2

theorem rows_congr {start end_ bar : Nat} (hbar : bar ≤ n)
    (hy : ∀ i, i + 1 + horizon < n → y[i]? = y'[i]?) :
    rows start end_ y (some bar) horizon = rows start end_ y' (some bar) horizon := by
  refine List.filter_congr fun i _ => ?_
  by_cases hi : i + 1 + horizon < bar
  · rw [hy i (hi.trans_le hbar)]
  · simp [hi]

theorem trainingSet_congr {idx : List Nat} (hX : X.take n = X'.take n)
    (hy : ∀ i, i + 1 + horizon < n → y[i]? = y'[i]?) (hidx : ∀ i ∈ idx, i + 1 + horizon < n) :
    trainingSet X y idx = trainingSet X' y' idx := by
  refine List.filterMap_congr fun i hi => ?_
  have hlt := hidx i hi
  rw [hy i hlt, getElem?_congr hX (by omega : i < n)]

/-! ### Signals of a window -/

theorem assign_congr {p p' : List (Option K)} {start end_ : Nat} {values : List K}
    (hp : p.take n = p'.take n) :
    (assign p start end_ values).take n = (assign p' start end_ values).take n :=
  Causal.range (f := fun i p => if start ≤ i ∧ i < end_ then values[i - start]? else p[i]?.join)
    (fun i xs ys h _ => by rw [getElem?_congr h (Nat.lt_succ_self i)]) n p p' hp

/-- Probabilities not predicted yet. -/
theorem blank_congr (hdf : df.take n = df'.take n) :
    (List.replicate df.length (none : Option K)).take n =
      (List.replicate df'.length none).take n := by
  rw [List.take_replicate, List.take_replicate, ← List.length_take, hdf, List.length_take]

/-- Inputs of two runs that agree up to bar `n`. -/
structure SameInputs (n horizon : Nat) (X X' : List Row) (y y' : List (Option K))
    (v1Sig v1Sig' : List K) : Prop where
  features : X.take n = X'.take n
  labels : ∀ i, i + 1 + horizon < n → y[i]? = y'[i]?
  v1Sig : v1Sig.take n = v1Sig'.take n

theorem SameInputs.mono {m : Nat} (h : SameInputs n horizon X X' y y' v1Sig v1Sig') (hm : m ≤ n) :
    SameInputs m horizon X X' y y' v1Sig v1Sig' :=
  ⟨take_eq_of_le h.features hm, fun i hi => h.labels i (hi.trans_le hm), take_eq_of_le h.v1Sig hm⟩

theorem trainRows_congr {teStart : Nat} (h : SameInputs n horizon X X' y y' v1Sig v1Sig')
    (hn : teStart ≤ n) : trainRows y warm horizon teStart = trainRows y' warm horizon teStart :=
  rows_congr hn h.labels

theorem training_congr {teStart : Nat} (h : SameInputs n horizon X X' y y' v1Sig v1Sig')
    (hn : teStart ≤ n) : trainingSet X y (trainRows y warm horizon teStart) =
      trainingSet X' y' (trainRows y' warm horizon teStart) := by
  rw [trainRows_congr h hn]
  exact trainingSet_congr h.features h.labels fun i hi => (mem_rows hi).trans_le hn

/-- The validation of a fold starts where its test starts at the latest. -/
theorem valStart_congr {te te' : Month} (h : SameMonths n k df df')
    (hte : (monthBounds df)[k + 1]? = some te) (hte' : (monthBounds df')[k + 1]? = some te')
    (hstart : te.start = te'.start) (hn : te.start ≤ n) :
    valStart (monthBounds df') valMonths (k + 1) = valStart (monthBounds df) valMonths (k + 1) ∧
      ∀ s ∈ valStart (monthBounds df) valMonths (k + 1), s ≤ n := by
  refine ⟨?_, fun s hs => ?_⟩ <;> unfold valStart at *
  · by_cases hj : max (k + 1 - valMonths) 1 ≤ k
    · rw [h.months _ hj]
    · rw [show max (k + 1 - valMonths) 1 = k + 1 by omega, hte, hte', Option.map_some,
        Option.map_some, hstart]
  · by_cases hj : max (k + 1 - valMonths) 1 ≤ k
    · obtain ⟨m, hm, rfl⟩ := Option.map_eq_some_iff.1 hs
      exact (monthBounds_take hm).2.1.le.trans (h.ends _ hj m hm)
    · rw [show max (k + 1 - valMonths) 1 = k + 1 by omega, hte] at hs
      cases hs
      exact hn

end Ml

end

/-! ## Causal signals -/

section
variable {K : Type} [Zero K] [One K] [Add K] [Sub K] [Mul K] [Div K] [Neg K] [NatCast K] [LT K] [LE K]
  [DecidableLT K] [DecidableLE K] [BEq K] [Min K] [Max K] {df df' : List (Candle K)} {n : Nat}

theorem rolling_congr {α : Type} {n i : Nat} {xs ys : List α} (h : xs.take (i + 1) = ys.take (i + 1)) :
    rolling n i xs = rolling n i ys := slice_congr h (le_refl _)

namespace Overlay

variable {p : Params K}

omit [One K] [Sub K] [Mul K] [Neg K] [LT K] [LE K] [DecidableLT K] [DecidableLE K] [BEq K] [Min K]
  [Max K] in
theorem line_congr {closes closes' : List K} {i : Nat}
    (h : closes.take (i + 1) = closes'.take (i + 1)) : line p closes i = line p closes' i := by
  unfold line
  rw [rolling_congr h]

omit [Neg K] [LT K] [DecidableLT K] [BEq K] [Min K] [Max K] in
theorem causal_above : Causal (above p) :=
  Causal.zipIdx (f := fun xs i x => (line p xs i).any fun avg => decide (avg * (1 - p.buffer) ≤ x))
    fun i xs ys h => by rw [line_congr h]

omit [Neg K] [LE K] [DecidableLE K] [BEq K] [Min K] [Max K] in
theorem causal_below : Causal (below p) :=
  Causal.zipIdx (f := fun xs i x => (line p xs i).any fun avg => decide (x < avg * (1 - p.buffer)))
    fun i xs ys h => by rw [line_congr h]

omit [Neg K] [BEq K] [Min K] [Max K] in
theorem causal_readings : Causal (readings p) := by
  refine Causal.range fun i xs ys h _ => ?_
  rw [line_congr h, confirmed, confirmed, confirmed, confirmed, rolling_congr (causal_above _ _ _ h),
    rolling_congr (causal_below _ _ _ h)]

omit [Add K] [Sub K] [Mul K] [Div K] [NatCast K] [LT K] [LE K] [DecidableLT K] [DecidableLE K]
  [BEq K] [Min K] [Max K] in
theorem causal_track (state : Stance) : Causal (track (K := K) state) := by
  refine .of_take fun n rs => ?_
  induction rs generalizing n state with
  | nil => rw [List.take_nil, track, List.take_nil]
  | cons r rs ih =>
    cases n with
    | zero => rfl
    | succ n =>
      rw [track, List.take_succ_cons, List.take_succ_cons, track, ih]

omit [BEq K] [Min K] [Max K] in
/-- The rule of the overlay looks back only. -/
theorem causal_signals : Causal (signals p) :=
  (Causal.map _).comp ((causal_track _).comp (causal_readings.comp (Causal.map _)))

end Overlay

/-! ## Folds -/

namespace Evaluate

variable {lib : NumberLib K} {scores scores' : List (Option K)} {warm k : Nat} {g : Grid K}
  {cfg : BTConfig K}

theorem v1Run_congr {p : Params K} {start end_ : Nat} {initial : Option K}
    (hdf : df.take n = df'.take n) (hscores : scores.take n = scores'.take n) (hend : end_ ≤ n) :
    v1Run lib df scores p cfg start end_ initial = v1Run lib df' scores' p cfg start end_ initial := by
  unfold v1Run
  rw [slice_congr hdf hend, slice_congr hscores hend]

theorem select_congr {start end_ : Nat} (hdf : df.take n = df'.take n)
    (hscores : scores.take n = scores'.take n) (hend : end_ ≤ n) :
    select lib df scores start end_ g cfg = select lib df' scores' start end_ g cfg := by
  unfold select
  simp only [v1Run_congr hdf hscores hend]

theorem foldParams_congr (h : SameMonths n k df df') (hscores : scores.take n = scores'.take n) :
    foldParams lib df scores warm g cfg (k + 1) = foldParams lib df' scores' warm g cfg (k + 1) := by
  unfold foldParams trainStart
  rw [h.months (k + 1 - 3) (by omega), h.months (k + 1 - 1) (by omega)]
  cases htr : (monthBounds df')[k + 1 - 3]? with
  | none => rfl
  | some tr =>
    cases hlast : (monthBounds df')[k + 1 - 1]? with
    | none => rfl
    | some last =>
      have hend : last.end_ ≤ n := h.ends (k + 1 - 1) (by omega) last (by
        rw [h.months (k + 1 - 1) (by omega), hlast])
      exact congrArg some (select_congr h.take hscores hend)

theorem turn_congr {st : Carried K} (h : SameMonths n (k + 1) df df')
    (hscores : scores.take n = scores'.take n) :
    turn lib df scores warm g cfg (k + 1) st = turn lib df' scores' warm g cfg (k + 1) st := by
  unfold turn trainStart
  dsimp only
  rw [h.months (k + 1 - 3) (by omega), h.months (k + 1 - 1) (by omega), h.months (k + 1) (le_refl _),
    foldParams_congr (h.mono (Nat.le_succ k)) hscores]
  cases htr : (monthBounds df')[k + 1 - 3]? with
  | none => rfl
  | some tr =>
    cases hlast : (monthBounds df')[k + 1 - 1]? with
    | none => rfl
    | some last =>
      cases hte : (monthBounds df')[k + 1]? with
      | none => rfl
      | some te =>
        have hend : te.end_ ≤ n := h.ends (k + 1) (le_refl _) te (by
          rw [h.months (k + 1) (le_refl _), hte])
        simp only [Option.bind_eq_bind, Option.bind_some, v1Run_congr h.take hscores hend]

end Evaluate

namespace Overlay

variable {lib : NumberLib K} {warm k : Nat} {g : Grid K} {cfg : BTConfig K}

theorem runVariant_congr {p : Params K} {start end_ : Nat} {initial : Option K}
    (hdf : df.take n = df'.take n) (hend : end_ ≤ n) :
    runVariant lib df p cfg start (some end_) initial =
      runVariant lib df' p cfg start (some end_) initial := by
  unfold runVariant
  dsimp only [Option.getD_some]
  rw [slice_congr hdf hend, slice_congr (causal_signals n df df' hdf) hend]

theorem select_congr {start end_ : Nat} (hdf : df.take n = df'.take n) (hend : end_ ≤ n) :
    select lib g df cfg start end_ = select lib g df' cfg start end_ := by
  unfold select
  simp only [runVariant_congr hdf hend]

theorem foldParams_congr (h : SameMonths n k df df') :
    foldParams lib g df cfg warm (k + 1) = foldParams lib g df' cfg warm (k + 1) := by
  unfold foldParams
  rw [h.months (k + 1 - 1) (by omega)]
  cases hlast : (monthBounds df')[k + 1 - 1]? with
  | none => rfl
  | some last =>
    have hend : last.end_ ≤ n := h.ends (k + 1 - 1) (by omega) last (by
      rw [h.months (k + 1 - 1) (by omega), hlast])
    exact congrArg some (select_congr h.take hend)

theorem turn_congr {st : Carried K} (h : SameMonths n (k + 1) df df') :
    turn lib g df cfg warm (k + 1) st = turn lib g df' cfg warm (k + 1) st := by
  unfold turn
  dsimp only
  rw [h.months (k + 1 - 1) (by omega), h.months (k + 1) (le_refl _),
    foldParams_congr (h.mono (Nat.le_succ k))]
  cases hlast : (monthBounds df')[k + 1 - 1]? with
  | none => rfl
  | some last =>
    cases hte : (monthBounds df')[k + 1]? with
    | none => rfl
    | some te =>
      have hend : te.end_ ≤ n := h.ends (k + 1) (le_refl _) te (by
        rw [h.months (k + 1) (le_refl _), hte])
      simp only [Option.bind_eq_bind, Option.bind_some, runVariant_congr h.take hend,
        slice_congr h.take hend]

end Overlay

namespace Ml

variable {Row Model : Type} {lib : NumberLib K} {learner : Learner K Row Model} {X X' : List Row}
  {y y' : List (Option K)} {v1Sig v1Sig' : List K} {warm horizon valMonths k : Nat}

/-! ### Labels and rows -/

omit [Add K] [Mul K] [Neg K] [NatCast K] [LE K] [DecidableLE K] [BEq K] [Min K] [Max K] in
/-- A label is known, and known alike, once its window has passed. -/
theorem labels_congr {edge : K} {i : Nat} (hdf : df.take n = df'.take n) (hi : i + 1 + horizon < n) :
    (labels df horizon edge)[i]? = (labels df' horizon edge)[i]? := by
  rcases eq_or_le_length hdf with rfl | ⟨hlen, hlen'⟩
  · rfl
  · have hget {j : Nat} (hj : j < n) : (df.map (·.open_))[j]? = (df'.map (·.open_))[j]? :=
      getElem?_congr (by rw [← List.map_take, hdf, List.map_take]) hj
    unfold labels
    dsimp only
    rw [List.getElem?_map, List.getElem?_map, List.getElem?_range (by rw [List.length_map]; omega),
      List.getElem?_range (by rw [List.length_map]; omega), Option.map_some, Option.map_some,
      if_pos (by rw [List.length_map]; omega), if_pos (by rw [List.length_map]; omega),
      hget hi, hget (by omega)]

omit [Add K] [Sub K] [Mul K] [BEq K] [Min K] [Max K] in
theorem signals_congr {mode : Mode} {p p' : List (Option K)} {thr : K} (hp : p.take n = p'.take n)
    (hv1 : v1Sig.take n = v1Sig'.take n) :
    (signals mode p v1Sig thr).take n = (signals mode p' v1Sig' thr).take n := by
  cases mode with
  | ml => exact Causal.map _ n p p' hp
  | veto =>
    refine Causal.map _ n _ _ ?_
    rw [List.zip_eq_zipWith, List.zip_eq_zipWith, List.take_zipWith, List.take_zipWith, hp, hv1]

theorem backtest_congr {sig sig' : List K} {start end_ : Nat} {cfg : BTConfig K} {initial : Option K}
    (hdf : df.take n = df'.take n) (hsig : sig.take n = sig'.take n) (hend : end_ ≤ n) :
    backtest lib df sig start end_ cfg initial = backtest lib df' sig' start end_ cfg initial := by
  unfold backtest
  rw [slice_congr hdf hend, slice_congr hsig hend]

theorem chooseThreshold_congr {mode : Mode} {idx : List Nat} {start end_ : Nat}
    (hdf : df.take n = df'.take n) (hX : X.take n = X'.take n)
    (hy : ∀ i, i + 1 + horizon < n → y[i]? = y'[i]?) (hv1 : v1Sig.take n = v1Sig'.take n)
    (hidx : ∀ i ∈ idx, i + 1 + horizon < n) (hend : end_ ≤ n) :
    chooseThreshold lib learner mode df X y v1Sig idx start end_ =
      chooseThreshold lib learner mode df' X' y' v1Sig' idx start end_ := by
  have hback (values : List K) (thr : K) :
      backtest lib df (signals mode (assign (List.replicate df.length none) start end_ values) v1Sig
        thr) start end_ Evaluate.costs none =
      backtest lib df' (signals mode (assign (List.replicate df'.length none) start end_ values)
        v1Sig' thr) start end_ Evaluate.costs none :=
    backtest_congr hdf (signals_congr (assign_congr (blank_congr hdf)) hv1) hend
  unfold chooseThreshold
  dsimp only
  rw [trainingSet_congr hX hy hidx, slice_congr hX hend]
  simp only [hback]

/-! ### A fold -/

theorem foldThresholds_congr {te te' : Month} (hin : SameInputs n horizon X X' y y' v1Sig v1Sig')
    (h : SameMonths n k df df') (hte : (monthBounds df)[k + 1]? = some te)
    (hte' : (monthBounds df')[k + 1]? = some te') (hstart : te.start = te'.start)
    (hn : te.start ≤ n) :
    foldThresholds lib learner df X y v1Sig warm horizon valMonths (k + 1) =
      foldThresholds lib learner df' X' y' v1Sig' warm horizon valMonths (k + 1) := by
  obtain ⟨hsame, hle⟩ : valStart (monthBounds df') valMonths (k + 1) =
      valStart (monthBounds df) valMonths (k + 1) ∧
        ∀ s ∈ valStart (monthBounds df) valMonths (k + 1), s ≤ n :=
    valStart_congr h hte hte' hstart hn
  unfold foldThresholds
  rw [hsame, h.months (k + 1 - 1) (by omega)]
  cases hva : valStart (monthBounds df) valMonths (k + 1) with
  | none => rfl
  | some vaStart =>
    cases hlast : (monthBounds df')[k + 1 - 1]? with
    | none => rfl
    | some last =>
      have hend : last.end_ ≤ n := h.ends (k + 1 - 1) (by omega) last (by
        rw [h.months (k + 1 - 1) (by omega), hlast])
      have hva : vaStart ≤ n := hle vaStart hva
      have hrows : innerRows y warm horizon vaStart = innerRows y' warm horizon vaStart :=
        rows_congr hva hin.labels
      simp only [Option.bind_eq_bind, Option.bind_some]
      refine congrArg (fun f => some (PerMode.of f)) (funext fun mode => ?_)
      rw [hrows]
      exact chooseThreshold_congr h.take hin.features hin.labels hin.v1Sig
        (fun i hi => (mem_rows hi).trans_le hva) hend

/-- The reports of two folds are the same, but for the area under the curve, which looks at labels. -/
structure Fold.Same (f f' : Fold K) : Prop where
  testMonth : f.testMonth = f'.testMonth
  trainRows : f.trainRows = f'.trainRows
  thresholds : f.thresholds = f'.thresholds
  return_ : f.return_ = f'.return_
  trades : f.trades = f'.trades

/-- What two runs carry on is the same up to bar `n`. -/
structure Carried.Same (n : Nat) (s t : Carried K) : Prop where
  probs : s.probs.take n = t.probs.take n
  eq : s.eq = t.eq
  eqStress : s.eqStress = t.eqStress
  eqFull : s.eqFull = t.eqFull
  trades : s.trades = t.trades

theorem turn_congr {s t : Carried K} (hin : SameInputs n horizon X X' y y' v1Sig v1Sig')
    (h : SameMonths n (k + 1) df df') (hst : s.Same n t) :
    Option.Rel (fun x x' => Fold.Same x.1 x'.1 ∧ Carried.Same n x.2 x'.2)
      (turn lib learner df X y v1Sig warm horizon valMonths (k + 1) s)
      (turn lib learner df' X' y' v1Sig' warm horizon valMonths (k + 1) t) := by
  obtain ⟨hprobs, heq, hstress, hfull, htrades⟩ := hst
  cases hte' : (monthBounds df')[k + 1]? with
  | none =>
    have hte : (monthBounds df)[k + 1]? = none := (h.months (k + 1) (le_refl _)).trans hte'
    unfold turn
    rw [hte, hte']
    exact .none
  | some te =>
    have hte : (monthBounds df)[k + 1]? = some te := (h.months (k + 1) (le_refl _)).trans hte'
    have hend : te.end_ ≤ n := h.ends (k + 1) (le_refl _) te hte
    have hlt : te.start < te.end_ := (monthBounds_take hte).2.1
    have hthr : foldThresholds lib learner df X y v1Sig warm horizon valMonths (k + 1) =
        foldThresholds lib learner df' X' y' v1Sig' warm horizon valMonths (k + 1) :=
      foldThresholds_congr hin (h.mono (Nat.le_succ k)) hte hte' rfl (hlt.le.trans hend)
    unfold turn foldTraining
    rw [hte, hte', ← hthr]
    simp only [Option.bind_eq_bind, Option.bind_some, Option.map_some]
    by_cases hshort : te.end_ - max te.start warm < 2
    · rw [if_pos hshort, if_pos hshort]
      exact .none
    have hn : max te.start warm ≤ n := by omega
    rw [if_neg hshort, if_neg hshort, training_congr hin hn, trainRows_congr hin hn]
    split
    · exact .none
    cases foldThresholds lib learner df X y v1Sig warm horizon valMonths (k + 1) with
    | none => exact .none
    | some thr =>
      have hback (mode : Mode) (cfg : BTConfig K) (initial : Option K) (values : List K) :
          backtest lib df (signals mode (assign s.probs (max te.start warm) te.end_ values) v1Sig
            (thr.get mode)) (max te.start warm) te.end_ cfg initial =
          backtest lib df' (signals mode (assign t.probs (max te.start warm) te.end_ values) v1Sig'
            (thr.get mode)) (max te.start warm) te.end_ cfg initial :=
        backtest_congr h.take (signals_congr (assign_congr hprobs) hin.v1Sig) hend
      simp only [Option.bind_some, slice_congr hin.features hend, hback, heq, hstress, hfull,
        htrades]
      refine .some ⟨⟨rfl, rfl, rfl, rfl, rfl⟩, ⟨assign_congr hprobs, rfl, rfl, rfl, rfl⟩⟩

end Ml

/-! ## The folds of the drivers -/

/-- The fold of `evaluate.walk_forward` that tests month `k`, if it is not skipped. -/
def Evaluate.fold (lib : NumberLib K) (df : List (Candle K)) (scores : List (Option K)) (warm : Nat)
    (g : Grid K) (cfg : BTConfig K) (k : Nat) : Option (Fold K) :=
  report (turn lib df scores warm g cfg) 3 (k - 3) ⟨1000, 0⟩

/-- The fold of `overlay.walk_forward` that tests month `k`. -/
def Overlay.fold (lib : NumberLib K) (g : Grid K) (df : List (Candle K)) (cfg : BTConfig K)
    (warm k : Nat) : Option (Fold K) :=
  report (turn lib g df cfg warm) 6 (k - 6) ⟨1000, 1000⟩

/-- What `ml.walk_forward` starts with. -/
def Ml.Carried.start (bars : Nat) : Carried K where
  probs := List.replicate bars none
  eq := ⟨1000, 1000⟩
  eqStress := ⟨1000, 1000⟩
  eqFull := ⟨1000, 1000⟩
  trades := ⟨0, 0⟩

/-- The fold of `ml.walk_forward` that tests month `k`. -/
def Ml.fold {Row Model : Type} (lib : NumberLib K) (learner : Learner K Row Model)
    (df : List (Candle K)) (X : List Row) (y : List (Option K)) (v1Sig : List K)
    (warm horizon valMonths k : Nat) : Option (Fold K) :=
  report (turn lib learner df X y v1Sig warm horizon valMonths) 3 (k - 3) (Carried.start df.length)

/-- The reports of a loop, by the turn that makes them. -/
theorem turns_reports {ρ σ : Type} {turn : Nat → σ → Option (ρ × σ)} {start n : Nat} {s : σ} :
    (turns turn start n s).1 =
      (List.range' start n).filterMap fun k => report turn start (k - start) s := by
  rw [turns_fst, List.range'_eq_map_range, List.filterMap_map]
  refine List.filterMap_congr fun k _ => ?_
  rw [Function.comp_apply, Nat.add_sub_cancel_left]

/-- The folds of `walk_forward` are those of the months from the fourth on. -/
theorem Evaluate.walkForward_folds (lib : NumberLib K) (df : List (Candle K))
    (scores : List (Option K)) (warm : Nat) (g : Grid K) (cfg : BTConfig K) :
    (walkForward lib df scores warm g cfg).1 =
      (List.range' 3 ((monthBounds df).length - 3)).filterMap
        (fold lib df scores warm g cfg) := by
  unfold walkForward fold
  exact turns_reports

theorem Overlay.walkForward_folds (lib : NumberLib K) (g : Grid K) (df : List (Candle K))
    (cfg : BTConfig K) (warm : Nat) : (walkForward lib g df cfg warm).1 =
      (List.range' 6 ((monthBounds df).length - 6)).filterMap (fold lib g df cfg warm) :=
  turns_reports

theorem Ml.walkForward_folds {Row Model : Type} (lib : NumberLib K) (learner : Learner K Row Model)
    (df : List (Candle K)) (X : List Row) (y : List (Option K)) (v1Sig : List K)
    (warm horizon valMonths : Nat) : (walkForward lib learner df X y v1Sig warm horizon valMonths).1 =
      (List.range' 3 ((monthBounds df).length - 3)).filterMap
        (fold lib learner df X y v1Sig warm horizon valMonths) := by
  unfold walkForward fold
  exact turns_reports

section
variable {lib : NumberLib K} {warm k : Nat} {cfg : BTConfig K}

theorem Evaluate.fold_congr {scores scores' : List (Option K)} {g : Grid K} (hk : 3 ≤ k)
    (h : SameMonths n k df df') (hscores : scores.take n = scores'.take n) :
    fold lib df scores warm g cfg k = fold lib df' scores' warm g cfg k := by
  refine report_congr fun j hj s => ?_
  rw [show 3 + j = j + 2 + 1 by omega]
  exact turn_congr (h.mono (by omega)) hscores

theorem Overlay.fold_congr {g : Grid K} (hk : 6 ≤ k) (h : SameMonths n k df df') :
    fold lib g df cfg warm k = fold lib g df' cfg warm k := by
  refine report_congr fun j hj s => ?_
  rw [show 6 + j = j + 5 + 1 by omega]
  exact turn_congr (h.mono (by omega))

theorem Ml.fold_congr {Row Model : Type} {learner : Learner K Row Model} {X X' : List Row}
    {y y' : List (Option K)} {v1Sig v1Sig' : List K} {horizon valMonths : Nat} (hk : 3 ≤ k)
    (hin : SameInputs n horizon X X' y y' v1Sig v1Sig') (h : SameMonths n k df df') :
    Option.Rel Fold.Same (fold lib learner df X y v1Sig warm horizon valMonths k)
      (fold lib learner df' X' y' v1Sig' warm horizon valMonths k) := by
  refine report_related (R := Carried.Same n) ⟨blank_congr h.take, rfl, rfl, rfl, rfl⟩
    fun j hj s t hst => ?_
  rw [show 3 + j = j + 2 + 1 by omega]
  exact turn_congr hin (h.mono (by omega)) hst

/-- Walk-forward folds are out of sample. Of two frames whose month `k` starts at the same bar, those
that agree before the first bar tested give the fold of month `k` the same parameters, thresholds and
training set, hence the same model; no label the fold is fitted on reaches the bars it predicts; and
frames that agree up to the end of month `k` give the same fold: the same parameters, thresholds and
returns. -/
theorem out_of_sample {Row Model : Type} (lib : NumberLib K) (learner : Ml.Learner K Row Model)
    {scores : List (Candle K) → List (Option K)} {features : List (Candle K) → List Row}
    {v1Sig : List (Candle K) → List K} (hscores : Causal scores) (hfeatures : Causal features)
    (hv1Sig : Causal v1Sig) (edge : K) (warm horizon valMonths : Nat) (g : Evaluate.Grid K)
    (o : Overlay.Grid K) (cfg : BTConfig K) {df df' : List (Candle K)} {k : Nat} {te te' : Month}
    (hk : 3 ≤ k) (hte : (monthBounds df)[k]? = some te) (hte' : (monthBounds df')[k]? = some te')
    (hstart : te.start = te'.start) :
    (df.take (max te.start warm) = df'.take (max te.start warm) →
      Evaluate.foldParams lib df (scores df) warm g cfg k =
        Evaluate.foldParams lib df' (scores df') warm g cfg k ∧
      Overlay.foldParams lib o df cfg warm k = Overlay.foldParams lib o df' cfg warm k ∧
      Ml.foldThresholds lib learner df (features df) (Ml.labels df horizon edge) (v1Sig df) warm
          horizon valMonths k =
        Ml.foldThresholds lib learner df' (features df') (Ml.labels df' horizon edge) (v1Sig df') warm
          horizon valMonths k ∧
      Ml.foldTraining df (features df) (Ml.labels df horizon edge) warm horizon k =
        Ml.foldTraining df' (features df') (Ml.labels df' horizon edge) warm horizon k) ∧
    ((∀ i ∈ Ml.trainRows (Ml.labels df horizon edge) warm horizon (max te.start warm),
        i + 1 + horizon < max te.start warm) ∧
      ∀ start ∈ Ml.valStart (monthBounds df) valMonths k,
        ∀ i ∈ Ml.innerRows (Ml.labels df horizon edge) warm horizon start, i + 1 + horizon < start) ∧
    (te.end_ = te'.end_ → df.take te.end_ = df'.take te.end_ →
      Evaluate.fold lib df (scores df) warm g cfg k =
        Evaluate.fold lib df' (scores df') warm g cfg k ∧
      (6 ≤ k → Overlay.fold lib o df cfg warm k = Overlay.fold lib o df' cfg warm k) ∧
      Option.Rel Ml.Fold.Same
        (Ml.fold lib learner df (features df) (Ml.labels df horizon edge) (v1Sig df) warm horizon
          valMonths k)
        (Ml.fold lib learner df' (features df') (Ml.labels df' horizon edge) (v1Sig df') warm horizon
          valMonths k)) := by
  have hinputs (n : Nat) (hdf : df.take n = df'.take n) :
      Ml.SameInputs n horizon (features df) (features df') (Ml.labels df horizon edge)
        (Ml.labels df' horizon edge) (v1Sig df) (v1Sig df') :=
    ⟨hfeatures n df df' hdf, fun i hi => Ml.labels_congr hdf hi, hv1Sig n df df' hdf⟩
  refine ⟨fun hdf => ?_, ⟨fun i hi => Ml.mem_rows hi, fun start _ i hi => Ml.mem_rows hi⟩,
    fun hend hdf => ?_⟩
  · obtain ⟨j, rfl⟩ := Nat.exists_eq_add_of_le' hk
    have hn : te.start ≤ max te.start warm := le_max_left _ _
    have hmonths : SameMonths (max te.start warm) (j + 2) df df' :=
      sameMonths_start hte hte' hstart hn hdf
    refine ⟨Evaluate.foldParams_congr hmonths (hscores _ df df' hdf),
      Overlay.foldParams_congr hmonths,
      Ml.foldThresholds_congr (hinputs _ hdf) hmonths hte hte' hstart hn, ?_⟩
    unfold Ml.foldTraining
    rw [hte, hte', Option.map_some, Option.map_some, ← hstart,
      Ml.training_congr (hinputs _ hdf) (le_refl _)]
  · have hmonths : SameMonths te.end_ k df df' := sameMonths_end hte hte' hend hdf
    exact ⟨Evaluate.fold_congr hk hmonths (hscores _ df df' hdf),
      fun hk => Overlay.fold_congr hk hmonths, Ml.fold_congr hk (hinputs _ hdf) hmonths⟩

end

end

/-- Seven months of candles, 16 hours apart, and then candles with `prices`. -/
def sampleMonths (prices : List ℚ) : List (Candle ℚ) :=
  ((List.range 318).map (fun i => (100 + (i % 5 : Nat) : ℚ)) ++ prices).zipIdx.map fun x =>
    flatCandle (16 * x.2) x.1

/-- A learner that always says one half. -/
def sampleLearner : Ml.Learner ℚ ℚ Unit where
  fit _ := ()
  predictProba _ rows := rows.map fun _ => 1 / 2
  rocAuc _ := 1 / 2

/-- The eighth months of the two frames differ, and the seventh is tested alike; the model has 265
rows to be fitted on there. -/
theorem out_of_sample_seventh :
    let df := sampleMonths [110, 120]
    let df' := sampleMonths [90]
    (Ml.foldTraining df (df.map (·.close)) (Ml.labels df 4 0) 2 4 6).map (·.length) = some 265 ∧
    Evaluate.fold sampleLib df (df.map fun _ => some 0) 2 Evaluate.grid Evaluate.costs 6 =
        Evaluate.fold sampleLib df' (df'.map fun _ => some 0) 2 Evaluate.grid Evaluate.costs 6 ∧
      Overlay.fold sampleLib Overlay.grid df Evaluate.costs 2 6 =
        Overlay.fold sampleLib Overlay.grid df' Evaluate.costs 2 6 ∧
      Option.Rel Ml.Fold.Same
        (Ml.fold sampleLib sampleLearner df (df.map (·.close)) (Ml.labels df 4 0) (df.map fun _ => 0) 2
          4 1 6)
        (Ml.fold sampleLib sampleLearner df' (df'.map (·.close)) (Ml.labels df' 4 0)
          (df'.map fun _ => 0) 2 4 1 6) := by
  intro df df'
  obtain ⟨hparams, hoverlay, hml⟩ := (out_of_sample sampleLib sampleLearner (Causal.map _)
    (Causal.map _) (Causal.map _) 0 2 4 1 Evaluate.grid Overlay.grid Evaluate.costs
    (by decide : 3 ≤ 6)
    (by decide +kernel : (monthBounds (sampleMonths [110, 120]))[6]? = some ⟨(1970, 7), 272, 318⟩)
    (by decide +kernel : (monthBounds (sampleMonths [90]))[6]? = some ⟨(1970, 7), 272, 318⟩) rfl).2.2
    rfl (by decide +kernel)
  exact ⟨by decide +kernel, hparams, hoverlay (le_refl 6), hml⟩

end CryptoBot
