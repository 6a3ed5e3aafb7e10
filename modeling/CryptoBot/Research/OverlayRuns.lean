import CryptoBot.Research.Overlay
import CryptoBot.Research.OutOfSample
import Mathlib.Data.List.Induction

/-!
# The overlay follows confirmed runs

The loop of `signals` carries a state and writes its changes only. The state is decided by the last
confirmed run: the rule holds after a bar exactly when a run of closes at or above the buffered
average has ended by then, and no run of closes below it has ended since. Hence the events alternate,
the first of them to hold.
-/

namespace CryptoBot

open Lib

namespace Overlay

open Backtest

/-! ## The loop -/

section
variable {K : Type} [Zero K] [One K] [Neg K] {state : Stance} {r : Reading} {rs : List Reading}

/-- The events of a list of signals: the values other than zero. -/
def events [DecidableEq K] (signals : List K) : List K := signals.filter fun s => decide (s ≠ 0)

/-- Events that alternate: to leave while the rule holds, to hold while it does not. -/
def Alternates (held : Bool) : List K → Prop
  | [] => True
  | s :: ss => s = (if held then -1 else 1) ∧ Alternates (!held) ss

omit [Zero K] in
theorem Alternates.getElem? {held : Bool} {ss : List K} (h : Alternates held ss) {k : Nat} {s : K}
    (hs : ss[k]? = some s) : s = if (k % 2 = 0) = (held = true) then -1 else 1 := by
  induction ss generalizing held k with
  | nil => cases hs
  | cons t ss ih =>
    cases k with
    | zero =>
      cases hs
      rw [h.1]
      cases held <;> rfl
    | succ k =>
      have hrest := ih h.2 hs
      rw [hrest]
      rcases Nat.mod_two_eq_zero_or_one k with hk | hk <;> cases held <;>
        simp [hk, Nat.succ_mod_two_eq_one_iff.2, Nat.succ_mod_two_eq_zero_iff.2]

/-- An event of the loop changes what the rule holds; without one the state stays. -/
theorem react_event : ((react (K := K) state r).2 = 0 ∧ (react (K := K) state r).1 = state) ∨
    (react (K := K) state r).2 = (if state = .hold then -1 else 1) ∧
      ((react (K := K) state r).1 = .hold ↔ ¬ state = .hold) := by
  unfold react
  split
  · exact .inl ⟨rfl, rfl⟩
  · split
    · next hup => exact .inr ⟨(if_neg hup.1).symm, iff_of_true rfl hup.1⟩
    · split
      · next hdn => exact .inr ⟨(if_pos hdn.1).symm, iff_of_false Stance.noConfusion (not_not.2 hdn.1)⟩
      · exact .inl ⟨rfl, rfl⟩

theorem track_alternates [DecidableEq K] (hone : (1 : K) ≠ 0) (hneg : (-1 : K) ≠ 0) :
    Alternates (decide (state = .hold)) (events ((track (K := K) state rs).map Prod.snd)) := by
  induction rs generalizing state with
  | nil => exact trivial
  | cons r rs ih =>
    have hrest := @ih (react (K := K) state r).1
    rw [track, List.map_cons, events, List.filter_cons]
    have hevent : ((react (K := K) state r).2 = 0 ∧ (react (K := K) state r).1 = state) ∨
        (react (K := K) state r).2 = (if state = .hold then -1 else 1) ∧
          ((react (K := K) state r).1 = .hold ↔ ¬ state = .hold) := react_event
    rcases hevent with ⟨hzero, hstate⟩ | ⟨hs, hstate⟩
    · rw [if_neg (by simp [hzero])]
      rwa [hstate] at hrest ⊢
    · have hne : (react (K := K) state r).2 ≠ 0 := by
        rw [hs]
        split
        · exact hneg
        · exact hone
      rw [if_pos (by simp [hne])]
      refine ⟨by simpa using hs, ?_⟩
      rwa [← decide_not, ← decide_eq_decide.2 hstate]

variable (K) in
/-- The state after a list of readings. -/
def stanceAfter (state : Stance) (rs : List Reading) : Stance :=
  rs.foldl (fun state r => (react (K := K) state r).1) state

theorem track_fst {i : Nat} : ((track (K := K) state rs).map Prod.fst)[i]? =
    if i < rs.length then some (stanceAfter K state (rs.take (i + 1))) else none := by
  induction rs generalizing state i with
  | nil => simp [track]
  | cons r rs ih =>
    cases i with
    | zero => simp [track, stanceAfter]
    | succ i =>
      rw [track, List.map_cons, List.getElem?_cons_succ, ih]
      simp only [List.length_cons, Nat.succ_lt_succ_iff, List.take_succ_cons]
      rfl

/-- A run that ends at a bar ends where the rule has an average, and runs of both kinds do not end at
the same bar. -/
structure Reading.Clear (r : Reading) : Prop where
  up : r.runUp = true → r.known = true ∧ r.runDn = false
  down : r.runDn = true → r.known = true

theorem react_hold (hr : r.Clear) : (react (K := K) state r).1 = .hold ↔
    r.runUp = true ∨ state = .hold ∧ r.runDn = false := by
  unfold react
  by_cases hknown : r.known = true
  · rw [if_neg (by simp [hknown])]
    split
    · next hup => exact iff_of_true rfl (.inl hup.2)
    · next hup =>
      split
      · next hdn =>
        refine iff_of_false Stance.noConfusion ?_
        rintro (hrun | ⟨-, hrun⟩)
        · rw [(hr.up hrun).2] at hdn
          cases hdn.2
        · rw [hrun] at hdn
          cases hdn.2
      · next hdn =>
        constructor
        · intro hstate
          exact .inr ⟨hstate, by simpa using fun hrun => hdn ⟨hstate, hrun⟩⟩
        · rintro (hrun | ⟨hstate, -⟩)
          · by_contra hstate
            exact hup ⟨hstate, hrun⟩
          · exact hstate
  · have hnoUp : ¬ r.runUp = true := fun hrun => hknown (hr.up hrun).1
    have hnoDn : r.runDn = false := by simpa using fun hrun => hknown (hr.down hrun)
    rw [if_pos (by simpa using hknown)]
    simp [hnoUp, hnoDn]

/-- The rule holds after a list of readings exactly when the last run that is confirmed in it is one
up. -/
theorem stanceAfter_hold (hrs : ∀ r ∈ rs, r.Clear) : stanceAfter K .undecided rs = .hold ↔
    ∃ j : Nat, (∃ r : Reading, rs[j]? = some r ∧ r.runUp = true) ∧
      ∀ k : Nat, j < k → ∀ r : Reading, rs[k]? = some r → r.runDn = false := by
  induction rs using List.reverseRecOn with
  | nil =>
    refine iff_of_false Stance.noConfusion ?_
    rintro ⟨j, ⟨r, hr, -⟩, -⟩
    cases hr
  | append_singleton rs r ih =>
    have hbefore := ih fun r hr => hrs r (List.mem_append_left _ hr)
    have hlast : (rs ++ [r])[rs.length]? = some r := List.getElem?_concat_length
    have hold (j : Nat) (hj : j < rs.length) : (rs ++ [r])[j]? = rs[j]? :=
      List.getElem?_append_left hj
    rw [stanceAfter, List.foldl_concat, ← stanceAfter,
      react_hold (hrs r (List.mem_append_right _ (List.mem_singleton.2 rfl))), hbefore]
    constructor
    · rintro (hup | ⟨⟨j, ⟨r', hr', hup⟩, hno⟩, hdn⟩)
      · refine ⟨rs.length, ⟨r, hlast, hup⟩, fun k hk r' hr' => ?_⟩
        rw [List.getElem?_eq_none (by simpa using Nat.succ_le_of_lt hk)] at hr'
        cases hr'
      · have hj : j < rs.length := (List.getElem?_eq_some_iff.1 hr').1
        refine ⟨j, ⟨r', (hold j hj).trans hr', hup⟩, fun k hk r'' hr'' => ?_⟩
        rcases lt_trichotomy k rs.length with hlt | rfl | hgt
        · exact hno k hk r'' ((hold k hlt).symm.trans hr'')
        · cases hlast.symm.trans hr''
          exact hdn
        · rw [List.getElem?_eq_none (by simpa using Nat.succ_le_of_lt hgt)] at hr''
          cases hr''
    · rintro ⟨j, ⟨r', hr', hup⟩, hno⟩
      have hlen : j < rs.length + 1 := by simpa using (List.getElem?_eq_some_iff.1 hr').1
      rcases Nat.lt_succ_iff_lt_or_eq.1 hlen with hj | rfl
      · refine .inr ⟨⟨j, ⟨r', (hold j hj).symm.trans hr', hup⟩, fun k hk r'' hr'' => ?_⟩,
          hno _ hj r hlast⟩
        have hk' : k < rs.length := (List.getElem?_eq_some_iff.1 hr'').1
        exact hno k hk r'' ((hold k hk').trans hr'')
      · cases hlast.symm.trans hr'
        exact .inl hup

end

/-! ## Runs of closes -/

section
variable {K : Type} [Zero K] [One K] [Add K] [Sub K] [Mul K] [Div K] [Neg K] [NatCast K] [LT K] [LE K]
  [DecidableLT K] [DecidableLE K] {p : Params K} {closes : List K} {i : Nat}

/-- Bar `i` has an average, and its close is at or above the buffered average. -/
def AtOrAbove (p : Params K) (closes : List K) (i : Nat) : Prop :=
  ∃ avg ∈ line p closes i, ∃ c ∈ closes[i]?, avg * (1 - p.buffer) ≤ c

/-- Bar `i` has an average, and its close is below the buffered average. -/
def Below (p : Params K) (closes : List K) (i : Nat) : Prop :=
  ∃ avg ∈ line p closes i, ∃ c ∈ closes[i]?, c < avg * (1 - p.buffer)

/-- A run of `confirm` consecutive bars ends at bar `i`. -/
def RunEnds (confirm : Nat) (flagged : Nat → Prop) (i : Nat) : Prop :=
  confirm ≤ i + 1 ∧ ∀ k ≤ i, i < k + confirm → flagged k

theorem confirmed_iff {confirm : Nat} {flags : List Bool} (hi : i < flags.length) :
    confirmed confirm flags i = true ↔ RunEnds confirm (fun k => flags[k]? = some true) i := by
  rw [confirmed, Bool.and_eq_true, decide_eq_true_iff, RunEnds]
  refine and_congr_right fun hconfirm => ?_
  rw [List.all_eq_true, rolling, slice]
  constructor
  · intro hall k hk hlow
    have hget : flags[k]? = some flags[k] := List.getElem?_eq_getElem (lt_of_le_of_lt hk hi)
    have hmem : flags[k] ∈ (flags.take (i + 1)).drop (i + 1 - confirm) := by
      refine List.mem_iff_getElem?.2 ⟨k - (i + 1 - confirm), ?_⟩
      rw [List.getElem?_drop, List.getElem?_take_of_lt (by omega), ← hget]
      congr 1
      omega
    rw [hget]
    exact congrArg some (hall _ hmem)
  · intro hall x hx
    obtain ⟨m, hm⟩ := List.mem_iff_getElem?.1 hx
    rw [List.getElem?_drop, List.getElem?_take] at hm
    split at hm
    · next hlt =>
      have htrue := hall (i + 1 - confirm + m) (by omega) (by omega)
      cases hm.symm.trans htrue
      rfl
    · cases hm

omit [Neg K] [LT K] [DecidableLT K] in
theorem above_iff {k : Nat} : (above p closes)[k]? = some true ↔ AtOrAbove p closes k := by
  unfold above AtOrAbove
  rw [List.getElem?_map, List.getElem?_zipIdx]
  cases closes[k]? with
  | none => simp
  | some c => simp [Option.any_eq_true]

omit [Neg K] [LE K] [DecidableLE K] in
theorem below_iff {k : Nat} : (below p closes)[k]? = some true ↔ Below p closes k := by
  unfold below Below
  rw [List.getElem?_map, List.getElem?_zipIdx]
  cases closes[k]? with
  | none => simp
  | some c => simp [Option.any_eq_true]

omit [Neg K] in
/-- A reading says which runs end at its bar. -/
theorem readings_get {r : Reading} (hr : (readings p closes)[i]? = some r) :
    i < closes.length ∧ (r.known = true ↔ (line p closes i).isSome = true) ∧
      (r.runUp = true ↔ RunEnds p.confirm (AtOrAbove p closes) i) ∧
      (r.runDn = true ↔ RunEnds p.confirm (Below p closes) i) := by
  have hlen : i < closes.length := by
    have h := (List.getElem?_eq_some_iff.1 hr).1
    rwa [readings, List.length_map, List.length_range] at h
  rw [readings, List.getElem?_map, List.getElem?_range hlen] at hr
  cases hr
  refine ⟨hlen, Iff.rfl, ?_, ?_⟩
  · rw [confirmed_iff (by simpa [above] using hlen)]
    simp only [RunEnds, above_iff]
  · rw [confirmed_iff (by simpa [below] using hlen)]
    simp only [RunEnds, below_iff]

omit [Neg K] in
/-- The last confirmed run up to a bar, in the readings and in the closes. -/
theorem lastRun_iff (hi : i < closes.length) :
    (∃ j : Nat, (∃ r : Reading, ((readings p closes).take (i + 1))[j]? = some r ∧ r.runUp = true) ∧
      ∀ k : Nat, j < k → ∀ r : Reading, ((readings p closes).take (i + 1))[k]? = some r →
        r.runDn = false) ↔
    ∃ j ≤ i, RunEnds p.confirm (AtOrAbove p closes) j ∧
      ∀ k, j < k → k ≤ i → ¬ RunEnds p.confirm (Below p closes) k := by
  have hget {k : Nat} {r : Reading} :
      ((readings p closes).take (i + 1))[k]? = some r ↔ k ≤ i ∧ (readings p closes)[k]? = some r := by
    rw [List.getElem?_take]
    split
    · next hk => exact (and_iff_right (Nat.lt_succ_iff.1 hk)).symm
    · next hk => exact iff_of_false (fun h => by cases h) fun h => hk (Nat.lt_succ_iff.2 h.1)
  have hsome (k : Nat) (hk : k ≤ i) : ∃ r, (readings p closes)[k]? = some r := by
    have hlen : (readings p closes).length = closes.length := by
      rw [readings, List.length_map, List.length_range]
    exact ⟨_, List.getElem?_eq_getElem (by omega)⟩
  simp only [hget]
  constructor
  · rintro ⟨j, ⟨r, ⟨hj, hr⟩, hup⟩, hno⟩
    refine ⟨j, hj, (readings_get hr).2.2.1.1 hup, fun k hk hki hdown => ?_⟩
    obtain ⟨r', hr'⟩ := hsome k hki
    have hdn := (readings_get hr').2.2.2.2 hdown
    rw [hno k hk r' ⟨hki, hr'⟩] at hdn
    cases hdn
  · rintro ⟨j, hj, hup, hno⟩
    obtain ⟨r, hr⟩ := hsome j hj
    refine ⟨j, ⟨r, ⟨hj, hr⟩, (readings_get hr).2.2.1.2 hup⟩, ?_⟩
    rintro k hk r' ⟨hki, hr'⟩
    rw [← Bool.not_eq_true, (readings_get hr').2.2.2]
    exact hno k hk hki

omit [Neg K] in
theorem readings_clear (hlt : ∀ a b : K, a ≤ b → ¬ b < a) (hconfirm : 1 ≤ p.confirm) {r : Reading}
    (hr : r ∈ readings p closes) : r.Clear := by
  obtain ⟨i, hi⟩ := List.mem_iff_getElem?.1 hr
  obtain ⟨-, hknown, hup, hdn⟩ := readings_get hi
  constructor
  · intro hrun
    obtain ⟨avg, havg, c, hc, hle⟩ := (hup.1 hrun).2 i (le_refl i) (by omega)
    refine ⟨hknown.2 (Option.isSome_of_mem havg), ?_⟩
    rw [← Bool.not_eq_true, hdn]
    intro hdown
    obtain ⟨avg', havg', c', hc', hbelow⟩ := hdown.2 i (le_refl i) (by omega)
    cases Option.mem_unique havg havg'
    cases Option.mem_unique hc hc'
    exact hlt _ _ hle hbelow
  · intro hrun
    obtain ⟨avg, havg, -⟩ := (hdn.1 hrun).2 i (le_refl i) (by omega)
    exact hknown.2 (Option.isSome_of_mem havg)

/-- For every arithmetic in which no number is both at least and below another: the events alternate,
the first of them to hold; the rule holds after a bar exactly when the last confirmed run up to it is
one at or above the buffered average; and the signal of a bar depends on the closes up to it. -/
theorem signals_follow_runs [DecidableEq K] [BEq K] [Min K] [Max K]
    (hlt : ∀ a b : K, a ≤ b → ¬ b < a) (hone : (1 : K) ≠ 0) (hneg : (-1 : K) ≠ 0)
    (hconfirm : 1 ≤ p.confirm) (df : List (Candle K)) :
    (∀ (k : Nat) (s : K), (events (signals p df))[k]? = some s → s = if k % 2 = 0 then 1 else -1) ∧
    (∀ i < df.length, (stances p df)[i]? = some .hold ↔
      ∃ j ≤ i, RunEnds p.confirm (AtOrAbove p (df.map (·.close))) j ∧
        ∀ k, j < k → k ≤ i → ¬ RunEnds p.confirm (Below p (df.map (·.close))) k) ∧
    ∀ (i : Nat) (df' : List (Candle K)),
      (df.map (·.close)).take (i + 1) = (df'.map (·.close)).take (i + 1) →
        (signals p df)[i]? = (signals p df')[i]? := by
  refine ⟨?_, ?_, ?_⟩
  · intro k s hs
    have halternate : Alternates (decide (Stance.undecided = .hold)) (events
        ((track (K := K) .undecided (readings p (df.map (·.close)))).map Prod.snd)) :=
      track_alternates hone hneg
    rw [halternate.getElem? hs]
    rcases Nat.mod_two_eq_zero_or_one k with hk | hk <;> simp [hk]
  · intro i hi
    have hlen : (readings p (df.map (·.close))).length = df.length := by
      rw [readings, List.length_map, List.length_range, List.length_map]
    have hclear : ∀ r ∈ (readings p (df.map (·.close))).take (i + 1), r.Clear :=
      fun r hr => readings_clear hlt hconfirm (List.mem_of_mem_take hr)
    rw [stances, rule, track_fst, hlen, if_pos hi, Option.some.injEq, stanceAfter_hold hclear]
    exact lastRun_iff (by simpa using hi)
  · intro i df' h
    exact getElem?_congr (((Causal.map Prod.snd).comp
      ((causal_track .undecided).comp (causal_readings (p := p)))) _ _ _ h) (Nat.lt_succ_self i)

end

/-- An average of two closes, without a buffer. -/
def pairParams : Params ℚ := { ma := 2, confirm := 1, buffer := 0 }

/-- The price rises above the average at the third bar and falls below it at the fourth. -/
theorem second_event_leaves :
    ∃ s : ℚ, (events (signals pairParams (flatFrame [100, 90, 110, 80])))[1]? = some s ∧ s = -1 :=
  ⟨-1, by decide +kernel, (signals_follow_runs (p := pairParams) (fun _ _ => not_lt_of_ge)
    one_ne_zero (by norm_num) (le_refl 1) (flatFrame [100, 90, 110, 80])).1 1 (-1)
    (by decide +kernel)⟩

end Overlay

end CryptoBot
