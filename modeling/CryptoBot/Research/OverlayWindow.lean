import CryptoBot.Research.Overlay
import CryptoBot.Research.BacktestLaws

/-!
# What a window of the overlay holds

The rule signals changes of its state, and the backtester acts on them as events. Cut to a window, the
signals say nothing of the state the rule is in when the window starts, and an event that cannot be
acted on is not repeated. So a window holds what the rule holds exactly when the rule does not hold
across its start, and nothing hinders the portfolio that follows the rule from there on.
-/

namespace CryptoBot

namespace Overlay

open Lib Backtest

/-! ## Signals as changes of state -/

/-- Whether the rule holds after a signal. -/
def holdAfter (held : Bool) (s : ℚ) : Bool := if 0 < s then true else if s < 0 then false else held

/-- Whether the rule holds after each of the signals. -/
def heldAfter (held : Bool) : List ℚ → List Bool
  | [] => []
  | s :: ss => holdAfter held s :: heldAfter (holdAfter held s) ss

/-- Signals to hold come only while the rule does not hold. -/
def Changes (held : Bool) : List ℚ → Prop
  | [] => True
  | s :: ss => (0 < s → held = false) ∧ Changes (holdAfter held s) ss

theorem react_changes {state : Stance} {r : Reading} :
    (0 < (react (K := ℚ) state r).2 → decide (state = .hold) = false) ∧
      decide ((react (K := ℚ) state r).1 = .hold) =
        holdAfter (decide (state = .hold)) (react state r).2 := by
  unfold react
  split
  · simp [holdAfter]
  · split
    · next hup => simp [holdAfter, hup.1]
    · split
      · next hdn => simp [holdAfter, hdn.1]
      · simp [holdAfter]

theorem track_changes {state : Stance} {rs : List Reading} :
    Changes (decide (state = .hold)) ((track (K := ℚ) state rs).map Prod.snd) ∧
      (track (K := ℚ) state rs).map (fun x => decide (x.1 = .hold)) =
        heldAfter (decide (state = .hold)) ((track state rs).map Prod.snd) := by
  induction rs generalizing state with
  | nil => exact ⟨trivial, rfl⟩
  | cons r rs ih =>
    obtain ⟨hup, hheld⟩ := @react_changes state r
    obtain ⟨hchanges, hafter⟩ := @ih (react (K := ℚ) state r).1
    rw [hheld] at hchanges hafter
    refine ⟨⟨hup, hchanges⟩, ?_⟩
    rw [track, List.map_cons, List.map_cons, heldAfter, hafter, hheld]

theorem Changes.drop {held : Bool} {ss : List ℚ} (h : Changes held ss) (n : Nat) :
    Changes (((heldAfter held ss).take n).getLast?.getD held) (ss.drop n) := by
  induction n generalizing held ss with
  | zero => exact h
  | succ n ih =>
    cases ss with
    | nil => trivial
    | cons s ss =>
      have hrest := ih h.2
      rw [List.drop_succ_cons, heldAfter, List.take_succ_cons, List.getLast?_cons]
      exact hrest

theorem Changes.take {held : Bool} {ss : List ℚ} (h : Changes held ss) (n : Nat) :
    Changes held (ss.take n) := by
  induction n generalizing held ss with
  | zero => trivial
  | succ n ih =>
    cases ss with
    | nil => trivial
    | cons s ss => exact ⟨h.1, ih h.2⟩

theorem heldAfter_drop {held : Bool} {ss : List ℚ} (n : Nat) :
    (heldAfter held ss).drop n =
      heldAfter (((heldAfter held ss).take n).getLast?.getD held) (ss.drop n) := by
  induction n generalizing held ss with
  | zero => rfl
  | succ n ih =>
    cases ss with
    | nil => rfl
    | cons s ss =>
      rw [heldAfter, List.drop_succ_cons, List.drop_succ_cons, List.take_succ_cons,
        List.getLast?_cons]
      exact ih

theorem heldAfter_take {held : Bool} {ss : List ℚ} (n : Nat) :
    (heldAfter held ss).take n = heldAfter held (ss.take n) := by
  induction n generalizing held ss with
  | zero => rfl
  | succ n ih =>
    cases ss with
    | nil => rfl
    | cons s ss => exact congrArg (List.cons _) ih

theorem holdAfter_false {s : ℚ} (hs : ¬ 0 < s) : holdAfter false s = false := by
  simp [holdAfter, hs]

/-- Unless the rule goes on holding, where it stands after a signal is known from the signal. -/
theorem holdAfter_of_not {held : Bool} {s : ℚ} (h : ¬ (held = true ∧ holdAfter held s = true)) :
    holdAfter held s = holdAfter false s := by
  cases held with
  | false => rfl
  | true =>
    have hleft : holdAfter true s = false := by simpa using h
    unfold holdAfter at hleft ⊢
    split at hleft
    · cases hleft
    · split at hleft
      · next hdn => simp [hdn]
      · cases hleft

/-! ## The portfolio that follows the rule -/

variable {cfg : BTConfig ℚ} {b : Book ℚ} {i : Nat}

/-- What following the rule does at a bar's open: it buys on the signal to hold, and sells on the
signal to leave. -/
def follow (cfg : BTConfig ℚ) (i : Nat) (s : ℚ) (held : Bool) (c : Candle ℚ) (b : Book ℚ) : Book ℚ :=
  if 0 < s then enter cfg i c b
  else if s < 0 ∧ held = true then closePosition cfg i c.timestamp c.open_ .signal b
  else b

/-- Nothing hinders following the rule at a bar's open: when the rule changes to hold, the day is not
halted and there is something to buy with; while it goes on holding, no time exit is due. -/
structure Ready (cfg : BTConfig ℚ) (i : Nat) (s : ℚ) (held : Bool) (c : Candle ℚ) (b : Book ℚ) :
    Prop where
  enters : 0 < s → b.halted = false ∧ 0 < (enter cfg i c b).qty
  stays : held = true → ¬ s < 0 → holdExpired cfg i b = false

instance {s : ℚ} {held : Bool} {c : Candle ℚ} : Decidable (Ready cfg i s held c b) :=
  decidable_of_iff ((0 < s → b.halted = false ∧ 0 < (enter cfg i c b).qty) ∧
      (held = true → ¬ s < 0 → holdExpired cfg i b = false))
    ⟨fun h => ⟨h.1, h.2⟩, fun h => ⟨h.enters, h.stays⟩⟩

/-- Nothing hinders the portfolio that follows the rule from bar `i` on. -/
def Unhindered (cfg : BTConfig ℚ) :
    Nat → ℚ → Bool → List (Candle ℚ × ℚ) → Book ℚ → Prop
  | _, _, _, [], _ => True
  | i, s, held, (c, x) :: bars, b =>
    Ready cfg i s held c (newDay c b) ∧
    Unhindered cfg (i + 1) x (holdAfter held s) bars
      (mark cfg c (follow cfg i s held c (newDay c b)))

instance instDecidableUnhindered : (i : Nat) → (s : ℚ) → (held : Bool) →
    (bars : List (Candle ℚ × ℚ)) → (b : Book ℚ) → Decidable (Unhindered cfg i s held bars b)
  | _, _, _, [], _ => isTrue trivial
  | i, s, held, (_, x) :: bars, _ =>
    let _ := instDecidableUnhindered (i + 1) x (holdAfter held s) bars
    inferInstanceAs (Decidable (_ ∧ _))

/-- From bar `i` on, the book holds a position on the bars before which the rule holds. -/
def Matches (cfg : BTConfig ℚ) :
    Nat → ℚ → Bool → List (Candle ℚ × ℚ) → Book ℚ → Prop
  | _, _, _, [], _ => True
  | i, s, held, (c, x) :: bars, b =>
    (0 < (bar cfg i (some s) c b).qty ↔ holdAfter held s = true) ∧
    Matches cfg (i + 1) x (holdAfter held s) bars (bar cfg i (some s) c b)

/-- The book holds a position exactly if `held` says so, and there is no stop. -/
structure Following (held : Bool) (b : Book ℚ) : Prop where
  qty : 0 ≤ b.qty
  held : 0 < b.qty ↔ held = true
  stop : b.stopPx = none

theorem Following.newDay {held : Bool} {c : Candle ℚ} (h : Following held b) :
    Following held (newDay c b) := by
  unfold Backtest.newDay
  split
  · exact ⟨h.qty, h.held, h.stop⟩
  · exact h

theorem Following.mark {held : Bool} {c : Candle ℚ} (h : Following held b) :
    Following held (mark cfg c b) := ⟨h.qty, h.held, h.stop⟩

theorem stopPx_enter {c : Candle ℚ} (hcfg : cfg.stop = none) (hb : b.stopPx = none) :
    (enter cfg i c b).stopPx = none := by
  unfold enter
  dsimp only
  split
  · rw [hcfg]
    rfl
  · exact hb

theorem stopPx_act {s : ℚ} {c : Candle ℚ} (hcfg : cfg.stop = none) (hb : b.stopPx = none) :
    (act cfg i s c b).stopPx = none := by
  unfold act
  split
  · exact hb
  · split
    · exact stopPx_enter hcfg hb
    · exact hb

theorem stopOut_of_none {c : Candle ℚ} (hb : b.stopPx = none) : stopOut cfg i c b = b := by
  unfold stopOut
  rw [hb]

/-- When nothing hinders it, the backtester follows the rule. -/
theorem act_of_ready {held : Bool} {s : ℚ} {c : Candle ℚ} (hcfg : cfg.stop = none)
    (hb : Following held b) (hs : 0 < s → held = false) (hready : Ready cfg i s held c b) :
    act cfg i s c b = follow cfg i s held c b ∧
      Following (holdAfter held s) (follow cfg i s held c b) := by
  have hflat (h : held = false) : b.qty = 0 := by
    refine le_antisymm (not_lt.1 fun hq => ?_) hb.qty
    rw [h] at hb
    cases hb.held.1 hq
  unfold act follow holdAfter
  by_cases hup : 0 < s
  · obtain ⟨hhalted, hq⟩ := hready.enters hup
    have hzero := hflat (hs hup)
    rw [if_neg (fun h => lt_irrefl 0 (hzero ▸ h.1)), if_pos ⟨by simp [hzero], hup, by simp [hhalted]⟩,
      if_pos hup, if_pos hup]
    exact ⟨rfl, hq.le, iff_of_true hq rfl, stopPx_enter hcfg hb.stop⟩
  · rw [if_neg hup, if_neg hup]
    cases hheld : held with
    | false =>
      have hzero := hflat hheld
      rw [if_neg (fun h => lt_irrefl 0 (hzero ▸ h.1)), if_neg (fun h => hup h.2.1),
        if_neg (fun h => (by cases h.2)), ite_self]
      exact ⟨rfl, hheld ▸ hb⟩
    | true =>
      have hq : 0 < b.qty := hb.held.2 hheld
      by_cases hdn : s < 0
      · rw [if_pos ⟨hq, .inl hdn⟩, if_pos hdn, if_pos hdn, if_pos ⟨hdn, rfl⟩]
        exact ⟨rfl, le_refl 0, iff_of_false (lt_irrefl 0) Bool.false_ne_true, hb.stop⟩
      · have hstay : holdExpired cfg i b = false := hready.stays hheld hdn
        rw [if_neg (fun h => h.2.elim hdn fun he => (by rw [hstay] at he; cases he)),
          if_neg (fun h => hup h.2.1), if_neg (fun h => hdn h.1), if_neg hdn]
        exact ⟨rfl, hheld ▸ hb⟩

/-- When something hinders it, the backtester does not come to hold what the rule holds. -/
theorem act_of_not_ready {held : Bool} {s : ℚ} {c : Candle ℚ} (hb : Following held b)
    (hs : 0 < s → held = false) (hready : ¬ Ready cfg i s held c b) :
    ¬ (0 < (act cfg i s c b).qty ↔ holdAfter held s = true) := by
  unfold act holdAfter
  by_cases hup : 0 < s
  · have hnot : ¬ 0 < b.qty := fun hq => by
      rw [hs hup] at hb
      cases hb.held.1 hq
    rw [if_neg (fun h => hnot h.1), if_pos hup]
    split
    · next henter =>
      refine fun hiff => hready ⟨fun _ => ⟨by simpa using henter.2.2, hiff.2 rfl⟩, fun hheld => ?_⟩
      rw [hs hup] at hheld
      cases hheld
    · exact fun hiff => hnot (hiff.2 rfl)
  · have hstays : ¬ (held = true → ¬ s < 0 → holdExpired cfg i b = false) := fun hstays =>
      hready ⟨fun h => absurd h hup, hstays⟩
    obtain ⟨hheld, hdn, hexpired⟩ : held = true ∧ ¬ s < 0 ∧ holdExpired cfg i b = true := by
      simpa using hstays
    have hq : 0 < b.qty := hb.held.2 hheld
    rw [if_pos ⟨hq, .inr hexpired⟩, if_neg hup, if_neg hdn, if_neg hdn, hheld]
    exact fun hiff => lt_irrefl 0 (hiff.2 rfl)

/-- The book of a run holds what the rule holds on every bar exactly when nothing hinders the
portfolio that follows the rule. -/
theorem matches_iff {held : Bool} {s : ℚ} {bars : List (Candle ℚ × ℚ)} (hcfg : cfg.stop = none)
    (hb : Following held b) (hs : 0 < s → held = false)
    (hbars : Changes (holdAfter held s) (bars.map Prod.snd)) :
    Matches cfg i s held bars b ↔ Unhindered cfg i s held bars b := by
  induction bars generalizing i s held b with
  | nil => exact Iff.rfl
  | cons y bars ih =>
    obtain ⟨c, x⟩ := y
    have hbar : bar cfg i (some s) c b = mark cfg c (act cfg i s c (newDay c b)) := by
      unfold bar opening
      dsimp only
      rw [stopOut_of_none (stopPx_act hcfg hb.newDay.stop)]
    unfold Matches Unhindered
    rw [hbar]
    by_cases hready : Ready cfg i s held c (newDay c b)
    · obtain ⟨hact, hfollow⟩ := act_of_ready hcfg hb.newDay hs hready
      have hrest := ih (i := i + 1) (b := mark cfg c (follow cfg i s held c (newDay c b)))
        hfollow.mark hbars.1 hbars.2
      rw [hact]
      exact and_congr (iff_of_true hfollow.held hready) hrest
    · have hnot := act_of_not_ready hb.newDay hs hready
      exact iff_of_false (fun h => hnot h.1) fun h => hready h.1

/-- `Matches`, bar by bar. -/
theorem matches_iff_forall {held : Bool} {s : ℚ} {bars : List (Candle ℚ × ℚ)} :
    Matches cfg i s held bars b ↔ ∀ j < bars.length,
      (0 < (loop cfg i (some s) (bars.take (j + 1)) b).qty ↔
        (heldAfter held (s :: bars.map Prod.snd))[j]? = some true) := by
  induction bars generalizing i s held b with
  | nil => exact iff_of_true trivial fun j hj => absurd hj (Nat.not_lt_zero j)
  | cons y bars ih =>
    obtain ⟨c, x⟩ := y
    have hsome {v : Bool} : some v = some true ↔ v = true :=
      ⟨Option.some.inj, congrArg some⟩
    constructor
    · rintro ⟨hfirst, hrest⟩ j hj
      cases j with
      | zero => exact hfirst.trans hsome.symm
      | succ j => exact ih.1 hrest j (Nat.lt_of_succ_lt_succ hj)
    · intro h
      exact ⟨(h 0 (Nat.succ_pos _)).trans hsome, ih.2 fun j hj => h (j + 1) (Nat.succ_lt_succ hj)⟩

/-! ## Windows -/

variable {p : Params ℚ} {df : List (Candle ℚ)} {start end_ : Nat}

/-- Whether the book holds a position on bar `j`. -/
def holds (cfg : BTConfig ℚ) (bars : List (Candle ℚ × ℚ)) (j : Nat) : Prop :=
  0 < (lastBook cfg (bars.take (j + 1))).qty

instance {bars : List (Candle ℚ × ℚ)} {j : Nat} : Decidable (holds cfg bars j) :=
  inferInstanceAs (Decidable (0 < (lastBook cfg (bars.take (j + 1))).qty))

/-- A run of a window is a run on its bars. -/
theorem runVariant_window {lib : NumberLib ℚ} :
    (runVariant lib df p cfg start (some end_) none).equity =
      (settle cfg (window p df start end_) (lastBook cfg (window p df start end_))).equity ∧
    (runVariant lib df p cfg start (some end_) none).trades =
      (settle cfg (window p df start end_) (lastBook cfg (window p df start end_))).trades := ⟨rfl, rfl⟩

/-- The rule holds before a bar and goes on holding on it. -/
def HoldsAcross (p : Params ℚ) (df : List (Candle ℚ)) (start : Nat) : Prop :=
  0 < start ∧ (stances p df)[start - 1]? = some .hold ∧ (stances p df)[start]? = some .hold

/-- Nothing hinders the portfolio that follows the rule from the first bar of a window on. -/
def UnhinderedWindow (cfg : BTConfig ℚ) : List (Candle ℚ × ℚ) → Prop
  | [] => True
  | (c, s) :: bars => Unhindered cfg 1 s false bars (bar cfg 0 none c (Book.start cfg))

theorem length_signals : (signals p df).length = df.length := by
  have htrack (state : Stance) (rs : List Reading) : (track (K := ℚ) state rs).length = rs.length := by
    induction rs generalizing state with
    | nil => rfl
    | cons r rs ih => exact congrArg Nat.succ (ih _)
  rw [signals, List.length_map, rule, htrack, readings, List.length_map, List.length_range,
    List.length_map]

theorem held_stances :
    (stances p df).map (fun x => decide (x = .hold)) = heldAfter false (signals p df) := by
  rw [stances, List.map_map]
  exact track_changes.2

theorem getElem?_heldAfter {j : Nat} :
    (heldAfter false (signals p df))[j]? = some true ↔ (stances p df)[j]? = some .hold := by
  rw [← held_stances, List.getElem?_map]
  cases (stances p df)[j]? with
  | none => simp
  | some x => simp

theorem map_snd_window : (window p df start end_).map Prod.snd = slice start end_ (signals p df) := by
  rw [window, aligned, List.map_snd_zip]
  · simp
  · simp only [slice, List.length_map, List.length_drop, List.length_take, length_signals]
    exact le_refl _

instance {bars : List (Candle ℚ × ℚ)} : Decidable (UnhinderedWindow cfg bars) :=
  match bars with
  | [] => isTrue trivial
  | _ :: _ => instDecidableUnhindered ..

/-- The rule before a window. -/
def heldBefore (p : Params ℚ) (df : List (Candle ℚ)) (start : Nat) : Bool :=
  ((heldAfter false (signals p df)).take start).getLast?.getD false

theorem heldBefore_iff (hstart : start ≤ df.length) : heldBefore p df start = true ↔
    0 < start ∧ (stances p df)[start - 1]? = some .hold := by
  unfold heldBefore
  rw [List.getLast?_take, ← getElem?_heldAfter]
  split
  · next hzero => simp [hzero]
  · next hpos =>
    have hlen : start - 1 < (heldAfter false (signals p df)).length := by
      rw [← held_stances, List.length_map, stances, List.length_map, ← List.length_map (f := Prod.snd),
        ← signals, length_signals]
      omega
    rw [List.getElem?_eq_getElem hlen]
    simp [Nat.pos_of_ne_zero hpos]

/-- A window on the overlay holds what the rule holds, on every bar after its first, exactly when the
rule does not hold across the window's start and nothing hinders the portfolio that follows it. -/
theorem window_holds_iff (hcfg : cfg.stop = none) (hwin : start < end_) :
    (∀ j, 1 ≤ j → j < (window p df start end_).length →
      (holds cfg (window p df start end_) j ↔ (stances p df)[start + j - 1]? = some .hold)) ↔
    (HoldsAcross p df start → (window p df start end_).length ≤ 1) ∧
      UnhinderedWindow cfg (window p df start end_) := by
  have hsnd : (window p df start end_).map Prod.snd = slice start end_ (signals p df) :=
    map_snd_window
  have hlen : (window p df start end_).length = min end_ df.length - start := by
    simp [window, aligned, slice, length_signals]
  have hchanges : Changes (heldBefore p df start) ((window p df start end_).map Prod.snd) := by
    have h : Changes (decide (Stance.undecided = .hold)) (signals p df) := track_changes.1
    have h' := (h.take end_).drop start
    rw [← heldAfter_take, List.take_take, Nat.min_eq_left hwin.le] at h'
    rw [hsnd]
    exact h'
  have hheld : heldAfter (heldBefore p df start) ((window p df start end_).map Prod.snd) =
      slice start end_ (heldAfter false (signals p df)) := by
    rw [hsnd, slice, slice, heldAfter_take, heldAfter_drop, ← heldAfter_take, List.take_take,
      Nat.min_eq_left hwin.le]
    rfl
  have hstance {j : Nat} (hj : j < (window p df start end_).length) :
      (stances p df)[start + j]? = some .hold ↔ (heldAfter (heldBefore p df start)
        ((window p df start end_).map Prod.snd))[j]? = some true := by
    rw [hheld, slice, List.getElem?_drop, List.getElem?_take_of_lt (by omega), getElem?_heldAfter]
  obtain ⟨bars, hbars⟩ : ∃ bars, bars = window p df start end_ := ⟨_, rfl⟩
  rw [← hbars] at hlen hchanges hstance ⊢
  cases bars with
  | nil =>
    exact iff_of_true (fun j _ hj => absurd hj (Nat.not_lt_zero j)) ⟨fun _ => Nat.zero_le _, trivial⟩
  | cons y bars =>
    obtain ⟨c, s⟩ := y
    rw [List.length_cons] at hlen
    have hacross : HoldsAcross p df start ↔
        heldBefore p df start = true ∧ holdAfter (heldBefore p df start) s = true := by
      rw [heldBefore_iff (by omega), HoldsAcross, and_assoc]
      refine and_congr_right fun _ => and_congr_right fun _ => ?_
      exact (hstance (Nat.succ_pos _)).trans ⟨Option.some.inj, congrArg some⟩
    have hall : (∀ j, 1 ≤ j → j < ((c, s) :: bars).length →
          (holds cfg ((c, s) :: bars) j ↔ (stances p df)[start + j - 1]? = some .hold)) ↔
        ∀ j < bars.length, (0 < (loop cfg 1 (some s) (bars.take (j + 1))
            (bar cfg 0 none c (Book.start cfg))).qty ↔
          (heldAfter (heldBefore p df start) (s :: bars.map Prod.snd))[j]? = some true) := by
      constructor
      · intro h j hj
        exact (h (j + 1) (Nat.le_add_left 1 j) (Nat.succ_lt_succ hj)).trans
          (hstance (Nat.lt_succ_of_lt hj))
      · intro h j hj hj'
        obtain ⟨j, rfl⟩ := Nat.exists_eq_add_of_le' hj
        exact (h j (Nat.lt_of_succ_lt_succ hj')).trans
          (hstance (Nat.lt_of_succ_lt hj')).symm
    have hfirst : Following false (bar cfg 0 none c (Book.start cfg)) :=
      Following.mark (b := stopOut cfg 0 c (newDay c (Book.start cfg))) <| by
        have hstart : Following false (newDay c (Book.start cfg)) := Following.newDay
          ⟨le_refl 0, iff_of_false (lt_irrefl 0) Bool.false_ne_true, rfl⟩
        rw [stopOut_of_none hstart.stop]
        exact hstart
    rw [hall, hacross]
    by_cases hstale : heldBefore p df start = true ∧ holdAfter (heldBefore p df start) s = true
    · cases bars with
      | nil =>
        exact iff_of_true (fun j hj => absurd hj (Nat.not_lt_zero j)) ⟨fun _ => le_refl 1, trivial⟩
      | cons y bars =>
        -- the rule goes on holding, but the window has not been told to buy
        obtain ⟨c', x⟩ := y
        refine iff_of_false (fun h => ?_) fun h => absurd (h.1 hstale) (by simp)
        have hup : ¬ 0 < s := fun hup => by
          have hflat : heldBefore p df start = false := hchanges.1 hup
          rw [hflat] at hstale
          cases hstale.1
        have hlast : Changes (holdAfter false s) ([(c', x)].map Prod.snd) :=
          ⟨fun _ => holdAfter_false hup, trivial⟩
        have hmatch : Matches cfg 1 s false [(c', x)] (bar cfg 0 none c (Book.start cfg)) :=
          (matches_iff hcfg hfirst (fun h => absurd h hup) hlast).2
            ⟨⟨fun h => absurd h hup, fun h => (by cases h)⟩, trivial⟩
        have hheld := hmatch.1.1 ((h 0 (Nat.succ_pos _)).2 (congrArg some hstale.2))
        rw [holdAfter_false hup] at hheld
        cases hheld
    · have hsame : holdAfter (heldBefore p df start) s = holdAfter false s :=
        holdAfter_of_not hstale
      have hafter : heldAfter (heldBefore p df start) (s :: bars.map Prod.snd) =
          heldAfter false (s :: bars.map Prod.snd) := by
        rw [heldAfter, heldAfter, hsame]
      rw [hafter, ← matches_iff_forall, matches_iff hcfg hfirst (fun _ => rfl) (hsame ▸ hchanges.2)]
      exact (and_iff_right fun h => absurd h hstale).symm

/-- A rule without an average to speak of, which holds as long as the price does not fall. -/
def sampleParams : Params ℚ := { ma := 1, confirm := 1, buffer := 0 }

/-- The rule holds from the first bar on; a window from the second bar never buys. -/
theorem window_never_buys :
    freeCosts.stop = none ∧
    stances sampleParams (flatFrame [100, 100, 100, 100]) = [.hold, .hold, .hold, .hold] ∧
    ∀ j < 3, ¬ holds freeCosts (window sampleParams (flatFrame [100, 100, 100, 100]) 1 4) j := by
  decide +kernel

theorem whole_frame_holds :
    holds freeCosts (window sampleParams (flatFrame [100, 100, 100]) 0 3) 1 ↔
      (stances sampleParams (flatFrame [100, 100, 100]))[0]? = some .hold :=
  (window_holds_iff rfl (by decide)).2 ⟨fun h => absurd h.1 (lt_irrefl 0), by decide +kernel⟩ 1
    (le_refl 1) (by decide +kernel)

end Overlay
end CryptoBot
