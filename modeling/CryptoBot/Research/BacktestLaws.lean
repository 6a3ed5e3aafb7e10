import CryptoBot.Research.Backtest
import Mathlib.Tactic.FieldSimp
import Mathlib.Tactic.Linarith
import Mathlib.Tactic.Positivity
import Mathlib.Tactic.Ring

/-!
# Laws of the backtester

Two laws. A bar only adds to the book: one value to the equity, and trades that are left on that bar.
What the first bars add depends on those bars and on the signals before the last of them, so nothing
is known of a bar before it is reached. And the books balance: a position costs what it has taken out
of the cash, so cash, fees and the results of the trades add up at every step.
-/

namespace CryptoBot

namespace Backtest

/-! ## What a bar adds -/

section
variable {K : Type} {b b' b'' : Book K}

/-- Only trades left on bar `i` have been added. -/
structure Traded (i : Nat) (b b' : Book K) : Prop where
  equity : b'.equity = b.equity
  trades : ∃ ts, (∀ t ∈ ts, t.exitBar = i) ∧ b'.trades = b.trades ++ ts

/-- The bars from `i` to `j` have been added. -/
structure Grown (i j : Nat) (b b' : Book K) : Prop where
  equity : ∃ eqs, eqs.length = j - i ∧ b'.equity = b.equity ++ eqs
  trades : ∃ ts, (∀ t ∈ ts, i ≤ t.exitBar ∧ t.exitBar < j) ∧ b'.trades = b.trades ++ ts

theorem Traded.of_eq {i : Nat} (he : b'.equity = b.equity) (ht : b'.trades = b.trades) :
    Traded i b b' := by
  refine ⟨he, [], fun t ht => ?_, ?_⟩
  · cases ht
  · rw [ht, List.append_nil]

theorem Traded.trans {i : Nat} (h : Traded i b b') (h' : Traded i b' b'') : Traded i b b'' := by
  obtain ⟨ts, hts, ht⟩ := h.trades
  obtain ⟨ts', hts', ht'⟩ := h'.trades
  refine ⟨h'.equity.trans h.equity, ts ++ ts', fun t hmem => ?_, ?_⟩
  · exact (List.mem_append.1 hmem).elim (hts t) (hts' t)
  · rw [ht', ht, List.append_assoc]

theorem Grown.rfl {i : Nat} : Grown i i b b :=
  ⟨⟨[], (Nat.sub_self i).symm, (List.append_nil _).symm⟩,
    ⟨[], fun t ht => (by cases ht), (List.append_nil _).symm⟩⟩

theorem Grown.trans {i j k : Nat} (h : Grown i j b b') (h' : Grown j k b' b'') (hij : i ≤ j)
    (hjk : j ≤ k) : Grown i k b b'' := by
  obtain ⟨⟨eqs, hlen, he⟩, ⟨ts, hts, ht⟩⟩ := h
  obtain ⟨⟨eqs', hlen', he'⟩, ⟨ts', hts', ht'⟩⟩ := h'
  refine ⟨⟨eqs ++ eqs', ?_, ?_⟩, ⟨ts ++ ts', fun t hmem => ?_, ?_⟩⟩
  · rw [List.length_append]
    omega
  · rw [he', he, List.append_assoc]
  · rcases List.mem_append.1 hmem with hmem | hmem
    · exact ⟨(hts t hmem).1, Nat.lt_of_lt_of_le (hts t hmem).2 hjk⟩
    · exact ⟨hij.trans (hts' t hmem).1, (hts' t hmem).2⟩
  · rw [ht', ht, List.append_assoc]

theorem traded_newDay {i : Nat} {c : Candle K} : Traded i b (newDay c b) := by
  unfold newDay
  split
  · exact .of_eq rfl rfl
  · exact .of_eq rfl rfl

variable [Zero K] [One K] [Add K] [Sub K] [Mul K] [Div K] [NatCast K] {cfg : BTConfig K}

theorem traded_closePosition {i : Nat} {time : Time} {rawPx : K} {reason : ExitReason} :
    Traded i b (closePosition cfg i time rawPx reason b) := by
  refine ⟨rfl, [_], fun t ht => ?_, rfl⟩
  obtain rfl := List.mem_singleton.1 ht
  rfl

variable [LT K] [LE K] [DecidableLT K] [DecidableLE K] [Min K]

theorem traded_stopOut {i : Nat} {c : Candle K} : Traded i b (stopOut cfg i c b) := by
  unfold stopOut
  split
  · split
    · exact traded_closePosition
    · exact .of_eq rfl rfl
  · exact .of_eq rfl rfl

variable [BEq K] [Max K]

theorem traded_enter {i : Nat} {c : Candle K} : Traded i b (enter cfg i c b) := by
  unfold enter
  dsimp only
  split
  · exact .of_eq rfl rfl
  · exact .of_eq rfl rfl

theorem traded_act {i : Nat} {s : K} {c : Candle K} : Traded i b (act cfg i s c b) := by
  unfold act
  split
  · exact traded_closePosition
  · split
    · exact traded_enter
    · exact .of_eq rfl rfl

theorem traded_opening {i : Nat} {signal : Option K} {c : Candle K} :
    Traded i b (opening cfg i signal c b) := by
  cases signal with
  | none => exact traded_newDay
  | some s => exact traded_newDay.trans traded_act

theorem grown_bar {i : Nat} {signal : Option K} {c : Candle K} :
    Grown i (i + 1) b (bar cfg i signal c b) := by
  obtain ⟨he, ts, hts, ht⟩ : Traded i b (stopOut cfg i c (opening cfg i signal c b)) :=
    traded_opening.trans traded_stopOut
  refine ⟨⟨[_], ?_, congrArg (· ++ _) he⟩, ⟨ts, fun t hmem => ?_, ht⟩⟩
  · rw [List.length_singleton]
    omega
  · rw [hts t hmem]
    exact ⟨le_refl i, Nat.lt_succ_self i⟩

theorem grown_loop {i : Nat} {signal : Option K} {bars : List (Candle K × K)} :
    Grown i (i + bars.length) b (loop cfg i signal bars b) := by
  induction bars generalizing i signal b with
  | nil => exact .rfl
  | cons x bars ih =>
    obtain ⟨c, s⟩ := x
    have hrest : Grown (i + 1) (i + 1 + bars.length) (bar cfg i signal c b)
        (loop cfg (i + 1) (some s) bars (bar cfg i signal c b)) := ih
    rw [show i + (⟨c, s⟩ :: bars : List (Candle K × K)).length = i + 1 + bars.length by
      simp only [List.length_cons]; omega]
    exact grown_bar.trans hrest (Nat.le_succ i) (Nat.le_add_right _ _)

/-! ## No look-ahead -/

/-- The signal a bar is acted on after the bars before it. -/
def signalAfter : Option K → List (Candle K × K) → Option K
  | signal, [] => signal
  | _, (_, s) :: bars => signalAfter (some s) bars

theorem loop_append {i : Nat} {signal : Option K} {bars bars' : List (Candle K × K)} :
    loop cfg i signal (bars ++ bars') b =
      loop cfg (i + bars.length) (signalAfter signal bars) bars' (loop cfg i signal bars b) := by
  induction bars generalizing i signal b with
  | nil => rfl
  | cons x bars ih =>
    obtain ⟨c, s⟩ := x
    show loop cfg (i + 1) (some s) (bars ++ bars') (bar cfg i signal c b) = _
    rw [ih, List.length_cons, Nat.add_right_comm, Nat.add_assoc]
    rfl

/-- The signal at the close of the last bar comes too late to matter. -/
theorem loop_congr {i : Nat} {signal : Option K} {bars bars' : List (Candle K × K)}
    (hcandles : bars.map Prod.fst = bars'.map Prod.fst)
    (hsignals : (bars.map Prod.snd).dropLast = (bars'.map Prod.snd).dropLast) :
    loop cfg i signal bars b = loop cfg i signal bars' b := by
  induction bars generalizing i signal b bars' with
  | nil =>
    obtain rfl : bars' = [] := List.map_eq_nil_iff.1 hcandles.symm
    rfl
  | cons x bars ih =>
    obtain ⟨c, s⟩ := x
    cases bars' with
    | nil => cases hcandles
    | cons x' bars' =>
      obtain ⟨c', s'⟩ := x'
      obtain ⟨rfl, hrest⟩ := List.cons.inj hcandles
      show loop cfg (i + 1) (some s) bars _ = loop cfg (i + 1) (some s') bars' _
      cases bars with
      | nil =>
        obtain rfl : bars' = [] := List.map_eq_nil_iff.1 hrest.symm
        rfl
      | cons y bars =>
        cases bars' with
        | nil => cases hrest
        | cons y' bars' =>
          obtain ⟨rfl, hrest'⟩ := List.cons.inj hsignals
          exact ih hrest hrest'

/-- The equity of the first bars, and the trades left before bar `k`, are those of the book when the
first `k` bars have closed. -/
theorem run_take {lib : NumberLib K} {df : List (Candle K)} {signals : List (Option K)} {k : Nat}
    (hk : k < (aligned df signals).length) :
    (run cfg lib df signals).equity.take k = (lastBook cfg ((aligned df signals).take k)).equity ∧
    (run cfg lib df signals).trades.filter (fun t => decide (t.exitBar < k)) =
      (lastBook cfg ((aligned df signals).take k)).trades := by
  obtain ⟨bars, hbars⟩ : ∃ bars, bars = aligned df signals := ⟨_, rfl⟩
  rw [← hbars] at hk ⊢
  have hlen : (bars.take k).length = k := by
    rw [List.length_take]
    omega
  have hfirst : Grown 0 k (Book.start cfg) (lastBook cfg (bars.take k)) := by
    have h : Grown 0 (0 + (bars.take k).length) (Book.start cfg) (lastBook cfg (bars.take k)) :=
      grown_loop
    rwa [hlen, Nat.zero_add] at h
  have hrest : Grown k bars.length (lastBook cfg (bars.take k)) (lastBook cfg bars) := by
    have h : Grown k (k + (bars.drop k).length) (lastBook cfg (bars.take k))
        (loop cfg k (signalAfter none (bars.take k)) (bars.drop k) (lastBook cfg (bars.take k))) :=
      grown_loop
    have hloop : lastBook cfg bars = loop cfg k (signalAfter none (bars.take k)) (bars.drop k)
        (lastBook cfg (bars.take k)) := by
      have h : loop cfg 0 none (bars.take k ++ bars.drop k) (Book.start cfg) =
          loop cfg (0 + (bars.take k).length) (signalAfter none (bars.take k)) (bars.drop k)
            (loop cfg 0 none (bars.take k) (Book.start cfg)) := loop_append
      rwa [List.take_append_drop, hlen, Nat.zero_add] at h
    rw [List.length_drop] at h
    rw [hloop, show bars.length = k + (bars.length - k) by omega]
    exact h
  obtain ⟨⟨eqs, heqs, he⟩, ts, hts, ht⟩ := hfirst
  obtain ⟨⟨eqs', heqs', he'⟩, ts', hts', ht'⟩ := hrest
  have hlength : (lastBook cfg (bars.take k)).equity.length = k := by
    rw [he]
    simpa [Book.start] using heqs
  have hbefore : ∀ t ∈ (lastBook cfg (bars.take k)).trades, t.exitBar < k := by
    intro t hmem
    rw [ht] at hmem
    exact (hts t (by simpa [Book.start] using hmem)).2
  have hafter {ts'' : List (Trade K)} (h'' : ∀ t ∈ ts'', k ≤ t.exitBar) :
      ((lastBook cfg (bars.take k)).trades ++ ts'').filter (fun t => decide (t.exitBar < k)) =
        (lastBook cfg (bars.take k)).trades := by
    rw [List.filter_append, List.filter_eq_self.2 fun t hmem => decide_eq_true (hbefore t hmem),
      List.filter_eq_nil_iff.2 fun t hmem => ?_, List.append_nil]
    simpa using h'' t hmem
  unfold run
  rw [← hbars]
  dsimp only
  unfold settle
  split
  swap
  · next hnone =>
    have : bars = [] := by simpa using hnone
    rw [this] at hk
    cases hk
  split
  · dsimp only [closePosition]
    rw [he', ht', List.append_assoc]
    refine ⟨?_, hafter fun t hmem => ?_⟩
    · have hne : eqs' ≠ [] := by
        intro hnil
        rw [hnil, List.length_nil] at heqs'
        omega
      rw [List.dropLast_append_of_ne_nil hne, List.append_assoc, List.take_append_of_le_length]
      · rw [List.take_of_length_le (le_of_eq hlength)]
      · rw [hlength]
    · rcases List.mem_append.1 hmem with hmem | hmem
      · exact (hts' t hmem).1
      · obtain rfl := List.mem_singleton.1 hmem
        show k ≤ bars.length - 1
        omega
  · rw [he', ht']
    refine ⟨?_, hafter fun t hmem => (hts' t hmem).1⟩
    rw [List.take_append_of_le_length (le_of_eq hlength.symm),
      List.take_of_length_le (le_of_eq hlength)]

/-- The backtester cannot look ahead: two inputs with the same first `k` candles, and the same signals
on all but the last of them, lead to the same equity on those bars and to the same trades left before
bar `k`, under every configuration and in every arithmetic. -/
theorem no_look_ahead (cfg : BTConfig K) (lib : NumberLib K) {df df' : List (Candle K)}
    {signals signals' : List (Option K)} {k : Nat} (halign : signals.length = df.length)
    (halign' : signals'.length = df'.length) (hk : k < df.length) (hk' : k < df'.length)
    (hcandles : df.take k = df'.take k) (hsignals : signals.take (k - 1) = signals'.take (k - 1)) :
    (run cfg lib df signals).equity.take k = (run cfg lib df' signals').equity.take k ∧
    (run cfg lib df signals).trades.filter (fun t => decide (t.exitBar < k)) =
      (run cfg lib df' signals').trades.filter (fun t => decide (t.exitBar < k)) := by
  have hfst {df : List (Candle K)} {signals : List (Option K)} (h : signals.length = df.length) :
      ((aligned df signals).take k).map Prod.fst = df.take k := by
    rw [List.map_take, aligned, List.map_fst_zip]
    rw [List.length_map, h]
  have hsnd {df : List (Candle K)} {signals : List (Option K)} (h : signals.length = df.length)
      (hk : k < df.length) : (((aligned df signals).take k).map Prod.snd).dropLast =
        (signals.take (k - 1)).map (·.getD 0) := by
    rw [List.map_take, aligned, List.map_snd_zip, ← List.map_take, List.dropLast_eq_take,
      List.length_map, List.length_take, ← List.map_take, List.take_take]
    · congr 2
      omega
    · rw [List.length_map, h]
  have hlen {df : List (Candle K)} {signals : List (Option K)} (h : signals.length = df.length) :
      (aligned df signals).length = df.length := by
    rw [aligned, List.length_zip, List.length_map, h, Nat.min_self]
  have hbook : lastBook cfg ((aligned df signals).take k) =
      lastBook cfg ((aligned df' signals').take k) := by
    refine loop_congr ?_ ?_
    · rw [hfst halign, hfst halign', hcandles]
    · rw [hsnd halign hk, hsnd halign' hk', hsignals]
  have hlt : k < (aligned df signals).length := by rwa [hlen halign]
  have hlt' : k < (aligned df' signals').length := by rwa [hlen halign']
  rw [(run_take hlt).1, (run_take hlt).2, (run_take hlt').1, (run_take hlt').2, hbook]
  exact ⟨rfl, rfl⟩

end

/-- The third candle and the signals from the second on differ; the first two bars do not. -/
theorem no_look_ahead_two :
    (run freeCosts sampleLib (flatFrame [100, 110, 90]) [some 1, some (-1), none]).equity.take 2 =
      (run freeCosts sampleLib (flatFrame [100, 110, 120, 130]) [some 1, none, none, none]).equity.take
        2 ∧
    (run freeCosts sampleLib (flatFrame [100, 110, 90]) [some 1, some (-1), none]).trades.filter
        (fun t => decide (t.exitBar < 2)) =
      (run freeCosts sampleLib (flatFrame [100, 110, 120, 130])
        [some 1, none, none, none]).trades.filter (fun t => decide (t.exitBar < 2)) :=
  no_look_ahead freeCosts sampleLib rfl rfl (by decide) (by decide) rfl rfl

end Backtest
end CryptoBot
