import CryptoBot.Application.RiskManager
import CryptoBot.Application.RunAlone
import Mathlib.Data.List.DropRight

/-!
# The daily-loss latch over a history of calls

`update_daily` persists the date, the equity the day started with and the flag `halted`, and rebuilds
them on every call, so it does not matter which process calls. Over a history of calls the stored day
is that of the last date: it starts at the equity of the first call of that date, and it is halted
once one of its calls has found the drawdown at the limit.
-/

namespace CryptoBot

open Lib

/-- A call of `update_daily`. -/
structure Observation where
  equity : ℚ
  date : Int
deriving DecidableEq

/-- The longest suffix of calls that share the last call's date. -/
def lastDay (calls : List Observation) : List Observation :=
  match calls.getLast? with
  | some last => calls.rtakeWhile fun c => c.date = last.date
  | none => []

/-- A call of a day finds the drawdown from the day's first equity at the limit. -/
def LimitReached (limitPct : ℚ) (day : List Observation) : Prop :=
  ∃ first ∈ day.head?, 0 < first.equity ∧
    ∃ c ∈ day, limitPct ≤ (first.equity - c.equity) / first.equity * 100

/-- The ledgers that a history of calls leaves behind, oldest call first. Each call starts from any
history of the process, so it may be the first one after a restart; between the calls anything may
happen to the ledger but to the stored day. -/
inductive Observed (cfg : Config) (ans : Answers Ledger Label Ans) :
    List Observation → Ledger → Prop
  | start {s : Ledger} (hnone : s.riskDay cfg.bot = none) : Observed cfg ans [] s
  | aside {calls : List Observation} {s s' : Ledger} (hs : Observed cfg ans calls s)
      (hday : s'.riskDay cfg.bot = s.riskDay cfg.bot) : Observed cfg ans calls s'
  | call {calls : List Observation} {c : Observation} {h h' : History Label Ans} {s s' : Ledger}
      {r : Except Exn Bool} (hs : Observed cfg ans calls s)
      (hrun : Proc.Ends ans (RiskManager.updateDaily cfg c.equity c.date) h s r h' s') :
      Observed cfg ans (calls ++ [c]) s'

/-! ## The last day of a history -/

section
variable {calls : List Observation} {c last : Observation} {limitPct : ℚ}

@[simp] theorem lastDay_nil : lastDay [] = [] := rfl

theorem lastDay_append_same (hlast : last ∈ calls.getLast?) (hdate : c.date = last.date) :
    lastDay (calls ++ [c]) = lastDay calls ++ [c] := by
  have hday : ∀ x : Observation, decide (x.date = c.date) = decide (x.date = last.date) := by
    intro x
    rw [hdate]
  unfold lastDay
  rw [List.getLast?_concat, Option.mem_def.1 hlast]
  dsimp only
  rw [List.rtakeWhile_concat_pos (fun x : Observation => decide (x.date = c.date)) calls c
    (decide_eq_true rfl)]
  simp only [hday]

theorem lastDay_append_other (hlast : ∀ last ∈ calls.getLast?, c.date ≠ last.date) :
    lastDay (calls ++ [c]) = [c] := by
  unfold lastDay
  rw [List.getLast?_concat]
  dsimp only
  rw [List.rtakeWhile_concat_pos (fun x : Observation => decide (x.date = c.date)) calls c
    (decide_eq_true rfl)]
  have hnil : calls.rtakeWhile (fun x => decide (x.date = c.date)) = [] := by
    refine List.rtakeWhile_eq_nil_iff.2 fun hne heq => ?_
    exact hlast _ (List.getLast?_eq_some_getLast hne) (of_decide_eq_true heq).symm
  rw [hnil, List.nil_append]

/-- A further call of the day. -/
theorem limitReached_append {first : Observation} {day : List Observation}
    (hfirst : first ∈ day.head?) :
    LimitReached limitPct (day ++ [c]) ↔ LimitReached limitPct day ∨
      0 < first.equity ∧ limitPct ≤ (first.equity - c.equity) / first.equity * 100 := by
  have hhead : (day ++ [c]).head? = some first := by
    rw [List.head?_append, Option.mem_def.1 hfirst, Option.some_or]
  unfold LimitReached
  rw [hhead, Option.mem_def.1 hfirst]
  simp only [Option.mem_def, Option.some.injEq, exists_eq_left', List.mem_append,
    List.mem_singleton, or_and_right, exists_or, exists_eq_left, and_or_left]

/-- A day of one call: its drawdown is nothing. -/
theorem limitReached_single : LimitReached limitPct [c] ↔ 0 < c.equity ∧ limitPct ≤ 0 := by
  simp [LimitReached]

end

/-! ## The stored day -/

section
variable {cfg : Config} {ans : Answers Ledger Label Ans} {calls : List Observation} {s : Ledger}

/-- The stored day is the last day of the history. -/
def Latched (limitPct : ℚ) (calls : List Observation) (stored : Option RiskDay) : Prop :=
  match calls.getLast? with
  | none => stored = none
  | some last => ∃ d, stored = some d ∧ d.date = last.date ∧
      (∃ first ∈ (lastDay calls).head?, d.dayStartEquity = first.equity) ∧
      (d.halted = true ↔ LimitReached limitPct (lastDay calls))

theorem RiskV1.checkDailyLossLimit_iff {equity dayStartEquity limitPct : ℚ} {halted : Bool} :
    RiskV1.checkDailyLossLimit equity dayStartEquity halted limitPct = true ↔
      halted = true ∨ 0 < dayStartEquity ∧
        limitPct ≤ (dayStartEquity - equity) / dayStartEquity * 100 := by
  unfold RiskV1.checkDailyLossLimit
  split
  · next hle => simp [not_lt.2 hle]
  · next hlt => simp [not_le.1 hlt]

/-- The first call of a date starts a day at its equity. -/
theorem RiskManager.nextDay_first {stored : Option RiskDay} {equity : ℚ} {today : Int}
    (hother : ∀ d ∈ stored, d.date ≠ today) :
    nextDay cfg stored equity today = ⟨today, equity,
      RiskV1.checkDailyLossLimit equity equity false cfg.dailyLossLimitPct⟩ := by
  cases stored with
  | none => rfl
  | some d => rw [nextDay]; simp only [if_neg (hother d rfl)]

/-- A further call of a date keeps the day's first equity. -/
theorem RiskManager.nextDay_further {d : RiskDay} {equity : ℚ} {today : Int}
    (hsame : d.date = today) :
    nextDay cfg (some d) equity today = ⟨d.date, d.dayStartEquity,
      RiskV1.checkDailyLossLimit equity d.dayStartEquity d.halted cfg.dailyLossLimitPct⟩ := by
  rw [nextDay]
  simp only [if_pos hsame]

/-- A call stores the day that follows, and leaves nothing else to the process. -/
theorem RiskManager.ends_updateDaily {equity : ℚ} {today : Int} {h h' : History Label Ans}
    {s' : Ledger} {r : Except Exn Bool}
    (hrun : Proc.Ends ans (updateDaily cfg equity today) h s r h' s') :
    s'.riskDay cfg.bot = some (nextDay cfg (s.riskDay cfg.bot) equity today) ∧
      r = .ok (isDailyHalted cfg s') := by
  unfold updateDaily at hrun
  rw [Proc.ends_bind] at hrun
  rcases hrun with ⟨stored, h₁, s₁, hq, hrun⟩ | ⟨e, hq, -⟩
  · obtain ⟨hstored, -, hs⟩ := (ends_query _ _ _).1 hq
    subst hs
    cases hstored
    rw [Proc.ends_bind] at hrun
    rcases hrun with ⟨_, h₂, s₂, htx, hrun⟩ | ⟨e, htx, -⟩
    · obtain ⟨rfl, -, rfl⟩ := (Proc.ends_pure _ _).1 hrun
      obtain ⟨-, ⟨_, htx, -⟩ | ⟨_, -, hr, -⟩⟩ := ends_transaction htx
      · cases htx
        have hday := Function.update_self cfg.bot
          (some (nextDay cfg (s₁.riskDay cfg.bot) equity today)) s₁.riskDay
        refine ⟨hday, ?_⟩
        rw [isDailyHalted]
        exact congrArg Except.ok (congrArg (Option.any fun d : RiskDay => d.halted) hday).symm
      · cases hr
    · obtain ⟨-, ⟨_, -, hr⟩ | ⟨_, htx, -⟩⟩ := ends_transaction htx
      · cases hr
      · cases htx
  · cases hq.1

/-- A call keeps the stored day that of the history. -/
theorem Latched.next {stored : Option RiskDay} {c : Observation}
    (h : Latched cfg.dailyLossLimitPct calls stored) :
    Latched cfg.dailyLossLimitPct (calls ++ [c])
      (some (RiskManager.nextDay cfg stored c.equity c.date)) := by
  have hfresh (hother : ∀ d ∈ stored, d.date ≠ c.date)
      (hlast : ∀ last ∈ calls.getLast?, c.date ≠ last.date) :
      Latched cfg.dailyLossLimitPct (calls ++ [c])
        (some (RiskManager.nextDay cfg stored c.equity c.date)) := by
    unfold Latched
    rw [List.getLast?_concat, lastDay_append_other hlast, RiskManager.nextDay_first hother]
    refine ⟨_, rfl, rfl, ⟨c, rfl, rfl⟩, ?_⟩
    rw [RiskV1.checkDailyLossLimit_iff, limitReached_single]
    simp
  cases hcalls : calls.getLast? with
  | none =>
    have hnone : stored = none := by
      unfold Latched at h
      rwa [hcalls] at h
    subst hnone
    refine hfresh ?_ ?_
    · intro d hd
      cases hd
    · intro last hlast
      rw [hcalls] at hlast
      cases hlast
  | some last =>
    unfold Latched at h
    rw [hcalls] at h
    obtain ⟨d, rfl, hdate, ⟨first, hfirst, hstart⟩, hhalted⟩ := h
    by_cases hsame : c.date = last.date
    · have hlast : last ∈ calls.getLast? := hcalls
      unfold Latched
      rw [List.getLast?_concat, lastDay_append_same hlast hsame,
        RiskManager.nextDay_further (hdate.trans hsame.symm)]
      refine ⟨_, rfl, hdate.trans hsame.symm, ⟨first, ?_, hstart⟩, ?_⟩
      · rw [List.head?_append, Option.mem_def.1 hfirst]
        rfl
      · rw [RiskV1.checkDailyLossLimit_iff, limitReached_append hfirst, hhalted, hstart]
    · refine hfresh ?_ ?_
      · rintro d ⟨⟩ hd
        exact hsame (hd.symm.trans hdate)
      · intro last' hlast'
        rw [hcalls] at hlast'
        cases hlast'
        exact hsame

/-- Over every history of calls the stored day is its last day. -/
theorem Observed.latched (h : Observed cfg ans calls s) :
    Latched cfg.dailyLossLimitPct calls (s.riskDay cfg.bot) := by
  induction h with
  | start hnone => exact hnone
  | aside _ hday ih =>
    rw [hday]
    exact ih
  | call _ hrun ih =>
    rw [(RiskManager.ends_updateDaily hrun).1]
    exact ih.next

/-! ## The latch -/

theorem Latched.halted_iff (h : Latched cfg.dailyLossLimitPct calls (s.riskDay cfg.bot)) :
    RiskManager.isDailyHalted cfg s = true ↔
      LimitReached cfg.dailyLossLimitPct (lastDay calls) := by
  unfold RiskManager.isDailyHalted
  cases hcalls : calls.getLast? with
  | none =>
    unfold Latched at h
    rw [hcalls] at h
    have hnil : calls = [] := List.getLast?_eq_none_iff.1 hcalls
    rw [h, hnil]
    simp [LimitReached]
  | some last =>
    unfold Latched at h
    rw [hcalls] at h
    obtain ⟨d, hd, -, -, hhalted⟩ := h
    rw [hd]
    exact hhalted

/-- The bot is halted exactly when a call of the last date has found the drawdown from the first
equity of that date at the limit. A further call of the date keeps a halt, whatever the equity; a
call of another date leaves one only when the limit is reached by no drawdown at all. -/
theorem daily_halt_latch (h : Observed cfg ans calls s) :
    (RiskManager.isDailyHalted cfg s = true ↔
      LimitReached cfg.dailyLossLimitPct (lastDay calls)) ∧
    ∀ last ∈ calls.getLast?, ∀ {c : Observation} {t t' : History Label Ans} {s' : Ledger}
      {r : Except Exn Bool},
      Proc.Ends ans (RiskManager.updateDaily cfg c.equity c.date) t s r t' s' →
      (c.date = last.date → RiskManager.isDailyHalted cfg s = true →
        RiskManager.isDailyHalted cfg s' = true) ∧
      (c.date ≠ last.date → (RiskManager.isDailyHalted cfg s' = true ↔
        0 < c.equity ∧ cfg.dailyLossLimitPct ≤ 0)) := by
  refine ⟨h.latched.halted_iff, ?_⟩
  intro last hlast c t t' s' r hrun
  have hnext := (h.call hrun).latched.halted_iff
  constructor
  · intro hsame hhalted
    have hreached := h.latched.halted_iff.1 hhalted
    obtain ⟨first, hfirst, -⟩ := id hreached
    rw [hnext, lastDay_append_same hlast hsame, limitReached_append hfirst]
    exact .inl hreached
  · intro hother
    have hfresh : ∀ last' ∈ calls.getLast?, c.date ≠ last'.date := by
      intro last' hlast'
      cases Option.mem_unique hlast hlast'
      exact hother
    rw [hnext, lastDay_append_other hfresh, limitReached_single]

end

/-! ## A day with a recovery -/

/-- The ledger after a history of calls, nothing else happening. -/
def observeAll (cfg : Config) (calls : List Observation) : Ledger :=
  calls.foldl (fun s c =>
    let day := RiskManager.nextDay cfg (s.riskDay cfg.bot) c.equity c.date
    { s with riskDay := Function.update s.riskDay cfg.bot (some day) }) {}

theorem observed_observeAll (cfg : Config) (ans : Answers Ledger Label Ans)
    (calls : List Observation) : Observed cfg ans calls (observeAll cfg calls) := by
  induction calls using List.reverseRecOn with
  | nil => exact .start rfl
  | append_singleton calls c ih =>
    unfold observeAll
    rw [List.foldl_concat]
    exact ih.call (h := []) ⟨rfl, rfl, rfl⟩

/-- The equity falls by six percent and recovers; a new date follows. -/
theorem halted_despite_recovery :
    RiskManager.isDailyHalted sampleConfig
        (observeAll sampleConfig [⟨100, 1⟩, ⟨94, 1⟩, ⟨120, 1⟩]) = true ∧
      ¬ RiskManager.isDailyHalted sampleConfig
        (observeAll sampleConfig [⟨100, 1⟩, ⟨94, 1⟩, ⟨120, 1⟩, ⟨90, 2⟩]) = true := by
  have hday (calls : List Observation) :=
    (daily_halt_latch (observed_observeAll sampleConfig (fun _ _ _ _ => True) calls)).1
  rw [hday, hday]
  constructor
  · exact ⟨⟨100, 1⟩, rfl, by norm_num, ⟨94, 1⟩, by decide, by norm_num [sampleConfig, Config.testnet]⟩
  · rintro ⟨first, hfirst, -, c, hc, hlimit⟩
    cases hfirst
    cases List.mem_singleton.1 hc
    norm_num [sampleConfig, Config.testnet] at hlimit

end CryptoBot
