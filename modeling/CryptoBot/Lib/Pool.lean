import CryptoBot.Lib.Prog
import CryptoBot.Lib.Runs

/-!
# Several programs at once

A pool holds one program for each process, all of them working on one shared state. Any process may
take its next event at any time, and a process may at any time be killed and started again with one
of the programs the pool admits; its own history then begins anew, while the trace of the pool
keeps everything.

`Pool.Sound` is the rely-guarantee argument: when every program satisfies its weakest precondition
under a contract, every step of a process keeps the contract, and the others keep theirs as long as
the step is one they rely on.
-/

namespace Lib

variable {τ σ ι Q ρ : Type} {A : Q → Type}

/-- What happens in a pool: a process takes an event of its program, or is started. -/
inductive Act (τ ι : Type) {Q : Type} (A : Q → Type) : Type
  | event (i : τ) (e : Event ι A)
  | start (i : τ)

/-- The rest of each process's program, what each has done since its start, the trace of the pool
(newest first) and the shared state. Where somebody waits for the results, they are of type `ρ`. -/
structure Pool (τ σ ι : Type) {Q : Type} (A : Q → Type) (ρ : Type := PUnit) : Type 1 where
  prog : τ → Prog σ ι A ρ
  hist : τ → History ι A
  trace : List (Act τ ι A)
  state : σ

/-- A program of a process, whose result nobody waits for. -/
def Prog.forget {α : Type} (p : Prog σ ι A α) : Prog σ ι A PUnit := p.bind fun _ => .done ⟨⟩

theorem Prog.wp_forget {α : Type} {C : Contract σ ι A} {p : Prog σ ι A α} {h : History ι A} {s : σ}
    {Φ : α → History ι A → σ → Prop} (hp : p.wp C Φ h s) :
    p.forget.wp C (fun _ _ _ => True) h s :=
  (wp_bind p _ _ h s).2 (wp_mono (fun _ _ _ _ => trivial) hp)

theorem Prog.Within.forget {α : Type} {R : ι → σ → σ → Prop} {p : Prog σ ι A α}
    (hp : p.Within R) : p.forget.Within R := hp.bind fun _ => trivial

/-- The rely condition of a contract admits standing still, where `I` holds, and composes. -/
structure Contract.Stable (C : Contract σ ι A) (I : σ → Prop) : Prop where
  refl : ∀ h {s}, I s → C.rely h s s
  trans : ∀ {h s s' s''}, C.rely h s s' → C.rely h s' s'' → C.rely h s s''

/-- What a finished process has achieved lasts through interference. -/
def Contract.Lasting (C : Contract σ ι A) (Φ : ρ → History ι A → σ → Prop) : Prop :=
  ∀ a h s s', Φ a h s → C.rely h s s' → Φ a h s'

/-- A program that keeps its contract still does after interference. -/
theorem Prog.wp_rely {C : Contract σ ι A} {I : σ → Prop} {Φ : ρ → History ι A → σ → Prop}
    {p : Prog σ ι A ρ} {h : History ι A} {s s' : σ} (hC : C.Stable I) (hΦ : C.Lasting Φ)
    (hp : p.wp C Φ h s) (hr : C.rely h s s') : p.wp C Φ h s' := by
  cases p with
  | done a => exact hΦ a h s s' hp hr
  | atomic l f k => exact fun t ht => hp t (hC.trans hr ht)
  | call q k => exact fun t ht => hp t (hC.trans hr ht)

namespace Pool

/-- A pool in which no process has anything to do. -/
def idle (s : σ) : Pool τ σ ι A := ⟨fun _ => .done ⟨⟩, fun _ => [], [], s⟩

/-- Every process keeps the contract from where it is, and finishes only with its `Φ`. -/
def Sound (C : Contract σ ι A) (P : Pool τ σ ι A ρ)
    (Φ : τ → ρ → History ι A → σ → Prop := fun _ _ _ _ => True) : Prop :=
  ∀ i, (P.prog i).wp C (Φ i) (P.hist i) P.state

theorem sound_idle (C : Contract σ ι A) (s : σ) : Sound C (idle s : Pool τ σ ι A) :=
  fun _ => trivial

section
variable [DecidableEq τ]

/-- Process `i` has taken the event `e`, with the rest `p` of its program. -/
def advance (P : Pool τ σ ι A ρ) (i : τ) (e : Event ι A) (p : Prog σ ι A ρ) (s : σ) :
    Pool τ σ ι A ρ :=
  ⟨Function.update P.prog i p, Function.update P.hist i (e :: P.hist i),
    .event i e :: P.trace, s⟩

/-- Process `i` has been started with the program `p`. -/
def restart (P : Pool τ σ ι A ρ) (i : τ) (p : Prog σ ι A ρ) : Pool τ σ ι A ρ :=
  ⟨Function.update P.prog i p, Function.update P.hist i [], .start i :: P.trace, P.state⟩

/-- One step of a pool, with the programs a process may be started with. -/
inductive Step (start : Prog σ ι A ρ → Prop) (P : Pool τ σ ι A ρ) :
    Act τ ι A → Pool τ σ ι A ρ → Prop
  | atomic {i : τ} {β : Type} {l : ι} {f : σ → β × σ} {k : β → Prog σ ι A ρ}
      (hi : P.prog i = .atomic l f k) :
      Step start P (.event i (.step l)) (P.advance i (.step l) (k (f P.state).1) (f P.state).2)
  | call {i : τ} {q : Q} {k : A q → Prog σ ι A ρ} (hi : P.prog i = .call q k) (a : A q) :
      Step start P (.event i (.call q a)) (P.advance i (.call q a) (k a) P.state)
  | start (i : τ) {p : Prog σ ι A ρ} (hp : start p) : Step start P (.start i) (P.restart i p)

/-- A run of a pool, all of whose steps meet the condition `ok`. -/
abbrev Run (start : Prog σ ι A ρ → Prop) (ok : Pool τ σ ι A ρ → Act τ ι A → Prop) :
    Pool τ σ ι A ρ → Pool τ σ ι A ρ → Prop := Runs (Step start) ok

variable {start : Prog σ ι A ρ → Prop} {ok : Pool τ σ ι A ρ → Act τ ι A → Prop}
  {P P' : Pool τ σ ι A ρ}

/-- The shared state after the next event of process `i`. -/
def after (P : Pool τ σ ι A ρ) (i : τ) : σ :=
  match P.prog i with
  | .atomic _ f _ => (f P.state).2
  | _ => P.state

omit [DecidableEq τ] in
theorem after_eq {i : τ} {β : Type} {l : ι} {f : σ → β × σ} {k : β → Prog σ ι A ρ}
    (hi : P.prog i = .atomic l f k) : P.after i = (f P.state).2 := by
  rw [after, hi]

theorem Step.state_eq_after {i : τ} {e : Event ι A} (hs : Step start P (.event i e) P') :
    P'.state = P.after i := by
  cases hs with
  | atomic hi => exact (after_eq hi).symm
  | call hi => rw [after, hi]; rfl

/-! ## Soundness of contracts -/

variable {C : Contract σ ι A} {I : σ → Prop} {Φ : τ → ρ → History ι A → σ → Prop}

/-- The other processes keep the contract when what process `i` did is something they rely on. -/
theorem Sound.update {i : τ} {p : Prog σ ι A ρ} {h : History ι A} {s : σ}
    {trace : List (Act τ ι A)} (hC : C.Stable I) (hΦ : ∀ i, C.Lasting (Φ i)) (hP : Sound C P Φ)
    (hi : p.wp C (Φ i) h s) (hj : ∀ j, j ≠ i → C.rely (P.hist j) P.state s) :
    Sound C ⟨Function.update P.prog i p, Function.update P.hist i h, trace, s⟩ Φ := by
  intro j
  by_cases hij : j = i
  · subst hij
    simpa using hi
  · simpa [Function.update_of_ne hij] using Prog.wp_rely hC (hΦ j) (hP j) (hj j hij)

/-- What a step of a sound pool does: an atomic step keeps the contract, a request meets its guard,
and the pool stays sound when the others rely on the step, the answer is one to be expected, or the
program started is sound. -/
theorem Sound.step_cases_post {act : Act τ ι A} (hC : C.Stable I) (hΦ : ∀ i, C.Lasting (Φ i))
    (hI : I P.state) (hP : Sound C P Φ) (hs : Step start P act P') :
    (∃ i l, act = .event i (.step l) ∧ P'.hist = Function.update P.hist i (.step l :: P.hist i) ∧
      C.step (P.hist i) l P.state P'.state ∧
      ((∀ j, j ≠ i → C.rely (P.hist j) P.state P'.state) → Sound C P' Φ)) ∨
    (∃ i q a, act = .event i (.call q a) ∧ P'.state = P.state ∧
      P'.hist = Function.update P.hist i (.call q a :: P.hist i) ∧ C.guard (P.hist i) q P.state ∧
      (C.ans (P.hist i) q P.state a → Sound C P' Φ)) ∨
    ∃ i p, act = .start i ∧ start p ∧ P'.state = P.state ∧ P'.hist = Function.update P.hist i [] ∧
      (p.wp C (Φ i) [] P.state → Sound C P' Φ) := by
  cases hs with
  | @atomic i β l f k hi =>
    have hw := hP i
    rw [hi] at hw
    have hw := hw P.state (hC.refl _ hI)
    exact .inl ⟨i, l, rfl, rfl, hw.1, fun hj => hP.update hC hΦ hw.2 hj⟩
  | @call i q k hi a =>
    have hw := hP i
    rw [hi] at hw
    have hw := hw P.state (hC.refl _ hI)
    exact .inr (.inl ⟨i, q, a, rfl, rfl, rfl, hw.1, fun ha =>
      hP.update hC hΦ (hw.2 a ha) fun _ _ => hC.refl _ hI⟩)
  | @start i p hp =>
    exact .inr (.inr ⟨i, p, rfl, hp, rfl, rfl, fun hw =>
      hP.update hC hΦ hw fun _ _ => hC.refl _ hI⟩)

omit [DecidableEq τ] in
/-- The processes keep the contract when something else changes the state in a way they rely on. -/
theorem Sound.disturbed (hC : C.Stable I) (hΦ : ∀ i, C.Lasting (Φ i)) (hP : Sound C P Φ) {s : σ}
    (hs : ∀ i, C.rely (P.hist i) P.state s) : Sound C { P with state := s } Φ :=
  fun i => Prog.wp_rely hC (hΦ i) (hP i) (hs i)

/-- `step_cases_post` where nobody waits for the results. -/
theorem Sound.step_cases {act : Act τ ι A} (hC : C.Stable I) (hI : I P.state) (hP : Sound C P)
    (hs : Step start P act P') :
    (∃ i l, act = .event i (.step l) ∧ P'.hist = Function.update P.hist i (.step l :: P.hist i) ∧
      C.step (P.hist i) l P.state P'.state ∧
      ((∀ j, j ≠ i → C.rely (P.hist j) P.state P'.state) → Sound C P')) ∨
    (∃ i q a, act = .event i (.call q a) ∧ P'.state = P.state ∧
      P'.hist = Function.update P.hist i (.call q a :: P.hist i) ∧ C.guard (P.hist i) q P.state ∧
      (C.ans (P.hist i) q P.state a → Sound C P')) ∨
    ∃ i p, act = .start i ∧ start p ∧ P'.state = P.state ∧ P'.hist = Function.update P.hist i [] ∧
      (p.wp C (fun _ _ _ => True) [] P.state → Sound C P') :=
  hP.step_cases_post hC (fun _ _ _ _ _ _ _ => trivial) hI hs

theorem Step.trace_eq {act : Act τ ι A} (hs : Step start P act P') :
    P'.trace = act :: P.trace := by
  cases hs <;> rfl

/-- A pool that may start more programs has all the runs. -/
theorem Run.mono_start {start' : Prog σ ι A ρ → Prop} (hstart : ∀ p, start p → start' p)
    (hrun : Run start ok P P') : Run start' ok P P' := by
  induction hrun with
  | refl => exact .refl
  | tail _ h ih =>
    obtain ⟨act, hok, hs⟩ := h
    refine ih.tail hok ?_
    cases hs with
    | atomic hi => exact .atomic hi
    | call hi a => exact .call hi a
    | start i hp => exact .start i (hstart _ hp)

/-! ## Histories -/

/-- The history of process `i` after an act of the pool. -/
def histAfter (i : τ) : Act τ ι A → History ι A → History ι A
  | .event j e, h => if j = i then e :: h else h
  | .start j, h => if j = i then [] else h

theorem Step.hist_eq {act : Act τ ι A} (hs : Step start P act P') (i : τ) :
    P'.hist i = histAfter i act (P.hist i) := by
  cases hs with
  | @atomic j _ l =>
    by_cases hj : j = i
    · subst hj
      simp [advance, histAfter]
    · simp [advance, histAfter, hj, Function.update_of_ne (Ne.symm hj)]
  | @call j q =>
    by_cases hj : j = i
    · subst hj
      simp [advance, histAfter]
    · simp [advance, histAfter, hj, Function.update_of_ne (Ne.symm hj)]
  | start j =>
    by_cases hj : j = i
    · subst hj
      simp [restart, histAfter]
    · simp [restart, histAfter, hj, Function.update_of_ne (Ne.symm hj)]

/-- What process `i` has done since its last start, by a trace from an idle pool. -/
def since (i : τ) : List (Act τ ι A) → History ι A
  | [] => []
  | act :: tr => histAfter i act (since i tr)

/-- What the processes of a pool have done, whoever did it. -/
def events : List (Act τ ι A) → History ι A
  | [] => []
  | .event _ e :: tr => e :: events tr
  | .start _ :: tr => events tr

omit [DecidableEq τ] in
theorem events_subset (act : Act τ ι A) (tr : List (Act τ ι A)) :
    events tr ⊆ events (act :: tr) := by
  cases act with
  | event i e => exact List.subset_cons_self _ _
  | start i => exact List.Subset.refl _

/-- What a process has done since its start is in the trace. -/
theorem Run.hist_subset {s₀ : σ} {p₀ : Prog σ ι A ρ}
    (hrun : Run start ok ⟨fun _ => p₀, fun _ => [], [], s₀⟩ P) (i : τ) :
    P.hist i ⊆ events P.trace := by
  induction hrun with
  | refl => exact List.nil_subset _
  | tail _ h ih =>
    obtain ⟨act, -, hs⟩ := h
    rw [hs.hist_eq, hs.trace_eq]
    cases act with
    | event j e =>
      by_cases hj : j = i
      · rw [histAfter, if_pos hj]
        exact List.cons_subset_cons _ ih
      · rw [histAfter, if_neg hj]
        exact List.subset_cons_of_subset _ ih
    | start j =>
      by_cases hj : j = i
      · rw [histAfter, if_pos hj]
        exact List.nil_subset _
      · rw [histAfter, if_neg hj]
        exact ih

/-- A run keeps a contract whose steps every process relies on. What a step keeps by what its
process has done, holds by what the pool has done. -/
theorem Run.sound {s₀ : σ} {J : History ι A → σ → Prop} {P : Pool τ σ ι A} {C : Contract σ ι A}
    {I : σ → Prop} {start : Prog σ ι A PUnit → Prop} {ok : Pool τ σ ι A → Act τ ι A → Prop}
    (hC : C.Stable I) (hkeep : ∀ {h l s s'}, C.step h l s s' → I s')
    (hrely : ∀ {h l s s'}, C.step h l s s' → ∀ h', C.rely h' s s')
    (hstart : ∀ {p}, start p → ∀ s, I s → p.wp C (fun _ _ _ => True) [] s)
    (hok : ∀ {P i q a}, ok P (.event i (.call q a)) → C.ans (P.hist i) q P.state a)
    (hmono : ∀ {h h' s}, h ⊆ h' → J h s → J h' s)
    (hJ : ∀ {h h' l s s'}, h ⊆ h' → C.step h l s s' → J h' s → J h' s')
    (hI : I s₀) (h₀ : J [] s₀) (hrun : Run start ok (.idle s₀) P) :
    Sound C P ∧ I P.state ∧ J (events P.trace) P.state := by
  induction hrun with
  | refl => exact ⟨sound_idle C s₀, hI, h₀⟩
  | @tail P P' hrun h ih =>
    obtain ⟨hP, hIP, hJP⟩ := ih
    obtain ⟨act, hact, hs⟩ := h
    have hJ' : J (events P'.trace) P.state := by
      rw [hs.trace_eq]
      exact hmono (events_subset act P.trace) hJP
    obtain ⟨i, l, rfl, -, hstep, hsound⟩ | ⟨i, q, a, rfl, hstate, -, -, hsound⟩ |
      ⟨i, p, rfl, hp, hstate, -, hsound⟩ := hP.step_cases hC hIP hs
    · refine ⟨hsound fun j _ => hrely hstep _, hkeep hstep, hJ ?_ hstep hJ'⟩
      rw [hs.trace_eq]
      exact fun e he => events_subset _ _ (Run.hist_subset hrun i he)
    · refine ⟨hsound (hok hact), hstate ▸ hIP, hstate ▸ hJ'⟩
    · exact ⟨hsound (hstart hp _ hIP), hstate ▸ hIP, hstate ▸ hJ'⟩

/-! ## Footprints -/

/-- What every step of a footprint keeps, a run of programs within it keeps, and the programs stay
within it. -/
theorem Run.within {R : ι → σ → σ → Prop} {I : σ → Prop}
    (hstart : ∀ {p}, start p → p.Within R) (hR : ∀ {l s s'}, R l s s' → I s → I s')
    (hP : ∀ i, (P.prog i).Within R) (hI : I P.state) (hrun : Run start ok P P') :
    (∀ i, (P'.prog i).Within R) ∧ I P'.state := by
  refine Runs.invariant (I := fun P => (∀ i, (P.prog i).Within R) ∧ I P.state) ?_ hrun ⟨hP, hI⟩
  rintro P act P' ⟨hP, hI⟩ - hs
  have hupdate {i : τ} {p : Prog σ ι A ρ} (hp : p.Within R) :
      ∀ j, (Function.update P.prog i p j).Within R := by
    intro j
    by_cases hj : j = i
    · subst hj
      simpa using hp
    · simpa [Function.update_of_ne hj] using hP j
  cases hs with
  | @atomic i β l f k hi =>
    have hw := hP i
    rw [hi] at hw
    exact ⟨hupdate (hw P.state).2, hR (hw P.state).1 hI⟩
  | @call i q k hi a =>
    have hw := hP i
    rw [hi] at hw
    exact ⟨hupdate (hw a), hI⟩
  | start i hp => exact ⟨hupdate (hstart hp), hI⟩

theorem Run.invariant_of_within {R : ι → σ → σ → Prop} {I : σ → Prop}
    (hstart : ∀ {p}, start p → p.Within R) (hR : ∀ {l s s'}, R l s s' → I s → I s')
    (hP : ∀ i, (P.prog i).Within R) (hI : I P.state) (hrun : Run start ok P P') : I P'.state :=
  (hrun.within hstart hR hP hI).2

/-! ## Scheduled runs -/

/-- The pool after process `i` has taken `n` events, or all it has left, with the answers of
`env`. -/
def go (env : Prog.Env ι A) (i : τ) : Nat → Pool τ σ ι A ρ → Pool τ σ ι A ρ
  | 0, P => P
  | n + 1, P =>
    match P.prog i with
    | .done _ => P
    | .atomic l f k => go env i n (P.advance i (.step l) (k (f P.state).1) (f P.state).2)
    | .call q k =>
      go env i n (P.advance i (.call q (env (P.hist i) q)) (k (env (P.hist i) q)) P.state)

/-- A schedule leads along a run of the pool, while something that meets the condition lasts. -/
theorem run_go {I : Pool τ σ ι A ρ → Prop} (env : Prog.Env ι A) (i : τ)
    (hadv : ∀ {P e p s}, I P → I (P.advance i e p s)) (hok : ∀ {P e}, I P → ok P (.event i e))
    (n : Nat) {P : Pool τ σ ι A ρ} (hP : I P) : Run start ok P (P.go env i n) := by
  induction n generalizing P with
  | zero => exact .refl
  | succ n ih =>
    unfold go
    split
    · exact .refl
    · next hi => exact (Runs.refl.tail (hok hP) (.atomic hi)).trans (ih (hadv hP))
    · next hi => exact (Runs.refl.tail (hok hP) (.call hi _)).trans (ih (hadv hP))

/-- The steps of a schedule, each with the pool it is taken from. -/
def scheduled (env : Prog.Env ι A) (i : τ) : Nat → Pool τ σ ι A ρ → List (Pool τ σ ι A ρ × Act τ ι A)
  | 0, _ => []
  | n + 1, P =>
    match P.prog i with
    | .done _ => []
    | .atomic l f k =>
      (P, .event i (.step l)) ::
        scheduled env i n (P.advance i (.step l) (k (f P.state).1) (f P.state).2)
    | .call q k =>
      let a := env (P.hist i) q
      (P, .event i (.call q a)) :: scheduled env i n (P.advance i (.call q a) (k a) P.state)

/-- A schedule all of whose steps meet the condition is a run. -/
theorem run_go_of_scheduled (env : Prog.Env ι A) (i : τ) (n : Nat) {P : Pool τ σ ι A ρ}
    (hok : ∀ x ∈ P.scheduled env i n, ok x.1 x.2) : Run start ok P (P.go env i n) := by
  induction n generalizing P with
  | zero => exact .refl
  | succ n ih =>
    unfold scheduled at hok
    unfold go
    split at hok
    · exact .refl
    · next hi =>
      obtain ⟨h, hrest⟩ := List.forall_mem_cons.1 hok
      exact (Runs.refl.tail h (.atomic hi)).trans (ih hrest)
    · next hi =>
      obtain ⟨h, hrest⟩ := List.forall_mem_cons.1 hok
      exact (Runs.refl.tail h (.call hi _)).trans (ih hrest)

/-- Every answer in the history is the one `env` gives. -/
def Answered (env : Prog.Env ι A) : History ι A → Prop
  | [] => True
  | .step _ :: h => Answered env h
  | .call q a :: h => a = env h q ∧ Answered env h

/-- A schedule leads along a run of the pool, when the answers of `env` are admitted. -/
theorem run_go_answered (env : Prog.Env ι A) (i : τ) (hstep : ∀ P l, ok P (.event i (.step l)))
    (hcall : ∀ P q, Answered env (P.hist i) → ok P (.event i (.call q (env (P.hist i) q))))
    (n : Nat) {P : Pool τ σ ι A ρ} (hP : Answered env (P.hist i)) :
    Run start ok P (P.go env i n) := by
  induction n generalizing P with
  | zero => exact .refl
  | succ n ih =>
    have hadvance {e p s} (he : Answered env (e :: P.hist i)) :
        Answered env ((P.advance i e p s).hist i) := by
      simpa only [advance, Function.update_self] using he
    unfold go
    split
    · exact .refl
    · next hi => exact (Runs.refl.tail (hstep P _) (.atomic hi)).trans (ih (hadvance hP))
    · next hi =>
      exact (Runs.refl.tail (hcall P _ hP) (.call hi _)).trans (ih (hadvance ⟨rfl, hP⟩))

/-- Without a condition, every schedule is a run. -/
theorem run_go_any (env : Prog.Env ι A) (i : τ) (n : Nat) (P : Pool τ σ ι A ρ) :
    Run start (fun _ _ => True) P (P.go env i n) :=
  run_go (I := fun _ => True) env i (fun h => h) (fun _ => trivial) n trivial

theorem run_restart (i : τ) {p : Prog σ ι A ρ} (hp : start p) {P : Pool τ σ ι A ρ}
    (hok : ok P (.start i)) : Run start ok P (P.restart i p) := Runs.refl.tail hok (.start i hp)

end
end Pool
end Lib
