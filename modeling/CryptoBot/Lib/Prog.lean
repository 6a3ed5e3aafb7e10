import Mathlib.Order.Defs.PartialOrder
import Mathlib.Tactic.Common

/-!
# Programs over a shared store

A program of one process alternates atomic steps on a shared state `σ` with calls to its
environment. An atomic step carries a label, a call carries its request and is answered by the
environment; the list of both is the history of the run, newest event first.

Two readings of a program are given here. `Prog.run` runs it alone against an environment that
answers from the history (`Env`). `Prog.wp` is the weakest precondition of a program under a
`Contract`, which says how the shared state may change between the program's own events, which
answers are to be expected, and what the program owes at every step and call. `Prog.Within` bounds
what the atomic steps of a program do whatever happens, and `Prog.wp_of_within` reads off what such
a program preserves. Several programs at once are the subject of `Lib.Pool`.
-/

namespace Lib

variable {σ ι Q ε α β : Type} {A : Q → Type}

/-- What a run has done so far: a labelled atomic step, or a request with its answer. -/
inductive Event (ι : Type) {Q : Type} (A : Q → Type) : Type
  | step (l : ι)
  | call (q : Q) (a : A q)

/-- The events of a run, newest first. -/
abbrev History (ι : Type) {Q : Type} (A : Q → Type) : Type := List (Event ι A)

/-- A program: finished with a value, about to take an atomic step on the shared state, or waiting
for the answer to a request. -/
inductive Prog (σ ι : Type) {Q : Type} (A : Q → Type) (α : Type) : Type 1
  | done (a : α)
  | atomic {β : Type} (l : ι) (f : σ → β × σ) (k : β → Prog σ ι A α)
  | call (q : Q) (k : A q → Prog σ ι A α)

namespace Prog

/-- Sequencing: `g` takes over where the first program finishes. -/
def bind : Prog σ ι A α → (α → Prog σ ι A β) → Prog σ ι A β
  | .done a, g => g a
  | .atomic l f k, g => .atomic l f fun b => (k b).bind g
  | .call q k, g => .call q fun a => (k a).bind g

instance : Monad (Prog σ ι A) where
  pure := .done
  bind := bind

/-- One atomic step. -/
def step (l : ι) (f : σ → α × σ) : Prog σ ι A α := .atomic l f .done

/-- One request to the environment. -/
def ask (q : Q) : Prog σ ι A (A q) := .call q .done

/-- Whether nothing is left of the program. -/
def isDone : Prog σ ι A α → Bool
  | .done _ => true
  | _ => false

theorem exists_of_isDone {p : Prog σ ι A α} (hp : p.isDone) : ∃ a, p = .done a := by
  cases p with
  | done a => exact ⟨a, rfl⟩
  | atomic => cases hp
  | call => cases hp

/-- The value of a finished program. -/
def result? : Prog σ ι A α → Option α
  | .done a => some a
  | _ => none

theorem eq_done_of_result? {p : Prog σ ι A α} {a : α} (hp : p.result? = some a) : p = .done a := by
  cases p with
  | done b => exact congrArg _ (Option.some.inj hp)
  | atomic => cases hp
  | call => cases hp

/-! ## Running alone -/

/-- An environment answers every request from the history of the run. -/
abbrev Env (ι : Type) {Q : Type} (A : Q → Type) : Type := History ι A → (q : Q) → A q

/-- The run of a program alone: its value, its history and the final state. -/
def run (env : Env ι A) : Prog σ ι A α → History ι A → σ → α × History ι A × σ
  | .done a, h, s => (a, h, s)
  | .atomic l f k, h, s => run env (k (f s).1) (.step l :: h) (f s).2
  | .call q k, h, s => run env (k (env h q)) (.call q (env h q) :: h) s

end Prog

/-! ## Contracts and weakest preconditions -/

/-- The terms a program runs under. `rely` and `ans` are what its environment may do; `step` and
`guard` are what the program owes at an atomic step and at a request. -/
structure Contract (σ ι : Type) {Q : Type} (A : Q → Type) where
  rely : History ι A → σ → σ → Prop
  ans : History ι A → (q : Q) → σ → A q → Prop
  step : History ι A → ι → σ → σ → Prop
  guard : History ι A → Q → σ → Prop

/-- The contract of a program that runs undisturbed and owes nothing. -/
def Contract.alone (ans : History ι A → (q : Q) → σ → A q → Prop) : Contract σ ι A where
  rely _ s s' := s' = s
  ans := ans
  step _ _ _ _ := True
  guard _ _ _ := True

namespace Prog

/-- The weakest precondition: from history `h` and state `s` the program keeps its contract, and
finishes only with `Φ`. Interference is admitted before every event. -/
def wp (C : Contract σ ι A) :
    Prog σ ι A α → (α → History ι A → σ → Prop) → History ι A → σ → Prop
  | .done a, Φ, h, s => Φ a h s
  | .atomic l f k, Φ, h, s => ∀ s', C.rely h s s' →
      C.step h l s' (f s').2 ∧ wp C (k (f s').1) Φ (.step l :: h) (f s').2
  | .call q k, Φ, h, s => ∀ s', C.rely h s s' →
      C.guard h q s' ∧ ∀ a, C.ans h q s' a → wp C (k a) Φ (.call q a :: h) s'

variable {C : Contract σ ι A}

@[simp] theorem wp_pure (a : α) (Φ : α → History ι A → σ → Prop) (h : History ι A) (s : σ) :
    wp C (pure a) Φ h s ↔ Φ a h s := Iff.rfl

/-- The precondition of a sequence is the first program's precondition for the second's. -/
@[simp] theorem wp_bind (p : Prog σ ι A α) (g : α → Prog σ ι A β)
    (Φ : β → History ι A → σ → Prop) (h : History ι A) (s : σ) :
    wp C (p >>= g) Φ h s ↔ wp C p (fun a h s => wp C (g a) Φ h s) h s := by
  induction p generalizing h s with
  | done a => exact Iff.rfl
  | atomic l f k ih =>
    refine forall_congr' fun s' => imp_congr_right fun _ => and_congr_right fun _ => ?_
    exact ih _ _ _
  | call q k ih =>
    refine forall_congr' fun s' => imp_congr_right fun _ => and_congr_right fun _ => ?_
    exact forall_congr' fun a => imp_congr_right fun _ => ih _ _ _

@[simp] theorem wp_step (l : ι) (f : σ → α × σ) (Φ : α → History ι A → σ → Prop)
    (h : History ι A) (s : σ) :
    wp C (step l f) Φ h s ↔ ∀ s', C.rely h s s' →
      C.step h l s' (f s').2 ∧ Φ (f s').1 (.step l :: h) (f s').2 := Iff.rfl

@[simp] theorem wp_ask (q : Q) (Φ : A q → History ι A → σ → Prop) (h : History ι A) (s : σ) :
    wp C (ask q) Φ h s ↔ ∀ s', C.rely h s s' →
      C.guard h q s' ∧ ∀ a, C.ans h q s' a → Φ a (.call q a :: h) s' := Iff.rfl

/-- A weaker postcondition has a weaker precondition. -/
theorem wp_mono {Φ Ψ : α → History ι A → σ → Prop} (hΦ : ∀ a h s, Φ a h s → Ψ a h s) :
    ∀ {p : Prog σ ι A α} {h : History ι A} {s : σ}, wp C p Φ h s → wp C p Ψ h s
  | .done a, h, s, hp => hΦ a h s hp
  | .atomic .., _, _, hp => fun s' hr => ⟨(hp s' hr).1, wp_mono hΦ (hp s' hr).2⟩
  | .call .., _, _, hp => fun s' hr =>
      ⟨(hp s' hr).1, fun a ha => wp_mono hΦ ((hp s' hr).2 a ha)⟩

/-- Two postconditions hold together. -/
theorem wp_and {Φ Ψ : α → History ι A → σ → Prop} :
    ∀ {p : Prog σ ι A α} {h : History ι A} {s : σ}, wp C p Φ h s → wp C p Ψ h s →
      wp C p (fun a h s => Φ a h s ∧ Ψ a h s) h s
  | .done _, _, _, hΦ, hΨ => ⟨hΦ, hΨ⟩
  | .atomic .., _, _, hΦ, hΨ => fun s' hr => ⟨(hΦ s' hr).1, wp_and (hΦ s' hr).2 (hΨ s' hr).2⟩
  | .call .., _, _, hΦ, hΨ => fun s' hr =>
      ⟨(hΦ s' hr).1, fun a ha => wp_and ((hΦ s' hr).2 a ha) ((hΨ s' hr).2 a ha)⟩

/-- The frame rule: what interference and the program's own steps keep, holds where it finishes. -/
theorem wp_frame {K : σ → Prop} (hrely : ∀ h s s', K s → C.rely h s s' → K s')
    (hstep : ∀ h l s s', K s → C.step h l s s' → K s') {Φ : α → History ι A → σ → Prop} :
    ∀ {p : Prog σ ι A α} {h : History ι A} {s : σ}, wp C p Φ h s → K s →
      wp C p (fun a h s => Φ a h s ∧ K s) h s
  | .done _, _, _, hp, hK => ⟨hp, hK⟩
  | .atomic .., h, s, hp, hK => fun s' hr =>
      have hK' := hrely h s s' hK hr
      ⟨(hp s' hr).1, wp_frame hrely hstep (hp s' hr).2 (hstep h _ s' _ hK' (hp s' hr).1)⟩
  | .call .., h, s, hp, hK => fun s' hr =>
      ⟨(hp s' hr).1, fun a ha => wp_frame hrely hstep ((hp s' hr).2 a ha) (hrely h s s' hK hr)⟩

/-- A program that keeps its contract, run alone from where `I` holds. -/
theorem run_of_wp_rely {I : σ → Prop} {Φ : α → History ι A → σ → Prop} (env : Env ι A)
    {p : Prog σ ι A α} {h : History ι A} {s : σ} (hrefl : ∀ h {s}, I s → C.rely h s s)
    (hkeep : ∀ {h l s s'}, C.step h l s s' → I s')
    (henv : ∀ h q s, C.ans h q s (env h q)) (hI : I s) (hp : wp C p Φ h s) :
    Φ (run env p h s).1 (run env p h s).2.1 (run env p h s).2.2 ∧ I (run env p h s).2.2 := by
  induction p generalizing h s with
  | done a => exact ⟨hp, hI⟩
  | atomic l f k ih =>
    have hs := hp s (hrefl h hI)
    exact ih _ (hkeep hs.1) hs.2
  | call q k ih => exact ih _ hI ((hp s (hrefl h hI)).2 _ (henv h q s))

/-- A program that runs alone against the environment `env` finishes exactly as `run` says. -/
theorem wp_run_iff (env : Env ι A) (p : Prog σ ι A α) (Φ : α → History ι A → σ → Prop)
    (h : History ι A) (s : σ) :
    wp (.alone fun h q _ a => a = env h q) p Φ h s ↔
      Φ (run env p h s).1 (run env p h s).2.1 (run env p h s).2.2 := by
  induction p generalizing h s with
  | done a => exact Iff.rfl
  | atomic l f k ih => simp [wp, run, Contract.alone, ← ih]
  | call q k ih => simp [wp, run, Contract.alone, ← ih]

/-- What holds of every run alone, whatever the answers, holds of the run against `env`. -/
theorem run_of_wp {Φ : α → History ι A → σ → Prop} {env : Env ι A} {p : Prog σ ι A α}
    {ans : History ι A → (q : Q) → σ → A q → Prop} {h : History ι A} {s : σ}
    (henv : ∀ h q s, ans h q s (env h q)) (hp : wp (.alone ans) p Φ h s) :
    Φ (run env p h s).1 (run env p h s).2.1 (run env p h s).2.2 := by
  induction p generalizing h s with
  | done a => exact hp
  | atomic l f k ih => exact ih _ (hp s rfl).2
  | call q k ih => exact ih _ ((hp s rfl).2 _ (henv h q s))

/-! ## Footprints -/

/-- Every atomic step of the program is one that `R` allows, from whatever state it is taken. -/
def Within (R : ι → σ → σ → Prop) : Prog σ ι A α → Prop
  | .done _ => True
  | .atomic l f k => ∀ s, R l s (f s).2 ∧ Within R (k (f s).1)
  | .call _ k => ∀ a, Within R (k a)

variable {R R' : ι → σ → σ → Prop}

theorem Within.bind {p : Prog σ ι A α} {g : α → Prog σ ι A β} (hp : p.Within R)
    (hg : ∀ a, (g a).Within R) : (p >>= g).Within R := by
  induction p with
  | done a => exact hg a
  | atomic l f k ih => exact fun s => ⟨(hp s).1, ih _ (hp s).2⟩
  | call q k ih => exact fun a => ih _ (hp a)

theorem Within.mono (hR : ∀ l s s', R l s s' → R' l s s') :
    ∀ {p : Prog σ ι A α}, p.Within R → p.Within R'
  | .done _, _ => trivial
  | .atomic .., hp => fun s => ⟨hR _ _ _ (hp s).1, (hp s).2.mono hR⟩
  | .call .., hp => fun a => (hp a).mono hR

/-- A program within two footprints is within both at once. -/
theorem Within.and : ∀ {p : Prog σ ι A α}, p.Within R → p.Within R' →
    p.Within fun l s s' => R l s s' ∧ R' l s s'
  | .done _, _, _ => trivial
  | .atomic .., hp, hp' => fun s => ⟨⟨(hp s).1, (hp' s).1⟩, (hp s).2.and (hp' s).2⟩
  | .call .., hp, hp' => fun a => (hp a).and (hp' a)

/-- What the steps of a footprint and the answers preserve, after whatever interference, holds
wherever a program within that footprint finishes. -/
theorem wp_of_within {I : History ι A → σ → Prop}
    (hrely : ∀ {h s s'}, I h s → C.rely h s s' → I h s')
    (hstep : ∀ {h l s₀ s s'}, C.rely h s₀ s → I h s → R l s s' →
      C.step h l s s' ∧ I (.step l :: h) s')
    (hcall : ∀ {h q s₀ s}, C.rely h s₀ s → I h s →
      C.guard h q s ∧ ∀ a, C.ans h q s a → I (.call q a :: h) s) :
    ∀ {p : Prog σ ι A α} {h : History ι A} {s : σ}, p.Within R → I h s →
      wp C p (fun _ h s => I h s) h s
  | .done _, _, _, _, hI => hI
  | .atomic .., _, _, hp, hI => fun s' hr =>
      have hs := hstep hr (hrely hI hr) (hp s').1
      ⟨hs.1, wp_of_within hrely hstep hcall (hp s').2 hs.2⟩
  | .call .., _, _, hp, hI => fun _ hr =>
      have hc := hcall hr (hrely hI hr)
      ⟨hc.1, fun a ha => wp_of_within hrely hstep hcall (hp a) (hc.2 a ha)⟩

end Prog

/-! ## Programs with exceptions -/

/-- A program that may raise. -/
abbrev Proc (σ ι : Type) {Q : Type} (A : Q → Type) (ε α : Type) : Type 1 :=
  ExceptT ε (Prog σ ι A) α

namespace Proc

variable {C : Contract σ ι A}

/-- The weakest precondition of a program that may raise; the postcondition sees the outcome. -/
def wp (C : Contract σ ι A) (p : Proc σ ι A ε α)
    (Φ : Except ε α → History ι A → σ → Prop) (h : History ι A) (s : σ) : Prop :=
  Prog.wp C p.run Φ h s

/-- One atomic step that may raise; a step that raises leaves the state to `f`. -/
def step (l : ι) (f : σ → Except ε α × σ) : Proc σ ι A ε α := ExceptT.mk (Prog.step l f)

/-- Runs a program and hands its outcome over as a value, as a handler of every exception does. -/
def attempt (p : Proc σ ι A ε α) : Proc σ ι A ε (Except ε α) :=
  ExceptT.mk (Prog.bind p.run fun r => .done (.ok r))

/-- A request whose answer is a value or an exception. -/
def ask (q : Q) (get : A q → Except ε α) : Proc σ ι A ε α :=
  ExceptT.mk (Prog.bind (Prog.ask q) fun a => .done (get a))

@[simp] theorem wp_pure (a : α) (Φ : Except ε α → History ι A → σ → Prop) (h : History ι A)
    (s : σ) : wp C (pure a) Φ h s ↔ Φ (.ok a) h s := Iff.rfl

@[simp] theorem wp_throw (e : ε) (Φ : Except ε α → History ι A → σ → Prop) (h : History ι A)
    (s : σ) : wp C (throw e) Φ h s ↔ Φ (.error e) h s := Iff.rfl

@[simp] theorem wp_bind (p : Proc σ ι A ε α) (g : α → Proc σ ι A ε β)
    (Φ : Except ε β → History ι A → σ → Prop) (h : History ι A) (s : σ) :
    wp C (p >>= g) Φ h s ↔ wp C p (fun
      | .ok a => wp C (g a) Φ
      | .error e => Φ (.error e)) h s := by
  refine (Prog.wp_bind _ _ Φ h s).trans (iff_of_eq ?_)
  refine congrArg (fun Ψ => Prog.wp C p.run Ψ h s) (funext fun r => ?_)
  cases r <;> rfl

@[simp] theorem wp_attempt (p : Proc σ ι A ε α)
    (Φ : Except ε (Except ε α) → History ι A → σ → Prop) (h : History ι A) (s : σ) :
    wp C p.attempt Φ h s ↔ wp C p (fun r => Φ (.ok r)) h s := Prog.wp_bind _ _ Φ h s

@[simp] theorem wp_step (l : ι) (f : σ → Except ε α × σ)
    (Φ : Except ε α → History ι A → σ → Prop) (h : History ι A) (s : σ) :
    wp C (step l f) Φ h s ↔ ∀ s', C.rely h s s' →
      C.step h l s' (f s').2 ∧ Φ (f s').1 (.step l :: h) (f s').2 := Iff.rfl

@[simp] theorem wp_ask (q : Q) (get : A q → Except ε α)
    (Φ : Except ε α → History ι A → σ → Prop) (h : History ι A) (s : σ) :
    wp C (ask q get) Φ h s ↔ ∀ s', C.rely h s s' →
      C.guard h q s' ∧ ∀ a, C.ans h q s' a → Φ (get a) (.call q a :: h) s' := Iff.rfl

@[simp] theorem wp_ite (c : Prop) [Decidable c] (p p' : Proc σ ι A ε α)
    (Φ : Except ε α → History ι A → σ → Prop) (h : History ι A) (s : σ) :
    wp C (if c then p else p') Φ h s ↔ if c then wp C p Φ h s else wp C p' Φ h s := by
  split <;> rfl

theorem wp_mono {Φ Ψ : Except ε α → History ι A → σ → Prop} {p : Proc σ ι A ε α}
    {h : History ι A} {s : σ} (hp : wp C p Φ h s) (hΦ : ∀ r h s, Φ r h s → Ψ r h s) :
    wp C p Ψ h s := Prog.wp_mono hΦ hp

/-- The loop rule: `I` holds before every element, of the elements still to come. -/
theorem wp_forM {f : β → Proc σ ι A ε PUnit} {Φ : Except ε PUnit → History ι A → σ → Prop}
    (I : List β → History ι A → σ → Prop)
    (hstep : ∀ b bs h s, I (b :: bs) h s → wp C (f b) (fun
      | .ok _ => I bs
      | .error e => Φ (.error e)) h s)
    (hdone : ∀ h s, I [] h s → Φ (.ok ⟨⟩) h s) :
    ∀ (bs : List β) (h : History ι A) (s : σ), I bs h s → wp C (bs.forM f) Φ h s
  | [], h, s, hI => hdone h s hI
  | b :: bs, h, s, hI => by
    refine (wp_bind _ _ _ _ _).2 (wp_mono (hstep b bs h s hI) fun r h s hr => ?_)
    cases r with
    | ok _ => exact wp_forM I hstep hdone bs h s hr
    | error e => exact hr

/-- Every atomic step of the program is one that `R` allows. -/
def Within (R : ι → σ → σ → Prop) (p : Proc σ ι A ε α) : Prop := Prog.Within R p.run

variable {R : ι → σ → σ → Prop}

@[simp] theorem within_pure (a : α) : Within R (pure a : Proc σ ι A ε α) := trivial

@[simp] theorem within_throw (e : ε) : Within R (throw e : Proc σ ι A ε α) := trivial

@[simp] theorem within_ask (q : Q) (get : A q → Except ε α) :
    Within R (ask q get : Proc σ ι A ε α) := fun _ => trivial

theorem within_step {l : ι} {f : σ → Except ε α × σ} (hf : ∀ s, R l s (f s).2) :
    Within R (step l f : Proc σ ι A ε α) := fun s => ⟨hf s, trivial⟩

theorem Within.bind {p : Proc σ ι A ε α} {g : α → Proc σ ι A ε β} (hp : p.Within R)
    (hg : ∀ a, (g a).Within R) : (p >>= g).Within R := by
  refine Prog.Within.bind hp fun r => ?_
  cases r with
  | ok a => exact hg a
  | error e => exact trivial

theorem Within.attempt {p : Proc σ ι A ε α} (hp : p.Within R) : p.attempt.Within R :=
  Prog.Within.bind hp fun _ => trivial

theorem Within.ite {c : Prop} [Decidable c] {p p' : Proc σ ι A ε α} (hp : p.Within R)
    (hp' : p'.Within R) : (if c then p else p').Within R := by
  split <;> assumption

theorem Within.forM {f : β → Proc σ ι A ε PUnit} (hf : ∀ b, (f b).Within R) :
    ∀ bs : List β, (bs.forM f).Within R
  | [] => trivial
  | b :: bs => (hf b).bind fun _ => Within.forM hf bs

/-- `Prog.wp_of_within` for a program that may raise. -/
theorem wp_of_within {I : History ι A → σ → Prop} {p : Proc σ ι A ε α} {h : History ι A} {s : σ}
    (hp : p.Within R) (hI : I h s) (hrely : ∀ {h s s'}, I h s → C.rely h s s' → I h s')
    (hstep : ∀ {h l s₀ s s'}, C.rely h s₀ s → I h s → R l s s' →
      C.step h l s s' ∧ I (.step l :: h) s')
    (hcall : ∀ {h q s₀ s}, C.rely h s₀ s → I h s →
      C.guard h q s ∧ ∀ a, C.ans h q s a → I (.call q a :: h) s) :
    wp C p (fun _ h s => I h s) h s := Prog.wp_of_within hrely hstep hcall hp hI

/-! ### Programs that keep an invariant -/

/-- From wherever `I` holds the program keeps the contract, and `I` holds where it finishes, with a
value or an exception. -/
def Keeps (C : Contract σ ι A) (I : History ι A → σ → Prop) (p : Proc σ ι A ε α) : Prop :=
  ∀ h s, I h s → wp C p (fun _ h s => I h s) h s

section
variable {I : History ι A → σ → Prop}

theorem keeps_pure (a : α) : Keeps C I (pure a : Proc σ ι A ε α) := fun _ _ hI => hI

theorem keeps_throw (e : ε) : Keeps C I (throw e : Proc σ ι A ε α) := fun _ _ hI => hI

theorem Keeps.bind {p : Proc σ ι A ε α} {g : α → Proc σ ι A ε β} (hp : p.Keeps C I)
    (hg : ∀ a, (g a).Keeps C I) : (p >>= g).Keeps C I := by
  refine fun h s hI => (wp_bind p g _ h s).2 (wp_mono (hp h s hI) fun r h s hI => ?_)
  cases r with
  | ok a => exact hg a h s hI
  | error e => exact hI

theorem Keeps.ite {c : Prop} [Decidable c] {p p' : Proc σ ι A ε α} (hp : p.Keeps C I)
    (hp' : p'.Keeps C I) : (if c then p else p').Keeps C I := by
  split <;> assumption

theorem Keeps.attempt {p : Proc σ ι A ε α} (hp : p.Keeps C I) : p.attempt.Keeps C I :=
  fun h s hI => (wp_attempt p _ h s).2 (hp h s hI)

theorem Keeps.forM {f : β → Proc σ ι A ε PUnit} (hf : ∀ b, (f b).Keeps C I) :
    ∀ bs : List β, (bs.forM f).Keeps C I
  | [] => keeps_pure _
  | b :: bs => (hf b).bind fun _ => Keeps.forM hf bs

/-- A program whose footprint keeps the contract and the invariant. -/
theorem keeps_of_within {p : Proc σ ι A ε α} (hp : p.Within R)
    (hrely : ∀ {h s s'}, I h s → C.rely h s s' → I h s')
    (hstep : ∀ {h l s₀ s s'}, C.rely h s₀ s → I h s → R l s s' →
      C.step h l s s' ∧ I (.step l :: h) s')
    (hcall : ∀ {h q s₀ s}, C.rely h s₀ s → I h s →
      C.guard h q s ∧ ∀ a, C.ans h q s a → I (.call q a :: h) s) :
    p.Keeps C I := fun _ _ hI => wp_of_within hp hI hrely hstep hcall

end

/-- The program keeps the contract from everywhere. -/
abbrev Safe (C : Contract σ ι A) (p : Proc σ ι A ε α) : Prop := Keeps C (fun _ _ => True) p

/-- A program whose footprint keeps the contract, where nothing is owed at a request. -/
theorem safe_of_within {p : Proc σ ι A ε α} (hp : p.Within R)
    (hstep : ∀ {h l s₀ s s'}, C.rely h s₀ s → R l s s' → C.step h l s s')
    (hguard : ∀ h q s, C.guard h q s) : p.Safe C :=
  keeps_of_within hp (fun _ _ => trivial) (fun hr _ hR => ⟨hstep hr hR, trivial⟩)
    fun _ _ => ⟨hguard _ _ _, fun _ _ => trivial⟩

end Proc

/-! ## Programs with locals -/

/-- A program that may raise, with local variables `τ` that keep what was assigned before an
exception. -/
abbrev LProc (σ ι : Type) {Q : Type} (A : Q → Type) (ε τ α : Type) : Type 1 :=
  ExceptT ε (StateT τ (Prog σ ι A)) α

namespace LProc

variable {τ : Type} {C : Contract σ ι A}

/-- The weakest precondition of a program with locals `t`; the postcondition sees the outcome and
the locals at the end. -/
def wp (C : Contract σ ι A) (p : LProc σ ι A ε τ α)
    (Φ : Except ε α → τ → History ι A → σ → Prop) (t : τ) (h : History ι A) (s : σ) : Prop :=
  Prog.wp C (p.run.run t) (fun r => Φ r.1 r.2) h s

/-- A program without locals, run in one that has some. -/
def exec (p : Proc σ ι A ε α) : LProc σ ι A ε τ α :=
  ExceptT.mk fun t => Prog.bind p.run fun r => .done (r, t)

/-- An assignment to the locals. -/
def assign (f : τ → τ) : LProc σ ι A ε τ PUnit :=
  ExceptT.mk fun t => .done (.ok ⟨⟩, f t)

/-- The outcome of a program and its locals, for a program that goes on without them. -/
def outcome (p : LProc σ ι A ε τ α) (t : τ) : Proc σ ι A ε (Except ε α × τ) :=
  ExceptT.mk (Prog.bind (p.run.run t) fun r => .done (.ok r))

@[simp] theorem wp_pure (a : α) (Φ : Except ε α → τ → History ι A → σ → Prop) (t : τ)
    (h : History ι A) (s : σ) : wp C (pure a) Φ t h s ↔ Φ (.ok a) t h s := Iff.rfl

@[simp] theorem wp_throw (e : ε) (Φ : Except ε α → τ → History ι A → σ → Prop) (t : τ)
    (h : History ι A) (s : σ) : wp C (throw e) Φ t h s ↔ Φ (.error e) t h s := Iff.rfl

@[simp] theorem wp_assign (f : τ → τ) (Φ : Except ε PUnit → τ → History ι A → σ → Prop) (t : τ)
    (h : History ι A) (s : σ) : wp C (assign f) Φ t h s ↔ Φ (.ok ⟨⟩) (f t) h s := Iff.rfl

@[simp] theorem wp_exec (p : Proc σ ι A ε α) (Φ : Except ε α → τ → History ι A → σ → Prop) (t : τ)
    (h : History ι A) (s : σ) :
    wp C (exec p) Φ t h s ↔ Proc.wp C p (fun r => Φ r t) h s := Prog.wp_bind _ _ _ h s

@[simp] theorem wp_bind (p : LProc σ ι A ε τ α) (g : α → LProc σ ι A ε τ β)
    (Φ : Except ε β → τ → History ι A → σ → Prop) (t : τ) (h : History ι A) (s : σ) :
    wp C (p >>= g) Φ t h s ↔ wp C p (fun
      | .ok a => wp C (g a) Φ
      | .error e => Φ (.error e)) t h s := by
  refine (Prog.wp_bind _ _ _ h s).trans (iff_of_eq ?_)
  refine congrArg (fun Ψ => Prog.wp C (p.run.run t) Ψ h s) (funext fun r => ?_)
  obtain ⟨_ | _, _⟩ := r <;> rfl

@[simp] theorem wp_outcome (p : LProc σ ι A ε τ α) (t : τ)
    (Φ : Except ε (Except ε α × τ) → History ι A → σ → Prop) (h : History ι A) (s : σ) :
    Proc.wp C (outcome p t) Φ h s ↔ wp C p (fun r t => Φ (.ok (r, t))) t h s :=
  Prog.wp_bind _ _ Φ h s

@[simp] theorem wp_ite (c : Prop) [Decidable c] (p p' : LProc σ ι A ε τ α)
    (Φ : Except ε α → τ → History ι A → σ → Prop) (t : τ) (h : History ι A) (s : σ) :
    wp C (if c then p else p') Φ t h s ↔ if c then wp C p Φ t h s else wp C p' Φ t h s := by
  split <;> rfl

theorem wp_mono {Φ Ψ : Except ε α → τ → History ι A → σ → Prop} {p : LProc σ ι A ε τ α} {t : τ}
    {h : History ι A} {s : σ} (hp : wp C p Φ t h s) (hΦ : ∀ r t h s, Φ r t h s → Ψ r t h s) :
    wp C p Ψ t h s :=
  Prog.wp_mono (p := p.run.run t) (fun r : Except ε α × τ => hΦ r.1 r.2) hp

/-- The loop rule for a body with locals. -/
theorem wp_forM {f : β → LProc σ ι A ε τ PUnit}
    {Φ : Except ε PUnit → τ → History ι A → σ → Prop}
    (I : List β → τ → History ι A → σ → Prop)
    (hstep : ∀ b bs t h s, I (b :: bs) t h s → wp C (f b) (fun
      | .ok _ => I bs
      | .error e => Φ (.error e)) t h s)
    (hdone : ∀ t h s, I [] t h s → Φ (.ok ⟨⟩) t h s) :
    ∀ (bs : List β) (t : τ) (h : History ι A) (s : σ), I bs t h s → wp C (bs.forM f) Φ t h s
  | [], t, h, s, hI => hdone t h s hI
  | b :: bs, t, h, s, hI => by
    refine (wp_bind _ _ _ _ _ _).2 (wp_mono (hstep b bs t h s hI) fun r t h s hr => ?_)
    cases r with
    | ok _ => exact wp_forM I hstep hdone bs t h s hr
    | error e => exact hr

/-- Every atomic step of the program is one that `R` allows, whatever the locals. -/
def Within (R : ι → σ → σ → Prop) (p : LProc σ ι A ε τ α) : Prop :=
  ∀ t, Prog.Within R (p.run.run t)

variable {R : ι → σ → σ → Prop}

@[simp] theorem within_pure (a : α) : Within R (pure a : LProc σ ι A ε τ α) := fun _ => trivial

@[simp] theorem within_throw (e : ε) : Within R (throw e : LProc σ ι A ε τ α) := fun _ => trivial

@[simp] theorem within_assign (f : τ → τ) :
    Within R (assign f : LProc σ ι A ε τ PUnit) := fun _ => trivial

theorem within_exec {p : Proc σ ι A ε α} (hp : p.Within R) :
    Within R (exec p : LProc σ ι A ε τ α) := fun _ => Prog.Within.bind hp fun _ => trivial

theorem Within.bind {p : LProc σ ι A ε τ α} {g : α → LProc σ ι A ε τ β} (hp : p.Within R)
    (hg : ∀ a, (g a).Within R) : (p >>= g).Within R := by
  refine fun t => Prog.Within.bind (hp t) ?_
  rintro ⟨_ | _, _⟩
  · exact trivial
  · exact hg _ _

theorem Within.ite {c : Prop} [Decidable c] {p p' : LProc σ ι A ε τ α} (hp : p.Within R)
    (hp' : p'.Within R) : (if c then p else p').Within R := by
  split <;> assumption

theorem Within.forM {f : β → LProc σ ι A ε τ PUnit} (hf : ∀ b, (f b).Within R) :
    ∀ bs : List β, (bs.forM f).Within R
  | [] => fun _ => trivial
  | b :: bs => (hf b).bind fun _ => Within.forM hf bs

theorem Within.outcome {p : LProc σ ι A ε τ α} (hp : p.Within R) (t : τ) :
    Proc.Within R (p.outcome t) := Prog.Within.bind (hp t) fun _ => trivial

/-! ### Programs with locals that keep an invariant -/

/-- `Proc.Keeps`, whatever the locals. -/
def Keeps (C : Contract σ ι A) (I : History ι A → σ → Prop) (p : LProc σ ι A ε τ α) : Prop :=
  ∀ t h s, I h s → wp C p (fun _ _ h s => I h s) t h s

section
variable {I : History ι A → σ → Prop}

theorem keeps_pure (a : α) : Keeps C I (pure a : LProc σ ι A ε τ α) := fun _ _ _ hI => hI

theorem keeps_assign (f : τ → τ) : Keeps C I (assign f : LProc σ ι A ε τ PUnit) :=
  fun _ _ _ hI => hI

theorem keeps_exec {p : Proc σ ι A ε α} (hp : p.Keeps C I) :
    Keeps C I (exec p : LProc σ ι A ε τ α) :=
  fun _ h s hI => (wp_exec p _ _ h s).2 (hp h s hI)

theorem Keeps.bind {p : LProc σ ι A ε τ α} {g : α → LProc σ ι A ε τ β} (hp : p.Keeps C I)
    (hg : ∀ a, (g a).Keeps C I) : (p >>= g).Keeps C I := by
  refine fun t h s hI => (wp_bind p g _ t h s).2 (wp_mono (hp t h s hI) fun r t h s hI => ?_)
  cases r with
  | ok a => exact hg a t h s hI
  | error e => exact hI

theorem Keeps.outcome {p : LProc σ ι A ε τ α} (hp : p.Keeps C I) (t : τ) :
    Proc.Keeps C I (p.outcome t) := fun h s hI => (wp_outcome p t _ h s).2 (hp t h s hI)

/-- `Proc.keeps_of_within` for a program with locals. -/
theorem keeps_of_within {p : LProc σ ι A ε τ α} (hp : p.Within R)
    (hrely : ∀ {h s s'}, I h s → C.rely h s s' → I h s')
    (hstep : ∀ {h l s₀ s s'}, C.rely h s₀ s → I h s → R l s s' →
      C.step h l s s' ∧ I (.step l :: h) s')
    (hcall : ∀ {h q s₀ s}, C.rely h s₀ s → I h s →
      C.guard h q s ∧ ∀ a, C.ans h q s a → I (.call q a :: h) s) :
    p.Keeps C I := fun t _ _ hI => Prog.wp_of_within hrely hstep hcall (hp t) hI

end

end LProc

end Lib
