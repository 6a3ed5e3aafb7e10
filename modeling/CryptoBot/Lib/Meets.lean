import CryptoBot.Lib.Ends

/-!
# The answers a run meets

`Meets` says of the run of a program against an environment that every answer it gets satisfies a
condition, at the history and in the state in which it is given. A program is exact when it returns
if and only if its run meets the condition; exact programs compose.
-/

namespace Lib

variable {σ ι Q ε τ α β : Type} {A : Q → Type}

/-- The answers of an environment, which are the only ones it gives. -/
abbrev Prog.Env.answers (env : Prog.Env ι A) : Answers σ ι A := fun h q _ a => a = env h q

namespace Prog

/-- Every answer that the run against `env` gets satisfies `F`. -/
def Meets (env : Env ι A) (F : Answers σ ι A) : Prog σ ι A α → History ι A → σ → Prop
  | .done _, _, _ => True
  | .atomic l f k, h, s => Meets env F (k (f s).1) (.step l :: h) (f s).2
  | .call q k, h, s => F h q s (env h q) ∧ Meets env F (k (env h q)) (.call q (env h q) :: h) s

variable {env : Env ι A} {F : Answers σ ι A} {h h₁ : History ι A} {s s₁ : σ}

theorem ends_self (p : Prog σ ι A α) (h : History ι A) (s : σ) :
    Ends env.answers p h s (run env p h s).1 (run env p h s).2.1 (run env p h s).2.2 := by
  refine ends_run ?_ p h s
  exact fun _ _ _ => rfl

/-- A sequence meets the condition when both of its parts do. -/
theorem meets_bind {p : Prog σ ι A α} {g : α → Prog σ ι A β} {a : α}
    (hp : Ends env.answers p h s a h₁ s₁) :
    Meets env F (p >>= g) h s ↔ Meets env F p h s ∧ Meets env F (g a) h₁ s₁ := by
  induction p generalizing h s with
  | done b =>
    obtain ⟨rfl, rfl, rfl⟩ := hp
    exact (and_iff_right trivial).symm
  | atomic l f k ih => exact ih _ hp
  | call q k ih =>
    obtain ⟨_, rfl, hp⟩ := hp
    exact (and_congr_right fun _ => ih _ hp).trans and_assoc.symm

/-- A program that ends while the condition is met ends with answers that satisfy it. -/
theorem Meets.ends {p : Prog σ ι A α} {a : α} (hm : Meets env F p h s)
    (hp : Ends env.answers p h s a h₁ s₁) :
    Ends (fun h q s a => a = env h q ∧ F h q s a) p h s a h₁ s₁ := by
  induction p generalizing h s with
  | done b => exact hp
  | atomic l f k ih => exact ih _ hm hp
  | call q k ih =>
    obtain ⟨_, rfl, hp⟩ := hp
    exact ⟨_, ⟨rfl, hm.1⟩, ih _ hm.2 hp⟩

/-- The contract of a run against `env` that asks only what is answered so. -/
def watched (env : Env ι A) (F : Answers σ ι A) : Contract σ ι A :=
  { Contract.alone env.answers with guard := fun h q s => F h q s (env h q) }

/-- What is proved under that contract holds of the run alone, which meets the condition. -/
theorem meets_of_wp {p : Prog σ ι A α} {Φ : α → History ι A → σ → Prop}
    (hp : wp (watched env F) p Φ h s) : Meets env F p h s ∧ wp (.alone env.answers) p Φ h s := by
  induction p generalizing h s with
  | done a => exact ⟨trivial, hp⟩
  | atomic l f k ih =>
    refine ⟨(ih _ (hp s rfl).2).1, ?_⟩
    rintro _ rfl
    exact ⟨trivial, (ih _ (hp _ rfl).2).2⟩
  | call q k ih =>
    have hrest := ih _ ((hp s rfl).2 _ rfl)
    refine ⟨⟨(hp s rfl).1, hrest.1⟩, ?_⟩
    rintro _ rfl
    refine ⟨trivial, ?_⟩
    rintro _ rfl
    exact hrest.2

/-- A program that keeps a contract, and that nothing disturbs, ends as its run against `env` does. -/
theorem wp_of_ends {C : Contract σ ι A} {p : Prog σ ι A α} {Φ : α → History ι A → σ → Prop}
    (hrely : ∀ {h s s'}, C.rely h s s' → s' = s) (hans : ∀ {h q s a}, C.ans h q s a → a = env h q)
    (hp : wp C p (fun _ _ _ => True) h s)
    (hΦ : ∀ a h' s', Ends env.answers p h s a h' s' → Φ a h' s') : wp C p Φ h s := by
  induction p generalizing h s with
  | done a => exact hΦ a h s ⟨rfl, rfl, rfl⟩
  | atomic l f k ih =>
    intro s' hr
    obtain ⟨hstep, hrest⟩ := hp s' hr
    obtain rfl := hrely hr
    exact ⟨hstep, ih _ hrest hΦ⟩
  | call q k ih =>
    intro s' hr
    obtain ⟨hguard, hrest⟩ := hp s' hr
    obtain rfl := hrely hr
    exact ⟨hguard, fun a ha => ih _ (hrest a ha) fun b h' s' hends =>
      hΦ b h' s' ⟨a, hans ha, hends⟩⟩

/-- A program all of whose requests are answered so, whatever it has come to. -/
def Unfailing (env : Env ι A) (F : Answers σ ι A) (p : Prog σ ι A α) : Prop :=
  ∀ h s, Meets env F p h s

theorem Unfailing.bind {p : Prog σ ι A α} {g : α → Prog σ ι A β} (hp : p.Unfailing env F)
    (hg : ∀ a, (g a).Unfailing env F) : (p >>= g).Unfailing env F := fun h s =>
  (meets_bind (ends_self p h s)).2 ⟨hp h s, hg _ _ _⟩

end Prog

/-! ## Programs with exceptions -/

namespace Proc

variable {env : Prog.Env ι A} {F : Answers σ ι A} {h h₁ : History ι A} {s s₁ : σ}

def Meets (env : Prog.Env ι A) (F : Answers σ ι A) (p : Proc σ ι A ε α) (h : History ι A) (s : σ) :
    Prop := Prog.Meets env F p.run h s

/-- Where the first part of a sequence returns, the second follows. -/
theorem meets_bind_ok {p : Proc σ ι A ε α} {g : α → Proc σ ι A ε β} {a : α}
    (hp : Ends env.answers p h s (.ok a) h₁ s₁) :
    Meets env F (p >>= g) h s ↔ Meets env F p h s ∧ Meets env F (g a) h₁ s₁ := Prog.meets_bind hp

/-- Where it raises, nothing follows. -/
theorem meets_bind_error {p : Proc σ ι A ε α} {g : α → Proc σ ι A ε β} {e : ε}
    (hp : Ends env.answers p h s (.error e) h₁ s₁) :
    Meets env F (p >>= g) h s ↔ Meets env F p h s :=
  (Prog.meets_bind hp).trans (and_iff_left trivial)

theorem meets_attempt {p : Proc σ ι A ε α} : Meets env F p.attempt h s ↔ Meets env F p h s :=
  (Prog.meets_bind (Prog.ends_self p.run h s)).trans (and_iff_left trivial)

def Unfailing (env : Prog.Env ι A) (F : Answers σ ι A) (p : Proc σ ι A ε α) : Prop :=
  p.run.Unfailing env F

theorem Unfailing.meets {p : Proc σ ι A ε α} (hp : p.Unfailing env F) (h : History ι A) (s : σ) :
    p.Meets env F h s := hp h s

theorem Unfailing.bind {p : Proc σ ι A ε α} {g : α → Proc σ ι A ε β} (hp : p.Unfailing env F)
    (hg : ∀ a, (g a).Unfailing env F) : (p >>= g).Unfailing env F := by
  refine Prog.Unfailing.bind hp fun r => ?_
  cases r with
  | ok a => exact hg a
  | error e => exact fun _ _ => trivial

theorem unfailing_pure (a : α) : (pure a : Proc σ ι A ε α).Unfailing env F := fun _ _ => trivial

theorem unfailing_throw (e : ε) : (throw e : Proc σ ι A ε α).Unfailing env F := fun _ _ => trivial

theorem unfailing_step {l : ι} {f : σ → Except ε α × σ} :
    (step l f : Proc σ ι A ε α).Unfailing env F := fun _ _ => trivial

theorem unfailing_ask {q : Q} {get : A q → Except ε α} (hq : ∀ h s, F h q s (env h q)) :
    (ask q get : Proc σ ι A ε α).Unfailing env F := fun h s => ⟨hq h s, trivial⟩

theorem Unfailing.ite {c : Prop} [Decidable c] {p p' : Proc σ ι A ε α} (hp : p.Unfailing env F)
    (hp' : p'.Unfailing env F) : (if c then p else p').Unfailing env F := by
  split <;> assumption

theorem Unfailing.forM {f : β → Proc σ ι A ε PUnit} (hf : ∀ b, (f b).Unfailing env F) :
    ∀ bs : List β, (bs.forM f).Unfailing env F
  | [] => unfailing_pure _
  | b :: bs => (hf b).bind fun _ => Unfailing.forM hf bs

end Proc

/-! ## Programs with locals -/

namespace LProc

variable {env : Prog.Env ι A} {F : Answers σ ι A} {t t₁ : τ} {h h₁ : History ι A} {s s₁ : σ}

def Meets (env : Prog.Env ι A) (F : Answers σ ι A) (p : LProc σ ι A ε τ α) (t : τ)
    (h : History ι A) (s : σ) : Prop := Prog.Meets env F (p.run.run t) h s

theorem meets_bind_ok {p : LProc σ ι A ε τ α} {g : α → LProc σ ι A ε τ β} {a : α}
    (hp : Ends env.answers p t h s (.ok a) t₁ h₁ s₁) :
    Meets env F (p >>= g) t h s ↔ Meets env F p t h s ∧ Meets env F (g a) t₁ h₁ s₁ :=
  Prog.meets_bind hp

theorem meets_bind_error {p : LProc σ ι A ε τ α} {g : α → LProc σ ι A ε τ β} {e : ε}
    (hp : Ends env.answers p t h s (.error e) t₁ h₁ s₁) :
    Meets env F (p >>= g) t h s ↔ Meets env F p t h s :=
  (Prog.meets_bind hp).trans (and_iff_left trivial)

theorem meets_exec {p : Proc σ ι A ε α} : Meets env F (exec p) t h s ↔ Proc.Meets env F p h s :=
  (Prog.meets_bind (Prog.ends_self p.run h s)).trans (and_iff_left trivial)

theorem meets_outcome {p : LProc σ ι A ε τ α} :
    Proc.Meets env F (outcome p t) h s ↔ Meets env F p t h s :=
  (Prog.meets_bind (Prog.ends_self (p.run.run t) h s)).trans (and_iff_left trivial)

/-- The program returns exactly when its run meets the condition. -/
def Exact (env : Prog.Env ι A) (F : Answers σ ι A) (p : LProc σ ι A ε τ α) (t : τ) (h : History ι A)
    (s : σ) : Prop :=
  ∀ ⦃r t' h' s'⦄, Ends env.answers p t h s r t' h' s' → ((∃ a, r = .ok a) ↔ Meets env F p t h s)

theorem Exact.bind {p : LProc σ ι A ε τ α} {g : α → LProc σ ι A ε τ β} (hp : Exact env F p t h s)
    (hg : ∀ {a t₁ h₁ s₁}, Ends env.answers p t h s (.ok a) t₁ h₁ s₁ → Exact env F (g a) t₁ h₁ s₁) :
    Exact env F (p >>= g) t h s := by
  intro r t' h' s' hrun
  rcases (ends_bind _ _ _).1 hrun with ⟨a, t₁, h₁, s₁, hfirst, hrest⟩ | ⟨e, hfirst, rfl⟩
  · rw [meets_bind_ok hfirst, and_iff_right ((hp hfirst).1 ⟨a, rfl⟩)]
    exact hg hfirst hrest
  · rw [meets_bind_error hfirst, ← hp hfirst]
    exact iff_of_false (by rintro ⟨_, ⟨⟩⟩) (by rintro ⟨_, ⟨⟩⟩)

/-- A program that always returns, and whose answers all meet the condition. -/
theorem exact_of_unfailing {p : Proc σ ι A ε α} (hp : p.Unfailing env F)
    (hok : ∀ {r h' s'}, Proc.Ends env.answers p h s r h' s' → ∃ a, r = .ok a) :
    Exact env F (exec p) t h s := by
  intro r t' h' s' hrun
  obtain ⟨-, hrun⟩ := (ends_exec _ _).1 hrun
  exact iff_of_true (hok hrun) (meets_exec.2 (hp h s))

theorem meets_pure (a : α) : Meets env F (pure a : LProc σ ι A ε τ α) t h s := trivial

theorem exact_pure (a : α) : Exact env F (pure a : LProc σ ι A ε τ α) t h s := by
  intro r t' h' s' hrun
  exact iff_of_true ⟨a, ((ends_pure _ _).1 hrun).1.1⟩ trivial

theorem exact_assign (f : τ → τ) : Exact env F (assign f : LProc σ ι A ε τ PUnit) t h s := by
  intro r t' h' s' hrun
  exact iff_of_true ⟨⟨⟩, ((ends_assign _ _).1 hrun).1.1⟩ trivial

theorem Exact.ite {c : Prop} [Decidable c] {p p' : LProc σ ι A ε τ α} (hp : Exact env F p t h s)
    (hp' : Exact env F p' t h s) : Exact env F (if c then p else p') t h s := by
  split
  · exact hp
  · exact hp'

/-- The loop rule: `I` holds before every element, of the elements still to come. -/
theorem exact_forM {f : β → LProc σ ι A ε τ Unit} (I : List β → σ → Prop)
    (hf : ∀ {b bs t h s}, I (b :: bs) s → Exact env F (f b) t h s)
    (hI : ∀ {b bs t h s t' h' s'}, I (b :: bs) s → Ends env.answers (f b) t h s (.ok ⟨⟩) t' h' s' →
      I bs s') {bs : List β} (hs : I bs s) : Exact env F (bs.forM f) t h s := by
  induction bs generalizing t h s with
  | nil => exact exact_pure _
  | cons b bs ih => exact Exact.bind (hf hs) fun hb => ih (hI hs hb)

end LProc

end Lib
