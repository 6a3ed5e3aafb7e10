import CryptoBot.Lib.Prog

/-!
# Programs alone, from start to end

`Ends` relates where a program that runs undisturbed starts to where it may finish, for all answers
the environment may give. It is read forwards: from a run of a sequence come the runs of its parts,
and what is known of a part by its weakest precondition holds where that part ends.
-/

namespace Lib

variable {σ ι Q ε τ α β : Type} {A : Q → Type}

/-- The answers an environment may give. -/
abbrev Answers (σ ι : Type) {Q : Type} (A : Q → Type) : Type :=
  History ι A → (q : Q) → σ → A q → Prop

namespace Prog

/-- From history `h` and state `s` the program alone may finish with `b`, history `h'` and
state `s'`. -/
def Ends (ans : Answers σ ι A) :
    Prog σ ι A α → History ι A → σ → α → History ι A → σ → Prop
  | .done a, h, s, b, h', s' => b = a ∧ h' = h ∧ s' = s
  | .atomic l f k, h, s, b, h', s' => Ends ans (k (f s).1) (.step l :: h) (f s).2 b h' s'
  | .call q k, h, s, b, h', s' => ∃ a, ans h q s a ∧ Ends ans (k a) (.call q a :: h) s b h' s'

variable {ans : Answers σ ι A} {h h' : History ι A} {s s' : σ}

/-- What the weakest precondition promises holds where the program ends. -/
theorem Ends.post {Φ : α → History ι A → σ → Prop} {p : Prog σ ι A α} {a : α}
    (hp : Ends ans p h s a h' s') (hΦ : wp (.alone ans) p Φ h s) : Φ a h' s' := by
  induction p generalizing h s with
  | done b =>
    obtain ⟨rfl, rfl, rfl⟩ := hp
    exact hΦ
  | atomic l f k ih => exact ih _ hp (hΦ s rfl).2
  | call q k ih =>
    obtain ⟨b, hb, hp⟩ := hp
    exact ih _ hp ((hΦ s rfl).2 b hb)

/-- What the steps of a footprint and the answers preserve holds where a program within that
footprint ends. -/
theorem Ends.within {R : ι → σ → σ → Prop} {I : History ι A → σ → Prop} {p : Prog σ ι A α} {a : α}
    (hp : Ends ans p h s a h' s') (hR : p.Within R)
    (hstep : ∀ {h l s s'}, R l s s' → I h s → I (.step l :: h) s')
    (hcall : ∀ {h q a s}, I h s → I (.call q a :: h) s) (hI : I h s) : I h' s' := by
  induction p generalizing h s with
  | done b =>
    obtain ⟨-, rfl, rfl⟩ := hp
    exact hI
  | atomic l f k ih => exact ih _ hp (hR s).2 (hstep (hR s).1 hI)
  | call q k ih =>
    obtain ⟨b, -, hp⟩ := hp
    exact ih _ hp (hR b) (hcall hI)

/-- The run against an environment is one of the ways in which the program may end. -/
theorem ends_run {env : Env ι A} (henv : ∀ h q s, ans h q s (env h q)) (p : Prog σ ι A α)
    (h : History ι A) (s : σ) :
    Ends ans p h s (run env p h s).1 (run env p h s).2.1 (run env p h s).2.2 := by
  induction p generalizing h s with
  | done a => exact ⟨rfl, rfl, rfl⟩
  | atomic l f k ih => exact ih _ _ _
  | call q k ih => exact ⟨_, henv h q s, ih _ _ _⟩

/-- Every answer a run has met is one the environment may give. -/
theorem Ends.answers {p : Prog σ ι A α} {a : α} (hp : Ends ans p h s a h' s') {q : Q} {b : A q}
    (hb : .call q b ∈ h') : .call q b ∈ h ∨ ∃ h₀ s₀, ans h₀ q s₀ b := by
  induction p generalizing h s with
  | done c =>
    obtain ⟨-, rfl, -⟩ := hp
    exact .inl hb
  | atomic l f k ih =>
    refine (ih _ hp).imp_left fun hmem => ?_
    rcases List.mem_cons.1 hmem with heq | hmem
    · cases heq
    · exact hmem
  | call q' k ih =>
    obtain ⟨c, hc, hp⟩ := hp
    rcases ih _ hp with hmem | hans
    · rcases List.mem_cons.1 hmem with heq | hmem
      · cases heq
        exact .inr ⟨h, s, hc⟩
      · exact .inl hmem
    · exact .inr hans

/-- The history of a run only grows. -/
theorem Ends.suffix {p : Prog σ ι A α} {a : α} (hp : Ends ans p h s a h' s') : h <:+ h' := by
  induction p generalizing h s with
  | done b =>
    obtain ⟨-, rfl, -⟩ := hp
    exact List.suffix_rfl
  | atomic l f k ih => exact (List.suffix_cons _ _).trans (ih _ hp)
  | call q k ih =>
    obtain ⟨b, -, hp⟩ := hp
    exact (List.suffix_cons _ _).trans (ih _ hp)

theorem ends_bind (p : Prog σ ι A α) (g : α → Prog σ ι A β) (b : β) :
    Ends ans (p >>= g) h s b h' s' ↔
      ∃ a h₁ s₁, Ends ans p h s a h₁ s₁ ∧ Ends ans (g a) h₁ s₁ b h' s' := by
  induction p generalizing h s with
  | done a =>
    constructor
    · exact fun hg => ⟨a, h, s, ⟨rfl, rfl, rfl⟩, hg⟩
    · rintro ⟨_, _, _, ⟨rfl, rfl, rfl⟩, hg⟩
      exact hg
  | atomic l f k ih => exact ih _
  | call q k ih =>
    constructor
    · rintro ⟨a, ha, hp⟩
      obtain ⟨c, h₁, s₁, hk, hg⟩ := (ih a).1 hp
      exact ⟨c, h₁, s₁, ⟨a, ha, hk⟩, hg⟩
    · rintro ⟨c, h₁, s₁, ⟨a, ha, hk⟩, hg⟩
      exact ⟨a, ha, (ih a).2 ⟨c, h₁, s₁, hk, hg⟩⟩

end Prog

/-! ## Programs with exceptions -/

namespace Proc

variable {ans : Answers σ ι A} {h h' : History ι A} {s s' : σ}

/-- The ends of a program that may raise, with its outcome. -/
def Ends (ans : Answers σ ι A) (p : Proc σ ι A ε α) (h : History ι A) (s : σ) (r : Except ε α)
    (h' : History ι A) (s' : σ) : Prop := Prog.Ends ans p.run h s r h' s'

theorem Ends.post {Φ : Except ε α → History ι A → σ → Prop} {p : Proc σ ι A ε α} {r : Except ε α}
    (hp : Ends ans p h s r h' s') (hΦ : wp (.alone ans) p Φ h s) : Φ r h' s' :=
  Prog.Ends.post hp hΦ

/-- The run against an environment, which is the only one its answers admit. -/
theorem ends_run (env : Prog.Env ι A) (p : Proc σ ι A ε α) (h : History ι A) (s : σ) :
    Ends (fun h q _ a => a = env h q) p h s (Prog.run env p.run h s).1
      (Prog.run env p.run h s).2.1 (Prog.run env p.run h s).2.2 := by
  refine Prog.ends_run ?_ p.run h s
  exact fun _ _ _ => rfl

theorem Ends.suffix {p : Proc σ ι A ε α} {r : Except ε α} (hp : Ends ans p h s r h' s') :
    h <:+ h' := Prog.Ends.suffix hp

@[simp] theorem ends_pure (a : α) (r : Except ε α) :
    Ends ans (pure a : Proc σ ι A ε α) h s r h' s' ↔ r = .ok a ∧ h' = h ∧ s' = s := Iff.rfl

@[simp] theorem ends_throw (e : ε) (r : Except ε α) :
    Ends ans (throw e : Proc σ ι A ε α) h s r h' s' ↔ r = .error e ∧ h' = h ∧ s' = s := Iff.rfl

theorem ends_step (l : ι) (f : σ → Except ε α × σ) (r : Except ε α) :
    Ends ans (step l f) h s r h' s' ↔ r = (f s).1 ∧ h' = .step l :: h ∧ s' = (f s).2 := Iff.rfl

theorem ends_ask (q : Q) (get : A q → Except ε α) (r : Except ε α) :
    Ends ans (ask q get) h s r h' s' ↔
      ∃ a, ans h q s a ∧ r = get a ∧ h' = .call q a :: h ∧ s' = s := Iff.rfl

theorem ends_bind (p : Proc σ ι A ε α) (g : α → Proc σ ι A ε β) (r : Except ε β) :
    Ends ans (p >>= g) h s r h' s' ↔
      (∃ a h₁ s₁, Ends ans p h s (.ok a) h₁ s₁ ∧ Ends ans (g a) h₁ s₁ r h' s') ∨
      ∃ e, Ends ans p h s (.error e) h' s' ∧ r = .error e := by
  refine (Prog.ends_bind _ _ _).trans ?_
  constructor
  · rintro ⟨a | a, h₁, s₁, hp, hg⟩
    · obtain ⟨rfl, rfl, rfl⟩ := hg
      exact .inr ⟨a, hp, rfl⟩
    · exact .inl ⟨a, h₁, s₁, hp, hg⟩
  · rintro (⟨a, h₁, s₁, hp, hg⟩ | ⟨e, hp, rfl⟩)
    · exact ⟨.ok a, h₁, s₁, hp, hg⟩
    · exact ⟨.error e, h', s', hp, rfl, rfl, rfl⟩

/-- A sequence that returns: both parts return. -/
theorem ends_bind_ok (p : Proc σ ι A ε α) (g : α → Proc σ ι A ε β) (b : β) :
    Ends ans (p >>= g) h s (.ok b) h' s' ↔
      ∃ a h₁ s₁, Ends ans p h s (.ok a) h₁ s₁ ∧ Ends ans (g a) h₁ s₁ (.ok b) h' s' := by
  rw [ends_bind]
  constructor
  · rintro (hp | ⟨e, -, ⟨⟩⟩)
    exact hp
  · exact .inl

theorem ends_attempt (p : Proc σ ι A ε α) (r : Except ε (Except ε α)) :
    Ends ans p.attempt h s r h' s' ↔ ∃ x, r = .ok x ∧ Ends ans p h s x h' s' := by
  refine (Prog.ends_bind _ _ _).trans ?_
  constructor
  · rintro ⟨x, h₁, s₁, hp, rfl, rfl, rfl⟩
    exact ⟨x, rfl, hp⟩
  · rintro ⟨x, rfl, hp⟩
    exact ⟨x, h', s', hp, rfl, rfl, rfl⟩

end Proc

/-! ## Programs with locals -/

namespace LProc

variable {ans : Answers σ ι A} {t t' : τ} {h h' : History ι A} {s s' : σ}

/-- The ends of a program with locals, with its outcome and the locals at the end. -/
def Ends (ans : Answers σ ι A) (p : LProc σ ι A ε τ α) (t : τ) (h : History ι A) (s : σ)
    (r : Except ε α) (t' : τ) (h' : History ι A) (s' : σ) : Prop :=
  Prog.Ends ans (p.run.run t) h s (r, t') h' s'

theorem Ends.post {Φ : Except ε α → τ → History ι A → σ → Prop} {p : LProc σ ι A ε τ α}
    {r : Except ε α} (hp : Ends ans p t h s r t' h' s') (hΦ : wp (.alone ans) p Φ t h s) :
    Φ r t' h' s' :=
  Prog.Ends.post (Φ := fun r : Except ε α × τ => Φ r.1 r.2) hp hΦ

theorem Ends.suffix {p : LProc σ ι A ε τ α} {r : Except ε α}
    (hp : Ends ans p t h s r t' h' s') : h <:+ h' := Prog.Ends.suffix hp

@[simp] theorem ends_pure (a : α) (r : Except ε α) :
    Ends ans (pure a : LProc σ ι A ε τ α) t h s r t' h' s' ↔
      (r = .ok a ∧ t' = t) ∧ h' = h ∧ s' = s := by
  rw [← Prod.mk.injEq]
  exact Iff.rfl

@[simp] theorem ends_throw (e : ε) (r : Except ε α) :
    Ends ans (throw e : LProc σ ι A ε τ α) t h s r t' h' s' ↔
      (r = .error e ∧ t' = t) ∧ h' = h ∧ s' = s := by
  rw [← Prod.mk.injEq]
  exact Iff.rfl

@[simp] theorem ends_assign (f : τ → τ) (r : Except ε PUnit) :
    Ends ans (assign f : LProc σ ι A ε τ PUnit) t h s r t' h' s' ↔
      (r = .ok ⟨⟩ ∧ t' = f t) ∧ h' = h ∧ s' = s := by
  rw [← Prod.mk.injEq]
  exact Iff.rfl

@[simp] theorem ends_exec (p : Proc σ ι A ε α) (r : Except ε α) :
    Ends ans (exec p) t h s r t' h' s' ↔ t' = t ∧ Proc.Ends ans p h s r h' s' := by
  refine (Prog.ends_bind _ _ _).trans ?_
  constructor
  · rintro ⟨x, h₁, s₁, hp, hx, rfl, rfl⟩
    obtain ⟨rfl, rfl⟩ := Prod.mk.injEq _ _ _ _ ▸ hx
    exact ⟨rfl, hp⟩
  · rintro ⟨rfl, hp⟩
    exact ⟨r, h', s', hp, rfl, rfl, rfl⟩

theorem ends_bind (p : LProc σ ι A ε τ α) (g : α → LProc σ ι A ε τ β) (r : Except ε β) :
    Ends ans (p >>= g) t h s r t' h' s' ↔
      (∃ a t₁ h₁ s₁, Ends ans p t h s (.ok a) t₁ h₁ s₁ ∧ Ends ans (g a) t₁ h₁ s₁ r t' h' s') ∨
      ∃ e, Ends ans p t h s (.error e) t' h' s' ∧ r = .error e := by
  refine (Prog.ends_bind _ _ _).trans ?_
  constructor
  · rintro ⟨⟨a | a, t₁⟩, h₁, s₁, hp, hg⟩
    · obtain ⟨hg, rfl, rfl⟩ := hg
      obtain ⟨rfl, rfl⟩ := Prod.mk.injEq _ _ _ _ ▸ hg
      exact .inr ⟨a, hp, rfl⟩
    · exact .inl ⟨a, t₁, h₁, s₁, hp, hg⟩
  · rintro (⟨a, t₁, h₁, s₁, hp, hg⟩ | ⟨e, hp, rfl⟩)
    · exact ⟨(.ok a, t₁), h₁, s₁, hp, hg⟩
    · exact ⟨(.error e, t'), h', s', hp, rfl, rfl, rfl⟩

/-- A sequence that returns: both parts return. -/
theorem ends_bind_ok (p : LProc σ ι A ε τ α) (g : α → LProc σ ι A ε τ β) (b : β) :
    Ends ans (p >>= g) t h s (.ok b) t' h' s' ↔
      ∃ a t₁ h₁ s₁, Ends ans p t h s (.ok a) t₁ h₁ s₁ ∧
        Ends ans (g a) t₁ h₁ s₁ (.ok b) t' h' s' := by
  rw [ends_bind]
  constructor
  · rintro (hp | ⟨e, -, ⟨⟩⟩)
    exact hp
  · exact .inl

/-- A sequence that returns and begins with a program without locals. -/
theorem ends_exec_bind_ok (p : Proc σ ι A ε α) (g : α → LProc σ ι A ε τ β) (b : β) :
    Ends ans (exec p >>= g) t h s (.ok b) t' h' s' ↔
      ∃ a h₁ s₁, Proc.Ends ans p h s (.ok a) h₁ s₁ ∧ Ends ans (g a) t h₁ s₁ (.ok b) t' h' s' := by
  rw [ends_bind_ok]
  constructor
  · rintro ⟨a, t₁, h₁, s₁, hp, hg⟩
    obtain ⟨rfl, hexec⟩ := (ends_exec _ _).1 hp
    exact ⟨a, h₁, s₁, hexec, hg⟩
  · rintro ⟨a, h₁, s₁, hp, hg⟩
    exact ⟨a, t, h₁, s₁, (ends_exec _ _).2 ⟨rfl, hp⟩, hg⟩

theorem ends_outcome (p : LProc σ ι A ε τ α) (r : Except ε (Except ε α × τ)) :
    Proc.Ends ans (outcome p t) h s r h' s' ↔
      ∃ x t₁, r = .ok (x, t₁) ∧ Ends ans p t h s x t₁ h' s' := by
  refine (Prog.ends_bind _ _ _).trans ?_
  constructor
  · rintro ⟨⟨x, t₁⟩, h₁, s₁, hp, rfl, rfl, rfl⟩
    exact ⟨x, t₁, rfl, hp⟩
  · rintro ⟨x, t₁, rfl, hp⟩
    exact ⟨(x, t₁), h', s', hp, rfl, rfl, rfl⟩

/-- A loop that returns, or is left by an exception, one element at a time. -/
inductive Trail (ans : Answers σ ι A) (f : β → LProc σ ι A ε τ Unit) :
    List β → τ → History ι A → σ → Except ε Unit → τ → History ι A → σ → Prop
  | nil (t : τ) (h : History ι A) (s : σ) : Trail ans f [] t h s (.ok ⟨⟩) t h s
  | cons {b : β} {bs : List β} {t t₁ t' : τ} {h h₁ h' : History ι A} {s s₁ s' : σ}
      {r : Except ε Unit} (hb : Ends ans (f b) t h s (.ok ⟨⟩) t₁ h₁ s₁)
      (hbs : Trail ans f bs t₁ h₁ s₁ r t' h' s') : Trail ans f (b :: bs) t h s r t' h' s'
  | stop {b : β} (bs : List β) {t t' : τ} {h h' : History ι A} {s s' : σ} {e : ε}
      (hb : Ends ans (f b) t h s (.error e) t' h' s') :
      Trail ans f (b :: bs) t h s (.error e) t' h' s'

theorem ends_forM {f : β → LProc σ ι A ε τ Unit} {bs : List β} {r : Except ε Unit}
    (hbs : Ends ans (bs.forM f) t h s r t' h' s') : Trail ans f bs t h s r t' h' s' := by
  induction bs generalizing t h s with
  | nil =>
    obtain ⟨⟨rfl, rfl⟩, rfl, rfl⟩ := (ends_pure _ _).1 hbs
    exact .nil ..
  | cons b bs ih =>
    rcases (ends_bind _ _ _).1 hbs with ⟨_, t₁, h₁, s₁, hb, hbs⟩ | ⟨e, hb, rfl⟩
    · exact .cons hb (ih hbs)
    · exact .stop _ hb

theorem Trail.suffix {f : β → LProc σ ι A ε τ Unit} {bs : List β} {r : Except ε Unit}
    (hbs : Trail ans f bs t h s r t' h' s') : h <:+ h' := by
  induction hbs with
  | nil => exact List.suffix_rfl
  | cons hb _ ih => exact hb.suffix.trans ih
  | stop _ hb => exact hb.suffix

/-- The loop rule, read forwards: `I` holds before every element, of the elements still to come. -/
theorem Trail.invariant {f : β → LProc σ ι A ε τ Unit} (I : List β → τ → History ι A → σ → Prop)
    (hstep : ∀ b bs t h s t₁ h₁ s₁, I (b :: bs) t h s → Ends ans (f b) t h s (.ok ⟨⟩) t₁ h₁ s₁ →
      I bs t₁ h₁ s₁) {bs : List β} {t' : τ} {h' : History ι A} {s' : σ} {r : Except ε Unit}
    (hbs : Trail ans f bs t h s r t' h' s') (hr : r = .ok ⟨⟩) (hI : I bs t h s) :
    I [] t' h' s' := by
  induction hbs with
  | nil => exact hI
  | cons hb _ ih => exact ih hr (hstep _ _ _ _ _ _ _ _ hI hb)
  | stop _ hb => cases hr

end LProc

end Lib
