import CryptoBot.Lib.Ends
import CryptoBot.Lib.Paths

/-!
# What is left of a program

A path leads from where a program that runs undisturbed starts to a point on its way, with what is
then left of it. It is how a statement about a program as a whole speaks of a call inside it: the
program leads to the call, and what follows the call is the rest.
-/

namespace Lib

variable {σ ι Q ε α β : Type} {A : Q → Type}

namespace Prog

/-- Running the parts of a sequence one after the other. -/
theorem bind_assoc {γ : Type} (p : Prog σ ι A α) (g : α → Prog σ ι A β) (g' : β → Prog σ ι A γ) :
    (p.bind g).bind g' = p.bind fun a => (g a).bind g' := by
  induction p with
  | done a => rfl
  | atomic l f k ih => exact congrArg (Prog.atomic l f) (funext ih)
  | call q k ih => exact congrArg (Prog.call q) (funext ih)

theorem bind_done (p : Prog σ ι A α) : p.bind .done = p := by
  induction p with
  | done a => rfl
  | atomic l f k ih => exact congrArg (Prog.atomic l f) (funext ih)
  | call q k ih => exact congrArg (Prog.call q) (funext ih)

instance : LawfulMonad (Prog σ ι A) :=
  LawfulMonad.mk' (Prog σ ι A) bind_done (fun _ _ => rfl) bind_assoc

/-- From history `h` and state `s` the program alone may come to history `h'` and state `s'`, where
the program `p'` is left of it. -/
def Leads (ans : Answers σ ι A) (p : Prog σ ι A α) (h : History ι A) (s : σ) (p' : Prog σ ι A α)
    (h' : History ι A) (s' : σ) : Prop := Path ans ⟨p, h, s⟩ ⟨p', h', s'⟩

variable {ans : Answers σ ι A} {h h₁ h' : History ι A} {s s₁ s' : σ} {p p₁ p' : Prog σ ι A α}

namespace Leads

theorem refl : Leads ans p h s p h s := Relation.ReflTransGen.refl

theorem atomic {l : ι} {f : σ → β × σ} {k : β → Prog σ ι A α}
    (hk : Leads ans (k (f s).1) (.step l :: h) (f s).2 p' h' s') :
    Leads ans (.atomic l f k) h s p' h' s' := .head .atomic hk

theorem call {q : Q} {k : A q → Prog σ ι A α} {a : A q} (ha : ans h q s a)
    (hk : Leads ans (k a) (.call q a :: h) s p' h' s') : Leads ans (.call q k) h s p' h' s' :=
  .head (.call ha) hk

theorem trans (hp : Leads ans p h s p₁ h₁ s₁) (hp₁ : Leads ans p₁ h₁ s₁ p' h' s') :
    Leads ans p h s p' h' s' := Relation.ReflTransGen.trans hp hp₁

theorem bind (hp : Leads ans p h s p' h' s') (g : α → Prog σ ι A β) :
    Leads ans (p >>= g) h s (p' >>= g) h' s' := by
  refine Relation.ReflTransGen.lift
    (fun x : Point σ ι A α => (⟨x.prog >>= g, x.hist, x.state⟩ : Point σ ι A β)) ?_ _ _ hp
  intro x y hnext
  cases hnext with
  | atomic => exact .atomic
  | call ha => exact .call ha

/-- The run against an environment goes through every point to which that environment leads. -/
theorem run_eq {env : Env ι A} (hp : Leads (fun h q _ a => a = env h q) p h s p' h' s') :
    run env p h s = run env p' h' s' := by
  suffices hall : ∀ {x y : Point σ ι A α}, Path (fun h q _ a => a = env h q) x y →
      run env x.prog x.hist x.state = run env y.prog y.hist y.state from hall hp
  intro x y hpath
  induction hpath with
  | refl => rfl
  | tail _ hnext ih =>
    refine ih.trans ?_
    cases hnext with
    | atomic => rfl
    | call ha =>
      subst ha
      rfl

/-- What the steps of a footprint keep holds at every point of a program within that footprint. -/
theorem within {R : ι → σ → σ → Prop} {I : σ → Prop} (hp : Leads ans p h s p' h' s')
    (hR : p.Within R) (hstep : ∀ {l s s'}, R l s s' → I s → I s') (hI : I s) : I s' := by
  suffices hall : ∀ {x y : Point σ ι A α}, Path ans x y → x.prog.Within R ∧ I x.state →
      y.prog.Within R ∧ I y.state from (hall hp ⟨hR, hI⟩).2
  intro x y hpath hx
  induction hpath with
  | refl => exact hx
  | tail _ hnext ih =>
    obtain ⟨hwithin, hstate⟩ := ih
    cases hnext with
    | atomic => exact ⟨(hwithin _).2, hstep (hwithin _).1 hstate⟩
    | call => exact ⟨hwithin _, hstate⟩

end Leads

/-- A sequence leads to its second part, where the first one ends. -/
theorem Ends.leads {a : α} (hp : Ends ans p h s a h' s') (g : α → Prog σ ι A β) :
    Leads ans (p >>= g) h s (g a) h' s' := by
  induction p generalizing h s with
  | done b =>
    obtain ⟨rfl, rfl, rfl⟩ := hp
    exact .refl
  | atomic l f k ih => exact .atomic (ih _ hp)
  | call q k ih =>
    obtain ⟨b, hb, hp⟩ := hp
    exact .call hb (ih b hp)

end Prog

namespace Proc

variable {ans : Answers σ ι A} {h h' : History ι A} {s s' : σ} {p p' : Proc σ ι A ε α}

/-- `Prog.Leads` for a program that may raise. -/
def Leads (ans : Answers σ ι A) (p : Proc σ ι A ε α) (h : History ι A) (s : σ)
    (p' : Proc σ ι A ε α) (h' : History ι A) (s' : σ) : Prop := p.run.Leads ans h s p'.run h' s'

theorem Leads.trans {p₁ : Proc σ ι A ε α} {h₁ : History ι A} {s₁ : σ}
    (hp : Leads ans p h s p₁ h₁ s₁) (hp₁ : Leads ans p₁ h₁ s₁ p' h' s') :
    Leads ans p h s p' h' s' := Prog.Leads.trans hp hp₁

theorem Leads.bind (hp : Leads ans p h s p' h' s') (g : α → Proc σ ι A ε β) :
    Leads ans (p >>= g) h s (p' >>= g) h' s' := Prog.Leads.bind hp _

theorem Ends.leads {a : α} (hp : Ends ans p h s (.ok a) h' s') (g : α → Proc σ ι A ε β) :
    Leads ans (p >>= g) h s (g a) h' s' := Prog.Ends.leads hp _

/-- The program alone may come to a point of which `G` holds. -/
def Comes (ans : Answers σ ι A) (p : Proc σ ι A ε α) (h : History ι A) (s : σ)
    (G : Proc σ ι A ε α → History ι A → σ → Prop) : Prop :=
  ∃ p' h' s', Leads ans p h s p' h' s' ∧ G p' h' s'

variable {G : Proc σ ι A ε α → History ι A → σ → Prop}

theorem Comes.here (hG : G p h s) : Comes ans p h s G := ⟨p, h, s, .refl, hG⟩

theorem Leads.comes (hp : Leads ans p h s p' h' s') (hG : Comes ans p' h' s' G) :
    Comes ans p h s G := by
  obtain ⟨p₁, h₁, s₁, hlead, hG⟩ := hG
  exact ⟨p₁, h₁, s₁, hp.trans hlead, hG⟩

/-- A sequence comes to where its first part comes, with the second part still to follow. -/
theorem Comes.bind {G' : Proc σ ι A ε β → History ι A → σ → Prop} (hp : Comes ans p h s G)
    (g : α → Proc σ ι A ε β) (hG : ∀ p h s, G p h s → G' (p >>= g) h s) :
    Comes ans (p >>= g) h s G' := by
  obtain ⟨p₁, h₁, s₁, hlead, hp⟩ := hp
  exact ⟨p₁ >>= g, h₁, s₁, hlead.bind g, hG p₁ h₁ s₁ hp⟩

end Proc

end Lib
