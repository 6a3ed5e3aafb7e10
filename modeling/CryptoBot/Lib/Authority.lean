import CryptoBot.Lib.Pool
import CryptoBot.Lib.Sequenced

/-!
# On what authority a request is made

`Prog.Asks` says of every request of a program that it is of some kind. Whether a request may be made
can also depend on what the process has heard and seen since its start: a program that keeps
`Contract.authority` whatever it may have seen makes its requests, in every run of a pool, on the
authority of what it did see.
-/

namespace Lib

variable {τ σ ι Q ρ α β : Type} {A : Q → Type}

namespace Prog

/-- Every request of the program, in whatever state it comes to it, satisfies `G`. -/
def Asks (G : Q → Prop) : Prog σ ι A α → Prop
  | .done _ => True
  | .atomic _ f k => ∀ s, Asks G (k (f s).1)
  | .call q k => G q ∧ ∀ a, Asks G (k a)

variable {G G' : Q → Prop} {p : Prog σ ι A α}

theorem Asks.mono (hp : p.Asks G) (hG : ∀ q, G q → G' q) : p.Asks G' := by
  induction p with
  | done a => exact trivial
  | atomic l f k ih => exact fun s => ih _ (hp s)
  | call q k ih => exact ⟨hG q hp.1, fun a => ih a (hp.2 a)⟩

theorem Asks.bind {g : α → Prog σ ι A β} (hp : p.Asks G) (hg : ∀ a, (g a).Asks G) :
    (p.bind g).Asks G := by
  induction p with
  | done a => exact hg a
  | atomic l f k ih => exact fun s => ih _ (hp s)
  | call q k ih => exact ⟨hp.1, fun a => ih a (hp.2 a)⟩

theorem Asks.sequenced (G : Q → Prop) :
    Sequenced fun (α : Type) (p : Prog σ ι A α) => p.Asks G := ⟨fun _ => trivial, Asks.bind⟩

end Prog

/-! ## Contracts of what was seen -/

/-- A process that has seen, after each of its histories, only states that `M` holds of, makes the
requests that `G` allows by then. -/
def Contract.authority (M : History ι A → σ → Prop) (G : History ι A → Q → Prop) : Contract σ ι A where
  rely h _ s := M h s
  ans _ _ _ _ := True
  step _ _ _ _ := True
  guard h q _ := G h q

section
variable {M : History ι A → σ → Prop} {G : History ι A → Q → Prop} {h : History ι A} {s s' : σ}
  {Φ : α → History ι A → σ → Prop} {p : Prog σ ι A α}

/-- The state at which a program begins does not matter. -/
theorem Prog.wp_authority (hΦ : ∀ a s s', Φ a h s → Φ a h s')
    (hp : p.wp (.authority M G) Φ h s) : p.wp (.authority M G) Φ h s' := by
  cases p with
  | done a => exact hΦ a s s' hp
  | atomic l f k => exact hp
  | call q k => exact hp

/-- Requests that are allowed from now on. -/
theorem Prog.Asks.wp {G₀ : Q → Prop} (hp : p.Asks G₀) (hG : ∀ h' q, h <:+ h' → G₀ q → G h' q) :
    p.wp (.authority M G) (fun _ h' _ => h <:+ h') h s := by
  induction p generalizing h s with
  | done a => exact List.suffix_rfl
  | atomic l f k ih =>
    refine fun s' _ => ⟨trivial, wp_mono (fun _ _ _ hh => (List.suffix_cons _ _).trans hh)
      (ih _ (hp s') fun h' q hh => hG h' q ((List.suffix_cons _ _).trans hh))⟩
  | call q k ih =>
    refine fun s' _ => ⟨hG h q List.suffix_rfl hp.1, fun a _ =>
      wp_mono (fun _ _ _ hh => (List.suffix_cons _ _).trans hh)
        (ih a (hp.2 a) fun h' q hh => hG h' q ((List.suffix_cons _ _).trans hh))⟩

end

namespace Pool

section
variable [DecidableEq τ] {start : Prog σ ι A ρ → Prop} {ok : Pool τ σ ι A ρ → Act τ ι A → Prop}
  {P₀ P P' : Pool τ σ ι A ρ}

/-- Since its last start, and with history `h`, process `i` took an event in the state `s`. -/
def Took (start : Prog σ ι A ρ → Prop) (ok : Pool τ σ ι A ρ → Act τ ι A → Prop)
    (P : Pool τ σ ι A ρ) (i : τ) (h : History ι A) (s : σ) : Prop :=
  ∃ P₁ tr e, Run start ok P₁ P ∧ P.trace = tr ++ .event i e :: P₁.trace ∧ .start i ∉ tr ∧
    P₁.hist i = h ∧ P₁.state = s

/-- With history `h` process `i` took an event in the state `s`, or is about to. -/
def Saw (start : Prog σ ι A ρ → Prop) (ok : Pool τ σ ι A ρ → Act τ ι A → Prop)
    (P : Pool τ σ ι A ρ) (i : τ) (h : History ι A) (s : σ) : Prop :=
  Took start ok P i h s ∨ P.hist i = h ∧ P.state = s

theorem took_self {i : τ} {e : Event ι A} (hok : ok P (.event i e))
    (hs : Step start P (.event i e) P') : Took start ok P' i (P.hist i) P.state :=
  ⟨P, [], e, Runs.refl.tail hok hs, hs.trace_eq, List.not_mem_nil, rfl, rfl⟩

theorem Took.step {act : Act τ ι A} {i : τ} {h : History ι A} {s : σ} (htook : Took start ok P i h s)
    (hok : ok P act) (hs : Step start P act P') (hact : act ≠ .start i) :
    Took start ok P' i h s := by
  obtain ⟨P₁, tr, e, hrun, htr, hi, hh, hst⟩ := htook
  refine ⟨P₁, act :: tr, e, hrun.tail hok hs, by rw [hs.trace_eq, htr, List.cons_append], ?_, hh, hst⟩
  rintro (_ | ⟨_, hmem⟩)
  · exact hact rfl
  · exact hi hmem

end

section
variable [DecidableEq τ] {start : Prog σ ι A PUnit → Prop} {ok : Pool τ σ ι A → Act τ ι A → Prop}
  {G : (History ι A → σ → Prop) → History ι A → Q → Prop} {s₀ : σ} {P P' : Pool τ σ ι A}

/-- A process keeps the contract of the states it took its events in, when the programs keep the
contract whatever they may see. -/
theorem Run.keeps_authority
    (hstart : ∀ p, start p → ∀ M s, p.wp (.authority M (G M)) (fun _ _ _ => True) [] s)
    (hrun : Run start ok (.idle s₀) P) (i : τ) {M : History ι A → σ → Prop}
    (hM : ∀ h s, Took start ok P i h s → M h s) :
    (P.prog i).wp (.authority M (G M)) (fun _ _ _ => True) (P.hist i) P.state := by
  induction hrun with
  | refl => exact trivial
  | @tail P P' _ hstep ih =>
    obtain ⟨act, hok, hs⟩ := hstep
    by_cases hact : act = .start i
    · subst hact
      cases hs with
      | start i hp =>
        dsimp only [restart]
        rw [Function.update_self, Function.update_self]
        exact hstart _ hp M P.state
    · have hw := ih fun h s htook => hM h s (htook.step hok hs hact)
      have hself {e : Event ι A} (he : act = .event i e) : M (P.hist i) P.state := by
        subst he
        exact hM _ _ (took_self hok hs)
      cases hs with
      | @atomic j β l f k hj =>
        dsimp only [advance]
        by_cases hij : i = j
        · subst hij
          rw [hj] at hw
          rw [Function.update_self, Function.update_self]
          exact (hw P.state (hself rfl)).2
        · rw [Function.update_of_ne hij, Function.update_of_ne hij]
          exact Prog.wp_authority (fun _ _ _ h => h) hw
      | @call j q k hj a =>
        dsimp only [advance]
        by_cases hij : i = j
        · subst hij
          rw [hj] at hw
          rw [Function.update_self, Function.update_self]
          exact (hw P.state (hself rfl)).2 a trivial
        · rw [Function.update_of_ne hij, Function.update_of_ne hij]
          exact hw
      | @start j p hp =>
        have hij : i ≠ j := fun h => hact (by rw [h])
        dsimp only [restart]
        rw [Function.update_of_ne hij, Function.update_of_ne hij]
        exact hw

/-- In every run of a pool a request is made on the authority of what its process heard and saw since
its start. -/
theorem Run.authorised
    (hstart : ∀ p, start p → ∀ M s, p.wp (.authority M (G M)) (fun _ _ _ => True) [] s)
    (hrun : Run start ok (.idle s₀) P) {i : τ} {q : Q} {a : A q}
    (hs : Step start P (.event i (.call q a)) P') : G (Saw start ok P i) (P.hist i) q := by
  have hw := hrun.keeps_authority (M := Saw start ok P i) hstart i fun _ _ => .inl
  cases hs with
  | call hi a =>
    rw [hi] at hw
    exact (hw P.state (.inr ⟨rfl, rfl⟩)).1

end
end Pool
end Lib
