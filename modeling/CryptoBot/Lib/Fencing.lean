import CryptoBot.Lib.Pool

/-!
# Only the last to enter acts

Several processes work on what each of them has read, and only the one that read last may act on
it. A step that *enters* reads the shared state; the steps and requests that *act* presuppose that
what was read still holds. While nobody but the last to enter acts, each process keeps the contract
its program satisfies from its own entry on, whatever the lists the others still hold.
-/

namespace Lib

variable {τ σ ι Q α ρ : Type} {A : Q → Type}

/-- From every entering step taken in a state that meets `gate`, the rest of the program satisfies
`W`. -/
def Prog.Enters (enter : ι → Bool) (gate : ι → σ → Prop) (W : Prog σ ι A α → σ → Prop) :
    Prog σ ι A α → Prop
  | .done _ => True
  | .atomic l f k => ∀ s, (enter l → gate l s → W (k (f s).1) (f s).2) ∧
      (k (f s).1).Enters enter gate W
  | .call _ k => ∀ a, (k a).Enters enter gate W

/-- What an entering program is asked of: which steps enter and under which condition, which events
act, and the contract of a process that has entered. -/
structure Fence (σ ι : Type) {Q : Type} (A : Q → Type) where
  enter : ι → Bool
  gate : ι → σ → Prop
  acts : Event ι A → Bool
  contract : Contract σ ι A

namespace Fence

variable (F : Fence σ ι A)

/-- What a step that does not act does is something every process relies on. -/
def Harmless (I : σ → Prop) (l : ι) (s s' : σ) : Prop :=
  I s → I s' ∧ (F.acts (.step l) = false → ∀ h, F.contract.rely h s s')

/-- A program that keeps the contract from each entry on, and is harmless before. -/
structure Admits (I : σ → Prop) (p : Prog σ ι A ρ) : Prop where
  enters : p.Enters F.enter F.gate fun q s => I s → ∀ h, q.wp F.contract (fun _ _ _ => True) h s
  within : p.Within (F.Harmless I)

/-- The process that entered last, unless it has been started again since. -/
def last [DecidableEq τ] : List (Act τ ι A) → Option τ
  | [] => none
  | .event i (.step l) :: tr => if F.enter l then some i else last tr
  | .event _ (.call _ _) :: tr => last tr
  | .start i :: tr => if last tr = some i then none else last tr

/-- A process enters under the condition of the fence, and acts only while nobody has entered after
it. -/
def Met [DecidableEq τ] (P : Pool τ σ ι A ρ) (act : Act τ ι A) : Prop :=
  (∀ i l, act = .event i (.step l) → F.enter l → F.gate l P.state) ∧
    ∀ i e, act = .event i e → F.acts e → F.last P.trace = some i

instance [DecidableEq τ] [∀ l s, Decidable (F.gate l s)] (P : Pool τ σ ι A ρ) :
    ∀ act, Decidable (F.Met P act)
  | .start _ => isTrue ⟨fun _ _ h => (by cases h), fun _ _ h => (by cases h)⟩
  | .event i (.step l) =>
    decidable_of_iff ((F.enter l → F.gate l P.state) ∧
        (F.acts (.step l) → F.last P.trace = some i)) (by
      constructor
      · rintro ⟨h, h'⟩
        exact ⟨by rintro _ _ ⟨⟩; exact h, by rintro _ _ ⟨⟩; exact h'⟩
      · exact fun h => ⟨h.1 i l rfl, h.2 i _ rfl⟩)
  | .event i (.call q a) =>
    decidable_of_iff (F.acts (.call q a) → F.last P.trace = some i) (by
      constructor
      · exact fun h => ⟨fun _ _ h => (by cases h), by rintro _ _ ⟨⟩; exact h⟩
      · exact fun h => h.2 i _ rfl)

section
variable [DecidableEq τ] {start : Prog σ ι A ρ → Prop} {P P' : Pool τ σ ι A ρ} {I : σ → Prop}
  {act : Act τ ι A} {F}

/-- Every program is admitted, and the last to enter keeps its contract. -/
structure Sound (F : Fence σ ι A) (I : σ → Prop) (P : Pool τ σ ι A ρ) : Prop where
  admits : ∀ i, F.Admits I (P.prog i)
  state : I P.state
  last : ∀ i, F.last P.trace = some i →
    (P.prog i).wp F.contract (fun _ _ _ => True) (P.hist i) P.state

theorem Sound.update_admits (hP : F.Sound I P) {i : τ} {p : Prog σ ι A ρ} (hp : F.Admits I p) :
    ∀ j, F.Admits I (Function.update P.prog i p j) := by
  intro j
  by_cases hj : j = i
  · subst hj
    simpa using hp
  · simpa [Function.update_of_ne hj] using hP.admits j

/-- A step under the condition of the fence keeps the pool sound. -/
theorem Sound.step (hC : F.contract.Stable I) (hans : ∀ h q s a, F.contract.ans h q s a)
    (hstart : ∀ {p}, start p → F.Admits I p) (hP : F.Sound I P) (hmet : F.Met P act)
    (hs : Pool.Step start P act P') : F.Sound I P' := by
  have hlasting : F.contract.Lasting fun (_ : ρ) _ _ => True := fun _ _ _ _ _ _ => trivial
  cases hs with
  | @atomic i β l f k hi =>
    have hadmits := hP.admits i
    rw [hi] at hadmits
    have hrest : F.Admits I (k (f P.state).1) :=
      ⟨(hadmits.enters P.state).2, (hadmits.within P.state).2⟩
    obtain ⟨hI', hharmless⟩ := (hadmits.within P.state).1 hP.state
    refine ⟨hP.update_admits hrest, hI', fun j hj => ?_⟩
    change (if F.enter l then some i else F.last P.trace) = some j at hj
    change (Function.update P.prog i _ j).wp _ _ (Function.update P.hist i _ j) (f P.state).2
    by_cases hl : F.enter l
    · rw [if_pos hl] at hj
      obtain rfl := Option.some.inj hj
      rw [Function.update_self]
      exact (hadmits.enters P.state).1 hl (hmet.1 i l rfl hl) hI' _
    · rw [if_neg hl] at hj
      have hw := hP.last j hj
      by_cases hij : j = i
      · subst hij
        rw [hi] at hw
        rw [Function.update_self, Function.update_self]
        exact (hw P.state (hC.refl _ hP.state)).2
      · -- the step is another process's, so it does not act
        have hacts : F.acts (.step l) = false := by
          by_contra hact
          rw [Bool.not_eq_false] at hact
          exact hij (Option.some.inj (hj.symm.trans (hmet.2 i _ rfl hact)))
        rw [Function.update_of_ne hij, Function.update_of_ne hij]
        exact Prog.wp_rely hC hlasting hw (hharmless hacts _)
  | @call i q k hi a =>
    have hadmits := hP.admits i
    rw [hi] at hadmits
    refine ⟨hP.update_admits ⟨hadmits.enters a, hadmits.within a⟩, hP.state, fun j hj => ?_⟩
    change F.last P.trace = some j at hj
    have hw := hP.last j hj
    change (Function.update P.prog i _ j).wp _ _ (Function.update P.hist i _ j) P.state
    by_cases hij : j = i
    · subst hij
      rw [hi] at hw
      rw [Function.update_self, Function.update_self]
      exact (hw P.state (hC.refl _ hP.state)).2 a (hans _ _ _ _)
    · rw [Function.update_of_ne hij, Function.update_of_ne hij]
      exact hw
  | @start i p hp =>
    refine ⟨hP.update_admits (hstart hp), hP.state, fun j hj => ?_⟩
    change (if F.last P.trace = some i then none else F.last P.trace) = some j at hj
    split at hj
    · cases hj
    · next hne =>
      have hij : j ≠ i := fun h => hne (h ▸ hj)
      change (Function.update P.prog i _ j).wp _ _ (Function.update P.hist i _ j) P.state
      rw [Function.update_of_ne hij, Function.update_of_ne hij]
      exact hP.last j hj

/-- What acts in a sound pool under the condition of the fence keeps the contract. -/
theorem Sound.keeps (hC : F.contract.Stable I) (hP : F.Sound I P) (hmet : F.Met P act)
    (hs : Pool.Step start P act P') :
    (∀ i l, act = .event i (.step l) → F.acts (.step l) →
      F.contract.step (P.hist i) l P.state P'.state) ∧
    ∀ i q a, act = .event i (.call q a) → F.acts (.call q a) →
      F.contract.guard (P.hist i) q P.state := by
  cases hs with
  | @atomic i β l f k hi =>
    refine ⟨fun j l' he hact => ?_, fun j q a he => (by cases he)⟩
    cases he
    have hw := hP.last _ (hmet.2 _ _ rfl hact)
    rw [hi] at hw
    exact (hw P.state (hC.refl _ hP.state)).1
  | @call i q k hi a =>
    refine ⟨fun j l he => (by cases he), fun j q' a' he hact => ?_⟩
    cases he
    have hw := hP.last _ (hmet.2 _ _ rfl hact)
    rw [hi] at hw
    exact (hw P.state (hC.refl _ hP.state)).1
  | start i hp => exact ⟨fun j l he => (by cases he), fun j q a he => (by cases he)⟩

/-- What does not act is harmless. -/
theorem Sound.harmless (hP : F.Sound I P) (hs : Pool.Step start P act P') :
    (∃ i l, act = .event i (.step l) ∧ F.Harmless I l P.state P'.state) ∨
      (∀ i l, act ≠ .event i (.step l)) ∧ P'.state = P.state := by
  cases hs with
  | @atomic i β l f k hi =>
    have hw := (hP.admits i).within
    rw [hi] at hw
    exact .inl ⟨i, l, rfl, (hw P.state).1⟩
  | call => exact .inr ⟨fun _ _ h => (by cases h), rfl⟩
  | start => exact .inr ⟨fun _ _ h => (by cases h), rfl⟩

end

/-- From a state that meets the invariant, every run under the condition of the fence is sound. -/
theorem sound_of_run [DecidableEq τ] {start : Prog σ ι A PUnit → Prop} {P : Pool τ σ ι A}
    {F : Fence σ ι A} {I : σ → Prop} {s : σ} (hC : F.contract.Stable I)
    (hans : ∀ h q s a, F.contract.ans h q s a) (hstart : ∀ {p}, start p → F.Admits I p)
    (hI : I s) (hrun : Pool.Run start F.Met (.idle s) P) : F.Sound I P :=
  hrun.invariant (fun hP hmet hs => hP.step hC hans hstart hmet hs)
    ⟨fun _ => ⟨trivial, trivial⟩, hI, fun _ h => (by cases h)⟩

end Fence
end Lib
