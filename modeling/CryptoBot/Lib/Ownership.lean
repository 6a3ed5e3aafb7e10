import CryptoBot.Lib.Pool
import CryptoBot.Lib.Sequenced

/-!
# A value that one process owns and the others copy

Part of the shared state is written back whole by every process that updates another part of it,
with what the process has read just before. One process owns the value and may renew it. As long as
no other process writes back what it read before the owner renewed the value, and none takes a step
that only the owner may take, the value changes at the owner's hands only: the owner's program may
be verified as if nobody else touched it.
-/

namespace Lib

variable {τ σ ι Q ε γ ρ α β : Type} {A : Q → Type}

/-- A value in the shared state, the steps that write it back, those that may renew it, and those
that only its owner takes. -/
structure Ownership (σ ι γ : Type) where
  value : σ → γ
  writes : ι → Bool
  renews : ι → Bool
  owners : ι → Bool

namespace Ownership

variable (K : Ownership σ ι γ)

/-- With `g` read at its last step, the program writes back what it has read last, and leaves the
value alone otherwise, until it takes a step that is the owner's; where it finishes before that,
`Φ` holds. -/
def Copies (Φ : Prop) : γ → Prog σ ι A α → Prop
  | _, .done _ => Φ
  | g, .atomic l f k => ∀ s, K.value (f s).2 = (if K.writes l then g else K.value s) ∧
      (K.owners l = false → Copies Φ (K.value (f s).2) (k (f s).1))
  | g, .call _ k => ∀ a, Copies Φ g (k a)

variable {K} {Φ Ψ : Prop}

theorem Copies.bind {p : Prog σ ι A α} {k : α → Prog σ ι A β} {g : γ} (hp : K.Copies Φ g p)
    (hk : Φ → ∀ a g, K.Copies Ψ g (k a)) : K.Copies Ψ g (p.bind k) := by
  induction p generalizing g with
  | done a => exact hk hp a g
  | atomic l f k ih => exact fun s => ⟨(hp s).1, fun hl => ih _ ((hp s).2 hl)⟩
  | call q k ih => exact fun a => ih a (hp a)

/-- A program that takes no writing step and leaves the value alone. -/
theorem copies_of_within {R : ι → σ → σ → Prop}
    (hR : ∀ {l s s'}, R l s s' → K.writes l = false ∧ K.value s' = K.value s) (hΦ : Φ) :
    ∀ {p : Prog σ ι A α}, p.Within R → ∀ g, K.Copies Φ g p
  | .done _, _, _ => hΦ
  | .atomic .., hp, _ => fun s =>
      ⟨by rw [(hR (hp s).1).1]; exact (hR (hp s).1).2,
        fun _ => copies_of_within hR hΦ (hp s).2 _⟩
  | .call .., hp, _ => fun a => copies_of_within hR hΦ (hp a) _

variable (K) in
/-- Copying is handed on to sequences. -/
theorem sequenced : Sequenced fun (α : Type) (p : Prog σ ι A α) => ∀ g, K.Copies True g p where
  done _ _ := trivial
  bind hp hk g := (hp g).bind fun _ => hk

/-! ## Pools -/

variable (K) in
/-- The owner has renewed the value since the last step of process `j`. -/
def outdated [DecidableEq τ] (c j : τ) : List (Act τ ι A) → Bool
  | [] => false
  | .event i (.step l) :: tr => if i = j then false else (decide (i = c) && K.renews l) || outdated c j tr
  | _ :: tr => outdated c j tr

variable (K) in
/-- No process but the owner writes back an outdated value, or takes a step of the owner's. -/
def Met [DecidableEq τ] (c : τ) (P : Pool τ σ ι A ρ) (act : Act τ ι A) : Prop :=
  ∀ j l, act = .event j (.step l) → j ≠ c →
    K.owners l = false ∧ (K.writes l → K.outdated c j P.trace = false)

instance [DecidableEq τ] (c : τ) (P : Pool τ σ ι A ρ) : ∀ act, Decidable (K.Met c P act)
  | .start _ => isTrue fun _ _ h => (by cases h)
  | .event _ (.call _ _) => isTrue fun _ _ h => (by cases h)
  | .event j (.step l) =>
    decidable_of_iff (j ≠ c → K.owners l = false ∧ (K.writes l → K.outdated c j P.trace = false))
      ⟨by rintro h _ _ ⟨⟩; exact h, fun h => h j l rfl⟩

section
variable [DecidableEq τ] {C : Contract σ ι A} {c : τ} {start : Prog σ ι A ρ → Prop}
  {P P' : Pool τ σ ι A ρ} {act : Act τ ι A}

/-- The owner keeps its contract, and the others copy the value, each with what it has read last,
which is the value unless it is outdated. -/
structure Sound (K : Ownership σ ι γ) (C : Contract σ ι A) (c : τ) (P : Pool τ σ ι A ρ) :
    Prop where
  owner : (P.prog c).wp C (fun _ _ _ => True) (P.hist c) P.state
  others : ∀ j, j ≠ c → ∃ g, K.Copies True g (P.prog j) ∧
    (K.outdated c j P.trace = false → g = K.value P.state)

/-- What the owner's contract must come to: it relies on the value and on nothing else, and only its
renewing steps change the value. -/
structure Governs (K : Ownership σ ι γ) (C : Contract σ ι A) : Prop where
  rely : ∀ {h s s'}, C.rely h s s' ↔ K.value s' = K.value s
  ans : ∀ h q s a, C.ans h q s a
  kept : ∀ {h l s s'}, C.step h l s s' → K.renews l = false → K.value s' = K.value s

theorem Governs.stable (hC : K.Governs C) : C.Stable fun _ => True where
  refl _ _ _ := hC.rely.2 rfl
  trans h h' := hC.rely.2 ((hC.rely.1 h').trans (hC.rely.1 h))

theorem sound_idle (K : Ownership σ ι γ) (C : Contract σ ι A) (c : τ) (s : σ) :
    K.Sound C c (Pool.idle s : Pool τ σ ι A) :=
  ⟨trivial, fun _ _ => ⟨K.value s, trivial, fun _ => rfl⟩⟩

/-- A step under the condition: the owner's keeps its contract, another's leaves the value alone. -/
theorem Sound.step (hC : K.Governs C)
    (hstart : ∀ {p}, start p → (∀ s, p.wp C (fun _ _ _ => True) [] s) ∧ ∀ g, K.Copies True g p)
    (hP : K.Sound C c P) (hmet : K.Met c P act) (hs : Pool.Step start P act P') :
    K.Sound C c P' ∧
      ((∃ l, act = .event c (.step l) ∧ P'.hist c = .step l :: P.hist c ∧
        C.step (P.hist c) l P.state P'.state) ∨
      (K.value P'.state = K.value P.state ∧ ∀ l, act ≠ .event c (.step l))) := by
  have hlasting : C.Lasting fun (_ : ρ) _ _ => True := fun _ _ _ _ _ _ => trivial
  cases hs with
  | @atomic i β l f k hi =>
    by_cases hic : i = c
    · subst hic
      have hw := hP.owner
      rw [hi] at hw
      obtain ⟨hstep, hrest⟩ := hw P.state (hC.rely.2 rfl)
      refine ⟨⟨?_, fun j hj => ?_⟩, .inl ⟨l, rfl, ?_, hstep⟩⟩
      · simpa [Pool.advance] using hrest
      · obtain ⟨g, hg, hvalue⟩ := hP.others j hj
        refine ⟨g, by simpa [Pool.advance, Function.update_of_ne hj] using hg, fun hout => ?_⟩
        change (if i = j then false else (decide (i = i) && K.renews l) || _) = false at hout
        rw [if_neg (Ne.symm hj), Bool.or_eq_false_iff, decide_eq_true rfl, Bool.true_and] at hout
        exact (hvalue hout.2).trans (hC.kept hstep hout.1).symm
      · simp [Pool.advance]
    · obtain ⟨g, hg, hvalue⟩ := hP.others i hic
      obtain ⟨howners, hfresh⟩ := hmet i l rfl hic
      rw [hi] at hg
      obtain ⟨hcopy, hrest⟩ := hg P.state
      -- what is written back is what is there
      have hkept : K.value (f P.state).2 = K.value P.state := by
        rw [hcopy]
        split
        · next hw => exact hvalue (hfresh hw)
        · rfl
      refine ⟨⟨?_, fun j hj => ?_⟩, .inr ⟨hkept, fun l' h => hic (by cases h; rfl)⟩⟩
      · have hrely := Prog.wp_rely hC.stable hlasting hP.owner (hC.rely.2 hkept)
        simpa [Pool.advance, Function.update_of_ne (Ne.symm hic)] using hrely
      · by_cases hij : j = i
        · subst hij
          exact ⟨_, by simpa [Pool.advance] using hrest howners, fun _ => rfl⟩
        · obtain ⟨g', hg', hvalue'⟩ := hP.others j hj
          refine ⟨g', by simpa [Pool.advance, Function.update_of_ne hij] using hg', fun hout => ?_⟩
          change (if i = j then false else (decide (i = c) && K.renews l) || _) = false at hout
          rw [if_neg (Ne.symm hij), Bool.or_eq_false_iff] at hout
          exact (hvalue' hout.2).trans hkept.symm
  | @call i q k hi a =>
    refine ⟨⟨?_, fun j hj => ?_⟩, .inr ⟨rfl, fun l h => by cases h⟩⟩
    · by_cases hic : i = c
      · subst hic
        have hw := hP.owner
        rw [hi] at hw
        simpa [Pool.advance] using (hw P.state (hC.rely.2 rfl)).2 a (hC.ans _ _ _ _)
      · simpa [Pool.advance, Function.update_of_ne (Ne.symm hic)] using hP.owner
    · obtain ⟨g, hg, hvalue⟩ := hP.others j hj
      refine ⟨g, ?_, hvalue⟩
      by_cases hij : j = i
      · subst hij
        rw [hi] at hg
        simpa [Pool.advance] using hg a
      · simpa [Pool.advance, Function.update_of_ne hij] using hg
  | @start i p hp =>
    obtain ⟨hw, hcopies⟩ := hstart hp
    refine ⟨⟨?_, fun j hj => ?_⟩, .inr ⟨rfl, fun l h => by cases h⟩⟩
    · by_cases hic : i = c
      · subst hic
        simpa [Pool.restart] using hw P.state
      · simpa [Pool.restart, Function.update_of_ne (Ne.symm hic)] using hP.owner
    · by_cases hij : j = i
      · subst hij
        exact ⟨K.value P.state, by simpa [Pool.restart] using hcopies _, fun _ => rfl⟩
      · obtain ⟨g, hg, hvalue⟩ := hP.others j hj
        exact ⟨g, by simpa [Pool.restart, Function.update_of_ne hij] using hg, hvalue⟩

end
end Ownership
end Lib
