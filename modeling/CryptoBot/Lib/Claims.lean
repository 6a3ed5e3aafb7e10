import CryptoBot.Lib.Pool
import CryptoBot.Lib.Sequenced

/-!
# Claiming a key before spending it

Several programs share a state in which keys are taken once and for all. An atomic step may claim
an item, when it takes the item's key and the key was free; a request may spend an item. A program
is thrifty when it spends only what its own last atomic step has claimed. In a pool of thrifty
programs every key is spent at most once, whatever the interleaving and however often a process is
killed and started again: a claim that its process did not live to spend is lost, never doubled.
-/

namespace Lib

variable {τ σ ι Q χ κ : Type} {A : Q → Type}

/-- What it means to claim and to spend an item: its key, the keys a state has taken, the steps that
claim it and the request that spends it. -/
structure Claims (σ Q χ κ : Type) where
  key : χ → κ
  taken : σ → κ → Prop
  claims : σ → σ → χ → Prop
  spends : Q → Option χ
  free : ∀ {s s' x}, claims s s' x → ¬ taken s (key x)
  takes : ∀ {s s' x}, claims s s' x → taken s' (key x)

variable {K : Claims σ Q χ κ}

/-- A program that gives back no key, and spends an item only right after it has claimed it; `t` is
the item it has just claimed. -/
def Prog.Thrifty (K : Claims σ Q χ κ) {α : Type} : Option χ → Prog σ ι A α → Prop
  | _, .done _ => True
  | _, .atomic _ f k => ∀ s, (∀ x, K.taken s x → K.taken (f s).2 x) ∧
      (Thrifty K none (k (f s).1) ∨ ∃ x, K.claims s (f s).2 x ∧ Thrifty K (some x) (k (f s).1))
  | t, .call q k => (∀ x, K.spends q = some x → t = some x) ∧ ∀ a, Thrifty K none (k a)

namespace Prog

/-- An item that was claimed need not be spent. -/
theorem Thrifty.weaken {α : Type} {p : Prog σ ι A α} (hp : p.Thrifty K none) (t : Option χ) :
    p.Thrifty K t := by
  cases p with
  | done a => trivial
  | atomic l f k => exact hp
  | call q k => exact ⟨fun x hx => absurd (hp.1 x hx) (Option.some_ne_none x).symm, hp.2⟩

theorem Thrifty.bind {α β : Type} {p : Prog σ ι A α} {g : α → Prog σ ι A β} {t : Option χ}
    (hp : p.Thrifty K t) (hg : ∀ a, (g a).Thrifty K none) : (p.bind g).Thrifty K t := by
  induction p generalizing t with
  | done a => exact (hg a).weaken t
  | atomic l f k ih =>
    refine fun s => ⟨(hp s).1, (hp s).2.imp (fun h => ih _ h) ?_⟩
    rintro ⟨x, hx, h⟩
    exact ⟨x, hx, ih _ h⟩
  | call q k ih => exact ⟨hp.1, fun a => ih a (hp.2 a)⟩

/-- Being thrifty is handed on to sequences. -/
theorem Thrifty.sequenced (K : Claims σ Q χ κ) :
    Sequenced fun (α : Type) (p : Prog σ ι A α) => p.Thrifty K none where
  done _ := trivial
  bind := Thrifty.bind

/-- One atomic step that claims nothing. -/
theorem Thrifty.step {α : Type} {l : ι} {f : σ → α × σ}
    (hf : ∀ s x, K.taken s x → K.taken (f s).2 x) :
    (Prog.step l f : Prog σ ι A α).Thrifty K none := fun s => ⟨hf s, .inl trivial⟩

end Prog

namespace Pool

variable {start : Prog σ ι A PUnit → Prop} {P₀ P P' : Pool τ σ ι A}

/-- Process `i` is at a request that spends `x`: it is about to send it, or waits for its answer. -/
def Spending (K : Claims σ Q χ κ) (P : Pool τ σ ι A) (i : τ) (x : χ) : Prop :=
  ∃ q k, P.prog i = .call q k ∧ K.spends q = some x

/-- What a step of a pool spends: the item of a request that is answered, and that of a request whose
process is killed, which may or may not have been sent. -/
def spentBy (K : Claims σ Q χ κ) (P : Pool τ σ ι A) : Act τ ι A → Option χ
  | .event i _ | .start i =>
    match P.prog i with
    | .call q _ => K.spends q
    | _ => none

variable [DecidableEq τ]

/-- A run together with the items it spends, newest first. -/
inductive Spends (K : Claims σ Q χ κ) (start : Prog σ ι A PUnit → Prop) (P₀ : Pool τ σ ι A) :
    Pool τ σ ι A → List χ → Prop
  | refl : Spends K start P₀ P₀ []
  | tail {P act P' xs} (h : Spends K start P₀ P xs) (hs : Pool.Step start P act P') :
      Spends K start P₀ P' ((spentBy K P act).toList ++ xs)

variable {xs : List χ}

theorem Spends.run (h : Spends K start P₀ P xs) : Pool.Run start (fun _ _ => True) P₀ P := by
  induction h with
  | refl => exact .refl
  | tail _ hs ih => exact ih.tail trivial hs

/-- The item has been claimed by a step between the two pools. -/
def Claimed (K : Claims σ Q χ κ) (start : Prog σ ι A PUnit → Prop) (P₀ P : Pool τ σ ι A) (x : χ) :
    Prop :=
  ∃ P₁ act P₂, Pool.Run start (fun _ _ => True) P₀ P₁ ∧ Pool.Step start P₁ act P₂ ∧
    Pool.Run start (fun _ _ => True) P₂ P ∧ K.claims P₁.state P₂.state x

theorem Claimed.tail {act : Act τ ι A} {x : χ} (h : Claimed K start P₀ P x)
    (hs : Pool.Step start P act P') : Claimed K start P₀ P' x := by
  obtain ⟨P₁, act₁, P₂, h₁, hs₁, h₂, hc⟩ := h
  exact ⟨P₁, act₁, P₂, h₁, hs₁, h₂.tail trivial hs, hc⟩

/-- The claims of a pool in order: every process is thrifty with the item `t i` it holds; what is
held is taken, not yet spent and held by one process only; what was spent is taken, and was spent
once. -/
structure Orderly (K : Claims σ Q χ κ) (start : Prog σ ι A PUnit → Prop) (P₀ P : Pool τ σ ι A)
    (t : τ → Option χ) (xs : List χ) : Prop where
  prog : ∀ i, (P.prog i).Thrifty K (t i)
  taken : ∀ i x, t i = some x → K.taken P.state (K.key x)
  unspent : ∀ i x, t i = some x → ∀ y ∈ xs, K.key y ≠ K.key x
  apart : ∀ i j x y, t i = some x → t j = some y → K.key x = K.key y → i = j
  claimed : ∀ i x, t i = some x → Claimed K start P₀ P x
  spentTaken : ∀ x ∈ xs, K.taken P.state (K.key x)
  once : xs.Pairwise fun x y => K.key x ≠ K.key y

omit [DecidableEq τ] in
theorem none_ne_some {x : χ} (h : (none : Option χ) = some x) {p : Prop} : p := by cases h

theorem orderly_idle (s : σ) :
    Orderly K start (idle s : Pool τ σ ι A) (idle s) (fun _ => none) [] where
  prog _ := trivial
  taken _ _ h := none_ne_some h
  unspent _ _ h := none_ne_some h
  apart _ _ _ _ h := none_ne_some h
  claimed _ _ h := none_ne_some h
  spentTaken _ h := absurd h List.not_mem_nil
  once := .nil

variable {t : τ → Option χ}

/-- A process spends what it holds. -/
theorem Orderly.holds_of_spending (h : Orderly K start P₀ P t xs) {i : τ} {x : χ}
    (hi : Spending K P i x) : t i = some x := by
  obtain ⟨q, k, hprog, hq⟩ := hi
  have hw := h.prog i
  rw [hprog] at hw
  exact hw.1 x hq

/-- What is held after process `i` has let go of its item and taken up `o`. -/
theorem update_some {i j : τ} {o : Option χ} {x : χ}
    (h : Function.update t i o j = some x) : (j = i ∧ o = some x) ∨ (j ≠ i ∧ t j = some x) := by
  by_cases hij : j = i
  · subst hij
    rw [Function.update_self] at h
    exact .inl ⟨rfl, h⟩
  · rw [Function.update_of_ne hij] at h
    exact .inr ⟨hij, h⟩

omit [DecidableEq τ] in
theorem spending_of_spentBy {i : τ} {x : χ} (h : spentBy K P (.start i) = some x) :
    Spending K P i x := by
  simp only [spentBy] at h
  split at h
  · next q k hprog => exact ⟨q, k, hprog, h⟩
  · exact none_ne_some h

/-- Process `i` lets go of its item, which may be spent thereby (`y`), and claims another one (`o`)
only when none was spent. -/
theorem Orderly.move {act : Act τ ι A} {i : τ} {o y : Option χ} (h : Orderly K start P₀ P t xs)
    (hs : Pool.Step start P act P') (hmono : ∀ x, K.taken P.state x → K.taken P'.state x)
    (hprog : ∀ j, (P'.prog j).Thrifty K (Function.update t i o j))
    (hy : ∀ x, y = some x → t i = some x)
    (ho : ∀ x, o = some x → y = none ∧ K.claims P.state P'.state x ∧ Claimed K start P₀ P' x) :
    Orderly K start P₀ P' (Function.update t i o) (y.toList ++ xs) := by
  have hfree {x : χ} (hx : o = some x) : ¬ K.taken P.state (K.key x) := K.free (ho x hx).2.1
  have hmem {z : χ} (hz : z ∈ y.toList ++ xs) : t i = some z ∧ y = some z ∨ z ∈ xs := by
    rcases List.mem_append.1 hz with hz | hz
    · have hz := Option.mem_toList.1 hz
      exact .inl ⟨hy z hz, hz⟩
    · exact .inr hz
  refine ⟨hprog, fun j x hj => ?_, fun j x hj z hz => ?_, fun j k x z hj hk hxz => ?_,
    fun j x hj => ?_, fun z hz => ?_, ?_⟩
  · rcases update_some hj with ⟨-, hx⟩ | ⟨-, hj⟩
    · exact K.takes (ho x hx).2.1
    · exact hmono _ (h.taken j x hj)
  · rcases update_some hj with ⟨-, hx⟩ | ⟨hne, hj⟩
    · rcases hmem hz with ⟨-, hyz⟩ | hz
      · exact none_ne_some ((ho x hx).1.symm.trans hyz)
      · exact fun hzx => hfree hx (hzx ▸ h.spentTaken z hz)
    · rcases hmem hz with ⟨hi, -⟩ | hz
      · exact fun hzx => hne (h.apart i j z x hi hj hzx).symm
      · exact h.unspent j x hj z hz
  · rcases update_some hj with ⟨hji, hx⟩ | ⟨-, hj⟩
    · rcases update_some hk with ⟨hki, -⟩ | ⟨-, hk⟩
      · exact hji.trans hki.symm
      · exact absurd (hxz ▸ h.taken k z hk) (hfree hx)
    · rcases update_some hk with ⟨-, hz⟩ | ⟨-, hk⟩
      · exact absurd (hxz ▸ h.taken j x hj) (hfree hz)
      · exact h.apart j k x z hj hk hxz
  · rcases update_some hj with ⟨-, hx⟩ | ⟨-, hj⟩
    · exact (ho x hx).2.2
    · exact (h.claimed j x hj).tail hs
  · rcases hmem hz with ⟨hi, -⟩ | hz
    · exact hmono _ (h.taken i z hi)
    · exact hmono _ (h.spentTaken z hz)
  · cases hyx : y with
    | none => exact h.once
    | some x =>
      exact List.pairwise_cons.2
        ⟨fun z hz hxz => h.unspent i x (hy x hyx) z hz hxz.symm, h.once⟩

/-- A step of a pool of thrifty programs keeps the order. -/
theorem Orderly.step {act : Act τ ι A} (hstart : ∀ p, start p → p.Thrifty K none)
    (hrun : Pool.Run start (fun _ _ => True) P₀ P) (h : Orderly K start P₀ P t xs)
    (hs : Pool.Step start P act P') :
    ∃ t', Orderly K start P₀ P' t' ((spentBy K P act).toList ++ xs) := by
  have hs' := hs
  have hprog {i : τ} {o : Option χ} {p : Prog σ ι A PUnit} (hp : p.Thrifty K o) (j : τ) :
      (Function.update P.prog i p j).Thrifty K (Function.update t i o j) := by
    by_cases hij : j = i
    · subst hij
      simpa using hp
    · simpa [Function.update_of_ne hij] using h.prog j
  have hspent {i : τ} (x : χ) (hx : spentBy K P (.start i) = some x) : t i = some x :=
    h.holds_of_spending (spending_of_spentBy hx)
  cases hs with
  | @atomic i β l f k hi =>
    have hnone : spentBy K P (.event i (.step l)) = none := by simp only [spentBy, hi]
    have hw := h.prog i
    rw [hi] at hw
    obtain ⟨hmono, hw | ⟨x, hx, hw⟩⟩ := hw P.state
    · exact ⟨_, h.move hs' hmono (hprog hw) hspent fun x hx => none_ne_some hx⟩
    · refine ⟨_, h.move hs' hmono (hprog hw) hspent ?_⟩
      rintro _ ⟨⟩
      exact ⟨hnone, hx, P, _, _, hrun, hs', .refl, hx⟩
  | @call i q k hi a =>
    have hw := h.prog i
    rw [hi] at hw
    exact ⟨_, h.move hs' (fun _ hx => hx) (hprog (hw.2 a)) hspent fun x hx => none_ne_some hx⟩
  | @start i p hp =>
    exact ⟨_, h.move hs' (fun _ hx => hx) (hprog (hstart p hp)) hspent
      fun x hx => none_ne_some hx⟩

/-- Every run of a pool of thrifty programs keeps the order. -/
theorem Spends.orderly (hstart : ∀ p, start p → p.Thrifty K none) {s : σ}
    (h : Spends K start (idle s) P xs) : ∃ t, Orderly K start (idle s) P t xs := by
  induction h with
  | refl => exact ⟨_, orderly_idle s⟩
  | tail h hs ih =>
    obtain ⟨t, ht⟩ := ih
    exact ht.step hstart h.run hs

/-- A schedule spends what it spends. -/
theorem Spends.go (env : Prog.Env ι A) (i : τ) (n : Nat) (h : Spends K start P₀ P xs) :
    ∃ ys, Spends K start P₀ (P.go env i n) ys := by
  induction n generalizing P xs with
  | zero => exact ⟨xs, h⟩
  | succ n ih =>
    unfold Pool.go
    split
    · exact ⟨xs, h⟩
    · next hi => exact ih (h.tail (.atomic hi))
    · next hi => exact ih (h.tail (.call hi _))

theorem Spends.restart (i : τ) {p : Prog σ ι A PUnit} (hp : start p)
    (h : Spends K start P₀ P xs) : ∃ ys, Spends K start P₀ (P.restart i p) ys :=
  ⟨_, h.tail (.start i hp)⟩

end Pool
end Lib
