import CryptoBot.Lib.Pool
import CryptoBot.Lib.Table

/-!
# Replaying answers

A service keeps a ledger of the answers it has given, one for each request key, beside the state of
its application. A request that its front lets through looks its key up: the answer of an earlier
request is replayed, and only a request whose key is new is handed to the handler. An answer that
the service accepts is stored after the handler has finished, so two requests with one key may both
be handled while neither answer is stored. Old answers are removed by their age.

Requests are processes of a pool, so they may overlap, be killed and be sent again. Two things hold
however they are interleaved. An accepted answer means that the handler has done its work
(`Service.accepted_done`), and a request that starts when an answer for its key is stored is not
handed to the handler (`Service.not_handled_again`).
-/

namespace Lib

variable {R κ ε ρ β S Λ Q : Type} {A : Q → Type}

/-! ## Changing the contract -/

section
variable {σ ι α : Type}

/-- A program that keeps one contract, and whose steps are ones that another contract allows, keeps
the other one too, when that relies on no less. -/
theorem Prog.wp_of_wp_within {C C' : Contract σ ι A} {W : ι → σ → σ → Prop}
    {Φ : α → History ι A → σ → Prop} (hrely : ∀ h s s', C'.rely h s s' → C.rely h s s')
    (hans : ∀ h q s a, C'.ans h q s a → C.ans h q s a)
    (hstep : ∀ h l s s', W l s s' → C'.step h l s s') (hguard : ∀ h q s, C'.guard h q s) :
    ∀ {p : Prog σ ι A α} {h : History ι A} {s : σ}, p.wp C Φ h s → p.Within W → p.wp C' Φ h s
  | .done _, _, _, hp, _ => hp
  | .atomic .., _, _, hp, hw => fun s' hr =>
      ⟨hstep _ _ _ _ (hw s').1, wp_of_wp_within hrely hans hstep hguard (hp s' (hrely _ _ _ hr)).2
        (hw s').2⟩
  | .call .., _, _, hp, hw => fun s' hr => ⟨hguard _ _ _, fun a ha =>
      wp_of_wp_within hrely hans hstep hguard ((hp s' (hrely _ _ _ hr)).2 a (hans _ _ _ _ ha))
        (hw a)⟩

variable {τ : Type} [DecidableEq τ] {start : Prog σ ι A ρ → Prop} {P P' : Pool τ σ ι A ρ}
  {act : Act τ ι A} {C : Contract σ ι A} {I : σ → Prop} {Φ : τ → ρ → History ι A → σ → Prop}

/-- A process that is not started anew still satisfies its precondition after a step of the pool,
when the step is one it relies on and the answer one it expects. -/
theorem Pool.Step.wp (hC : C.Stable I) (hΦ : ∀ i, C.Lasting (Φ i)) (hI : I P.state)
    (hs : Step start P act P') (hrely : ∀ h, C.rely h P.state P'.state)
    (hans : ∀ i q a, act = .event i (.call q a) → C.ans (P.hist i) q P.state a) {j : τ}
    (hj : act ≠ .start j) (hw : (P.prog j).wp C (Φ j) (P.hist j) P.state) :
    (P'.prog j).wp C (Φ j) (P'.hist j) P'.state := by
  cases hs with
  | @atomic i β l f k hi =>
    change (Function.update P.prog i _ j).wp _ _ (Function.update P.hist i _ j) (f P.state).2
    by_cases hij : j = i
    · subst hij
      rw [hi] at hw
      rw [Function.update_self, Function.update_self]
      exact (hw P.state (hC.refl _ hI)).2
    · rw [Function.update_of_ne hij, Function.update_of_ne hij]
      exact Prog.wp_rely hC (hΦ j) hw (hrely _)
  | @call i q k hi a =>
    change (Function.update P.prog i _ j).wp _ _ (Function.update P.hist i _ j) P.state
    by_cases hij : j = i
    · subst hij
      rw [hi] at hw
      rw [Function.update_self, Function.update_self]
      exact (hw P.state (hC.refl _ hI)).2 a (hans _ _ _ rfl)
    · rw [Function.update_of_ne hij, Function.update_of_ne hij]
      exact hw
  | @start i p hp =>
    change (Function.update P.prog i _ j).wp _ _ (Function.update P.hist i _ j) P.state
    have hij : j ≠ i := fun h => hj (h ▸ rfl)
    rw [Function.update_of_ne hij, Function.update_of_ne hij]
    exact hw

end

/-! ## The ledger of answers -/

/-- An answer that was given, and when it was stored. -/
structure StoredAnswer (κ ε ρ : Type) where
  key : κ
  endpoint : ε
  answer : ρ
  createdAt : Int
deriving DecidableEq

/-- The key is unique. -/
def StoredAnswer.Compatible (a b : StoredAnswer κ ε ρ) : Prop := a.key ≠ b.key

instance [DecidableEq κ] : DecidableRel (StoredAnswer.Compatible (κ := κ) (ε := ε) (ρ := ρ)) :=
  fun _ _ => by unfold StoredAnswer.Compatible; infer_instance

/-- The stored answers beside the state of the application. -/
structure ReplayState (κ ε ρ S : Type) where
  stored : Table (StoredAnswer.Compatible (κ := κ) (ε := ε) (ρ := ρ)) := .empty
  app : S

namespace ReplayState

variable {s : ReplayState κ ε ρ S} {p p' : StoredAnswer κ ε ρ}

/-- The stored answer for a key. -/
def find? [DecidableEq κ] (s : ReplayState κ ε ρ S) (k : κ) : Option (StoredAnswer κ ε ρ) :=
  s.stored.rows.find? fun p => decide (p.key = k)

/-- Storing an answer; a second answer for a key is not stored. -/
def store [DecidableEq κ] (s : ReplayState κ ε ρ S) (p : StoredAnswer κ ε ρ) :
    ReplayState κ ε ρ S :=
  match s.stored.insert? p with
  | some stored => { s with stored }
  | none => s

/-- Removing the answers that were stored before an instant. -/
def prune (s : ReplayState κ ε ρ S) (cutoff : Int) : ReplayState κ ε ρ S :=
  { s with stored := ⟨s.stored.rows.filter fun p => decide (cutoff ≤ p.createdAt),
      s.stored.ok.filter _⟩ }

theorem find?_eq_some [DecidableEq κ] {k : κ} :
    s.find? k = some p ↔ p ∈ s.stored.rows ∧ p.key = k :=
  Table.find?_eq_some StoredAnswer.key (fun _ _ h => h) s.stored

theorem store_cases [DecidableEq κ] :
    s.store p = s ∨ (s.store p).stored.rows = s.stored.rows ++ [p] ∧ (s.store p).app = s.app := by
  unfold store
  split
  · next h => exact .inr ⟨Table.insert?_eq_some.1 h, rfl⟩
  · exact .inl rfl

theorem app_store [DecidableEq κ] : (s.store p).app = s.app := by
  rcases store_cases (s := s) (p := p) with h | ⟨-, h⟩
  · rw [h]
  · exact h

theorem mem_store [DecidableEq κ] (h : p' ∈ s.stored.rows) : p' ∈ (s.store p).stored.rows := by
  rcases store_cases (s := s) (p := p) with hs | ⟨hs, -⟩
  · rwa [hs]
  · rw [hs]
    exact List.mem_append_left _ h

theorem mem_of_store [DecidableEq κ] (h : p' ∈ (s.store p).stored.rows) :
    p' ∈ s.stored.rows ∨ p' = p := by
  rcases store_cases (s := s) (p := p) with hs | ⟨hs, -⟩
  · rw [hs] at h
    exact .inl h
  · rw [hs] at h
    simpa using h

theorem mem_prune {cutoff : Int} :
    p ∈ (s.prune cutoff).stored.rows ↔ p ∈ s.stored.rows ∧ cutoff ≤ p.createdAt := by
  simp [prune]

end ReplayState

/-! ## The service -/

/-- The steps of a request on the shared state. -/
inductive ReplayLabel (R Λ : Type)
  | front (r : R)
  | look (r : R)
  | handle (r : R) (l : Λ)
  | store (r : R)
  | prune
deriving DecidableEq

/-- A program of a service. -/
abbrev ServiceProgram (R κ ε ρ S Λ : Type) {Q : Type} (A : Q → Type) (α : Type) : Type 1 :=
  Prog (ReplayState κ ε ρ S) (ReplayLabel R Λ) A α

/-- The processes of a service; the result of a request is the request with its answer. -/
abbrev ServicePool (τ R κ ε ρ S Λ : Type) {Q : Type} (A : Q → Type) : Type 1 :=
  Pool τ (ReplayState κ ε ρ S) (ReplayLabel R Λ) A (Option (R × ρ))

/-- What a service is made of: what tells requests apart and which of them are in the ledger, the
front, which refuses a request or loads something for the handler, what a request is to be that it
lets through, the handler, the answers that are stored, the answer to a key that was used for another
endpoint, the mark of a replayed answer, the clock and how long answers are kept. -/
structure Service (R κ ε ρ β S Λ : Type) {Q : Type} (A : Q → Type) where
  key : R → κ
  endpoint : R → ε
  ledgered : R → Bool
  front : R → ServiceProgram R κ ε ρ S Λ A (Except ρ β)
  passes : R → Prop
  handler : R → β → ServiceProgram R κ ε ρ S Λ A ρ
  accepted : ρ → Bool
  conflict : ρ
  replayed : ρ → ρ
  clock : Q
  time : A clock → Int
  retention : Int

/-- The contract of a program of which nothing is asked, whatever goes on beside it. -/
def Contract.free {σ ι : Type} : Contract σ ι A where
  rely _ _ _ := True
  ans _ _ _ _ := True
  step _ _ _ _ := True
  guard _ _ _ := True

/-- What the front of a service comes to: a refusal is not accepted, and what is let through is as it
should be. -/
def Service.Fronted (V : Service R κ ε ρ β S Λ A) (r : R) (x : Except ρ β) : Prop :=
  (∀ y, x = .error y → V.accepted y = false) ∧ (x.isOk → V.passes r)

/-- What a service is to meet: its front changes nothing, the handler works on the application alone
and under its own labels, no refusal is accepted, and a replayed answer is accepted as the answer
itself. -/
structure Service.Lawful (V : Service R κ ε ρ β S Λ A) : Prop where
  front : ∀ r, (V.front r).Within fun l s s' => l = .front r ∧ s' = s
  fronted : ∀ r h s, (V.front r).wp .free (fun x _ _ => V.Fronted r x) h s
  handler : ∀ r b, (V.handler r b).Within fun l s s' =>
    (∃ m, l = .handle r m) ∧ s'.stored = s.stored
  conflict : V.accepted V.conflict = false
  replayed : ∀ x, V.accepted (V.replayed x) = V.accepted x

namespace Service

variable (V : Service R κ ε ρ β S Λ A)

/-- The answer that a stored one gives to a request. -/
def replay [DecidableEq ε] (r : R) (p : StoredAnswer κ ε ρ) : ρ :=
  if p.endpoint = V.endpoint r then V.replayed p.answer else V.conflict

/-- What follows an answer of the handler: an accepted one is stored. -/
def finish [DecidableEq κ] (r : R) (x : ρ) : ServiceProgram R κ ε ρ S Λ A (Option (R × ρ)) :=
  if V.accepted x then
    .call V.clock fun t => .atomic (.store r)
      (fun s => ((), s.store ⟨V.key r, V.endpoint r, x, V.time t⟩)) fun _ => .done (some (r, x))
  else .done (some (r, x))

/-- The removal of old answers. -/
def cleanup : ServiceProgram R κ ε ρ S Λ A (Option (R × ρ)) :=
  .call V.clock fun t => .atomic .prune
    (fun s => ((), s.prune (V.time t - V.retention))) fun _ => .done none

section
variable [DecidableEq κ] [DecidableEq ε]

/-- What follows the look-up. -/
def proceed (r : R) (b : β) :
    Option (StoredAnswer κ ε ρ) → ServiceProgram R κ ε ρ S Λ A (Option (R × ρ))
  | some p => .done (some (r, V.replay r p))
  | none => (V.handler r b).bind (V.finish r)

/-- What follows the front. -/
def letIn (r : R) : Except ρ β → ServiceProgram R κ ε ρ S Λ A (Option (R × ρ))
  | .error x => .done (some (r, x))
  | .ok b =>
    if V.ledgered r then
      .atomic (.look r) (fun s => (s.find? (V.key r), s)) (V.proceed r b)
    else (V.handler r b).bind fun x => .done (some (r, x))

/-- A request. -/
def serve (r : R) : ServiceProgram R κ ε ρ S Λ A (Option (R × ρ)) := (V.front r).bind (V.letIn r)

/-- What a process of the service is started with: a request that was sent, or the removal of old
answers. -/
inductive Starts (sent : R → Prop) : ServiceProgram R κ ε ρ S Λ A (Option (R × ρ)) → Prop
  | serve (r : R) (hr : sent r) : Starts sent (V.serve r)
  | cleanup : Starts sent V.cleanup

end

variable {V}

/-- A service with nothing to do. -/
def idle {τ : Type} (s : ReplayState κ ε ρ S) : ServicePool τ R κ ε ρ S Λ A :=
  ⟨fun _ => .done none, fun _ => [], [], s⟩

/-- What the front leads to, under any contract that admits the steps of the front. -/
theorem wp_front (hV : V.Lawful) {C : Contract (ReplayState κ ε ρ S) (ReplayLabel R Λ) A} {r : R}
    (hstep : ∀ h s, C.step h (.front r) s s) (hguard : ∀ h q s, C.guard h q s)
    (h : History (ReplayLabel R Λ) A) (s : ReplayState κ ε ρ S) :
    (V.front r).wp C (fun x _ _ => V.Fronted r x) h s := by
  refine Prog.wp_of_wp_within (fun _ _ _ _ => trivial) (fun _ _ _ _ _ => trivial) ?_ hguard
    (hV.fronted r h s) (hV.front r)
  rintro h l s s' ⟨rfl, rfl⟩
  exact hstep h _

/-- A request keeps every contract that admits standing still, storing an answer and the steps of its
handler. -/
theorem serve_keeps [DecidableEq κ] [DecidableEq ε] (hV : V.Lawful)
    {C : Contract (ReplayState κ ε ρ S) (ReplayLabel R Λ) A} {r : R}
    (hrefl : ∀ h l s, C.step h l s s) (hstore : ∀ h s p, C.step h (.store r) s (s.store p))
    (hguard : ∀ h q s, C.guard h q s)
    (hhandler : V.passes r → ∀ b, (V.handler r b).Within fun l s s' => ∀ h, C.step h l s s')
    (h : History (ReplayLabel R Λ) A) (s : ReplayState κ ε ρ S) :
    (V.serve r).wp C (fun _ _ _ => True) h s := by
  refine (Prog.wp_bind _ _ _ _ _).2 (Prog.wp_mono (fun x h s hx => ?_)
    (wp_front hV (fun _ _ => hrefl _ _ _) hguard h s))
  cases x with
  | error y => exact trivial
  | ok b =>
    have hw (h : History (ReplayLabel R Λ) A) (s : ReplayState κ ε ρ S) :
        (V.handler r b).wp C (fun _ _ _ => True) h s :=
      Prog.wp_of_within (I := fun _ _ => True) (fun _ _ => trivial)
        (fun _ _ hstep => ⟨hstep _, trivial⟩) (fun _ _ => ⟨hguard _ _ _, fun _ _ => trivial⟩)
        (hhandler (hx.2 rfl) b) trivial
    dsimp only [letIn]
    split
    · refine fun s₁ _ => ⟨hrefl _ _ _, ?_⟩
      dsimp only
      cases hf : s₁.find? (V.key r) with
      | some p => exact trivial
      | none =>
        refine (Prog.wp_bind _ _ _ _ _).2 (Prog.wp_mono (fun x h s _ => ?_) (hw _ _))
        unfold finish
        split
        · exact fun s₁ _ => ⟨hguard _ _ _, fun t _ s₂ _ => ⟨hstore _ _ _, trivial⟩⟩
        · exact trivial
    · exact (Prog.wp_bind _ _ _ _ _).2 (Prog.wp_mono (fun x h s _ => trivial) (hw _ _))

/-! ## What an accepted answer means -/

section
variable {k : κ} {e : ε} {D : S → Prop} {sent : R → Prop}

/-- Where an answer is stored for the key and the endpoint, `D` has been done. -/
def Backed (k : κ) (e : ε) (D : S → Prop) (s : ReplayState κ ε ρ S) : Prop :=
  ∀ p ∈ s.stored.rows, p.key = k → p.endpoint = e → D s.app

/-- What every step of the service keeps. -/
def Keeping (k : κ) (e : ε) (D : S → Prop) (s s' : ReplayState κ ε ρ S) : Prop :=
  (Backed k e D s → Backed k e D s') ∧ (D s.app → D s'.app)

/-- The contract of a process that relies on the others to undo nothing. -/
def undisturbed (D : S → Prop) : Contract (ReplayState κ ε ρ S) (ReplayLabel R Λ) A where
  rely _ s s' := D s.app → D s'.app
  ans _ _ _ _ := True
  step _ _ _ _ := True
  guard _ _ _ := True

/-- No handler of a request that was sent and is let through undoes `D`. -/
def Kept (V : Service R κ ε ρ β S Λ A) (sent : R → Prop) (D : S → Prop) : Prop :=
  ∀ r b, sent r → V.passes r → (V.handler r b).Within fun _ s s' => D s.app → D s'.app

/-- The requests with key `k` for the endpoint `e` do `D`: an accepted answer of the handler comes
with `D`, and no handler undoes it. -/
structure Does (V : Service R κ ε ρ β S Λ A) (sent : R → Prop) (k : κ) (e : ε) (D : S → Prop) :
    Prop where
  kept : Kept V sent D
  done : ∀ r b, sent r → V.passes r → V.key r = k → V.endpoint r = e → ∀ h s,
    (V.handler r b).wp (undisturbed D) (fun x _ s => V.accepted x → D s.app) h s

/-- The contract of a process of the service: it keeps what `Keeping` says and relies on it. -/
def backing (k : κ) (e : ε) (D : S → Prop) :
    Contract (ReplayState κ ε ρ S) (ReplayLabel R Λ) A where
  rely _ s s' := (D s.app → D s'.app) ∧ Backed k e D s'
  ans _ _ _ _ := True
  step _ _ s s' := Keeping k e D s s'
  guard _ _ _ := True

/-- A request with the key for the endpoint that has an accepted answer has done `D`. -/
def Answered (V : Service R κ ε ρ β S Λ A) (k : κ) (e : ε) (D : S → Prop) (res : Option (R × ρ))
    (_ : History (ReplayLabel R Λ) A) (s : ReplayState κ ε ρ S) : Prop :=
  ∀ r x, res = some (r, x) → V.key r = k → V.endpoint r = e → V.accepted x → D s.app

theorem backing_stable :
    (backing k e D : Contract _ (ReplayLabel R Λ) A).Stable (Backed (ρ := ρ) k e D) where
  refl _ _ hs := ⟨id, hs⟩
  trans := fun ⟨h, _⟩ ⟨h', hs⟩ => ⟨h' ∘ h, hs⟩

theorem answered_lasting : (backing k e D).Lasting (Answered V k e D) :=
  fun _ _ _ _ h hr r x hres hk he hx => hr.1 (h r x hres hk he hx)

theorem Answered.of {r : R} {x : ρ} {h : History (ReplayLabel R Λ) A} {s : ReplayState κ ε ρ S}
    (hx : V.key r = k → V.endpoint r = e → V.accepted x → D s.app) :
    Answered V k e D (some (r, x)) h s := by
  rintro _ _ ⟨⟩
  exact hx

/-- What a handler does is kept. -/
theorem keeping_of_within (hV : V.Lawful) (hD : Kept V sent D) {r : R} (hr : sent r)
    (hpass : V.passes r) (b : β) : (V.handler r b).Within fun _ s s' => Keeping k e D s s' := by
  refine ((hV.handler r b).and (hD r b hr hpass)).mono fun l s s' ⟨⟨_, hst⟩, hkept⟩ => ⟨?_, hkept⟩
  intro hs p hp hk he
  rw [hst] at hp
  exact hkept (hs p hp hk he)

/-- The handler of a request that was sent keeps the contract, and has done `D` where its answer is
accepted. -/
theorem handler_backing (hV : V.Lawful) (hD : Does V sent k e D) {r : R} (hr : sent r)
    (hpass : V.passes r) (b : β) (h : History (ReplayLabel R Λ) A) (s : ReplayState κ ε ρ S) :
    (V.handler r b).wp (backing k e D)
      (fun x _ s => V.key r = k → V.endpoint r = e → V.accepted x → D s.app) h s := by
  have hkeep := keeping_of_within (k := k) (e := e) hV hD.kept hr hpass b
  by_cases hke : V.key r = k ∧ V.endpoint r = e
  · refine Prog.wp_mono (fun x h s hx _ _ => hx) ?_
    refine Prog.wp_of_wp_within ?_ (fun _ _ _ _ _ => trivial) (fun _ _ _ _ h => h)
      (fun _ _ _ => trivial) (hD.done r b hr hpass hke.1 hke.2 h s) hkeep
    exact fun _ _ _ hr => hr.1
  · have hw : (V.handler r b).wp (backing k e D) (fun _ _ _ => True) h s :=
      Prog.wp_of_within (I := fun _ _ => True) (fun _ _ => trivial)
        (fun _ _ h => ⟨h, trivial⟩) (fun _ _ => ⟨trivial, fun _ _ => trivial⟩) hkeep trivial
    exact Prog.wp_mono (fun x h s _ hk he => absurd ⟨hk, he⟩ hke) hw

theorem cleanup_backing (h : History (ReplayLabel R Λ) A) (s : ReplayState κ ε ρ S) :
    V.cleanup.wp (backing k e D) (Answered V k e D) h s := by
  refine fun s₁ _ => ⟨trivial, fun t _ s₂ _ => ⟨⟨fun hs p hp => ?_, id⟩, ?_⟩⟩
  · exact hs p (ReplayState.mem_prune.1 hp).1
  · rintro _ _ ⟨⟩

section
variable [DecidableEq κ]

/-- Storing an accepted answer after `D` has been done. -/
theorem keeping_store {s : ReplayState κ ε ρ S} {p : StoredAnswer κ ε ρ}
    (hp : p.key = k → p.endpoint = e → D s.app) : Keeping k e D s (s.store p) := by
  refine ⟨fun hs p' hp' hk he => ?_, fun h => by rwa [ReplayState.app_store]⟩
  rw [ReplayState.app_store]
  rcases ReplayState.mem_of_store hp' with hp' | rfl
  · exact hs p' hp' hk he
  · exact hp hk he

/-- What follows an answer of the handler. -/
theorem finish_backing {r : R} {x : ρ} {h : History (ReplayLabel R Λ) A}
    {s : ReplayState κ ε ρ S}
    (hx : V.key r = k → V.endpoint r = e → V.accepted x → D s.app) :
    (V.finish r x).wp (backing k e D) (Answered V k e D) h s := by
  unfold finish
  split
  · next hacc =>
    intro s₁ hr
    refine ⟨trivial, fun t _ s₂ hr' => ⟨keeping_store fun hk he => hr'.1 (hr.1 (hx hk he hacc)), ?_⟩⟩
    refine .of fun hk he hacc => ?_
    dsimp only
    rw [ReplayState.app_store]
    exact hr'.1 (hr.1 (hx hk he hacc))
  · exact .of hx

variable [DecidableEq ε]

/-- A request keeps the contract, and has done `D` where it has an accepted answer. -/
theorem serve_backing (hV : V.Lawful) (hD : Does V sent k e D) {r : R} (hr : sent r)
    (h : History (ReplayLabel R Λ) A) (s : ReplayState κ ε ρ S) :
    (V.serve r).wp (backing k e D) (Answered V k e D) h s := by
  refine (Prog.wp_bind _ _ _ _ _).2 (Prog.wp_mono (fun x h s hx => ?_)
    (wp_front (C := backing k e D) hV (fun _ _ => ⟨id, id⟩) (fun _ _ _ => trivial) h s))
  cases x with
  | error y => exact .of fun _ _ hacc => by simp [hx.1 y rfl] at hacc
  | ok b =>
    dsimp only [letIn]
    split
    · rintro s₁ ⟨-, hs₁⟩
      refine ⟨⟨id, id⟩, ?_⟩
      dsimp only
      cases hf : s₁.find? (V.key r) with
      | some p =>
        obtain ⟨hp, hkey⟩ := ReplayState.find?_eq_some.1 hf
        refine .of fun hk he hacc => ?_
        unfold replay at hacc
        split at hacc
        · next hend => exact hs₁ p hp (hkey.trans hk) (hend.trans he)
        · rw [hV.conflict] at hacc
          cases hacc
      | none =>
        exact (Prog.wp_bind _ _ _ _ _).2
          (Prog.wp_mono (fun _ _ _ h => finish_backing h) (handler_backing hV hD hr (hx.2 rfl) b _ _))
    · exact (Prog.wp_bind _ _ _ _ _).2
        (Prog.wp_mono (fun _ _ _ h => .of h) (handler_backing hV hD hr (hx.2 rfl) b _ _))

variable {τ : Type} [DecidableEq τ] {s : ReplayState κ ε ρ S} {P P' : ServicePool τ R κ ε ρ S Λ A}
  {ok : ServicePool τ R κ ε ρ S Λ A → Act τ (ReplayLabel R Λ) A → Prop}

/-- What a run of the service keeps: every process keeps the contract, and what is stored is backed. -/
theorem sound_of_run (hV : V.Lawful) (hD : Does V sent k e D) (hs : Backed k e D s)
    (hrun : Pool.Run (V.Starts sent) ok (idle s) P) :
    P.Sound (backing k e D) (fun _ => Answered V k e D) ∧ Backed k e D P.state := by
  refine hrun.invariant (I := fun P => P.Sound (backing k e D) (fun _ => Answered V k e D) ∧
    Backed k e D P.state) ?_ ⟨fun i => ?_, hs⟩
  · rintro P act P' ⟨hP, hI⟩ - hstep
    rcases hP.step_cases_post backing_stable (fun _ => answered_lasting) hI hstep with
      ⟨i, l, -, -, hkeep, hsound⟩ | ⟨i, q, a, -, hst, -, -, hsound⟩ |
      ⟨i, p, -, hp, hst, -, hsound⟩
    · exact ⟨hsound fun _ _ => ⟨hkeep.2, hkeep.1 hI⟩, hkeep.1 hI⟩
    · exact ⟨hsound trivial, hst ▸ hI⟩
    · refine ⟨hsound ?_, hst ▸ hI⟩
      cases hp with
      | serve r hr => exact serve_backing hV hD hr _ _
      | cleanup => exact cleanup_backing _ _
  · rintro _ _ ⟨⟩

/-- In every run of the service, whatever requests overlap, are killed or are sent again: where a
request has an accepted answer, new or replayed, what requests of its key and endpoint do is done. -/
theorem accepted_done (hV : V.Lawful) (hD : Does V sent k e D) (hs : Backed k e D s)
    (hrun : Pool.Run (V.Starts sent) ok (idle s) P) {i : τ} {r : R} {x : ρ}
    (hi : P.prog i = .done (some (r, x))) (hk : V.key r = k) (he : V.endpoint r = e)
    (hx : V.accepted x) : D P.state.app := by
  have hw := (sound_of_run hV hD hs hrun).1 i
  rw [hi] at hw
  exact hw r x rfl hk he hx

/-- The contract of a process that undoes nothing. -/
def holding (D : S → Prop) : Contract (ReplayState κ ε ρ S) (ReplayLabel R Λ) A where
  rely _ _ _ := True
  ans _ _ _ _ := True
  step _ _ s s' := D s.app → D s'.app
  guard _ _ _ := True

omit [DecidableEq κ] [DecidableEq ε] in
theorem holding_stable : (holding D : Contract (ReplayState κ ε ρ S) (ReplayLabel R Λ) A).Stable
    fun _ => True where
  refl _ _ _ := trivial
  trans _ _ := trivial

/-- One step of a service whose handlers undo nothing. -/
theorem step_kept (hV : V.Lawful) (hD : Kept V sent D) (hP : P.Sound (holding D))
    {act : Act τ (ReplayLabel R Λ) A} (hstep : Pool.Step (V.Starts sent) P act P') :
    P'.Sound (holding D) ∧ (D P.state.app → D P'.state.app) := by
  have hlasting : (holding D : Contract (ReplayState κ ε ρ S) (ReplayLabel R Λ) A).Lasting
      fun (_ : Option (R × ρ)) _ _ => True := fun _ _ _ _ _ _ => trivial
  rcases hP.step_cases_post holding_stable (fun _ => hlasting) trivial hstep with
    ⟨i, l, -, -, hkeep, hsound⟩ | ⟨i, q, a, -, hst, -, -, hsound⟩ | ⟨i, p, -, hp, hst, -, hsound⟩
  · exact ⟨hsound fun _ _ => trivial, hkeep⟩
  · exact ⟨hsound trivial, fun h => hst ▸ h⟩
  · refine ⟨hsound ?_, fun h => hst ▸ h⟩
    cases hp with
    | serve r hr =>
      refine serve_keeps hV (fun _ _ _ => id) ?_ (fun _ _ _ => trivial) (fun hpass b => ?_) _ _
      · exact fun _ s p hD => by rwa [ReplayState.app_store]
      · exact (hD r b hr hpass).mono fun _ _ _ h _ => h
    | cleanup => exact fun _ _ => ⟨trivial, fun _ _ _ _ => ⟨id, trivial⟩⟩

/-- What the handlers of the requests that are sent keep, every run of the service keeps. -/
theorem run_kept (hV : V.Lawful) (hD : Kept V sent D)
    (hrun : Pool.Run (V.Starts sent) ok (idle s) P) :
    P.Sound (holding D) ∧ (D s.app → D P.state.app) := by
  refine hrun.invariant (I := fun P => P.Sound (holding D) ∧ (D s.app → D P.state.app)) ?_
    ⟨fun _ => trivial, id⟩
  rintro P act P' ⟨hP, hI⟩ - hstep
  obtain ⟨hP', hkept⟩ := step_kept hV hD hP hstep
  exact ⟨hP', hkept ∘ hI⟩

end
end

/-! ## What a stored answer means -/

section
variable {T : Int} {p : StoredAnswer κ ε ρ} {sent : R → Prop}

/-- The clock of the service has not passed `T`. -/
def ClockBy (V : Service R κ ε ρ β S Λ A) (T : Int) {τ : Type} (_ : ServicePool τ R κ ε ρ S Λ A)
    (act : Act τ (ReplayLabel R Λ) A) : Prop :=
  ∀ i a, act = .event i (.call V.clock a) → V.time a ≤ T

/-- No stored answer is lost that is young enough at `T`. -/
def Spares (V : Service R κ ε ρ β S Λ A) (T : Int) (s s' : ReplayState κ ε ρ S) : Prop :=
  ∀ p ∈ s.stored.rows, T ≤ p.createdAt + V.retention → p ∈ s'.stored.rows

/-- The contract of a process whose clock has not passed `T`. -/
def sparing (V : Service R κ ε ρ β S Λ A) (T : Int) :
    Contract (ReplayState κ ε ρ S) (ReplayLabel R Λ) A where
  rely _ s s' := V.Spares T s s'
  ans _ q _ a := ∀ h : q = V.clock, V.time (h ▸ a) ≤ T
  step _ _ s s' := V.Spares T s s'
  guard _ _ _ := True

/-- The contract of a process that starts when `p` is stored, while it stays stored: no request of
the ledger with its key is handed to the handler. -/
def barring (V : Service R κ ε ρ β S Λ A) (p : StoredAnswer κ ε ρ) :
    Contract (ReplayState κ ε ρ S) (ReplayLabel R Λ) A where
  rely _ _ s' := p ∈ s'.stored.rows
  ans _ _ _ _ := True
  step _ l _ _ := ∀ r m, l = .handle r m → V.ledgered r → V.key r ≠ p.key
  guard _ _ _ := True

/-- The accepted answers to requests of the ledger with the key of `p` are those of `p`. -/
def AnsweredBy [DecidableEq ε] (V : Service R κ ε ρ β S Λ A) (p : StoredAnswer κ ε ρ)
    (res : Option (R × ρ)) (_ : History (ReplayLabel R Λ) A) (_ : ReplayState κ ε ρ S) : Prop :=
  ∀ x, res = some x → V.ledgered x.1 → V.key x.1 = p.key → V.accepted x.2 → x.2 = V.replay x.1 p

theorem Spares.refl {s : ReplayState κ ε ρ S} : V.Spares T s s := fun _ hp _ => hp

theorem sparing_stable : (V.sparing T).Stable fun _ => True where
  refl _ _ _ := Spares.refl
  trans h h' := fun p hp hT => h' p (h p hp hT) hT

theorem barring_stable : (V.barring p).Stable fun s => p ∈ s.stored.rows where
  refl _ _ hs := hs
  trans _ h := h

theorem cleanup_sparing (h : History (ReplayLabel R Λ) A) (s : ReplayState κ ε ρ S) :
    V.cleanup.wp (V.sparing T) (fun _ _ _ => True) h s := by
  refine fun s₁ _ => ⟨trivial, fun t ht s₂ _ => ⟨fun p hp hT => ?_, trivial⟩⟩
  have hnow : V.time t ≤ T := ht rfl
  exact ReplayState.mem_prune.2 ⟨hp, by omega⟩

theorem cleanup_barring [DecidableEq ε] (h : History (ReplayLabel R Λ) A) (s : ReplayState κ ε ρ S) :
    V.cleanup.wp (V.barring p) (V.AnsweredBy p) h s :=
  fun _ _ => ⟨trivial, fun _ _ _ _ => ⟨fun _ _ h => (by cases h), fun _ h => (by cases h)⟩⟩

theorem handler_barring (hV : V.Lawful) {r : R} (hr : V.ledgered r → V.key r ≠ p.key) (b : β)
    (h : History (ReplayLabel R Λ) A) (s : ReplayState κ ε ρ S) :
    (V.handler r b).wp (V.barring p) (fun _ _ _ => True) h s := by
  refine Prog.wp_of_within (I := fun _ _ => True) (fun _ _ => trivial) ?_
    (fun _ _ => ⟨trivial, fun _ _ => trivial⟩) (hV.handler r b) trivial
  rintro h l s₀ s s' - - ⟨⟨m, rfl⟩, -⟩
  refine ⟨?_, trivial⟩
  rintro _ _ ⟨⟩
  exact hr

variable [DecidableEq κ] [DecidableEq ε]

theorem serve_sparing (hV : V.Lawful) (r : R) (h : History (ReplayLabel R Λ) A)
    (s : ReplayState κ ε ρ S) : (V.serve r).wp (V.sparing T) (fun _ _ _ => True) h s := by
  refine serve_keeps hV (fun _ _ _ => Spares.refl) ?_ (fun _ _ _ => trivial) (fun _ b => ?_) h s
  · exact fun _ _ _ p hp _ => ReplayState.mem_store hp
  · exact (hV.handler r b).mono fun l s s' ⟨_, hst⟩ _ p hp _ => hst ▸ hp

/-- A request that starts while an answer is stored is not handed to the handler when it has the key
of that answer, and where it is accepted it is answered by it. -/
theorem serve_barring (hV : V.Lawful) (r : R) (h : History (ReplayLabel R Λ) A)
    (s : ReplayState κ ε ρ S) : (V.serve r).wp (V.barring p) (V.AnsweredBy p) h s := by
  refine (Prog.wp_bind _ _ _ _ _).2 (Prog.wp_mono (fun x h s hx => ?_)
    (wp_front hV (fun _ _ _ _ h => (by cases h)) (fun _ _ _ => trivial) h s))
  have hother {x : ρ} {h : History (ReplayLabel R Λ) A} {s : ReplayState κ ε ρ S}
      (hr : V.ledgered r → V.key r ≠ p.key) : V.AnsweredBy p (some (r, x)) h s := by
    rintro _ ⟨⟩ hled hkey
    exact absurd hkey (hr hled)
  cases x with
  | error y =>
    rintro _ ⟨⟩ - - hacc
    rw [hx.1 y rfl] at hacc
    cases hacc
  | ok b =>
    dsimp only [letIn]
    split
    · refine fun s₁ hs₁ => ⟨fun _ _ h => (by cases h), ?_⟩
      dsimp only
      by_cases hkey : V.key r = p.key
      · rw [ReplayState.find?_eq_some.2 ⟨hs₁, hkey.symm⟩]
        rintro _ ⟨⟩ - - -
        rfl
      · cases hf : s₁.find? (V.key r) with
        | some p' => exact hother fun _ => hkey
        | none =>
          refine (Prog.wp_bind _ _ _ _ _).2 (Prog.wp_mono (fun x h s _ => ?_)
            (handler_barring hV (fun _ => hkey) b _ _))
          unfold finish
          split
          · exact fun s₁ _ => ⟨trivial, fun t _ s₂ _ =>
              ⟨fun _ _ h => (by cases h), hother fun _ => hkey⟩⟩
          · exact hother fun _ => hkey
    · next hled =>
      exact (Prog.wp_bind _ _ _ _ _).2 (Prog.wp_mono (fun x h s _ => hother fun h => absurd h hled)
        (handler_barring hV (fun h => absurd h hled) b _ _))

variable {τ : Type} [DecidableEq τ] {s : ReplayState κ ε ρ S}
  {P P' P'' : ServicePool τ R κ ε ρ S Λ A} {act : Act τ (ReplayLabel R Λ) A}

/-- One step while the clock has not passed `T`: nothing young enough is lost. -/
theorem step_sparing (hV : V.Lawful) (hP : P.Sound (V.sparing T)) (hok : V.ClockBy T P act)
    (hs : Pool.Step (V.Starts sent) P act P') :
    P'.Sound (V.sparing T) ∧ V.Spares T P.state P'.state := by
  have hlasting : (V.sparing T).Lasting fun (_ : Option (R × ρ)) _ _ => True :=
    fun _ _ _ _ _ _ => trivial
  rcases hP.step_cases_post sparing_stable (fun _ => hlasting) trivial hs with
    ⟨i, l, -, -, hkeep, hsound⟩ | ⟨i, q, a, hact, hst, -, -, hsound⟩ | ⟨i, p, -, hp, hst, -, hsound⟩
  · exact ⟨hsound fun _ _ => hkeep, hkeep⟩
  · refine ⟨hsound fun hq => ?_, hst ▸ Spares.refl⟩
    subst hq
    exact hok i a hact
  · refine ⟨hsound ?_, hst ▸ Spares.refl⟩
    cases hp with
    | serve r => exact serve_sparing hV r _ _
    | cleanup => exact cleanup_sparing _ _

theorem run_sparing (hV : V.Lawful) (hrun : Pool.Run (V.Starts sent) (V.ClockBy T) (idle s) P) :
    P.Sound (V.sparing T) :=
  hrun.invariant (I := fun P => P.Sound (V.sparing T))
    (fun hP hok hs => (step_sparing hV hP hok hs).1) fun _ => trivial

/-- Since `P`, the answer `p` is stored, and the processes that were started since are barred. -/
structure Since (V : Service R κ ε ρ β S Λ A) (T : Int) (p : StoredAnswer κ ε ρ)
    (P P' : ServicePool τ R κ ε ρ S Λ A) : Prop where
  sound : P'.Sound (V.sparing T)
  stored : p ∈ P'.state.stored.rows
  barred : ∃ tr, P'.trace = tr ++ P.trace ∧ ∀ i, .start i ∈ tr →
    (P'.prog i).wp (V.barring p) (V.AnsweredBy p) (P'.hist i) P'.state

theorem Since.step (hV : V.Lawful) (hT : T ≤ p.createdAt + V.retention) (hP : Since V T p P P')
    (hok : V.ClockBy T P' act) (hs : Pool.Step (V.Starts sent) P' act P'') :
    Since V T p P P'' := by
  obtain ⟨hsound, hspares⟩ := step_sparing hV hP.sound hok hs
  have hstored := hspares p hP.stored hT
  obtain ⟨tr, htr, hbarred⟩ := hP.barred
  refine ⟨hsound, hstored, act :: tr, by rw [hs.trace_eq, htr, List.cons_append], fun i hi => ?_⟩
  by_cases hact : act = .start i
  · subst hact
    cases hs with
    | @start _ q hq =>
      change (Function.update P'.prog i q i).wp _ _ (Function.update P'.hist i [] i) P'.state
      rw [Function.update_self, Function.update_self]
      cases hq with
      | serve r => exact serve_barring hV r _ _
      | cleanup => exact cleanup_barring _ _
  · exact hs.wp (Φ := fun _ => V.AnsweredBy p) barring_stable (fun _ _ _ _ _ h _ => h) hP.stored
      (fun _ => hstored) (fun _ _ _ _ => trivial) hact
      (hbarred i ((List.mem_cons.1 hi).resolve_left (Ne.symm hact)))

/-- In every run of the service whose clock has not passed the time for which an answer is kept: a
process that starts when the answer is stored does not hand a request of its key to the handler, and
an accepted answer it gives to one is the stored one. -/
theorem not_handled_again (hV : V.Lawful)
    (hrun : Pool.Run (V.Starts sent) (V.ClockBy T) (idle s) P) (hp : p ∈ P.state.stored.rows)
    (hT : T ≤ p.createdAt + V.retention) (hrun' : Pool.Run (V.Starts sent) (V.ClockBy T) P P')
    {tr : List (Act τ (ReplayLabel R Λ) A)} (htr : P'.trace = tr ++ P.trace) {i : τ}
    (hi : .start i ∈ tr) : p ∈ P'.state.stored.rows ∧
    (∀ r m P'', Pool.Step (V.Starts sent) P' (.event i (.step (.handle r m))) P'' →
      V.ledgered r → V.key r ≠ p.key) ∧
    ∀ r x, P'.prog i = .done (some (r, x)) → V.ledgered r → V.key r = p.key → V.accepted x →
      x = V.replay r p := by
  have hP : Since V T p P P' := hrun'.invariant (I := Since V T p P)
    (fun hP hok hs => hP.step hV hT hok hs)
    ⟨run_sparing hV hrun, hp, [], rfl, fun _ h => (by cases h)⟩
  obtain ⟨tr', htr', hbarred⟩ := hP.barred
  rw [List.append_cancel_right (htr.symm.trans htr')] at hi
  have hw := hbarred i hi
  refine ⟨hP.stored, fun r m P'' hs => ?_, fun r x hx => ?_⟩
  · cases hs with
    | atomic hatomic =>
      rw [hatomic] at hw
      exact (hw P'.state hP.stored).1 r m rfl
  · rw [hx] at hw
    exact hw (r, x) rfl

end

end Service
end Lib
