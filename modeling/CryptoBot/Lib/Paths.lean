import CryptoBot.Lib.Prog
import Mathlib.Logic.Relation

/-!
# The points of a program's run

A program that runs alone passes through points: what is left of it, its history and the state. A
weakest precondition under a contract says what holds at every point of every run, and the contract
may speak of the points passed before, since a run makes exactly those true.
-/

namespace Lib

variable {σ ι Q α : Type} {A : Q → Type}

/-- A program under way: what is left of it, its history and the state. -/
structure Point (σ ι : Type) {Q : Type} (A : Q → Type) (α : Type) : Type 1 where
  prog : Prog σ ι A α
  hist : History ι A
  state : σ

/-- The next event of a program that runs alone, with an answer that `ok` admits. -/
inductive Point.Next (ok : History ι A → (q : Q) → σ → A q → Prop) :
    Point σ ι A α → Point σ ι A α → Prop
  | atomic {β : Type} {l : ι} {f : σ → β × σ} {k : β → Prog σ ι A α} {h : History ι A} {s : σ} :
      Next ok ⟨.atomic l f k, h, s⟩ ⟨k (f s).1, .step l :: h, (f s).2⟩
  | call {q : Q} {k : A q → Prog σ ι A α} {h : History ι A} {s : σ} {a : A q} (ha : ok h q s a) :
      Next ok ⟨.call q k, h, s⟩ ⟨k a, .call q a :: h, s⟩

/-- The points a run passes. -/
abbrev Path (ok : History ι A → (q : Q) → σ → A q → Prop) :
    Point σ ι A α → Point σ ι A α → Prop := Relation.ReflTransGen (Point.Next ok)

namespace Path

variable {ok : History ι A → (q : Q) → σ → A q → Prop} {C : Contract σ ι A}
  {x y : Point σ ι A α}

/-- The run of `x` passes the history `h` with the state `s`. -/
def Passes (ok : History ι A → (q : Q) → σ → A q → Prop) (x : Point σ ι A α) (h : History ι A)
    (s : σ) : Prop := ∃ p, Path ok x ⟨p, h, s⟩

/-- At every point of a run a program still satisfies its precondition, when the contract relies on
no more than the points passed and the answers admitted. -/
theorem wp {Φ : α → History ι A → σ → Prop}
    (hrely : ∀ h s, Passes ok x h s → C.rely h s s)
    (hans : ∀ h q s a, ok h q s a → C.ans h q s a)
    (hx : x.prog.wp C Φ x.hist x.state) (hp : Path ok x y) :
    y.prog.wp C Φ y.hist y.state := by
  induction hp with
  | refl => exact hx
  | tail hpath hnext ih =>
    cases hnext with
    | atomic => exact (ih _ (hrely _ _ ⟨_, hpath⟩)).2
    | call ha => exact (ih _ (hrely _ _ ⟨_, hpath⟩)).2 _ (hans _ _ _ _ ha)

/-- What a program owes at a request it has come to. -/
theorem guard {Φ : α → History ι A → σ → Prop} {q : Q} {k : A q → Prog σ ι A α} {h : History ι A}
    {s : σ} (hrely : ∀ h s, Passes ok x h s → C.rely h s s)
    (hans : ∀ h q s a, ok h q s a → C.ans h q s a)
    (hx : x.prog.wp C Φ x.hist x.state) (hp : Path ok x ⟨.call q k, h, s⟩) : C.guard h q s :=
  (wp hrely hans hx hp s (hrely _ _ ⟨_, hp⟩)).1

/-- What a program owes at an atomic step it has come to. -/
theorem step {Φ : α → History ι A → σ → Prop} {β : Type} {l : ι} {f : σ → β × σ}
    {k : β → Prog σ ι A α} {h : History ι A} {s : σ}
    (hrely : ∀ h s, Passes ok x h s → C.rely h s s)
    (hans : ∀ h q s a, ok h q s a → C.ans h q s a)
    (hx : x.prog.wp C Φ x.hist x.state) (hp : Path ok x ⟨.atomic l f k, h, s⟩) :
    C.step h l s (f s).2 :=
  (wp hrely hans hx hp s (hrely _ _ ⟨_, hp⟩)).1

/-- What every step owes of the state after it holds in every state a run passes. -/
theorem state {Φ : α → History ι A → σ → Prop} {K : σ → Prop}
    (hrely : ∀ h s, Passes ok x h s → C.rely h s s)
    (hans : ∀ h q s a, ok h q s a → C.ans h q s a)
    (hstep : ∀ {h l s s'}, C.step h l s s' → K s')
    (hx : x.prog.wp C Φ x.hist x.state) (hK : K x.state) (hp : Path ok x y) : K y.state := by
  induction hp with
  | refl => exact hK
  | tail hpath hnext ih =>
    cases hnext with
    | atomic => exact hstep (wp hrely hans hx hpath _ (hrely _ _ ⟨_, hpath⟩)).1
    | call => exact ih

/-- The answers in a history are answers that the run admits. -/
theorem answers {P : (q : Q) → A q → Prop} (hok : ∀ h q s a, ok h q s a → P q a)
    (hx : ∀ q a, .call q a ∈ x.hist → P q a) (hp : Path ok x y) :
    ∀ q a, .call q a ∈ y.hist → P q a := by
  induction hp with
  | refl => exact hx
  | tail _ hnext ih =>
    intro q a hmem
    cases hnext with
    | atomic =>
      refine ih q a ((List.mem_cons.1 hmem).resolve_left ?_)
      rintro ⟨⟩
    | call ha =>
      rcases List.mem_cons.1 hmem with heq | hmem
      · cases heq
        exact hok _ _ _ _ ha
      · exact ih q a hmem

end Path

namespace Point

/-- The point after `n` events, or all that are left, with the answers of `env`. -/
def go (env : Prog.Env ι A) : Nat → Point σ ι A α → Point σ ι A α
  | 0, x => x
  | _ + 1, ⟨.done a, h, s⟩ => ⟨.done a, h, s⟩
  | n + 1, ⟨.atomic l f k, h, s⟩ => go env n ⟨k (f s).1, .step l :: h, (f s).2⟩
  | n + 1, ⟨.call q k, h, s⟩ => go env n ⟨k (env h q), .call q (env h q) :: h, s⟩

theorem path_go {ok : History ι A → (q : Q) → σ → A q → Prop} {env : Prog.Env ι A}
    (henv : ∀ h q s, ok h q s (env h q)) (n : Nat) (x : Point σ ι A α) :
    Path ok x (x.go env n) := by
  induction n generalizing x with
  | zero => exact .refl
  | succ n ih =>
    obtain ⟨p, h, s⟩ := x
    cases p with
    | done a => exact .refl
    | atomic l f k => exact .head .atomic (ih _)
    | call q k => exact .head (.call (henv h q s)) (ih _)

/-- The answer of `env` to the request at a point is one that `ok` admits. -/
def Admits (ok : History ι A → (q : Q) → σ → A q → Prop) (env : Prog.Env ι A) :
    Point σ ι A α → Prop
  | ⟨.call q _, h, s⟩ => ok h q s (env h q)
  | _ => True

instance {ok : History ι A → (q : Q) → σ → A q → Prop} {env : Prog.Env ι A}
    [∀ h q s a, Decidable (ok h q s a)] : (x : Point σ ι A α) → Decidable (x.Admits ok env)
  | ⟨.call q _, h, s⟩ => inferInstanceAs (Decidable (ok h q s (env h q)))
  | ⟨.done _, _, _⟩ => isTrue trivial
  | ⟨.atomic _ _ _, _, _⟩ => isTrue trivial

/-- Only the answers that are given need be admitted. -/
theorem path_go_of {ok : History ι A → (q : Q) → σ → A q → Prop} {env : Prog.Env ι A} {n : Nat}
    {x : Point σ ι A α} (hok : ∀ m < n, (x.go env m).Admits ok env) : Path ok x (x.go env n) := by
  induction n generalizing x with
  | zero => exact .refl
  | succ n ih =>
    have hfirst : x.Admits ok env := hok 0 n.succ_pos
    have hrest {y : Point σ ι A α} (hgo : ∀ m, x.go env (m + 1) = y.go env m) :
        Path ok y (y.go env n) := by
      refine ih fun m hm => ?_
      rw [← hgo]
      exact hok (m + 1) (Nat.succ_lt_succ hm)
    obtain ⟨p, h, s⟩ := x
    cases p with
    | done a => exact .refl
    | atomic l f k => exact .head .atomic (hrest fun _ => rfl)
    | call q k => exact .head (.call hfirst) (hrest fun _ => rfl)

/-- The point after `n` events, or all that are left, with answers that may depend on the state. -/
def follow (answer : History ι A → (q : Q) → σ → A q) : Nat → Point σ ι A α → Point σ ι A α
  | 0, x => x
  | _ + 1, ⟨.done a, h, s⟩ => ⟨.done a, h, s⟩
  | n + 1, ⟨.atomic l f k, h, s⟩ => follow answer n ⟨k (f s).1, .step l :: h, (f s).2⟩
  | n + 1, ⟨.call q k, h, s⟩ =>
    follow answer n ⟨k (answer h q s), .call q (answer h q s) :: h, s⟩

theorem path_follow {ok : History ι A → (q : Q) → σ → A q → Prop}
    {answer : History ι A → (q : Q) → σ → A q} (hanswer : ∀ h q s, ok h q s (answer h q s)) (n : Nat)
    (x : Point σ ι A α) : Path ok x (x.follow answer n) := by
  induction n generalizing x with
  | zero => exact .refl
  | succ n ih =>
    obtain ⟨p, h, s⟩ := x
    cases p with
    | done a => exact .refl
    | atomic l f k => exact .head .atomic (ih _)
    | call q k => exact .head (.call (hanswer h q s)) (ih _)

end Point
end Lib
