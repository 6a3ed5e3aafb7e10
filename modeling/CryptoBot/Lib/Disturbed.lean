import CryptoBot.Lib.Paths
import CryptoBot.Lib.Pool

/-!
# One process among others

A process that works alone on its programs, while others change the state in ways `others` admits
between any two of its events. It may be killed at any point and started again, with a history that
begins anew. A contract that relies on no less than what the others do is kept at every point of
every such life, and what it asks at a request holds whenever the process is at that request.
-/

namespace Lib

variable {σ ι Q α : Type} {A : Q → Type}

/-- What happens next to a process: it takes an event of its program with whatever answer, others
change the state, or it is started with one of its programs. -/
inductive Point.Turn (start : Prog σ ι A α → Prop) (others : σ → σ → Prop) :
    Point σ ι A α → Point σ ι A α → Prop
  | event {x y : Point σ ι A α} (hx : Point.Next (fun _ _ _ _ => True) x y) : Turn start others x y
  | disturbed {p : Prog σ ι A α} {h : History ι A} {s s' : σ} (hs : others s s') :
      Turn start others ⟨p, h, s⟩ ⟨p, h, s'⟩
  | started {p q : Prog σ ι A α} {h : History ι A} {s : σ} (hp : start p) :
      Turn start others ⟨q, h, s⟩ ⟨p, [], s⟩

/-- The points a process passes in its life. -/
abbrev Life (start : Prog σ ι A α → Prop) (others : σ → σ → Prop) :
    Point σ ι A α → Point σ ι A α → Prop := Relation.ReflTransGen (Point.Turn start others)

namespace Life

variable {start : Prog σ ι A α → Prop} {others : σ → σ → Prop} {C : Contract σ ι A}
  {x y : Point σ ι A α}

/-- At every point of its life a process keeps its contract, when all of its programs do from
wherever they are started, and the others do no more than it relies on. -/
theorem wp (hC : C.Stable fun _ => True) (hothers : ∀ h {s s'}, others s s' → C.rely h s s')
    (hans : ∀ h q s a, C.ans h q s a)
    (hstart : ∀ {p}, start p → ∀ s, p.wp C (fun _ _ _ => True) [] s)
    (hx : x.prog.wp C (fun _ _ _ => True) x.hist x.state) (hlife : Life start others x y) :
    y.prog.wp C (fun _ _ _ => True) y.hist y.state := by
  induction hlife with
  | refl => exact hx
  | tail _ hturn ih =>
    cases hturn with
    | event hnext =>
      cases hnext with
      | atomic => exact (ih _ (hC.refl _ trivial)).2
      | call => exact (ih _ (hC.refl _ trivial)).2 _ (hans _ _ _ _)
    | disturbed hs => exact Prog.wp_rely hC (fun _ _ _ _ _ _ => trivial) ih (hothers _ hs)
    | started hp => exact hstart hp _

/-- What a process owes at a request, whenever it is at that request. -/
theorem guard (hC : C.Stable fun _ => True) (hothers : ∀ h {s s'}, others s s' → C.rely h s s')
    (hans : ∀ h q s a, C.ans h q s a)
    (hstart : ∀ {p}, start p → ∀ s, p.wp C (fun _ _ _ => True) [] s)
    (hx : x.prog.wp C (fun _ _ _ => True) x.hist x.state) {q : Q} {k : A q → Prog σ ι A α}
    {h : History ι A} {s : σ} (hlife : Life start others x ⟨.call q k, h, s⟩) : C.guard h q s :=
  (wp hC hothers hans hstart hx hlife s (hC.refl _ trivial)).1

/-- A process that is left alone for a while. -/
theorem of_path {ok : History ι A → (q : Q) → σ → A q → Prop} (hpath : Path ok x y) :
    Life start others x y := by
  refine Relation.ReflTransGen.mono (fun x y hnext => .event ?_) _ _ hpath
  cases hnext with
  | atomic => exact .atomic
  | call => exact .call trivial

end Life

/-! ## One program amid others -/

/-- What happens to a program under way: it takes its next event, with an answer that `ok` admits,
or others change the state. -/
inductive Point.Moves (ok : History ι A → (q : Q) → σ → A q → Prop) (others : σ → σ → Prop) :
    Point σ ι A α → Point σ ι A α → Prop
  | event {x y : Point σ ι A α} (hx : Point.Next ok x y) : Moves ok others x y
  | disturbed {p : Prog σ ι A α} {h : History ι A} {s s' : σ} (hs : others s s') :
      Moves ok others ⟨p, h, s⟩ ⟨p, h, s'⟩

/-- The points a program passes that others disturb. -/
abbrev Course (ok : History ι A → (q : Q) → σ → A q → Prop) (others : σ → σ → Prop) :
    Point σ ι A α → Point σ ι A α → Prop := Relation.ReflTransGen (Point.Moves ok others)

namespace Course

variable {ok : History ι A → (q : Q) → σ → A q → Prop} {others : σ → σ → Prop}
  {C : Contract σ ι A} {I : σ → Prop} {x y : Point σ ι A α}

/-- At every point of its course a program keeps its contract, when the others do no more than it
relies on and the answers are those it expects. -/
theorem wp {Φ : α → History ι A → σ → Prop} (hC : C.Stable I) (hΦ : C.Lasting Φ)
    (hstep : ∀ {h l s s'}, C.step h l s s' → I s') (hI : ∀ {s s'}, others s s' → I s')
    (hothers : ∀ h {s s'}, others s s' → C.rely h s s')
    (hans : ∀ h q s a, ok h q s a → C.ans h q s a) (hx : x.prog.wp C Φ x.hist x.state)
    (hIx : I x.state) (hcourse : Course ok others x y) :
    y.prog.wp C Φ y.hist y.state ∧ I y.state := by
  induction hcourse with
  | refl => exact ⟨hx, hIx⟩
  | tail _ hmove ih =>
    obtain ⟨hw, hIs⟩ := ih
    cases hmove with
    | event hnext =>
      cases hnext with
      | atomic =>
        obtain ⟨howed, hrest⟩ := hw _ (hC.refl _ hIs)
        exact ⟨hrest, hstep howed⟩
      | call ha => exact ⟨(hw _ (hC.refl _ hIs)).2 _ (hans _ _ _ _ ha), hIs⟩
    | disturbed hs => exact ⟨Prog.wp_rely hC hΦ hw (hothers _ hs), hI hs⟩

/-- A program that is left alone. -/
theorem of_path (hpath : Path ok x y) : Course ok others x y :=
  Relation.ReflTransGen.mono (fun _ _ hnext => .event hnext) _ _ hpath

end Course
end Lib
