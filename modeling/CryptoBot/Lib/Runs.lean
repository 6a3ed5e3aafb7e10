import Mathlib.Logic.Relation

/-!
# Runs of a transition system

A transition system is a relation `step` between states under the events that happen. A run is a
sequence of steps each of which meets a condition `ok` on the state before it and on its event.
-/

namespace Lib

variable {S : Type*} {E : Type*}

/-- A run, all of whose steps meet the condition `ok`. -/
def Runs (step : S → E → S → Prop) (ok : S → E → Prop) : S → S → Prop :=
  Relation.ReflTransGen fun s s' => ∃ e, ok s e ∧ step s e s'

namespace Runs

variable {step : S → E → S → Prop} {ok ok' : S → E → Prop} {s s' s'' : S}

theorem refl : Runs step ok s s := Relation.ReflTransGen.refl

theorem trans (h : Runs step ok s s') (h' : Runs step ok s' s'') : Runs step ok s s'' :=
  Relation.ReflTransGen.trans h h'

theorem tail {e : E} (h : Runs step ok s s') (hok : ok s' e) (hs : step s' e s'') :
    Runs step ok s s'' := Relation.ReflTransGen.tail h ⟨e, hok, hs⟩

/-- What every step that meets the condition preserves, every run preserves. -/
theorem invariant {I : S → Prop} (hstep : ∀ {s e s'}, I s → ok s e → step s e s' → I s')
    (hrun : Runs step ok s s') (hI : I s) : I s' := by
  induction hrun with
  | refl => exact hI
  | tail _ h ih =>
    obtain ⟨e, hok, hs⟩ := h
    exact hstep ih hok hs

/-- A weaker condition admits more runs. -/
theorem mono (hok : ∀ s e, ok s e → ok' s e) (hrun : Runs step ok s s') : Runs step ok' s s' := by
  induction hrun with
  | refl => exact refl
  | tail _ h ih =>
    obtain ⟨e, h, hs⟩ := h
    exact ih.tail (hok _ _ h) hs

end Runs
end Lib
