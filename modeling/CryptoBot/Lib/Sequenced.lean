import CryptoBot.Lib.Prog

/-!
# Properties that programs hand on to sequences

A property of programs that finished programs have, and that a sequence has when both of its parts
have it, is a property of everything built from parts that have it. What a program keeps under a
contract is such a property, and so is the discipline of `Lib.Claims`.
-/

namespace Lib

variable {σ ι Q ε τ α β : Type} {A : Q → Type}

/-- A property of programs that is handed on to sequences. -/
structure Sequenced (P : (α : Type) → Prog σ ι A α → Prop) : Prop where
  done : ∀ {α : Type} (a : α), P α (.done a)
  bind : ∀ {α β : Type} {p : Prog σ ι A α} {g : α → Prog σ ι A β},
    P α p → (∀ a, P β (g a)) → P β (p.bind g)

namespace Sequenced

variable {P : (α : Type) → Prog σ ι A α → Prop}

/-! ## Programs with exceptions -/

theorem pure (hP : Sequenced P) (a : α) : P _ (pure a : Proc σ ι A ε α).run := hP.done _

theorem throw (hP : Sequenced P) (e : ε) : P _ (throw e : Proc σ ι A ε α).run := hP.done _

theorem seq (hP : Sequenced P) {p : Proc σ ι A ε α} {g : α → Proc σ ι A ε β} (hp : P _ p.run)
    (hg : ∀ a, P _ (g a).run) : P _ (p >>= g).run := by
  refine hP.bind hp fun r => ?_
  cases r with
  | ok a => exact hg a
  | error e => exact hP.done _

theorem attempt (hP : Sequenced P) {p : Proc σ ι A ε α} (hp : P _ p.run) : P _ p.attempt.run :=
  hP.bind hp fun _ => hP.done _

theorem ite (_ : Sequenced P) {c : Prop} [Decidable c] {p p' : Proc σ ι A ε α} (hp : P _ p.run)
    (hp' : P _ p'.run) : P _ (if c then p else p').run := by
  split <;> assumption

theorem forM (hP : Sequenced P) {f : β → Proc σ ι A ε PUnit} (hf : ∀ b, P _ (f b).run) :
    ∀ bs : List β, P _ (bs.forM f).run
  | [] => hP.done _
  | b :: bs => hP.seq (hf b) fun _ => hP.forM hf bs

/-! ## Programs with locals -/

/-- The property of a program with locals, whatever they are. -/
def Local (P : (α : Type) → Prog σ ι A α → Prop) (p : LProc σ ι A ε τ α) : Prop :=
  ∀ t, P _ (p.run.run t)

theorem local_pure (hP : Sequenced P) (a : α) : Local P (Pure.pure a : LProc σ ι A ε τ α) :=
  fun _ => hP.done _

theorem local_throw (hP : Sequenced P) (e : ε) :
    Local P (MonadExcept.throw e : LProc σ ι A ε τ α) := fun _ => hP.done _

theorem local_assign (hP : Sequenced P) (f : τ → τ) :
    Local P (LProc.assign f : LProc σ ι A ε τ PUnit) := fun _ => hP.done _

theorem local_exec (hP : Sequenced P) {p : Proc σ ι A ε α} (hp : P _ p.run) :
    Local P (LProc.exec p : LProc σ ι A ε τ α) := fun _ => hP.bind hp fun _ => hP.done _

theorem local_seq (hP : Sequenced P) {p : LProc σ ι A ε τ α} {g : α → LProc σ ι A ε τ β}
    (hp : Local P p) (hg : ∀ a, Local P (g a)) : Local P (p >>= g) := by
  refine fun t => hP.bind (hp t) ?_
  rintro ⟨e | a, t'⟩
  · exact hP.done _
  · exact hg a t'

theorem local_ite (_ : Sequenced P) {c : Prop} [Decidable c] {p p' : LProc σ ι A ε τ α}
    (hp : Local P p)
    (hp' : Local P p') : Local P (if c then p else p') := by
  split <;> assumption

theorem local_forM (hP : Sequenced P) {f : β → LProc σ ι A ε τ PUnit} (hf : ∀ b, Local P (f b)) :
    ∀ bs : List β, Local P (bs.forM f)
  | [] => hP.local_pure _
  | b :: bs => hP.local_seq (hf b) fun _ => hP.local_forM hf bs

theorem outcome (hP : Sequenced P) {p : LProc σ ι A ε τ α} (hp : Local P p) (t : τ) :
    P _ (p.outcome t).run := hP.bind (hp t) fun _ => hP.done _

end Sequenced

/-- Keeping a contract and an invariant is handed on to sequences. -/
theorem Sequenced.keeps (C : Contract σ ι A) (I : History ι A → σ → Prop) :
    Sequenced fun (α : Type) (p : Prog σ ι A α) =>
      ∀ h s, I h s → p.wp C (fun _ h s => I h s) h s where
  done _ _ _ hI := hI
  bind hp hg h s hI :=
    (Prog.wp_bind _ _ _ h s).2 (Prog.wp_mono (fun a h s hI => hg a h s hI) (hp h s hI))

end Lib
