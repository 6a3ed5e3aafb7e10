import CryptoBot.Application.Ambiguity
import CryptoBot.Application.HealthyBooks
import CryptoBot.Application.RunRules
import CryptoBot.Lib.Meets

/-!
# What leaves the try block of a run

A run handles the conflicts that it finds while it checks the local orders, and an order in doubt
outlives a query that fails. Everything else that raises leaves the try block. `Fatal` says of every
answer of the exchange, in the ledger in which it comes, whether something raises on it, and a run's
try block returns exactly when none of its answers is fatal.
-/

namespace CryptoBot

open Lib OrderService ReconciliationService

/-! ## Fatal answers -/

/-- The order is resolved when it is checked, not only refreshed. -/
def Order.InDoubt (o : Order) : Prop :=
  o.isTerminal = false ∧ (o.submissionAmbiguous ∨ o.status = .submitting)

/-- The answer makes something raise that no handler of the run's loops takes: a call that raises,
but for the query of an order in doubt; an order in doubt that is not found after the grace period,
in a status from which it cannot be rejected; a report that is applied and collides; and a report
about the order of a recent fill that contradicts the local order. -/
def Fatal (cfg : Config) (env : Prog.Env Label Ans) (h : History Label Ans) :
    (q : Request) → Ledger → Ans q → Prop
  | .call (.queryOrder o), _, .error _ => ¬ o.InDoubt
  | .call (.queryOrder o), s, .ok none => o.InDoubt ∧
      (let now := env (.call (.call (.queryOrder o)) (.ok none) :: h) (.ambient .now)
       seconds cfg.ambiguousOrderGraceSeconds ≤ now - o.submittedAt.getD now) ∧
      ∃ x, s.getOrder o.clientOrderId = some x ∧ x.isTerminal = false ∧
        canTransition x.status .rejected = false
  | .call (.queryOrder o), s, .ok (some r) =>
      (o.isTerminal → r.status ≠ o.status ∨ r.executedQty ≠ o.executedQuantity) ∧ Collides cfg s r
  | .call (.queryOrderByExchangeId ..), _, .error _ => True
  | .call (.queryOrderByExchangeId ..), s, .ok (some r) => r.clientOrderId ≠ "" ∧
      ∃ x, s.getOrder r.clientOrderId = some x ∧ (x.Contradicts r ∨ Collides cfg s r)
  | .call (.queryFills _), _, .error _ | .call (.symbolRules _), _, .error _
  | .call (.openOrders _), _, .error _ | .call (.recentFills ..), _, .error _
  | .call .balances, _, .error _ => True
  | _, _, _ => False

/-- No answer is fatal. -/
abbrev Survivable (cfg : Config) (env : Prog.Env Label Ans) : Answers Ledger Label Ans :=
  fun h q s a => ¬ Fatal cfg env h q s a

/-- What the executor is known by: it answers the query of an order with a report about that order,
and an order conflict is not one of its exceptions. -/
structure Adapter (env : Prog.Env Label Ans) : Prop where
  own : ∀ h o r, env h (.call (.queryOrder o)) = .ok (some r) → r.clientOrderId = o.clientOrderId
  raises : ∀ h r m, env h (.call r) ≠ .error (.orderConflict m)

variable {cfg : Config} {env : Prog.Env Label Ans} {h h' : History Label Ans} {s s' : Ledger}
  {o : Order} {α : Type}

/-! ## Programs that cannot fail -/

/-- The condition is about calls only. -/
def Lenient (env : Prog.Env Label Ans) (F : Answers Ledger Label Ans) : Prop :=
  ∀ h r s, F h (.ambient r) s (env h (.ambient r))

theorem lenient_survivable : Lenient env (Survivable cfg env) := fun _ _ _ => id

section
variable {F : Answers Ledger Label Ans}

theorem unfailing_query (l : Label) (f : Ledger → α) : (query l f).Unfailing env F :=
  Proc.unfailing_step

theorem unfailing_transaction (l : Label) (t : Tx α) : (transaction l t).Unfailing env F :=
  Proc.unfailing_step

variable (hF : Lenient env F)
include hF

theorem unfailing_clockNow : clockNow.Unfailing env F := Proc.unfailing_ask fun h s => hF h _ s

theorem unfailing_freshNonce : freshNonce.Unfailing env F := Proc.unfailing_ask fun h s => hF h _ s

theorem unfailing_setState {l : Label} {status : ReconciliationStatus} {reason : String}
    {success : Bool} {ws : Option Bool} :
    (setState cfg l status reason success ws).Unfailing env F :=
  (unfailing_query _ _).bind fun _ => (unfailing_clockNow hF).bind fun _ =>
    (unfailing_transaction _ _).bind fun _ => Proc.unfailing_pure _

theorem unfailing_persist {result : ReconResult} {reason : String} {started : Time} :
    (persist cfg result reason started).Unfailing env F :=
  (unfailing_transaction _ _).bind fun _ => (unfailing_clockNow hF).bind fun _ =>
    unfailing_transaction _ _

theorem unfailing_conclude {previous : ReconciliationState} {ack : Bool} {runKey : RunKey}
    {reason : String} {started : Time} {outcome : Except Exn PUnit} {f : Findings} :
    (conclude cfg previous ack runKey reason started outcome f).Unfailing env F := by
  cases outcome with
  | error e =>
    exact (unfailing_persist hF).bind fun _ => (unfailing_setState hF).bind fun _ =>
      Proc.unfailing_pure _
  | ok _ =>
    refine (unfailing_persist hF).bind fun _ => (unfailing_setState hF).bind fun _ =>
      Proc.Unfailing.ite ?_ (Proc.unfailing_pure _)
    exact (unfailing_clockNow hF).bind fun _ => (unfailing_transaction _ _).bind fun _ =>
      (unfailing_transaction _ _).bind fun _ => Proc.unfailing_pure _

theorem unfailing_applyReport {r : ExchangeOrderReport} {source : String} :
    (applyReport cfg r source).Unfailing env F := by
  have hclock := unfailing_clockNow hF
  refine hclock.bind fun now => (unfailing_transaction _ _).bind fun out => ?_
  cases out with
  | unknown => exact Proc.unfailing_pure _
  | applied o => exact Proc.unfailing_pure _
  | conflict c m =>
    exact (hclock.bind fun _ => (unfailing_transaction _ _).bind fun _ =>
      unfailing_transaction _ _).bind fun _ => Proc.unfailing_throw _

theorem unfailing_ingestFill {xf : ExchangeFill} : (ingestFill cfg xf).Unfailing env F :=
  (unfailing_clockNow hF).bind fun _ => unfailing_transaction _ _

theorem unfailing_ingestFills {xfs : List ExchangeFill} : (ingestFills cfg xfs).Unfailing env F :=
  Proc.Unfailing.forM (fun _ => (unfailing_ingestFill hF).bind fun _ => Proc.unfailing_pure _) xfs

theorem unfailing_rebuild : (rebuild cfg).Unfailing env F :=
  (unfailing_query _ _).bind fun _ => (unfailing_query _ _).bind fun _ =>
    (unfailing_clockNow hF).bind fun _ => (unfailing_transaction _ _).bind fun _ =>
    Proc.unfailing_pure _

end

/-! ## The programs of the checks -/

theorem ends_ingestFills {xfs : List ExchangeFill} {res : Except Exn PUnit}
    (hrun : Proc.Ends env.answers (ingestFills cfg xfs) h s res h' s') : res = .ok ⟨⟩ :=
  (hrun.post ((sequential_alone _).wp_ingestFills xfs h s)).1

/-- The download of executions returns exactly when the call does. -/
theorem ingestOrderFills_returns_iff {x : Option Order} {res : Except Exn PUnit}
    (hrun : Proc.Ends env.answers (ingestOrderFills cfg x) h s res h' s') :
    (∃ a, res = .ok a) ↔ (ingestOrderFills cfg x).Meets env (Survivable cfg env) h s := by
  unfold ingestOrderFills at hrun ⊢
  cases x with
  | none => exact iff_of_true ⟨_, ((Proc.ends_pure _ _).1 hrun).1⟩ trivial
  | some o =>
    dsimp only at hrun ⊢
    split at hrun
    · next hid =>
      rw [if_pos hid]
      rcases (Proc.ends_bind _ _ _).1 hrun with ⟨xfs, h₁, s₁, hcall, hrest⟩ | ⟨e, hcall, rfl⟩
      · obtain rfl := ends_ingestFills hrest
        refine iff_of_true ⟨_, rfl⟩ ((Proc.meets_bind_ok hcall).2 ⟨⟨?_, trivial⟩, ?_⟩)
        · rw [← (ends_call hcall).1]
          exact id
        · exact unfailing_ingestFills lenient_survivable _ _
      · refine iff_of_false (by rintro ⟨_, ⟨⟩⟩) fun hmeets => ?_
        have hfatal := ((Proc.meets_bind_error hcall).1 hmeets).1
        rw [← (ends_call hcall).1] at hfatal
        exact hfatal trivial
    · next hid =>
      rw [if_neg hid]
      exact iff_of_true ⟨_, ((Proc.ends_pure _ _).1 hrun).1⟩ trivial

/-- What the download raises is no order conflict. -/
theorem ingestOrderFills_error (henv : Adapter env) {x : Option Order} {m : String} :
    ¬ Proc.Ends env.answers (ingestOrderFills cfg x) h s (.error (.orderConflict m)) h' s' := by
  intro hrun
  unfold ingestOrderFills at hrun
  cases x with
  | none => cases ((Proc.ends_pure _ _).1 hrun).1
  | some o =>
    dsimp only at hrun
    split at hrun
    · rcases (Proc.ends_bind _ _ _).1 hrun with ⟨xfs, h₁, s₁, -, hrest⟩ | ⟨e, hcall, he⟩
      · cases ends_ingestFills hrest
      · cases he
        exact henv.raises _ _ _ (ends_call hcall).1.symm
    · cases ((Proc.ends_pure _ _).1 hrun).1

/-- What follows the report about an order returns, or raises an order conflict, exactly when no
answer is fatal. -/
theorem lookup_returns_iff (henv : Adapter env) {β : Type} {c : String}
    {g : Unit → Engine β} (hg : ∀ {h s res h' s'}, Proc.Ends env.answers (g ⟨⟩) h s res h' s' →
      ∃ a, res = .ok a) (hmeets : ∀ a, (g a).Unfailing env (Survivable cfg env))
    {res : Except Exn β} (hrun : Proc.Ends env.answers (do
      let fresh ← query .query (·.getOrder c)
      ingestOrderFills cfg fresh
      g ⟨⟩) h s res h' s') :
    Returns res ↔ Proc.Meets env (Survivable cfg env) (do
      let fresh ← query .query (·.getOrder c)
      ingestOrderFills cfg fresh
      g ⟨⟩) h s := by
  rcases (Proc.ends_bind _ _ _).1 hrun with ⟨fresh, h₁, s₁, hq, hrun⟩ | ⟨e, hq, -⟩
  · rw [Proc.meets_bind_ok hq, and_iff_right ((unfailing_query _ _).meets _ _)]
    rcases (Proc.ends_bind _ _ _).1 hrun with ⟨_, h₂, s₂, hd, hrest⟩ | ⟨e, hd, rfl⟩
    · obtain ⟨a, rfl⟩ := hg hrest
      rw [Proc.meets_bind_ok hd, and_iff_left ((hmeets _).meets _ _)]
      exact iff_of_true (.ok _) ((ingestOrderFills_returns_iff hd).1 ⟨_, rfl⟩)
    · rw [Proc.meets_bind_error hd, ← ingestOrderFills_returns_iff hd]
      refine iff_of_false ?_ (by rintro ⟨_, ⟨⟩⟩)
      rintro (⟨_, ⟨⟩⟩ | ⟨m, ⟨⟩⟩)
      exact ingestOrderFills_error henv hd
  · cases hq.1

/-- The report is applied, and its order looked at again, exactly when the report does not collide
and no answer after it is fatal. -/
theorem absorb_returns_iff (henv : Adapter env) {β : Type} {c source : String}
    {r : ExchangeOrderReport} {g : Unit → Engine β}
    (hg : ∀ {h s res h' s'}, Proc.Ends env.answers (g ⟨⟩) h s res h' s' → ∃ a, res = .ok a)
    (hmeets : ∀ a, (g a).Unfailing env (Survivable cfg env))
    {res : Except Exn β} (hrun : Proc.Ends env.answers (do
      let _ ← applyReport cfg r source
      let fresh ← query .query (·.getOrder c)
      ingestOrderFills cfg fresh
      g ⟨⟩) h s res h' s') :
    Returns res ↔ ¬ Collides cfg s r ∧ Proc.Meets env (Survivable cfg env) (do
      let _ ← applyReport cfg r source
      let fresh ← query .query (·.getOrder c)
      ingestOrderFills cfg fresh
      g ⟨⟩) h s := by
  rcases (Proc.ends_bind _ _ _).1 hrun with ⟨_, h₁, s₁, happly, hrun⟩ | ⟨e, happly, rfl⟩
  · rw [Proc.meets_bind_ok happly, and_iff_right ((unfailing_applyReport lenient_survivable).meets _ _),
      and_iff_right ((ends_applyReport happly).1 (.ok _))]
    exact lookup_returns_iff henv hg hmeets hrun
  · rw [Proc.meets_bind_error happly, and_iff_left ((unfailing_applyReport lenient_survivable).meets _ _)]
    exact Returns.error_iff.trans (ends_applyReport happly)

/-- An order is rejected unless it is open in a status that does not allow it. -/
theorem rejectTx_isOk_iff {x : Order} {c reason : String} {now : Time}
    (hx : s.getOrder c = some x) : (∃ s', rejectTx c reason now s = .ok (⟨⟩, s')) ↔
      ¬ (x.isTerminal = false ∧ canTransition x.status .rejected = false) := by
  obtain ⟨hmem, rfl⟩ := Ledger.getOrder_eq_some.1 hx
  cases hterminal : x.isTerminal with
  | true =>
    refine iff_of_true ⟨s, ?_⟩ (by rintro ⟨⟨⟩, -⟩)
    have hget : Store.present (s.getOrder x.clientOrderId) s = .ok (x, s) := by
      rw [hx]
      rfl
    unfold rejectTx
    rw [Tx.bind_eq hget, Order.markRejected, if_pos hterminal]
    rfl
  | false => exact (rejectTx_ok_iff hmem hterminal).trans (by simp)

theorem resolveAmbiguous_polite (henv : Adapter env) (ho : o.InDoubt)
    (hx : (s.getOrder o.clientOrderId).isSome) {res : Except Exn Resolution}
    (hrun : Proc.Ends env.answers (resolveAmbiguous cfg o) h s res h' s') :
    Returns res ↔ (resolveAmbiguous cfg o).Meets env (Survivable cfg env) h s := by
  obtain ⟨x, hx⟩ := Option.isSome_iff_exists.1 hx
  rw [resolveAmbiguous, if_neg (by rw [ho.1]; decide)] at hrun ⊢
  rcases (Proc.ends_bind _ _ _).1 hrun with ⟨a, h₁, s₁, hask, hrest⟩ | ⟨e, hask, -⟩
  · rw [Proc.meets_bind_ok hask, Proc.meets_attempt]
    obtain ⟨_, heq, hcall⟩ := (Proc.ends_attempt _ _).1 hask
    obtain ⟨ha, rfl, rfl⟩ := ends_call hcall
    cases heq
    have hmeets : (call (.queryOrder o)).Meets env (Survivable cfg env) h s₁ ↔
        ¬ Fatal cfg env h (.call (.queryOrder o)) s₁ a := by
      refine (and_iff_left trivial).trans ?_
      rw [ha]
    rw [hmeets]
    clear hmeets
    rcases a with e | _ | r
    · obtain ⟨rfl, -, -⟩ := (Proc.ends_pure _ _).1 hrest
      exact iff_of_true (.ok _) ⟨not_not.2 ho, trivial⟩
    · rcases (Proc.ends_bind _ _ _).1 hrest with ⟨now, h₂, s₂, hnow, hrest⟩ | ⟨e, hnow, -⟩
      · rw [Proc.meets_bind_ok hnow, and_iff_right ((unfailing_clockNow lenient_survivable).meets _ _)]
        obtain ⟨_, hok, hclock, rfl, rfl⟩ := ends_clockNow hnow
        obtain rfl := Except.ok.inj hok
        dsimp only at hrest ⊢
        split at hrest
        · next hage =>
          obtain ⟨rfl, -, -⟩ := (Proc.ends_pure _ _).1 hrest
          rw [if_pos hage]
          refine iff_of_true (.ok _) ⟨fun hfatal => ?_, trivial⟩
          have hold := hfatal.2.1
          rw [← hclock] at hold
          exact absurd hage (not_lt.2 hold)
        next hage =>
        rw [if_neg hage]
        have hfatal : Fatal cfg env h (.call (.queryOrder o)) s₂ (.ok none) ↔
            x.isTerminal = false ∧ canTransition x.status .rejected = false := by
          constructor
          · rintro ⟨-, -, y, hy, hstuck⟩
            cases hx.symm.trans hy
            exact hstuck
          · refine fun hstuck => ⟨ho, ?_, x, hx, hstuck⟩
            dsimp only
            rw [← hclock]
            exact not_lt.1 hage
        rw [hfatal, ← rejectTx_isOk_iff hx]
        refine Iff.trans ?_ (and_iff_left (((unfailing_transaction _ _).bind fun _ =>
          Proc.unfailing_pure _).meets _ _)).symm
        rcases (Proc.ends_bind _ _ _).1 hrest with ⟨_, h₃, s₃, htx, hrest⟩ | ⟨e, htx, rfl⟩
        · obtain ⟨-, ⟨_, htx, -⟩ | ⟨_, -, hout, -⟩⟩ := ends_transaction htx
          · obtain ⟨rfl, -, -⟩ := (Proc.ends_pure _ _).1 hrest
            exact iff_of_true (.ok _) ⟨_, htx⟩
          · cases hout
        · obtain ⟨-, ⟨_, -, hout⟩ | ⟨_, htx, hout, -⟩⟩ := ends_transaction htx
          · cases hout
          · cases hout
            refine iff_of_false ?_ (by rintro ⟨_, hok⟩; cases hok.symm.trans htx)
            rintro (⟨_, hok⟩ | ⟨m, hm⟩)
            · cases hok
            · exact rejectTx_error htx m (Except.error.inj hm)
      · obtain ⟨_, hok, -⟩ := ends_clockNow hnow
        cases hok
    · have hfatal : Fatal cfg env h (.call (.queryOrder o)) s₁ (.ok (some r)) ↔
          Collides cfg s₁ r :=
        and_iff_right fun hterminal => by
          rw [ho.1] at hterminal
          cases hterminal
      rw [hfatal]
      dsimp only at hrest ⊢
      exact @absorb_returns_iff cfg env _ _ _ _ henv Resolution o.clientOrderId "rest_query" r
        (fun _ => pure .resolved) (fun hpure => ⟨_, ((Proc.ends_pure _ _).1 hpure).1⟩)
        (fun _ => Proc.unfailing_pure _) res hrest
  · obtain ⟨x, hx, -⟩ := (Proc.ends_attempt _ _).1 hask
    cases hx

theorem refresh_polite (henv : Adapter env) (hopen : o.isTerminal = false)
    (ho : ¬ (o.submissionAmbiguous ∨ o.status = .submitting)) {res : Except Exn (Option Order)}
    (hrun : Proc.Ends env.answers (refresh cfg o) h s res h' s') :
    Returns res ↔ (refresh cfg o).Meets env (Survivable cfg env) h s := by
  have hg {h s res h' s'} (hq : Proc.Ends env.answers
      (query .query fun s : Ledger => s.getOrder o.clientOrderId) h s res h' s') :
      ∃ a, res = .ok a := ⟨_, hq.1⟩
  have hmeets (_ : Unit) : (query .query fun s : Ledger =>
      s.getOrder o.clientOrderId).Unfailing env (Survivable cfg env) := unfailing_query _ _
  unfold refresh at hrun ⊢
  rcases (Proc.ends_bind _ _ _).1 hrun with ⟨a, h₁, s₁, hcall, hrest⟩ | ⟨e, hcall, rfl⟩
  · rw [Proc.meets_bind_ok hcall]
    obtain ⟨ha, rfl, rfl⟩ := ends_call hcall
    have hcall' : (call (.queryOrder o)).Meets env (Survivable cfg env) h s₁ ↔
        ¬ Fatal cfg env h (.call (.queryOrder o)) s₁ (.ok a) := by
      refine (and_iff_left trivial).trans ?_
      rw [ha]
    rw [hcall']
    cases a with
    | none =>
      refine (lookup_returns_iff (g := fun _ => _) henv hg hmeets hrest).trans (and_iff_right ?_).symm
      exact fun hfatal => ho hfatal.1.2
    | some r =>
      have hfatal : Fatal cfg env h (.call (.queryOrder o)) s₁ (.ok (some r)) ↔
          Collides cfg s₁ r :=
        and_iff_right fun hterminal => by
          rw [hopen] at hterminal
          cases hterminal
      rw [hfatal]
      exact absorb_returns_iff (g := fun _ => _) henv hg hmeets hrest
  · rw [Proc.meets_bind_error hcall]
    have ha := (ends_call hcall).1
    refine iff_of_false ?_ fun hmeets' => ?_
    · rintro (⟨_, ⟨⟩⟩ | ⟨m, hm⟩)
      rw [Except.error.inj hm] at ha
      exact henv.raises _ _ _ ha.symm
    · have hfatal := hmeets'.1
      rw [← ha] at hfatal
      exact hfatal fun hdoubt => ho hdoubt.2

/-! ## The checks of a run -/

section
variable {t : Findings}

/-- A call that is fatal exactly when it raises. -/
theorem exact_call {r : Req} (herr : ∀ h s e, Fatal cfg env h (.call r) s (.error e))
    (hok : ∀ h s a, ¬ Fatal cfg env h (.call r) s (.ok a)) :
    LProc.Exact env (Survivable cfg env) (LProc.exec (call r)) t h s := by
  intro res t' h' s' hrun
  obtain ⟨-, hrun⟩ := (LProc.ends_exec _ _).1 hrun
  rw [LProc.meets_exec]
  obtain ⟨ha, -⟩ := ends_call hrun
  refine Iff.trans ?_ (and_iff_left trivial).symm
  rw [← ha]
  cases res with
  | error e => exact iff_of_false (by rintro ⟨_, ⟨⟩⟩) fun hno => hno (herr _ _ _)
  | ok a => exact iff_of_true ⟨a, rfl⟩ (hok _ _ _)

theorem exact_symbolRules {symbol : Symbol} :
    LProc.Exact env (Survivable cfg env) (LProc.exec (call (.symbolRules symbol))) t h s :=
  exact_call (r := .symbolRules symbol) (fun _ _ _ => trivial) fun _ _ _ => id

theorem exact_openOrders {symbol : Symbol} :
    LProc.Exact env (Survivable cfg env) (LProc.exec (call (.openOrders symbol))) t h s :=
  exact_call (r := .openOrders symbol) (fun _ _ _ => trivial) fun _ _ _ => id

theorem exact_recentFills {symbol : Symbol} {sinceMs : Int} :
    LProc.Exact env (Survivable cfg env) (LProc.exec (call (.recentFills symbol sinceMs))) t h s :=
  exact_call (r := .recentFills symbol sinceMs) (fun _ _ _ => trivial) fun _ _ _ => id

theorem exact_balances :
    LProc.Exact env (Survivable cfg env) (LProc.exec (call .balances)) t h s :=
  exact_call (r := .balances) (fun _ _ _ => trivial) fun _ _ _ => id

theorem exact_query (l : Label) (f : Ledger → α) :
    LProc.Exact env (Survivable cfg env) (LProc.exec (query l f)) t h s :=
  LProc.exact_of_unfailing (unfailing_query l f) fun hq => ⟨_, hq.1⟩

theorem exact_clockNow : LProc.Exact env (Survivable cfg env) (LProc.exec clockNow) t h s :=
  LProc.exact_of_unfailing (unfailing_clockNow lenient_survivable) fun hnow => by
    obtain ⟨now, hok, -⟩ := ends_clockNow hnow
    exact ⟨now, hok⟩

theorem ends_transaction_total {l : Label} {tx : Tx α} (htx : tx.Total) {res : Except Exn α}
    (hrun : Proc.Ends env.answers (transaction l tx) h s res h' s') : ∃ a, res = .ok a := by
  obtain ⟨-, ⟨a, -, hok⟩ | ⟨e, herr, -⟩⟩ := ends_transaction hrun
  · exact ⟨a, hok⟩
  · obtain ⟨a, s₁, hok⟩ := htx s
    cases hok.symm.trans herr

theorem exact_transaction {l : Label} {tx : Tx α} (htx : tx.Total) :
    LProc.Exact env (Survivable cfg env) (LProc.exec (transaction l tx)) t h s :=
  LProc.exact_of_unfailing (unfailing_transaction l tx) (ends_transaction_total htx)

/-- A check whose conflicts are handled returns exactly when its program returns or raises an order
conflict. -/
theorem exact_handled {p : Engine α} {k : α → RunM PUnit}
    (hp : ∀ {res h' s'}, Proc.Ends env.answers p h s res h' s' →
      (Returns res ↔ p.Meets env (Survivable cfg env) h s))
    (hk : ∀ a t h s, LProc.Exact env (Survivable cfg env) (k a) t h s) :
    LProc.Exact env (Survivable cfg env) (do
      let outcome ← LProc.exec p.attempt
      onConflict o outcome k) t h s := by
  intro r t' h' s' hrun
  rcases (LProc.ends_bind _ _ _).1 hrun with ⟨outcome, t₁, h₁, s₁, hrun₁, hrest⟩ | ⟨e, hrun₁, -⟩
  · rw [LProc.meets_bind_ok hrun₁, LProc.meets_exec, Proc.meets_attempt]
    obtain ⟨-, hrun₁⟩ := (LProc.ends_exec _ _).1 hrun₁
    obtain ⟨_, heq, hrun₁⟩ := (Proc.ends_attempt _ _).1 hrun₁
    cases heq
    rw [← hp hrun₁]
    cases outcome with
    | ok a =>
      rw [and_iff_right (.ok a)]
      exact hk a _ _ _ hrest
    | error e =>
      cases e with
      | orderConflict m =>
        rw [and_iff_right (.inr ⟨m, rfl⟩)]
        exact LProc.exact_assign _ hrest
      | _ =>
        refine iff_of_false ?_ fun hreturns => ?_
        · rintro ⟨_, rfl⟩
          cases ((LProc.ends_throw _ _).1 hrest).1.1
        · rcases hreturns.1 with ⟨_, hok⟩ | ⟨m, hm⟩
          · cases hok
          · cases hm
  · obtain ⟨-, hrun₁⟩ := (LProc.ends_exec _ _).1 hrun₁
    obtain ⟨_, heq, -⟩ := (Proc.ends_attempt _ _).1 hrun₁
    cases heq

theorem exact_checkOpenOrder (henv : Adapter env) (hopen : o.isTerminal = false)
    (hx : (s.getOrder o.clientOrderId).isSome) :
    LProc.Exact env (Survivable cfg env) (checkOpenOrder cfg o) t h s := by
  unfold checkOpenOrder
  split
  · next hdoubt =>
    refine exact_handled (resolveAmbiguous_polite henv ⟨hopen, hdoubt⟩ hx) fun a t h s => ?_
    cases a with
    | resolved => exact LProc.exact_pure _
    | pending => exact LProc.Exact.bind (LProc.exact_assign _) fun _ => LProc.exact_assign _
  · next hdoubt =>
    exact exact_handled (refresh_polite henv hopen hdoubt) fun _ _ _ _ => LProc.exact_pure _

/-- Comparing a terminal order with a report comes back exactly when the report does not collide. -/
theorem compareTerminal_returns_iff {r : ExchangeOrderReport}
    (hx : (s.getOrder o.clientOrderId).isSome) {res : Except Exn Order}
    (hrun : Proc.Ends env.answers (compareTerminal cfg o r) h s res h' s') :
    Returns res ↔ ¬ Collides cfg s r := by
  unfold compareTerminal at hrun
  rcases (Proc.ends_bind _ _ _).1 hrun with ⟨_, h₁, s₁, happly, hrun⟩ | ⟨e, happly, rfl⟩
  · have hmoved : ExchangeMove cfg s s₁ := ends_exchange (t := ({} : Findings))
      (LProc.within_exec applyReport_exchange) ((LProc.ends_exec _ _).2 ⟨rfl, happly⟩)
    refine Iff.trans (iff_of_true ?_ (.ok _)) (ends_applyReport happly)
    rw [← hmoved.getOrder_isSome] at hx
    obtain ⟨x, hx⟩ := Option.isSome_iff_exists.1 hx
    rcases (Proc.ends_bind _ _ _).1 hrun with ⟨fresh, h₂, s₂, hq, hrun⟩ | ⟨e, hq, -⟩
    · obtain ⟨heq, rfl, rfl⟩ := (ends_query _ _ _).1 hq
      obtain rfl := Except.ok.inj heq
      rw [hx] at hrun
      obtain ⟨rfl, -, -⟩ := (Proc.ends_pure _ _).1 hrun
      exact .ok _
    · cases hq.1
  · exact Returns.error_iff.trans (ends_applyReport happly)

theorem unfailing_compareTerminal {r : ExchangeOrderReport} :
    (compareTerminal cfg o r).Unfailing env (Survivable cfg env) :=
  (unfailing_applyReport lenient_survivable).bind fun _ => (unfailing_query _ _).bind fun fresh => by
    cases fresh with
    | none => exact Proc.unfailing_throw _
    | some x => exact Proc.unfailing_pure _

theorem exact_verifyTerminal (hterminal : o.isTerminal)
    (hx : (s.getOrder o.clientOrderId).isSome) :
    LProc.Exact env (Survivable cfg env) (verifyTerminal cfg o) t h s := by
  have hdoubt : ¬ o.InDoubt := fun hdoubt => by cases hdoubt.1.symm.trans hterminal
  intro r t' h' s' hrun
  unfold verifyTerminal at hrun ⊢
  rcases (LProc.ends_bind _ _ _).1 hrun with ⟨rep, t₁, h₁, s₁, hcall, hrest⟩ | ⟨e, hcall, rfl⟩
  · rw [LProc.meets_bind_ok hcall, LProc.meets_exec]
    obtain ⟨rfl, hcall₁⟩ := (LProc.ends_exec _ _).1 hcall
    obtain ⟨ha, rfl, rfl⟩ := ends_call hcall₁
    have hmeets : (call (.queryOrder o)).Meets env (Survivable cfg env) h s₁ ↔
        ¬ Fatal cfg env h (.call (.queryOrder o)) s₁ (.ok rep) := by
      refine (and_iff_left trivial).trans ?_
      rw [ha]
    rw [hmeets]
    cases rep with
    | none =>
      rw [and_iff_right fun hfatal => hdoubt hfatal.1]
      exact LProc.exact_assign _ hrest
    | some rep =>
      dsimp only at hrest ⊢
      split at hrest
      · next hdiffers =>
        have hfatal : Fatal cfg env h (.call (.queryOrder o)) s₁ (.ok (some rep)) ↔
            Collides cfg s₁ rep := and_iff_right fun _ => hdiffers
        rw [hfatal, if_pos hdiffers]
        by_cases hcollides : Collides cfg s₁ rep
        · refine iff_of_false ?_ fun hno => hno.1 hcollides
          rintro ⟨_, rfl⟩
          rw [LProc.ends_exec_bind_ok] at hrest
          obtain ⟨outcome, _, _, hcompare, hrest⟩ := hrest
          obtain ⟨_, heq, hcompare⟩ := (Proc.ends_attempt _ _).1 hcompare
          cases heq
          have hnot := mt (compareTerminal_returns_iff hx hcompare).1 (not_not.2 hcollides)
          cases outcome with
          | ok a => exact hnot (.ok a)
          | error e =>
            cases e with
            | orderConflict m => exact hnot (.inr ⟨m, rfl⟩)
            | _ => cases ((LProc.ends_throw _ _).1 hrest).1.1
        · rw [and_iff_right hcollides]
          refine exact_handled (p := compareTerminal cfg o rep) (fun hcompare => ?_) (fun _ _ _ _ =>
            LProc.Exact.ite (LProc.exact_assign _) (LProc.exact_pure _)) hrest
          exact iff_of_true ((compareTerminal_returns_iff hx hcompare).2 hcollides)
            (unfailing_compareTerminal.meets _ _)
      · next hsame =>
        rw [if_neg hsame, and_iff_right fun hfatal => hsame (hfatal.1 hterminal)]
        exact LProc.exact_pure _ hrest
  · rw [LProc.meets_bind_error hcall, LProc.meets_exec]
    obtain ⟨-, hcall⟩ := (LProc.ends_exec _ _).1 hcall
    have ha := (ends_call hcall).1
    refine iff_of_false (by rintro ⟨_, ⟨⟩⟩) fun hmeets => ?_
    have hfatal := hmeets.1
    rw [← ha] at hfatal
    exact hfatal hdoubt

theorem exact_checkExchangeOpen {rep : ExchangeOrderReport} :
    LProc.Exact env (Survivable cfg env) (checkExchangeOpen cfg rep) t h s := by
  refine LProc.Exact.bind (exact_query _ _) fun {loc _ _ _} _ => ?_
  cases loc with
  | some _ => exact LProc.exact_pure _
  | none => exact LProc.exact_assign _

/-- Applying a report to the order it names raises nothing exactly when it neither contradicts the
order nor collides. -/
theorem applyReport_ok_iff {r : ExchangeOrderReport} {source : String} {x : Order}
    (hx : s.getOrder r.clientOrderId = some x) {res : Except Exn (Option Order)}
    (hrun : Proc.Ends env.answers (applyReport cfg r source) h s res h' s') :
    (∃ a, res = .ok a) ↔ ¬ (x.Contradicts r ∨ Collides cfg s r) := by
  have hreturns := ends_applyReport hrun
  have hfind : findOrder cfg s (some r.clientOrderId) r.exchangeOrderId = some x :=
    findOrder_of_clientOrderId hx
  cases hrun.post ((sequential_alone _).wp_applyReport r source) with
  | applied _ hr =>
    refine iff_of_true ⟨_, rfl⟩ (not_or.2 ⟨fun hcontra => ?_, hreturns.1 (.ok _)⟩)
    obtain ⟨now, out, htx, hout⟩ := hr
    obtain ⟨m, hm⟩ : ∃ m, x.applyReport r now = .error m := Order.applyReport_error.2 hcontra
    rcases applyReportTx_cases htx with ⟨hnone, -⟩ | ⟨y, hfind', ⟨m', rfl, -⟩ | ⟨hok, -⟩ |
      ⟨_, hok, -⟩⟩
    · cases hfind.symm.trans hnone
    · exact hout _ _ rfl
    · cases hfind.symm.trans hfind'
      cases hm.symm.trans hok
    · cases hfind.symm.trans hfind'
      cases hm.symm.trans hok
  | conflict _ _ hfind' hcontra =>
    cases hfind.symm.trans hfind'
    exact iff_of_false (by rintro ⟨_, ⟨⟩⟩) fun hno => hno (.inl hcontra)
  | refused _ _ he =>
    refine iff_of_false (by rintro ⟨_, ⟨⟩⟩) fun hno => ?_
    rcases hreturns.2 fun hcollides => hno (.inr hcollides) with ⟨_, ⟨⟩⟩ | ⟨m, hm⟩
    exact he m (Except.error.inj hm)

/-- The adoption of an order ends in its conflict, or returns. -/
theorem adopt_returns_iff {rep : Option ExchangeOrderReport}
    {res : Except Exn (Except (Option String) PUnit)} {t' : Findings}
    (hrun : LProc.Ends env.answers (adopt cfg rep) t h s res t' h' s') :
    ((∃ a, res = .ok a) ↔ ∀ r ∈ rep, ¬ (r.clientOrderId ≠ "" ∧ ∃ x,
      s.getOrder r.clientOrderId = some x ∧ (x.Contradicts r ∨ Collides cfg s r))) ∧
    LProc.Meets env (Survivable cfg env) (adopt cfg rep) t h s := by
  cases rep with
  | none =>
    simp only [adopt] at hrun ⊢
    exact ⟨iff_of_true ⟨_, ((LProc.ends_pure _ _).1 hrun).1.1⟩
      fun r hr => absurd hr (Option.not_mem_none r), LProc.meets_pure _⟩
  | some r =>
    simp only [Option.mem_some_iff, forall_eq']
    simp only [adopt] at hrun ⊢
    rcases (LProc.ends_bind _ _ _).1 hrun with ⟨loc, t₁, h₁, s₁, hq, hrest⟩ | ⟨e, hq, -⟩
    · rw [LProc.meets_bind_ok hq, LProc.meets_exec, and_iff_right ((unfailing_query _ _).meets _ _)]
      obtain ⟨rfl, hq₁⟩ := (LProc.ends_exec _ _).1 hq
      obtain ⟨hloc, rfl, rfl⟩ := (ends_query _ _ _).1 hq₁
      cases loc with
      | none =>
        refine ⟨iff_of_true ⟨_, ((LProc.ends_pure _ _).1 hrest).1.1⟩ ?_, LProc.meets_pure _⟩
        rintro ⟨hnamed, x, hx, -⟩
        rw [if_pos hnamed, hx] at hloc
        cases hloc
      | some x =>
        have hloc := (Except.ok.inj hloc).symm
        split at hloc
        · next hnamed =>
          rw [and_iff_right hnamed]
          have hx : (∃ y, s₁.getOrder r.clientOrderId = some y ∧
              (y.Contradicts r ∨ Collides cfg s₁ r)) ↔ x.Contradicts r ∨ Collides cfg s₁ r := by
            simp [hloc]
          rw [hx]
          rcases (LProc.ends_bind _ _ _).1 hrest with ⟨_, t₂, h₂, s₂, happly, hrest⟩ |
            ⟨e, happly, rfl⟩
          · rw [LProc.meets_bind_ok happly, LProc.meets_exec,
              and_iff_right ((unfailing_applyReport lenient_survivable).meets _ _)]
            have hreturned := ((LProc.ends_pure _ _).1 hrest).1.1
            obtain ⟨-, happly₁⟩ := (LProc.ends_exec _ _).1 happly
            exact ⟨iff_of_true ⟨_, hreturned⟩ ((applyReport_ok_iff hloc happly₁).1 ⟨_, rfl⟩),
              LProc.meets_pure _⟩
          · rw [LProc.meets_bind_error happly, LProc.meets_exec]
            obtain ⟨-, happly₁⟩ := (LProc.ends_exec _ _).1 happly
            refine ⟨?_, (unfailing_applyReport lenient_survivable).meets _ _⟩
            rw [← applyReport_ok_iff hloc happly₁]
            exact iff_of_false (by rintro ⟨_, ⟨⟩⟩) (by rintro ⟨_, ⟨⟩⟩)
        · cases hloc
    · obtain ⟨-, hq₁⟩ := (LProc.ends_exec _ _).1 hq
      cases hq₁.1

theorem exact_ownerOfFill {xf : ExchangeFill} :
    LProc.Exact env (Survivable cfg env) (ownerOfFill cfg xf) t h s := by
  refine LProc.Exact.bind (exact_query _ _) fun {loc _ _ _} _ => ?_
  cases loc with
  | some _ => exact LProc.exact_pure _
  | none =>
    dsimp only
    split
    · intro r t' h' s' hrun
      rcases (LProc.ends_bind _ _ _).1 hrun with ⟨rep, t₁, h₁, s₁, hcall, hrest⟩ | ⟨e, hcall, rfl⟩
      · rw [LProc.meets_bind_ok hcall, LProc.meets_exec]
        obtain ⟨rfl, hcall₁⟩ := (LProc.ends_exec _ _).1 hcall
        obtain ⟨ha, rfl, rfl⟩ := ends_call hcall₁
        obtain ⟨hreturns, hmeets⟩ := adopt_returns_iff hrest
        rw [and_iff_left hmeets, hreturns]
        refine Iff.trans ?_ (and_iff_left trivial).symm
        rw [← ha]
        cases rep with
        | none => exact iff_of_true (fun r hr => absurd hr (Option.not_mem_none r)) id
        | some rep =>
          simp only [Option.mem_some_iff, forall_eq']
          exact Iff.rfl
      · rw [LProc.meets_bind_error hcall, LProc.meets_exec]
        obtain ⟨-, hcall₁⟩ := (LProc.ends_exec _ _).1 hcall
        have ha := (ends_call hcall₁).1
        refine iff_of_false (by rintro ⟨_, ⟨⟩⟩) fun hmeets => ?_
        have hfatal := hmeets.1
        rw [← ha] at hfatal
        exact hfatal trivial
    · simp only [adopt]
      exact LProc.exact_pure _

theorem ends_ingestFill {xf : ExchangeFill} {res : Except Exn Bool}
    (hrun : Proc.Ends env.answers (ingestFill cfg xf) h s res h' s') : ∃ b, res = .ok b :=
  @Proc.Ends.post _ _ _ _ _ _ _ _ _ _ _ (fun res _ _ => ∃ b, res = .ok b) _ _ hrun
    ((sequential_alone _).wp_ingestFill fun _ b _ _ _ _ => ⟨b, rfl⟩)

theorem exact_checkRecentFill {xf : ExchangeFill} :
    LProc.Exact env (Survivable cfg env) (checkRecentFill cfg xf) t h s := by
  refine LProc.Exact.bind exact_ownerOfFill fun {res _ _ _} _ => ?_
  cases res with
  | error coid => exact LProc.exact_assign _
  | ok _ =>
    exact LProc.Exact.bind (LProc.exact_of_unfailing (unfailing_ingestFill lenient_survivable) ends_ingestFill)
      fun _ => LProc.exact_pure _

theorem exact_ingestOrderFills {x : Option Order} :
    LProc.Exact env (Survivable cfg env) (LProc.exec (ingestOrderFills cfg x)) t h s := by
  intro r t' h' s' hrun
  obtain ⟨-, hrun⟩ := (LProc.ends_exec _ _).1 hrun
  rw [LProc.meets_exec]
  exact ingestOrderFills_returns_iff hrun

theorem exact_checkFillsComplete {tolerance : ℚ} :
    LProc.Exact env (Survivable cfg env) (checkFillsComplete cfg tolerance o) t h s := by
  refine LProc.Exact.ite (LProc.exact_pure _) (LProc.Exact.bind (exact_query _ _) fun _ =>
    LProc.Exact.ite (LProc.Exact.bind exact_ingestOrderFills fun _ =>
      LProc.Exact.bind (exact_query _ _) fun _ =>
        LProc.Exact.ite (LProc.exact_assign _) (LProc.exact_pure _)) (LProc.exact_pure _))

theorem exact_rebuild : LProc.Exact env (Survivable cfg env) (LProc.exec (rebuild cfg)) t h s := by
  refine LProc.exact_of_unfailing (unfailing_rebuild lenient_survivable) fun {r h' s'} hrun => ?_
  rcases (Proc.ends_bind _ _ _).1 hrun with ⟨existing, h₁, s₁, -, hrun⟩ | ⟨e, hq, -⟩
  · rcases (Proc.ends_bind _ _ _).1 hrun with ⟨fills, h₂, s₂, -, hrun⟩ | ⟨e, hq, -⟩
    · rcases (Proc.ends_bind _ _ _).1 hrun with ⟨now, h₃, s₃, -, hrun⟩ | ⟨e, hnow, -⟩
      · rcases (Proc.ends_bind _ _ _).1 hrun with ⟨p, h₄, s₄, -, hrun⟩ | ⟨e, htx, -⟩
        · exact ⟨_, ((Proc.ends_pure _ _).1 hrun).1⟩
        · obtain ⟨_, hok⟩ := ends_transaction_total (fun s => ⟨_, _, rfl⟩) htx
          cases hok
      · obtain ⟨_, hok, -⟩ := ends_clockNow hnow
        cases hok
    · cases hq.1
  · cases hq.1

theorem exact_comparePosition {tolerance baseTotal : ℚ} {before rebuilt : Position}
    {anomalies : List Anomaly} : LProc.Exact env (Survivable cfg env)
      (comparePosition tolerance before rebuilt anomalies baseTotal) t h s := by
  have hlast {t h s} : LProc.Exact env (Survivable cfg env)
      (if tolerance < rebuilt.quantity - baseTotal then
        report .balanceBelowPosition .critical none (.quantities rebuilt.quantity baseTotal)
      else pure ⟨⟩) t h s := LProc.Exact.ite (LProc.exact_assign _) (LProc.exact_pure _)
  have hrest {t h s} : LProc.Exact env (Survivable cfg env) (do
      anomalies.forM fun a => report .positionAnomaly .critical none (.anomaly a)
      if tolerance < rebuilt.quantity - baseTotal then
        report .balanceBelowPosition .critical none (.quantities rebuilt.quantity baseTotal)) t h s :=
    LProc.Exact.bind (LProc.exact_forM (fun _ _ => True) (fun _ => LProc.exact_assign _)
      (fun _ _ => trivial) trivial) fun _ => hlast
  exact LProc.Exact.ite (LProc.Exact.bind (LProc.exact_assign _) fun _ => hrest) hrest

theorem exact_checkPosition {runKey : RunKey} {rules : SymbolRules} {tolerance : ℚ} :
    LProc.Exact env (Survivable cfg env) (checkPosition cfg runKey rules tolerance) t h s := by
  refine LProc.Exact.bind exact_balances fun _ =>
    LProc.Exact.bind (exact_query _ _) fun _ => LProc.Exact.bind exact_rebuild fun _ =>
    LProc.Exact.bind exact_comparePosition fun _ =>
    LProc.Exact.bind (exact_transaction fun s => ⟨_, _, rfl⟩) fun _ =>
    LProc.Exact.bind exact_clockNow fun _ =>
    LProc.Exact.bind (exact_transaction fun s => ⟨⟨⟩, Store.enqueue_isOk _ _ _ _ s⟩) fun _ =>
    LProc.Exact.ite (LProc.Exact.bind (exact_query _ _) fun _ =>
      LProc.Exact.ite (LProc.exact_assign _) (LProc.exact_pure _)) (LProc.exact_pure _)

/-- The try block of a run returns exactly when no answer is fatal. -/
theorem exact_body (henv : Adapter env) {runKey : RunKey} {last : Option Time} :
    LProc.Exact env (Survivable cfg env) (body cfg runKey last) t h s := by
  let I (K : Order → Prop) (os : List Order) (s : Ledger) : Prop :=
    ∀ o ∈ os, K o ∧ (s.getOrder o.clientOrderId).isSome
  have hkept {K : Order → Prop} {check : Order → RunM PUnit}
      (hmoves : ∀ o, (check o).Within (Exchange cfg)) {o : Order} {os : List Order} {t h s t' h' s'}
      (hI : I K (o :: os) s)
      (hrun : LProc.Ends env.answers (check o) t h s (.ok ⟨⟩) t' h' s') : I K os s' := by
    intro x hx
    obtain ⟨hK, hsome⟩ := hI x (.tail _ hx)
    rw [(ends_exchange (hmoves o) hrun).getOrder_isSome]
    exact ⟨hK, hsome⟩
  have hrow {s : Ledger} {o : Order} (ho : o ∈ s.orders.rows) :
      (s.getOrder o.clientOrderId).isSome := by
    rw [Ledger.getOrder_of_mem ho]
    rfl
  refine LProc.Exact.bind exact_symbolRules fun _ => ?_
  refine LProc.Exact.bind (exact_query _ _) fun {localOpen _ _ s₁} hopen => ?_
  obtain ⟨-, hopen⟩ := (LProc.ends_exec _ _).1 hopen
  obtain ⟨hopen, -, rfl⟩ := (ends_query _ _ _).1 hopen
  refine LProc.Exact.bind exact_openOrders fun {exchangeOpen _ _ _} hcall => ?_
  obtain ⟨-, hcall⟩ := (LProc.ends_exec _ _).1 hcall
  obtain ⟨-, -, rfl⟩ := ends_call hcall
  refine LProc.Exact.bind (LProc.exact_forM (I fun o => o.isTerminal = false)
    (fun hI => exact_checkOpenOrder henv (hI _ (.head _)).1 (hI _ (.head _)).2)
    (hkept fun _ => checkOpenOrder_exchange) ?_) fun _ => ?_
  · cases hopen
    intro o ho
    obtain ⟨hmem, -, -, hterminal⟩ := Ledger.mem_nonTerminalOrders.1 ho
    exact ⟨hterminal, hrow hmem⟩
  refine LProc.Exact.bind exact_clockNow fun _ => LProc.Exact.bind (exact_query _ _)
    fun {recent _ _ _} hrecent => ?_
  obtain ⟨-, hrecent⟩ := (LProc.ends_exec _ _).1 hrecent
  obtain ⟨hrecent, -, rfl⟩ := (ends_query _ _ _).1 hrecent
  refine LProc.Exact.bind (LProc.exact_forM (I fun o => o.isTerminal = true)
    (fun hI => exact_verifyTerminal (hI _ (.head _)).1 (hI _ (.head _)).2)
    (hkept fun _ => verifyTerminal_exchange) ?_) fun _ => ?_
  · cases hrecent
    intro o ho
    obtain ⟨hmem, hkind⟩ := List.mem_filter.1 (List.mem_of_mem_take ho)
    rw [isRecentTerminal, Bool.and_eq_true, Bool.and_eq_true, Bool.and_eq_true] at hkind
    exact ⟨hkind.1.1.1, hrow (Ledger.mem_of_newestOrders hmem)⟩
  refine LProc.Exact.bind (LProc.exact_forM (fun _ _ => True) (fun _ => exact_checkExchangeOpen)
    (fun _ _ => trivial) trivial) fun _ => ?_
  refine LProc.Exact.bind exact_recentFills fun _ => ?_
  refine LProc.Exact.bind (LProc.exact_forM (fun _ _ => True) (fun _ => exact_checkRecentFill)
    (fun _ _ => trivial) trivial) fun _ => ?_
  refine LProc.Exact.bind (exact_query _ _) fun _ => ?_
  exact LProc.Exact.bind (LProc.exact_forM (fun _ _ => True) (fun _ => exact_checkFillsComplete)
    (fun _ _ => trivial) trivial) fun _ => exact_checkPosition

end

end CryptoBot
