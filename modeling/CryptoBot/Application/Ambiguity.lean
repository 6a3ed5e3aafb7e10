import CryptoBot.Application.Exits

/-!
# Resolving an order in doubt

`resolve_ambiguous` asks the exchange about an order until the answer settles it. The flag of an
ambiguous submission is never cleared, so the question is also asked about orders that have long
been acknowledged, and the state machine lets no such order become `REJECTED`.
-/

namespace CryptoBot

open Lib OrderService TradingCycle

/-! ## Reports the store does not take -/

/-- The report would give its order the exchange id of another order. -/
def Collides (cfg : Config) (s : Ledger) (r : ExchangeOrderReport) : Prop :=
  ∃ y z, findOrder cfg s (some r.clientOrderId) r.exchangeOrderId = some y ∧ ¬ y.Contradicts r ∧
    y.adoptsExchangeId r ∧ z ∈ s.orders.rows ∧ z.id ≠ y.id ∧ z.exchange = y.exchange ∧
      z.exchangeOrderId = r.exchangeOrderId

section
variable {cfg : Config} {s s' : Ledger} {o : Order} {r : ExchangeOrderReport} {now : Time}

/-- Saving an order under the exchange id of another one raises. -/
theorem Store.saveOrder_raises {x z y : Order} (hx : x ∈ s.orders.rows) (hs : Order.Same x y)
    (hz : z ∈ s.orders.rows) (hid : z.id ≠ x.id) (hexchange : z.exchange = x.exchange)
    (hsome : y.exchangeOrderId.isSome) (heq : z.exchangeOrderId = y.exchangeOrderId) :
    ∃ e, Store.saveOrder y s = .error e := by
  cases hsave : Store.saveOrder y s with
  | error e => exact ⟨e, rfl⟩
  | ok res =>
    obtain ⟨o', s'⟩ := res
    obtain ⟨rfl, hrep⟩ := Store.saveOrder_ok hx hs hsave
    have hz' : z ∈ s'.orders.rows := hrep.mem_iff.2 (.inr ⟨hz, hid⟩)
    have hsame := Ledger.eq_of_exchangeOrderId hz' hrep.mem_new
      (hexchange.trans hs.exchange.symm) (heq ▸ hsome) heq
    exact absurd ((congrArg Order.id hsame).trans hs.id) hid

/-- A report that gives an order its exchange id changes the order. -/
theorem Order.applyReport_adopts {y y' : Order} {b : Bool} (h : y.applyReport r now = .ok (b, y'))
    (hadopts : y.adoptsExchangeId r) : b = true ∧ y'.exchangeOrderId = r.exchangeOrderId := by
  obtain ⟨ha, hkeep⟩ := Order.applyReport_ok h
  have hx : y'.exchangeOrderId = r.exchangeOrderId := by rw [ha.exchangeOrderId, if_pos hadopts]
  refine ⟨?_, hx⟩
  cases b with
  | true => rfl
  | false =>
    obtain rfl := hkeep rfl
    rw [Order.adoptsExchangeId, hx, Bool.and_not_self] at hadopts
    cases hadopts

/-- An order that a report has changed is saved, unless the report collides. -/
theorem saveOrder_isOk_of_report {y y' : Order}
    (hfind : findOrder cfg s (some r.clientOrderId) r.exchangeOrderId = some y)
    (h : y.applyReport r now = .ok (true, y')) (hno : ¬ Collides cfg s r) :
    ∃ orders, Store.saveOrder y' s =
      .ok ({ y' with version := y'.version + 1 }, { s with orders }) := by
  have hy := findOrder_mem hfind
  have ha := (Order.applyReport_ok h).1
  refine Store.saveOrder_isOk hy ha.same ha.version fun z hz hid hsome hz' => ?_
  have hx := ha.exchangeOrderId
  cases hadopts : y.adoptsExchangeId r with
  | true =>
    rw [if_pos hadopts] at hx
    have hcontra : ¬ y.Contradicts r := by
      intro hc
      obtain ⟨m, hm⟩ := Order.applyReport_error.2 hc
      rw [h] at hm
      cases hm
    exact hno ⟨y, z, hfind, hcontra, hadopts, hz, hid, hz'.1, hz'.2.trans hx⟩
  | false =>
    rw [hadopts, if_neg Bool.false_ne_true] at hx
    rw [hx] at hsome hz'
    have heq := Ledger.eq_of_exchangeOrderId hy hz hz'.1.symm hsome hz'.2.symm
    exact hid (congrArg Order.id heq.symm)

/-- The transaction of a report raises exactly when the report collides. -/
theorem applyReportTx_raises_iff :
    (∃ e, applyReportTx cfg r now s = .error e) ↔ Collides cfg s r := by
  constructor
  · rintro ⟨e, he⟩
    by_contra hno
    unfold applyReportTx at he
    split at he
    · cases he
    next y hfind =>
    split at he
    · cases he
    next b y' happly =>
    split at he
    · next hb =>
      obtain ⟨orders, hsave⟩ := saveOrder_isOk_of_report hfind (hb ▸ happly) hno
      rw [Tx.bind_eq hsave] at he
      rcases Tx.bind_error he with he | ⟨_, _, -, he⟩
      · obtain ⟨_, henqueue⟩ := Store.enqueueOrder_eq_ok _ now { s with orders }
        rw [henqueue] at he
        cases he
      · cases he
    · cases he
  · rintro ⟨y, z, hfind, hno, hadopts, hz, hid, hexchange, hx⟩
    cases happly : y.applyReport r now with
    | error m => exact absurd (Order.applyReport_error.1 ⟨m, happly⟩) hno
    | ok res =>
      obtain ⟨b, y'⟩ := res
      obtain ⟨rfl, hy'⟩ := Order.applyReport_adopts happly hadopts
      have ha := (Order.applyReport_ok happly).1
      have hsome : y'.exchangeOrderId.isSome := by
        rw [hy']
        exact Option.isSome_iff_ne_none.2 fun hnone => by
          rw [Order.adoptsExchangeId, hnone] at hadopts
          cases hadopts
      obtain ⟨e, he⟩ := Store.saveOrder_raises (findOrder_mem hfind) ha.same hz hid hexchange hsome
        (hx.trans hy'.symm)
      refine ⟨e, ?_⟩
      rw [applyReportTx, hfind]
      dsimp only
      rw [happly]
      dsimp only
      rw [if_pos rfl]
      simp only [bind, StateT.bind, he]
      rfl

/-! ## Rejecting -/

/-- An open order is rejected where the state machine lets it become `REJECTED`. -/
theorem rejectTx_ok_iff {reason : String} (ho : o ∈ s.orders.rows) (hopen : o.isTerminal = false) :
    (∃ s', rejectTx o.clientOrderId reason now s = .ok (⟨⟩, s')) ↔
      canTransition o.status .rejected := by
  have hget : Store.present (s.getOrder o.clientOrderId) s = .ok (o, s) := by
    rw [Ledger.getOrder_of_mem ho]
    rfl
  have hne : ¬ OrderStatus.rejected = o.status := by
    intro h
    rw [Order.isTerminal, ← h] at hopen
    cases hopen
  have hmark : o.markRejected reason now =
      if canTransition o.status .rejected then
        .ok (true, { o with
          status := .rejected, terminalAt := some now, rejectReason := some reason })
      else .error s!"{o.clientOrderId}: {o.status.value} -> {OrderStatus.rejected.value}" := by
    unfold Order.markRejected Order.transition
    rw [hopen, if_neg Bool.false_ne_true, if_neg hne]
    split <;> rfl
  unfold rejectTx
  rw [Tx.bind_eq hget, hmark]
  by_cases hcan : canTransition o.status .rejected
  · refine iff_of_true ?_ hcan
    rw [if_pos hcan]
    obtain ⟨orders, hsave⟩ := Store.saveOrder_isOk (s := s) (o := { o with
      status := .rejected, terminalAt := some now, rejectReason := some reason }) ho
      (by constructor <;> rfl) rfl fun z hz hid hsome hz' => by
        have heq := Ledger.eq_of_exchangeOrderId ho hz hz'.1.symm hsome hz'.2.symm
        exact hid (congrArg Order.id heq.symm)
    obtain ⟨outbox, henqueue⟩ := Store.enqueueOrder_eq_ok { o with
      status := .rejected, terminalAt := some now, rejectReason := some reason
      version := o.version + 1 } now { s with orders }
    refine ⟨_, (Tx.bind_eq rfl).trans ((Tx.bind_eq hsave).trans henqueue)⟩
  · refine iff_of_false ?_ hcan
    rw [if_neg hcan]
    rintro ⟨s', hs'⟩
    cases hs'

/-- Rejecting does not raise an order conflict. -/
theorem rejectTx_error {c reason : String} {e : Exn}
    (h : rejectTx c reason now s = .error e) : ∀ m, e ≠ .orderConflict m := by
  intro m
  rcases Tx.bind_error h with h | ⟨fresh, s₁, -, h⟩
  · unfold Store.present at h
    split at h <;> cases h
    exact nofun
  rcases Tx.bind_error h with h | ⟨⟨rejected, fresh'⟩, s₂, -, h⟩
  · unfold Store.legal at h
    split at h <;> cases h
    exact nofun
  cases rejected with
  | false => cases h
  | true =>
    rcases Tx.bind_error h with h | ⟨_, s₃, -, h⟩
    · exact Store.saveOrder_error h m
    · obtain ⟨_, henqueue⟩ := Store.enqueueOrder_eq_ok _ now s₃
      rw [henqueue] at h
      cases h

end

/-! ## The resolution -/

/-- The call comes back, or raises an `OrderConflict`. -/
def Returns {α : Type} (res : Except Exn α) : Prop :=
  (∃ a, res = .ok a) ∨ ∃ m, res = .error (.orderConflict m)

/-- The answer `a` to the query of the order `o` settles it, or leaves it to a later query: the
query failed, or the order was not found within the grace period or before anything was heard of it,
or its report does not collide. -/
def Settles (cfg : Config) (s : Ledger) (o : Order) (now : Time) :
    Except Exn (Option ExchangeOrderReport) → Prop
  | .error _ => True
  | .ok none =>
    now - o.submittedAt.getD now < seconds cfg.ambiguousOrderGraceSeconds ∨
      canTransition o.status .rejected
  | .ok (some r) => ¬ Collides cfg s r

section
variable {cfg : Config} {env : Prog.Env Label Ans} {h h' : History Label Ans} {s s' : Ledger}
  {o : Order} {r : ExchangeOrderReport}

theorem Returns.ok {α : Type} (a : α) : Returns (.ok a : Except Exn α) := .inl ⟨a, rfl⟩

theorem Returns.error_iff {α β : Type} {e : Exn} :
    Returns (.error e : Except Exn α) ↔ Returns (.error e : Except Exn β) := by
  simp [Returns]

theorem ends_recordConflict {ans : Answers Ledger Label Ans} {c message source : String}
    {status : OrderStatus} {res : Except Exn PUnit}
    (hrun : Proc.Ends ans (recordConflict cfg c status message source) h s res h' s') :
    res = .ok ⟨⟩ := by
  unfold recordConflict at hrun
  rcases (Proc.ends_bind _ _ _).1 hrun with ⟨now, h₁, s₁, -, hrun⟩ | ⟨e, hnow, -⟩
  · rcases (Proc.ends_bind _ _ _).1 hrun with ⟨_, h₂, s₂, -, hrun⟩ | ⟨e, hevent, -⟩
    · exact (ends_enqueue (by decide) hrun).1
    · cases (ends_enqueue (by decide) hevent).1
  · obtain ⟨_, hok, -⟩ := ends_clockNow hnow
    cases hok

/-- Applying a report comes back exactly when the report does not collide. -/
theorem ends_applyReport {ans : Answers Ledger Label Ans} {source : String}
    {res : Except Exn (Option Order)}
    (hrun : Proc.Ends ans (applyReport cfg r source) h s res h' s') :
    Returns res ↔ ¬ Collides cfg s r := by
  unfold applyReport at hrun
  rcases (Proc.ends_bind _ _ _).1 hrun with ⟨now, h₁, s₁, hnow, hrest⟩ | ⟨e, hnow, -⟩
  · obtain ⟨_, hok, -, -, rfl⟩ := ends_clockNow hnow
    rcases (Proc.ends_bind _ _ _).1 hrest with ⟨out, h₂, s₂, htx, hrest⟩ | ⟨e, htx, rfl⟩
    · obtain ⟨-, ⟨_, htx, hout⟩ | ⟨_, -, hout, -⟩⟩ := ends_transaction htx
      · cases hout
        refine iff_of_true ?_ fun hc => ?_
        · cases out with
          | unknown =>
            obtain ⟨rfl, -, -⟩ := (Proc.ends_pure _ _).1 hrest
            exact .ok _
          | applied o =>
            obtain ⟨rfl, -, -⟩ := (Proc.ends_pure _ _).1 hrest
            exact .ok _
          | conflict c m =>
            rcases (Proc.ends_bind _ _ _).1 hrest with ⟨_, h₃, s₃, -, hthrow⟩ | ⟨e, hrecord, -⟩
            · exact .inr ⟨m, hthrow.1⟩
            · cases ends_recordConflict hrecord
        · obtain ⟨e, he⟩ := applyReportTx_raises_iff.2 hc
          cases he.symm.trans htx
      · cases hout
    · obtain ⟨-, ⟨_, -, hout⟩ | ⟨e', htx, hout, -⟩⟩ := ends_transaction htx
      · cases hout
      · cases hout
        refine iff_of_false ?_ fun hno => hno (applyReportTx_raises_iff.1 ⟨_, htx⟩)
        rintro (⟨_, hok⟩ | ⟨m, hm⟩)
        · cases hok
        · exact applyReportTx_error htx m (Except.error.inj hm)
  · obtain ⟨_, hok, -⟩ := ends_clockNow hnow
    cases hok

end

/-! ## What the exchange has reported -/

/-- A report as the adapters make it: no exchange has an order in a status before `NEW`. -/
def ExchangeOrderReport.Received (r : ExchangeOrderReport) : Prop :=
  r.status ≠ .intentCreated ∧ r.status ≠ .submitting

/-- The orders that executions are of, by their client order ids. -/
def executedBy (xfs : List ExchangeFill) : List String := xfs.filterMap (·.clientOrderId)

/-- The orders that an answer of the exchange reports, by their client order ids: those its reports
and executions name, and the one that was asked about. A refusal reports no order. -/
def namedBy : (q : Request) → Ans q → List String
  | .call (.submit o _), .ok out | .call (.cancel o), .ok out =>
    (if out.kind = .acknowledged then [o.clientOrderId] else []) ++
      out.report.toList.map (·.clientOrderId) ++ executedBy out.fills
  | .call (.queryOrder o), .ok (some r) => [o.clientOrderId, r.clientOrderId]
  | .call (.queryOrderByExchangeId ..), .ok (some r) => [r.clientOrderId]
  | .call (.queryFills o), .ok (xf :: xfs) => o.clientOrderId :: executedBy (xf :: xfs)
  | .call (.openOrders _), .ok reps => reps.map (·.clientOrderId)
  | .call (.recentFills ..), .ok xfs => executedBy xfs
  | _, _ => []

/-- A step that has applied a report of the exchange to the order `c`. -/
def TakesReport (cfg : Config) (c : String) (s s' : Ledger) : Prop :=
  ∃ r now y s₁, r.Received ∧ applyReportTx cfg r now s = .ok (.applied y, s₁) ∧
    y.clientOrderId = c ∧ s'.orders = s₁.orders

/-- An order that has reached the exchange, or was never to. -/
def Ledger.Answered (s : Ledger) (c : String) : Prop :=
  ∃ y ∈ s.orders.rows, y.clientOrderId = c ∧ canTransition y.status .rejected = false

/-- Every order has been launched. -/
def Ledger.Launched (s : Ledger) : Prop := ∀ y ∈ s.orders.rows, y.status ≠ .intentCreated

section
variable {cfg : Config} {s s' : Ledger} {o o' : Order} {K : OrderStatus → Prop}

theorem OrderChange.status (h : OrderChange cfg s o o') :
    o'.status = o.status ∨ canTransition o.status o'.status := by
  cases h with
  | report _ ha =>
    have hstatus := (Order.applyReport_ok ha).1.status
    unfold OrderStatus.after at hstatus
    split at hstatus
    · next hcan => exact .inr (hstatus ▸ hcan)
    · exact .inl hstatus
  | rejected hr =>
    unfold Order.markRejected Order.transition at hr
    split at hr
    · cases hr
    split at hr
    · next heq =>
      cases hr
      exact .inl rfl
    · split at hr
      · next hcan =>
        cases hr
        exact .inr hcan
      · cases hr
  | flagged => exact .inl rfl

/-- Every order is still there and has kept `K` of its status, as has every new one that begins
with it. -/
structure StatusesKept (K : OrderStatus → Prop) (s s' : Ledger) : Prop where
  every : K .submitting → (∀ y ∈ s.orders.rows, K y.status) → ∀ y ∈ s'.orders.rows, K y.status
  each : ∀ c, (∃ y ∈ s.orders.rows, y.clientOrderId = c ∧ K y.status) →
    ∃ y ∈ s'.orders.rows, y.clientOrderId = c ∧ K y.status

theorem StatusesKept.of_eq (h : s'.orders = s.orders) : StatusesKept K s s' := by
  constructor <;> rw [h]
  · exact fun _ => id
  · exact fun _ => id

theorem ExchangeMove.statusesKept (hK : ∀ a b, canTransition a b → K a → K b)
    (hm : ExchangeMove cfg s s') : StatusesKept K s s' := by
  induction hm with
  | keep h => exact .of_eq (congrArg Ledger.orders h :)
  | @change s s' o o' hc hr =>
    have hchange (h : K o.status) : K o'.status :=
      hc.status.elim (fun heq => heq ▸ h) fun hcan => hK _ _ hcan h
    refine ⟨fun _ hs y hy => ?_, ?_⟩
    · rcases hr.mem_iff.1 hy with rfl | ⟨hy, -⟩
      · exact hchange (hs o hr.mem)
      · exact hs y hy
    · rintro c ⟨y, hy, hname, hy'⟩
      by_cases hid : y.id = o.id
      · obtain rfl := Ledger.eq_of_id hy hr.mem hid
        exact ⟨o', hr.mem_new, hr.same.clientOrderId.trans hname, hchange hy'⟩
      · exact ⟨y, hr.mem_iff.2 (.inr ⟨hy, hid⟩), hname, hy'⟩
  | fill h => exact .of_eq (congrArg Ledger.orders h.rest :)
  | seq _ _ ih ih' =>
    exact ⟨fun hnew => ih'.every hnew ∘ ih.every hnew, fun c => ih'.each c ∘ ih.each c⟩

theorem Move.statusesKept {l : Label} (hK : ∀ a b, canTransition a b → K a → K b)
    (hm : Move cfg l s s') : StatusesKept K s s' := by
  cases hm with
  | read => exact .of_eq rfl
  | exchange h => exact h.2.statusesKept hK
  | place h =>
    refine ⟨fun hnew hs y hy => ?_, ?_⟩
    · rw [h.rows, List.mem_append, List.mem_singleton] at hy
      rcases hy with hy | rfl
      · exact hs y hy
      · rw [h.order.1]
        exact hnew
    · rintro c ⟨y, hy, hc, hy'⟩
      exact ⟨y, h.rows ▸ List.mem_append_left _ hy, hc, hy'⟩
  | position _ h => exact .of_eq (congrArg Ledger.orders h.rest :)
  | recon _ _ rest => exact .of_eq (congrArg Ledger.orders rest :)

theorem EngineProgram.within_move {G : ExchangeOrderReport → Prop}
    {p : Prog Ledger Label Ans PUnit} (hp : EngineProgram cfg G p) : p.Within (Move cfg) := by
  cases hp with
  | runOnce => exact runOnce_move.forget
  | run => exact run_move.forget
  | start => exact start_move.forget
  | onState => exact onState_move.forget
  | onEvent ev => exact onEvent_move.forget
  | pollControl => exact pollControl_move.forget
  | touch => exact touch_move.forget

/-- Before anything is heard of an order it may still become `REJECTED`; from then on it may not. -/
theorem Order.Applied.answered {r : ExchangeOrderReport} (hr : r.Received)
    (ho : o.status ≠ .intentCreated) (ha : Order.Applied o r o') :
    canTransition o'.status .rejected = false := by
  rw [ha.status]
  obtain ⟨h₁, h₂⟩ := hr
  revert ho h₁ h₂
  cases o.status <;> cases r.status <;> decide

theorem TakesReport.answered {c : String} (hs : s.Launched) (h : TakesReport cfg c s s') :
    s'.Answered c := by
  obtain ⟨r, now, y, s₁, hr, htx, hname, horders⟩ := h
  rcases applyReportTx_cases htx with ⟨-, hout, -⟩ | ⟨x, hfind, ⟨_, hout, -⟩ | ⟨hok, hout, rfl⟩ |
    ⟨x', hok, hout, hrep⟩⟩
  · cases hout
  · cases hout
  · cases hout
    exact ⟨y, horders ▸ findOrder_mem hfind, hname,
      (Order.applyReport_ok hok).1.answered hr (hs y (findOrder_mem hfind))⟩
  · cases hout
    have hanswered : canTransition x'.status .rejected = false :=
      (Order.applyReport_ok hok).1.answered hr (hs x (findOrder_mem hfind))
    exact ⟨_, horders ▸ hrep.mem_new, hname, hanswered⟩

variable {τ : Type} [DecidableEq τ] {P : Pool τ Ledger Label Ans} {G : ExchangeOrderReport → Prop}
  {ok : Pool τ Ledger Label Ans → Act τ Label Ans → Prop}

/-- In the run that led to `P` a report of the exchange has been applied to the order `c`. -/
def TakenIn (cfg : Config) (G : ExchangeOrderReport → Prop)
    (ok : Pool τ Ledger Label Ans → Act τ Label Ans → Prop) (c : String)
    (P : Pool τ Ledger Label Ans) : Prop :=
  ∃ P₁ act P₂, Pool.Run (EngineProgram cfg G) ok (.idle {}) P₁ ∧
    Pool.Step (EngineProgram cfg G) P₁ act P₂ ∧ ok P₁ act ∧
    Pool.Run (EngineProgram cfg G) ok P₂ P ∧ TakesReport cfg c P₁.state P₂.state

/-- The act is an answer that reports the order `c`. -/
def Act.names {τ : Type} (c : String) : Act τ Label Ans → Bool
  | .event _ (.call q a) => decide (c ∈ namedBy q a)
  | _ => false

/-- What has been applied to an order shows in its status for good. -/
theorem TakenIn.answered {c : String} (h : TakenIn cfg G ok c P) : P.state.Answered c := by
  obtain ⟨P₁, act, P₂, hbefore, hstep, hok, hafter, htake⟩ := h
  have hlaunched : P₁.state.Launched := by
    have hK (a b : OrderStatus) (hab : canTransition a b) : a ≠ .intentCreated →
        b ≠ .intentCreated := by
      revert hab
      cases a <;> cases b <;> decide
    refine Pool.Run.invariant_of_within (R := Move cfg) (I := Ledger.Launched)
      (fun hp => hp.within_move) (fun hm hs => ?_) ?_ ?_ hbefore
    · exact (hm.statusesKept hK).every (by decide) hs
    · exact fun _ => trivial
    · exact fun y hy => absurd hy List.not_mem_nil
  have hK (a b : OrderStatus) (hab : canTransition a b) : canTransition a .rejected = false →
      canTransition b .rejected = false := by
    revert hab
    cases a <;> cases b <;> decide
  have hprogs : ∀ i, (P₂.prog i).Within (Move cfg) := by
    refine (Pool.Run.within (I := fun _ => True) (fun hp => hp.within_move) (fun _ _ => trivial) ?_
      trivial (hbefore.tail hok hstep)).1
    exact fun _ => trivial
  refine Pool.Run.invariant_of_within (R := Move cfg) (I := fun s => s.Answered c)
    (fun hp => hp.within_move) (fun hm hs => ?_) hprogs (htake.answered hlaunched) hafter
  exact (hm.statusesKept (K := fun st => canTransition st .rejected = false) hK).each c hs

/-! ## Total and sound -/

variable {env : Prog.Env Label Ans} {h : History Label Ans}

end

/-! ### An order that was acknowledged late -/

end CryptoBot
