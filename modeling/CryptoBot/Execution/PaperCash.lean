import CryptoBot.Execution.PaperAccount
import CryptoBot.Lib.Paths

/-!
# The cash of a paper account

An entry is sized against the cash of the account, and pays its fee on top. Through every sequence
of cycles the account is square between submissions, so that what the sizing has read is what the
execution is taken from: the cash stays positive when the settings leave room for the fee.
-/

namespace CryptoBot

open Lib OrderService

/-! ## The terms of a paper account -/

/-- A BUY that is handed to the executor costs no more than the cash there is, its fee included. -/
def Affordable (cfg : Config) (feeRate start : ℚ) (q : Request) (s : Ledger) : Prop :=
  ∀ o rules price, q = .call (.submit o rules) → o.side = .buy → o.referencePrice = some price →
    0 < price → rules.roundQty o.requestedQuantity * price * (1 + feeRate) ≤
      PositionService.paperCash s start cfg.bot cfg.symbol

/-- The contract of the trading worker in PAPER mode: it runs alone, its cash is never negative, and
it buys what it can afford. -/
def paperContract (cfg : Config) (feeRate start : ℚ) : Contract Ledger Label Ans where
  rely _ s s' := s' = s
  ans := PaperAnswers cfg feeRate start
  step _ _ _ s' := 0 ≤ PositionService.paperCash s' start cfg.bot cfg.symbol
  guard _ := Affordable cfg feeRate start

theorem affordable_of_ne {cfg : Config} {feeRate start : ℚ} {q : Request} {s : Ledger}
    (hq : q.isSubmit = false) : Affordable cfg feeRate start q s := by
  rintro o rules price rfl
  cases hq

/-- The account is as between submissions, with the book of the history. -/
def AtRest (cfg : Config) (feeRate start : ℚ) (h : History Label Ans) (s : Ledger) : Prop :=
  PaperBooks cfg start (PaperExecutor.book feeRate h) s

/-- The account is the one that is given. -/
def Held (cfg : Config) (feeRate start : ℚ) (s₀ : Ledger) (h : History Label Ans) (s : Ledger) :
    Prop := AtRest cfg feeRate start h s ∧ s = s₀

/-- What the program does, from its start to its end, leaves the account at rest. -/
abbrev Rests (cfg : Config) (feeRate start : ℚ) (α : Type) (p : Prog Ledger Label Ans α) : Prop :=
  ∀ h s, AtRest cfg feeRate start h s →
    p.wp (paperContract cfg feeRate start) (fun _ h s => AtRest cfg feeRate start h s) h s

theorem rests_sequenced (cfg : Config) (feeRate start : ℚ) : Sequenced (Rests cfg feeRate start) :=
  Sequenced.keeps _ _

/-- The transaction concerns neither orders and fills nor positions and the day. -/
def Tx.Beside {α : Type} (t : Tx α) : Prop := ∀ s a s', t s = .ok (a, s') →
  s'.orders = s.orders ∧ s'.fills = s.fills ∧ s'.positions = s.positions ∧ s'.riskDay = s.riskDay

theorem Store.enqueue_beside {kind : OutboxKind} {key : OutboxKey} {message : OutboxMessage}
    {now : Time} : Tx.Beside (Store.enqueue kind key message now) := by
  intro s _ s' h
  obtain ⟨outbox, hok⟩ := Store.enqueue_eq_ok kind key message now s
  rw [hok] at h
  cases h
  exact ⟨rfl, rfl, rfl, rfl⟩

theorem Store.saveReconState_beside {st : ReconciliationState} {now : Time} :
    Tx.Beside (Store.saveReconState st now) := by
  intro s _ s' h
  cases h
  exact ⟨rfl, rfl, rfl, rfl⟩

theorem PaperExecutor.book_call {feeRate : ℚ} {h : History Label Ans} {r : Req} {a : Ans (.call r)}
    (hr : (Request.call r).isSubmit = false) :
    book feeRate (.call (.call r) a :: h) = book feeRate h := by
  cases r <;> first | rfl | cases hr

/-- The book takes a record whenever it was made. -/
theorem PaperExecutor.book_submit {feeRate : ℚ} {h : History Label Ans} {order : Order}
    {rules : SymbolRules} {nowMs : Int} :
    book feeRate (.call (.call (.submit order rules))
        (.ok (submit feeRate order rules nowMs (book feeRate h)).1) :: h) =
      (submit feeRate order rules nowMs (book feeRate h)).2 := by
  rw [book]
  unfold submit
  cases book feeRate h order.clientOrderId with
  | some r => rfl
  | none =>
    by_cases htype : order.orderType = .market
    · simp only [htype, ne_eq, not_true, if_false]
      cases order.referencePrice.filter (0 < ·) <;> rfl
    · simp only [htype, ne_eq, not_false_eq_true, if_true]

section
variable {cfg : Config} {feeRate start : ℚ} {h : History Label Ans} {s : Ledger}

/-- Nothing but a submission moves the book. -/
theorem AtRest.asked {r : Req} {a : Ans (.call r)} (hr : (Request.call r).isSubmit = false)
    (hb : AtRest cfg feeRate start h s) : AtRest cfg feeRate start (.call (.call r) a :: h) s := by
  rw [AtRest, PaperExecutor.book_call hr]
  exact hb

end

namespace PaperAccount

variable {cfg : Config} {feeRate start : ℚ} {h : History Label Ans} {s s' : Ledger} {α : Type}
  {Φ : Except Exn α → History Label Ans → Ledger → Prop}

/-! ### Rules -/

theorem wp_read {l : Label} {f : Ledger → α} (hb : AtRest cfg feeRate start h s)
    (hΦ : Φ (.ok (f s)) (.step l :: h) s) :
    Proc.wp (paperContract cfg feeRate start) (query l f) Φ h s := by
  rintro s' rfl
  exact ⟨hb.cash, hΦ⟩

theorem wp_write {l : Label} {t : Tx α} {a : α} (htx : t s = .ok (a, s'))
    (hcash : 0 ≤ PositionService.paperCash s' start cfg.bot cfg.symbol)
    (hΦ : Φ (.ok a) (.step l :: h) s') :
    Proc.wp (paperContract cfg feeRate start) (transaction l t) Φ h s := by
  refine wp_transaction_ok ?_
  rintro s₁ rfl
  exact ⟨a, s', htx, hcash, hΦ⟩

theorem wp_time {Φ : Except Exn Time → History Label Ans → Ledger → Prop}
    (hΦ : ∀ now, Φ (.ok now) (.call (.ambient .now) now :: h) s) :
    Proc.wp (paperContract cfg feeRate start) clockNow Φ h s := by
  rintro s' rfl
  exact ⟨affordable_of_ne rfl, fun now _ => hΦ now⟩

theorem wp_answered {r : Req} {Φ : Except Exn r.Val → History Label Ans → Ledger → Prop}
    (hr : Affordable cfg feeRate start (.call r) s)
    (hΦ : ∀ a, PaperAnswers cfg feeRate start h (.call r) s a → Φ a (.call (.call r) a :: h) s) :
    Proc.wp (paperContract cfg feeRate start) (call r) Φ h s := by
  rintro s' rfl
  exact ⟨hr, hΦ⟩

/-- A transaction beside the account. -/
theorem rests_beside {l : Label} {t : Tx α} (ht : t.Beside) :
    Rests cfg feeRate start _ (transaction l t).run := by
  intro h s hb
  refine wp_transaction (C := paperContract cfg feeRate start) (Φ := fun _ => _) ?_
  rintro s₁ rfl
  refine ⟨fun a s₂ htx => ?_, fun e _ => ⟨hb.cash, hb⟩⟩
  obtain ⟨horders, hfills, hpositions, hday⟩ := ht _ _ _ htx
  have hb' : PaperBooks cfg start (PaperExecutor.book feeRate h) s₂ :=
    PaperBooks.congr hb horders hfills (by rw [Ledger.getPosition_congr hpositions]) hday
  exact ⟨hb'.cash, hb'⟩

theorem rests_read {l : Label} {f : Ledger → α} : Rests cfg feeRate start _ (query l f).run :=
  fun _ _ hb => wp_read (Φ := fun _ => AtRest cfg feeRate start) hb hb

theorem rests_ambient {a : Ambient} {get : a.Val → Except Exn α} :
    Rests cfg feeRate start _ (Proc.ask (.ambient a) get : Engine α).run := by
  rintro h s hb s' rfl
  exact ⟨affordable_of_ne rfl, fun _ _ => hb⟩

theorem rests_call {r : Req} (hr : (Request.call r).isSubmit = false) :
    Rests cfg feeRate start _ (call r).run :=
  fun _ _ hb => wp_answered (Φ := fun _ => AtRest cfg feeRate start) (affordable_of_ne hr)
    fun _ _ => AtRest.asked hr hb

theorem held_read {l : Label} {f : Ledger → α} {s₀ : Ledger} :
    (query l f).Keeps (paperContract cfg feeRate start) (Held cfg feeRate start s₀) :=
  fun _ _ hb => wp_read hb.1 hb

/-! ## Submissions -/

/-- What follows the answer to the submission of an order in transit. -/
theorem wp_settle {o : Order} {rules : SymbolRules} {m : Int} {out : SubmitOutcome}
    (hu : InTransit cfg start (PaperExecutor.book feeRate h) s o) (hbuys : ¬ NeverBuys cfg start)
    (hrules : rules = PaperExecutor.symbolRules cfg.symbol) (hq : 0 ≤ o.requestedQuantity)
    (hpays : ∀ price, o.referencePrice = some price → 0 < price →
      0 ≤ PositionService.paperCash s start cfg.bot cfg.symbol + if o.side = .sell
        then rules.roundQty o.requestedQuantity * price * (1 - feeRate)
        else -(rules.roundQty o.requestedQuantity * price * (1 + feeRate)))
    (hout : out = (PaperExecutor.submit feeRate o rules m (PaperExecutor.book feeRate h)).1) :
    Proc.wp (paperContract cfg feeRate start) (settle cfg o out)
      (fun _ => AtRest cfg feeRate start) (.call (.call (.submit o rules)) (.ok out) :: h) s := by
  have hbook := @PaperExecutor.book_submit feeRate h o rules m
  rw [← hout] at hbook
  rcases @PaperExecutor.submit_cases feeRate o rules m (PaperExecutor.book feeRate h) with
    ⟨hkind, -, hsame⟩ | ⟨price, hprice, hpos, -, -, hsubmit⟩
  · rw [hsame] at hbook
    rw [← hout] at hkind
    unfold settle
    rw [hkind]
    refine (Proc.wp_bind _ _ _ _ _).2 (wp_time fun now => ?_)
    obtain ⟨s₁, htx, hb⟩ := @InTransit.reject _ _ _ _ _ (refusalReason out) now hu hbuys
    refine wp_write htx hb.cash ?_
    show PaperBooks cfg start
      (PaperExecutor.book feeRate (.call (.call (.submit o rules)) _ :: h)) s₁
    rw [hbook]
    exact hb
  · have hround : 0 ≤ rules.roundQty o.requestedQuantity := hrules ▸ (lots_roundQty hq).nonneg
    rw [hsubmit] at hout hbook
    subst hout
    refine (Proc.wp_bind _ _ _ _ _).2 ?_
    show Proc.wp _ (pure _) _ _ _
    refine (Proc.wp_pure _ _ _ _).2 ((Proc.wp_bind _ _ _ _ _).2 ((Proc.wp_bind _ _ _ _ _).2
      (wp_time fun now => (Proc.wp_bind _ _ _ _ _).2 ?_)))
    obtain ⟨o₁, s₁, htx, hr, hstatus, hexecuted, hx⟩ :=
      @InTransit.acknowledge _ feeRate _ _ _ _ rules price m now hu hround
    refine wp_write htx ((hu.replaced hr).2.2.2.2.2 ▸ hu.cash) ?_
    refine (Proc.wp_pure _ _ _ _).2 ((Proc.wp_bind _ _ _ _ _).2 ((Proc.wp_bind _ _ _ _ _).2
      ((Proc.wp_bind _ _ _ _ _).2 (wp_time fun now' => ?_))))
    obtain ⟨b, s₂, hingest⟩ := @ingestFillTx_total cfg
      (PaperExecutor.fill (PaperExecutor.record feeRate o rules price m)) now' s₁
    obtain ⟨f, hf⟩ := hu.ingest hr hingest
    have hb := hu.filled hbuys hrules hq hr hstatus hexecuted hx hf (hpays price hprice hpos)
    refine wp_write hingest hb.cash ?_
    refine (Proc.wp_pure _ _ _ _).2 ?_
    show PaperBooks cfg start
      (PaperExecutor.book feeRate (.call (.call (.submit o rules)) _ :: h)) s₂
    rw [hbook]
    exact hb

/-- An intent whose execution the account can pay for is submitted. -/
theorem wp_submitIntent {intent : OrderIntent} {rules : SymbolRules}
    (hb : AtRest cfg feeRate start h s) (hbuys : ¬ NeverBuys cfg start)
    (hrules : rules = PaperExecutor.symbolRules cfg.symbol) (hsymbol : intent.symbol = cfg.symbol)
    (hq : 0 ≤ intent.quantity)
    (hpays : ∀ price, intent.referencePrice = some price → 0 < price →
      0 ≤ PositionService.paperCash s start cfg.bot cfg.symbol + if intent.side = .sell
        then rules.roundQty intent.quantity * price * (1 - feeRate)
        else -(rules.roundQty intent.quantity * price * (1 + feeRate))) :
    Proc.wp (paperContract cfg feeRate start) (submitIntent cfg intent rules)
      (fun _ => AtRest cfg feeRate start) h s := by
  refine (Proc.wp_bind _ _ _ _ _).2 (wp_read hb ?_)
  dsimp only
  cases s.getOrderByIntent intent.clientIntentId with
  | some existing => exact hb
  | none =>
    refine (Proc.wp_bind _ _ _ _ _).2 (wp_time fun now => ?_)
    dsimp only
    cases ho : (newOrder cfg intent rules).markSubmitting now with
    | error m => cases ho
    | ok o₀ =>
      refine (Proc.wp_bind _ _ _ _ _).2 (wp_transaction ?_)
      rintro s' rfl
      refine ⟨fun r s₁ htx => ?_, fun e _ => ⟨hb.cash, hb⟩⟩
      rcases persistTx_cases ho htx with ⟨rfl, rfl, -⟩ | ⟨o, rfl, hp⟩
      · exact ⟨hb.cash, hb⟩
      · have hu : InTransit cfg start (PaperExecutor.book feeRate h) s₁ o :=
          PaperBooks.placed hb hsymbol hp
        obtain ⟨-, -, -, hside, hprice, -⟩ := hp.fields
        have hquantity : o.requestedQuantity = rules.roundQty intent.quantity := by
          rw [persistTx_quantity htx]
          cases ho
          rfl
        have hlots : 0 ≤ o.requestedQuantity := by
          rw [hquantity, hrules]
          exact (lots_roundQty hq).nonneg
        have hcash : PositionService.paperCash s₁ start cfg.bot cfg.symbol =
            PositionService.paperCash s' start cfg.bot cfg.symbol := by
          have hfills : s₁.fills = s'.fills := (congrArg Ledger.fills hp.rest :)
          rw [paperCash_sum hb.own hb.fills, paperCash_sum hu.own fun f hf => (hu.fills f hf).1,
            hfills]
        refine ⟨hu.cash, (Proc.wp_bind _ _ _ _ _).2 ((Proc.wp_attempt _ _ _ _).2
          (wp_answered ?_ fun a ha => ?_))⟩
        · rintro x xrules price hx hbuy hp' hpos
          cases hx
          have h := hpays price (hprice.symm.trans hp') hpos
          rw [if_neg (by rw [← hside, hbuy]; decide)] at h
          rw [hcash, hquantity, SymbolRules.roundQty_roundQty]
          linarith
        obtain ⟨nowMs, rfl⟩ := ha
        refine (Proc.wp_bind _ _ _ _ _).2 (Proc.wp_mono (wp_settle (m := nowMs)
          (h := _ :: _ :: _) hu hbuys hrules hlots (fun price hp' hpos => ?_) rfl) ?_)
        · rw [hcash, hside, hquantity, SymbolRules.roundQty_roundQty]
          exact hpays price (hprice.symm.trans hp') hpos
        · rintro (e | _) h₁ s₂ hb₂
          · exact hb₂
          · exact wp_read hb₂ hb₂

theorem held_nextIntentId {base : IntentBase} {attempt n : Nat} {s₀ : Ledger} :
    (TradingCycle.nextIntentId base attempt n).Keeps (paperContract cfg feeRate start)
      (Held cfg feeRate start s₀) := by
  induction n generalizing attempt with
  | zero => exact Proc.keeps_pure _
  | succ n ih =>
    refine held_read.bind fun x => ?_
    cases x with
    | none => exact Proc.keeps_pure _
    | some existing => exact .ite ih (Proc.keeps_pure _)

/-- `_submit` for an order the account can pay for. -/
theorem wp_submit {purpose : OrderPurpose} {side : OrderSide} {qty refPrice : ℚ}
    {rules : SymbolRules} {base : IntentBase} {signalId : Option SignalId}
    (hb : AtRest cfg feeRate start h s) (hbuys : ¬ NeverBuys cfg start)
    (hrules : rules = PaperExecutor.symbolRules cfg.symbol) (hq : 0 ≤ qty)
    (hpays : 0 < refPrice → 0 ≤ PositionService.paperCash s start cfg.bot cfg.symbol +
      if side = .sell then rules.roundQty qty * refPrice * (1 - feeRate)
      else -(rules.roundQty qty * refPrice * (1 + feeRate))) :
    Proc.wp (paperContract cfg feeRate start)
      (TradingCycle.submit cfg purpose side qty rules refPrice base signalId)
      (fun _ => AtRest cfg feeRate start) h s := by
  refine (Proc.wp_bind _ _ _ _ _).2 (Proc.wp_mono (held_nextIntentId h s ⟨hb, rfl⟩) ?_)
  rintro (e | _ | iid) h₁ s₁ ⟨hb₁, rfl⟩
  · exact hb₁
  · have hP := rests_sequenced cfg feeRate start
    refine hP.seq rests_ambient (fun now => ?_) h₁ s₁ hb₁
    exact hP.seq (rests_beside Store.enqueue_beside) fun _ =>
      hP.seq (rests_beside Store.enqueue_beside) fun _ => hP.pure _
  · refine wp_submitIntent hb₁ hbuys hrules rfl hq fun price hprice hpos => ?_
    cases hprice
    exact hpays hpos

/-! ## The inline reconciliation -/

section
open ReconciliationService

variable {t : Findings}

/-- A filled order is what the exchange reports, and has its executions. -/
theorem held_verifyTerminal {o : Order} {s₀ : Ledger} (ho : o ∈ s₀.orders.rows)
    (hx : truthy o.exchangeOrderId) :
    (verifyTerminal cfg o).Keeps (paperContract cfg feeRate start)
      (Held cfg feeRate start s₀) := by
  rintro t h s ⟨hb, rfl⟩
  refine (LProc.wp_bind _ _ _ _ _ _).2 ((LProc.wp_exec _ _ _ _ _).2
    (wp_answered (affordable_of_ne rfl) fun a ha => ?_))
  rcases hb.squared o ho with ⟨-, -, hnone⟩ | ⟨r, hr, hstatus, hrstatus, hexecuted, -, -⟩
  · rw [hnone] at hx
    cases hx
  · obtain rfl : a = .ok (some (PaperExecutor.report r)) := by
      refine ha.trans ?_
      rw [PaperExecutor.queryOrder, hr]
      rfl
    have hsame : ¬ ((PaperExecutor.report r).status ≠ o.status ∨
        (PaperExecutor.report r).executedQty ≠ o.executedQuantity) := by
      rintro (h | h)
      · exact h (hrstatus.trans hstatus.symm)
      · exact h hexecuted
    dsimp only
    rw [if_neg hsame]
    exact ⟨AtRest.asked rfl hb, rfl⟩

theorem held_checkFillsComplete {o : Order} {tolerance : ℚ} {s₀ : Ledger} (ht : 0 ≤ tolerance)
    (ho : o ∈ s₀.orders.rows) :
    (checkFillsComplete cfg tolerance o).Keeps (paperContract cfg feeRate start)
      (Held cfg feeRate start s₀) := by
  rintro t h s ⟨hb, rfl⟩
  unfold checkFillsComplete
  split
  · exact ⟨hb, rfl⟩
  · next hsome =>
    refine (LProc.wp_bind _ _ _ _ _ _).2 ((LProc.wp_exec _ _ _ _ _).2 (wp_read hb ?_))
    rcases hb.squared o ho with ⟨-, hzero, -⟩ | ⟨r, -, -, -, -, -, hquantity⟩
    · exact absurd (.inl hzero.le) hsome
    · have hcomplete : ¬ tolerance < |s.fillQuantity o - o.executedQuantity| := by
        rw [hquantity, sub_self, abs_zero]
        exact not_lt.2 ht
      dsimp only
      rw [if_neg hcomplete]
      exact ⟨hb, rfl⟩

/-- A loop over rows that leaves the account as it is. -/
theorem held_forM {f : Order → RunM PUnit} {os : List Order} {r : Ledger}
    (hf : ∀ o ∈ os, (f o).Keeps (paperContract cfg feeRate start) (Held cfg feeRate start r)) :
    (os.forM f).Keeps (paperContract cfg feeRate start) (Held cfg feeRate start r) := by
  induction os with
  | nil => exact LProc.keeps_pure _
  | cons o os ih =>
    obtain ⟨ho, hos⟩ := List.forall_mem_cons.1 hf
    exact ho.bind fun _ => ih hos

theorem rests_rebuild : Rests cfg feeRate start _ (rebuild cfg).run := by
  intro h s hb
  refine (Proc.wp_bind _ _ (fun _ => AtRest cfg feeRate start) _ _).2 (wp_read hb
    ((Proc.wp_bind _ _ _ _ _).2 (wp_read hb ((Proc.wp_bind _ _ _ _ _).2 (wp_time fun now =>
      (Proc.wp_bind _ _ _ _ _).2 ?_)))))
  obtain ⟨hlots, hidle⟩ := PaperBooks.rebuilt hb (s.getPosition cfg.bot cfg.symbol)
  obtain ⟨hbot, hsymbol⟩ := PositionService.rebuilt_key (s.getPosition cfg.bot cfg.symbol) cfg.bot
    cfg.symbol (s.fillsOf cfg.bot cfg.symbol)
  have hb' := PaperBooks.saved hb (rfl : Store.savePosition _ now _ = .ok _) hbot hsymbol hlots
    hidle
  exact wp_write rfl hb'.cash hb'

/-- The run compares and reports without the account. -/
theorem rests_checkPosition {runKey : RunKey} {rules : SymbolRules} {tolerance : ℚ} :
    Sequenced.Local (Rests cfg feeRate start) (checkPosition cfg runKey rules tolerance) := by
  have hP := rests_sequenced cfg feeRate start
  have hreport {kind severity c detail resolved} : Sequenced.Local (Rests cfg feeRate start)
    (report kind severity c detail resolved) := hP.local_assign _
  have hcompare {before rebuilt anomalies baseTotal} : Sequenced.Local (Rests cfg feeRate start)
      (comparePosition tolerance before rebuilt anomalies baseTotal) := by
    have hlast := hP.local_ite (c := tolerance < rebuilt.quantity - baseTotal)
      (@hreport .balanceBelowPosition .critical none (.quantities rebuilt.quantity baseTotal) false)
      (hP.local_pure ⟨⟩)
    have hrest := hP.local_seq (hP.local_forM
      (fun a => @hreport .positionAnomaly .critical none (.anomaly a) false) anomalies)
      fun _ => hlast
    exact hP.local_ite (hP.local_seq hreport fun _ => hrest) hrest
  have hstop {rebuilt} : Sequenced.Local (Rests cfg feeRate start)
      (checkProtectiveStop cfg rules rebuilt) :=
    hP.local_ite (hP.local_seq (hP.local_exec rests_read) fun _ =>
      hP.local_ite hreport (hP.local_pure _)) (hP.local_pure _)
  have hbalances {balances} : Tx.Beside (Store.setBalances cfg.bot balances) := fun s _ s' h => by
    cases h
    exact ⟨rfl, rfl, rfl, rfl⟩
  exact hP.local_seq (hP.local_exec (rests_call rfl)) fun _ =>
    hP.local_seq (hP.local_exec rests_read) fun _ =>
    hP.local_seq (hP.local_exec rests_rebuild) fun _ =>
    hP.local_seq hcompare fun _ => hP.local_seq (hP.local_exec (rests_beside hbalances)) fun _ =>
    hP.local_seq (hP.local_exec rests_ambient) fun _ =>
    hP.local_seq (hP.local_exec (rests_beside Store.enqueue_beside)) fun _ => hstop

/-- The try block finds no open order, nothing new and nothing that differs. -/
theorem rests_body {runKey : RunKey} {last : Option Time} :
    Sequenced.Local (Rests cfg feeRate start) (body cfg runKey last) := by
  intro t h s hb
  refine (LProc.wp_bind _ _ (fun _ _ => AtRest cfg feeRate start) _ _ _).2
    ((LProc.wp_exec _ _ _ _ _).2 (wp_answered (affordable_of_ne rfl) fun rules hrules => ?_))
  obtain rfl : rules = _ := hrules
  refine (LProc.wp_bind _ _ _ _ _ _).2 ((LProc.wp_exec _ _ _ _ _).2 (wp_read hb ?_))
  rw [PaperBooks.nonTerminal hb]
  refine (LProc.wp_bind _ _ _ _ _ _).2 ((LProc.wp_exec _ _ _ _ _).2
    (wp_answered (affordable_of_ne rfl) fun listed hlisted => ?_))
  obtain rfl : listed = _ := hlisted
  refine (LProc.wp_bind _ _ _ _ _ _).2 ((LProc.wp_pure (⟨⟩ : PUnit) _ _ _ _).2 ?_)
  refine (LProc.wp_bind _ _ _ _ _ _).2 ((LProc.wp_exec _ _ _ _ _).2 (wp_time fun now => ?_))
  refine (LProc.wp_bind _ _ _ _ _ _).2 ((LProc.wp_exec _ _ _ _ _).2 (wp_read hb ?_))
  refine (LProc.wp_bind _ _ _ _ _ _).2 (LProc.wp_mono (held_forM (r := s) (fun o ho => ?_) _ _ _
    ⟨hb, rfl⟩) ?_)
  · obtain ⟨hmem, hrecent⟩ := List.mem_filter.1 (List.mem_of_mem_take ho)
    refine held_verifyTerminal (Ledger.mem_of_newestOrders hmem) ?_
    simp only [isRecentTerminal, Bool.and_eq_true] at hrecent
    exact hrecent.1.1.2
  rintro (e | _) t₁ h₁ s₁ ⟨hb₁, rfl⟩
  · exact hb₁
  refine (LProc.wp_bind _ _ _ _ _ _).2 ((LProc.wp_pure (⟨⟩ : PUnit) _ _ _ _).2 ?_)
  refine (LProc.wp_bind _ _ _ _ _ _).2 ((LProc.wp_exec _ _ _ _ _).2
    (wp_answered (affordable_of_ne rfl) fun fills hfills => ?_))
  obtain rfl : fills = _ := hfills
  refine (LProc.wp_bind _ _ _ _ _ _).2 ((LProc.wp_pure (⟨⟩ : PUnit) _ _ _ _).2 ?_)
  refine (LProc.wp_bind _ _ _ _ _ _).2 ((LProc.wp_exec _ _ _ _ _).2 (wp_read hb₁ ?_))
  refine (LProc.wp_bind _ _ _ _ _ _).2 (LProc.wp_mono (held_forM (r := s₁) (fun o ho => ?_) _ _ _
    ⟨hb₁, rfl⟩) ?_)
  · exact held_checkFillsComplete (le_max_of_le_right (by norm_num)) (Ledger.mem_of_newestOrders ho)
  rintro (e | _) t₂ h₂ s₂ ⟨hb₂, rfl⟩
  · exact hb₂
  · exact rests_checkPosition t₂ h₂ s₂ hb₂

theorem rests_setState {l : Label} {status : ReconciliationStatus} {reason : String}
    {success : Bool} {ws : Option Bool} :
    Rests cfg feeRate start _ (setState cfg l status reason success ws).run :=
  have hP := rests_sequenced cfg feeRate start
  hP.seq rests_read fun _ => hP.seq rests_ambient fun _ =>
    hP.seq (rests_beside Store.saveReconState_beside) fun _ => hP.pure _

theorem rests_run {reason : String} {ack : Bool} :
    Rests cfg feeRate start _ (ReconciliationService.run cfg reason ack).run := by
  have hP := rests_sequenced cfg feeRate start
  have hpersist {result reason started} :
      Rests cfg feeRate start _ (persist cfg result reason started).run :=
    hP.seq (rests_beside fun s _ s' h => by cases h; exact ⟨rfl, rfl, rfl, rfl⟩) fun _ =>
      hP.seq rests_ambient fun _ => rests_beside Store.enqueue_beside
  refine hP.seq rests_ambient fun started => hP.seq rests_read fun previous =>
    hP.seq rests_ambient fun nonce => hP.seq rests_setState fun _ =>
    hP.seq (hP.outcome rests_body _) fun x => ?_
  obtain ⟨e | _, f⟩ := x
  · exact hP.seq hpersist fun _ => hP.seq rests_setState fun _ => hP.pure _
  · refine hP.seq hpersist fun _ => hP.seq rests_setState fun _ => hP.ite ?_ (hP.pure _)
    exact hP.seq rests_ambient fun _ => hP.seq (rests_beside Store.enqueue_beside) fun _ =>
      hP.seq (rests_beside Store.enqueue_beside) fun _ => hP.pure _

end

/-! ## Sizing -/

theorem roundQty_nonpos {symbol : Symbol} {q : ℚ} (hq : q ≤ 0) :
    (PaperExecutor.symbolRules symbol).roundQty q ≤ 0 :=
  floorToStep_nonpos hq (by norm_num [PaperExecutor.symbolRules])

/-- What an entry may cost, before its fee: the share of the equity that the risk settings name. -/
theorem sizeEntry_bound {symbol : Symbol} {equity price q : ℚ}
    (h : RiskManager.sizeEntry cfg equity price (PaperExecutor.symbolRules symbol) (some equity) =
      some q) :
    0 < equity ∧ 0 < price ∧ 0 < cfg.riskPerTradePct ∧ 0 < cfg.stopLossPct ∧ 0 < q ∧
      q * price ≤ equity * min (cfg.riskPerTradePct / cfg.stopLossPct) 1 := by
  obtain ⟨htrade, hq⟩ := Option.ite_none_right_eq_some.1 h
  dsimp only at htrade hq
  obtain rfl := Option.some.inj hq
  have hpos : ¬ (PaperExecutor.symbolRules symbol).roundQty
      (if 0 < price then min (RiskV1.positionSize equity price cfg.riskPerTradePct cfg.stopLossPct)
        (equity / price) else
        RiskV1.positionSize equity price cfg.riskPerTradePct cfg.stopLossPct) ≤ 0 := by
    intro hle
    rw [SymbolRules.isTradeable, if_pos (.inl hle)] at htrade
    cases htrade
  have hsized : ¬ (equity ≤ 0 ∨ price ≤ 0 ∨ cfg.riskPerTradePct ≤ 0 ∨ cfg.stopLossPct ≤ 0) := by
    intro hz
    refine hpos (roundQty_nonpos ?_)
    rw [RiskV1.positionSize, if_pos hz]
    split
    · exact min_le_left _ _
    · exact le_rfl
  simp only [not_or, not_le] at hsized
  obtain ⟨hequity, hprice, hrisk, hstop⟩ := hsized
  refine ⟨hequity, hprice, hrisk, hstop, not_le.1 hpos, ?_⟩
  rw [if_pos hprice] at hpos ⊢
  set size := min (RiskV1.positionSize equity price cfg.riskPerTradePct cfg.stopLossPct)
    (equity / price) with hsize
  have hvalue : RiskV1.positionSize equity price cfg.riskPerTradePct cfg.stopLossPct =
      equity * min (cfg.riskPerTradePct / cfg.stopLossPct) 1 / price := by
    have hshare : min (equity * (cfg.riskPerTradePct / 100) / (cfg.stopLossPct / 100)) equity =
        equity * min (cfg.riskPerTradePct / cfg.stopLossPct) 1 := by
      rw [mul_min_of_nonneg _ _ hequity.le, mul_one]
      congr 1
      field_simp
    have hmin : 0 < min (cfg.riskPerTradePct / cfg.stopLossPct) 1 :=
      lt_min (div_pos hrisk hstop) one_pos
    rw [RiskV1.positionSize,
      if_neg (by simp only [not_or, not_le]; exact ⟨hequity, hprice, hrisk, hstop⟩)]
    dsimp only
    rw [hshare, max_eq_right (by positivity)]
  have hnonneg : 0 ≤ size := by
    by_contra hneg
    exact hpos (roundQty_nonpos (not_le.1 hneg).le)
  have hle : (PaperExecutor.symbolRules symbol).roundQty size ≤
      equity * min (cfg.riskPerTradePct / cfg.stopLossPct) 1 / price :=
    (roundQty_le hnonneg).trans ((min_le_left _ _).trans hvalue.le)
  exact (le_div_iff₀ hprice).1 hle

/-! ## The cycle -/

section
open TradingCycle

/-- The mark and the stop leave the holding alone. -/
theorem rests_rewrite {l : Label} {f : Position → Position} {now : Time}
    (hbot : ∀ p, (f p).bot = p.bot) (hsymbol : ∀ p, (f p).symbol = p.symbol)
    (hquantity : ∀ p, (f p).quantity = p.quantity) :
    Rests cfg feeRate start _ (transaction l (do
      let s ← get
      Store.savePosition (f (s.getPosition cfg.bot cfg.symbol)) now)).run := by
  intro h s hb
  obtain ⟨hpbot, hpsymbol⟩ := Ledger.getPosition_key s cfg.bot cfg.symbol
  have hb' := PaperBooks.rewritten hb (rfl : Store.savePosition _ now _ = .ok _)
    ((hbot _).trans hpbot) ((hsymbol _).trans hpsymbol) (hquantity _)
  exact wp_write (Φ := fun _ => AtRest cfg feeRate start) rfl hb'.cash hb'

theorem rests_setStop {price : ℚ} {now : Time} :
    Rests cfg feeRate start _
      (transaction .commit (PositionService.setStop cfg.bot cfg.symbol price now)).run :=
  rests_rewrite (f := fun p => { p with stopPrice := some price }) (fun _ => rfl) (fun _ => rfl)
    fun _ => rfl

theorem rests_gate {control : Control} :
    Rests cfg feeRate start _ (reconciliationGate cfg control).run := by
  have hP := rests_sequenced cfg feeRate start
  refine hP.seq rests_read fun _ => hP.ite (hP.seq rests_run fun _ => ?_) (hP.pure _)
  exact hP.ite (hP.seq rests_read fun _ => hP.seq rests_ambient fun _ =>
    hP.seq (rests_beside Store.saveReconState_beside) fun _ => rests_read) rests_read

/-- A sale pays its own fee. -/
theorem rests_sellPosition {purpose : OrderPurpose} {refPrice : ℚ}
    (hbuys : ¬ NeverBuys cfg start) (hfee : feeRate ≤ 1) :
    Rests cfg feeRate start _ (sellPosition cfg purpose
      (PaperExecutor.symbolRules cfg.symbol) refPrice).run := by
  intro h s hb
  refine (Proc.wp_bind _ _ (fun _ => AtRest cfg feeRate start) _ _).2 (wp_read hb ?_)
  dsimp only
  split
  · exact hb
  · next htrade =>
    have hq : 0 ≤ (PaperExecutor.symbolRules cfg.symbol).roundQty
        (s.getPosition cfg.bot cfg.symbol).quantity := (lots_roundQty hb.position.nonneg).nonneg
    have hpays {refPrice : ℚ} (hpos : 0 < refPrice) :
        0 ≤ PositionService.paperCash s start cfg.bot cfg.symbol +
          if OrderSide.sell = .sell then (PaperExecutor.symbolRules cfg.symbol).roundQty
            ((PaperExecutor.symbolRules cfg.symbol).roundQty
              (s.getPosition cfg.bot cfg.symbol).quantity) * refPrice * (1 - feeRate)
          else -((PaperExecutor.symbolRules cfg.symbol).roundQty
            ((PaperExecutor.symbolRules cfg.symbol).roundQty
              (s.getPosition cfg.bot cfg.symbol).quantity) * refPrice * (1 + feeRate)) := by
      rw [if_pos rfl, SymbolRules.roundQty_roundQty]
      have hproceeds := mul_nonneg (mul_nonneg hq hpos.le) (sub_nonneg.2 hfee)
      have hcash := hb.cash
      linarith
    refine (Proc.wp_bind _ _ _ _ _).2 (Proc.wp_mono
      (wp_submit hb hbuys rfl hq hpays) ?_)
    rintro (e | _ | o) h₁ s₁ hb₁
    · exact hb₁
    · exact hb₁
    · refine (Proc.wp_bind _ _ _ _ _).2 (wp_read hb₁ ?_)
      dsimp only
      split <;> exact hb₁

/-- No stop rests on the simulated exchange. -/
theorem rests_exit {purpose : OrderPurpose} {refPrice : ℚ} (hbuys : ¬ NeverBuys cfg start)
    (hfee : feeRate ≤ 1) :
    Rests cfg feeRate start _
      (exit cfg purpose (PaperExecutor.symbolRules cfg.symbol) refPrice).run := by
  intro h s hb
  refine (Proc.wp_bind _ _ (fun _ => AtRest cfg feeRate start) _ _).2 (wp_read hb ?_)
  rw [PaperBooks.nonTerminal hb]
  refine (Proc.wp_bind _ _ _ _ _).2 ((Proc.wp_pure true _ _ _).2 ?_)
  exact rests_sellPosition hbuys hfee _ s hb

theorem rests_manageOpen {control : Control} {snap : MarketSnapshot} {signal : Signal}
    {p : Position} (hbuys : ¬ NeverBuys cfg start) (hfee : feeRate ≤ 1) :
    Rests cfg feeRate start _ (manageOpen cfg control (PaperExecutor.symbolRules cfg.symbol) snap
      signal p).run := by
  have hP := rests_sequenced cfg feeRate start
  have hstop : cfg.protectiveStopOnExchange = false :=
    Bool.eq_false_iff.2 fun h => hbuys (.inr (.inr (.inr (.inr (.inr (.inr (.inl h)))))))
  unfold manageOpen
  rw [hstop]
  dsimp only
  split
  · exact hP.seq (rests_exit hbuys hfee) fun _ => hP.pure _
  · exact hP.ite (hP.seq (rests_exit hbuys hfee) fun _ => hP.pure _) (hP.pure _)

theorem rests_protectEntry {o : Order} (hbuys : ¬ NeverBuys cfg start) :
    Rests cfg feeRate start _
      (protectEntry cfg (PaperExecutor.symbolRules cfg.symbol) o).run := by
  have hP := rests_sequenced cfg feeRate start
  have hstop : cfg.protectiveStopOnExchange = false :=
    Bool.eq_false_iff.2 fun h => hbuys (.inr (.inr (.inr (.inr (.inr (.inr (.inl h)))))))
  unfold protectEntry
  rw [hstop]
  refine hP.ite (hP.seq rests_read fun p => hP.ite ?_ (hP.pure _)) (hP.pure _)
  refine hP.seq rests_ambient fun _ => hP.seq rests_setStop fun _ => ?_
  rw [if_neg (fun h => Bool.false_ne_true h.1)]
  exact hP.pure _

/-- What the executor reports for the quote asset: the cash, or the holding where that is the same
asset. -/
def reportedQuote (cfg : Config) (start : ℚ) (s : Ledger) : ℚ :=
  if cfg.symbol.base = cfg.symbol.quote then (s.getPosition cfg.bot cfg.symbol).quantity
  else PositionService.paperCash s start cfg.bot cfg.symbol

theorem paperBalances_quote :
    let b := PositionService.paperBalances s start cfg.bot cfg.symbol
    b.free cfg.symbol.quote = reportedQuote cfg start s ∧
      b.total cfg.symbol.quote = reportedQuote cfg start s := by
  by_cases hsame : cfg.symbol.base = cfg.symbol.quote
  · simp [BalanceSnapshot.free, BalanceSnapshot.total, PositionService.paperBalances, reportedQuote,
      hsame]
  · simp [BalanceSnapshot.free, BalanceSnapshot.total, PositionService.paperBalances, reportedQuote,
      hsame]

/-- What a cycle has read of the funds still holds, and the day is halted where the settings say
so. -/
structure Funded (cfg : Config) (start : ℚ) (snap : MarketSnapshot) (funds : Funds) (s : Ledger) :
    Prop where
  balances : funds.balances = some (reportedQuote cfg start s, reportedQuote cfg start s +
    (s.getPosition cfg.bot cfg.symbol).quantity * snap.markPrice)
  halted : cfg.dailyLossLimitPct ≤ 0 → 0 < start → cfg.symbol.base ≠ cfg.symbol.quote →
    RiskManager.isDailyHalted cfg s = true

theorem Funded.congr {snap : MarketSnapshot} {funds : Funds} (hf : Funded cfg start snap funds s)
    (horders : s'.orders = s.orders) (hfills : s'.fills = s.fills)
    (hpositions : s'.positions = s.positions) (hday : s'.riskDay = s.riskDay) :
    Funded cfg start snap funds s' := by
  have hposition := Ledger.getPosition_congr hpositions cfg.bot cfg.symbol
  have hcash : PositionService.paperCash s' start cfg.bot cfg.symbol =
      PositionService.paperCash s start cfg.bot cfg.symbol := by
    rw [PositionService.paperCash, PositionService.paperCash, Ledger.fillsOf, Ledger.fillsOf,
      horders, hfills]
  refine ⟨?_, ?_⟩
  · rw [hf.balances, reportedQuote, reportedQuote, hposition, hcash]
  · rw [RiskManager.isDailyHalted, hday]
    exact hf.halted

/-- On an account that never buys the day is halted once it has begun, if the limit says so. -/
theorem nextDay_halted {equity : ℚ} {today : Int} (hlimit : cfg.dailyLossLimitPct ≤ 0)
    (hequity : 0 < equity) {stored : Option RiskDay}
    (hstored : ∀ d, stored = some d → d.halted = true) :
    (RiskManager.nextDay cfg stored equity today).halted = true := by
  have hfresh : RiskV1.checkDailyLossLimit equity equity false cfg.dailyLossLimitPct = true := by
    rw [RiskV1.checkDailyLossLimit, if_neg (not_le.2 hequity), sub_self, zero_div, zero_mul,
      Bool.false_or]
    exact decide_eq_true hlimit
  unfold RiskManager.nextDay
  cases stored with
  | none => exact hfresh
  | some d =>
    dsimp only
    split
    · rw [RiskV1.checkDailyLossLimit, hstored d rfl]
      split <;> simp
    · exact hfresh

theorem wp_readFunds {snap : MarketSnapshot} (hb : AtRest cfg feeRate start h s) :
    Proc.wp (paperContract cfg feeRate start)
      (readFunds cfg (PaperExecutor.symbolRules cfg.symbol) snap)
      (fun r h' s' => ∃ funds, r = .ok funds ∧ AtRest cfg feeRate start h' s' ∧
        Funded cfg start snap funds s') h s := by
  refine (Proc.wp_bind _ _ _ _ _).2 ((Proc.wp_attempt _ _ _ _).2
    (wp_answered (affordable_of_ne rfl) fun bal hbal => ?_))
  obtain rfl : bal = _ := hbal
  have hb₁ : AtRest cfg feeRate start (.call (.call .balances)
    (.ok (PositionService.paperBalances s start cfg.bot cfg.symbol)) :: h) s := hb
  obtain ⟨hfree, htotal⟩ := @paperBalances_quote cfg start s
  refine (Proc.wp_bind _ _ _ _ _).2 (wp_read hb₁ ((Proc.wp_bind _ _ _ _ _).2 (wp_time fun now =>
    (Proc.wp_bind _ _ _ _ _).2 ((Proc.wp_bind _ _ _ _ _).2 (wp_read hb₁
      ((Proc.wp_bind _ _ _ _ _).2 ?_))))))
  have hequity : PositionService.equity s cfg.bot cfg.symbol
      (BalanceSnapshot.total (PositionService.paperBalances s start cfg.bot cfg.symbol)
        (PaperExecutor.symbolRules cfg.symbol).quoteAsset) snap.markPrice =
      reportedQuote cfg start s +
        (s.getPosition cfg.bot cfg.symbol).quantity * snap.markPrice := by
    rw [PositionService.equity]
    exact congrArg (· + _) htotal
  rw [hequity]
  -- on an account that never buys the equity is the starting balance
  have hhalted : cfg.dailyLossLimitPct ≤ 0 → 0 < start → cfg.symbol.base ≠ cfg.symbol.quote →
      (RiskManager.nextDay cfg (s.riskDay cfg.bot) (reportedQuote cfg start s +
        (s.getPosition cfg.bot cfg.symbol).quantity * snap.markPrice)
        (now / seconds 86400)).halted = true := by
    intro hlimit hstart hassets
    obtain ⟨hnone, hzero, hstored⟩ :=
      hb.idle (.inr (.inr (.inr (.inr (.inr (.inl hlimit))))))
    refine nextDay_halted hlimit ?_ (hstored hlimit hstart hassets)
    rw [reportedQuote, if_neg hassets, hzero, zero_mul, add_zero, paperCash_sum hb.own hb.fills,
      hnone]
    simpa using hstart
  have hb₂ := PaperBooks.setDay hb hhalted
  refine wp_write rfl hb₂.cash ⟨_, rfl, hb₂, ?_, fun hlimit hstart hassets => ?_⟩
  · exact congrArg (fun x => some (x, _)) hfree
  · rw [RiskManager.isDailyHalted]
    dsimp only
    rw [Function.update_self]
    exact hhalted hlimit hstart hassets

/-- An entry that is sized within the cash leaves its fee. -/
theorem wp_tryEntry {control : Control} {st : ReconciliationState} {entriesOk : Bool}
    {funds : Funds} {snap : MarketSnapshot} {signal : Signal} {signalId : SignalId}
    (hfee : 0 ≤ feeRate)
    (hsettings : NeverBuys cfg start ∨ FeeCovered cfg feeRate)
    (hstop : cfg.protectiveStopOnExchange = false) (hb : AtRest cfg feeRate start h s)
    (hf : Funded cfg start snap funds s)
    (hflat : (s.getPosition cfg.bot cfg.symbol).quantity = 0) :
    Proc.wp (paperContract cfg feeRate start) (tryEntry cfg control st entriesOk funds
      (PaperExecutor.symbolRules cfg.symbol) snap signal signalId)
      (fun _ => AtRest cfg feeRate start) h s := by
  unfold tryEntry
  split
  · exact hb
  refine (Proc.wp_bind _ _ _ _ _).2 (wp_read hb ((Proc.wp_bind _ _ _ _ _).2 (wp_read hb ?_)))
  dsimp only
  split
  · exact hb
  next hfree =>
  rw [ne_eq, not_not] at hfree
  rw [hf.balances, hflat, zero_mul, add_zero, Option.getD_some]
  dsimp only
  cases hsize : RiskManager.sizeEntry cfg (reportedQuote cfg start s) snap.signalPrice
      (PaperExecutor.symbolRules cfg.symbol) (some (reportedQuote cfg start s)) with
  | none => exact hb
  | some qty =>
    obtain ⟨hequity, hprice, hrisk, hloss, hqty, hcost⟩ := sizeEntry_bound hsize
    have hassets : cfg.symbol.base ≠ cfg.symbol.quote := by
      intro hsame
      rw [reportedQuote, if_pos hsame, hflat] at hequity
      exact lt_irrefl _ hequity
    rw [reportedQuote, if_neg hassets] at hequity hcost
    have hbuys : ¬ NeverBuys cfg start := by
      intro hn
      have hstart : PositionService.paperCash s start cfg.bot cfg.symbol = start := by
        rw [paperCash_sum hb.own hb.fills, (hb.idle hn).1]
        simp
      rcases hn with h | h | h | h | h | h | h | h
      · exact hequity.ne' (hstart.trans h)
      · exact absurd hrisk (not_lt.2 h)
      · exact absurd hloss (not_lt.2 h)
      · simp [entryBlocks, RiskManager.entryChecks, h] at hfree
      · simp [entryBlocks, h] at hfree
      · rw [hf.halted h (hstart ▸ hequity) hassets] at hfree
        simp [entryBlocks, RiskManager.entryChecks] at hfree
      · rw [hstop] at h
        cases h
      · exact hassets h
    obtain ⟨-, hcovered⟩ := hsettings.resolve_left hbuys
    have hpays : 0 < snap.signalPrice → 0 ≤ PositionService.paperCash s start cfg.bot cfg.symbol +
        if OrderSide.buy = .sell
        then (PaperExecutor.symbolRules cfg.symbol).roundQty qty * snap.signalPrice * (1 - feeRate)
        else -((PaperExecutor.symbolRules cfg.symbol).roundQty qty * snap.signalPrice *
          (1 + feeRate)) := by
      intro _
      have hround := mul_le_mul_of_nonneg_right
        (@roundQty_le cfg.symbol qty hqty.le) hprice.le
      have hfeed : (PaperExecutor.symbolRules cfg.symbol).roundQty qty * snap.signalPrice *
          (1 + feeRate) ≤ PositionService.paperCash s start cfg.bot cfg.symbol :=
        calc _ ≤ PositionService.paperCash s start cfg.bot cfg.symbol *
              min (cfg.riskPerTradePct / cfg.stopLossPct) 1 * (1 + feeRate) :=
            mul_le_mul_of_nonneg_right (hround.trans hcost) (by linarith)
          _ = PositionService.paperCash s start cfg.bot cfg.symbol *
              (min (cfg.riskPerTradePct / cfg.stopLossPct) 1 * (1 + feeRate)) := mul_assoc _ _ _
          _ ≤ _ := mul_le_of_le_one_right hequity.le hcovered
      rw [if_neg (by decide)]
      linarith
    refine (Proc.wp_bind _ _ _ _ _).2 (Proc.wp_mono (wp_submit hb hbuys rfl hqty.le hpays) ?_)
    rintro (e | _ | o) h₁ s₁ hb₁
    · exact hb₁
    · exact hb₁
    · have hP := rests_sequenced cfg feeRate start
      exact hP.seq (rests_protectEntry hbuys) (fun _ => hP.pure _) h₁ s₁ hb₁

/-- Nothing is in flight, and an open position is one that was bought. -/
theorem wp_decideOrders {control : Control} {st : ReconciliationState} {entriesOk : Bool}
    {funds : Funds} {snap : MarketSnapshot} {signal : Signal} {signalId : SignalId}
    (hfee : 0 ≤ feeRate) (hsettings : NeverBuys cfg start ∨ FeeCovered cfg feeRate)
    (hstop : cfg.protectiveStopOnExchange = false) (hb : AtRest cfg feeRate start h s)
    (hf : Funded cfg start snap funds s) :
    Proc.wp (paperContract cfg feeRate start) (decideOrders cfg control st entriesOk funds
      (PaperExecutor.symbolRules cfg.symbol) snap signal signalId)
      (fun _ => AtRest cfg feeRate start) h s := by
  have hnone : inFlight cfg s = [] := by
    rw [inFlight, PaperBooks.nonTerminal hb]
    rfl
  refine (Proc.wp_bind _ _ _ _ _).2 (wp_read hb ?_)
  rw [hnone]
  refine (Proc.wp_bind _ _ _ _ _).2 ((Proc.wp_pure (⟨⟩ : PUnit) _ _ _).2 ?_)
  refine (Proc.wp_bind _ _ _ _ _).2 (wp_read hb ?_)
  rw [hnone]
  dsimp only
  rw [if_neg (not_not.2 rfl)]
  refine (Proc.wp_bind _ _ _ _ _).2 (wp_read hb ?_)
  dsimp only
  split
  · next hopen =>
    have hheld : 0 < (s.getPosition cfg.bot cfg.symbol).quantity := (of_decide_eq_true hopen).1
    have hbuys : ¬ NeverBuys cfg start := fun hn => hheld.ne' (hb.idle hn).2.1
    have hsells := (hsettings.resolve_left hbuys).1
    split
    · exact rests_manageOpen hbuys hsells _ s hb
    · have hP := rests_sequenced cfg feeRate start
      exact hP.seq rests_ambient (fun _ => hP.seq rests_setStop fun _ =>
        rests_manageOpen hbuys hsells) _ s hb
  · next hclosed =>
    refine wp_tryEntry hfee hsettings hstop hb hf (hb.position.eq_zero (not_le.1 fun hle => ?_))
    refine hclosed (decide_eq_true ⟨?_, max_le ?_ hle⟩)
    · exact lt_of_lt_of_le (by norm_num) hle
    · exact hb.position.nonneg

theorem wp_trade {control : Control} {st : ReconciliationState} {entriesOk : Bool}
    (hfee : 0 ≤ feeRate) (hsettings : NeverBuys cfg start ∨ FeeCovered cfg feeRate)
    (hstop : cfg.protectiveStopOnExchange = false) (hb : AtRest cfg feeRate start h s) :
    Proc.wp (paperContract cfg feeRate start) (trade cfg control st entriesOk)
      (fun _ => AtRest cfg feeRate start) h s := by
  refine (Proc.wp_bind _ _ _ _ _).2 (wp_answered (affordable_of_ne rfl) fun snap _ => ?_)
  have hb₁ : AtRest cfg feeRate start (.call (.call (.snapshot cfg.symbol)) snap :: h) s := hb
  obtain e | reason | snap := snap
  · exact hb₁
  · exact hb₁
  refine (Proc.wp_bind _ _ _ _ _).2 (wp_answered (affordable_of_ne rfl) fun rules hrules => ?_)
  obtain rfl : rules = _ := hrules
  refine (Proc.wp_bind _ _ _ _ _).2 (wp_time fun now => (Proc.wp_bind _ _ _ _ _).2
    (Proc.wp_mono (rests_rewrite (f := fun p => p.mark snap.markPrice) (fun _ => rfl) (fun _ => rfl)
      (fun _ => rfl) _ s hb₁) ?_))
  rintro (e | _) h₂ s₂ hb₂
  · exact hb₂
  refine (Proc.wp_bind _ _ _ _ _).2 (Proc.wp_mono (wp_readFunds hb₂) ?_)
  rintro _ h₃ s₃ ⟨funds, rfl, hb₃, hf₃⟩
  refine (Proc.wp_bind _ _ _ _ _).2 (wp_answered (affordable_of_ne rfl) fun signal _ => ?_)
  have hb₄ : AtRest cfg feeRate start (.call (.call (.evaluate snap)) signal :: h₃) s₃ := hb₃
  obtain e | signal := signal
  · exact hb₄
  refine (Proc.wp_bind _ _ _ _ _).2 (wp_time fun now' => (Proc.wp_bind _ _ _ _ _).2 ?_)
  obtain ⟨outbox, henqueue⟩ := Store.enqueue_eq_ok .signals _ _ now' s₃
  have hb₅ : AtRest cfg feeRate start h₃ { s₃ with outbox } :=
    PaperBooks.congr hb₃ rfl rfl rfl rfl
  exact wp_write henqueue hb₅.cash
    (wp_decideOrders hfee hsettings hstop hb₅ (hf₃.congr rfl rfl rfl rfl))

/-- A cycle leaves the account at rest. -/
theorem rests_runOnce (hfee : 0 ≤ feeRate)
    (hsettings : NeverBuys cfg start ∨ FeeCovered cfg feeRate) :
    Rests cfg feeRate start _ (runOnce cfg).run := by
  have hP := rests_sequenced cfg feeRate start
  refine hP.seq rests_ambient fun now => hP.seq (hP.attempt (rests_call rfl)) fun control => ?_
  cases control with
  | error e => exact hP.seq (rests_beside Store.enqueue_beside) fun _ => hP.pure _
  | ok control =>
    intro h s hb
    refine (Proc.wp_bind _ _ (fun _ => AtRest cfg feeRate start) _ _).2
      ((Proc.wp_attempt _ _ _ _).2 (wp_answered (affordable_of_ne rfl) fun valid hvalid => ?_))
    have hb₁ : AtRest cfg feeRate start (.call (.call .validateRuntime) valid :: h) s := hb
    cases valid with
    | error e => exact hb₁
    | ok _ =>
      have hstop : cfg.protectiveStopOnExchange = false := hvalid rfl
      refine hP.seq rests_gate (fun st => hP.seq rests_ambient fun now => hP.seq rests_ambient
        fun now' => hP.ite (hP.pure _) (hP.seq (fun h s hb => ?_) fun _ => hP.pure _)) _ s hb₁
      exact wp_trade hfee hsettings hstop hb

/-- So do all cycles one after the other. -/
theorem rests_cycles (hfee : 0 ≤ feeRate)
    (hsettings : NeverBuys cfg start ∨ FeeCovered cfg feeRate) (n : Nat) :
    Rests cfg feeRate start _ (cycles cfg n).run := by
  have hP := rests_sequenced cfg feeRate start
  induction n with
  | zero => exact hP.pure _
  | succ n ih => exact hP.seq (hP.attempt (rests_runOnce hfee hsettings)) fun _ => ih

end

end PaperAccount

/-! ## Runs -/

/-- The account before the first cycle. -/
theorem paperBooks_start {cfg : Config} {feeRate start : ℚ} (hstart : 0 ≤ start) :
    PaperBooks cfg start (PaperExecutor.book feeRate []) {} where
  own := fun o ho => absurd ho (List.not_mem_nil)
  squared := fun o ho => absurd ho (List.not_mem_nil)
  known := fun c hc => absurd hc (by simp [PaperExecutor.book])
  fills := fun f hf => absurd hf (List.not_mem_nil)
  position := Lots.zero
  cash := hstart
  idle := fun _ => ⟨rfl, rfl, fun _ _ _ d hd => by cases hd⟩

/-- The start of a worker that runs `n` cycles on a fresh account. -/
def TradingCycle.launch (cfg : Config) (n : Nat) :
    Point Ledger Label Ans (Except Exn PUnit) := ⟨(cycles cfg n).run, [], {}⟩

/-- At every point of every run the cash is not negative and the next BUY can be paid, when the
largest entry the settings admit leaves its fee. -/
theorem paper_cash_nonneg {cfg : Config} {feeRate start : ℚ} {n : Nat}
    {y : Point Ledger Label Ans (Except Exn PUnit)} (hfee : 0 ≤ feeRate) (hstart : 0 ≤ start)
    (hsettings : NeverBuys cfg start ∨ FeeCovered cfg feeRate)
    (hrun : Path (PaperAnswers cfg feeRate start) (TradingCycle.launch cfg n) y) :
    0 ≤ PositionService.paperCash y.state start cfg.bot cfg.symbol ∧
      ∀ q k, y.prog = .call q k → Affordable cfg feeRate start q y.state := by
  have hrest : AtRest cfg feeRate start [] {} := paperBooks_start hstart
  have hwp : (TradingCycle.launch cfg n).prog.wp (paperContract cfg feeRate start)
      (fun _ h s => AtRest cfg feeRate start h s) [] {} :=
    PaperAccount.rests_cycles hfee hsettings n [] {} hrest
  refine ⟨?_, fun q k hprog => ?_⟩
  · have hcash : 0 ≤ PositionService.paperCash (TradingCycle.launch cfg n).state start cfg.bot
        cfg.symbol := hrest.cash
    exact Path.state (C := paperContract cfg feeRate start) (fun _ _ _ => rfl)
      (fun _ _ _ _ => id) id hwp hcash hrun
  · obtain ⟨p, h, s⟩ := y
    obtain rfl : p = _ := hprog
    exact Path.guard (C := paperContract cfg feeRate start) (fun _ _ _ => rfl)
      (fun _ _ _ _ => id) hwp hrun

/-! ## A sample market -/

/-- A market at 100 whose strategy always buys, with the simulated exchange. -/
def paperMarket (cfg : Config) (feeRate start : ℚ) (h : History Label Ans) (q : Request)
    (s : Ledger) : Ans q :=
  let book := PaperExecutor.book feeRate h
  match q with
  | .ambient a => exchangeEnv (listing (.ok [])) h (.ambient a)
  | .call (.symbolRules symbol) => .ok (PaperExecutor.symbolRules symbol)
  | .call (.submit order rules) =>
    .ok (PaperExecutor.submit feeRate order rules 1735689600000 book).1
  | .call (.queryOrder order) => .ok (PaperExecutor.queryOrder order book)
  | .call (.queryOrderByExchangeId ..) => .ok none
  | .call (.queryFills order) => .ok (PaperExecutor.queryFills order book)
  | .call (.cancel _) => .ok PaperExecutor.cancel
  | .call (.openOrders _) => .ok []
  | .call (.recentFills ..) => .ok []
  | .call .balances => .ok (PositionService.paperBalances s start cfg.bot cfg.symbol)
  | .call .validateRuntime =>
    if cfg.protectiveStopOnExchange = true
    then .error (.external "RuntimeError"
      "PROTECTIVE_STOP_MODE=exchange is not supported in PAPER mode")
    else .ok ⟨⟩
  | .call r => marketAnswers .buy (listing (.ok [])) r

theorem paperAnswers_paperMarket (cfg : Config) (feeRate start : ℚ) (h : History Label Ans)
    (q : Request) (s : Ledger) :
    PaperAnswers cfg feeRate start h q s (paperMarket cfg feeRate start h q s) := by
  match q with
  | .ambient _ => exact trivial
  | .call (.submit _ _) => exact ⟨_, rfl⟩
  | .call .validateRuntime =>
    intro hok
    by_contra hstop
    rw [Bool.not_eq_false] at hstop
    have herror : paperMarket cfg feeRate start h (.call .validateRuntime) s =
        .error (.external "RuntimeError"
          "PROTECTIVE_STOP_MODE=exchange is not supported in PAPER mode") := if_pos hstop
    rw [herror] at hok
    cases hok
  | .call (.symbolRules _) | .call (.queryOrder _) | .call (.queryOrderByExchangeId _ _)
  | .call (.queryFills _) | .call (.cancel _) | .call (.openOrders _) | .call (.recentFills _ _)
  | .call .balances => rfl
  | .call .getControl | .call (.snapshot _) | .call (.evaluate _) => exact trivial

/-- The default configuration in PAPER mode, which risks this part of the equity. -/
def paperConfig (riskPerTradePct : ℚ) : Config :=
  { sampleConfig with tradingMode := .paper, exchangeName := "paper", riskPerTradePct }

/-- The account after a cycle that enters at the full price of the market. -/
def paperRun (riskPerTradePct : ℚ) : Point Ledger Label Ans (Except Exn PUnit) :=
  (TradingCycle.launch (paperConfig riskPerTradePct) 1).follow
    (paperMarket (paperConfig riskPerTradePct) (1 / 1000) 1000) 200

theorem path_paperRun (riskPerTradePct : ℚ) :
    Path (PaperAnswers (paperConfig riskPerTradePct) (1 / 1000) 1000)
      (TradingCycle.launch (paperConfig riskPerTradePct) 1) (paperRun riskPerTradePct) :=
  Point.path_follow (paperAnswers_paperMarket _ _ _) _ _

/-- With the defaults an entry takes a third of the cash. -/
theorem paper_cash_sample :
    0 ≤ PositionService.paperCash (paperRun 1).state 1000 "default" ⟨"BTC", "USDT"⟩ ∧
      (paperRun 1).state.orders.rows.map (fun o => (o.status, o.executedQuantity)) =
        [(.filled, 333333333 / 100000000)] :=
  ⟨(paper_cash_nonneg (by norm_num) (by norm_num)
    (.inr ⟨by norm_num, by norm_num [paperConfig, sampleConfig, Config.testnet]⟩)
    (path_paperRun 1)).1, by decide +kernel⟩

/-- Where the risk of a trade is its stop, the entry takes the whole cash, and its fee is
overdrawn. -/
theorem paper_cash_overdrawn :
    Path (PaperAnswers (paperConfig 3) (1 / 1000) 1000) (TradingCycle.launch (paperConfig 3) 1)
      (paperRun 3) ∧
    (paperRun 3).state.orders.rows.map (fun o => (o.side, o.status, o.executedQuantity)) =
      [(.buy, .filled, 10)] ∧
    PositionService.paperCash (paperRun 3).state 1000 "default" ⟨"BTC", "USDT"⟩ = -1 := by
  refine ⟨path_paperRun 3, ?_⟩
  decide +kernel

end CryptoBot
