import CryptoBot.Application.Conflicts
import CryptoBot.Application.RunAlone
import CryptoBot.Application.SingleSell

/-!
# The attempts to sell a position

An exit and a protective stop are attempts of a decision about one position, told apart by a number.
The number moves on only past attempts that have ended without a fill: an attempt that has executed
anything is the last one, and stands for the decision from then on. What a cycle sends, and what it
leaves behind, can be read off the attempts the ledger has recorded.
-/

namespace CryptoBot

open Lib OrderService TradingCycle

/-! ## Intents and their orders -/

/-- The same intents, and rows for the same orders. -/
structure RowsKept (s s' : Ledger) : Prop where
  intents : s'.intents = s.intents
  old : ∀ x' ∈ s'.orders.rows, ∃ x ∈ s.orders.rows, Order.Same x x'
  new : ∀ x ∈ s.orders.rows, ∃ x' ∈ s'.orders.rows, Order.Same x x'

/-- Every intent has an order, and the bot, the symbol and the purpose of an order are those of its
intent id. -/
structure Ledger.Paired (s : Ledger) : Prop where
  ordered : ∀ i ∈ s.intents, ∃ o ∈ s.orders.rows, o.clientIntentId = i.clientIntentId
  bot : ∀ o ∈ s.orders.rows, o.bot = o.clientIntentId.base.bot
  symbol : ∀ o ∈ s.orders.rows, o.symbol = o.clientIntentId.base.symbol
  purpose : ∀ o ∈ s.orders.rows, o.purpose = o.clientIntentId.base.purpose

section
variable {cfg : Config} {s s' s'' : Ledger}

theorem RowsKept.of_eq (hi : s'.intents = s.intents) (ho : s'.orders = s.orders) :
    RowsKept s s' := by
  refine ⟨hi, fun x hx => ⟨x, ?_, .rfl⟩, fun x hx => ⟨x, ?_, .rfl⟩⟩
  · rwa [← ho]
  · rwa [ho]

theorem RowsKept.trans (h : RowsKept s s') (h' : RowsKept s' s'') : RowsKept s s'' := by
  refine ⟨h'.intents.trans h.intents, fun x'' hx'' => ?_, fun x hx => ?_⟩
  · obtain ⟨x', hx', hsame'⟩ := h'.old x'' hx''
    obtain ⟨x, hx, hsame⟩ := h.old x' hx'
    exact ⟨x, hx, hsame.trans hsame'⟩
  · obtain ⟨x', hx', hsame⟩ := h.new x hx
    obtain ⟨x'', hx'', hsame'⟩ := h'.new x' hx'
    exact ⟨x'', hx'', hsame.trans hsame'⟩

theorem ExchangeMove.rowsKept (h : ExchangeMove cfg s s') : RowsKept s s' := by
  induction h with
  | keep h => exact .of_eq (congrArg Ledger.intents h :) (congrArg Ledger.orders h :)
  | @change s s' o o' _ hr =>
    refine ⟨hr.intents, fun x' hx' => ?_, fun x hx => ?_⟩
    · rcases hr.mem_iff.1 hx' with rfl | ⟨hx', -⟩
      · exact ⟨o, hr.mem, hr.same⟩
      · exact ⟨x', hx', .rfl⟩
    · by_cases hid : x.id = o.id
      · obtain rfl := Ledger.eq_of_id hx hr.mem hid
        exact ⟨o', hr.mem_new, hr.same⟩
      · exact ⟨x, hr.mem_iff.2 (.inr ⟨hx, hid⟩), .rfl⟩
  | fill h => exact .of_eq (congrArg Ledger.intents h.rest :) (congrArg Ledger.orders h.rest :)
  | seq _ _ ih ih' => exact ih.trans ih'

namespace Ledger.Paired

theorem rowsKept (hs : s.Paired) (h : RowsKept s s') : s'.Paired := by
  refine ⟨fun i hi => ?_, fun o' ho' => ?_, fun o' ho' => ?_, fun o' ho' => ?_⟩
  · obtain ⟨o, ho, hid⟩ := hs.ordered i (h.intents ▸ hi)
    obtain ⟨o', ho', hsame⟩ := h.new o ho
    exact ⟨o', ho', hsame.clientIntentId.trans hid⟩
  all_goals obtain ⟨o, ho, hsame⟩ := h.old o' ho'
  · rw [hsame.bot, hsame.clientIntentId]
    exact hs.bot o ho
  · rw [hsame.symbol, hsame.clientIntentId]
    exact hs.symbol o ho
  · rw [hsame.purpose, hsame.clientIntentId]
    exact hs.purpose o ho

/-- The order of a new intent, whose bot, symbol and purpose are those of its id. -/
theorem placed (hs : s.Paired) {intent : OrderIntent} {o : Order} (h : Placed cfg s s' intent o)
    (hbot : intent.clientIntentId.base.bot = cfg.bot)
    (hsymbol : intent.clientIntentId.base.symbol = intent.symbol)
    (hpurpose : intent.clientIntentId.base.purpose = intent.purpose) : s'.Paired := by
  have hid := h.order.2.1
  have hrow : o.bot = cfg.bot ∧ o.symbol = intent.symbol ∧ o.purpose = intent.purpose := by
    obtain ⟨rules, now, o₀, hmark, rfl⟩ := h.row
    cases hmark
    exact ⟨rfl, rfl, rfl⟩
  have hcases {x : Order} (hx : x ∈ s'.orders.rows) : x ∈ s.orders.rows ∨ x = o := by
    rw [h.rows] at hx
    exact (List.mem_append.1 hx).imp_right List.mem_singleton.1
  refine ⟨fun i hi => ?_, fun x hx => ?_, fun x hx => ?_, fun x hx => ?_⟩
  · rw [h.intents] at hi
    rcases List.mem_append.1 hi with hi | hi
    · obtain ⟨x, hx, hxid⟩ := hs.ordered i hi
      exact ⟨x, h.rows ▸ List.mem_append_left _ hx, hxid⟩
    · obtain rfl := List.mem_singleton.1 hi
      exact ⟨o, h.rows ▸ List.mem_append_right _ (.head _), hid⟩
  · rcases hcases hx with hx | rfl
    · exact hs.bot x hx
    · rw [hrow.1, hid, hbot]
  · rcases hcases hx with hx | rfl
    · exact hs.symbol x hx
    · rw [hrow.2.1, hid, hsymbol]
  · rcases hcases hx with hx | rfl
    · exact hs.purpose x hx
    · rw [hrow.2.2, hid, hpurpose]

end Ledger.Paired

/-! ## Every program keeps them -/

/-- A step that keeps intents and orders paired. -/
def Pairing (_ : Label) (s s' : Ledger) : Prop := s.Paired → s'.Paired

theorem pairing_transaction {α : Type} {l : Label} {t : Tx α}
    (ht : ∀ s a s', t s = .ok (a, s') → RowsKept s s') : (transaction l t).Within Pairing :=
  transaction_within (fun _ hs => hs) fun s a s' h hs => hs.rowsKept (ht s a s' h)

theorem pairing_resolves (cfg : Config) : Resolves cfg (fun _ => True)
    fun (α : Type) (p : Prog Ledger Label Ans α) => p.Within Pairing := by
  have hP : Handles cfg (fun _ => True)
      fun (α : Type) (p : Prog Ledger Label Ans α) => p.Within Pairing :=
    { done := fun _ => trivial
      bind := fun hp hg => hp.bind hg
      read := fun _ _ => query_within fun _ hs => hs
      ambient := fun _ _ => Proc.within_ask _ _
      call := fun r _ _ hk a => hk a (heard_true r a)
      keep := fun _ => fun ht => pairing_transaction fun s a s' h =>
        .of_eq (ht s a s' h).1 (ht s a s' h).2
      report := fun _ _ _ => pairing_transaction fun _ _ _ h => (applyReportTx_move h).rowsKept
      event := fun _ _ _ _ _ => pairing_transaction fun _ _ _ h => (handleTx_move h).rowsKept }
  exact ⟨hP, fun o => hP.resolveAmbiguous (hP.seq hP.now fun _ => hP.ite (hP.pure _)
    (hP.seq (pairing_transaction fun _ _ _ h => (rejectTx_move h : ExchangeMove cfg _ _).rowsKept)
      fun _ => hP.pure _))⟩

theorem pairing_submitIntent {intent : OrderIntent} {rules : SymbolRules}
    (hbot : intent.clientIntentId.base.bot = cfg.bot)
    (hsymbol : intent.clientIntentId.base.symbol = intent.symbol)
    (hpurpose : intent.clientIntentId.base.purpose = intent.purpose) :
    (submitIntent cfg intent rules).Within Pairing := by
  have hP := pairing_resolves cfg
  refine hP.seq (hP.read _ _) fun existing => ?_
  cases existing with
  | some o => exact hP.pure _
  | none =>
    refine hP.seq hP.now fun t => ?_
    cases ho : (newOrder cfg intent rules).markSubmitting t with
    | error message => exact hP.throw _
    | ok o₀ =>
      refine hP.seq (transaction_within (fun _ hs => hs) fun s r s' htx hs => ?_) fun r => ?_
      · rcases persistTx_cases ho htx with ⟨-, rfl, -⟩ | ⟨o, -, hp⟩
        · exact hs
        · exact hs.placed hp hbot hsymbol hpurpose
      · cases r with
        | error existing => exact hP.pure _
        | ok o =>
          have hsettle (out : SubmitOutcome) :
              (settle cfg o out).run.Within Pairing :=
            hP.settle hP.resolve (fun _ _ => trivial)
              (fun _ _ _ => pairing_transaction fun _ _ _ h =>
                (rejectTx_move h : ExchangeMove cfg _ _).rowsKept)
              fun _ _ => pairing_transaction fun _ _ _ h => (flagAmbiguousTx_move h).rowsKept
          refine fun a => ?_
          cases a with
          | error e => exact hP.seq (hsettle _) fun _ => hP.read _ _
          | ok out => exact hP.seq (hsettle _) fun _ => hP.read _ _

/-- The next attempt is an attempt of the decision that was looked up. -/
theorem nextIntentId_within {R : Label → Ledger → Ledger → Prop} (hR : ∀ s, R .query s s)
    {α : Type} {base : IntentBase} {g : Option IntentId → Engine α} (hnone : (g none).Within R)
    (hsome : ∀ k, (g (some ⟨base, k⟩)).Within R) (n attempt : Nat) :
    (nextIntentId base attempt n >>= g).Within R := by
  induction n generalizing attempt with
  | zero => exact hnone
  | succ n ih =>
    intro s
    refine ⟨hR s, ?_⟩
    dsimp only
    cases s.getOrderByIntent ⟨base, attempt⟩ with
    | none => exact hsome attempt
    | some existing =>
      show Proc.Within R ((if endedWithoutFill existing then nextIntentId base (attempt + 1) n
        else pure (some ⟨base, attempt⟩)) >>= g)
      split
      · exact ih (attempt + 1)
      · exact hsome attempt

theorem pairing_conducts (cfg : Config) : Conducts cfg (fun _ => True)
    fun (α : Type) (p : Prog Ledger Label Ans α) => p.Within Pairing where
  toResolves := pairing_resolves cfg
  submit purpose side qty rules refPrice base signalId orderType limit stop hbot hsymbol hpurpose := by
    have hP := pairing_resolves cfg
    refine nextIntentId_within (fun _ hs => hs) ?_ (fun k => ?_) _ _
    · exact hP.seq hP.now fun _ => hP.seq (hP.enqueue _) fun _ => hP.seq (hP.enqueue _) fun _ =>
        hP.pure _
    · exact pairing_submitIntent hbot hsymbol hpurpose

/-- The ledger of every run of any number of processes, from an empty one. -/
def Reachable (cfg : Config) (s : Ledger) : Prop :=
  ∃ (τ : Type) (_ : DecidableEq τ) (P : Pool τ Ledger Label Ans),
    Pool.Run (EngineProgram cfg fun _ => True) (fun _ _ => True) (.idle {}) P ∧ P.state = s

theorem Reachable.paired (h : Reachable cfg s) : s.Paired := by
  obtain ⟨τ, _, P, hrun, rfl⟩ := h
  refine Pool.Run.invariant_of_within (R := Pairing) (I := Ledger.Paired)
    (fun hp => (pairing_conducts cfg).program hp) (fun h hs => h hs) ?_ ?_ hrun
  · exact fun _ => trivial
  · refine ⟨fun i hi => ?_, fun o ho => ?_, fun o ho => ?_, fun o ho => ?_⟩
    · cases hi
    · cases ho
    · cases ho
    · cases ho

/-! ## The choice of an attempt -/

/-- What `_next_intent_id` finds among the first `n` attempts of a decision: all of them have ended
without a fill, or those before the one it names have, and that one is not recorded yet, or has not
ended without a fill. -/
inductive Chosen (base : IntentBase) (n : Nat) (s : Ledger) : Option IntentId → Prop
  | exhausted (ht : Tried base n s) : Chosen base n s none
  | fresh {j} (hj : j < n) (ht : Tried base j s) (hj' : s.getOrderByIntent ⟨base, j⟩ = none) :
      Chosen base n s (some ⟨base, j⟩)
  | standing {j a} (hj : j < n) (ht : Tried base j s)
      (ha : s.getOrderByIntent ⟨base, j⟩ = some a) (hended : endedWithoutFill a = false) :
      Chosen base n s (some ⟨base, j⟩)

variable {ans : Answers Ledger Label Ans} {h h' : History Label Ans} {rules : SymbolRules}

theorem ends_nextIntentId {base : IntentBase} {k n : Nat} {r : Except Exn (Option IntentId)}
    (ht : Tried base k s) (hrun : Proc.Ends ans (nextIntentId base k n) h s r h' s') :
    s' = s ∧ Onward h h' ∧ ∃ x, r = .ok x ∧ Chosen base (k + n) s x := by
  induction n generalizing k h with
  | zero =>
    obtain ⟨rfl, rfl, rfl⟩ := (Proc.ends_pure _ _).1 hrun
    exact ⟨rfl, .rfl, _, rfl, .exhausted ht⟩
  | succ n ih =>
    rcases (Proc.ends_bind _ _ _).1 hrun with ⟨x, h₁, s₁, hq, hrun⟩ | ⟨e, hq, -⟩
    · obtain ⟨hx, rfl, rfl⟩ := (ends_query _ _ _).1 hq
      obtain rfl := Except.ok.inj hx
      have hstep : Onward h (.step .query :: h) := Onward.rfl.step _
      cases hget : s₁.getOrderByIntent ⟨base, k⟩ with
      | none =>
        rw [hget] at hrun
        obtain ⟨rfl, rfl, rfl⟩ := (Proc.ends_pure _ _).1 hrun
        exact ⟨rfl, hstep, _, rfl, .fresh (Nat.lt_add_of_pos_right n.succ_pos) ht hget⟩
      | some a =>
        rw [hget] at hrun
        dsimp only at hrun
        split at hrun
        · next hended =>
          have ht' : Tried base (k + 1) s₁ := by
            intro j hj
            rcases Nat.lt_succ_iff_lt_or_eq.1 hj with hj | rfl
            · exact ht j hj
            · obtain ⟨hmem, hid⟩ := Ledger.getOrderByIntent_eq_some.1 hget
              exact ⟨a, hmem, hid, hended⟩
          obtain ⟨hs, hh, x, hr, hx⟩ := ih ht' hrun
          rw [Nat.add_right_comm, Nat.add_assoc] at hx
          exact ⟨hs, hstep.trans hh, x, hr, hx⟩
        · next hended =>
          obtain ⟨rfl, rfl, rfl⟩ := (Proc.ends_pure _ _).1 hrun
          refine ⟨rfl, hstep, _, rfl, .standing (Nat.lt_add_of_pos_right n.succ_pos) ht hget ?_⟩
          exact Bool.eq_false_iff.2 hended
    · obtain ⟨hx, -⟩ := (ends_query _ _ _).1 hq
      cases hx

/-! ## Submissions -/

/-- The program sends nothing, and keeps the rows. -/
abbrev Silent (ans : Answers Ledger Label Ans) (α : Type) (p : Prog Ledger Label Ans α) : Prop :=
  ∀ h s, p.wp (.alone ans) (fun _ h' s' => Onward h h' ∧ RowsKept s s') h s

theorem silent_transaction {α : Type} {l : Label} {t : Tx α}
    (ht : ∀ s a s', t s = .ok (a, s') → RowsKept s s') :
    Silent ans _ (transaction l t).run := by
  refine fun h s => wp_transaction ?_
  rintro s' rfl
  exact ⟨fun a s'' htx => ⟨trivial, Onward.rfl.step l, ht _ a s'' htx⟩,
    fun _ _ => ⟨trivial, Onward.rfl.step l, .of_eq rfl rfl⟩⟩

theorem silent_call {α : Type} {q : Request} {k : Ans q → Prog Ledger Label Ans α}
    (hq : q.isSubmit = false) (hk : ∀ a, Silent ans _ (k a)) : Silent ans _ (.call q k) := by
  rintro h s s' rfl
  exact ⟨trivial, fun a _ => Prog.wp_mono
    (fun _ _ _ hh => ⟨(Onward.rfl.call a hq).trans hh.1, hh.2⟩) (hk a _ _)⟩

theorem silent_resolves (cfg : Config) (ans : Answers Ledger Label Ans) :
    Resolves cfg (fun _ => True) (Silent ans) := by
  have hP : Handles cfg (fun _ => True) (Silent ans) :=
    { done := fun _ _ _ => ⟨.rfl, .of_eq rfl rfl⟩
      bind := fun hp hg h s => (Prog.wp_bind _ _ _ h s).2 <| Prog.wp_mono (fun a h' s' hh =>
        Prog.wp_mono (fun _ _ _ hh' => ⟨hh.1.trans hh'.1, hh.2.trans hh'.2⟩) (hg a h' s')) (hp h s)
      read := fun l _ h s => (wp_query _ _).2 fun s' hr => by
        obtain rfl : s' = s := hr
        exact ⟨trivial, Onward.rfl.step l, .of_eq rfl rfl⟩
      ambient := fun a get => silent_call rfl fun _ _ _ => ⟨.rfl, .of_eq rfl rfl⟩
      call := fun r _ hr hk => silent_call hr fun a => hk a (heard_true r a)
      keep := fun _ => fun ht => silent_transaction fun s a s' h =>
        .of_eq (ht s a s' h).1 (ht s a s' h).2
      report := fun _ _ _ => silent_transaction fun _ _ _ h => (applyReportTx_move h).rowsKept
      event := fun _ _ _ _ _ => silent_transaction fun _ _ _ h => (handleTx_move h).rowsKept }
  exact ⟨hP, fun o => hP.resolveAmbiguous (hP.seq hP.now fun _ => hP.ite (hP.pure _)
    (hP.seq (silent_transaction fun _ _ _ h => (rejectTx_move h : ExchangeMove cfg _ _).rowsKept)
      fun _ => hP.pure _))⟩

theorem Silent.ends {α : Type} {p : Engine α} {r : Except Exn α} (hp : Silent ans _ p.run)
    (hrun : Proc.Ends ans p h s r h' s') : Onward h h' ∧ RowsKept s s' := hrun.post (hp h s)

/-- The order that is handed to the executor asks for what the new order asks for. -/
theorem persistTx_quantity {intent : OrderIntent} {o₀ o : Order} {now : Time}
    (h : persistTx intent o₀ now s = .ok (.ok o, s')) :
    o.requestedQuantity = o₀.requestedQuantity := by
  unfold persistTx at h
  obtain ⟨x, s₁, hins, h₁⟩ := Tx.bind_ok.1 h
  unfold Store.insertIntentAndOrder at hins
  split at hins
  · cases hins
    obtain ⟨_, _, hget, h₂⟩ := Tx.bind_ok.1 h₁
    obtain ⟨hx, -⟩ := Tx.pure_ok.1 h₂
    cases hx
  · dsimp only at hins
    split at hins
    · cases hins
      obtain ⟨o₂, s₂, hsave, h₂⟩ := Tx.bind_ok.1 h₁
      obtain ⟨_, s₃, -, h₃⟩ := Tx.bind_ok.1 h₂
      obtain ⟨hx, -⟩ := Tx.pure_ok.1 h₃
      cases hx
      unfold Store.saveOrder at hsave
      dsimp only at hsave
      split at hsave
      · split at hsave
        · cases hsave
          rfl
        · cases hsave
      · cases hsave
    · cases hins

/-- Only an order with the client order id of the intent can keep an intent from being placed. -/
theorem persistTx_isOk {intent : OrderIntent} {o₀ : Order} {now t : Time}
    (ho : (newOrder cfg intent rules).markSubmitting t = .ok o₀) (hs : s.Paired)
    (hid : s.getOrderByIntent intent.clientIntentId = none)
    (hc : s.getOrder (makeClientOrderId cfg.textLib cfg.clientOrderIdPrefix
      intent.clientIntentId) = none) :
    ∃ o s', persistTx intent o₀ now s = .ok (.ok o, s') ∧ Placed cfg s s' intent o := by
  have hintent : (s.intents.any fun i => decide (i.clientIntentId = intent.clientIntentId)) =
      false := by
    rw [List.any_eq_false]
    intro i hi hi'
    obtain ⟨x, hx, hxid⟩ := hs.ordered i hi
    exact Ledger.getOrderByIntent_eq_none.1 hid x hx (hxid.trans (of_decide_eq_true hi'))
  have ho₀ : o₀ = { newOrder cfg intent rules with
      status := .submitting, submittedAt := some t } := by
    cases ho
    rfl
  have hinsert : (s.orders.insert? (Store.insertedRow o₀
      (Store.nextId (s.orders.rows.map (·.id))))).isSome := by
    refine Table.insert?_isSome.2 fun x hx => ⟨?_, ?_, ?_, ?_⟩
    · exact Store.lt_nextId (List.mem_map_of_mem hx)
    · intro heq
      refine Ledger.getOrder_eq_none.1 hc x hx (heq.trans ?_)
      rw [ho₀]
      rfl
    · intro heq
      refine Ledger.getOrderByIntent_eq_none.1 hid x hx (heq.trans ?_)
      rw [ho₀]
      rfl
    · rintro ⟨-, hsome, heq⟩
      rw [heq] at hsome
      cases hsome
  obtain ⟨orders, horders⟩ := Option.isSome_iff_exists.1 hinsert
  have hins : Store.insertIntentAndOrder intent o₀ s =
      .ok (some { o₀ with id := Store.nextId (s.orders.rows.map (·.id)) },
        { s with intents := s.intents ++ [intent], orders }) := by
    unfold Store.insertIntentAndOrder
    rw [hintent]
    dsimp only
    rw [horders]
    rfl
  have hmem : Store.insertedRow o₀ (Store.nextId (s.orders.rows.map (·.id))) ∈ orders.rows :=
    Table.insert?_eq_some.1 horders ▸ List.mem_append_right _ (.head _)
  obtain ⟨orders', hsave⟩ := Store.saveOrder_isOk
    (s := { s with intents := s.intents ++ [intent], orders })
    (o := { o₀ with id := Store.nextId (s.orders.rows.map (·.id)) }) hmem
    (by constructor <;> rfl) (by rw [ho₀]; rfl) (by
      intro y _ _ hsome
      rw [ho₀] at hsome
      cases hsome)
  have hpersist : ∃ o s', persistTx intent o₀ now s = .ok (.ok o, s') := by
    unfold persistTx
    rw [Tx.bind_eq hins]
    dsimp only
    rw [Tx.bind_eq hsave]
    obtain ⟨outbox, henqueue⟩ := Store.enqueueOrder_eq_ok _ now _
    rw [Tx.bind_eq henqueue]
    exact ⟨_, _, rfl⟩
  obtain ⟨o, s', hpersist⟩ := hpersist
  rcases persistTx_cases ho hpersist with ⟨hx, -⟩ | ⟨o', ho', hp⟩
  · cases hx
  · cases ho'
    exact ⟨o, s', hpersist, hp⟩

/-- What `submit_intent` comes to: the intent has an order, which is returned; the store does not
take the order, since another one has its client order id; or the order is placed and handed to the
executor. -/
inductive Submission (cfg : Config) (intent : OrderIntent) (rules : SymbolRules)
    (h : History Label Ans) (s : Ledger) :
    Except Exn (Option Order) → History Label Ans → Ledger → Prop
  | standing {a h'} (ha : s.getOrderByIntent intent.clientIntentId = some a) (hh : Onward h h') :
      Submission cfg intent rules h s (.ok (some a)) h' s
  | refused {e h' x} (hh : Onward h h')
      (hx : s.getOrder (makeClientOrderId cfg.textLib cfg.clientOrderIdPrefix
        intent.clientIntentId) = some x) (hid : s.getOrderByIntent intent.clientIntentId = none) :
      Submission cfg intent rules h s (.error e) h' s
  | sent {o s₁ r h' s'} (hp : Placed cfg s s₁ intent o)
      (hq : o.requestedQuantity = rules.roundQty intent.quantity) (hs : RowsKept s₁ s')
      (hh : h <:+ h') (hsent : submits h' = (o, rules) :: submits h) :
      Submission cfg intent rules h s r h' s'

theorem ends_submitIntent {intent : OrderIntent} {r : Except Exn (Option Order)} (hs : s.Paired)
    (hrun : Proc.Ends ans (submitIntent cfg intent rules) h s r h' s') :
    Submission cfg intent rules h s r h' s' := by
  have hP := silent_resolves cfg ans
  rcases (Proc.ends_bind _ _ _).1 hrun with ⟨x, h₁, s₁, hq, hrun⟩ | ⟨e, hq, -⟩
  swap
  · obtain ⟨hx, -⟩ := (ends_query _ _ _).1 hq
    cases hx
  obtain ⟨hx, rfl, rfl⟩ := (ends_query _ _ _).1 hq
  obtain rfl := Except.ok.inj hx
  have hh₁ : Onward h (.step (.submitIntent intent) :: h) := Onward.rfl.step _
  cases hget : s₁.getOrderByIntent intent.clientIntentId with
  | some a =>
    rw [hget] at hrun
    obtain ⟨rfl, rfl, rfl⟩ := (Proc.ends_pure _ _).1 hrun
    exact .standing hget hh₁
  | none =>
    rw [hget] at hrun
    rcases (Proc.ends_bind _ _ _).1 hrun with ⟨now, h₂, s₂, hnow, hrun⟩ | ⟨e, hnow, -⟩
    swap
    · obtain ⟨_, hx, -⟩ := ends_clockNow hnow
      cases hx
    obtain ⟨_, hread, -, rfl, rfl⟩ := ends_clockNow hnow
    obtain rfl := Except.ok.inj hread
    have hh₂ := hh₁.call (q := .ambient .now) now rfl
    dsimp only at hrun
    cases ho : (newOrder cfg intent rules).markSubmitting now with
    | error m => cases ho
    | ok o₀ =>
      rw [ho] at hrun
      have hh₃ := hh₂.step .commit
      rcases (Proc.ends_bind _ _ _).1 hrun with ⟨x, h₃, s₃, htx, hrun⟩ | ⟨e, htx, rfl⟩
      · obtain ⟨rfl, ⟨_, htx, hres⟩ | ⟨e, -, hres, -⟩⟩ := ends_transaction htx
        swap
        · cases hres
        obtain rfl := Except.ok.inj hres
        rcases persistTx_cases ho htx with ⟨-, -, i, hi, hid⟩ | ⟨o, rfl, hp⟩
        · obtain ⟨x, hx, hxid⟩ := hs.ordered i hi
          exact absurd (hxid.trans hid) (Ledger.getOrderByIntent_eq_none.1 hget x hx)
        · have hsettle (out : SubmitOutcome) : Silent ans _ (settle cfg o out).run :=
            hP.settle hP.resolve (fun _ _ => trivial)
              (fun _ _ _ => silent_transaction fun _ _ _ h =>
                (rejectTx_move h : ExchangeMove cfg _ _).rowsKept)
              fun _ _ => silent_transaction fun _ _ _ h => (flagAmbiguousTx_move h).rowsKept
          have hquantity : o.requestedQuantity = rules.roundQty intent.quantity := by
            rw [persistTx_quantity htx]
            cases ho
            rfl
          rcases (Proc.ends_bind _ _ _).1 hrun with ⟨out, h₄, s₄, hcall, hrun⟩ | ⟨e, hcall, -⟩
          swap
          · obtain ⟨x, hx, -⟩ := (Proc.ends_attempt _ _).1 hcall
            cases hx
          obtain ⟨_, hout, hcall⟩ := (Proc.ends_attempt _ _).1 hcall
          cases hout
          obtain ⟨-, rfl, rfl⟩ := ends_call hcall
          have hdone {p : Engine (Option Order)} {h₃ : History Label Ans} (hh₃ : Onward h h₃)
              (hp' : Silent ans _ p.run)
              (hrun : Proc.Ends ans p (.call (.call (.submit o rules)) out :: h₃) s₄ r h' s') :
              Submission cfg intent rules h s₂ r h' s' := by
            obtain ⟨hh, hrows⟩ := hp'.ends hrun
            refine .sent hp hquantity hrows (hh₃.1.trans ((List.suffix_cons _ _).trans hh.1)) ?_
            exact hh.2.trans (congrArg _ hh₃.2)
          cases out with
          | ok out => exact hdone hh₃ (hP.seq (hsettle out) fun _ => hP.read _ _) hrun
          | error e => exact hdone hh₃ (hP.seq (hsettle _) fun _ => hP.read _ _) hrun
      · obtain ⟨rfl, ⟨_, -, hx⟩ | ⟨e', htx, -, rfl⟩⟩ := ends_transaction htx
        · cases hx
        · cases hc : s'.getOrder (makeClientOrderId cfg.textLib cfg.clientOrderIdPrefix
              intent.clientIntentId) with
          | some x => exact .refused hh₃ hc hget
          | none =>
            obtain ⟨o, s'', hok, -⟩ : ∃ o s'', persistTx intent _ now s' = .ok (.ok o, s'') ∧
                Placed cfg s' s'' intent o := persistTx_isOk ho hs hget hc
            rw [hok] at htx
            cases htx

/-- What `_submit` comes to: the attempts are exhausted, or `submit_intent` for the attempt
chosen. -/
inductive Attempted (cfg : Config) (rules : SymbolRules) (base : IntentBase) (n : Nat)
    (intentOf : IntentId → OrderIntent) (h : History Label Ans) (s : Ledger) :
    Except Exn (Option Order) → History Label Ans → Ledger → Prop
  | exhausted {h₁ s₁} (ht : Tried base n s) (hh : Onward h h₁) (hs : s₁.books = s.books) :
      Attempted cfg rules base n intentOf h s (.ok none) h₁ s₁
  | chosen {iid h₁ r h' s'} (hc : Chosen base n s (some iid)) (hh : Onward h h₁)
      (hsub : Submission cfg (intentOf iid) rules h₁ s r h' s') :
      Attempted cfg rules base n intentOf h s r h' s'

theorem ends_submit {purpose : OrderPurpose} {side : OrderSide} {qty refPrice : ℚ}
    {base : IntentBase} {signalId : Option SignalId} {orderType : OrderType}
    {limit stop : Option ℚ} {r : Except Exn (Option Order)} (hs : s.Paired)
    (hrun : Proc.Ends ans (submit cfg purpose side qty rules refPrice base signalId orderType limit
      stop) h s r h' s') :
    Attempted cfg rules base (maxAttempts purpose)
      (fun iid => newIntent cfg iid purpose side qty refPrice signalId orderType limit stop)
      h s r h' s' := by
  have htried : Tried base 0 s := fun j hj => absurd hj (Nat.not_lt_zero j)
  rcases (Proc.ends_bind _ _ _).1 hrun with ⟨x, h₁, s₁, hnext, hrun⟩ | ⟨e, hnext, -⟩
  swap
  · obtain ⟨-, -, x, hx, -⟩ := ends_nextIntentId htried hnext
    cases hx
  obtain ⟨rfl, hh, y, hy, hc⟩ := ends_nextIntentId htried hnext
  cases hy
  rw [Nat.zero_add] at hc
  cases x with
  | some iid => exact .chosen hc hh (ends_submitIntent hs hrun)
  | none =>
    cases hc with
    | exhausted ht =>
      have halert : (do
          let now ← clockNow
          transaction .commit (Store.enqueue .events (.exhausted base)
            (.event .orderAttemptsExhausted .critical "" .empty now) now)
          transaction .commit (Store.enqueue .telegram (.telegram (.exhausted base))
            (.telegram cfg.bot .critical .orderAttemptsExhausted "") now)
          return none : Engine (Option Order)).wp (.alone ans)
            (fun r h' s' => r = .ok none ∧ Onward h₁ h' ∧ s'.books = s₁.books) h₁ s₁ := by
        have hC := sequential_alone ans
        refine (Proc.wp_bind _ _ _ _ _).2 (hC.wp_now fun now => ?_)
        refine (Proc.wp_bind _ _ _ _ _).2 (hC.wp_enqueue (.inl rfl) fun s₂ hs₂ => ?_)
        refine (Proc.wp_bind _ _ _ _ _).2 (hC.wp_enqueue (.inl rfl) fun s₃ hs₃ => ?_)
        have hnow : Onward h₁ (.call (.ambient .now) now :: h₁) :=
          Onward.rfl.call (q := .ambient .now) now rfl
        exact ⟨rfl, (hnow.step .commit).step .commit, hs₃.trans hs₂⟩
      obtain ⟨rfl, hh', hbooks⟩ := hrun.post halert
      exact .exhausted ht (hh.trans hh') hbooks

/-! ## Exits -/

theorem toIntegralDown_intCast (n : ℤ) : toIntegralDown n = n := by
  simp [toIntegralDown]

/-- Rounding to the lot a second time changes nothing. -/
theorem SymbolRules.roundQty_roundQty (qty : ℚ) :
    rules.roundQty (rules.roundQty qty) = rules.roundQty qty := by
  unfold SymbolRules.roundQty floorToStep
  split
  · rfl
  · next hstep =>
    have hne : rules.stepSize ≠ 0 := fun h => hstep h.le
    rw [mul_div_assoc, div_self hne, mul_one, toIntegralDown_intCast]

/-- The attempts of a decision that have ended without a fill. -/
def endedAttempts (s : Ledger) (base : IntentBase) : List Order :=
  s.orders.rows.filter fun a => decide (a.clientIntentId.base = base) && endedWithoutFill a

/-- When all of the first `n` attempts have ended without a fill, they are `n` orders. -/
theorem le_length_endedAttempts {base : IntentBase} {n : Nat} (ht : Tried base n s) :
    n ≤ (endedAttempts s base).length := by
  have hsub : (List.range n).map (IntentId.mk base) ⊆
      (endedAttempts s base).map Order.clientIntentId := by
    intro iid hiid
    obtain ⟨j, hj, rfl⟩ := List.mem_map.1 hiid
    obtain ⟨a, ha, hid, hended⟩ := ht j (List.mem_range.1 hj)
    refine List.mem_map.2 ⟨a, List.mem_filter.2 ⟨ha, ?_⟩, hid⟩
    rw [hid, hended]
    simp
  have hnodup : ((List.range n).map (IntentId.mk base)).Nodup :=
    List.nodup_range.map fun i j hij => (congrArg IntentId.attempt hij :)
  simpa using (List.subperm_of_subset hnodup hsub).length_le

/-- A first attempt that is not exhausted and not standing is sent. -/
theorem Attempted.sent {base : IntentBase} {n : Nat} {intentOf : IntentId → OrderIntent}
    {r : Except Exn (Option Order)} (hid : ∀ iid, (intentOf iid).clientIntentId = iid)
    (hrun : Attempted cfg rules base n intentOf h s r h' s')
    (hfew : (endedAttempts s base).length < n)
    (hunfilled : ∀ a ∈ s.orders.rows, a.clientIntentId.base = base → endedWithoutFill a = true)
    (hdigest : ∀ k < n, ∀ a ∈ s.orders.rows, a.clientOrderId = makeClientOrderId cfg.textLib
      cfg.clientOrderIdPrefix ⟨base, k⟩ → a.clientIntentId = ⟨base, k⟩) :
    ∃ iid o s₁, Placed cfg s s₁ (intentOf iid) o ∧ submits h' = (o, rules) :: submits h ∧
      o.requestedQuantity = rules.roundQty (intentOf iid).quantity := by
  cases hrun with
  | exhausted ht => exact absurd (le_length_endedAttempts ht) (Nat.not_le.2 hfew)
  | @chosen iid h₁ _ _ _ hc hh hsub =>
    have hfresh : s.getOrderByIntent iid = none := by
      cases hc with
      | fresh _ _ hnone => exact hnone
      | standing _ _ ha hended =>
        obtain ⟨hmem, hid⟩ := Ledger.getOrderByIntent_eq_some.1 ha
        rw [hunfilled _ hmem (congrArg IntentId.base hid :)] at hended
        cases hended
    cases hsub with
    | standing ha =>
      rw [hid, hfresh] at ha
      cases ha
    | @refused _ _ x _ hx =>
      rw [hid] at hx
      obtain ⟨hmem, hxc⟩ := Ledger.getOrder_eq_some.1 hx
      have hxid : x.clientIntentId = iid := by
        cases hc with
        | fresh hj => exact hdigest _ hj x hmem hxc
        | standing hj => exact hdigest _ hj x hmem hxc
      exact absurd hxid (Ledger.getOrderByIntent_eq_none.1 hfresh x hmem)
    | @sent o s₁ _ _ _ hp hq _ _ hsent =>
      exact ⟨iid, o, s₁, hp, hsent.trans (congrArg _ hh.2), hq⟩

theorem ends_exit {purpose : OrderPurpose} {refPrice : ℚ} {r : Except Exn Action} (hs : s.Paired)
    (hidle : s.nonTerminalOrders cfg.bot cfg.symbol = [])
    (htrade : rules.isTradeable (rules.roundQty (s.getPosition cfg.bot cfg.symbol).quantity)
      refPrice = true)
    (hrun : Proc.Ends ans (exit cfg purpose rules refPrice) h s r h' s') :
    ∃ h₁ r₁ h₂ s₂, Onward h h₁ ∧ Onward h₂ h' ∧
      Attempted cfg rules (positionBase cfg (s.getPosition cfg.bot cfg.symbol) purpose)
        (maxAttempts purpose) (fun iid => newIntent cfg iid purpose .sell
          (rules.roundQty (s.getPosition cfg.bot cfg.symbol).quantity) refPrice none .market none
          none) h₁ s r₁ h₂ s₂ := by
  rcases (Proc.ends_bind _ _ _).1 hrun with ⟨x, h₁, s₁, hq, hrun⟩ | ⟨e, hq, -⟩
  swap
  · obtain ⟨hx, -⟩ := (ends_query _ _ _).1 hq
    cases hx
  obtain ⟨hx, rfl, rfl⟩ := (ends_query _ _ _).1 hq
  obtain rfl := Except.ok.inj hx
  rw [hidle] at hrun
  rcases (Proc.ends_bind _ _ _).1 hrun with ⟨ok, h₂, s₂, hcancel, hrun⟩ | ⟨e, hcancel, -⟩
  swap
  · obtain ⟨hok, -⟩ := (Proc.ends_pure _ _).1 hcancel
    cases hok
  obtain ⟨hok, rfl, rfl⟩ := (Proc.ends_pure _ _).1 hcancel
  obtain rfl := Except.ok.inj hok
  rw [if_pos rfl] at hrun
  rcases (Proc.ends_bind _ _ _).1 hrun with ⟨p, h₃, s₃, hp, hrun⟩ | ⟨e, hp, -⟩
  swap
  · obtain ⟨hpos, -⟩ := (ends_query _ _ _).1 hp
    cases hpos
  obtain ⟨hpos, rfl, rfl⟩ := (ends_query _ _ _).1 hp
  obtain rfl := Except.ok.inj hpos
  dsimp only at hrun
  rw [if_neg (by rw [htrade]; exact Bool.false_ne_true)] at hrun
  have hh : Onward h (.step .query :: .step .query :: h) := (Onward.rfl.step _).step _
  rcases (Proc.ends_bind _ _ _).1 hrun with ⟨o, h₄, s₄, hsub, hrun⟩ | ⟨e, hsub, -⟩
  swap
  · exact ⟨_, _, _, _, hh, .rfl, ends_submit hs hsub⟩
  refine ⟨_, _, _, _, hh, ?_, ends_submit hs hsub⟩
  cases o with
  | none =>
    obtain ⟨-, rfl, -⟩ := (Proc.ends_pure _ _).1 hrun
    exact .rfl
  | some o =>
    have hP := silent_resolves cfg ans
    exact ((hP.seq (hP.read _ _) fun _ => hP.ite (hP.pure _) (hP.pure _) :
      Silent ans _ _).ends hrun).1

/-- An exit sells the position: when no order of the bot is open, the rounded quantity is tradeable,
attempts are left and none of them has executed anything, `_exit` hands exactly one order to the
executor, a sell of the rounded position, whatever is answered. Of the digests it needs that those
of the attempts are no other order's. -/
theorem exit_sells (hs : Reachable cfg s) {purpose : OrderPurpose} {refPrice : ℚ} {base : IntentBase}
    (hbase : base = positionBase cfg (s.getPosition cfg.bot cfg.symbol) purpose)
    (hidle : s.nonTerminalOrders cfg.bot cfg.symbol = [])
    (htrade : rules.isTradeable (rules.roundQty (s.getPosition cfg.bot cfg.symbol).quantity)
      refPrice = true)
    (hfew : (endedAttempts s base).length < maxAttempts purpose)
    (hunfilled : ∀ a ∈ s.orders.rows, a.clientIntentId.base = base →
      a.status ≠ .filled ∧ a.executedQuantity = 0)
    (hdigest : ∀ k < maxAttempts purpose, ∀ a ∈ s.orders.rows, a.clientOrderId =
      makeClientOrderId cfg.textLib cfg.clientOrderIdPrefix ⟨base, k⟩ → a.clientIntentId = ⟨base, k⟩)
    (env : Prog.Env Label Ans) :
    ∃ o, submits (Prog.run env (exit cfg purpose rules refPrice).run [] s).2.1 = [(o, rules)] ∧
      o.side = .sell ∧ o.purpose = purpose ∧
      o.requestedQuantity = rules.roundQty (s.getPosition cfg.bot cfg.symbol).quantity := by
  subst hbase
  have hended : ∀ a ∈ s.orders.rows, a.clientIntentId.base =
      positionBase cfg (s.getPosition cfg.bot cfg.symbol) purpose → endedWithoutFill a = true := by
    intro a ha hbase
    obtain ⟨hstatus, hzero⟩ := hunfilled a ha hbase
    have hterminal : a.isTerminal = true := by
      by_contra hopen
      have hmem : a ∈ s.nonTerminalOrders cfg.bot cfg.symbol := by
        refine Ledger.mem_nonTerminalOrders.2 ⟨ha, ?_, ?_, Bool.eq_false_iff.2 hopen⟩
        · rw [hs.paired.bot a ha, hbase]
          rfl
        · rw [hs.paired.symbol a ha, hbase]
          rfl
      rw [hidle] at hmem
      cases hmem
    refine endedWithoutFill_iff.2 ⟨?_, hzero⟩
    unfold Order.isTerminal at hterminal
    revert hterminal hstatus
    cases a.status <;> decide
  obtain ⟨h₁, r₁, h₂, s₂, hh₁, hh₂, hattempt⟩ :=
    ends_exit hs.paired hidle htrade (Proc.ends_run env (exit cfg purpose rules refPrice) [] s)
  obtain ⟨iid, o, s₁, hp, hsent, hq⟩ := hattempt.sent (fun _ => rfl) hfew hended hdigest
  refine ⟨o, ?_, hp.side, hp.purpose, hq.trans (SymbolRules.roundQty_roundQty _)⟩
  rw [hh₂.2, hsent, hh₁.2]
  rfl

end

/-! ### Half an exit -/

/-- An exchange that fills the sample entry, and half of the first exit and of the stop before they
end. -/
def halvingExchange : (r : Req) → Except Exn r.Val
  | .submit o _ =>
    let half (id : IntentId) (status : OrderStatus) : SubmitOutcome :=
      { kind := .acknowledged
        report := some { sampleReport id .sell status 1 with exchangeOrderId := some "4712" }
        fills := [{ sampleFill id .sell "2" 1 with exchangeOrderId := some "4712" }] }
    if o.clientOrderId = sampleClientOrderId sampleEntry then
      .ok { kind := .acknowledged, report := some (sampleReport sampleEntry .buy .filled 2)
            fills := [sampleFill sampleEntry .buy "1" 2] }
    else if o.clientOrderId = sampleClientOrderId (sampleExit 0) then
      .ok (half (sampleExit 0) .expired)
    else .ok (half sampleStop .canceled)
  | r => listing (.ok []) r

/-- One process runs a program against that exchange, in a market where the strategy says `a`. -/
def halving (P : Pool Unit Ledger Label Ans) (p : Prog Ledger Label Ans PUnit) (a : SignalAction) :
    Pool Unit Ledger Label Ans :=
  (P.restart () p).go (exchangeEnv (marketAnswers a halvingExchange)) () 200

/-- A clean reconciliation and a cycle that enters, under the configuration `cfg`. -/
def enteredPool (cfg : Config) : Pool Unit Ledger Label Ans :=
  halving (halving (.idle {}) (ReconciliationService.run cfg "startup" false).run.forget .hold)
    (runOnce cfg).run.forget .buy

theorem reachable_halving {cfg : Config} {P : Pool Unit Ledger Label Ans}
    {p : Prog Ledger Label Ans PUnit} {a : SignalAction}
    (hrun : Pool.Run (EngineProgram cfg fun _ => True) (fun _ _ => True) (.idle {}) P)
    (hp : EngineProgram cfg (fun _ => True) p) :
    Pool.Run (EngineProgram cfg fun _ => True) (fun _ _ => True) (.idle {}) (halving P p a) :=
  hrun.trans ((Pool.run_restart () hp trivial).trans (Pool.run_go_any _ _ _ _))

theorem entered_run (cfg : Config) :
    Pool.Run (EngineProgram cfg fun _ => True) (fun _ _ => True) (.idle {}) (enteredPool cfg) :=
  reachable_halving (reachable_halving .refl (.run _ _)) .runOnce

/-- The ledger after an exit of which one half has executed before it expired. -/
def halfSold : Ledger :=
  (halving (enteredPool sampleConfig) (runOnce sampleConfig).run.forget .sell).state

/-- The symbol rules of the sample market. -/
def sampleRules : SymbolRules :=
  { symbol := ⟨"BTC", "USDT"⟩, baseAsset := "BTC", quoteAsset := "USDT" }

/-- The rest of the position is open and tradeable, nothing is in flight and no attempt has ended
without a fill; yet an exit sends nothing, since the half-executed one stands. -/
theorem half_exit_not_retried :
    Reachable sampleConfig halfSold ∧
    halfSold.orders.rows.map (fun o => (o.clientIntentId, o.status, o.executedQuantity)) =
      [(sampleEntry, .filled, 2), (sampleExit 0, .expired, 1)] ∧
    (halfSold.getPosition "default" ⟨"BTC", "USDT"⟩).isOpen sampleRules = true ∧
    sampleRules.isTradeable
      (sampleRules.roundQty (halfSold.getPosition "default" ⟨"BTC", "USDT"⟩).quantity) 100 = true ∧
    halfSold.nonTerminalOrders "default" ⟨"BTC", "USDT"⟩ = [] ∧
    endedAttempts halfSold (positionBase sampleConfig
      (halfSold.getPosition "default" ⟨"BTC", "USDT"⟩) .exit) = [] ∧
    submits (Prog.run (exchangeEnv (marketAnswers .sell halvingExchange))
      (exit sampleConfig .exit sampleRules 100).run [] halfSold).2.1 = [] := by
  refine ⟨⟨Unit, inferInstance, _, reachable_halving (entered_run _) .runOnce, rfl⟩, ?_⟩
  decide +kernel

/-- After the entry an exit sells all of it. -/
theorem entered_exit_sells :
    ∃ o, submits (Prog.run (exchangeEnv (marketAnswers .sell halvingExchange))
        (exit sampleConfig .exit sampleRules 100).run [] (enteredPool sampleConfig).state).2.1 =
      [(o, sampleRules)] ∧ o.side = .sell ∧ o.purpose = .exit ∧ o.requestedQuantity = 2 := by
  have hquantity : sampleRules.roundQty
      ((enteredPool sampleConfig).state.getPosition "default" ⟨"BTC", "USDT"⟩).quantity = 2 := by
    decide +kernel
  have hreachable : Reachable sampleConfig (enteredPool sampleConfig).state :=
    ⟨Unit, inferInstance, _, entered_run _, rfl⟩
  rw [← hquantity]
  exact exit_sells hreachable rfl (by decide +kernel) (by decide +kernel) (by decide +kernel)
    (by decide +kernel) (by decide +kernel) _

end CryptoBot
