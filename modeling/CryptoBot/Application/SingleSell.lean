import CryptoBot.Application.Gating
import CryptoBot.Application.Retries
import CryptoBot.Lib.Disturbed
import CryptoBot.Workers.StateRow

/-!
# One live sell at a time

A cycle sells in three places, each behind a check of its own: an exit after every resting stop has
been cancelled, a protective stop when none is resting, and both only when nothing else is in
flight. Between a check and the order that follows it the reconciliation worker may apply reports
and record executions of the same orders. It places none, so that an order it touches can only
close: what a check has excluded stays excluded.
-/

namespace CryptoBot

open Lib OrderService TradingCycle

/-! ## What happens elsewhere -/

/-- What the reconciliation worker does to the ledger while a cycle is under way: it applies a
report, records an execution, takes an event of the stream, rejects an order that the exchange does
not know, or leaves intents and orders alone. -/
inductive Elsewhere (cfg : Config) : Ledger → Ledger → Prop
  | report {s s' r now out} (h : applyReportTx cfg r now s = .ok (out, s')) : Elsewhere cfg s s'
  | fill {s s' xf now b} (h : ingestFillTx cfg xf now s = .ok (b, s')) : Elsewhere cfg s s'
  | event {s s' key r xf now out}
      (h : StreamIngestionService.handleTx cfg key r xf now s = .ok (out, s')) : Elsewhere cfg s s'
  | reject {s s' c reason now} (h : rejectTx c reason now s = .ok (⟨⟩, s')) : Elsewhere cfg s s'
  | keep {s s'} (hi : s'.intents = s.intents) (ho : s'.orders = s.orders) : Elsewhere cfg s s'

section
variable {cfg : Config} {s s' s'' : Ledger}

/-! ## Orders that only close -/

/-- Every order of the bot on its symbol that is open afterwards was open before. -/
def Closing (cfg : Config) (s s' : Ledger) : Prop :=
  ∀ x' ∈ s'.nonTerminalOrders cfg.bot cfg.symbol,
    ∃ x ∈ s.nonTerminalOrders cfg.bot cfg.symbol, Order.Same x x'

namespace Closing

theorem rfl : Closing cfg s s := fun x hx => ⟨x, hx, .rfl⟩

theorem trans (h : Closing cfg s s') (h' : Closing cfg s' s'') : Closing cfg s s'' := by
  intro x'' hx''
  obtain ⟨x', hx', hsame'⟩ := h' x'' hx''
  obtain ⟨x, hx, hsame⟩ := h x' hx'
  exact ⟨x, hx, hsame.trans hsame'⟩

theorem of_orders (h : s'.orders = s.orders) : Closing cfg s s' := by
  intro x hx
  rw [Ledger.mem_nonTerminalOrders, h] at hx
  exact ⟨x, Ledger.mem_nonTerminalOrders.2 hx, .rfl⟩

end Closing

/-- Exchange data opens no order. -/
theorem ExchangeMove.closing (h : ExchangeMove cfg s s') : Closing cfg s s' := by
  induction h with
  | keep h => exact .of_orders (congrArg Ledger.orders h :)
  | @change s s' o o' hc hr =>
    intro x' hx'
    obtain ⟨hmem, hbot, hsymbol, hopen⟩ := Ledger.mem_nonTerminalOrders.1 hx'
    rcases hr.mem_iff.1 hmem with rfl | ⟨hmem, -⟩
    · refine ⟨o, Ledger.mem_nonTerminalOrders.2 ⟨hr.mem, ?_, ?_, ?_⟩, hr.same⟩
      · exact hr.same.bot.symm.trans hbot
      · exact hr.same.symbol.symm.trans hsymbol
      · rw [Bool.eq_false_iff] at hopen ⊢
        exact fun ho => hopen (hc.terminal ho)
    · exact ⟨x', Ledger.mem_nonTerminalOrders.2 ⟨hmem, hbot, hsymbol, hopen⟩, .rfl⟩
  | fill h => exact .of_orders (congrArg Ledger.orders h.rest :)
  | seq _ _ ih ih' => exact ih.trans ih'

theorem Elsewhere.closing (h : Elsewhere cfg s s') : Closing cfg s s' := by
  cases h with
  | report h => exact (applyReportTx_move h).closing
  | fill h => exact .of_orders (ingestFillTx_orders h)
  | event h => exact (handleTx_move h).closing
  | reject h => exact (rejectTx_move h : ExchangeMove cfg _ _).closing
  | keep _ ho => exact .of_orders ho

/-- What submits nothing takes only such steps. -/
theorem elsewhere_resolves (cfg : Config) : Resolves cfg (fun _ => True)
    fun (α : Type) (p : Prog Ledger Label Ans α) => p.Within fun _ => Elsewhere cfg := by
  have hP : Handles cfg (fun _ => True)
      fun (α : Type) (p : Prog Ledger Label Ans α) => p.Within fun _ => Elsewhere cfg :=
    { done := fun _ => trivial
      bind := fun hp hg => hp.bind hg
      read := fun _ _ => query_within fun _ => .keep rfl rfl
      ambient := fun _ _ => Proc.within_ask _ _
      call := fun r _ _ hk a => hk a (heard_true r a)
      keep := fun _ => fun ht => transaction_within (fun _ => .keep rfl rfl)
        fun s a s' h => .keep (ht s a s' h).1 (ht s a s' h).2
      report := fun _ _ _ => transaction_within (fun _ => .keep rfl rfl) fun _ _ _ h => .report h
      event := fun _ _ _ _ _ => transaction_within (fun _ => .keep rfl rfl)
        fun _ _ _ h => .event h }
  exact ⟨hP, fun o => hP.resolveAmbiguous (hP.seq hP.now fun _ => hP.ite (hP.pure _)
    (hP.seq (transaction_within (fun _ => .keep rfl rfl) fun _ _ _ h => .reject h)
      fun _ => hP.pure _))⟩

/-! ## The contract of the trading worker -/

/-- A sell may be sent where no other sell is open. -/
def SoleSell (cfg : Config) (s : Ledger) (o : Order) : Prop :=
  o.side = .sell → ∀ x ∈ s.nonTerminalOrders cfg.bot cfg.symbol, x.side = .sell →
    x.clientOrderId = o.clientOrderId

/-- The others open no order, and a sell that the worker sends is the only one that is open. -/
def sellContract (cfg : Config) : Contract Ledger Label Ans where
  rely _ s s' := Closing cfg s s'
  ans _ _ _ _ := True
  step _ _ _ _ := True
  guard _ q s := ∀ o rules, q = .call (.submit o rules) → SoleSell cfg s o

theorem sellContract_stable (cfg : Config) : (sellContract cfg).Stable fun _ => True :=
  ⟨fun _ _ _ => .rfl, fun h h' => h.trans h'⟩

/-- A condition that outlasts the closing of orders. -/
def Outlasts (cfg : Config) (I : Ledger → Prop) : Prop :=
  ∀ {s s'}, I s → Closing cfg s s' → I s'

theorem sellContract_silent {h : History Label Ans} {q : Request} (hq : q.isSubmit = false) :
    (sellContract cfg).guard h q s := by
  rintro o rules rfl
  cases hq

/-- The program keeps `I` under the contract. -/
abbrev SellKeeps (cfg : Config) (I : Ledger → Prop) (α : Type)
    (p : Prog Ledger Label Ans α) : Prop :=
  ∀ h s, I s → p.wp (sellContract cfg) (fun _ _ s => I s) h s

section
variable {I : Ledger → Prop} {α : Type}

theorem sellKeeps_transaction (hI : Outlasts cfg I) {l : Label} {t : Tx α}
    (ht : ∀ s a s', t s = .ok (a, s') → Closing cfg s s') :
    SellKeeps cfg I _ (transaction l t).run :=
  fun _ _ hs => wp_transaction fun s' hr =>
    ⟨fun a s'' h => ⟨trivial, hI (hI hs hr) (ht s' a s'' h)⟩, fun _ _ => ⟨trivial, hI hs hr⟩⟩

theorem sellKeeps_call (hI : Outlasts cfg I) {q : Request} {k : Ans q → Prog Ledger Label Ans α}
    (hq : q.isSubmit = false) (hk : ∀ a, SellKeeps cfg I _ (k a)) :
    SellKeeps cfg I _ (.call q k) :=
  fun _ _ hs s' hr => ⟨sellContract_silent hq, fun a _ => hk a _ s' (hI hs hr)⟩

theorem sellKeeps_reject (hI : Outlasts cfg I) {c reason : String} {now : Time} :
    SellKeeps cfg I _ (transaction .commit (rejectTx c reason now)).run :=
  sellKeeps_transaction hI fun _ _ _ h => (rejectTx_move h : ExchangeMove cfg _ _).closing

theorem sellKeeps_flag (hI : Outlasts cfg I) {c error : String} {now : Time} :
    SellKeeps cfg I _ (transaction .commit (flagAmbiguousTx cfg c error now)).run :=
  sellKeeps_transaction hI fun _ _ _ h => (flagAmbiguousTx_move h).closing

/-- What submits nothing keeps every condition that outlasts the closing of orders. -/
theorem sellKeeps_resolves (hI : Outlasts cfg I) :
    Resolves cfg (fun _ => True) (SellKeeps cfg I) := by
  have hP : Handles cfg (fun _ => True) (SellKeeps cfg I) :=
    { toSequenced := Sequenced.keeps _ fun _ s => I s
      read := fun l _ h s hs => (wp_query l _).2 fun s' hr => ⟨trivial, hI hs hr⟩
      ambient := fun _ _ => sellKeeps_call hI rfl fun _ _ _ hs => hs
      call := fun r _ hr hk => sellKeeps_call hI hr fun a => hk a (heard_true r a)
      keep := fun _ => fun ht => sellKeeps_transaction hI fun s a s' h =>
        .of_orders (ht s a s' h).2
      report := fun _ _ _ => sellKeeps_transaction hI fun _ _ _ h => (applyReportTx_move h).closing
      event := fun _ _ _ _ _ => sellKeeps_transaction hI fun _ _ _ h =>
        (handleTx_move h).closing }
  exact ⟨hP, fun o => hP.resolveAmbiguous (hP.seq hP.now fun _ => hP.ite (hP.pure _)
    (hP.seq (sellKeeps_reject hI) fun _ => hP.pure _))⟩

end

/-! ## Cancelling the resting stops -/

/-- No order of the bot that is open has this client order id. -/
def NotOpen (cfg : Config) (c : String) (s : Ledger) : Prop :=
  ∀ x ∈ s.nonTerminalOrders cfg.bot cfg.symbol, x.clientOrderId ≠ c

theorem outlasts_notOpen (c : String) : Outlasts cfg (NotOpen cfg c) := by
  intro s s' hs hclosing x' hx'
  obtain ⟨x, hx, hsame⟩ := hclosing x' hx'
  rw [hsame.clientOrderId]
  exact hs x hx

theorem Outlasts.and {I J : Ledger → Prop} (hI : Outlasts cfg I) (hJ : Outlasts cfg J) :
    Outlasts cfg fun s => I s ∧ J s := fun hs hclosing => ⟨hI hs.1 hclosing, hJ hs.2 hclosing⟩

theorem notOpen_of_isTerminal {c : String} {x : Order} (hx : s.getOrder c = some x)
    (hterminal : x.isTerminal) : NotOpen cfg c s := by
  obtain ⟨hmem, hc⟩ := Ledger.getOrder_eq_some.1 hx
  intro y hy hyc
  obtain ⟨hy, -, -, hopen⟩ := Ledger.mem_nonTerminalOrders.1 hy
  rw [Ledger.eq_of_clientOrderId hy hmem (hyc.trans hc.symm), hterminal] at hopen
  cases hopen

/-- The program keeps `I` and returns the row of an order: one that is terminal is not open. -/
def LooksUp (cfg : Config) (I : Ledger → Prop) (c : String) (p : Engine (Option Order)) : Prop :=
  ∀ h s, I s → Proc.wp (sellContract cfg) p
    (fun r _ s' => I s' ∧ ∀ x, r = .ok (some x) → x.isTerminal → NotOpen cfg c s') h s

section
variable {I : Ledger → Prop} {c : String}

theorem looksUp_query (hI : Outlasts cfg I) : LooksUp cfg I c (query .query (·.getOrder c)) := by
  refine fun h s hs => (wp_query _ _).2 fun s' hr => ⟨trivial, hI hs hr, fun x hx => ?_⟩
  exact notOpen_of_isTerminal (Except.ok.inj hx)

theorem looksUp_throw (e : Exn) : LooksUp cfg I c (throw e) :=
  fun _ _ hs => ⟨hs, fun x hx => by cases hx⟩

theorem LooksUp.after {α : Type} {p : Engine α} {g : α → Engine (Option Order)}
    (hp : SellKeeps cfg I _ p.run) (hg : ∀ a, LooksUp cfg I c (g a)) :
    LooksUp cfg I c (p >>= g) := by
  refine fun h s hs => (Proc.wp_bind _ _ _ _ _).2 (Proc.wp_mono (hp h s hs) fun r h' s' hs' => ?_)
  cases r with
  | ok a => exact hg a h' s' hs'
  | error e => exact ⟨hs', fun x hx => by cases hx⟩

theorem looksUp_refresh (hI : Outlasts cfg I) (o : Order) :
    LooksUp cfg I o.clientOrderId (refresh cfg o) := by
  have hP := sellKeeps_resolves hI
  have hrest : LooksUp cfg I o.clientOrderId (do
      let fresh ← query .query (·.getOrder o.clientOrderId)
      ingestOrderFills cfg fresh
      query .query (·.getOrder o.clientOrderId)) :=
    .after (hP.read _ _) fun _ => .after hP.ingestOrderFills fun _ => looksUp_query hI
  refine .after (hP.call (.queryOrder o) _ rfl fun _ _ => hP.done _) fun report => ?_
  cases report with
  | none => exact hrest
  | some r => exact .after (hP.applyReport trivial) fun _ => hrest

/-- Whatever a cancel comes to, an order it returns as terminal stays out of the open ones. -/
theorem looksUp_cancel (hI : Outlasts cfg I) (o : Order) :
    LooksUp cfg I o.clientOrderId (cancel cfg o) := by
  have hP := sellKeeps_resolves hI
  have hrest : LooksUp cfg I o.clientOrderId (lookAgain cfg o) := by
    refine fun h s hs => (Proc.wp_bind _ _ _ _ _).2 ((Proc.wp_attempt _ _ _ _).2
      (Proc.wp_mono (looksUp_refresh hI o h s hs) fun r h' s' hs' => ?_))
    rcases r with e | fresh
    · cases e with
      | orderConflict m => exact looksUp_throw _ h' s' hs'.1
      | _ => exact looksUp_query hI h' s' hs'.1
    · refine ⟨hs'.1, fun x hx => hs'.2 x ?_⟩
      cases hx
      rfl
  refine .after (hP.call (.cancel o) _ rfl fun _ _ => hP.done _) fun out => ?_
  dsimp only
  split
  · exact .after (hP.applyReport trivial) fun _ => hrest
  · exact hrest

end

/-- When the cancels are confirmed, none of the stops is open any longer. -/
theorem wp_cancelStops (os : List Order) {I : Ledger → Prop} (hI : Outlasts cfg I)
    {h : History Label Ans} (hs : I s) :
    Proc.wp (sellContract cfg) (cancelStops cfg os) (fun r _ s' => I s' ∧ (r = .ok true →
      ∀ o ∈ os, o.purpose = .protectiveStop → NotOpen cfg o.clientOrderId s')) h s := by
  induction os generalizing I h s with
  | nil => exact ⟨hs, fun _ o ho => absurd ho List.not_mem_nil⟩
  | cons o os ih =>
    refine (Proc.wp_ite _ _ _ _ _ _).2 ?_
    split
    · refine (Proc.wp_bind _ _ _ _ _).2 (Proc.wp_mono (looksUp_cancel hI o h s hs) ?_)
      rintro (e | _ | x) h₁ s₁ ⟨hs₁, hx⟩
      · exact ⟨hs₁, fun hr => by cases hr⟩
      · exact ⟨hs₁, fun hr => by cases hr⟩
      · refine (Proc.wp_ite _ _ _ _ _ _).2 ?_
        split
        · next hterminal =>
          refine Proc.wp_mono (ih (hI.and (outlasts_notOpen o.clientOrderId))
            ⟨hs₁, hx x rfl hterminal⟩) ?_
          rintro r h₂ s₂ ⟨⟨hs₂, hnot⟩, hrest⟩
          refine ⟨hs₂, fun hr => List.forall_mem_cons.2 ⟨fun _ => hnot, hrest hr⟩⟩
        · exact ⟨hs₁, fun hr => by cases hr⟩
    · next hpurpose =>
      refine Proc.wp_mono (ih hI hs) ?_
      rintro r h₁ s₁ ⟨hs₁, hrest⟩
      exact ⟨hs₁, fun hr => List.forall_mem_cons.2 ⟨fun ho => absurd ho hpurpose, hrest hr⟩⟩

/-! ## Submissions -/

/-- Every order that is open afterwards is of this side, or was open before. -/
def OpeningOnly (cfg : Config) (side : OrderSide) (s s' : Ledger) : Prop :=
  ∀ x' ∈ s'.nonTerminalOrders cfg.bot cfg.symbol,
    x'.side = side ∨ ∃ x ∈ s.nonTerminalOrders cfg.bot cfg.symbol, Order.Same x x'

theorem outlasts_openingOnly {side : OrderSide} : Outlasts cfg (OpeningOnly cfg side s) := by
  intro s₁ s₂ hs hclosing x'' hx''
  obtain ⟨x', hx', hsame'⟩ := hclosing x'' hx''
  rcases hs x' hx' with hside | ⟨x, hx, hsame⟩
  · exact .inl (hsame'.side.trans hside)
  · exact .inr ⟨x, hx, hsame.trans hsame'⟩

theorem Closing.openingOnly {side : OrderSide} (h : Closing cfg s s') : OpeningOnly cfg side s s' :=
  fun x hx => .inr (h x hx)

/-- No sell of the bot is open. -/
def NoSell (cfg : Config) (s : Ledger) : Prop :=
  ∀ x ∈ s.nonTerminalOrders cfg.bot cfg.symbol, x.side ≠ .sell

theorem outlasts_noSell : Outlasts cfg (NoSell cfg) := by
  intro s s' hs hclosing x' hx'
  obtain ⟨x, hx, hsame⟩ := hclosing x' hx'
  rw [hsame.side]
  exact hs x hx

theorem Placed.side {intent : OrderIntent} {o : Order} (h : Placed cfg s s' intent o) :
    o.side = intent.side := by
  obtain ⟨rules, now, o₀, hmark, rfl⟩ := h.row
  cases hmark
  rfl

/-- Placing an order opens no other. -/
theorem Placed.open_cases {intent : OrderIntent} {o x : Order} (h : Placed cfg s s' intent o)
    (hx : x ∈ s'.nonTerminalOrders cfg.bot cfg.symbol) :
    x = o ∨ x ∈ s.nonTerminalOrders cfg.bot cfg.symbol := by
  obtain ⟨hmem, hrest⟩ := Ledger.mem_nonTerminalOrders.1 hx
  rw [h.rows] at hmem
  rcases List.mem_append.1 hmem with hmem | hmem
  · exact .inr (Ledger.mem_nonTerminalOrders.2 ⟨hmem, hrest⟩)
  · exact .inl (List.mem_singleton.1 hmem)

/-- A sell that has just been placed where no sell was open is the only one, and still is after the
others have closed some orders. -/
theorem Placed.soleSell {intent : OrderIntent} {o : Order} (h : Placed cfg s s' intent o)
    (hfree : intent.side = .sell → NoSell cfg s) (hclosing : Closing cfg s' s'') :
    SoleSell cfg s'' o := by
  intro hside x'' hx'' hsell
  obtain ⟨x', hx', hsame⟩ := hclosing x'' hx''
  rcases h.open_cases hx' with rfl | hx
  · exact hsame.clientOrderId
  · exact absurd (hsame.side.symm.trans hsell) (hfree (h.side.symm.trans hside) x' hx)

variable {h : History Label Ans} {rules : SymbolRules}

/-- A submission opens no order but its own; a sell needs that no sell is open. -/
theorem wp_submitIntent_sell {intent : OrderIntent} (hfree : intent.side = .sell → NoSell cfg s) :
    Proc.wp (sellContract cfg) (submitIntent cfg intent rules)
      (fun _ _ s' => OpeningOnly cfg intent.side s s') h s := by
  refine (Proc.wp_bind _ _ _ _ _).2 ((wp_query _ _).2 fun s₁ hs₁ => ⟨trivial, ?_⟩)
  dsimp only
  cases s₁.getOrderByIntent intent.clientIntentId with
  | some existing => exact Closing.openingOnly hs₁
  | none =>
    refine (Proc.wp_bind _ _ _ _ _).2 ((wp_clockNow _).2 fun s₂ hs₂ =>
      ⟨sellContract_silent rfl, fun now _ => ?_⟩)
    have hclosing₂ := Closing.trans hs₁ hs₂
    dsimp only
    cases ho : (newOrder cfg intent rules).markSubmitting now with
    | error message => exact hclosing₂.openingOnly
    | ok o₀ =>
      refine (Proc.wp_bind _ _ _ _ _).2 (wp_transaction fun s₃ hs₃ => ⟨fun res s₄ htx =>
        ⟨trivial, ?_⟩, fun _ _ => ⟨trivial, (hclosing₂.trans hs₃).openingOnly⟩⟩)
      have hclosing₃ := hclosing₂.trans hs₃
      rcases persistTx_cases ho htx with ⟨rfl, rfl, -⟩ | ⟨o, rfl, hp⟩
      · exact hclosing₃.openingOnly
      · have hopening : OpeningOnly cfg intent.side s s₄ := by
          intro x hx
          rcases hp.open_cases hx with rfl | hx
          · exact .inl hp.side
          · exact .inr (hclosing₃ x hx)
        have hI : Outlasts cfg (OpeningOnly cfg intent.side s) := outlasts_openingOnly
        have hP := sellKeeps_resolves hI
        refine (Proc.wp_bind _ _ _ _ _).2 ((Proc.wp_attempt _ _ _ _).2
          ((wp_call _ _).2 fun s₅ hs₅ => ⟨?_, fun a _ => ?_⟩))
        · rintro _ _ ⟨⟩
          exact hp.soleSell (fun hside => outlasts_noSell (hfree hside) hclosing₃) hs₅
        · have hsettle (out : SubmitOutcome) : SellKeeps cfg _ _ (settle cfg o out).run :=
            hP.settle hP.resolve (fun _ _ => trivial) (fun _ _ _ => sellKeeps_reject hI)
              fun _ _ => sellKeeps_flag hI
          have hs₅' := hI hopening hs₅
          cases a with
          | error e => exact (hP.seq (hsettle _) fun _ => hP.read _ _) _ _ hs₅'
          | ok out => exact (hP.seq (hsettle _) fun _ => hP.read _ _) _ _ hs₅'

theorem wp_submit_sell {purpose : OrderPurpose} {side : OrderSide} {qty refPrice : ℚ}
    {base : IntentBase} {signalId : Option SignalId} {orderType : OrderType}
    {limit stop : Option ℚ} (hfree : side = .sell → NoSell cfg s) :
    Proc.wp (sellContract cfg)
      (submit cfg purpose side qty rules refPrice base signalId orderType limit stop)
      (fun _ _ s' => OpeningOnly cfg side s s') h s := by
  have hI : Outlasts cfg fun s' => OpeningOnly cfg side s s' ∧ (side = .sell → NoSell cfg s') :=
    fun hs hclosing => ⟨outlasts_openingOnly hs.1 hclosing,
      fun hside => outlasts_noSell (hs.2 hside) hclosing⟩
  have hP := sellKeeps_resolves hI
  refine (Proc.wp_bind _ _ _ _ _).2
    (Proc.wp_mono (hP.nextIntentId h s ⟨Closing.rfl.openingOnly, hfree⟩) ?_)
  rintro (e | _ | iid) h₁ s₁ ⟨hopening, hfree₁⟩
  · exact hopening
  · refine Proc.wp_mono ((hP.seq hP.now fun _ => hP.seq (hP.enqueue _) fun _ =>
      hP.seq (hP.enqueue _) fun _ => hP.pure _) h₁ s₁ ⟨hopening, hfree₁⟩) ?_
    exact fun _ _ _ hs => hs.1
  · refine Proc.wp_mono (wp_submitIntent_sell hfree₁) fun _ _ s₂ hs₂ x₂ hx₂ => ?_
    rcases hs₂ x₂ hx₂ with hside | ⟨x₁, hx₁, hsame₁⟩
    · exact .inl hside
    · rcases hopening x₁ hx₁ with hside | ⟨x, hx, hsame⟩
      · exact .inl (hsame₁.side.trans hside)
      · exact .inr ⟨x, hx, hsame.trans hsame₁⟩

/-! ## The decision -/

/-- The program is one the worker may run where `I` holds. -/
abbrev MayRun (cfg : Config) (I : Ledger → Prop) {α : Type} (p : Engine α) : Prop :=
  ∀ h s, I s → Proc.wp (sellContract cfg) p (fun _ _ _ => True) h s

/-- What keeps a condition may run before anything that may run under it. -/
theorem MayRun.after {I : Ledger → Prop} {α β : Type} {p : Engine α} {g : α → Engine β}
    (hp : SellKeeps cfg I _ p.run) (hg : ∀ a, MayRun cfg I (g a)) : MayRun cfg I (p >>= g) := by
  refine fun h s hs => (Proc.wp_bind _ _ _ _ _).2 (Proc.wp_mono (hp h s hs) fun r h' s' hs' => ?_)
  cases r with
  | ok a => exact hg a h' s' hs'
  | error e => trivial

theorem MayRun.ite {I : Ledger → Prop} {c : Prop} [Decidable c] {α : Type} {p p' : Engine α}
    (hp : MayRun cfg I p) (hp' : MayRun cfg I p') : MayRun cfg I (if c then p else p') := by
  split <;> assumption

theorem MayRun.result {I : Ledger → Prop} {α β : Type} {p : Engine α} {f : α → β}
    (hp : MayRun cfg I p) : MayRun cfg I (do return f (← p)) := by
  refine fun h s hs => (Proc.wp_bind _ _ _ _ _).2 (Proc.wp_mono (hp h s hs) fun r _ _ _ => ?_)
  cases r <;> trivial

theorem mayRun_pure {I : Ledger → Prop} {α : Type} (a : α) :
    MayRun cfg I (pure a : Engine α) := fun _ _ _ => trivial

/-- Nothing is in flight but protective stops. -/
def OnlyStops (cfg : Config) (s : Ledger) : Prop :=
  ∀ x ∈ s.nonTerminalOrders cfg.bot cfg.symbol, x.purpose = .protectiveStop

/-- The open sells are protective stops. -/
def SellsAreStops (cfg : Config) (s : Ledger) : Prop :=
  ∀ x ∈ s.nonTerminalOrders cfg.bot cfg.symbol, x.side = .sell → x.purpose = .protectiveStop

theorem outlasts_onlyStops : Outlasts cfg (OnlyStops cfg) := by
  intro s s' hs hclosing x' hx'
  obtain ⟨x, hx, hsame⟩ := hclosing x' hx'
  rw [hsame.purpose]
  exact hs x hx

theorem outlasts_sellsAreStops : Outlasts cfg (SellsAreStops cfg) := by
  intro s s' hs hclosing x' hx' hside
  obtain ⟨x, hx, hsame⟩ := hclosing x' hx'
  rw [hsame.purpose]
  exact hs x hx (hsame.side.symm.trans hside)

theorem onlyStops_of_inFlight (hs : inFlight cfg s = []) : OnlyStops cfg s := by
  intro x hx
  by_contra hpurpose
  have hmem : x ∈ inFlight cfg s := List.mem_filter.2 ⟨hx, decide_eq_true hpurpose⟩
  rw [hs] at hmem
  cases hmem

/-- An exit sells after every stop it found has been closed. -/
theorem mayRun_exit {purpose : OrderPurpose} {refPrice : ℚ} :
    MayRun cfg (OnlyStops cfg) (exit cfg purpose rules refPrice) := by
  intro h s hs
  refine (Proc.wp_bind _ _ _ _ _).2 ((wp_query _ _).2 fun s₁ hs₁ => ⟨trivial, ?_⟩)
  have hstops₁ := outlasts_onlyStops hs hs₁
  refine (Proc.wp_bind _ _ _ _ _).2 (Proc.wp_mono
    (wp_cancelStops _ (I := Closing cfg s₁) (fun h h' => h.trans h') .rfl) ?_)
  rintro (e | ok) h₂ s₂ ⟨hclosing, hcancelled⟩
  · trivial
  refine (Proc.wp_ite _ _ _ _ _ _).2 ?_
  split
  · next hok =>
    -- an order that were still open would be one of the stops found
    have hnone : NoSell cfg s₂ := by
      intro x₂ hx₂ _
      obtain ⟨x₁, hx₁, hsame⟩ := hclosing x₂ hx₂
      exact hcancelled (by rw [hok]) x₁ hx₁ (hstops₁ x₁ hx₁) x₂ hx₂ hsame.clientOrderId
    refine (Proc.wp_bind _ _ _ _ _).2 ((wp_query _ _).2 fun s₃ hs₃ => ⟨trivial, ?_⟩)
    refine (Proc.wp_ite _ _ _ _ _ _).2 ?_
    split
    · trivial
    · refine (Proc.wp_bind _ _ _ _ _).2 (Proc.wp_mono
        (wp_submit_sell fun _ => outlasts_noSell hnone hs₃) ?_)
      rintro (e | _ | o) h₄ s₄ -
      · trivial
      · trivial
      · refine (Proc.wp_bind _ _ _ _ _).2 ((wp_query _ _).2 fun s₅ _ => ⟨trivial, ?_⟩)
        refine (Proc.wp_ite _ _ _ _ _ _).2 ?_
        split <;> trivial
  · trivial

/-- A protective stop is placed where none is found. -/
theorem mayRun_ensureProtectiveStop {position : Position} :
    MayRun cfg (SellsAreStops cfg) (ensureProtectiveStop cfg position rules) := by
  intro h s hs
  refine (Proc.wp_bind _ _ _ _ _).2 ((wp_query _ _).2 fun s₁ hs₁ => ⟨trivial, ?_⟩)
  dsimp only
  split
  · trivial
  · refine (Proc.wp_ite _ _ _ _ _ _).2 ?_
    split
    · trivial
    · next hany =>
      have hnone : NoSell cfg s₁ := by
        intro x hx hside
        have hpurpose := outlasts_sellsAreStops hs hs₁ x hx hside
        exact hany (List.any_eq_true.2 ⟨x, hx, decide_eq_true hpurpose⟩)
      refine (Proc.wp_ite _ _ _ _ _ _).2 ?_
      split
      · trivial
      · refine (Proc.wp_bind _ _ _ _ _).2 (Proc.wp_mono (wp_submit_sell fun _ => hnone) ?_)
        rintro (e | _ | o) h₂ s₂ - <;> trivial

theorem mayRun_manageOpen {control : Control} {snap : MarketSnapshot} {signal : Signal}
    {position : Position} :
    MayRun cfg (OnlyStops cfg) (manageOpen cfg control rules snap signal position) := by
  unfold manageOpen
  dsimp only
  split
  · exact mayRun_exit.result
  · refine .ite mayRun_exit.result (.ite ?_ (mayRun_pure _))
    exact fun h s hs => mayRun_ensureProtectiveStop.result h s fun x hx _ => hs x hx

theorem sellKeeps_setStop {I : Ledger → Prop} (hI : Outlasts cfg I) {price : ℚ} {now : Time} :
    SellKeeps cfg I _
      (transaction .commit (PositionService.setStop cfg.bot cfg.symbol price now)).run :=
  (sellKeeps_resolves hI).keep _ (.bind .get fun _ => Store.savePosition_keeps)

theorem mayRun_protectEntry {o : Order} :
    MayRun cfg (SellsAreStops cfg) (protectEntry cfg rules o) := by
  have hI : Outlasts cfg (SellsAreStops cfg) := outlasts_sellsAreStops
  have hP := sellKeeps_resolves hI
  refine .ite (.after (hP.read _ _) fun p => .ite ?_ (mayRun_pure _)) (mayRun_pure _)
  refine .after hP.now fun _ => .after (sellKeeps_setStop hI) fun _ => .ite ?_ (mayRun_pure _)
  exact mayRun_ensureProtectiveStop.result

/-- An entry is a buy: the open sells are protective stops before it and after it. -/
theorem mayRun_tryEntry {control : Control} {st : ReconciliationState} {entriesOk : Bool}
    {funds : Funds} {snap : MarketSnapshot} {signal : Signal} {signalId : SignalId} :
    MayRun cfg (OnlyStops cfg)
      (tryEntry cfg control st entriesOk funds rules snap signal signalId) := by
  have hP : Resolves cfg (fun _ => True) (SellKeeps cfg (OnlyStops cfg)) :=
    sellKeeps_resolves outlasts_onlyStops
  refine .ite (mayRun_pure _) (.after (hP.read _ _) fun _ => .after (hP.read _ _) fun _ =>
    .ite (mayRun_pure _) ?_)
  dsimp only
  split
  · exact mayRun_pure _
  · intro h s hs
    refine (Proc.wp_bind _ _ _ _ _).2 (Proc.wp_mono
      (wp_submit_sell (s := s) fun hside : OrderSide.buy = .sell => by cases hside) ?_)
    rintro (e | _ | o) h₁ s₁ hopening
    · trivial
    · trivial
    · refine mayRun_protectEntry.result h₁ s₁ fun x hx hside => ?_
      rcases hopening x hx with hbuy | ⟨x₀, hx₀, hsame⟩
      · rw [hbuy] at hside
        cases hside
      · rw [hsame.purpose]
        exact hs x₀ hx₀

theorem mayRun_decideOrders {control : Control} {st : ReconciliationState} {entriesOk : Bool}
    {funds : Funds} {snap : MarketSnapshot} {signal : Signal} {signalId : SignalId} :
    MayRun cfg (fun _ => True)
      (decideOrders cfg control st entriesOk funds rules snap signal signalId) := by
  have hP : Resolves cfg (fun _ => True) (SellKeeps cfg fun _ => True) :=
    sellKeeps_resolves fun _ _ => trivial
  have hQ : Resolves cfg (fun _ => True) (SellKeeps cfg (OnlyStops cfg)) :=
    sellKeeps_resolves outlasts_onlyStops
  refine .after (hP.read _ _) fun _ => .after hP.refreshInFlight fun _ => fun h s _ => ?_
  refine (Proc.wp_bind _ _ _ _ _).2 ((wp_query _ _).2 fun s₁ _ => ⟨trivial, ?_⟩)
  refine (Proc.wp_ite _ _ _ _ _ _).2 ?_
  split
  · trivial
  · next hflight =>
    have hstops : OnlyStops cfg s₁ := onlyStops_of_inFlight (not_not.1 hflight)
    refine MayRun.after (hQ.read _ _) (fun position => .ite ?_ mayRun_tryEntry) _ s₁ hstops
    split
    · exact mayRun_manageOpen
    · exact .after hQ.now fun _ => .after (sellKeeps_setStop outlasts_onlyStops) fun _ =>
        mayRun_manageOpen

theorem mayRun_runOnce : MayRun cfg (fun _ => True) (runOnce cfg) :=
  (sellKeeps_resolves (I := fun _ => True) fun _ _ => trivial).runOnce
    fun _ _ _ _ _ _ _ _ => mayRun_decideOrders

/-! ## The life of the trading worker -/

/-- The trading worker runs cycles, from wherever it is started, while the reconciliation worker
works on the same ledger. -/
abbrev TraderLife (cfg : Config) (s : Ledger) : Point Ledger Label Ans PUnit → Prop :=
  Life (fun p => p = (runOnce cfg).run.forget) (Elsewhere cfg) ⟨.done ⟨⟩, [], s⟩

/-- In every life of the trading worker, killed and started again at any point, whatever the
exchange answers and whatever the reconciliation worker does between any two of its events: when
it is at the call that hands a sell to the executor, no other sell of the bot on its symbol is
open. -/
theorem sell_exclusive {x : Point Ledger Label Ans PUnit} (hx : TraderLife cfg s x) {o y : Order}
    (ho : submitting? x.prog = some o) (hside : o.side = .sell)
    (hy : y ∈ x.state.nonTerminalOrders cfg.bot cfg.symbol) (hsell : y.side = .sell) :
    y.clientOrderId = o.clientOrderId := by
  obtain ⟨p, h, s'⟩ := x
  obtain ⟨rules, k, rfl⟩ := submitting?_eq_some ho
  refine Life.guard (C := sellContract cfg) (sellContract_stable cfg)
    (fun _ _ _ hs => hs.closing) (fun _ _ _ _ => trivial) ?_ ?_ hx o rules rfl hside y hy hsell
  · rintro p rfl s
    exact Prog.wp_forget (mayRun_runOnce [] s trivial)
  · trivial

end

/-! ## An exit after an unconfirmed cancel -/

/-- The sample configuration, with protective stops on the exchange. -/
def stoppingConfig : Config := { sampleConfig with protectiveStopOnExchange := true }

/-- An exchange that fills the sample entry and never confirms a cancel. -/
def unconfirmedCancel : (r : Req) → Except Exn r.Val
  | .cancel _ => .ok { kind := .ambiguous }
  | r => refusingExchange r

/-- A cycle on that exchange, in a market where the strategy says `a`. -/
def cycleFrom (a : SignalAction) (n : Nat) (x : Point Ledger Label Ans PUnit) :
    Point Ledger Label Ans PUnit :=
  Point.go (exchangeEnv (marketAnswers a unconfirmedCancel)) n
    ⟨(runOnce stoppingConfig).run.forget, [], x.state⟩

/-- The entry has filled, and its stop is under way. -/
def stoppedPoint : Point Ledger Label Ans PUnit := cycleFrom .buy 200 ⟨.done ⟨⟩, [], healthyLedger⟩

/-- An exit has asked for the cancel of the stop, and has been told nothing. -/
def cancellingPoint : Point Ledger Label Ans PUnit := cycleFrom .sell 24 stoppedPoint

/-- The ledger after the reconciliation worker has applied a report that the stop is canceled. -/
def withStopCanceled (s : Ledger) : Ledger :=
  match applyReportTx stoppingConfig
      { sampleReport sampleStop .sell .canceled 0 with exchangeOrderId := some "4712" }
      (seconds 1735689600) s with
  | .ok (_, s') => s'
  | .error _ => s

theorem elsewhere_withStopCanceled (s : Ledger) :
    Elsewhere stoppingConfig s (withStopCanceled s) := by
  unfold withStopCanceled
  split
  · next h => exact .report h
  · exact .keep rfl rfl

/-- The exit goes on, and is at the call that sells. -/
def exitingPoint : Point Ledger Label Ans PUnit :=
  Point.go (exchangeEnv (marketAnswers .sell unconfirmedCancel)) 6
    ⟨cancellingPoint.prog, cancellingPoint.hist, withStopCanceled cancellingPoint.state⟩

/-- The exit is sent once the stop is canceled, and no other sell is open. -/
theorem exit_exclusive :
    cancellingPoint.state.orders.rows.map (fun o => (o.clientIntentId, o.status)) =
      [(sampleEntry, .filled), (sampleStop, .submitting)] ∧
    ∃ o, submitting? exitingPoint.prog = some o ∧ o.purpose = .exit ∧
      ∀ y ∈ exitingPoint.state.nonTerminalOrders "default" ⟨"BTC", "USDT"⟩, y.side = .sell →
        y.clientOrderId = o.clientOrderId := by
  refine ⟨by decide +kernel, ?_⟩
  have hexit : (submitting? exitingPoint.prog).map (fun o => (o.purpose, o.side)) =
      some (.exit, .sell) := by decide +kernel
  obtain ⟨o, ho, hkind⟩ := Option.map_eq_some_iff.1 hexit
  have hpath {a : SignalAction} (n : Nat) (x : Point Ledger Label Ans PUnit) :
      Path (fun _ _ _ _ => True) x (x.go (exchangeEnv (marketAnswers a unconfirmedCancel)) n) :=
    Point.path_go (fun _ _ _ => trivial) n x
  have hgo {a : SignalAction} {n : Nat} {x : Point Ledger Label Ans PUnit}
      (hx : TraderLife stoppingConfig healthyLedger x) : TraderLife stoppingConfig healthyLedger
        (x.go (exchangeEnv (marketAnswers a unconfirmedCancel)) n) :=
    hx.trans (Life.of_path (hpath n x))
  have hcycle {a : SignalAction} {n : Nat} {x : Point Ledger Label Ans PUnit}
      (hx : TraderLife stoppingConfig healthyLedger x) :
      TraderLife stoppingConfig healthyLedger (cycleFrom a n x) := hgo (hx.tail (.started rfl))
  have hcancelling : TraderLife stoppingConfig healthyLedger cancellingPoint :=
    hcycle (hcycle .refl)
  have hlife : TraderLife stoppingConfig healthyLedger exitingPoint :=
    hgo (hcancelling.tail (.disturbed (elsewhere_withStopCanceled _)))
  refine ⟨o, ho, (congrArg Prod.fst hkind :), fun y hy hsell => ?_⟩
  exact sell_exclusive hlife ho (congrArg Prod.snd hkind :) hy hsell

end CryptoBot
