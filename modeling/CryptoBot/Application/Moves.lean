import CryptoBot.Application.TradingCycle
import CryptoBot.Infrastructure.StoreLaws
import CryptoBot.Workers.ReconciliationWorker

/-!
# What the transactions do to the ledger

Every transaction of the engine makes one of the moves below, and every program of the engine takes
moves only. What every move preserves is therefore an invariant of the engine.
-/

namespace CryptoBot

open Lib

/-! ## The moves -/

/-- What a transaction makes of an order row: a report applied, a rejection, or the flag of an
ambiguous submission. -/
inductive OrderChange (cfg : Config) (s : Ledger) (o : Order) : Order → Prop
  | report {r : ExchangeOrderReport} {now : Time} {o' : Order}
      (hfind : OrderService.findOrder cfg s (some r.clientOrderId) r.exchangeOrderId = some o)
      (happly : o.applyReport r now = .ok (true, o')) :
      OrderChange cfg s o { o' with version := o'.version + 1 }
  | rejected {reason : String} {now : Time} {o' : Order}
      (h : o.markRejected reason now = .ok (true, o')) :
      OrderChange cfg s o { o' with version := o'.version + 1 }
  | flagged : OrderChange cfg s o { o with submissionAmbiguous := true, version := o.version + 1 }

/-- The row of a new order: an intent on its way to the exchange. -/
structure Placed (cfg : Config) (s s' : Ledger) (intent : OrderIntent) (o : Order) : Prop where
  fresh : ∀ i ∈ s.intents, i.clientIntentId ≠ intent.clientIntentId
  row : ∃ rules now o₀, (OrderService.newOrder cfg intent rules).markSubmitting now = .ok o₀ ∧
    o = { o₀ with id := Store.nextId (s.orders.rows.map (·.id)), version := 1 }
  intents : s'.intents = s.intents ++ [intent]
  rows : s'.orders.rows = s.orders.rows ++ [o]
  rest : s'.books = { s.books with intents := s'.intents, orders := s'.orders }

/-- An execution `xf` of the order `o` has been recorded as `f`, and the position has taken it. -/
structure Filled (cfg : Config) (s s' : Ledger) (o : Order) (xf : ExchangeFill) (f : Fill) :
    Prop where
  find : OrderService.findOrder cfg s (xf.clientOrderId.filter (· ≠ "")) xf.exchangeOrderId = some o
  row : ∃ now, f = { OrderService.fillOf o xf now with
    id := Store.nextId (s.fills.rows.map (·.id)) }
  fresh : ∀ g ∈ s.fills.rows, Fill.Compatible g f
  rows : s'.fills.rows = s.fills.rows ++ [f]
  positions : ∃ now, s'.positions = Store.upsertPosition s.positions
    { (applyFillToPosition (s.getPosition cfg.bot f.symbol) f).position with updatedAt := some now }
  rest : s'.books = { s.books with fills := s'.fills, positions := s'.positions }

/-- The position `p` has been saved. -/
structure Positioned (s s' : Ledger) (p : Position) : Prop where
  positions : s'.positions = Store.upsertPosition s.positions p
  rest : s'.books = { s.books with positions := s'.positions }

/-- What exchange data does to the ledger: orders change, executions are recorded, and messages are
left behind. -/
inductive ExchangeMove (cfg : Config) : Ledger → Ledger → Prop
  | keep {s s'} (h : s'.books = s.books) : ExchangeMove cfg s s'
  | change {s s' o o'} (hc : OrderChange cfg s o o') (hr : s.Replaced s' o o') :
      ExchangeMove cfg s s'
  | fill {s s' o xf f} (h : Filled cfg s s' o xf f) : ExchangeMove cfg s s'
  | seq {s s₁ s'} (h : ExchangeMove cfg s s₁) (h' : ExchangeMove cfg s₁ s') : ExchangeMove cfg s s'

/-- The labels of transactions and queries that touch neither the reconciliation row nor the
position alone. -/
def Label.isPlain : Label → Bool
  | .query | .commit | .submitIntent _ | .recordConflict _ => true
  | _ => false

/-- The steps of a program that only applies exchange data. -/
def Exchange (cfg : Config) (l : Label) (s s' : Ledger) : Prop := l.isPlain ∧ ExchangeMove cfg s s'

/-- The steps of a program that only reads, leaves messages and records executions. -/
def Recording (cfg : Config) (l : Label) (s s' : Ledger) : Prop :=
  (l = .query ∨ l = .commit) ∧ ExchangeMove cfg s s' ∧ s'.orders = s.orders

/-- One move of the engine on the ledger, under the label of its transaction. -/
inductive Move (cfg : Config) : Label → Ledger → Ledger → Prop
  | read {l s} : Move cfg l s s
  | exchange {l s s'} (h : Exchange cfg l s s') : Move cfg l s s'
  | place {s s' intent o} (h : Placed cfg s s' intent o) : Move cfg .commit s s'
  | position {l s s' p} (hl : l = .commit ∨ l = .rebuildWrite) (h : Positioned s s' p) :
      Move cfg l s s'
  | recon {l s s'} {st : ReconciliationState} (hl : l.writesRow)
      (h : s'.reconState = Function.update s.reconState st.bot (some st))
      (rest : s'.books = { s.books with reconState := s'.reconState }) : Move cfg l s s'

/-- The moves that leave the reconciliation row alone. -/
def Quiet (cfg : Config) (l : Label) (s s' : Ledger) : Prop := l.writesRow = false ∧ Move cfg l s s'

theorem ExchangeMove.rfl {cfg : Config} {s : Ledger} : ExchangeMove cfg s s := .keep (Eq.refl _)

theorem Recording.exchange {cfg : Config} {l : Label} {s s' : Ledger} (h : Recording cfg l s s') :
    Exchange cfg l s s' := by
  obtain ⟨rfl | rfl, h, -⟩ := h <;> exact ⟨rfl, h⟩

theorem Exchange.quiet {cfg : Config} {l : Label} {s s' : Ledger} (h : Exchange cfg l s s') :
    Quiet cfg l s s' := by
  refine ⟨?_, .exchange h⟩
  have := h.1
  cases l <;> first | rfl | cases this

theorem Quiet.move {cfg : Config} {l : Label} {s s' : Ledger} (h : Quiet cfg l s s') :
    Move cfg l s s' := h.2

theorem OrderChange.same {cfg : Config} {s : Ledger} {o o' : Order} (h : OrderChange cfg s o o') :
    Order.Same o o' := by
  cases h with
  | report _ ha => exact (Order.applyReport_ok ha).1.same.trans (by constructor <;> rfl)
  | rejected hr => exact (Order.markRejected_ok hr).1.trans (by constructor <;> rfl)
  | flagged => constructor <;> rfl

/-! ## The order service's transactions -/

section
variable {cfg : Config} {s s' : Ledger} {now : Time}

open OrderService

theorem Store.present_ok {α : Type} {x : Option α} {a : α}
    (h : Store.present x s = .ok (a, s')) : x = some a ∧ s' = s := by
  cases x with
  | none => cases h
  | some b => cases h; exact ⟨rfl, rfl⟩

theorem Store.legal_ok {α : Type} {x : Except String α} {a : α}
    (h : Store.legal x s = .ok (a, s')) : x = .ok a ∧ s' = s := by
  cases x with
  | error m => cases h
  | ok b => cases h; exact ⟨rfl, rfl⟩

theorem findOrder_mem {c x : Option String} {o : Order} (h : findOrder cfg s c x = some o) :
    o ∈ s.orders.rows := by
  unfold findOrder at h
  split at h
  · next hc =>
    cases h
    obtain ⟨c, -, hc⟩ := Option.bind_eq_some_iff.1 hc
    exact (Ledger.getOrder_eq_some.1 hc).1
  · split at h
    · obtain ⟨x, -, hx⟩ := Option.bind_eq_some_iff.1 h
      exact (Ledger.getOrderByExchangeId_mem hx).1
    · cases h

/-- A report or an execution that carries the client order id of a local order belongs to it. -/
theorem findOrder_of_clientOrderId {c : String} {x : Option String} {o : Order}
    (h : s.getOrder c = some o) : findOrder cfg s (some c) x = some o := by
  simp [findOrder, h]

/-- What applying a report comes to. -/
theorem applyReportTx_cases {r : ExchangeOrderReport} {out : ApplyOutcome}
    (h : applyReportTx cfg r now s = .ok (out, s')) :
    (findOrder cfg s (some r.clientOrderId) r.exchangeOrderId = none ∧ out = .unknown ∧ s' = s) ∨
    ∃ o, findOrder cfg s (some r.clientOrderId) r.exchangeOrderId = some o ∧
      ((∃ m, out = .conflict o.clientOrderId m ∧ o.Contradicts r ∧ s' = s) ∨
       (o.applyReport r now = .ok (false, o) ∧ out = .applied o ∧ s' = s) ∨
       ∃ o₁, o.applyReport r now = .ok (true, o₁) ∧
         out = .applied { o₁ with version := o₁.version + 1 } ∧
         s.Replaced s' o { o₁ with version := o₁.version + 1 }) := by
  unfold applyReportTx at h
  split at h
  · next hf => cases h; exact .inl ⟨hf, rfl, rfl⟩
  · next o hf =>
    refine .inr ⟨o, hf, ?_⟩
    split at h
    · next m hm =>
      cases h
      exact .inl ⟨m, rfl, Order.applyReport_error.1 ⟨m, hm⟩, rfl⟩
    · next changed o₁ ha =>
      split at h
      · next hch =>
        subst hch
        obtain ⟨o₂, s₁, hsave, h⟩ := Tx.bind_ok.1 h
        obtain ⟨_, s₂, henq, h⟩ := Tx.bind_ok.1 h
        obtain ⟨rfl, rfl⟩ := Tx.pure_ok.1 h
        obtain ⟨rfl, hrep⟩ :=
          Store.saveOrder_ok (findOrder_mem hf) (Order.applyReport_ok ha).1.same hsave
        exact .inr (.inr ⟨o₁, ha, rfl, hrep.of_books (Store.enqueueOrder_books henq)⟩)
      · next hch =>
        cases h
        obtain rfl : changed = false := by simpa using hch
        obtain rfl := (Order.applyReport_ok ha).2 rfl
        exact .inr (.inl ⟨ha, rfl, rfl⟩)

/-- What recording an execution comes to: no local order, already recorded, or filled. -/
theorem ingestFillTx_cases {xf : ExchangeFill} {b : Bool}
    (h : ingestFillTx cfg xf now s = .ok (b, s')) :
    (findOrder cfg s (xf.clientOrderId.filter (· ≠ "")) xf.exchangeOrderId = none ∧ s' = s) ∨
    ∃ o, findOrder cfg s (xf.clientOrderId.filter (· ≠ "")) xf.exchangeOrderId = some o ∧
      ((s' = s ∧ ¬ ∀ g ∈ s.fills.rows, Fill.Compatible g
          { fillOf o xf now with id := Store.nextId (s.fills.rows.map (·.id)) }) ∨
       ∃ f, f = { fillOf o xf now with id := Store.nextId (s.fills.rows.map (·.id)) } ∧
         Filled cfg s s' o xf f) := by
  unfold ingestFillTx at h
  split at h
  · next hf => cases h; exact .inl ⟨hf, rfl⟩
  · next o hf =>
    refine .inr ⟨o, hf, ?_⟩
    obtain ⟨r, s₁, hins, h₁⟩ := Tx.bind_ok.1 h
    rcases Store.insertFill_ok hins with ⟨rfl, rfl, hdup⟩ | ⟨f, rfl, hfrow, hnew, hrows, hrest⟩
    · obtain ⟨-, rfl⟩ := Tx.pure_ok.1 h₁
      exact .inl ⟨rfl, hdup⟩
    · refine .inr ⟨f, ?_⟩
      obtain ⟨res, s₂, happ, h₂⟩ := Tx.bind_ok.1 h₁
      obtain ⟨_, _, hget, happ₁⟩ := Tx.bind_ok.1 happ
      cases hget
      obtain ⟨p, s₃, hsave, happ₂⟩ := Tx.bind_ok.1 happ₁
      obtain ⟨rfl, rfl⟩ := Tx.pure_ok.1 happ₂
      obtain ⟨rfl, hpos, hprest⟩ := Store.savePosition_ok hsave
      have hbooks : s'.books = s₃.books := by
        obtain ⟨_, s₄, henq, h₃⟩ := Tx.bind_ok.1 h₂
        obtain ⟨_, s₅, henq', h₄⟩ := Tx.bind_ok.1 h₃
        dsimp only at h₄
        split at h₄
        · obtain ⟨_, s₆, hev, h₅⟩ := Tx.bind_ok.1 h₄
          obtain ⟨-, rfl⟩ := Tx.pure_ok.1 h₅
          rw [Store.enqueueEvent_books hev, Store.enqueue_books henq', Store.enqueue_books henq]
        · obtain ⟨-, rfl⟩ := Tx.pure_ok.1 h₄
          rw [Store.enqueue_books henq', Store.enqueue_books henq]
      have hfills : s'.fills = s₁.fills :=
        (congrArg Ledger.fills hbooks :).trans (congrArg Ledger.fills hprest :)
      have hpositions : s'.positions = s₃.positions := (congrArg Ledger.positions hbooks :)
      have hpos₁ : s₁.positions = s.positions := (congrArg Ledger.positions hrest :)
      refine ⟨hfrow, hf, ⟨now, hfrow⟩, hnew, by rw [hfills, hrows], ⟨now, ?_⟩, ?_⟩
      · rw [hpositions, hpos, hpos₁, Ledger.getPosition_congr hpos₁]
      · rw [hbooks, hprest, hrest, hfills, hpositions]

/-- What rejecting an order comes to. -/
theorem rejectTx_cases {c reason : String} (h : rejectTx c reason now s = .ok (⟨⟩, s')) :
    ∃ o, s.getOrder c = some o ∧ ((o.isTerminal ∧ s' = s) ∨
      ∃ o₁, o.markRejected reason now = .ok (true, o₁) ∧
        s.Replaced s' o { o₁ with version := o₁.version + 1 }) := by
  unfold rejectTx at h
  obtain ⟨o, s₁, hget, h₁⟩ := Tx.bind_ok.1 h
  obtain ⟨hc, rfl⟩ := Store.present_ok hget
  obtain ⟨⟨b, o₁⟩, s₂, hleg, h₂⟩ := Tx.bind_ok.1 h₁
  obtain ⟨hmark, rfl⟩ := Store.legal_ok hleg
  refine ⟨o, hc, ?_⟩
  obtain ⟨hsame, -, -, -, hno, hyes⟩ := Order.markRejected_ok hmark
  cases b with
  | false =>
    obtain ⟨-, rfl⟩ := Tx.pure_ok.1 h₂
    exact .inl ⟨(hno rfl).2, rfl⟩
  | true =>
    obtain ⟨o₂, s₃, hsave, h₃⟩ := Tx.bind_ok.1 h₂
    obtain ⟨rfl, hrep⟩ := Store.saveOrder_ok (Ledger.getOrder_eq_some.1 hc).1 hsame hsave
    exact .inr ⟨o₁, hmark, hrep.of_books (Store.enqueueOrder_books h₃)⟩

/-- What flagging an ambiguous submission comes to. -/
theorem flagAmbiguousTx_ok {c error : String}
    (h : flagAmbiguousTx cfg c error now s = .ok (⟨⟩, s')) :
    ∃ o, s.getOrder c = some o ∧
      s.Replaced s' o { o with submissionAmbiguous := true, version := o.version + 1 } := by
  unfold flagAmbiguousTx at h
  obtain ⟨o, s₁, hget, h₁⟩ := Tx.bind_ok.1 h
  obtain ⟨hc, rfl⟩ := Store.present_ok hget
  obtain ⟨o₂, s₂, hsave, h₂⟩ := Tx.bind_ok.1 h₁
  obtain ⟨_, s₃, henq, h₃⟩ := Tx.bind_ok.1 h₂
  obtain ⟨rfl, hrep⟩ := Store.saveOrder_ok (Ledger.getOrder_eq_some.1 hc).1
    (by constructor <;> rfl) hsave
  refine ⟨o, hc, hrep.of_books ?_⟩
  rw [Store.enqueueEvent_books h₃, Store.enqueueOrder_books henq]

/-- What persisting a new order comes to. -/
theorem persistTx_cases {intent : OrderIntent} {rules : SymbolRules} {o₀ : Order} {t : Time}
    {r : Except (Option Order) Order}
    (ho : (newOrder cfg intent rules).markSubmitting t = .ok o₀)
    (h : persistTx intent o₀ now s = .ok (r, s')) :
    (r = .error (s.getOrderByIntent intent.clientIntentId) ∧ s' = s ∧
      ∃ i ∈ s.intents, i.clientIntentId = intent.clientIntentId) ∨
    ∃ o, r = .ok o ∧ Placed cfg s s' intent o := by
  have ho₀ : o₀ = { newOrder cfg intent rules with
      status := .submitting, submittedAt := some t } := by
    cases ho; rfl
  unfold persistTx at h
  obtain ⟨x, s₁, hins, h₁⟩ := Tx.bind_ok.1 h
  unfold Store.insertIntentAndOrder at hins
  split at hins
  · next hany =>
    cases hins
    obtain ⟨_, _, hget, h₂⟩ := Tx.bind_ok.1 h₁
    cases hget
    obtain ⟨rfl, rfl⟩ := Tx.pure_ok.1 h₂
    obtain ⟨i, hi, hid⟩ := List.any_eq_true.1 hany
    exact .inl ⟨rfl, rfl, i, hi, of_decide_eq_true hid⟩
  · next hany =>
    dsimp only at hins
    split at hins
    · next orders horders =>
      cases hins
      obtain ⟨o₂, s₂, hsave, h₂⟩ := Tx.bind_ok.1 h₁
      obtain ⟨_, s₃, henq, h₃⟩ := Tx.bind_ok.1 h₂
      obtain ⟨rfl, rfl⟩ := Tx.pure_ok.1 h₃
      have hrows := Table.insert?_eq_some.1 horders
      obtain ⟨rfl, hrep⟩ := Store.saveOrder_ok (hrows ▸ List.mem_append_right _ (.head _))
        (x := Store.insertedRow o₀ (Store.nextId (s.orders.rows.map (·.id))))
        (by constructor <;> rfl) hsave
      have hbooks := Store.enqueueOrder_books henq
      have horders : s₃.orders = s₂.orders := (congrArg Ledger.orders hbooks :)
      have hintents : s₃.intents = s.intents ++ [intent] :=
        (congrArg Ledger.intents hbooks :).trans hrep.intents
      refine .inr ⟨_, rfl, ?_, ⟨rules, t, o₀, ho, by rw [ho₀]; rfl⟩, hintents, ?_, ?_⟩
      · intro i hi hid
        exact hany (List.any_eq_true.2 ⟨i, hi, decide_eq_true hid⟩)
      · rw [horders, hrep.rows, hrows, List.map_append]
        congr 1
        · refine (List.map_congr_left fun r hr => if_neg ?_).trans (List.map_id _)
          have := (List.pairwise_append.1 (hrows ▸ orders.ok)).2.2 r hr _ (.head _)
          exact this.1.ne
        · simp
      · rw [hbooks, hrep.rest, horders, hintents]
        rfl
    · cases hins

/-! ## Every transaction is a move -/

theorem applyReportTx_move {r : ExchangeOrderReport} {out : ApplyOutcome}
    (h : applyReportTx cfg r now s = .ok (out, s')) : ExchangeMove cfg s s' := by
  rcases applyReportTx_cases h with ⟨-, -, rfl⟩ | ⟨o, hf, ⟨_, -, -, rfl⟩ | ⟨-, -, rfl⟩ |
    ⟨o₁, ha, -, hrep⟩⟩
  · exact .rfl
  · exact .rfl
  · exact .rfl
  · exact .change (.report hf ha) hrep

theorem ingestFillTx_move {xf : ExchangeFill} {b : Bool}
    (h : ingestFillTx cfg xf now s = .ok (b, s')) : ExchangeMove cfg s s' := by
  rcases ingestFillTx_cases h with ⟨-, rfl⟩ | ⟨o, -, ⟨rfl, -⟩ | ⟨f, -, hf⟩⟩
  · exact .rfl
  · exact .rfl
  · exact .fill hf

theorem rejectTx_move {c reason : String} (h : rejectTx c reason now s = .ok (⟨⟩, s')) :
    ExchangeMove cfg s s' := by
  obtain ⟨o, -, ⟨-, rfl⟩ | ⟨o₁, hmark, hrep⟩⟩ := rejectTx_cases h
  · exact .rfl
  · exact .change (.rejected hmark) hrep

theorem flagAmbiguousTx_move {c error : String}
    (h : flagAmbiguousTx cfg c error now s = .ok (⟨⟩, s')) : ExchangeMove cfg s s' := by
  obtain ⟨o, -, hrep⟩ := flagAmbiguousTx_ok h
  exact .change .flagged hrep

theorem handleTx_move {eventKey : String} {r : ExchangeOrderReport} {xf : Option ExchangeFill}
    {out : StreamIngestionService.IngestOutcome}
    (h : StreamIngestionService.handleTx cfg eventKey r xf now s = .ok (out, s')) :
    ExchangeMove cfg s s' := by
  obtain ⟨b, s₁, hmark, h₁⟩ := Tx.bind_ok.1 h
  have hb : s₁.books = s.books := by
    unfold Store.markEventProcessed at hmark
    split at hmark <;> (cases hmark; rfl)
  refine .seq (.keep hb) ?_
  split at h₁
  · obtain ⟨x, s₂, happ, h₂⟩ := Tx.bind_ok.1 h₁
    refine .seq (applyReportTx_move happ) ?_
    cases x with
    | conflict c m => cases h₂
    | unknown | applied o =>
      cases xf with
      | none => cases h₂; exact .rfl
      | some xf =>
        obtain ⟨_, s₃, h₃, h₄⟩ := Tx.bind_ok.1 h₂
        obtain ⟨-, rfl⟩ := Tx.pure_ok.1 h₄
        exact ingestFillTx_move h₃
  · obtain ⟨-, rfl⟩ := Tx.pure_ok.1 h₁
    exact .rfl

/-! ## Programs that record executions -/

theorem Recording.within_exchange {α : Type} {p : Engine α} (h : p.Within (Recording cfg)) :
    p.Within (Exchange cfg) := Prog.Within.mono (fun _ _ _ => Recording.exchange) h

theorem Recording.run_exchange {α : Type} {p : ReconciliationService.RunM α}
    (h : p.Within (Recording cfg)) : p.Within (Exchange cfg) :=
  fun t => Prog.Within.mono (fun _ _ _ => Recording.exchange) (h t)

theorem query_recording {α : Type} (f : Ledger → α) : (query .query f).Within (Recording cfg) :=
  query_within fun _ => ⟨.inl rfl, .rfl, rfl⟩

theorem transaction_recording {α : Type} {t : Tx α}
    (ht : ∀ s a s', t s = .ok (a, s') → ExchangeMove cfg s s' ∧ s'.orders = s.orders) :
    (transaction .commit t).Within (Recording cfg) :=
  transaction_within (fun _ => ⟨.inr rfl, .rfl, rfl⟩) fun s a s' h => ⟨.inr rfl, ht s a s' h⟩

theorem enqueue_recording {kind : OutboxKind} {key : OutboxKey} {message : OutboxMessage} :
    (transaction .commit (Store.enqueue kind key message now)).Within (Recording cfg) :=
  transaction_recording fun _ _ _ h =>
    ⟨.keep (Store.enqueue_books h), (congrArg Ledger.orders (Store.enqueue_books h) :)⟩

theorem ingestFillTx_orders {xf : ExchangeFill} {b : Bool}
    (h : ingestFillTx cfg xf now s = .ok (b, s')) : s'.orders = s.orders := by
  rcases ingestFillTx_cases h with ⟨-, rfl⟩ | ⟨o, -, ⟨rfl, -⟩ | ⟨f, -, hf⟩⟩
  · rfl
  · rfl
  · exact (congrArg Ledger.orders hf.rest :)

theorem ingestFill_recording {xf : ExchangeFill} : (ingestFill cfg xf).Within (Recording cfg) :=
  (clockNow_within).bind fun _ =>
    transaction_recording fun _ _ _ h => ⟨ingestFillTx_move h, ingestFillTx_orders h⟩

theorem ingestFills_recording {xfs : List ExchangeFill} :
    (ingestFills cfg xfs).Within (Recording cfg) :=
  Proc.Within.forM (fun _ => ingestFill_recording.bind fun _ => Proc.within_pure _) xfs

theorem ingestOrderFills_recording {o : Option Order} :
    (ingestOrderFills cfg o).Within (Recording cfg) := by
  cases o with
  | none => exact Proc.within_pure _
  | some o =>
    unfold ingestOrderFills
    dsimp only
    split
    · exact (call_within _).bind fun _ => ingestFills_recording
    · exact Proc.within_pure _

/-! ## Programs that apply exchange data -/

theorem query_exchange {α : Type} (f : Ledger → α) : (query .query f).Within (Exchange cfg) :=
  Recording.within_exchange (query_recording f)

theorem transaction_exchange {α : Type} {l : Label} {t : Tx α} (hl : l.isPlain)
    (ht : ∀ s a s', t s = .ok (a, s') → ExchangeMove cfg s s') :
    (transaction l t).Within (Exchange cfg) :=
  transaction_within (fun _ => ⟨hl, .rfl⟩) fun s a s' h => ⟨hl, ht s a s' h⟩

theorem enqueue_exchange {l : Label} (hl : l.isPlain) {kind : OutboxKind} {key : OutboxKey}
    {message : OutboxMessage} :
    (transaction l (Store.enqueue kind key message now)).Within (Exchange cfg) :=
  transaction_exchange hl fun _ _ _ h => .keep (Store.enqueue_books h)

theorem recordConflict_exchange {c message source : String} {status : OrderStatus} :
    (recordConflict cfg c status message source).Within (Exchange cfg) :=
  (clockNow_within).bind fun _ => (enqueue_exchange rfl).bind fun _ => (enqueue_exchange rfl)

theorem applyReport_exchange {r : ExchangeOrderReport} {source : String} :
    (applyReport cfg r source).Within (Exchange cfg) := by
  refine (clockNow_within).bind fun t =>
    (transaction_exchange rfl fun _ _ _ => applyReportTx_move).bind ?_
  intro out
  cases out with
  | unknown => exact Proc.within_pure _
  | applied o => exact Proc.within_pure _
  | conflict c m => exact recordConflict_exchange.bind fun _ => Proc.within_throw _

theorem ingestFill_exchange {xf : ExchangeFill} : (ingestFill cfg xf).Within (Exchange cfg) :=
  Recording.within_exchange ingestFill_recording

theorem ingestFills_exchange {xfs : List ExchangeFill} :
    (ingestFills cfg xfs).Within (Exchange cfg) := Recording.within_exchange ingestFills_recording

theorem ingestOrderFills_exchange {o : Option Order} :
    (ingestOrderFills cfg o).Within (Exchange cfg) :=
  Recording.within_exchange ingestOrderFills_recording

theorem refresh_exchange {o : Order} : (refresh cfg o).Within (Exchange cfg) := by
  refine (call_within _).bind fun report => ?_
  cases report with
  | none =>
    exact (query_exchange _).bind fun _ => ingestOrderFills_exchange.bind fun _ => query_exchange _
  | some r =>
    exact applyReport_exchange.bind fun _ => (query_exchange _).bind fun _ =>
      ingestOrderFills_exchange.bind fun _ => query_exchange _

theorem cancel_exchange {o : Order} : (cancel cfg o).Within (Exchange cfg) := by
  refine (call_within _).bind fun out => ?_
  have hrest : (lookAgain cfg o).Within (Exchange cfg) := by
    refine refresh_exchange.attempt.bind fun r => ?_
    rcases r with e | fresh
    · cases e with
      | orderConflict m => exact Proc.within_throw _
      | _ => exact query_exchange _
    · exact Proc.within_pure _
  dsimp only
  split
  · exact applyReport_exchange.bind fun _ => hrest
  · exact hrest

theorem resolveAmbiguous_exchange {o : Order} : (resolveAmbiguous cfg o).Within (Exchange cfg) := by
  unfold resolveAmbiguous
  split
  · exact Proc.within_pure _
  · refine (call_within _).attempt.bind fun r => ?_
    rcases r with e | _ | r
    · exact Proc.within_pure _
    · refine (clockNow_within).bind fun t => ?_
      dsimp only
      split
      · exact Proc.within_pure _
      · exact (transaction_exchange rfl fun _ _ _ => rejectTx_move).bind fun _ => Proc.within_pure _
    · exact applyReport_exchange.bind fun _ => (query_exchange _).bind fun _ =>
        ingestOrderFills_exchange.bind fun _ => Proc.within_pure _

theorem settle_exchange {o : Order} {out : SubmitOutcome} :
    (settle cfg o out).Within (Exchange cfg) := by
  unfold settle
  split
  · exact (orRaise_within _ _).bind fun _ => applyReport_exchange.bind fun _ => ingestFills_exchange
  · exact (clockNow_within).bind fun _ => transaction_exchange rfl fun _ _ _ => rejectTx_move
  · exact (clockNow_within).bind fun _ =>
      (transaction_exchange rfl fun _ _ _ => flagAmbiguousTx_move).bind
      fun _ => (query_exchange _).bind fun _ => (orRaise_within _ _).bind fun _ =>
        resolveAmbiguous_exchange.bind fun _ => Proc.within_pure _

theorem handle_exchange {ev : StreamEvent} :
    (StreamIngestionService.handle cfg ev).Within (Exchange cfg) := by
  cases ev with
  | terminated | ignored => exact Proc.within_pure _
  | balance b =>
    exact (query_exchange _).bind fun _ =>
      (transaction_exchange rfl fun _ _ _ h => by cases h; exact .keep rfl).bind
      fun _ => Proc.within_pure _
  | order eventKey r xf =>
    refine (query_exchange _).bind fun found => ?_
    cases found with
    | none => dsimp only; split <;> exact Proc.within_pure _
    | some o =>
      refine (clockNow_within).bind fun t =>
        (transaction_exchange rfl fun _ _ _ => handleTx_move).attempt.bind fun r => ?_
      rcases r with e | out
      · cases e with
        | orderConflict m => exact recordConflict_exchange.bind fun _ => Proc.within_pure _
        | _ => exact Proc.within_throw _
      · exact Proc.within_pure _

end

/-! ## Reconciliation -/

section
variable {cfg : Config}

open ReconciliationService

theorem onConflict_exchange {α : Type} {o : Order} {out : Except Exn α} {k : α → RunM PUnit}
    (hk : ∀ a, (k a).Within (Exchange cfg)) : (onConflict o out k).Within (Exchange cfg) := by
  unfold onConflict
  split
  · exact hk _
  · exact LProc.within_assign _
  · exact LProc.within_throw _

theorem checkOpenOrder_exchange {o : Order} : (checkOpenOrder cfg o).Within (Exchange cfg) := by
  unfold checkOpenOrder
  split
  · refine (LProc.within_exec resolveAmbiguous_exchange.attempt).bind fun out => onConflict_exchange ?_
    intro r
    cases r with
    | pending => exact (LProc.within_assign _).bind fun _ => LProc.within_assign _
    | resolved => exact LProc.within_pure _
  · exact (LProc.within_exec refresh_exchange.attempt).bind fun out => onConflict_exchange fun _ =>
      LProc.within_pure _

theorem verifyTerminal_exchange {o : Order} : (verifyTerminal cfg o).Within (Exchange cfg) := by
  refine (LProc.within_exec (call_within _)).bind fun rep => ?_
  cases rep with
  | none => exact LProc.within_assign _
  | some rep =>
    refine LProc.Within.ite ?_ (LProc.within_pure _)
    refine (LProc.within_exec (Proc.Within.attempt ?_)).bind fun out =>
      onConflict_exchange fun fresh => ?_
    · exact applyReport_exchange.bind fun _ => (query_exchange _).bind fun _ => orRaise_within _ _
    · exact (LProc.within_assign _).ite (LProc.within_pure _)

theorem checkExchangeOpen_recording {rep : ExchangeOrderReport} :
    (checkExchangeOpen cfg rep).Within (Recording cfg) := by
  refine (LProc.within_exec (query_recording _)).bind fun loc => ?_
  cases loc with
  | some _ => exact LProc.within_pure _
  | none => exact LProc.within_assign _

theorem adopt_exchange {rep : Option ExchangeOrderReport} : (adopt cfg rep).Within (Exchange cfg) := by
  cases rep with
  | none => exact LProc.within_pure _
  | some rep =>
    refine (LProc.within_exec (query_exchange _)).bind fun loc => ?_
    cases loc with
    | none => exact LProc.within_pure _
    | some _ => exact (LProc.within_exec applyReport_exchange).bind fun _ => LProc.within_pure _

theorem ownerOfFill_exchange {xf : ExchangeFill} : (ownerOfFill cfg xf).Within (Exchange cfg) := by
  refine (LProc.within_exec (query_exchange _)).bind fun loc => ?_
  cases loc with
  | some _ => exact LProc.within_pure _
  | none => exact ((LProc.within_exec (call_within _)).bind fun _ => adopt_exchange).ite adopt_exchange

theorem checkRecentFill_exchange {xf : ExchangeFill} :
    (checkRecentFill cfg xf).Within (Exchange cfg) := by
  refine ownerOfFill_exchange.bind fun owner => ?_
  cases owner with
  | error c => exact LProc.within_assign _
  | ok _ => exact (LProc.within_exec ingestFill_exchange).bind fun _ => LProc.within_pure _

theorem checkFillsComplete_recording {tolerance : ℚ} {o : Order} :
    (checkFillsComplete cfg tolerance o).Within (Recording cfg) :=
  (LProc.within_pure _).ite <| (LProc.within_exec (query_recording _)).bind fun _ =>
    .ite ((LProc.within_exec ingestOrderFills_recording).bind fun _ =>
      (LProc.within_exec (query_recording _)).bind fun _ =>
        (LProc.within_assign _).ite (LProc.within_pure _)) (LProc.within_pure _)

theorem comparePosition_recording {tolerance baseTotal : ℚ} {before rebuilt : Position}
    {anomalies : List Anomaly} :
    (comparePosition tolerance before rebuilt anomalies baseTotal).Within (Recording cfg) := by
  have hlast : LProc.Within (Recording cfg) (if tolerance < rebuilt.quantity - baseTotal then
      report .balanceBelowPosition .critical none (.quantities rebuilt.quantity baseTotal)
      else pure ⟨⟩) := (LProc.within_assign _).ite (LProc.within_pure _)
  have hrest := (LProc.Within.forM (R := Recording cfg)
    (f := fun a => report .positionAnomaly .critical none (.anomaly a))
    (fun _ => LProc.within_assign _) anomalies).bind fun _ => hlast
  exact LProc.Within.ite ((LProc.within_assign _).bind fun _ => hrest) hrest

theorem checkProtectiveStop_recording {rules : SymbolRules} {rebuilt : Position} :
    (checkProtectiveStop cfg rules rebuilt).Within (Recording cfg) :=
  .ite ((LProc.within_exec (query_recording _)).bind fun _ =>
    (LProc.within_assign _).ite (LProc.within_pure _)) (LProc.within_pure _)

theorem setBalances_recording {balances : List (String × AssetBalance)} :
    (transaction .commit (Store.setBalances cfg.bot balances)).Within (Recording cfg) :=
  transaction_recording fun _ _ _ h => by cases h; exact ⟨.keep rfl, rfl⟩

theorem persist_recording {result : ReconResult} {reason : String} {started : Time} :
    (persist cfg result reason started).Within (Recording cfg) :=
  (transaction_recording fun _ _ _ h => by cases h; exact ⟨.keep rfl, rfl⟩).bind fun _ =>
    (clockNow_within).bind fun _ => enqueue_recording

end

/-! ## Every program takes moves only -/

section
variable {cfg : Config} {α : Type}

theorem Exchange.within_quiet {p : Engine α} (h : p.Within (Exchange cfg)) :
    p.Within (Quiet cfg) := Prog.Within.mono (fun _ _ _ => Exchange.quiet) h

theorem Quiet.within_move {p : Engine α} (h : p.Within (Quiet cfg)) : p.Within (Move cfg) :=
  Prog.Within.mono (fun _ _ _ => Quiet.move) h

theorem Exchange.within_move {p : Engine α} (h : p.Within (Exchange cfg)) : p.Within (Move cfg) :=
  Quiet.within_move (Exchange.within_quiet h)

/-- A part of a run that only applies exchange data leaves the reconciliation row alone. -/
theorem Exchange.run_quiet {p : ReconciliationService.RunM α} (h : p.Within (Exchange cfg)) :
    p.Within (Quiet cfg) := fun t => Prog.Within.mono (fun _ _ _ => Exchange.quiet) (h t)

theorem query_quiet {l : Label} (hl : l.writesRow = false) (f : Ledger → α) :
    (query l f).Within (Quiet cfg) := query_within fun _ => ⟨hl, .read⟩

theorem transaction_quiet {l : Label} {t : Tx α} (hl : l.writesRow = false)
    (ht : ∀ s a s', t s = .ok (a, s') → Move cfg l s s') : (transaction l t).Within (Quiet cfg) :=
  transaction_within (fun _ => ⟨hl, .read⟩) fun s a s' h => ⟨hl, ht s a s' h⟩

theorem savePosition_move {l : Label} {p q : Position} {now : Time} {s s' : Ledger}
    (hl : l = .commit ∨ l = .rebuildWrite) (h : Store.savePosition p now s = .ok (q, s')) :
    Move cfg l s s' :=
  .position hl ⟨(Store.savePosition_ok h).2.1, (Store.savePosition_ok h).2.2⟩

open OrderService ReconciliationService

theorem submitIntent_quiet {intent : OrderIntent} {rules : SymbolRules} :
    (submitIntent cfg intent rules).Within (Quiet cfg) := by
  refine (query_quiet rfl _).bind fun existing => ?_
  cases existing with
  | some o => exact Proc.within_pure _
  | none =>
    refine (clockNow_within).bind fun t => ?_
    dsimp only
    split
    · exact Proc.within_throw _
    · next o₀ ho =>
      refine (transaction_quiet rfl fun s r s' h => ?_).bind fun r => ?_
      · rcases persistTx_cases ho h with ⟨-, rfl, -⟩ | ⟨o, -, hp⟩
        · exact .read
        · exact .place hp
      · cases r with
        | error existing => exact Proc.within_pure _
        | ok o =>
          refine (call_within _).attempt.bind fun out => ?_
          cases out with
          | error e =>
            exact (Exchange.within_quiet settle_exchange).bind fun _ => query_quiet rfl _
          | ok out =>
            exact (Exchange.within_quiet settle_exchange).bind fun _ => query_quiet rfl _

theorem rebuild_quiet : (rebuild cfg).Within (Quiet cfg) :=
  (query_quiet rfl _).bind fun _ => (query_quiet rfl _).bind fun _ => (clockNow_within).bind fun _ =>
    (transaction_quiet rfl fun _ _ _ => savePosition_move (.inr rfl)).bind fun _ =>
    Proc.within_pure _

theorem checkPosition_quiet {runKey : RunKey} {rules : SymbolRules} {tolerance : ℚ} :
    (checkPosition cfg runKey rules tolerance).Within (Quiet cfg) :=
  (LProc.within_exec (call_within _)).bind fun _ =>
    (LProc.within_exec (query_quiet rfl _)).bind fun _ =>
    (LProc.within_exec rebuild_quiet).bind fun _ =>
    (Exchange.run_quiet (Recording.run_exchange comparePosition_recording)).bind fun _ =>
    (LProc.within_exec (Exchange.within_quiet (Recording.within_exchange
      setBalances_recording))).bind fun _ =>
    (LProc.within_exec clockNow_within).bind fun _ =>
    (LProc.within_exec (Exchange.within_quiet (enqueue_exchange rfl))).bind fun _ =>
    Exchange.run_quiet (Recording.run_exchange checkProtectiveStop_recording)

theorem body_quiet {runKey : RunKey} {last : Option Time} :
    (body cfg runKey last).Within (Quiet cfg) :=
  (LProc.within_exec (call_within _)).bind fun _ =>
    (LProc.within_exec (query_quiet rfl _)).bind fun _ =>
    (LProc.within_exec (call_within _)).bind fun _ =>
    (LProc.Within.forM (fun _ => Exchange.run_quiet checkOpenOrder_exchange) _).bind fun _ =>
    (LProc.within_exec clockNow_within).bind fun _ =>
    (LProc.within_exec (query_quiet rfl _)).bind fun _ =>
    (LProc.Within.forM (fun _ => Exchange.run_quiet verifyTerminal_exchange) _).bind fun _ =>
    (LProc.Within.forM
      (fun _ => Exchange.run_quiet (Recording.run_exchange checkExchangeOpen_recording)) _).bind fun _ =>
    (LProc.within_exec (call_within _)).bind fun _ =>
    (LProc.Within.forM (fun _ => Exchange.run_quiet checkRecentFill_exchange) _).bind fun _ =>
    (LProc.within_exec (query_quiet rfl _)).bind fun _ =>
    (LProc.Within.forM
      (fun _ => Exchange.run_quiet (Recording.run_exchange checkFillsComplete_recording)) _).bind fun _ =>
    checkPosition_quiet

theorem query_move {l : Label} (f : Ledger → α) : (query l f).Within (Move cfg) :=
  query_within fun _ => .read

theorem transaction_move {l : Label} {t : Tx α}
    (ht : ∀ s a s', t s = .ok (a, s') → Move cfg l s s') : (transaction l t).Within (Move cfg) :=
  transaction_within (fun _ => .read) ht

theorem enqueue_quiet {l : Label} (hl : l.isPlain) {kind : OutboxKind} {key : OutboxKey}
    {message : OutboxMessage} {now : Time} :
    (transaction l (Store.enqueue kind key message now)).Within (Quiet cfg) :=
  Exchange.within_quiet (enqueue_exchange hl)

theorem enqueue_move {l : Label} (hl : l.isPlain) {kind : OutboxKind} {key : OutboxKey}
    {message : OutboxMessage} {now : Time} :
    (transaction l (Store.enqueue kind key message now)).Within (Move cfg) :=
  Quiet.within_move (enqueue_quiet hl)

theorem saveReconState_move {st : ReconciliationState} {now : Time} {l : Label} (hl : l.writesRow) :
    (transaction l (Store.saveReconState st now)).Within (Move cfg) :=
  transaction_move fun _ _ _ h => by
    cases h
    exact .recon hl rfl rfl

theorem setState_move {l : Label} {status : ReconciliationStatus} {reason : String} {success : Bool}
    {ws : Option Bool} (hl : l.writesRow) :
    (setState cfg l status reason success ws).Within (Move cfg) :=
  (query_move _).bind fun _ => (clockNow_within).bind fun _ => (saveReconState_move hl).bind
    fun _ => Proc.within_pure _

theorem touch_move : (touch cfg).Within (Move cfg) :=
  (query_move _).bind fun _ => (clockNow_within).bind fun _ => (saveReconState_move rfl).bind
    fun _ => Proc.within_pure _

theorem conclude_move {previous : ReconciliationState} {ack : Bool} {runKey : RunKey}
    {reason : String} {started : Time} {outcome : Except Exn PUnit} {f : Findings} :
    (conclude cfg previous ack runKey reason started outcome f).Within (Move cfg) := by
  cases outcome with
  | error e =>
    exact (Exchange.within_move (Recording.within_exchange persist_recording)).bind fun _ =>
      (setState_move rfl).bind fun _ => Proc.within_pure _
  | ok _ =>
    refine (Exchange.within_move (Recording.within_exchange persist_recording)).bind fun _ =>
      (setState_move rfl).bind fun _ => Proc.Within.ite ?_ ?_
    · exact (clockNow_within).bind fun _ => (enqueue_move rfl).bind fun _ => (enqueue_move rfl).bind
        fun _ => Proc.within_pure _
    · exact Proc.within_pure _

theorem run_move {reason : String} {ack : Bool} :
    (ReconciliationService.run cfg reason ack).Within (Move cfg) :=
  (clockNow_within).bind fun _ => (query_move _).bind fun _ => (freshNonce_within).bind fun _ =>
    (setState_move rfl).bind fun _ => (Quiet.within_move (body_quiet.outcome _)).bind fun _ =>
      conclude_move

/-! ## The reconciliation worker -/

open ReconciliationWorker

theorem updateRow_move {l : Label} {f : Time → ReconciliationState → ReconciliationState}
    (hl : l.writesRow) : (updateRow cfg l f).Within (Move cfg) :=
  (query_move _).bind fun _ => (clockNow_within).bind fun _ => (saveReconState_move hl).bind
    fun _ => Proc.within_pure _

theorem reconcile_move {reason : String} {ack : Bool} :
    (reconcile cfg reason ack).Within (Move cfg) :=
  run_move.bind fun _ => (streamConnected_within).bind fun _ =>
    .ite ((setState_move rfl).bind fun _ => Proc.within_pure _) (Proc.within_pure _)

theorem onState_move {state : StreamState} {detail : String} :
    (onState cfg state detail).Within (Move cfg) := by
  cases state with
  | connecting => exact (query_move _).bind fun _ => .ite (setState_move rfl) (Proc.within_pure _)
  | disconnected => exact (query_move _).bind fun _ => .ite (setState_move rfl) (setState_move rfl)
  | subscribed =>
    exact (updateRow_move rfl).bind fun _ => reconcile_move.bind fun _ => Proc.within_pure _

theorem onEvent_move {ev : StreamEvent} : (onEvent cfg ev).Within (Move cfg) :=
  (Exchange.within_move handle_exchange).bind fun _ =>
    (updateRow_move rfl).bind fun _ => Proc.within_pure _

theorem pollControl_move {last : Option String} : (pollControl cfg last).Within (Move cfg) := by
  refine (call_within _).attempt.bind fun r => ?_
  cases r with
  | error e => exact Proc.within_pure _
  | ok control =>
    exact .ite ((reconcile_move.bind fun _ => updateRow_move rfl).attempt.bind fun _ =>
      Proc.within_pure _) (Proc.within_pure _)

theorem start_move : (start cfg).Within (Move cfg) :=
  (query_move _).bind fun _ => .ite (setState_move rfl) (Proc.within_pure _)

end

/-! ## The trading cycle -/

section
variable {cfg : Config}

open TradingCycle

theorem nextIntentId_quiet {base : IntentBase} {attempt n : Nat} :
    (nextIntentId base attempt n).Within (Quiet cfg) := by
  induction n generalizing attempt with
  | zero => exact Proc.within_pure _
  | succ n ih =>
    refine (query_quiet rfl _).bind fun existing => ?_
    cases existing with
    | none => exact Proc.within_pure _
    | some o => exact ih.ite (Proc.within_pure _)

theorem submit_quiet {purpose : OrderPurpose} {side : OrderSide} {qty refPrice : ℚ}
    {rules : SymbolRules} {base : IntentBase} {signalId : Option SignalId} {orderType : OrderType}
    {limit stop : Option ℚ} :
    (submit cfg purpose side qty rules refPrice base signalId orderType limit stop).Within
      (Quiet cfg) := by
  refine nextIntentId_quiet.bind fun iid => ?_
  cases iid with
  | none =>
    exact (clockNow_within).bind fun _ => (enqueue_quiet rfl).bind fun _ => (enqueue_quiet rfl).bind
      fun _ => Proc.within_pure _
  | some iid => exact submitIntent_quiet

theorem cancelStops_quiet {orders : List Order} : (cancelStops cfg orders).Within (Quiet cfg) := by
  induction orders with
  | nil => exact Proc.within_pure _
  | cons o os ih =>
    exact .ite ((Exchange.within_quiet cancel_exchange).bind fun _ => (orRaise_within _ _).bind fun _ =>
      ih.ite (Proc.within_pure _)) ih

theorem sellPosition_quiet {purpose : OrderPurpose} {rules : SymbolRules} {refPrice : ℚ} :
    (sellPosition cfg purpose rules refPrice).Within (Quiet cfg) := by
  refine (query_quiet rfl _).bind fun p => .ite (Proc.within_pure _) (submit_quiet.bind fun o => ?_)
  cases o with
  | none => exact Proc.within_pure _
  | some o =>
    exact (query_quiet rfl _).bind fun _ => .ite (Proc.within_pure _) (Proc.within_pure _)

theorem exit_quiet {purpose : OrderPurpose} {rules : SymbolRules} {refPrice : ℚ} :
    (exit cfg purpose rules refPrice).Within (Quiet cfg) :=
  (query_quiet rfl _).bind fun _ => cancelStops_quiet.bind fun _ =>
    sellPosition_quiet.ite (Proc.within_pure _)

theorem ensureProtectiveStop_quiet {p : Position} {rules : SymbolRules} :
    (ensureProtectiveStop cfg p rules).Within (Quiet cfg) := by
  refine (query_quiet rfl _).bind fun open_ => ?_
  split
  · exact Proc.within_pure _
  · refine .ite (Proc.within_pure _) (.ite (Proc.within_pure _) (submit_quiet.bind fun o => ?_))
    cases o <;> exact Proc.within_pure _

theorem setRiskDay_quiet {day : RiskDay} :
    (transaction .commit (Store.setRiskDay cfg.bot day)).Within (Quiet cfg) :=
  transaction_quiet rfl fun _ _ _ h => by cases h; exact .exchange ⟨rfl, .keep rfl⟩

theorem readFunds_quiet {rules : SymbolRules} {snap : MarketSnapshot} :
    (readFunds cfg rules snap).Within (Quiet cfg) := by
  refine (call_within _).attempt.bind fun r => ?_
  cases r with
  | error e => exact (query_quiet rfl _).bind fun _ => Proc.within_pure _
  | ok bal =>
    exact (query_quiet rfl _).bind fun _ => (clockNow_within).bind fun _ =>
      ((query_quiet rfl _).bind fun _ => setRiskDay_quiet.bind fun _ => Proc.within_pure _).bind
      fun _ => Proc.within_pure _

theorem refreshInFlight_quiet {orders : List Order} :
    (refreshInFlight cfg orders).Within (Quiet cfg) :=
  Proc.Within.forM (fun _ =>
    .ite ((Exchange.within_quiet resolveAmbiguous_exchange).attempt.bind fun _ => Proc.within_pure _)
    ((Exchange.within_quiet refresh_exchange).attempt.bind fun _ => Proc.within_pure _)) orders

theorem manageOpen_quiet {control : Control} {rules : SymbolRules} {snap : MarketSnapshot}
    {signal : Signal} {p : Position} :
    (manageOpen cfg control rules snap signal p).Within (Quiet cfg) := by
  unfold manageOpen
  dsimp only
  split
  · exact exit_quiet.bind fun _ => Proc.within_pure _
  · exact .ite (exit_quiet.bind fun _ => Proc.within_pure _)
      (.ite (ensureProtectiveStop_quiet.bind fun _ => Proc.within_pure _) (Proc.within_pure _))

theorem setStop_quiet {price : ℚ} {now : Time} :
    (transaction .commit (PositionService.setStop cfg.bot cfg.symbol price now)).Within
      (Quiet cfg) :=
  transaction_quiet rfl fun _ _ _ h => by
    obtain ⟨_, _, hget, h₁⟩ := Tx.bind_ok.1 h
    cases hget
    exact savePosition_move (.inl rfl) h₁

theorem protectEntry_quiet {rules : SymbolRules} {o : Order} :
    (protectEntry cfg rules o).Within (Quiet cfg) :=
  .ite ((query_quiet rfl _).bind fun _ => .ite
    ((clockNow_within).bind fun _ => setStop_quiet.bind fun _ =>
      .ite (ensureProtectiveStop_quiet.bind fun _ => Proc.within_pure _) (Proc.within_pure _))
    (Proc.within_pure _)) (Proc.within_pure _)

theorem tryEntry_quiet {control : Control} {st : ReconciliationState} {entriesOk : Bool}
    {funds : Funds} {rules : SymbolRules} {snap : MarketSnapshot} {signal : Signal}
    {signalId : SignalId} :
    (tryEntry cfg control st entriesOk funds rules snap signal signalId).Within (Quiet cfg) := by
  refine .ite (Proc.within_pure _) ((query_quiet rfl _).bind fun _ => (query_quiet rfl _).bind fun _ =>
    .ite (Proc.within_pure _) ?_)
  dsimp only
  split
  · exact Proc.within_pure _
  · refine submit_quiet.bind fun o => ?_
    cases o with
    | none => exact Proc.within_pure _
    | some o => exact protectEntry_quiet.bind fun _ => Proc.within_pure _

theorem decideOrders_quiet {control : Control} {st : ReconciliationState} {entriesOk : Bool}
    {funds : Funds} {rules : SymbolRules} {snap : MarketSnapshot} {signal : Signal}
    {signalId : SignalId} :
    (decideOrders cfg control st entriesOk funds rules snap signal signalId).Within (Quiet cfg) := by
  refine (query_quiet rfl _).bind fun _ => refreshInFlight_quiet.bind fun _ =>
    (query_quiet rfl _).bind fun _ =>
    .ite (Proc.within_pure _) ((query_quiet rfl _).bind fun p => .ite ?_ tryEntry_quiet)
  split
  · exact manageOpen_quiet
  · exact (clockNow_within).bind fun _ => setStop_quiet.bind fun _ => manageOpen_quiet

theorem trade_quiet {control : Control} {st : ReconciliationState} {entriesOk : Bool} :
    (trade cfg control st entriesOk).Within (Quiet cfg) := by
  refine (call_within _).bind fun snap => ?_
  cases snap with
  | error reason => exact Proc.within_pure _
  | ok snap =>
    refine (call_within _).bind fun _ => (clockNow_within).bind fun _ =>
      (transaction_quiet rfl fun _ _ _ h => ?_).bind fun _ => readFunds_quiet.bind fun _ =>
      (call_within _).bind fun _ => (clockNow_within).bind fun _ => (enqueue_quiet rfl).bind fun _ =>
      decideOrders_quiet
    obtain ⟨_, _, hget, h₁⟩ := Tx.bind_ok.1 h
    cases hget
    exact savePosition_move (.inl rfl) h₁

theorem reconciliationGate_move {control : Control} :
    (reconciliationGate cfg control).Within (Move cfg) :=
  (query_move _).bind fun _ => .ite
    (run_move.bind fun _ => .ite
      ((query_move _).bind fun _ => (clockNow_within).bind fun _ =>
        (saveReconState_move rfl).bind fun _ => query_move _)
      (query_move _))
    (Proc.within_pure _)

theorem runOnce_move : (runOnce cfg).Within (Move cfg) := by
  refine (clockNow_within).bind fun _ => (call_within _).attempt.bind fun control => ?_
  cases control with
  | error e => exact (enqueue_move rfl).bind fun _ => Proc.within_pure _
  | ok control =>
    refine (call_within _).attempt.bind fun valid => ?_
    cases valid with
    | error e => exact Proc.within_pure _
    | ok _ =>
      exact reconciliationGate_move.bind fun _ => (clockNow_within).bind fun _ =>
        (clockNow_within).bind fun _ => .ite (Proc.within_pure _)
          ((Quiet.within_move trade_quiet).bind fun _ => Proc.within_pure _)

end

end CryptoBot
