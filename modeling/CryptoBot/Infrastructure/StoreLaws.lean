import CryptoBot.Domain.OrderMachine
import CryptoBot.Infrastructure.Store

/-!
# Laws of the store

What each statement of the store does to the ledger, and how the look-ups see it.
-/

namespace CryptoBot

open Lib

variable {s s' : Ledger}

/-! ## Sequencing -/

namespace Tx

variable {α β : Type}

theorem bind_ok {x : Tx α} {f : α → Tx β} {b : β} :
    (x >>= f) s = .ok (b, s') ↔ ∃ a s₁, x s = .ok (a, s₁) ∧ f a s₁ = .ok (b, s') := by
  simp only [bind, StateT.bind]
  cases x s with
  | error e => simp [Except.bind]
  | ok r =>
    constructor
    · exact fun h => ⟨r.1, r.2, rfl, h⟩
    · rintro ⟨_, _, ⟨⟩, h⟩
      exact h

/-- A transaction goes on where its first part ends. -/
theorem bind_eq {x : Tx α} {f : α → Tx β} {a : α} (h : x s = .ok (a, s')) :
    (x >>= f) s = f a s' := by
  simp only [bind, StateT.bind, h, Except.bind]

theorem pure_ok {a b : α} : (pure a : Tx α) s = .ok (b, s') ↔ a = b ∧ s = s' := by
  show Except.ok (a, s) = .ok (b, s') ↔ _
  simp only [Except.ok.injEq, Prod.mk.injEq]

end Tx

/-! ## Look-ups -/

namespace Ledger

/-- The row looked up under a client order id is the one order with that id. -/
theorem getOrder_eq_some {c : String} {o : Order} :
    s.getOrder c = some o ↔ o ∈ s.orders.rows ∧ o.clientOrderId = c :=
  Table.find?_eq_some Order.clientOrderId (fun _ _ h => h.2.1) s.orders

theorem getOrder_of_mem {o : Order} (ho : o ∈ s.orders.rows) :
    s.getOrder o.clientOrderId = some o := getOrder_eq_some.2 ⟨ho, rfl⟩

theorem getOrder_eq_none {c : String} :
    s.getOrder c = none ↔ ∀ o ∈ s.orders.rows, o.clientOrderId ≠ c := by
  simp [getOrder, List.find?_eq_none]

/-- The row looked up under an intent id is the one order of that intent. -/
theorem getOrder_congr (h : s'.orders = s.orders) (c : String) : s'.getOrder c = s.getOrder c := by
  rw [getOrder, getOrder, h]

theorem getOrderByIntent_eq_some {i : IntentId} {o : Order} :
    s.getOrderByIntent i = some o ↔ o ∈ s.orders.rows ∧ o.clientIntentId = i :=
  Table.find?_eq_some Order.clientIntentId (fun _ _ h => h.2.2.1) s.orders

theorem getOrderByIntent_eq_none {i : IntentId} :
    s.getOrderByIntent i = none ↔ ∀ o ∈ s.orders.rows, o.clientIntentId ≠ i := by
  simp [getOrderByIntent, List.find?_eq_none]

theorem getOrderByExchangeId_mem {e x : String} {o : Order}
    (h : s.getOrderByExchangeId e x = some o) :
    o ∈ s.orders.rows ∧ o.exchange = e ∧ o.exchangeOrderId = some x :=
  ⟨List.mem_of_find?_eq_some h, by simpa using List.find?_some h⟩

/-- Two orders with one row id are the same row. -/
theorem eq_of_id {a b : Order} (ha : a ∈ s.orders.rows) (hb : b ∈ s.orders.rows)
    (h : a.id = b.id) : a = b :=
  Table.eq_of_key Order.id (fun _ _ h => h.1.ne) s.orders ha hb h

theorem eq_of_clientOrderId {a b : Order} (ha : a ∈ s.orders.rows) (hb : b ∈ s.orders.rows)
    (h : a.clientOrderId = b.clientOrderId) : a = b :=
  Table.eq_of_key Order.clientOrderId (fun _ _ h => h.2.1) s.orders ha hb h

/-- Two orders of an exchange with one exchange id are the same row. -/
theorem eq_of_exchangeOrderId {a b : Order} (ha : a ∈ s.orders.rows)
    (hb : b ∈ s.orders.rows) (hexchange : a.exchange = b.exchange)
    (hsome : a.exchangeOrderId.isSome) (h : a.exchangeOrderId = b.exchangeOrderId) : a = b := by
  let R (a b : Order) : Prop := a.exchange = b.exchange → a.exchangeOrderId.isSome →
    a.exchangeOrderId = b.exchangeOrderId → a = b
  have hpair : s.orders.rows.Pairwise R := s.orders.ok.imp fun {a b} hab he hsome h =>
    absurd ⟨he, hsome, h⟩ hab.2.2.2
  have hflip : s.orders.rows.Pairwise (flip R) := s.orders.ok.imp fun {a b} hab he hsome h =>
    absurd ⟨he.symm, h ▸ hsome, h.symm⟩ hab.2.2.2
  exact List.Pairwise.forall_of_forall_of_flip (R := R) (fun _ _ _ _ _ => rfl) hpair hflip ha hb
    hexchange hsome h

theorem getOrderByExchangeId_of_mem {e x : String} {o : Order} (ho : o ∈ s.orders.rows)
    (hexchange : o.exchange = e) (hx : o.exchangeOrderId = some x) :
    s.getOrderByExchangeId e x = some o := by
  cases hf : s.getOrderByExchangeId e x with
  | none =>
    have hnone := List.find?_eq_none.1 hf o ho
    simp [hexchange, hx] at hnone
  | some w =>
    obtain ⟨hw, hwe, hwx⟩ := getOrderByExchangeId_mem hf
    rw [eq_of_exchangeOrderId hw ho (hwe.trans hexchange.symm) (by rw [hwx]; rfl)
      (hwx.trans hx.symm)]

theorem mem_nonTerminalOrders {bot : String} {symbol : Symbol} {o : Order} :
    o ∈ s.nonTerminalOrders bot symbol ↔
      o ∈ s.orders.rows ∧ o.bot = bot ∧ o.symbol = symbol ∧ o.isTerminal = false := by
  simp [nonTerminalOrders, and_assoc]

theorem mem_of_newestOrders {bot : String} {symbol : Symbol} {n : Nat} {o : Order}
    (h : o ∈ s.newestOrders bot symbol n) : o ∈ s.orders.rows := by
  have := List.mem_of_mem_take h
  simp only [List.mem_reverse, List.mem_filter] at this
  exact this.1

/-- The ledger without its records of events, runs, messages, balances and risk. -/
def books (s : Ledger) : Ledger :=
  { intents := s.intents, orders := s.orders, fills := s.fills, positions := s.positions
    reconState := s.reconState }

/-! ## Replacing an order -/

/-- The row `o` has become `o'`, and nothing else of the books has changed. -/
structure Replaced (s s' : Ledger) (o o' : Order) : Prop where
  mem : o ∈ s.orders.rows
  same : Order.Same o o'
  rows : s'.orders.rows = s.orders.rows.map fun r => if r.id = o.id then o' else r
  rest : s'.books = { s.books with orders := s'.orders }

namespace Replaced

variable {o o' : Order}

theorem intents (h : Replaced s s' o o') : s'.intents = s.intents :=
  (congrArg Ledger.intents h.rest :)

theorem fills (h : Replaced s s' o o') : s'.fills = s.fills := (congrArg Ledger.fills h.rest :)

theorem positions (h : Replaced s s' o o') : s'.positions = s.positions :=
  (congrArg Ledger.positions h.rest :)

theorem reconState (h : Replaced s s' o o') : s'.reconState = s.reconState :=
  (congrArg Ledger.reconState h.rest :)

/-- What follows in the same transaction may leave further records. -/
theorem of_books {t : Ledger} (h : Replaced s s' o o') (ht : t.books = s'.books) :
    Replaced s t o o' :=
  have horders : t.orders = s'.orders := (congrArg Ledger.orders ht :)
  ⟨h.mem, h.same, by rw [horders, h.rows], by rw [ht, h.rest, horders]⟩

theorem mem_iff (h : Replaced s s' o o') {x : Order} :
    x ∈ s'.orders.rows ↔ x = o' ∨ x ∈ s.orders.rows ∧ x.id ≠ o.id := by
  rw [h.rows, List.mem_map]
  constructor
  · rintro ⟨r, hr, rfl⟩
    split
    · exact .inl rfl
    · next hne => exact .inr ⟨hr, hne⟩
  · rintro (rfl | ⟨hx, hne⟩)
    · exact ⟨o, h.mem, if_pos rfl⟩
    · exact ⟨x, hx, if_neg hne⟩

theorem mem_new (h : Replaced s s' o o') : o' ∈ s'.orders.rows := h.mem_iff.2 (.inl rfl)

theorem getOrder_new (h : Replaced s s' o o') : s'.getOrder o.clientOrderId = some o' :=
  getOrder_eq_some.2 ⟨h.mem_new, h.same.clientOrderId⟩

/-- Every other order is found as before. -/
theorem getOrder_of_ne (h : Replaced s s' o o') {c : String} (hc : c ≠ o.clientOrderId) :
    s'.getOrder c = s.getOrder c := by
  refine Option.ext fun x => ?_
  rw [getOrder_eq_some, getOrder_eq_some, h.mem_iff]
  constructor
  · rintro ⟨rfl | ⟨hx, _⟩, hxc⟩
    · exact absurd (hxc.symm.trans h.same.clientOrderId) hc
    · exact ⟨hx, hxc⟩
  · rintro ⟨hx, hxc⟩
    refine ⟨.inr ⟨hx, fun hid => hc ?_⟩, hxc⟩
    rw [← hxc, eq_of_id hx h.mem hid]

theorem getOrder_isSome (h : Replaced s s' o o') (c : String) :
    (s'.getOrder c).isSome = (s.getOrder c).isSome := by
  by_cases hc : c = o.clientOrderId
  · rw [hc, h.getOrder_new, getOrder_of_mem h.mem]; rfl
  · rw [h.getOrder_of_ne hc]

end Replaced

/-- The recorded fills of an order depend on its row id only. -/
theorem fillQuantity_congr {o o' : Order} (hf : s'.fills = s.fills) (hid : o'.id = o.id) :
    s'.fillQuantity o' = s.fillQuantity o := by
  simp only [fillQuantity, fillsForOrder, hf, hid]

/-! ## Positions -/

/-- The position saved for a bot and a symbol is the one found for them. -/
theorem getPosition_upsert_self {ps : List Position} {p : Position} {bot : String} {symbol : Symbol}
    (h : s'.positions = Store.upsertPosition ps p) (hbot : p.bot = bot)
    (hsymbol : p.symbol = symbol) : s'.getPosition bot symbol = p := by
  subst hbot hsymbol
  rw [getPosition, h, Store.upsertPosition]
  dsimp only
  split
  · next hany =>
    rw [List.find?_map]
    obtain ⟨q, hq, hhit⟩ := List.any_eq_true.1 hany
    cases hf : ps.find? ((fun q => decide (q.bot = p.bot ∧ q.symbol = p.symbol)) ∘
        fun q => if decide (q.bot = p.bot ∧ q.symbol = p.symbol) = true then p else q) with
    | none =>
      have := List.find?_eq_none.1 hf q hq
      simp [of_decide_eq_true hhit] at this
    | some x =>
      have hx := List.find?_some hf
      simp only [Function.comp_apply, decide_eq_true_eq] at hx
      simp only [Option.map_some, Option.getD_some, decide_eq_true_eq]
      split
      · rfl
      · next hn =>
        rw [if_neg hn] at hx
        exact absurd hx hn
  · next hany =>
    rw [List.find?_append, List.find?_eq_none.2]
    · simp
    · intro q hq hhit
      exact hany (List.any_eq_true.2 ⟨q, hq, hhit⟩)

theorem getPosition_upsert_of_ne {p : Position} {bot : String} {symbol : Symbol}
    (hne : ¬ (p.bot = bot ∧ p.symbol = symbol))
    (hp : s'.positions = Store.upsertPosition s.positions p) :
    s'.getPosition bot symbol = s.getPosition bot symbol := by
  rw [getPosition, getPosition, hp, Store.upsertPosition]
  dsimp only
  congr 1
  split
  · rw [List.find?_map]
    have : (fun q : Position => decide (q.bot = bot ∧ q.symbol = symbol)) ∘
        (fun q => if decide (q.bot = p.bot ∧ q.symbol = p.symbol) = true then p else q) =
        fun q => decide (q.bot = bot ∧ q.symbol = symbol) := by
      funext q
      simp only [Function.comp_apply, decide_eq_true_eq]
      split
      · next h => rw [h.1, h.2]
      · rfl
    rw [this]
    cases hf : s.positions.find? fun q => decide (q.bot = bot ∧ q.symbol = symbol) with
    | none => rfl
    | some x =>
      have hx := List.find?_some hf
      simp only [decide_eq_true_eq] at hx
      simp only [Option.map_some, decide_eq_true_eq, Option.some.injEq]
      rw [if_neg]
      rintro ⟨h₁, h₂⟩
      exact hne ⟨h₁ ▸ hx.1, h₂ ▸ hx.2⟩
  · rw [List.find?_append]
    simp [hne]

theorem getPosition_congr (h : s'.positions = s.positions) (bot : String) (symbol : Symbol) :
    s'.getPosition bot symbol = s.getPosition bot symbol := by
  rw [getPosition, getPosition, h]

/-- The position kept for a bot and a symbol carries that bot and that symbol. -/
theorem getPosition_key (s : Ledger) (bot : String) (symbol : Symbol) :
    (s.getPosition bot symbol).bot = bot ∧ (s.getPosition bot symbol).symbol = symbol := by
  unfold getPosition
  cases h : s.positions.find? _ with
  | none => exact ⟨rfl, rfl⟩
  | some p => simpa using List.find?_some h

@[simp] theorem getReconState_bot (s : Ledger) (bot : String) :
    (s.getReconState bot).bot = bot := by
  unfold getReconState
  split <;> rfl

theorem getReconState_congr (h : s'.reconState = s.reconState) (bot : String) :
    s'.getReconState bot = s.getReconState bot := by
  rw [getReconState, getReconState, h]

/-- The reconciliation row of a bot after a row was written. -/
theorem getReconState_update {st : ReconciliationState}
    (h : s'.reconState = Function.update s.reconState st.bot (some st)) :
    s'.getReconState st.bot = st := by
  rw [getReconState, h]
  simp

end Ledger

/-! ## Statements -/

namespace Store

section
variable {kind : OutboxKind} {key : OutboxKey} {message : OutboxMessage} {now : Time}

/-- A message always finds its place in the outbox. -/
theorem enqueue_eq_ok (kind : OutboxKind) (key : OutboxKey) (message : OutboxMessage) (now : Time)
    (s : Ledger) : ∃ outbox, enqueue kind key message now s = .ok (⟨⟩, { s with outbox }) := by
  unfold enqueue
  split <;> exact ⟨_, rfl⟩

theorem enqueue_isOk (kind : OutboxKind) (key : OutboxKey) (message : OutboxMessage) (now : Time)
    (s : Ledger) : ∃ s', enqueue kind key message now s = .ok (⟨⟩, s') :=
  (enqueue_eq_ok kind key message now s).imp' _ fun _ h => h

theorem enqueueOrder_eq_ok (o : Order) (now : Time) (s : Ledger) :
    ∃ outbox, enqueueOrder o now s = .ok (⟨⟩, { s with outbox }) := enqueue_eq_ok ..

theorem enqueueEvent_eq_ok (bot message : String) (type : EventType) (severity : EventSeverity)
    (payload : EventPayload) (key : OutboxKey) (alert : Bool) (now : Time) (s : Ledger) :
    ∃ outbox, enqueueEvent bot type message severity payload key alert now s =
      .ok (⟨⟩, { s with outbox }) := by
  unfold enqueueEvent
  obtain ⟨outbox, h⟩ := enqueue_eq_ok .events key (.event type severity message payload now) now s
  rw [Tx.bind_eq h]
  cases alert with
  | false => exact ⟨outbox, rfl⟩
  | true => exact enqueue_eq_ok ..

/-- A message leaves the books alone. -/
theorem enqueue_books (h : enqueue kind key message now s = .ok (⟨⟩, s')) :
    s'.books = s.books := by
  unfold enqueue at h
  split at h <;> (cases h; rfl)

theorem enqueueOrder_books {o : Order} (h : enqueueOrder o now s = .ok (⟨⟩, s')) :
    s'.books = s.books := enqueue_books h

theorem enqueueEvent_books {bot message : String} {type : EventType} {severity : EventSeverity}
    {payload : EventPayload} {alert : Bool}
    (h : enqueueEvent bot type message severity payload key alert now s = .ok (⟨⟩, s')) :
    s'.books = s.books := by
  obtain ⟨_, s₁, h₁, h⟩ := Tx.bind_ok.1 h
  cases alert with
  | false => obtain ⟨-, rfl⟩ := Tx.pure_ok.1 h; exact enqueue_books h₁
  | true => rw [enqueue_books h, enqueue_books h₁]

end

theorem lt_nextId {ids : List Nat} {i : Nat} (hi : i ∈ ids) : i < nextId ids := by
  unfold nextId
  induction ids with
  | nil => cases hi
  | cons j ids ih =>
    rw [List.foldr_cons]
    rcases List.mem_cons.1 hi with rfl | hi
    · omega
    · have := ih hi
      omega

/-- Saving an order over its own row replaces the row. -/
theorem saveOrder_ok {x o o' : Order} (hx : x ∈ s.orders.rows) (hs : Order.Same x o)
    (h : saveOrder o s = .ok (o', s')) :
    o' = { o with version := o.version + 1 } ∧ Ledger.Replaced s s' x o' := by
  unfold saveOrder at h
  dsimp only at h
  split at h
  · next hany =>
    obtain ⟨r, hr, hhit⟩ := List.any_eq_true.1 hany
    have hhit := of_decide_eq_true hhit
    obtain rfl := Ledger.eq_of_id hr hx (hhit.1.trans hs.id)
    split at h
    · next orders horders =>
      cases h
      refine ⟨rfl, hx, ?_, ?_, rfl⟩
      · exact hs.trans (by constructor <;> rfl)
      · rw [Table.update?_eq_some.1 horders]
        refine List.map_congr_left fun y hy => ?_
        by_cases hid : y.id = r.id
        · obtain rfl := Ledger.eq_of_id hy hr hid
          simp only [hhit, and_self, decide_true, if_true]
          rw [savedRow]
          cases o
          cases y
          cases hs
          simp_all
        · rw [if_neg hid, if_neg (by simp [hs.id, hid])]
    · cases h
  · cases h

/-- Saving an order over its own row succeeds, unless another order has its exchange id. -/
theorem saveOrder_isOk {x o : Order} (hx : x ∈ s.orders.rows) (hs : Order.Same x o)
    (hversion : o.version = x.version)
    (hunique : ∀ y ∈ s.orders.rows, y.id ≠ x.id → o.exchangeOrderId.isSome →
      ¬ (y.exchange = x.exchange ∧ y.exchangeOrderId = o.exchangeOrderId)) :
    ∃ orders, saveOrder o s = .ok ({ o with version := o.version + 1 }, { s with orders }) := by
  have hany : (s.orders.rows.any fun r => decide (r.id = o.id ∧ r.version = o.version)) = true :=
    List.any_eq_true.2 ⟨x, hx, decide_eq_true ⟨hs.id.symm, hversion.symm⟩⟩
  unfold saveOrder
  dsimp only
  rw [if_pos hany]
  cases hupdate : s.orders.update? (fun r => decide (r.id = o.id ∧ r.version = o.version))
      (savedRow · o) with
  | some orders => exact ⟨orders, rfl⟩
  | none =>
    -- the only column under a constraint that changes is the exchange id
    refine absurd ?_ (Table.commit?_eq_none.1 hupdate)
    refine List.pairwise_map.2 (s.orders.ok.imp_of_mem fun {a b} ha hb hab => ?_)
    have hit {y : Order} (hy : y ∈ s.orders.rows)
        (h : decide (y.id = o.id ∧ y.version = o.version) = true) : y = x :=
      Ledger.eq_of_id hy hx ((of_decide_eq_true h).1.trans hs.id)
    have hne (y : Order) (hy : y ∈ s.orders.rows) (hid : y.id ≠ x.id) :
        ¬ (y.exchange = x.exchange ∧ o.exchangeOrderId.isSome ∧
          y.exchangeOrderId = o.exchangeOrderId) :=
      fun h => hunique y hy hid h.2.1 ⟨h.1, h.2.2⟩
    split
    · next hhit =>
      obtain rfl := hit ha hhit
      rw [if_neg fun h => hab.1.ne (congrArg Order.id (hit hb h)).symm]
      refine ⟨hab.1, hab.2.1, hab.2.2.1, fun h => ?_⟩
      exact hne b hb hab.1.ne' ⟨h.1.symm, h.2.1, h.2.2.symm⟩
    · split
      · next hhit =>
        obtain rfl := hit hb hhit
        refine ⟨hab.1, hab.2.1, hab.2.2.1, fun h => ?_⟩
        have hid : a.exchangeOrderId = o.exchangeOrderId := h.2.2
        exact hne a ha hab.1.ne ⟨h.1, hid ▸ h.2.1, hid⟩
      · exact hab

/-- A new fill is a new row of the table; a recorded one changes nothing. -/
theorem insertFill_ok {f : Fill} {r : Option Fill} (h : insertFill f s = .ok (r, s')) :
    (r = none ∧ s' = s ∧ ¬ ∀ g ∈ s.fills.rows, Fill.Compatible g
      { f with id := nextId (s.fills.rows.map (·.id)) }) ∨
    ∃ g, r = some g ∧ g = { f with id := nextId (s.fills.rows.map (·.id)) } ∧
      (∀ x ∈ s.fills.rows, Fill.Compatible x g) ∧
      s'.fills.rows = s.fills.rows ++ [g] ∧ s'.books = { s.books with fills := s'.fills } := by
  unfold insertFill at h
  dsimp only at h
  split at h
  · next fills hf =>
    cases h
    have := Table.insert?_isSome (t := s.fills) (r := { f with
      id := nextId (s.fills.rows.map (·.id)) })
    rw [hf] at this
    exact .inr ⟨_, rfl, rfl, this.1 rfl, Table.insert?_eq_some.1 hf, rfl⟩
  · next hf =>
    cases h
    have := Table.insert?_isSome (t := s.fills) (r := { f with
      id := nextId (s.fills.rows.map (·.id)) })
    rw [hf] at this
    exact .inl ⟨rfl, rfl, fun hc => by simpa using this.2 hc⟩

theorem savePosition_ok {p q : Position} {now : Time} (h : savePosition p now s = .ok (q, s')) :
    q = { p with updatedAt := some now } ∧ s'.positions = upsertPosition s.positions q ∧
      s'.books = { s.books with positions := s'.positions } := by
  cases h
  exact ⟨rfl, rfl, rfl⟩

end Store

end CryptoBot
