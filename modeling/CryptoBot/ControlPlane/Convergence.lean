import CryptoBot.ControlPlane.EndToEnd

/-!
# The mirror of a drained outbox

When every message to the control plane is sent, the mirror shows the orders and the executions of
the ledger as they are stored, and of the bot nothing else.
-/

namespace CryptoBot

open Lib InternalApi

/-! ## The mirror of an execution -/

/-- The row `RecordFill` writes, with the order it has looked up. -/
def Mirror.fillRow (cols : ColumnLib) (bot : String) (order : Option String) (d : Fill) : FillRow where
  bot := bot
  order := order
  clientOrderId := d.clientOrderId
  exchangeTradeId := d.exchangeTradeId
  symbol := d.symbol
  side := d.side
  quantity := cols.amount d.quantity
  price := cols.amount d.price
  quoteQuantity := cols.amount d.quoteQuantity
  commission := cols.amount d.commission
  commissionAsset := d.commissionAsset
  executionTime := wholeSeconds d.executionTime
  eventKey := d.eventKey

section
variable {cols : ColumnLib} {bot : String} {m : Mirror}

theorem Mirror.fill?_eventKey {k : String} {row : FillRow} (h : m.fill? k = some row) :
    row.eventKey = k := by
  simpa using List.find?_some h

/-- A row that is there after an execution was inserted was there, or is the row of the execution. -/
theorem Mirror.insertFill_fill?_cases {order : Option String} {d : Fill} {k : String}
    {row : FillRow} (h : (m.insertFill cols bot order d).2.fill? k = some row) :
    m.fill? k = some row ∨ row = Mirror.fillRow cols bot order d := by
  unfold Mirror.insertFill at h
  split at h
  · next fills hins =>
    change fills.rows.find? _ = some row at h
    rw [Mirror.find?_insert hins, Option.or_eq_some_iff] at h
    rcases h with h | ⟨-, h⟩
    · exact .inl h
    · split at h
      · exact .inr (Option.some.inj h).symm
      · cases h
  · exact .inl h

end

/-- An action other than that of an execution leaves the executions. -/
theorem InternalApi.record_fill? {cols : ColumnLib} {bot requestId : String} {s s' : ApiState}
    {d : OutboxMessage} {x : ResponseBody} (h : record cols bot requestId s d = some (x, s'))
    (k : String) : s'.mirror.fill? k = s.mirror.fill? k := by
  have hdeliver {f : Option Mirror} {y : ResponseBody} (hd : d.tellsFill = false)
      (hf : ∀ m, f = some m → Mirror.Delivered cols bot d s.mirror m)
      (h : f.map (fun mirror => (y, { s with mirror })) = some (x, s')) :
      s'.mirror.fill? k = s.mirror.fill? k := by
    obtain ⟨m, hm, he⟩ := Option.map_eq_some_iff.1 h
    obtain ⟨-, rfl⟩ := Prod.mk.inj he
    have hnew : Mirror.newFill cols bot s.mirror k d = none := by
      cases d with
      | fill => cases hd
      | _ => rfl
    exact ((hf m hm).fills k).trans (by rw [hnew, Option.or_none])
  cases d with
  | signal | order | position => exact hdeliver rfl (fun _ hm => Mirror.deliver_delivered hm) h
  | event =>
    obtain ⟨-, rfl⟩ := Prod.mk.inj (Option.some.inj h)
    unfold recordEvent
    split <;> rfl
  | reconciliation =>
    obtain ⟨-, rfl⟩ := Prod.mk.inj (Option.some.inj h)
    unfold recordRun
    split <;> rfl
  | fill | telegram => cases h

namespace Link

variable {link : Link}

/-- What the mirror shows of an execution as one of the bot was in a message of the outbox. -/
def FillSourced (link : Link) (s : Ledger) (k : String) (a : ApiState) : Prop :=
  ∀ row, a.mirror.fill? k = some row → row.bot = link.engine.bot → ∃ r ∈ s.outbox, ∃ f,
    r.message = .fill f ∧ row = Mirror.fillRow link.api.cols link.engine.bot row.order f

/-- No action shows anything of an execution of the bot that was not in the outbox. -/
theorem kept_fillSourced {s : Ledger} {k : String} :
    (service link.api).Kept (link.Authentic s) (link.FillSourced s k) := by
  rintro r - hr ⟨htoken, -⟩
  refine handler_within (fun _ _ h => h) ?_ ?_
  · intro body hb hvalid t x app h ha row hrow
    exact ha row (record_fill? h k ▸ hrow)
  · intro body hb hvalid f hf order t ha row hrow (hbot : row.bot = _)
    rcases Mirror.insertFill_fill?_cases hrow with hrow | rfl
    · exact ha row hrow hbot
    · have hbot : r.routeInstance = link.engine.bot := hbot
      obtain ⟨r', hr', hmsg⟩ := message_of_authentic hr htoken hb hvalid hbot
      exact ⟨r', hr', f, hmsg.trans hf, by rw [hbot]; rfl⟩

/-! ## A drained outbox -/

/-- Every message to the control plane is sent. -/
def Drained (s : Ledger) : Prop := ∀ row ∈ s.outbox, row.kind.isCp → row.status = .sent

/-- The mirror shows the orders and the executions of the ledger, and no others as ones of the bot.
The row under the key of an execution may be one that another bot sent under the same key. -/
structure Shows (link : Link) (s : Ledger) (m : Mirror) : Prop where
  orders : ∀ o ∈ s.orders.rows, (m.order? link.engine.bot o.clientOrderId).map (·.columns) =
    some (Mirror.orderColumns link.api.cols o)
  fills : ∀ f ∈ s.fills.rows, ∃ row, m.fill? f.eventKey = some row ∧
    (row.bot = link.engine.bot →
      row = Mirror.fillRow link.api.cols link.engine.bot row.order f)
  onlyOrders : ∀ c row, m.order? link.engine.bot c = some row →
    ∃ o ∈ s.orders.rows, o.clientOrderId = c
  onlyFills : ∀ k row, m.fill? k = some row → row.bot = link.engine.bot →
    ∃ f ∈ s.fills.rows, f.eventKey = k

section
variable {τ υ ω : Type} [DecidableEq τ] [DecidableEq υ] [DecidableEq ω] {app : ApiState}
  {S : Stack τ υ ω}

/-- In every run of the system from a mirror without rows of the bot: when the outbox is drained, the
mirror shows what is in the ledger. -/
theorem drained_shows (hrun : link.Run (.idle app) S) (hd : link.Distinct S.ledger)
    (horders : ∀ c, app.mirror.order? link.engine.bot c = none)
    (hfills : ∀ k row, app.mirror.fill? k = some row → row.bot ≠ link.engine.bot)
    (hdrained : Drained S.ledger) : Shows link S.ledger S.api.state.app.mirror := by
  have hS := wired_of_run hrun
  have hC := carried_of_run hrun hd
  have hsourced (k : String) : link.FillSourced S.ledger k S.api.state.app :=
    (Service.run_kept service_lawful kept_fillSourced hS.api).2 fun row hrow hbot =>
      absurd hbot (hfills k row hrow)
  refine ⟨fun o ho => ?_, fun f hf => ?_, fun c row hrow => ?_, fun k row hrow hbot => ?_⟩
  · obtain ⟨row, hrow, hkind, hkey, -⟩ := hS.published.newest o ho nofun
    exact hS.order_shown hC ho (horders _) hrow hkey (hdrained row hrow (by rw [hkind]; rfl))
  · obtain ⟨r, hr, hkind, -, hmsg⟩ := hS.fills.told f hf
    have hcp : r.kind.isCp := by
      rw [hkind]
      rfl
    have happlied := hC.sent r hr hcp (hdrained r hr hcp)
    rw [hmsg] at happlied
    obtain ⟨row, hrow⟩ := Option.isSome_iff_exists.1 happlied
    refine ⟨row, hrow, fun hbot => ?_⟩
    obtain ⟨r', hr', g, hg, hshown⟩ := hsourced _ row hrow hbot
    -- both executions have the key the row was looked up under
    have hkey : g.eventKey = f.eventKey := by
      rw [← Mirror.fill?_eventKey hrow, hshown]
      rfl
    obtain rfl := S.ledger.fills.eq_of_key (·.eventKey) (fun _ _ h => h.2.1)
      (hS.fills.shape r' hr' g hg) hf hkey
    exact hshown
  · have hnone : link.Sourced S.ledger c app := fun row h => by
      rw [horders] at h
      cases h
    obtain ⟨r, hr, o, signalId, hmsg, rfl, -⟩ :=
      (Service.run_kept service_lawful kept_sourced hS.api).2 hnone row hrow
    obtain ⟨o', ho', hc, -⟩ := hS.published.past r hr _ _ (hS.published.shape r hr o signalId hmsg)
    exact ⟨o', ho', hc⟩
  · obtain ⟨r, hr, f, hmsg, hshown⟩ := hsourced k row hrow hbot
    refine ⟨f, hS.fills.shape r hr f hmsg, ?_⟩
    rw [← Mirror.fill?_eventKey hrow, hshown]
    rfl

end

/-! ## An entry that is filled and delivered -/

/-- The order is filled at the exchange, and the stream reports it. -/
def filledCore : EnginePool Unit :=
  (enteredCore.restart () (ReconciliationWorker.onEvent sampleConfig (.order "1:TRADE"
    (sampleReport sampleEntry .buy .filled 2) (some (sampleFill sampleEntry .buy "1" 2)))).run.forget).go
    (exchangeEnv (listing (.ok []))) () 40

/-- Deliveries one after the other. -/
def deliverAll : List String → Stack Unit Unit Unit → Stack Unit Unit Unit
  | [], S => S
  | requestId :: ids, S => deliverAll ids (deliver requestId S)

def deliversAll : List String → Stack Unit Unit Unit → Bool
  | [], _ => true
  | requestId :: ids, S => delivers requestId S && deliversAll ids (deliver requestId S)

theorem run_deliverAll {ids : List String} {S : Stack Unit Unit Unit} (h : deliversAll ids S) :
    sampleLink.Run S (deliverAll ids S) := by
  induction ids generalizing S with
  | nil => exact .refl
  | cons requestId ids ih =>
    obtain ⟨hfirst, hrest⟩ := Bool.and_eq_true_iff.1 h
    exact (run_deliver hfirst).trans (ih hrest)

def requestIds : List String :=
  ["position:BTC/USDT:recon:5f0c1a2b", "recon:5f0c1a2b", "signal:2025-01-01T00:00:00+00:00",
   "order:cb1-721ab8c17c89f1c57c2a438c5f7c3913:v1", "order:cb1-721ab8c17c89f1c57c2a438c5f7c3913:v2",
   "fill:fill:binance:BTCUSDT:1", "position:BTC/USDT:fill:fill:binance:BTCUSDT:1"]

/-- The flush is about to hand over the first row. -/
def filledStack : Stack Unit Unit Unit :=
  flushFrom lost 6 ((Stack.idle sampleApp).withCore filledCore)

theorem run_filledStack : sampleLink.Run (Stack.idle sampleApp) filledStack :=
  (run_core rfl (run_enteredCore.trans ((Pool.run_restart () (.onEvent _ fun _ _ _ _ => trivial)
    trivial).trans (Pool.run_go_any _ _ _ _)))).trans run_flushFrom

def drainedStack : Stack Unit Unit Unit := deliverAll requestIds filledStack

theorem drainedStack_facts : sampleLink.Distinct drainedStack.ledger ∧ Drained drainedStack.ledger ∧
    drainedStack.ledger.orders.rows.length = 1 ∧ drainedStack.ledger.fills.rows.length = 1 := by
  unfold Drained
  decide +kernel

/-- The mirror shows the order and its execution. -/
theorem drainedStack_shows : Shows sampleLink drainedStack.ledger drainedStack.api.state.app.mirror :=
  @drained_shows sampleLink Unit Unit Unit _ _ _ sampleApp drainedStack
    (run_filledStack.trans (run_deliverAll (by decide +kernel))) drainedStack_facts.1
    (fun _ => rfl) (fun _ _ h => (by cases h)) drainedStack_facts.2.1

end Link

end CryptoBot
