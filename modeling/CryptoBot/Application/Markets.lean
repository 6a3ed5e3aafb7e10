import CryptoBot.Application.OrderRules

/-!
# The market of an execution

The exchange numbers its orders per symbol; the ledger looks them up by exchange and exchange order
id alone. A report or an execution that names no local client order is then booked on the order
that has its exchange id, whatever the market of that order is: on the right one exactly when that
order trades the symbol. The executions of a symbol come with the exchange's id and without a
client order id, those that are not the bot's own among them.
-/

namespace CryptoBot

open Lib OrderService

variable {cfg : Config} {s s' : Ledger} {o : Order} {now : Time}

/-! ## The fallback -/

/-- No local order has the client order id `c`, and `o` is the order of the bot's exchange with the
exchange order id `x`. -/
structure FoundByExchangeId (cfg : Config) (s : Ledger) (c x : Option String) (o : Order) :
    Prop where
  unnamed : ∀ y ∈ s.orders.rows, c ≠ some y.clientOrderId
  mem : o ∈ s.orders.rows
  exchange : o.exchange = cfg.exchangeName
  exchangeOrderId : o.exchangeOrderId = x
  truthy : truthy x

theorem findOrder_eq_some_iff {c x : Option String} :
    findOrder cfg s c x = some o ↔
      (o ∈ s.orders.rows ∧ c = some o.clientOrderId) ∨ FoundByExchangeId cfg s c x o := by
  have hnamed : c.bind s.getOrder = some o ↔ o ∈ s.orders.rows ∧ c = some o.clientOrderId := by
    cases c with
    | none => simp
    | some c => exact Ledger.getOrder_eq_some.trans (by rw [Option.some.injEq, eq_comm])
  have hunnamed : c.bind s.getOrder = none ↔ ∀ y ∈ s.orders.rows, c ≠ some y.clientOrderId := by
    cases c with
    | none => simp
    | some c =>
      exact Ledger.getOrder_eq_none.trans (by simp only [ne_eq, Option.some.injEq, eq_comm])
  unfold findOrder
  split
  · next y hy =>
    rw [Option.some.injEq, ← hnamed, hy, Option.some.injEq]
    refine ⟨.inl, fun h => h.elim id fun hf => ?_⟩
    rw [hunnamed.2 hf.unnamed] at hy
    cases hy
  · next hy =>
    have hnot : ¬ (o ∈ s.orders.rows ∧ c = some o.clientOrderId) := fun h => by
      rw [hnamed.2 h] at hy
      cases hy
    have hno := hunnamed.1 hy
    constructor
    · intro h
      split at h
      · next ht =>
        obtain ⟨y, rfl, hget⟩ := Option.bind_eq_some_iff.1 h
        obtain ⟨hmem, hexchange, hid⟩ := Ledger.getOrderByExchangeId_mem hget
        exact .inr ⟨hno, hmem, hexchange, hid, ht⟩
      · cases h
    · rintro (h | h)
      · exact absurd h hnot
      · rw [if_pos h.truthy]
        obtain ⟨y, rfl⟩ : ∃ y, x = some y := Option.isSome_iff_exists.1 <| by
          cases x with
          | none => exact absurd h.truthy (by decide)
          | some y => rfl
        exact Ledger.getOrderByExchangeId_of_mem h.mem h.exchange h.exchangeOrderId

/-! ## Executions -/

/-- Every fill that recording the execution leaves belongs to an order of the execution's symbol. -/
def FillOnMarket (cfg : Config) (s : Ledger) (xf : ExchangeFill) (now : Time) : Prop :=
  ∀ b s', ingestFillTx cfg xf now s = .ok (b, s') →
    ∀ f ∈ s'.fills.rows, f ∉ s.fills.rows → ∀ o ∈ s'.orders.rows, o.id = f.orderId →
      o.symbol = xf.symbol

/-- The books hold a fill with the event key of the execution, or one of the order `o` with its
trade id. -/
def Ledger.Booked (s : Ledger) (o : Order) (xf : ExchangeFill) : Prop :=
  ∃ g ∈ s.fills.rows, g.eventKey = xf.eventKey ∨
    g.orderId = o.id ∧ g.exchangeTradeId = some xf.exchangeTradeId

theorem fill_market_iff {xf : ExchangeFill}
    (hclient : ∀ o ∈ s.orders.rows, xf.clientOrderId = some o.clientOrderId → o.symbol = xf.symbol) :
    FillOnMarket cfg s xf now ↔
      ∀ o, FoundByExchangeId cfg s (xf.clientOrderId.filter (· ≠ "")) xf.exchangeOrderId o →
        o.symbol = xf.symbol ∨ s.Booked o xf := by
  constructor
  · intro h o hfound
    have hfind := findOrder_eq_some_iff.2 (.inr hfound)
    obtain ⟨b, s', htx⟩ := ingestFillTx_total xf now s
    rcases ingestFillTx_cases htx with ⟨hnone, -⟩ | ⟨o', hfind', hcase⟩
    · rw [hfind] at hnone
      cases hnone
    obtain rfl : o = o' := Option.some.inj (hfind.symm.trans hfind')
    rcases hcase with ⟨-, hclash⟩ | ⟨f, hf, hfilled⟩
    · right
      by_contra hno
      refine hclash fun g hg => ⟨Store.lt_nextId (List.mem_map_of_mem hg), ?_, ?_⟩
      · exact fun hkey => hno ⟨g, hg, .inl hkey⟩
      · exact fun htrade => hno ⟨g, hg, .inr ⟨htrade.1, htrade.2.2⟩⟩
    · left
      have horders : s'.orders = s.orders := (congrArg Ledger.orders hfilled.rest :)
      refine h b s' htx f ?_ ?_ o (horders ▸ hfound.mem) (by rw [hf]; rfl)
      · rw [hfilled.rows]
        exact List.mem_concat_self
      · exact fun hmem => (hfilled.fresh f hmem).1.ne rfl
  · intro h b s' htx f hf hnew o ho hid
    rcases ingestFillTx_cases htx with ⟨-, rfl⟩ | ⟨o', hfind, ⟨rfl, -⟩ | ⟨f', rfl, hfilled⟩⟩
    · exact absurd hf hnew
    · exact absurd hf hnew
    rw [hfilled.rows, List.mem_append, List.mem_singleton] at hf
    obtain rfl := hf.resolve_left hnew
    have horders : s'.orders = s.orders := (congrArg Ledger.orders hfilled.rest :)
    obtain rfl : o = o' := Ledger.eq_of_id (horders ▸ ho) (findOrder_mem hfind) hid
    rcases findOrder_eq_some_iff.1 hfind with ⟨hmem, hnamed⟩ | hfound
    · exact hclient o hmem (Option.filter_eq_some_iff.1 hnamed).1
    · refine (h o hfound).resolve_right ?_
      rintro ⟨g, hg, hkey | ⟨horder, htrade⟩⟩
      · exact (hfilled.fresh g hg).2.1 hkey
      · exact (hfilled.fresh g hg).2.2 ⟨horder, by rw [htrade]; rfl, htrade⟩

/-! ## Reports -/

/-- A report that is applied to an order it does not name is about that order's symbol. -/
def ReportOnMarket (cfg : Config) (s : Ledger) (r : ExchangeOrderReport) (now : Time) : Prop :=
  ∀ o s', applyReportTx cfg r now s = .ok (.applied o, s') →
    o.clientOrderId ≠ r.clientOrderId → o.symbol = r.symbol

/-- A report with the exchange id of an order is applied to it unless it contradicts it. -/
theorem applyReportTx_found {r : ExchangeOrderReport}
    (hfound : FoundByExchangeId cfg s (some r.clientOrderId) r.exchangeOrderId o)
    (hr : ¬ o.Contradicts r) :
    ∃ o' s', applyReportTx cfg r now s = .ok (.applied o', s') ∧ Order.Same o o' := by
  have hfind := findOrder_eq_some_iff.2 (.inr hfound)
  cases happly : o.applyReport r now with
  | error m => exact absurd (Order.applyReport_error.1 ⟨m, happly⟩) hr
  | ok res =>
    obtain ⟨changed, o₁⟩ := res
    obtain ⟨happlied, hsame⟩ := Order.applyReport_ok happly
    cases changed with
    | false =>
      obtain rfl := hsame rfl
      exact ⟨o₁, s, by simp [applyReportTx, hfind, happly], .rfl⟩
    | true =>
      -- the order has the report's exchange id already, so its row stays under its keys
      have hid : o₁.exchangeOrderId = o.exchangeOrderId := by
        rw [happlied.exchangeOrderId, if_neg]
        simp [Order.adoptsExchangeId, hfound.exchangeOrderId, hfound.truthy]
      obtain ⟨orders, hsave⟩ := Store.saveOrder_isOk hfound.mem happlied.same happlied.version
        fun y hy hne hsome hkey => hne <| congrArg Order.id <|
          Ledger.eq_of_exchangeOrderId hy hfound.mem hkey.1 (hkey.2 ▸ hsome) (hkey.2.trans hid)
      obtain ⟨outbox, henqueue⟩ := Store.enqueueOrder_eq_ok
        { o₁ with version := o₁.version + 1 } now { s with orders }
      refine ⟨{ o₁ with version := o₁.version + 1 }, { s with orders, outbox }, ?_, ?_⟩
      · simp only [applyReportTx, hfind, happly, if_true]
        rw [Tx.bind_eq hsave, Tx.bind_eq henqueue]
        rfl
      · exact happlied.same.trans (by constructor <;> rfl)

theorem report_market_iff {r : ExchangeOrderReport} :
    ReportOnMarket cfg s r now ↔
      ∀ o, FoundByExchangeId cfg s (some r.clientOrderId) r.exchangeOrderId o →
        o.symbol = r.symbol ∨ o.Contradicts r := by
  constructor
  · intro h o hfound
    by_cases hr : o.Contradicts r
    · exact .inr hr
    · obtain ⟨o', s', htx, hsame⟩ := @applyReportTx_found cfg s o now r hfound hr
      refine .inl (hsame.symbol ▸ h o' s' htx fun hc => ?_)
      exact hfound.unnamed o hfound.mem (congrArg some (hc.symm.trans hsame.clientOrderId))
  · intro h o' s' htx hne
    obtain ⟨o, hfind, hsame, hr⟩ : ∃ o, findOrder cfg s (some r.clientOrderId) r.exchangeOrderId =
        some o ∧ Order.Same o o' ∧ ¬ o.Contradicts r := by
      rcases applyReportTx_cases htx with ⟨-, hout, -⟩ | ⟨o, hfind, ⟨m, hout, -⟩ |
        ⟨happly, hout, -⟩ | ⟨o₁, happly, hout, -⟩⟩
      · cases hout
      · cases hout
      · cases hout
        refine ⟨o', hfind, .rfl, fun hc => ?_⟩
        obtain ⟨m, hm⟩ : ∃ m, o'.applyReport r now = .error m := Order.applyReport_error.2 hc
        rw [happly] at hm
        cases hm
      · cases hout
        refine ⟨o, hfind, (Order.applyReport_ok happly).1.same.trans (by constructor <;> rfl),
          fun hc => ?_⟩
        obtain ⟨m, hm⟩ : ∃ m, o.applyReport r now = .error m := Order.applyReport_error.2 hc
        rw [happly] at hm
        cases hm
    rcases findOrder_eq_some_iff.1 hfind with ⟨-, hnamed⟩ | hfound
    · exact absurd (hsame.clientOrderId.trans (Option.some.inj hnamed).symm) hne
    · exact hsame.symbol.trans ((h o hfound).resolve_right hr)

/-! ## Both -/

/-- An execution, and a report, are booked on the right market exactly when the order that has
their exchange id trades their symbol, unless the execution is on the books already or the report
contradicts the order. The exchange gives the bot's client order ids to the bot's orders only. -/
theorem right_market_iff {xf : ExchangeFill} {r : ExchangeOrderReport}
    (hclient : ∀ o ∈ s.orders.rows,
      xf.clientOrderId = some o.clientOrderId → o.symbol = xf.symbol) :
    (FillOnMarket cfg s xf now ↔
      ∀ o, FoundByExchangeId cfg s (xf.clientOrderId.filter (· ≠ "")) xf.exchangeOrderId o →
        o.symbol = xf.symbol ∨ s.Booked o xf) ∧
    (ReportOnMarket cfg s r now ↔
      ∀ o, FoundByExchangeId cfg s (some r.clientOrderId) r.exchangeOrderId o →
        o.symbol = r.symbol ∨ o.Contradicts r) :=
  ⟨fill_market_iff hclient, report_market_iff⟩

/-- An entry that rests on `BTC/USDT` under the exchange id 4711. -/
def bitcoinRow : Order :=
  { sampleRow sampleEntry .buy 1 "4711" with status := .new, executedQuantity := 0 }

def bitcoinLedger : Ledger where
  orders := ⟨[bitcoinRow], List.pairwise_singleton _ _⟩

/-- An execution of the order 4711 of a market. -/
def tradeOn (base : String) : ExchangeFill :=
  { exchangeTradeId := "9", exchangeOrderId := some "4711", clientOrderId := none
    symbol := ⟨base, "USDT"⟩, side := .buy, quantity := 1, price := 100, quoteQuantity := 100
    commission := 0, commissionAsset := none, executionTimeMs := 1000, eventKey := s!"{base}:9" }

/-- A report about the order 4711 of a market, placed by hand. -/
def reportOn (base : String) : ExchangeOrderReport :=
  { clientOrderId := "web_1", symbol := ⟨base, "USDT"⟩, side := .buy, orderType := .limit
    status := .partiallyFilled, origQty := 2, executedQty := 1, cumQuoteQty := 100
    exchangeOrderId := some "4711" }

theorem ether_booked_on_bitcoin :
    ¬ FillOnMarket sampleConfig bitcoinLedger (tradeOn "ETH") 0 ∧
    ¬ ReportOnMarket sampleConfig bitcoinLedger (reportOn "ETH") 0 := by
  have hfound (c : Option String) (hc : c ≠ some bitcoinRow.clientOrderId) :
      FoundByExchangeId sampleConfig bitcoinLedger c (some "4711") bitcoinRow :=
    ⟨fun y hy => List.mem_singleton.1 hy ▸ hc, List.mem_singleton.2 rfl, rfl, rfl, rfl⟩
  constructor
  · intro h
    rcases (fill_market_iff fun _ _ h => by cases h).1 h bitcoinRow (hfound none (by decide)) with
      hsymbol | ⟨g, hg, -⟩
    · exact absurd hsymbol (by decide)
    · cases hg
  · intro h
    rcases report_market_iff.1 h bitcoinRow (hfound (some "web_1") (by decide)) with
      hsymbol | hcontradicts
    · exact absurd hsymbol (by decide)
    · exact absurd hcontradicts.isTerminal (by decide)

theorem bitcoin_booked_on_bitcoin :
    FillOnMarket sampleConfig bitcoinLedger (tradeOn "BTC") 0 ∧
    ReportOnMarket sampleConfig bitcoinLedger (reportOn "BTC") 0 := by
  have hiff := @right_market_iff sampleConfig bitcoinLedger 0 (tradeOn "BTC") (reportOn "BTC")
    fun _ _ h => by cases h
  refine ⟨hiff.1.2 fun o ho => .inl ?_, hiff.2.2 fun o ho => .inl ?_⟩
  · rw [List.mem_singleton.1 ho.mem]
    rfl
  · rw [List.mem_singleton.1 ho.mem]
    rfl

end CryptoBot
