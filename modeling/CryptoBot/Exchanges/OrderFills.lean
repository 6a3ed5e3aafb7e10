import CryptoBot.Application.Conflicts
import CryptoBot.Exchanges.TradePages
import CryptoBot.Lib.Sums

/-!
# The executions of one order

`query_fills` of `engine/execution/binance.py` asks for the executions of an order in one request,
and so does `refresh`: what one page does not hold has to have been recorded before.
-/

namespace CryptoBot

open Lib OrderService

/-! ## The query -/

/-- `query_fills`: one page of the executions of an order. -/
def BinanceExecutor.queryFills (ask : Answers) (exchange : Symbol → ExchangeSymbol)
    (account : String) (symbols : SymbolMap) (order : Order) : Except Exn (List ExchangeFill) :=
  match order.exchangeOrderId with
  | none => .ok []
  | some orderId =>
    if orderId = "" then .ok []
    else do
      let rows ← ask 0 (exchange order.symbol) (.byOrder orderId) defaultLimit
      return rows.map fun t => Normalizer.restTradeFill t account symbols (some order.clientOrderId)

/-- The executions of an order of the exchange. -/
def executionsOf (history : List Trade) (symbol : ExchangeSymbol) (orderId : String) : List Trade :=
  history.filter fun t => decide (t.symbol = symbol) && (TradeQuery.byOrder orderId).selects t

/-- The event key of an execution. -/
def Trade.key (account : String) (t : Trade) : String :=
  Normalizer.fillEventKey account t.symbol.text (toString t.orderId) (toString t.id)

/-- A key determines the id of the trade. -/
theorem Trade.id_of_key {account : String} {t u : Trade} (h : t.key account = u.key account) :
    t.id = u.id := by
  have hdigits (n : Nat) : Free ':' (toString n) := .repr (by decide) n
  obtain ⟨-, -, -, hid⟩ := (Normalizer.fillEventKey_inj t.symbol.free u.symbol.free (hdigits _)
    (hdigits _) (hdigits _) (hdigits _)).1 h
  exact repr_nat_inj.1 hid

theorem executionsOf_nodup {history : List Trade} (h : Chronological history)
    (symbol : ExchangeSymbol) (orderId : String) :
    ((executionsOf history symbol orderId).map Trade.id).Nodup :=
  List.pairwise_map.2 ((h.imp fun h => h.1.ne).filter _)

/-! ## Executions that are recorded -/

/-- The execution is recorded under the row `row` of its order. -/
def Ledger.HasFill (s : Ledger) (account : String) (row : Nat) (t : Trade) : Prop :=
  ∃ f ∈ s.fills.rows, f.orderId = row ∧ f.eventKey = t.key account

instance (s : Ledger) (account : String) (row : Nat) : DecidablePred (s.HasFill account row) :=
  fun t => inferInstanceAs
    (Decidable (∃ f ∈ s.fills.rows, f.orderId = row ∧ f.eventKey = t.key account))

/-- The fills of the row `row` are some of the executions `executions`, and no other order has
recorded any of them. -/
structure PartlyBooked (account : String) (executions : List Trade) (row : Nat) (s : Ledger) :
    Prop where
  own : ∀ f ∈ s.fillsForOrder row, ∃ t ∈ executions, f.eventKey = t.key account ∧
    f.exchangeTradeId = some (toString t.id) ∧ f.quantity = t.qty
  other : ∀ f ∈ s.fills.rows, ∀ t ∈ executions, f.eventKey = t.key account → f.orderId = row

section
variable {cfg : Config} {account : String} {executions : List Trade} {s s' : Ledger} {o : Order}

theorem Ledger.mem_fillsForOrder {row : Nat} {f : Fill} :
    f ∈ s.fillsForOrder row ↔ f ∈ s.fills.rows ∧ f.orderId = row := by
  rw [fillsForOrder, List.mem_filter, decide_eq_true_iff]

theorem PartlyBooked.congr {row : Nat} (hp : PartlyBooked account executions row s)
    (hf : s'.fills = s.fills) : PartlyBooked account executions row s' := by
  refine ⟨?_, by rw [hf]; exact hp.other⟩
  rw [Ledger.fillsForOrder, hf]
  exact hp.own

theorem Ledger.HasFill.congr (hf : s'.fills = s.fills) {row : Nat} {t : Trade} :
    s'.HasFill account row t ↔ s.HasFill account row t := by
  rw [HasFill, HasFill, hf]

/-- What the fills of an order add up to: the executions that are recorded. -/
theorem PartlyBooked.fillQuantity (hids : (executions.map Trade.id).Nodup)
    (hp : PartlyBooked account executions o.id s) :
    s.fillQuantity o =
      ((executions.filter fun t => s.HasFill account o.id t).map Trade.qty).sum := by
  rw [Ledger.fillQuantity]
  refine sum_eq_of_matched (k := Fill.eventKey) (l := Trade.key account) ?_ ?_ (fun f hf => ?_)
    fun t ht => ?_
  · exact List.pairwise_map.2 ((s.fills.ok.imp fun h => h.2.1).filter _)
  · refine List.pairwise_map.2 (List.Pairwise.filter _ ?_)
    exact (List.pairwise_map.1 hids).imp fun hne hkey => hne (Trade.id_of_key hkey)
  · obtain ⟨t, ht, hkey, -, hqty⟩ := hp.own f hf
    obtain ⟨hrow, hid⟩ := Ledger.mem_fillsForOrder.1 hf
    exact ⟨t, List.mem_filter.2 ⟨ht, decide_eq_true ⟨f, hrow, hid, hkey⟩⟩, hkey, hqty⟩
  · obtain ⟨f, hrow, hid, hkey⟩ := of_decide_eq_true (List.mem_filter.1 ht).2
    exact ⟨f, Ledger.mem_fillsForOrder.2 ⟨hrow, hid⟩, hkey⟩

/-- Ingesting an execution of the order records it, and nothing else of the order. -/
theorem PartlyBooked.ingest (hids : (executions.map Trade.id).Nodup)
    (hp : PartlyBooked account executions o.id s) (hget : s.getOrder o.clientOrderId = some o)
    (hname : o.clientOrderId ≠ "") {t : Trade} (ht : t ∈ executions) {symbols : SymbolMap}
    {now : Time} {b : Bool}
    (h : ingestFillTx cfg
      (Normalizer.restTradeFill t account symbols (some o.clientOrderId)) now s = .ok (b, s')) :
    PartlyBooked account executions o.id s' ∧ s'.orders = s.orders ∧
      ∀ u ∈ executions, s'.HasFill account o.id u ↔ s.HasFill account o.id u ∨ u = t := by
  have hfind : findOrder cfg s ((some o.clientOrderId).filter (· ≠ ""))
      (some (toString t.orderId)) = some o := by
    rw [Option.filter_some, if_pos (decide_eq_true hname)]
    exact findOrder_of_clientOrderId hget
  rcases ingestFillTx_cases h with ⟨hnone, -⟩ | ⟨o', hfind', hcases⟩
  · cases hfind.symm.trans hnone
  obtain rfl := Option.some.inj (hfind.symm.trans hfind')
  rcases hcases with ⟨rfl, hdup⟩ | ⟨f, hf, hfilled⟩
  · -- a fill with its key or with its trade id is already there
    refine ⟨hp, rfl, fun u hu => ⟨.inl, fun hb => hb.elim id fun hut => ?_⟩⟩
    subst hut
    obtain ⟨g, hg, hclash⟩ := not_forall₂.1 hdup
    by_cases hkey : g.eventKey = u.key account
    · exact ⟨g, hg, hp.other g hg u hu hkey, hkey⟩
    · obtain ⟨hrow, -, htrade⟩ : g.orderId = o.id ∧ g.exchangeTradeId.isSome ∧
          g.exchangeTradeId = some (toString u.id) := by
        by_contra hno
        exact hclash ⟨Store.lt_nextId (List.mem_map_of_mem hg), hkey, hno⟩
      obtain ⟨t, ht, hkey', htrade', -⟩ := hp.own g (Ledger.mem_fillsForOrder.2 ⟨hg, hrow⟩)
      have hid : t.id = u.id := repr_nat_inj.1 (Option.some.inj (htrade'.symm.trans htrade))
      obtain rfl := List.inj_on_of_nodup_map hids ht hu hid
      exact ⟨g, hg, hrow, hkey'⟩
  · have hrow : f.orderId = o.id := by rw [hf]; rfl
    have hkey : f.eventKey = t.key account := by rw [hf]; rfl
    have hmem {g : Fill} : g ∈ s'.fills.rows ↔ g ∈ s.fills.rows ∨ g = f := by
      rw [hfilled.rows, List.mem_append, List.mem_singleton]
    refine ⟨⟨fun g hg => ?_, fun g hg u hu hgu => ?_⟩, (congrArg Ledger.orders hfilled.rest :),
      fun u hu => ⟨?_, ?_⟩⟩
    · obtain ⟨hg, hgrow⟩ := Ledger.mem_fillsForOrder.1 hg
      rcases hmem.1 hg with hg | rfl
      · exact hp.own g (Ledger.mem_fillsForOrder.2 ⟨hg, hgrow⟩)
      · exact ⟨t, ht, hkey, by rw [hf]; rfl, by rw [hf]; rfl⟩
    · rcases hmem.1 hg with hg | rfl
      · exact hp.other g hg u hu hgu
      · exact hrow
    · rintro ⟨g, hg, hgrow, hgu⟩
      rcases hmem.1 hg with hg | rfl
      · exact .inl ⟨g, hg, hgrow, hgu⟩
      · exact .inr (List.inj_on_of_nodup_map hids hu ht
          (Trade.id_of_key (hgu.symm.trans hkey)))
    · rintro (⟨g, hg, hgrow, hgu⟩ | rfl)
      · exact ⟨g, hmem.2 (.inl hg), hgrow, hgu⟩
      · exact ⟨f, hmem.2 (.inr rfl), hrow, hkey⟩

/-- Ingesting a page of the executions of the order records the page. -/
theorem PartlyBooked.recorded (hids : (executions.map Trade.id).Nodup) {symbols : SymbolMap}
    {page : List Trade} (hpage : ∀ t ∈ page, t ∈ executions) (hname : o.clientOrderId ≠ "")
    (hp : PartlyBooked account executions o.id s) (hget : s.getOrder o.clientOrderId = some o)
    (h : Recorded cfg (page.map fun t =>
      Normalizer.restTradeFill t account symbols (some o.clientOrderId)) s s') :
    PartlyBooked account executions o.id s' ∧ s'.orders = s.orders ∧
      ∀ u ∈ executions, s'.HasFill account o.id u ↔ s.HasFill account o.id u ∨ u ∈ page := by
  induction page generalizing s with
  | nil =>
    cases h
    exact ⟨hp, rfl, fun u _ => by simp⟩
  | cons t page ih =>
    cases h with
    | cons htx hrest =>
      obtain ⟨ht, hpage⟩ := List.forall_mem_cons.1 hpage
      obtain ⟨hp₁, horders, hbooked⟩ := hp.ingest hids hget hname ht htx
      obtain ⟨hp', horders', hbooked'⟩ := ih hpage hp₁
        ((Ledger.getOrder_congr horders _).trans hget) hrest
      refine ⟨hp', horders'.trans horders, fun u hu => ?_⟩
      rw [hbooked' u hu, hbooked u hu, or_assoc, List.mem_cons]

/-! ## A refresh -/

/-- The report `r` of the order `o` counts all of its executions. -/
structure Reports (r : ExchangeOrderReport) (o : Order) (orderId : String)
    (executions : List Trade) : Prop where
  clientOrderId : r.clientOrderId = o.clientOrderId
  exchangeOrderId : r.exchangeOrderId = some orderId
  named : o.clientOrderId ≠ "" ∧ orderId ≠ ""
  executed : r.executedQty = (executions.map Trade.qty).sum

/-- What the ledger knows of an order is no more than the report `r` says. -/
structure Behind (row : Order) (r : ExchangeOrderReport) : Prop where
  exchangeOrderId : truthy row.exchangeOrderId → row.exchangeOrderId = r.exchangeOrderId
  executed : row.executedQuantity ≤ r.executedQty

variable {r : ExchangeOrderReport} {orderId : String} {row : Order}

/-- A report that is applied brings the order up to it. -/
theorem Applied.of_behind (hb : Behind row r) (hr : r.exchangeOrderId = some orderId)
    (hne : orderId ≠ "") {o' : Order} (ha : Order.Applied row r o') :
    o'.exchangeOrderId = some orderId ∧ o'.executedQuantity = r.executedQty := by
  refine ⟨?_, by rw [ha.executed, max_eq_right hb.executed]⟩
  rw [ha.exchangeOrderId, Order.adoptsExchangeId, hr]
  have htruthy : truthy (some orderId) = true := bne_iff_ne.2 hne
  rw [htruthy, Bool.true_and]
  cases ht : truthy row.exchangeOrderId with
  | false => rfl
  | true => exact (hb.exchangeOrderId ht).trans hr

theorem Reported.of_behind (hreport : Reported cfg r s s')
    (hget : s.getOrder r.clientOrderId = some row) (hb : Behind row r)
    (hr : r.exchangeOrderId = some orderId) (hne : orderId ≠ "") :
    s'.fills = s.fills ∧ ∃ fresh, s'.getOrder r.clientOrderId = some fresh ∧
      Order.Same row fresh ∧ fresh.exchangeOrderId = some orderId ∧
      fresh.executedQuantity = r.executedQty := by
  obtain ⟨now, out, htx, hout⟩ := hreport
  have hfind : findOrder cfg s (some r.clientOrderId) r.exchangeOrderId = some row :=
    findOrder_of_clientOrderId hget
  rcases applyReportTx_cases htx with ⟨hnone, -⟩ | ⟨row', hfind', hcases⟩
  · cases hfind.symm.trans hnone
  obtain rfl := Option.some.inj (hfind.symm.trans hfind')
  rcases hcases with ⟨m, rfl, -⟩ | ⟨hok, -, rfl⟩ | ⟨o₁, hok, -, hrep⟩
  · exact absurd rfl (hout _ m)
  · obtain ⟨hx, hexecuted⟩ := Applied.of_behind hb hr hne (Order.applyReport_ok hok).1
    exact ⟨rfl, row, hget, .rfl, hx, hexecuted⟩
  · obtain ⟨hx, hexecuted⟩ := Applied.of_behind hb hr hne (Order.applyReport_ok hok).1
    refine ⟨hrep.fills, _, ?_, hrep.same, hx, hexecuted⟩
    rw [← (Ledger.getOrder_eq_some.1 hget).2]
    exact hrep.getOrder_new

variable {A : (q : Request) → Ledger → Ans q → Prop} {h h' : History Label Ans}
  {ask : BinanceExecutor.Answers} {exchange : Symbol → ExchangeSymbol} {symbols : SymbolMap}
  {history : List Trade}

/-- The exchange answers the queries about `o` with the report `r` and with executions of `history`,
or fails. -/
structure Answered (A : (q : Request) → Ledger → Ans q → Prop) (o : Order)
    (r : ExchangeOrderReport) (ask : BinanceExecutor.Answers) (exchange : Symbol → ExchangeSymbol)
    (account : String) (symbols : SymbolMap) (history : List Trade) : Prop where
  report : ∀ {s a}, A (.call (.queryOrder o)) s a → a = .ok (some r) ∨ ∃ e, a = .error e
  fills : ∀ {s order a}, A (.call (.queryFills order)) s a →
    a = BinanceExecutor.queryFills ask exchange account symbols order
  pages : BinanceExecutor.AnsweredFrom ask fun _ => history

/-- A page of the executions of an order that has its exchange id. -/
theorem Answered.page (hA : Answered A o r ask exchange account symbols history) {order : Order}
    (hx : order.exchangeOrderId = some orderId) (hne : orderId ≠ "") {xfs : List ExchangeFill}
    (ha : A (.call (.queryFills order)) s (.ok xfs)) :
    xfs = ((executionsOf history (exchange order.symbol) orderId).take defaultLimit).map fun t =>
      Normalizer.restTradeFill t account symbols (some order.clientOrderId) := by
  have heq := hA.fills ha
  unfold BinanceExecutor.queryFills at heq
  rw [hx] at heq
  dsimp only at heq
  rw [if_neg hne] at heq
  cases hrows : ask 0 (exchange order.symbol) (.byOrder orderId) defaultLimit with
  | error e =>
    rw [hrows] at heq
    cases heq
  | ok rows =>
    rw [hrows] at heq
    obtain rfl := hA.pages _ _ _ _ _ hrows
    exact Except.ok.inj heq

/-- Only the query for the executions itself can fail. -/
theorem Downloaded.failed_of_error {order : Option Order} {e : Exn}
    (hd : Downloaded cfg A h s order (.error e) h' s') :
    ∃ o, order = some o ∧ A (.call (.queryFills o)) s (.error e) := by
  cases hd with
  | failed ha hh => exact ⟨_, rfl, ha⟩

/-- After a refresh the fills of an order add up to what has been executed exactly when those of its
executions that are not on the first page were recorded before. -/
theorem Refreshed.books (hA : Answered A o r ask exchange account symbols history)
    (hchron : Chronological history) (hpos : ∀ t ∈ history, 0 < t.qty)
    (hget : s.getOrder o.clientOrderId = some row) (hb : Behind row r)
    (hr : Reports r o orderId (executionsOf history (exchange row.symbol) orderId))
    (hp : PartlyBooked account (executionsOf history (exchange row.symbol) orderId) row.id s)
    {result : Option Order} (hres : Refreshed cfg A o h s (.ok result) h' s') :
    ∃ fresh, result = some fresh ∧ (s'.fillQuantity fresh = fresh.executedQuantity ↔
      ∀ t ∈ (executionsOf history (exchange row.symbol) orderId).drop defaultLimit,
        s.HasFill account row.id t) := by
  cases hres with
  | done hq hd hh =>
    rcases hq with ⟨hmissing, -⟩ | ⟨r', htold⟩
    · rcases hA.report hmissing.ans with hans | ⟨e, hans⟩ <;> cases hans
    obtain rfl : r' = r := by
      rcases hA.report htold.ans with hans | ⟨e, hans⟩ <;> cases hans
      rfl
    rw [← hr.clientOrderId] at hget hd ⊢
    obtain ⟨hfills, fresh, hfresh, hsame, hx, hexecuted⟩ :=
      htold.reported.of_behind hget hb hr.exchangeOrderId hr.named.2
    rw [hfresh] at hd
    have hp₁ := (hp.congr hfills)
    rw [← hsame.id] at hp₁ ⊢
    have hids := executionsOf_nodup hchron (exchange row.symbol) orderId
    have hclient : fresh.clientOrderId = r'.clientOrderId := (Ledger.getOrder_eq_some.1 hfresh).2
    cases hd with
    | skipped ho =>
      have hfalsy := ho fresh rfl
      rw [hx] at hfalsy
      exact absurd hfalsy (by rw [truthy, bne_iff_ne.2 hr.named.2]; decide)
    | recorded ha hl hrec =>
      rw [hA.page hx hr.named.2 ha, hsame.symbol] at hrec
      obtain ⟨hp', horders, hbooked⟩ := hp₁.recorded hids (fun t ht => List.mem_of_mem_take ht)
        (by rw [hclient, hr.clientOrderId]; exact hr.named.1) (hclient ▸ hfresh) hrec
      refine ⟨fresh, (Ledger.getOrder_congr horders _).trans hfresh, ?_⟩
      have hpos' : ∀ t ∈ executionsOf history (exchange row.symbol) orderId, 0 < t.qty :=
        fun t ht => hpos t (List.mem_of_mem_filter ht)
      rw [hp'.fillQuantity hids, hexecuted, hr.executed, sum_filter_eq_iff hpos',
        ← forall_or_mem_take_iff (List.Nodup.of_map _ hids)]
      refine forall₂_congr fun t ht => ?_
      rw [decide_eq_true_iff, hbooked t ht, Ledger.HasFill.congr hfills]

/-- Whatever a refresh that returns finds recorded, the fills of its order add up to what has been
executed exactly when all executions that are not on the first page were recorded before. -/
theorem refresh_books_iff {env : Prog.Env Label Ans}
    (hA : Answered (fun q _ a => ∃ h, a = env h q) o r ask exchange account symbols history)
    (hchron : Chronological history) (hpos : ∀ t ∈ history, 0 < t.qty)
    (hget : s.getOrder o.clientOrderId = some row) (hb : Behind row r)
    (hr : Reports r o orderId (executionsOf history (exchange row.symbol) orderId))
    (hp : PartlyBooked account (executionsOf history (exchange row.symbol) orderId) row.id s) :
    let out := Prog.run env (refresh cfg o).run h s
    ∀ result, out.1 = .ok result → ∃ fresh, result = some fresh ∧
      (out.2.2.fillQuantity fresh = fresh.executedQuantity ↔
        ∀ t ∈ (executionsOf history (exchange row.symbol) orderId).drop defaultLimit,
          s.HasFill account row.id t) := by
  intro out result hout
  have hrun : Refreshed cfg (fun q _ a => ∃ h, a = env h q) o h s out.1 out.2.1 out.2.2 :=
    (Prog.wp_run_iff env _ _ h s).1 ((sequential_alone fun h q _ a => a = env h q).wp_refresh o)
  rw [hout] at hrun
  exact hrun.books hA hchron hpos hget hb hr hp

end

/-! ## A long order -/

/-- An execution of one unit. -/
def unitTrade (i : Nat) : Trade where
  id := i
  orderId := 4711
  symbol := ⟨"BTCUSDT", btcusdt_free⟩
  qty := 1
  price := 100
  quoteQty := 100
  commission := 0
  commissionAsset := none
  time := 1735689600000
  isBuyer := true

/-- An account with one order that was executed unit by unit. -/
def unitHistory (n : Nat) : List Trade := (List.range n).map unitTrade

/-- Its row: filled, before any of the executions is recorded. -/
def unitRow (n : Nat) : Order :=
  { sampleRow sampleEntry .buy 1 "4711" with
    requestedQuantity := n, executedQuantity := n, cumulativeQuoteQuantity := n * 100
    acknowledgedAt := some 0 }

def unitLedger (n : Nat) : Ledger := { orders := ⟨[unitRow n], List.pairwise_singleton _ _⟩ }

def unitReport (n : Nat) : ExchangeOrderReport :=
  { sampleReport sampleEntry .buy .filled n with origQty := n }

/-- The answers to the two queries of a refresh. -/
def unitAnswer (n : Nat) : (r : Req) → Except Exn r.Val
  | .queryOrder _ => .ok (some (unitReport n))
  | .queryFills order =>
    BinanceExecutor.queryFills
      (fun _ symbol q limit => .ok (myTrades (unitHistory n) symbol q limit))
      (fun _ => ⟨"BTCUSDT", btcusdt_free⟩) "main" ⟨fun _ => ⟨"BTC", "USDT"⟩⟩ order
  | _ => .error (.external "ConnectionError" "not asked")

/-- The refresh of the order. -/
def unitRefresh (n : Nat) : Except Exn (Option Order) × History Label Ans × Ledger :=
  Prog.run (exchangeEnv (unitAnswer n)) (refresh sampleConfig (unitRow n)).run [] (unitLedger n)

theorem unitHistory_chronological (n : Nat) : Chronological (unitHistory n) :=
  List.pairwise_map.2 (List.pairwise_lt_range.imp fun h => ⟨h, le_rfl⟩)

theorem unitHistory_pos (n : Nat) : ∀ t ∈ unitHistory n, 0 < t.qty := by
  intro t ht
  obtain ⟨i, -, rfl⟩ := List.mem_map.1 ht
  exact zero_lt_one

theorem executionsOf_unit (n : Nat) :
    executionsOf (unitHistory n) ⟨"BTCUSDT", by decide⟩ "4711" = unitHistory n := by
  refine List.filter_eq_self.2 fun t ht => ?_
  obtain ⟨i, -, rfl⟩ := List.mem_map.1 ht
  have horder : (TradeQuery.byOrder "4711").selects (unitTrade i) = true := by
    show decide (toString 4711 = "4711") = true
    decide +kernel
  rw [horder, Bool.and_true]
  exact decide_eq_true rfl

theorem unitRow_behind (n : Nat) : Behind (unitRow n) (unitReport n) := ⟨fun _ => rfl, le_rfl⟩

theorem unitReport_reports (n : Nat) : Reports (unitReport n) (unitRow n) "4711"
    (executionsOf (unitHistory n) ⟨"BTCUSDT", by decide⟩ "4711") where
  clientOrderId := rfl
  exchangeOrderId := rfl
  named := by
    have hnamed : (sampleRow sampleEntry .buy 1 "4711").clientOrderId ≠ "" := by decide +kernel
    exact ⟨hnamed, by decide⟩
  executed := by
    rw [executionsOf_unit, unitHistory, List.map_map]
    have hunits : ((List.range n).map (Trade.qty ∘ unitTrade)).sum = n := by
      show ((List.range n).map fun _ => (1 : ℚ)).sum = n
      simp
    exact hunits.symm

theorem unitLedger_partlyBooked (n : Nat) (executions : List Trade) :
    PartlyBooked "main" executions 1 (unitLedger n) where
  own _ hf := absurd (Ledger.mem_fillsForOrder.1 hf).1 List.not_mem_nil
  other _ hf := absurd hf List.not_mem_nil

theorem unitRow_applyReport (n : Nat) (now : Time) :
    (unitRow n).applyReport (unitReport n) now = .ok (false, unitRow n) := by
  have hquantities : (unitRow n).withQuantities (unitReport n) = (false, unitRow n) := by
    have hadopts : (unitRow n).adoptsExchangeId (unitReport n) = false := rfl
    have hexecuted : ¬ (unitRow n).executedQuantity < (unitReport n).executedQty := lt_irrefl _
    have hquote : ¬ (unitRow n).cumulativeQuoteQuantity < (unitReport n).cumQuoteQty := lt_irrefl _
    unfold Order.withQuantities
    simp only [hadopts, hexecuted, hquote, decide_false, Bool.or_self, Bool.false_and]
    rfl
  rw [Order.applyReport, hquantities]
  rfl

theorem unitLedger_report (n : Nat) (now : Time) :
    applyReportTx sampleConfig (unitReport n) now (unitLedger n) =
      .ok (.applied (unitRow n), unitLedger n) := by
  have hfind : findOrder sampleConfig (unitLedger n) (some (unitReport n).clientOrderId)
      (unitReport n).exchangeOrderId = some (unitRow n) :=
    findOrder_of_clientOrderId (Ledger.getOrder_of_mem (o := unitRow n) (.head _))
  rw [applyReportTx, hfind]
  dsimp only
  rw [unitRow_applyReport]
  rfl

theorem unitAnswer_answered (n : Nat) :
    Answered (fun q _ a => ∃ h, a = exchangeEnv (unitAnswer n) h q) (unitRow n) (unitReport n)
      (fun _ symbol q limit => .ok (myTrades (unitHistory n) symbol q limit))
      (fun _ => ⟨"BTCUSDT", by decide⟩) "main" ⟨fun _ => ⟨"BTC", "USDT"⟩⟩ (unitHistory n) where
  report := by
    rintro - a ⟨_, rfl⟩
    exact .inl rfl
  fills := by
    rintro - order a ⟨_, rfl⟩
    rfl
  pages := fun _ _ _ _ _ h => (Except.ok.inj h).symm

/-- The report says nothing new and both queries are answered, so the refresh returns. -/
theorem unitRefresh_ne_error {n : Nat} {e : Exn} {h' : History Label Ans} {s' : Ledger} :
    ¬ Refreshed sampleConfig (fun q _ a => ∃ h, a = exchangeEnv (unitAnswer n) h q) (unitRow n) []
      (unitLedger n) (.error e) h' s' := by
  intro hres
  have hrefused : ¬ Refused sampleConfig (unitReport n) (unitLedger n) := by
    rintro ⟨now, ⟨_, herr⟩ | ⟨_, _, herr⟩⟩ <;>
    · rw [unitLedger_report] at herr
      cases herr
  cases hres with
  | failed ha =>
    obtain ⟨_, ha⟩ := ha
    cases ha
  | refused ha _ hr =>
    obtain ⟨_, ha⟩ := ha
    cases ha
    cases hr with
    | conflict _ _ _ _ hr => exact hrefused hr
    | refused _ hr _ => exact hrefused hr
  | lost _ hd =>
    obtain ⟨order, -, ha⟩ := hd.failed_of_error
    have hans := (unitAnswer_answered n).fills (s := unitLedger n) ha
    unfold BinanceExecutor.queryFills at hans
    split at hans
    · cases hans
    · split at hans <;> cases hans

theorem unitRefresh_refreshed (n : Nat) : ∃ result, (unitRefresh n).1 = .ok result ∧
    Refreshed sampleConfig (fun q _ a => ∃ h, a = exchangeEnv (unitAnswer n) h q) (unitRow n) []
      (unitLedger n) (.ok result) (unitRefresh n).2.1 (unitRefresh n).2.2 := by
  have hrun : Refreshed sampleConfig (fun q _ a => ∃ h, a = exchangeEnv (unitAnswer n) h q)
      (unitRow n) [] (unitLedger n) (unitRefresh n).1 (unitRefresh n).2.1 (unitRefresh n).2.2 :=
    (Prog.wp_run_iff _ _ _ [] _).1 ((sequential_alone fun h q _ a => a = _).wp_refresh _)
  cases hres : (unitRefresh n).1 with
  | ok result => exact ⟨result, rfl, hres ▸ hrun⟩
  | error e => exact absurd (hres ▸ hrun) unitRefresh_ne_error

/-- Of a thousand and one executions a refresh books a thousand. -/
theorem unitRefresh_misses :
    (unitReport 1001).executedQty = ((unitHistory 1001).map Trade.qty).sum ∧
      ∃ fresh, (unitRefresh 1001).1 = .ok (some fresh) ∧
        (unitRefresh 1001).2.2.fillQuantity fresh ≠ fresh.executedQuantity := by
  have hsum := (unitReport_reports 1001).executed
  rw [executionsOf_unit] at hsum
  obtain ⟨result, hout, hres⟩ := unitRefresh_refreshed 1001
  obtain ⟨fresh, rfl, hbooks⟩ := hres.books (unitAnswer_answered 1001)
    (unitHistory_chronological 1001) (unitHistory_pos 1001)
    (Ledger.getOrder_of_mem (o := unitRow 1001) (.head _)) (unitRow_behind 1001)
    (unitReport_reports 1001) (unitLedger_partlyBooked 1001 _)
  refine ⟨hsum, fresh, hout, fun heq => ?_⟩
  have hlast : unitTrade 1000 ∈ (unitHistory 1001).drop defaultLimit := by
    rw [unitHistory, List.range_succ, List.map_append,
      List.drop_append_of_le_length (by simp [defaultLimit])]
    exact List.mem_append_right _ (.head _)
  obtain ⟨f, hf, -⟩ := hbooks.1 heq (unitTrade 1000) (by rw [executionsOf_unit]; exact hlast)
  cases hf

/-- Of two executions it books both. -/
theorem unitRefresh_books :
    ∃ fresh, (unitRefresh 2).1 = .ok (some fresh) ∧
      (unitRefresh 2).2.2.fillQuantity fresh = fresh.executedQuantity := by
  obtain ⟨result, hout, -⟩ := unitRefresh_refreshed 2
  obtain ⟨fresh, rfl, hbooks⟩ := refresh_books_iff (unitAnswer_answered 2)
    (unitHistory_chronological 2) (unitHistory_pos 2)
    (Ledger.getOrder_of_mem (o := unitRow 2) (.head _)) (unitRow_behind 2) (unitReport_reports 2)
    (unitLedger_partlyBooked 2 _) result hout
  refine ⟨fresh, hout, hbooks.2 fun t ht => ?_⟩
  rw [executionsOf_unit] at ht
  cases ht

end CryptoBot
