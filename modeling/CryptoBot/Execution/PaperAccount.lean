import CryptoBot.Application.Accounting
import CryptoBot.Application.Exits
import CryptoBot.Application.Sizing
import CryptoBot.Execution.Paper
import CryptoBot.Lib.Fields

/-!
# A paper account

In PAPER mode the engine runs against the simulated exchange of `engine/execution/paper.py`, whose
balances it counts from its own fills. Between two submissions every order of such a ledger has been
refused or filled as the book says, and every execution the book knows is recorded: whatever the
engine downloads it has already.
-/

namespace CryptoBot

open Lib OrderService

/-! ## The simulated exchange -/

/-- `paper_balances`, as the executor reports them: one entry for each asset, the base quantity for
a symbol whose assets are the same. -/
def PositionService.paperBalances (s : Ledger) (startingPaperBalance : ℚ) (bot : String)
    (symbol : Symbol) : BalanceSnapshot where
  balances :=
    (if symbol.base = symbol.quote then []
      else [(symbol.quote, ⟨paperCash s startingPaperBalance bot symbol, 0⟩)]) ++
    [(symbol.base, ⟨(s.getPosition bot symbol).quantity, 0⟩)]

/-- The book after the submissions of a history; a record carries the time of its report. -/
def PaperExecutor.book (feeRate : ℚ) : History Label Ans → PaperBook
  | [] => fun _ => none
  | .call (.call (.submit order rules)) (.ok outcome) :: h =>
    (submit feeRate order rules ((outcome.report.bind (·.updateTimeMs)).getD 0) (book feeRate h)).2
  | _ :: h => book feeRate h

/-- The answers in PAPER mode: the executor is the simulated exchange, and the configuration check
refuses stops on the exchange. Clock, control plane, market data and strategy may answer
anything. -/
def PaperAnswers (cfg : Config) (feeRate start : ℚ) (h : History Label Ans) (q : Request)
    (s : Ledger) : Ans q → Prop :=
  let book := PaperExecutor.book feeRate h
  match q with
  | .call (.symbolRules symbol) => fun a => a = .ok (PaperExecutor.symbolRules symbol)
  | .call (.submit order rules) => fun a =>
    ∃ nowMs, a = .ok (PaperExecutor.submit feeRate order rules nowMs book).1
  | .call (.queryOrder order) => fun a => a = .ok (PaperExecutor.queryOrder order book)
  | .call (.queryOrderByExchangeId ..) => fun a => a = .ok none
  | .call (.queryFills order) => fun a => a = .ok (PaperExecutor.queryFills order book)
  | .call (.cancel _) => fun a => a = .ok PaperExecutor.cancel
  | .call (.openOrders _) => fun a => a = .ok []
  | .call (.recentFills ..) => fun a => a = .ok []
  | .call .balances => fun a =>
    a = .ok (PositionService.paperBalances s start cfg.bot cfg.symbol)
  | .call .validateRuntime => fun a => a = .ok ⟨⟩ → cfg.protectiveStopOnExchange = false
  | _ => fun _ => True

/-- The cycles of a trading worker. One that fails is only logged. -/
def TradingCycle.cycles (cfg : Config) : Nat → Engine PUnit
  | 0 => pure ⟨⟩
  | n + 1 => do
    let _ ← (runOnce cfg).attempt
    cycles cfg n

/-! ## Settings -/

/-- Settings under which no entry is ever taken. -/
def NeverBuys (cfg : Config) (start : ℚ) : Prop :=
  start = 0 ∨ cfg.riskPerTradePct ≤ 0 ∨ cfg.stopLossPct ≤ 0 ∨ cfg.maxOpenPositions = 0 ∨
    cfg.globalTradingEnabled = false ∨ cfg.dailyLossLimitPct ≤ 0 ∨
    cfg.protectiveStopOnExchange = true ∨ cfg.symbol.base = cfg.symbol.quote

/-- A sale brings something in, and the largest entry leaves its fee: of an equity of 1 an entry
takes `RISK_PER_TRADE_PCT / STOP_LOSS_PCT`, at most all. -/
def FeeCovered (cfg : Config) (feeRate : ℚ) : Prop :=
  feeRate ≤ 1 ∧ min (cfg.riskPerTradePct / cfg.stopLossPct) 1 * (1 + feeRate) ≤ 1

/-! ## Lots -/

/-- A whole number of lots of the simulated exchange. -/
def Lots (q : ℚ) : Prop := ∃ n : ℕ, q = n * (1 / 100000000)

theorem Lots.zero : Lots 0 := ⟨0, by simp⟩

theorem Lots.nonneg {q : ℚ} (hq : Lots q) : 0 ≤ q := by
  obtain ⟨n, rfl⟩ := hq
  positivity

theorem Lots.add {p q : ℚ} (hp : Lots p) (hq : Lots q) : Lots (p + q) := by
  obtain ⟨n, rfl⟩ := hp
  obtain ⟨m, rfl⟩ := hq
  exact ⟨n + m, by push_cast; ring⟩

/-- What is left when lots are taken away, if anything. -/
theorem Lots.sub {p q : ℚ} (hp : Lots p) (hq : Lots q) : Lots (max 0 (p - q)) := by
  obtain ⟨n, rfl⟩ := hp
  obtain ⟨m, rfl⟩ := hq
  rcases le_total n m with h | h
  · have hle : (n : ℚ) ≤ m := Nat.cast_le.2 h
    rw [max_eq_left (by linarith)]
    exact .zero
  · refine ⟨n - m, ?_⟩
    have hle : (m : ℚ) ≤ n := Nat.cast_le.2 h
    rw [max_eq_right (by linarith), Nat.cast_sub h]
    ring

/-- Less than a lot is nothing. -/
theorem Lots.eq_zero {q : ℚ} (hq : Lots q) (hlt : q < 1 / 100000000) : q = 0 := by
  obtain ⟨n, rfl⟩ := hq
  have hn : (n : ℚ) < 1 := by linarith
  have hzero : n = 0 := by
    have : n < 1 := by exact_mod_cast hn
    omega
  simp [hzero]

section
variable {symbol : Symbol} {qty : ℚ}

theorem lots_roundQty (hq : 0 ≤ qty) : Lots ((PaperExecutor.symbolRules symbol).roundQty qty) := by
  have hs : (0 : ℚ) < 1 / 100000000 := by norm_num
  have hround : (PaperExecutor.symbolRules symbol).roundQty qty =
      ⌊qty / (1 / 100000000)⌋ * (1 / 100000000) := floorToStep_eq_down hq hs
  obtain ⟨n, hn⟩ := Int.eq_ofNat_of_zero_le (Int.floor_nonneg.2 (div_nonneg hq hs.le))
  exact ⟨n, by rw [hround, hn]; push_cast; rfl⟩

theorem roundQty_le (hq : 0 ≤ qty) : (PaperExecutor.symbolRules symbol).roundQty qty ≤ qty :=
  floorToStep_le hq

end

/-! ## Between submissions -/

/-- The event key of the execution of a row. -/
def paperKey (symbol : Symbol) (id : Nat) : String :=
  "paper:" ++ symbol.text ++ ":" ++ ("P" ++ toString id) ++ ":" ++ ("PT" ++ toString id) ++ ":" ++
    "TRADE"

theorem paperKey_inj {symbol : Symbol} {n m : Nat} (h : paperKey symbol n = paperKey symbol m) :
    n = m := by
  have hdigits (n : Nat) : Free ':' (toString n) := .repr (by decide) n
  have hp (n : Nat) : Free ':' ("P" ++ toString n) := .append (by decide) (hdigits n)
  have hpt (n : Nat) : Free ':' ("PT" ++ toString n) := .append (by decide) (hdigits n)
  rw [paperKey, paperKey, field_inj (by decide) (by decide), field_inj (hpt _) (hpt _),
    field_inj (hp _) (hp _)] at h
  simpa [repr_nat_inj] using h.1.2

theorem eventKey_record {feeRate price : ℚ} {order : Order} {rules : SymbolRules} {nowMs : Int} :
    (PaperExecutor.fill (PaperExecutor.record feeRate order rules price nowMs)).eventKey =
      paperKey order.symbol order.id := by
  simp [PaperExecutor.fill, PaperExecutor.record, paperKey, toString, String.append_assoc]

/-- A recorded fill of the simulated exchange. -/
structure Simulated (cfg : Config) (s : Ledger) (f : Fill) : Prop where
  symbol : f.symbol = cfg.symbol
  owner : ∃ o ∈ s.orders.rows, o.id = f.orderId
  quantity : Lots f.quantity
  commissionAsset : f.commissionAsset = some cfg.symbol.quote
  eventKey : f.eventKey = paperKey cfg.symbol f.orderId

/-- An order that has been refused, or filled as the book says, with its execution recorded. -/
def Squared (book : PaperBook) (s : Ledger) (o : Order) : Prop :=
  (o.status = .rejected ∧ o.executedQuantity = 0 ∧ o.exchangeOrderId = none) ∨
    ∃ r, book o.clientOrderId = some r ∧ o.status = .filled ∧ r.status = .filled ∧
      r.executedQty = o.executedQuantity ∧ o.exchangeOrderId = some s!"P{o.id}" ∧
      s.fillQuantity o = o.executedQuantity

/-- The ledger of a paper account between submissions. -/
structure PaperBooks (cfg : Config) (start : ℚ) (book : PaperBook) (s : Ledger) : Prop where
  own : ∀ o ∈ s.orders.rows, o.bot = cfg.bot
  squared : ∀ o ∈ s.orders.rows, Squared book s o
  known : ∀ c, (book c).isSome → (s.getOrder c).isSome
  fills : ∀ f ∈ s.fills.rows, Simulated cfg s f
  position : Lots (s.getPosition cfg.bot cfg.symbol).quantity
  cash : 0 ≤ PositionService.paperCash s start cfg.bot cfg.symbol
  idle : NeverBuys cfg start → s.fills.rows = [] ∧
    (s.getPosition cfg.bot cfg.symbol).quantity = 0 ∧
    (cfg.dailyLossLimitPct ≤ 0 → 0 < start → cfg.symbol.base ≠ cfg.symbol.quote →
      ∀ d, s.riskDay cfg.bot = some d → d.halted = true)

section
variable {cfg : Config} {feeRate start : ℚ} {book : PaperBook} {s s' : Ledger} {o o' : Order}

/-! ### Cash -/

/-- The cash of the account is the starting balance and the cash flow of every recorded fill. -/
theorem paperCash_sum (hown : ∀ o ∈ s.orders.rows, o.bot = cfg.bot)
    (hfills : ∀ f ∈ s.fills.rows, Simulated cfg s f) :
    PositionService.paperCash s start cfg.bot cfg.symbol =
      start + (s.fills.rows.map Fill.cashFlow).sum := by
  have hall : s.fills.rows.filter (fun f => decide (f.symbol = cfg.symbol) &&
      s.orders.rows.any fun o => decide (o.id = f.orderId ∧ o.bot = cfg.bot)) = s.fills.rows := by
    refine List.filter_eq_self.2 fun f hf => ?_
    obtain ⟨o, ho, hid⟩ := (hfills f hf).owner
    rw [Bool.and_eq_true]
    exact ⟨decide_eq_true (hfills f hf).symbol,
      List.any_eq_true.2 ⟨o, ho, decide_eq_true ⟨hid, hown o ho⟩⟩⟩
  rw [paperCash_eq, Ledger.fillsOf, hall]
  exact congrArg _ ((List.perm_insertionSort _ _).map Fill.cashFlow).sum_eq

/-- What a record is worth on the account. -/
theorem cashFlow_record {rules : SymbolRules} {price : ℚ} {nowMs : Int} {now : Time} {f : Fill}
    (hf : f = { fillOf o'
      (PaperExecutor.fill (PaperExecutor.record feeRate o rules price nowMs)) now with id := f.id })
    (hquote : rules.quoteAsset = o'.symbol.quote) :
    f.cashFlow = if o'.side = .sell
      then rules.roundQty o.requestedQuantity * price * (1 - feeRate)
      else -(rules.roundQty o.requestedQuantity * price * (1 + feeRate)) := by
  have hgross : f.gross = rules.roundQty o.requestedQuantity * price := by
    rw [hf]
    simp [Fill.gross, fillOf, PaperExecutor.fill, PaperExecutor.record]
  have hfee : f.quoteFee = rules.roundQty o.requestedQuantity * price * feeRate := by
    rw [hf]
    simp [Fill.quoteFee, fillOf, PaperExecutor.fill, PaperExecutor.record, hquote]
  have hside : f.side = o'.side := by
    rw [hf]
    rfl
  rw [Fill.cashFlow, Fill.proceeds, Fill.cost, hgross, hfee, hside]
  split <;> ring

/-! ### Holdings -/

/-- A simulated execution moves whole lots, since its commission is in the quote asset. -/
theorem lots_apply {c : Core} {f : Fill} (hassets : cfg.symbol.base ≠ cfg.symbol.quote)
    (hf : Simulated cfg s f) (hc : Lots c.quantity) : Lots (c.apply f).quantity := by
  have hfee : f.baseFee = 0 := by
    rw [Fill.baseFee, hf.commissionAsset, hf.symbol, if_neg]
    exact fun h => hassets (Option.some.inj h).symm
  have hreceived : f.received = f.quantity := by rw [Fill.received, hfee, sub_zero]
  have hdelivered : f.delivered = f.quantity := by rw [Fill.delivered, hfee, add_zero]
  unfold Core.apply
  cases f.side with
  | buy =>
    dsimp only
    split
    · exact hc
    · exact hreceived ▸ hc.add hf.quantity
  | sell =>
    dsimp only
    split
    · exact .zero
    · exact hdelivered ▸ hc.sub hf.quantity
  | other text => exact hc

theorem lots_foldl {c : Core} {fs : List Fill} (hassets : cfg.symbol.base ≠ cfg.symbol.quote)
    (hfs : ∀ f ∈ fs, Simulated cfg s f) (hc : Lots c.quantity) :
    Lots (fs.foldl Core.apply c).quantity := by
  induction fs generalizing c with
  | nil => exact hc
  | cons f fs ih =>
    obtain ⟨hf, hfs⟩ := List.forall_mem_cons.1 hfs
    exact ih hfs (lots_apply hassets hf hc)

namespace PaperBooks

/-- A rebuild holds whole lots, and nothing where nothing was bought. -/
theorem rebuilt (hb : PaperBooks cfg start book s) (existing : Position) :
    let p := (PositionService.rebuilt existing cfg.bot cfg.symbol
      (s.fillsOf cfg.bot cfg.symbol)).1
    Lots p.quantity ∧ (NeverBuys cfg start → p.quantity = 0) := by
  intro p
  have hquantity : p.quantity =
      ((s.fillsOf cfg.bot cfg.symbol).foldl Core.apply {}).quantity :=
    congrArg Core.quantity (core_rebuilt existing cfg.bot cfg.symbol _)
  have hidle : NeverBuys cfg start → p.quantity = 0 := by
    intro h
    rw [hquantity, Ledger.fillsOf, (hb.idle h).1]
    rfl
  refine ⟨?_, hidle⟩
  by_cases hn : NeverBuys cfg start
  · rw [hidle hn]
    exact .zero
  · have hassets : cfg.symbol.base ≠ cfg.symbol.quote :=
      fun h => hn (.inr (.inr (.inr (.inr (.inr (.inr (.inr h)))))))
    rw [hquantity]
    refine @lots_foldl cfg s _ _ hassets (fun f hf => ?_) .zero
    rw [Ledger.fillsOf, List.mem_insertionSort, List.mem_filter] at hf
    exact hb.fills f hf.1

/-! ### Steps that record nothing -/

theorem nonTerminal (hb : PaperBooks cfg start book s) :
    s.nonTerminalOrders cfg.bot cfg.symbol = [] := by
  refine List.eq_nil_iff_forall_not_mem.2 fun o ho => ?_
  obtain ⟨hmem, -, -, hopen⟩ := Ledger.mem_nonTerminalOrders.1 ho
  rw [Order.isTerminal] at hopen
  rcases hb.squared o hmem with ⟨hstatus, -⟩ | ⟨r, -, hstatus, -⟩
  · rw [hstatus] at hopen
    cases hopen
  · rw [hstatus] at hopen
    cases hopen

/-- What leaves orders, fills, the holding and the day alone leaves the account alone. -/
theorem congr (hb : PaperBooks cfg start book s) (horders : s'.orders = s.orders)
    (hfills : s'.fills = s.fills)
    (hposition : (s'.getPosition cfg.bot cfg.symbol).quantity =
      (s.getPosition cfg.bot cfg.symbol).quantity)
    (hday : s'.riskDay = s.riskDay) : PaperBooks cfg start book s' where
  own := horders ▸ hb.own
  squared o ho := by
    rcases hb.squared o (horders ▸ ho) with h | ⟨r, hr, hs, hrs, he, hx, hq⟩
    · exact .inl h
    · exact .inr ⟨r, hr, hs, hrs, he, hx, (Ledger.fillQuantity_congr hfills rfl).trans hq⟩
  known c hc := by
    rw [Ledger.getOrder_congr horders]
    exact hb.known c hc
  fills f hf :=
    have h := hb.fills f (hfills ▸ hf)
    ⟨h.symbol, horders ▸ h.owner, h.quantity, h.commissionAsset, h.eventKey⟩
  position := hposition ▸ hb.position
  cash := by
    have h := hb.cash
    rw [PositionService.paperCash, Ledger.fillsOf] at h ⊢
    rwa [horders, hfills]
  idle hn := by
    obtain ⟨hnone, hzero, hhalted⟩ := hb.idle hn
    exact ⟨hfills ▸ hnone, hposition.trans hzero, hday ▸ hhalted⟩

/-- A position is saved that holds whole lots. -/
theorem saved {p q : Position} {now : Time} (hb : PaperBooks cfg start book s)
    (hsave : Store.savePosition p now s = .ok (q, s')) (hbot : p.bot = cfg.bot)
    (hsymbol : p.symbol = cfg.symbol) (hlots : Lots p.quantity)
    (hidle : NeverBuys cfg start → p.quantity = 0) : PaperBooks cfg start book s' := by
  cases hsave
  have hposition : Ledger.getPosition
      { s with positions := Store.upsertPosition s.positions { p with updatedAt := some now } }
      cfg.bot cfg.symbol = { p with updatedAt := some now } :=
    Ledger.getPosition_upsert_self rfl hbot hsymbol
  exact
    { own := hb.own, squared := hb.squared, known := hb.known
      fills := fun f hf => ⟨(hb.fills f hf).symbol, (hb.fills f hf).owner, (hb.fills f hf).quantity,
        (hb.fills f hf).commissionAsset, (hb.fills f hf).eventKey⟩
      position := by
        rw [hposition]
        exact hlots
      cash := hb.cash
      idle := fun hn => by
        rw [hposition]
        exact ⟨(hb.idle hn).1, hidle hn, (hb.idle hn).2.2⟩ }

/-- The day is written. -/
theorem setDay {day : RiskDay} (hb : PaperBooks cfg start book s)
    (hday : cfg.dailyLossLimitPct ≤ 0 → 0 < start → cfg.symbol.base ≠ cfg.symbol.quote →
      day.halted = true) :
    PaperBooks cfg start book
      { s with riskDay := Function.update s.riskDay cfg.bot (some day) } where
  own := hb.own
  squared := hb.squared
  known := hb.known
  fills f hf := ⟨(hb.fills f hf).symbol, (hb.fills f hf).owner, (hb.fills f hf).quantity,
    (hb.fills f hf).commissionAsset, (hb.fills f hf).eventKey⟩
  position := hb.position
  cash := hb.cash
  idle hn := ⟨(hb.idle hn).1, (hb.idle hn).2.1, fun hlimit hstart hassets d hd => by
    dsimp only at hd
    rw [Function.update_self] at hd
    exact Option.some.inj hd ▸ hday hlimit hstart hassets⟩

/-- The row of the position is written back with its quantity. -/
theorem rewritten {p q : Position} {now : Time} (hb : PaperBooks cfg start book s)
    (hsave : Store.savePosition p now s = .ok (q, s')) (hbot : p.bot = cfg.bot)
    (hsymbol : p.symbol = cfg.symbol)
    (hquantity : p.quantity = (s.getPosition cfg.bot cfg.symbol).quantity) :
    PaperBooks cfg start book s' :=
  hb.saved hsave hbot hsymbol (hquantity ▸ hb.position) fun hn => hquantity.trans (hb.idle hn).2.1

end PaperBooks

/-! ## A submission -/

/-- The order `o` is in transit to the executor; apart from it the account is as between
submissions. -/
structure InTransit (cfg : Config) (start : ℚ) (book : PaperBook) (s : Ledger) (o : Order) :
    Prop where
  mem : o ∈ s.orders.rows
  exchange : o.exchange = cfg.exchangeName
  symbol : o.symbol = cfg.symbol
  named : o.clientOrderId ≠ ""
  status : o.status = .submitting
  executed : o.executedQuantity = 0
  exchangeOrderId : o.exchangeOrderId = none
  own : ∀ x ∈ s.orders.rows, x.bot = cfg.bot
  others : ∀ x ∈ s.orders.rows, x.id ≠ o.id → Squared book s x
  unknown : book o.clientOrderId = none
  known : ∀ c, (book c).isSome → (s.getOrder c).isSome
  fills : ∀ f ∈ s.fills.rows, Simulated cfg s f ∧ f.orderId ≠ o.id
  position : Lots (s.getPosition cfg.bot cfg.symbol).quantity
  cash : 0 ≤ PositionService.paperCash s start cfg.bot cfg.symbol

theorem makeClientOrderId_ne_empty (lib : TextLib) (pre : String) (iid : IntentId) :
    makeClientOrderId lib pre iid ≠ "" := by
  intro h
  have hlist := congrArg String.toList h
  simp [makeClientOrderId] at hlist

/-- What the row of a new order says. -/
theorem Placed.fields {intent : OrderIntent} (hp : Placed cfg s s' intent o) :
    o.bot = cfg.bot ∧ o.exchange = cfg.exchangeName ∧ o.symbol = intent.symbol ∧
      o.side = intent.side ∧ o.referencePrice = intent.referencePrice ∧ o.status = .submitting ∧
      o.executedQuantity = 0 ∧ o.exchangeOrderId = none ∧ o.clientOrderId ≠ "" ∧
      ∀ x ∈ s.orders.rows, x.id < o.id := by
  obtain ⟨rules, now, o₀, ho₀, rfl⟩ := hp.row
  cases ho₀
  exact ⟨rfl, rfl, rfl, rfl, rfl, rfl, rfl, rfl, makeClientOrderId_ne_empty _ _ _,
    fun x hx => Store.lt_nextId (List.mem_map_of_mem hx)⟩

/-- A new order is in transit. -/
theorem PaperBooks.placed {intent : OrderIntent} (hb : PaperBooks cfg start book s)
    (hsymbol : intent.symbol = cfg.symbol) (hp : Placed cfg s s' intent o) :
    InTransit cfg start book s' o := by
  obtain ⟨hbot, hexchange, hosymbol, -, -, hstatus, hexecuted, hxid, hnamed, hnew⟩ := hp.fields
  have hfills : s'.fills = s.fills := (congrArg Ledger.fills hp.rest :)
  have hpositions : s'.positions = s.positions := (congrArg Ledger.positions hp.rest :)
  have hold {x : Order} (hx : x ∈ s.orders.rows) : x ∈ s'.orders.rows := by
    rw [hp.rows]
    exact List.mem_append_left _ hx
  have hmem : o ∈ s'.orders.rows := by
    rw [hp.rows]
    exact List.mem_append_right _ (List.mem_singleton_self _)
  have hown : ∀ x ∈ s'.orders.rows, x.bot = cfg.bot := by
    rw [hp.rows]
    exact List.forall_mem_append.2 ⟨hb.own, List.forall_mem_singleton.2 hbot⟩
  have hsim : ∀ f ∈ s'.fills.rows, Simulated cfg s' f ∧ f.orderId ≠ o.id := by
    intro f hf
    have h := hb.fills f (hfills ▸ hf)
    obtain ⟨x, hx, hid⟩ := h.owner
    exact ⟨⟨h.symbol, ⟨x, hold hx, hid⟩, h.quantity, h.commissionAsset, h.eventKey⟩,
      hid ▸ (hnew x hx).ne⟩
  have hcash : PositionService.paperCash s' start cfg.bot cfg.symbol =
      PositionService.paperCash s start cfg.bot cfg.symbol := by
    rw [paperCash_sum hb.own hb.fills, paperCash_sum hown fun f hf => (hsim f hf).1, hfills]
  exact
    { mem := hmem, exchange := hexchange, symbol := hosymbol.trans hsymbol, named := hnamed
      status := hstatus, executed := hexecuted, exchangeOrderId := hxid, own := hown, fills := hsim
      others := fun x hx hne => by
        rw [hp.rows] at hx
        rcases List.mem_append.1 hx with hx | hx
        · rcases hb.squared x hx with h | ⟨r, hr, hs, hrs, he, hxid, hq⟩
          · exact .inl h
          · exact .inr ⟨r, hr, hs, hrs, he, hxid, (Ledger.fillQuantity_congr hfills rfl).trans hq⟩
        · exact absurd (congrArg Order.id (List.mem_singleton.1 hx)) hne
      unknown := by
        refine Option.not_isSome_iff_eq_none.1 fun hsome => ?_
        obtain ⟨x, hx⟩ := Option.isSome_iff_exists.1 (hb.known _ hsome)
        obtain ⟨hxmem, hxid⟩ := Ledger.getOrder_eq_some.1 hx
        exact (hnew x hxmem).ne
          (congrArg Order.id (Ledger.eq_of_clientOrderId (hold hxmem) hmem hxid))
      known := fun c hc => by
        obtain ⟨x, hx⟩ := Option.isSome_iff_exists.1 (hb.known c hc)
        obtain ⟨hxmem, rfl⟩ := Ledger.getOrder_eq_some.1 hx
        rw [Ledger.getOrder_of_mem (hold hxmem)]
        rfl
      position := by
        rw [Ledger.getPosition_congr hpositions]
        exact hb.position
      cash := hcash ▸ hb.cash }

namespace InTransit

/-- The row is replaced by the same order: its exchange id is still to come, or is its own. -/
theorem replaced (hu : InTransit cfg start book s o) (hr : s.Replaced s' o o') :
    (∀ x ∈ s'.orders.rows, x.bot = cfg.bot) ∧
      (∀ x ∈ s'.orders.rows, x.id ≠ o.id → Squared book s' x) ∧
      (∀ c, (s'.getOrder c).isSome = (s.getOrder c).isSome) ∧
      (∀ f ∈ s'.fills.rows, Simulated cfg s' f ∧ f.orderId ≠ o.id) ∧
      (s'.getPosition cfg.bot cfg.symbol) = s.getPosition cfg.bot cfg.symbol ∧
      PositionService.paperCash s' start cfg.bot cfg.symbol =
        PositionService.paperCash s start cfg.bot cfg.symbol := by
  have hfills := hr.fills
  have hown : ∀ x ∈ s'.orders.rows, x.bot = cfg.bot := by
    intro x hx
    rcases hr.mem_iff.1 hx with rfl | ⟨hx, -⟩
    · exact hr.same.bot.trans (hu.own o hr.mem)
    · exact hu.own x hx
  have hsim : ∀ f ∈ s'.fills.rows, Simulated cfg s' f ∧ f.orderId ≠ o.id := by
    intro f hf
    obtain ⟨h, hne⟩ := hu.fills f (hfills ▸ hf)
    obtain ⟨x, hx, hid⟩ := h.owner
    refine ⟨⟨h.symbol, ⟨x, hr.mem_iff.2 (.inr ⟨hx, ?_⟩), hid⟩, h.quantity, h.commissionAsset,
      h.eventKey⟩, hne⟩
    exact hid ▸ hne
  refine ⟨hown, fun x hx hne => ?_, hr.getOrder_isSome, hsim,
    Ledger.getPosition_congr hr.positions _ _, ?_⟩
  · rcases hr.mem_iff.1 hx with rfl | ⟨hx, -⟩
    · exact absurd hr.same.id hne
    · rcases hu.others x hx hne with h | ⟨r, hbook, hs, hrs, he, hxid, hq⟩
      · exact .inl h
      · exact .inr ⟨r, hbook, hs, hrs, he, hxid, (Ledger.fillQuantity_congr hfills rfl).trans hq⟩
  · rw [paperCash_sum hu.own fun f hf => (hu.fills f hf).1,
      paperCash_sum hown fun f hf => (hsim f hf).1, hfills]

/-- A refused order squares the account. -/
theorem refused (hu : InTransit cfg start book s o) (hbuys : ¬ NeverBuys cfg start)
    (hr : s.Replaced s' o o') (hstatus : o'.status = .rejected)
    (hexecuted : o'.executedQuantity = 0)
    (hxid : o'.exchangeOrderId = none) : PaperBooks cfg start book s' := by
  obtain ⟨hown, hothers, hget, hsim, hposition, hcash⟩ := hu.replaced hr
  exact
    { own := hown
      squared := fun x hx => by
        rcases hr.mem_iff.1 hx with rfl | ⟨-, hne⟩
        · exact .inl ⟨hstatus, hexecuted, hxid⟩
        · exact hothers x hx hne
      known := fun c hc => (hget c).trans (hu.known c hc)
      fills := fun f hf => (hsim f hf).1
      position := hposition ▸ hu.position
      cash := hcash ▸ hu.cash
      idle := fun h => absurd h hbuys }

/-- The refusal of the executor is recorded. -/
theorem reject {reason : String} {now : Time} (hu : InTransit cfg start book s o)
    (hbuys : ¬ NeverBuys cfg start) :
    ∃ s', rejectTx o.clientOrderId reason now s = .ok (⟨⟩, s') ∧
      PaperBooks cfg start book s' := by
  obtain ⟨o₁, hmark⟩ : ∃ o₁, o.markRejected reason now = .ok (true, o₁) := by
    unfold Order.markRejected Order.isTerminal Order.transition
    rw [hu.status]
    exact ⟨_, rfl⟩
  obtain ⟨hsame, hversion, hexecuted, hxid, -, hyes⟩ := Order.markRejected_ok hmark
  obtain ⟨orders, hsave⟩ := Store.saveOrder_isOk hu.mem hsame hversion fun y _ _ hsome => by
    rw [hxid, hu.exchangeOrderId] at hsome
    cases hsome
  obtain ⟨outbox, henqueue⟩ := Store.enqueueOrder_eq_ok { o₁ with version := o₁.version + 1 } now
    { s with orders }
  have htx : rejectTx o.clientOrderId reason now s = .ok (⟨⟩, { s with orders, outbox }) := by
    unfold rejectTx
    rw [Ledger.getOrder_of_mem hu.mem, @Tx.bind_eq s s _ _ _ _ o rfl, hmark,
      @Tx.bind_eq s s _ _ _ _ (true, o₁) rfl]
    dsimp only
    rw [if_pos rfl, Tx.bind_eq hsave]
    exact henqueue
  refine ⟨_, htx, ?_⟩
  rcases rejectTx_cases htx with ⟨x, hget, ⟨hterminal, -⟩ | ⟨o₂, hmark', hr⟩⟩
  · obtain rfl := Option.some.inj ((Ledger.getOrder_of_mem hu.mem).symm.trans hget)
    rw [Order.isTerminal, hu.status] at hterminal
    cases hterminal
  · obtain rfl := Option.some.inj ((Ledger.getOrder_of_mem hu.mem).symm.trans hget)
    obtain rfl : o₁ = o₂ := by
      rw [hmark] at hmark'
      cases hmark'
      rfl
    exact hu.refused hbuys hr (hyes rfl).2.1 (hexecuted.trans hu.executed)
      (hxid.trans hu.exchangeOrderId)

/-- The acknowledgement of the executor is applied. -/
theorem acknowledge {rules : SymbolRules} {price : ℚ} {nowMs : Int} {now : Time}
    (hu : InTransit cfg start book s o) (hq : 0 ≤ rules.roundQty o.requestedQuantity) :
    ∃ o' s', applyReportTx cfg
        (PaperExecutor.report (PaperExecutor.record feeRate o rules price nowMs)) now s =
          .ok (.applied o', s') ∧
      s.Replaced s' o o' ∧ o'.status = .filled ∧
      o'.executedQuantity = rules.roundQty o.requestedQuantity ∧
      o'.exchangeOrderId = some s!"P{o.id}" := by
  generalize hrep : PaperExecutor.report (PaperExecutor.record feeRate o rules price nowMs) = rep
  have hclient : rep.clientOrderId = o.clientOrderId := by rw [← hrep]; rfl
  have hfilled : rep.status = .filled := by rw [← hrep]; rfl
  have hexecuted : rep.executedQty = rules.roundQty o.requestedQuantity := by rw [← hrep]; rfl
  have hxid : rep.exchangeOrderId = some s!"P{o.id}" := by rw [← hrep]; rfl
  have hfind : findOrder cfg s (some rep.clientOrderId) rep.exchangeOrderId = some o :=
    findOrder_of_clientOrderId (hclient ▸ Ledger.getOrder_of_mem hu.mem)
  obtain ⟨changed, o₁, happly⟩ : ∃ changed o₁, o.applyReport rep now = .ok (changed, o₁) := by
    cases happly : o.applyReport rep now with
    | ok x => exact ⟨x.1, x.2, rfl⟩
    | error m =>
      have hterminal := (Order.applyReport_error.1 ⟨m, happly⟩).isTerminal
      rw [Order.isTerminal, hu.status] at hterminal
      cases hterminal
  obtain ⟨happlied, hunchanged⟩ := Order.applyReport_ok happly
  have hstatus : o₁.status = .filled := by
    rw [happlied.status, hu.status, hfilled]
    rfl
  have hadopts : o.adoptsExchangeId rep = true := by
    rw [Order.adoptsExchangeId, hxid, hu.exchangeOrderId]
    simp [truthy]
  have hx₁ : o₁.exchangeOrderId = some s!"P{o.id}" := by
    rw [happlied.exchangeOrderId, if_pos hadopts, hxid]
  obtain rfl : changed = true := by
    cases changed with
    | true => rfl
    | false =>
      rw [hunchanged rfl, hu.status] at hstatus
      cases hstatus
  obtain ⟨orders, hsave⟩ := Store.saveOrder_isOk hu.mem happlied.same happlied.version
    fun y hy hne _ hboth => by
      obtain ⟨-, hyx⟩ := hboth
      rw [hx₁] at hyx
      rcases hu.others y hy hne with ⟨-, -, hnone⟩ | ⟨r, -, -, -, -, hsome, -⟩
      · rw [hnone] at hyx
        cases hyx
      · rw [hsome] at hyx
        have hid : y.id = o.id := by simpa [toString, repr_nat_inj] using hyx
        exact hne hid
  obtain ⟨outbox, henqueue⟩ := Store.enqueueOrder_eq_ok { o₁ with version := o₁.version + 1 } now
    { s with orders }
  have htx : applyReportTx cfg rep now s =
      .ok (.applied { o₁ with version := o₁.version + 1 }, { s with orders, outbox }) := by
    unfold applyReportTx
    rw [hfind]
    dsimp only
    rw [happly]
    dsimp only
    rw [if_pos rfl, Tx.bind_eq hsave, Tx.bind_eq henqueue]
    rfl
  refine ⟨_, _, htx, (Store.saveOrder_ok hu.mem happlied.same hsave).2.of_books rfl, hstatus, ?_,
    hx₁⟩
  show o₁.executedQuantity = _
  rw [happlied.executed, hu.executed, hexecuted, max_eq_right hq]

/-- The execution of an acknowledged order is new. -/
theorem ingest {rules : SymbolRules} {price : ℚ} {nowMs : Int} {now : Time} {s₁ : Ledger} {b : Bool}
    (hu : InTransit cfg start book s o) (hr : s.Replaced s₁ o o')
    (htx : ingestFillTx cfg (PaperExecutor.fill (PaperExecutor.record feeRate o rules price nowMs))
      now s₁ = .ok (b, s')) :
    ∃ f, Filled cfg s₁ s' o' (PaperExecutor.fill (PaperExecutor.record feeRate o rules price nowMs))
      f := by
  obtain ⟨-, -, -, hsim, -, -⟩ := hu.replaced hr
  have hclient : o'.clientOrderId = o.clientOrderId := hr.same.clientOrderId
  have hfind : findOrder cfg s₁ (some o.clientOrderId |>.filter (· ≠ "")) (some s!"P{o.id}") =
      some o' := by
    rw [Option.filter_some, if_pos (by simpa using hu.named)]
    exact findOrder_of_clientOrderId (hclient ▸ Ledger.getOrder_of_mem hr.mem_new)
  rcases ingestFillTx_cases htx with ⟨hnone, -⟩ | ⟨x, hx, ⟨-, hdup⟩ | ⟨f, -, hf⟩⟩
  · exact absurd (hfind.symm.trans hnone) (Option.some_ne_none _)
  · -- its key and its trade are named after the row, which has no fill yet
    obtain rfl := Option.some.inj (hfind.symm.trans hx)
    refine absurd (fun g hg => ?_) hdup
    obtain ⟨hgsim, hgid⟩ := hsim g hg
    refine ⟨Store.lt_nextId (List.mem_map_of_mem hg), fun hkey => hgid ?_, fun h => hgid ?_⟩
    · rw [hgsim.eventKey] at hkey
      exact paperKey_inj (hkey.trans (eventKey_record.trans (by rw [hu.symbol])))
    · exact h.1.trans hr.same.id
  · obtain rfl := Option.some.inj (hfind.symm.trans hx)
    exact ⟨f, hf⟩

/-- An order that has been filled squares the account again, if the account can pay for it. -/
theorem filled {rules : SymbolRules} {price : ℚ} {nowMs : Int} {s₁ : Ledger} {f : Fill}
    (hu : InTransit cfg start book s o) (hbuys : ¬ NeverBuys cfg start)
    (hrules : rules = PaperExecutor.symbolRules cfg.symbol) (hq : 0 ≤ o.requestedQuantity)
    (hr : s.Replaced s₁ o o') (hstatus : o'.status = .filled)
    (hexecuted : o'.executedQuantity = rules.roundQty o.requestedQuantity)
    (hx : o'.exchangeOrderId = some s!"P{o.id}")
    (hf : Filled cfg s₁ s' o'
      (PaperExecutor.fill (PaperExecutor.record feeRate o rules price nowMs)) f)
    (hpays : 0 ≤ PositionService.paperCash s start cfg.bot cfg.symbol + if o.side = .sell
      then rules.roundQty o.requestedQuantity * price * (1 - feeRate)
      else -(rules.roundQty o.requestedQuantity * price * (1 + feeRate))) :
    PaperBooks cfg start (Function.update book o.clientOrderId
      (some (PaperExecutor.record feeRate o rules price nowMs))) s' := by
  obtain ⟨hown₁, hothers, hget, hsim, hposition₁, hcash₁⟩ := hu.replaced hr
  obtain ⟨now, hrow⟩ := hf.row
  have horders : s'.orders = s₁.orders := (congrArg Ledger.orders hf.rest :)
  have hid : f.orderId = o.id := by
    rw [hrow]
    exact hr.same.id
  have hquantity : f.quantity = rules.roundQty o.requestedQuantity := by
    rw [hrow]
    rfl
  have hsymbol : f.symbol = cfg.symbol := by
    rw [hrow]
    exact hr.same.symbol.trans hu.symbol
  have hnew : Simulated cfg s' f :=
    { symbol := hsymbol
      owner := ⟨o', horders ▸ hr.mem_new, hr.same.id.trans hid.symm⟩
      quantity := hquantity ▸ hrules ▸ lots_roundQty hq
      commissionAsset := by
        rw [hrow]
        exact congrArg some (congrArg SymbolRules.quoteAsset hrules)
      eventKey := by
        rw [hid, ← hu.symbol, hrow]
        exact eventKey_record }
  have hfills : ∀ g ∈ s'.fills.rows, Simulated cfg s' g := by
    intro g hg
    rw [hf.rows] at hg
    rcases List.mem_append.1 hg with hg | hg
    · have h := (hsim g hg).1
      exact ⟨h.symbol, horders ▸ h.owner, h.quantity, h.commissionAsset, h.eventKey⟩
    · exact List.mem_singleton.1 hg ▸ hnew
  have hown : ∀ x ∈ s'.orders.rows, x.bot = cfg.bot := by
    rw [horders]
    exact hown₁
  have hcash : PositionService.paperCash s' start cfg.bot cfg.symbol =
      PositionService.paperCash s start cfg.bot cfg.symbol + f.cashFlow := by
    rw [← hcash₁, paperCash_sum hown hfills, paperCash_sum hown₁ fun g hg => (hsim g hg).1, hf.rows,
      List.map_append, List.sum_append]
    simp [add_assoc]
  have hfillQuantity (x : Order) : s'.fillQuantity x =
      s₁.fillQuantity x + if x.id = o.id then f.quantity else 0 := by
    simp only [Ledger.fillQuantity, Ledger.fillsForOrder, hf.rows, List.filter_append,
      List.map_append, List.sum_append, List.filter_singleton, hid]
    by_cases hxid : x.id = o.id
    · simp [hxid]
    · simp [hxid, Ne.symm hxid]
  exact
    { own := hown
      squared := fun x hx' => by
        rw [horders] at hx'
        by_cases hxid : x.id = o.id
        · obtain rfl : x = o' := Ledger.eq_of_id hx' hr.mem_new (hxid.trans hr.same.id.symm)
          have hnone : s₁.fillQuantity x = 0 := by
            rw [Ledger.fillQuantity, Ledger.fillsForOrder, List.filter_eq_nil_iff.2]
            · rfl
            · intro g hg heq
              exact (hsim g hg).2 ((of_decide_eq_true heq).trans hxid)
          refine .inr ⟨PaperExecutor.record feeRate o rules price nowMs, ?_, hstatus, rfl,
            hexecuted.symm, hxid ▸ hx, ?_⟩
          · rw [hr.same.clientOrderId, Function.update_self]
          · rw [hfillQuantity, hnone, if_pos hxid, zero_add, hquantity, hexecuted]
        · rcases hothers x hx' hxid with h | ⟨r, hbook, hs, hrs, he, hxx, hsum⟩
          · exact .inl h
          · refine .inr ⟨r, ?_, hs, hrs, he, hxx, ?_⟩
            · rw [Function.update_of_ne]
              · exact hbook
              · intro hc
                rw [hc, hu.unknown] at hbook
                cases hbook
            · rw [hfillQuantity, if_neg hxid, add_zero, hsum]
      known := fun c hc => by
        rw [Ledger.getOrder_congr horders, hget]
        by_cases hco : c = o.clientOrderId
        · rw [hco, Ledger.getOrder_of_mem hu.mem]
          rfl
        · rw [Function.update_of_ne hco] at hc
          exact hu.known c hc
      fills := hfills
      position := by
        obtain ⟨now', hpositions⟩ := hf.positions
        have hkey := applyFillToPosition_key (s₁.getPosition cfg.bot f.symbol) f
        have hpkey := Ledger.getPosition_key s₁ cfg.bot f.symbol
        rw [Ledger.getPosition_upsert_self hpositions (hkey.1.trans hpkey.1)
          (hkey.2.trans (hpkey.2.trans hsymbol))]
        have hcore : (applyFillToPosition (s₁.getPosition cfg.bot f.symbol) f).position.quantity =
            ((s₁.getPosition cfg.bot f.symbol).core.apply f).quantity :=
          congrArg Core.quantity (core_applyFill _ _)
        show Lots (applyFillToPosition (s₁.getPosition cfg.bot f.symbol) f).position.quantity
        rw [hcore]
        refine lots_apply ?_ hnew ?_
        · exact fun h => hbuys (.inr (.inr (.inr (.inr (.inr (.inr (.inr h)))))))
        · rw [hsymbol, hposition₁]
          exact hu.position
      cash := by
        have hrow' : f = { fillOf o' (PaperExecutor.fill
            (PaperExecutor.record feeRate o rules price nowMs)) now with id := f.id } :=
          hrow.trans (by rw [hrow])
        have hflow := cashFlow_record hrow' (by rw [hrules, hr.same.symbol, hu.symbol]; rfl)
        rw [hcash, hflow, hr.same.side]
        exact hpays
      idle := fun h => absurd h hbuys }

end InTransit

end

end CryptoBot
