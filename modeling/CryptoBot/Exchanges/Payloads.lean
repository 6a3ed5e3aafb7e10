import CryptoBot.Application.OrderService
import CryptoBot.Exchanges.Normalizer

/-!
# Raw Binance payloads

The parsers of `engine/exchanges/binance/normalizer.py` as they read the raw payloads: the response
to an order, the rows of `myTrades` and the events of the user-data stream. Each has its own field
names and defaults; all three describe executions.
-/

namespace CryptoBot

open Lib

/-! ## Values -/

/-- A value of a payload, as far as it is read: `None` or absent, an integer, or a text. -/
inductive Scalar
  | null
  | number (n : Int)
  | text (s : String)
deriving DecidableEq

/-- The number that digits write. -/
def digitsOf (ds : List Char) : Option Nat :=
  if ds ≠ [] ∧ ds.all Char.isDigit then some (Nat.ofDigitChars 10 ds 0) else none

/-- A sign and what follows it. -/
def signOf : List Char → Bool × List Char
  | '-' :: cs => (true, cs)
  | '+' :: cs => (false, cs)
  | cs => (false, cs)

/-- An integer with an optional sign. -/
def signedOf (cs : List Char) : Option Int :=
  (digitsOf (signOf cs).2).map fun n => if (signOf cs).1 then -(n : Int) else n

/-- `str.strip`. -/
def stripped (s : String) : List Char :=
  ((s.toList.dropWhile Char.isWhitespace).reverse.dropWhile Char.isWhitespace).reverse

/-- `int` of a text of digits. -/
def intOfText (s : String) : Option Int := signedOf (stripped s)

/-- `Decimal` of a text that is a finite number: digits with or without a point, and an exponent.
Underscores are dropped wherever they stand. -/
def decimalOfText (s : String) : Option ℚ :=
  let cs := (stripped s).filter (· ≠ '_')
  let isExponent (c : Char) : Bool := c = 'e' || c = 'E'
  let mantissa := (signOf cs).2.takeWhile (!isExponent ·)
  let whole := mantissa.takeWhile (· ≠ '.')
  let fraction := (mantissa.dropWhile (· ≠ '.')).drop 1
  let exponent := match cs.dropWhile (!isExponent ·) with
    | [] => some 0
    | _ :: rest => signedOf rest
  (digitsOf (whole ++ fraction)).bind fun n => exponent.map fun e =>
    let value := (n : ℚ) * 10 ^ (e - (fraction.length : Int))
    if (signOf cs).1 then -value else value

namespace Scalar

/-- `str`. -/
def str : Scalar → String
  | null => "None"
  | number n => toString n
  | text s => s

/-- The truth value. -/
def truthy : Scalar → Bool
  | null => false
  | number n => decide (n ≠ 0)
  | text s => decide (s ≠ "")

/-- `value or other`. -/
def or (value other : Scalar) : Scalar := if value.truthy then value else other

/-- `int`; `none` where it raises. -/
def int : Scalar → Option Int
  | null => none
  | number n => some n
  | text s => intOfText s

/-- `_d`; `none` where `Decimal` raises. -/
def decimal : Scalar → Option ℚ
  | null => some 0
  | number n => some n
  | text s => if s = "" then some 0 else decimalOfText s

end Scalar

/-- The side a text names. -/
def OrderSide.ofText (text : String) : OrderSide :=
  if text = "BUY" then .buy else if text = "SELL" then .sell else .other text

/-- The order type a text names. -/
def OrderType.ofText (text : String) : OrderType :=
  if text = "MARKET" then .market else if text = "LIMIT" then .limit
  else if text = "STOP_LOSS_LIMIT" then .stopLossLimit else .other text

/-! ## Payloads -/

/-- An entry of `fills` in the response to an order. -/
structure RawFill where
  tradeId : Scalar
  qty : Scalar
  price : Scalar
  commission : Scalar
  commissionAsset : Option String
deriving DecidableEq

/-- The response to an order, as far as its fills are read. -/
structure RawOrderResponse where
  symbol : ExchangeSymbol
  orderId : Scalar
  clientOrderId : Option String
  side : String
  transactTime : Scalar
  fills : List RawFill
deriving DecidableEq

/-- A row of `myTrades`. -/
structure RawTrade where
  id : Scalar
  orderId : Scalar
  symbol : ExchangeSymbol
  qty : Scalar
  price : Scalar
  quoteQty : Scalar
  commission : Scalar
  commissionAsset : Option String
  time : Scalar
  isBuyer : Bool
deriving DecidableEq

/-- An `executionReport` of the user-data stream, under the field names of the exchange. -/
structure ExecutionReport where
  E : Scalar
  s : ExchangeSymbol
  c : String
  C : Option String
  S : String
  o : String
  q : Scalar
  x : String
  X : String
  r : Option String
  i : Scalar
  z : Scalar
  Z : Scalar
  T : Scalar
  I : Option Scalar
  t : Option Scalar
  l : Scalar
  L : Scalar
  n : Scalar
  N : Option String
  Y : Scalar
deriving DecidableEq

/-- An event of the user-data stream. -/
inductive RawEvent
  | executionReport (event : ExecutionReport)
  | outboundAccountPosition (balances : List (String × Scalar × Scalar))
  | eventStreamTerminated
  | other
deriving DecidableEq

namespace Normalizer

variable (account : String) (symbols : SymbolMap)

/-- `map_status`; `none` for `UnknownExchangeStatus`. -/
def mapStatus (raw : String) : Option OrderStatus :=
  [("NEW", .new), ("PENDING_NEW", .new), ("PARTIALLY_FILLED", .partiallyFilled),
    ("FILLED", .filled), ("CANCELED", .canceled), ("PENDING_CANCEL", .new), ("REJECTED", .rejected),
    ("EXPIRED", .expired), ("EXPIRED_IN_MATCH", .expired)].lookup raw

/-- `order_event_key`. -/
def orderEventKey (exchangeSymbol orderId executionId execType : String) : String :=
  s!"binance:{account}:{exchangeSymbol}:{orderId}:{executionId}:{execType}"

/-- One turn of the loop of `rest_response_fills`. -/
def responseFill (raw : RawOrderResponse) (f : RawFill) : Option ExchangeFill := do
  let qty ← f.qty.decimal
  let price ← f.price.decimal
  let commission ← f.commission.decimal
  let time ← (raw.transactTime.or (.number 0)).int
  return {
    exchangeTradeId := f.tradeId.str
    exchangeOrderId := some raw.orderId.str
    clientOrderId := raw.clientOrderId
    symbol := symbols.internal raw.symbol
    side := .ofText raw.side
    quantity := qty
    price := price
    quoteQuantity := qty * price
    commission := commission
    commissionAsset := f.commissionAsset
    executionTimeMs := time
    eventKey := fillEventKey account raw.symbol.text raw.orderId.str f.tradeId.str }

/-- `rest_response_fills`. -/
def restResponseFills (raw : RawOrderResponse) : Option (List ExchangeFill) :=
  raw.fills.mapM (responseFill account symbols raw)

/-- `rest_trade_fill` on a raw row. -/
def rawTradeFill (raw : RawTrade) (clientOrderId : Option String) : Option ExchangeFill := do
  let qty ← raw.qty.decimal
  let price ← raw.price.decimal
  let quoteQty ← raw.quoteQty.decimal
  let commission ← raw.commission.decimal
  let time ← raw.time.int
  return {
    exchangeTradeId := raw.id.str
    exchangeOrderId := some raw.orderId.str
    clientOrderId := clientOrderId
    symbol := symbols.internal raw.symbol
    side := if raw.isBuyer then .buy else .sell
    quantity := qty
    price := price
    quoteQuantity := quoteQty
    commission := commission
    commissionAsset := raw.commissionAsset
    executionTimeMs := time
    eventKey := fillEventKey account raw.symbol.text raw.orderId.str raw.id.str }

/-- The client order id of an event: on a cancellation `C` holds that of the order. -/
def clientId (event : ExecutionReport) : String :=
  if truthy event.C then event.C.getD "" else event.c

/-- `report` of an `executionReport`. -/
def streamReport (event : ExecutionReport) : Option ExchangeOrderReport := do
  let status ← mapStatus event.X
  let origQty ← event.q.decimal
  let executedQty ← event.z.decimal
  let cumQuoteQty ← event.Z.decimal
  return {
    clientOrderId := clientId event
    exchangeOrderId := some event.i.str
    symbol := symbols.internal event.s
    side := .ofText event.S
    orderType := .ofText event.o
    status := status
    origQty := origQty
    executedQty := executedQty
    cumQuoteQty := cumQuoteQty
    updateTimeMs := (event.T.or event.E).int
    rejectReason := event.r.filter (· ≠ "NONE") }

/-- The quote quantity of an `executionReport`, computed where the exchange does not give it. -/
def quoteOf (event : ExecutionReport) (qty price : ℚ) : Option ℚ :=
  if event.Y = .null then some (qty * price) else event.Y.decimal

/-- `fill` of an `executionReport`: the execution of a `TRADE` with a trade id. -/
def streamFill (event : ExecutionReport) : Option (Option ExchangeFill) :=
  if event.x = "TRADE" then do
    let tradeId ← (event.t.getD (.number (-1))).int
    if 0 ≤ tradeId then
      let qty ← event.l.decimal
      let price ← event.L.decimal
      let quoteQty ← quoteOf event qty price
      let commission ← event.n.decimal
      let time ← (event.T.or event.E).int
      return some {
        exchangeTradeId := (event.t.getD .null).str
        exchangeOrderId := some event.i.str
        clientOrderId := some (clientId event)
        symbol := symbols.internal event.s
        side := .ofText event.S
        quantity := qty
        price := price
        quoteQuantity := quoteQty
        commission := commission
        commissionAsset := event.N
        executionTimeMs := time
        eventKey := fillEventKey account event.s.text event.i.str (event.t.getD .null).str }
    else return none
  else some none

/-- `stream_event`. -/
def streamEvent : RawEvent → Option StreamEvent
  | .executionReport event => do
    let report ← streamReport symbols event
    let fill ← streamFill account symbols event
    return .order (orderEventKey account event.s.text event.i.str (event.I.getD event.E).str event.x)
      report fill
  | .outboundAccountPosition balances => do
    let balances ← balances.mapM fun (asset, free, locked) => do
      return (asset, ⟨← free.decimal, ← locked.decimal⟩)
    return .balance ⟨balances⟩
  | .eventStreamTerminated => some .terminated
  | .other => some .ignored

end Normalizer

/-! ## One execution in three encodings -/

/-- An execution as the account has it. -/
structure Deal where
  symbol : ExchangeSymbol
  orderId : Nat
  tradeId : Nat
  isBuyer : Bool
  quantity : ℚ
  price : ℚ
  commission : ℚ
  commissionAsset : Option String
deriving DecidableEq

/-- The text of the side. -/
def Deal.side (x : Deal) : String := if x.isBuyer then "BUY" else "SELL"

/-- An id given as a number or as a text. -/
def Scalar.Names (v : Scalar) (id : Nat) : Prop := v = .number id ∨ v = .text (toString id)

/-- The entry of a response that is about the execution. -/
structure RawFill.Tells (raw : RawOrderResponse) (f : RawFill) (x : Deal) : Prop where
  symbol : raw.symbol = x.symbol
  orderId : raw.orderId.Names x.orderId
  tradeId : f.tradeId.Names x.tradeId
  side : raw.side = x.side
  quantity : f.qty.decimal = some x.quantity
  price : f.price.decimal = some x.price
  commission : f.commission.decimal = some x.commission
  commissionAsset : f.commissionAsset = x.commissionAsset

/-- The row of `myTrades` that is about the execution. -/
structure RawTrade.Tells (raw : RawTrade) (x : Deal) : Prop where
  symbol : raw.symbol = x.symbol
  orderId : raw.orderId.Names x.orderId
  tradeId : raw.id.Names x.tradeId
  side : raw.isBuyer = x.isBuyer
  quantity : raw.qty.decimal = some x.quantity
  price : raw.price.decimal = some x.price
  commission : raw.commission.decimal = some x.commission
  commissionAsset : raw.commissionAsset = x.commissionAsset

/-- The event of the user-data stream that is about the execution. -/
structure ExecutionReport.Tells (event : ExecutionReport) (x : Deal) : Prop where
  execType : event.x = "TRADE"
  symbol : event.s = x.symbol
  orderId : event.i.Names x.orderId
  tradeId : ∃ t, event.t = some t ∧ t.Names x.tradeId
  side : event.S = x.side
  quantity : event.l.decimal = some x.quantity
  price : event.L.decimal = some x.price
  commission : event.n.decimal = some x.commission
  commissionAsset : event.N = x.commissionAsset

/-- What every parser makes of an execution. -/
structure Deal.Booked (account : String) (symbols : SymbolMap) (x : Deal) (f : ExchangeFill) :
    Prop where
  eventKey : f.eventKey = Normalizer.fillEventKey account x.symbol.text (toString x.orderId)
    (toString x.tradeId)
  tradeId : f.exchangeTradeId = toString x.tradeId
  orderId : f.exchangeOrderId = some (toString x.orderId)
  symbol : f.symbol = symbols.internal x.symbol
  side : f.side = if x.isBuyer then .buy else .sell
  quantity : f.quantity = x.quantity
  price : f.price = x.price
  commission : f.commission = x.commission
  commissionAsset : f.commissionAsset = x.commissionAsset

section
variable {v : Scalar} {id : Nat} {account : String} {symbols : SymbolMap} {x : Deal}

theorem Scalar.Names.str (h : v.Names id) : v.str = toString id := by
  rcases h with rfl | rfl <;> rfl

theorem repr_digits (id : Nat) : ∀ c ∈ (toString id).toList, c.isDigit := by
  intro c hc
  rw [show (toString id).toList = Nat.toDigits 10 id from Nat.toList_repr] at hc
  exact Nat.isDigit_of_mem_toDigits (by decide) (by decide) hc

theorem digitsOf_repr (id : Nat) : digitsOf (toString id).toList = some id := by
  have hdigits : (toString id).toList = Nat.toDigits 10 id := Nat.toList_repr
  have hall : (toString id).toList.all Char.isDigit := List.all_eq_true.2 (repr_digits id)
  rw [hdigits] at hall ⊢
  rw [digitsOf, if_pos ⟨Nat.toDigits_ne_nil, hall⟩, Nat.ofDigitChars_ten_toDigits]

/-- A digit is neither white space nor a sign. -/
theorem digit_ne {c : Char} (h : c.isDigit) : c.isWhitespace = false ∧ c ≠ '-' ∧ c ≠ '+' := by
  refine ⟨Bool.eq_false_iff.2 fun hspace => ?_, ?_, ?_⟩
  · simp only [Char.isWhitespace, Bool.or_eq_true, decide_eq_true_iff] at hspace
    rcases hspace with ((rfl | rfl) | rfl) | rfl <;> cases h
  · rintro rfl
    cases h
  · rintro rfl
    cases h

theorem dropWhile_digits {ds : List Char} (h : ∀ c ∈ ds, c.isDigit) :
    ds.dropWhile Char.isWhitespace = ds := by
  cases ds with
  | nil => rfl
  | cons c ds => rw [List.dropWhile_cons_of_neg (by simp [(digit_ne (h c (.head _))).1])]

theorem intOfText_repr (id : Nat) : intOfText (toString id) = some (id : Int) := by
  have hdigits := repr_digits id
  have hstripped : stripped (toString id) = (toString id).toList := by
    rw [stripped, dropWhile_digits hdigits, dropWhile_digits, List.reverse_reverse]
    exact fun c hc => hdigits c (List.mem_reverse.1 hc)
  have hsign : signOf (toString id).toList = (false, (toString id).toList) := by
    unfold signOf
    split
    · next hcs => exact absurd rfl (digit_ne (hdigits _ (hcs ▸ .head _))).2.1
    · next hcs => exact absurd rfl (digit_ne (hdigits _ (hcs ▸ .head _))).2.2
    · rfl
  rw [intOfText, hstripped, signedOf, hsign, digitsOf_repr]
  rfl

theorem Scalar.Names.int (h : v.Names id) : v.int = some (id : Int) := by
  rcases h with rfl | rfl
  · rfl
  · exact intOfText_repr id

theorem ofText_side (x : Deal) : OrderSide.ofText x.side = if x.isBuyer then .buy else .sell := by
  unfold Deal.side
  cases x.isBuyer <;> rfl

/-! ## What the parsers make of it -/

namespace Normalizer

theorem responseFill_booked {raw : RawOrderResponse} {f : RawFill} {fill : ExchangeFill}
    (hf : f.Tells raw x) (hfill : responseFill account symbols raw f = some fill) :
    x.Booked account symbols fill := by
  rw [responseFill, hf.quantity, hf.price, hf.commission] at hfill
  cases htime : (raw.transactTime.or (.number 0)).int with
  | none =>
    rw [htime] at hfill
    cases hfill
  | some time =>
    rw [htime] at hfill
    obtain rfl := Option.some.inj hfill
    exact
      { eventKey := by rw [hf.orderId.str, hf.tradeId.str, hf.symbol]
        tradeId := hf.tradeId.str
        orderId := congrArg some hf.orderId.str
        symbol := by rw [hf.symbol]
        side := by rw [hf.side, ofText_side]
        quantity := rfl
        price := rfl
        commission := rfl
        commissionAsset := hf.commissionAsset }

theorem rawTradeFill_booked {raw : RawTrade} {clientOrderId : Option String} {fill : ExchangeFill}
    (hraw : raw.Tells x) (hfill : rawTradeFill account symbols raw clientOrderId = some fill) :
    x.Booked account symbols fill := by
  rw [rawTradeFill, hraw.quantity, hraw.price, hraw.commission] at hfill
  cases hquote : raw.quoteQty.decimal with
  | none =>
    rw [hquote] at hfill
    cases hfill
  | some quoteQty =>
    rw [hquote] at hfill
    cases htime : raw.time.int with
    | none =>
      rw [htime] at hfill
      cases hfill
    | some time =>
      rw [htime] at hfill
      obtain rfl := Option.some.inj hfill
      exact
        { eventKey := by rw [hraw.orderId.str, hraw.tradeId.str, hraw.symbol]
          tradeId := hraw.tradeId.str
          orderId := congrArg some hraw.orderId.str
          symbol := by rw [hraw.symbol]
          side := by rw [hraw.side]
          quantity := rfl
          price := rfl
          commission := rfl
          commissionAsset := hraw.commissionAsset }

/-- The event of an execution is not dropped. -/
theorem streamFill_booked {event : ExecutionReport} {fill : Option ExchangeFill}
    (hevent : event.Tells x) (hfill : streamFill account symbols event = some fill) :
    ∃ f, fill = some f ∧ x.Booked account symbols f := by
  obtain ⟨t, ht, hnames⟩ := hevent.tradeId
  rw [streamFill, if_pos hevent.execType, ht, Option.getD_some, Option.getD_some, hnames.int,
    hevent.quantity, hevent.price, hevent.commission] at hfill
  have hid : (0 : Int) ≤ x.tradeId := Int.natCast_nonneg _
  simp only [Option.bind_eq_bind, Option.bind_some, if_pos hid, Option.bind_eq_some_iff] at hfill
  obtain ⟨quoteQty, -, time, -, hfill⟩ := hfill
  refine ⟨_, (Option.some.inj hfill).symm, ?_⟩
  exact
    { eventKey := by rw [hevent.orderId.str, hnames.str, hevent.symbol]
      tradeId := hnames.str
      orderId := congrArg some hevent.orderId.str
      symbol := by rw [hevent.symbol]
      side := by rw [hevent.side, ofText_side]
      quantity := rfl
      price := rfl
      commission := rfl
      commissionAsset := hevent.commissionAsset }

theorem streamEvent_booked {event : ExecutionReport} {ev : StreamEvent} (hevent : event.Tells x)
    (hev : streamEvent account symbols (.executionReport event) = some ev) :
    ∃ key report f, ev = .order key report (some f) ∧ x.Booked account symbols f := by
  obtain ⟨report, -, hev⟩ := Option.bind_eq_some_iff.1 hev
  obtain ⟨fill, hfill, hev⟩ := Option.bind_eq_some_iff.1 hev
  obtain ⟨f, rfl, hf⟩ := streamFill_booked hevent hfill
  exact ⟨_, report, f, (Option.some.inj hev).symm, hf⟩

theorem mem_restResponseFills {raw : RawOrderResponse} {fills : List ExchangeFill} {f : RawFill}
    (hfills : restResponseFills account symbols raw = some fills) (hf : f ∈ raw.fills) :
    ∃ fill ∈ fills, responseFill account symbols raw f = some fill := by
  unfold restResponseFills at hfills
  generalize raw.fills = rows at hfills hf
  induction rows generalizing fills with
  | nil => cases hf
  | cons row rows ih =>
    rw [List.mapM_cons] at hfills
    obtain ⟨fill, hfill, hfills⟩ := Option.bind_eq_some_iff.1 hfills
    obtain ⟨rest, hrest, hfills⟩ := Option.bind_eq_some_iff.1 hfills
    obtain rfl := Option.some.inj hfills
    rcases List.mem_cons.1 hf with rfl | hf
    · exact ⟨fill, .head _, hfill⟩
    · obtain ⟨fill', hmem, hfill'⟩ := ih hrest hf
      exact ⟨fill', .tail _ hmem, hfill'⟩

/-! ### When they return -/

theorem responseFill_isSome {raw : RawOrderResponse} {f : RawFill} (hf : f.Tells raw x) :
    (responseFill account symbols raw f).isSome ↔
      (raw.transactTime.or (.number 0)).int.isSome := by
  rw [responseFill, hf.quantity, hf.price, hf.commission]
  cases (raw.transactTime.or (.number 0)).int <;> exact Iff.rfl

/-- A response is parsed when all of its fills are. -/
theorem restResponseFills_isSome {raw : RawOrderResponse} :
    (restResponseFills account symbols raw).isSome ↔
      ∀ f ∈ raw.fills, (responseFill account symbols raw f).isSome := by
  unfold restResponseFills
  generalize raw.fills = rows
  induction rows with
  | nil => simp
  | cons row rows ih =>
    rw [List.mapM_cons, List.forall_mem_cons, ← ih]
    cases responseFill account symbols raw row <;>
      cases rows.mapM (responseFill account symbols raw) <;> simp

theorem rawTradeFill_isSome {raw : RawTrade} {clientOrderId : Option String} (hraw : raw.Tells x) :
    (rawTradeFill account symbols raw clientOrderId).isSome ↔
      raw.quoteQty.decimal.isSome ∧ raw.time.int.isSome := by
  rw [rawTradeFill, hraw.quantity, hraw.price, hraw.commission]
  cases raw.quoteQty.decimal <;> cases raw.time.int <;> simp

theorem streamEvent_isSome {event : ExecutionReport} (hevent : event.Tells x) :
    (streamEvent account symbols (.executionReport event)).isSome ↔
      (streamReport symbols event).isSome ∧ (quoteOf event x.quantity x.price).isSome ∧
        (event.T.or event.E).int.isSome := by
  obtain ⟨t, ht, hnames⟩ := hevent.tradeId
  have hid : (0 : Int) ≤ x.tradeId := Int.natCast_nonneg _
  have hfill : (streamFill account symbols event).isSome ↔
      (quoteOf event x.quantity x.price).isSome ∧ (event.T.or event.E).int.isSome := by
    rw [streamFill, if_pos hevent.execType, ht, Option.getD_some, hnames.int, hevent.quantity,
      hevent.price, hevent.commission]
    simp only [Option.bind_eq_bind, Option.bind_some, if_pos hid]
    cases quoteOf event x.quantity x.price <;> cases (event.T.or event.E).int <;> simp
  rw [← hfill, streamEvent]
  cases streamReport symbols event <;> cases streamFill account symbols event <;> simp

/-- The key of an execution determines its account, symbol, order and trade. -/
theorem fillEventKey_determines {account' : String} {symbol symbol' : ExchangeSymbol}
    {o o' t t' : String} (ho : Free ':' o) (ho' : Free ':' o') (ht : Free ':' t) (ht' : Free ':' t')
    (hkey : fillEventKey account symbol.text o t = fillEventKey account' symbol'.text o' t') :
    account = account' ∧ symbol = symbol' ∧ o = o' ∧ t = t' := by
  obtain ⟨haccount, hsymbol, horder, htrade⟩ :=
    (fillEventKey_inj symbol.free symbol'.free ho ho' ht ht').1 hkey
  exact ⟨haccount, ExchangeSymbol.ext hsymbol, horder, htrade⟩

/-- Two fills are the same execution to everything that reads them. -/
structure SameExecution (f g : ExchangeFill) : Prop where
  eventKey : f.eventKey = g.eventKey
  tradeId : f.exchangeTradeId = g.exchangeTradeId
  orderId : f.exchangeOrderId = g.exchangeOrderId
  symbol : f.symbol = g.symbol
  side : f.side = g.side
  quantity : f.quantity = g.quantity
  price : f.price = g.price
  commission : f.commission = g.commission
  commissionAsset : f.commissionAsset = g.commissionAsset

theorem SameExecution.of_booked {f g : ExchangeFill} (hf : x.Booked account symbols f)
    (hg : x.Booked account symbols g) : SameExecution f g where
  eventKey := hf.eventKey.trans hg.eventKey.symm
  tradeId := hf.tradeId.trans hg.tradeId.symm
  orderId := hf.orderId.trans hg.orderId.symm
  symbol := hf.symbol.trans hg.symbol.symm
  side := hf.side.trans hg.side.symm
  quantity := hf.quantity.trans hg.quantity.symm
  price := hf.price.trans hg.price.symm
  commission := hf.commission.trans hg.commission.symm
  commissionAsset := hf.commissionAsset.trans hg.commissionAsset.symm

/-- The three encodings of an execution come to the same fill, and its key determines account,
symbol, order and trade. -/
theorem encodings_agree {raw : RawOrderResponse} {f : RawFill} (hf : f ∈ raw.fills)
    (hresponse : f.Tells raw x) {row : RawTrade} (hrow : row.Tells x) {event : ExecutionReport}
    (hevent : event.Tells x) {clientOrderId : Option String} {fills : List ExchangeFill}
    (hfills : restResponseFills account symbols raw = some fills) {trade : ExchangeFill}
    (htrade : rawTradeFill account symbols row clientOrderId = some trade) {ev : StreamEvent}
    (hev : streamEvent account symbols (.executionReport event) = some ev) :
    (∃ response ∈ fills, ∃ key report stream, ev = .order key report (some stream) ∧
      SameExecution response trade ∧ SameExecution trade stream) ∧
    ∀ (account' : String) (symbol symbol' : ExchangeSymbol) (o o' t t' : String),
      Free ':' o → Free ':' o' → Free ':' t → Free ':' t' →
      fillEventKey account symbol.text o t = fillEventKey account' symbol'.text o' t' →
      account = account' ∧ symbol = symbol' ∧ o = o' ∧ t = t' := by
  refine ⟨?_, ?_⟩
  · obtain ⟨response, hmem, hfill⟩ := mem_restResponseFills hfills hf
    obtain ⟨key, report, stream, rfl, hstream⟩ := streamEvent_booked hevent hev
    have hbooked := rawTradeFill_booked hrow htrade
    exact ⟨response, hmem, key, report, stream, rfl,
      .of_booked (responseFill_booked hresponse hfill) hbooked, .of_booked hbooked hstream⟩
  · exact fun account' symbol symbol' o o' t t' => fillEventKey_determines

end Normalizer

/-- The raw row of a trade. -/
structure RawTrade.Writes (raw : RawTrade) (t : Trade) : Prop where
  id : raw.id.Names t.id
  orderId : raw.orderId.Names t.orderId
  symbol : raw.symbol = t.symbol
  qty : raw.qty.decimal = some t.qty
  price : raw.price.decimal = some t.price
  quoteQty : raw.quoteQty.decimal = some t.quoteQty
  commission : raw.commission.decimal = some t.commission
  commissionAsset : raw.commissionAsset = t.commissionAsset
  time : raw.time.int = some t.time
  isBuyer : raw.isBuyer = t.isBuyer

/-- On the row of a trade the parser is that of the typed rows. -/
theorem Normalizer.rawTradeFill_eq {raw : RawTrade} {t : Trade} (h : raw.Writes t)
    (clientOrderId : Option String) :
    rawTradeFill account symbols raw clientOrderId =
      some (restTradeFill t account symbols clientOrderId) := by
  rw [rawTradeFill, h.qty, h.price, h.quoteQty, h.commission, h.time, h.id.str, h.orderId.str,
    h.symbol, h.commissionAsset, h.isBuyer]
  rfl

end

/-! ## A sample execution -/

open Normalizer

/-- A purchase of 0.4 at 100, with a commission in the base asset. -/
def sampleDeal : Deal where
  symbol := ⟨"BTCUSDT", btcusdt_free⟩
  orderId := 42
  tradeId := 77
  isBuyer := true
  quantity := 2 / 5
  price := 100
  commission := 1 / 2500
  commissionAsset := some "BTC"

def sampleRawFill : RawFill where
  tradeId := .number 77
  qty := .text "0.40000000"
  price := .text "100.00"
  commission := .text "0.0004"
  commissionAsset := some "BTC"

def sampleResponse : RawOrderResponse where
  symbol := ⟨"BTCUSDT", btcusdt_free⟩
  orderId := .number 42
  clientOrderId := some "cb1-abc"
  side := "BUY"
  transactTime := .number 2
  fills := [sampleRawFill]

/-- The ids of the row are texts. -/
def sampleRawTrade : RawTrade where
  id := .text "77"
  orderId := .text "42"
  symbol := ⟨"BTCUSDT", btcusdt_free⟩
  qty := .text "0.4"
  price := .text "100"
  quoteQty := .text "40"
  commission := .text "0.0004"
  commissionAsset := some "BTC"
  time := .number 2
  isBuyer := true

def sampleExecutionReport : ExecutionReport where
  E := .number 1
  s := ⟨"BTCUSDT", btcusdt_free⟩
  c := "cb1-abc"
  C := some ""
  S := "BUY"
  o := "MARKET"
  q := .text "1"
  x := "TRADE"
  X := "PARTIALLY_FILLED"
  r := some "NONE"
  i := .number 42
  z := .text "0.4"
  Z := .text "40"
  T := .number 2
  I := some (.number 9)
  t := some (.number 77)
  l := .text "4e-1"
  L := .text "100"
  n := .text "0.0004"
  N := some "BTC"
  Y := .text "40"

theorem encodings_agree_sample :
    ∃ response trade stream : ExchangeFill, SameExecution response trade ∧
      SameExecution trade stream ∧ trade.eventKey = "binance:main:BTCUSDT:42:77:TRADE" := by
  have hresponse : sampleRawFill.Tells sampleResponse sampleDeal :=
    ⟨rfl, .inl rfl, .inl rfl, rfl, by decide +kernel, by decide +kernel, by decide +kernel, rfl⟩
  have hrow : sampleRawTrade.Tells sampleDeal :=
    ⟨rfl, .inr (by decide), .inr (by decide), rfl, by decide +kernel, by decide +kernel,
      by decide +kernel, rfl⟩
  have hevent : sampleExecutionReport.Tells sampleDeal :=
    ⟨rfl, rfl, .inl rfl, ⟨_, rfl, .inl rfl⟩, rfl, by decide +kernel, by decide +kernel,
      by decide +kernel, rfl⟩
  have hfills : (restResponseFills "main" ⟨fun _ => ⟨"BTC", "USDT"⟩⟩ sampleResponse).isSome := by
    refine restResponseFills_isSome.2 fun f hf => ?_
    obtain rfl := List.mem_singleton.1 hf
    exact (responseFill_isSome hresponse).2 (by decide)
  have htrade : (rawTradeFill "main" ⟨fun _ => ⟨"BTC", "USDT"⟩⟩ sampleRawTrade none).isSome :=
    (rawTradeFill_isSome hrow).2 ⟨by decide +kernel, by decide⟩
  have hev : (streamEvent "main" ⟨fun _ => ⟨"BTC", "USDT"⟩⟩
      (.executionReport sampleExecutionReport)).isSome :=
    (streamEvent_isSome hevent).2 ⟨by decide +kernel, by decide +kernel, by decide⟩
  obtain ⟨fills, hfills⟩ := Option.isSome_iff_exists.1 hfills
  obtain ⟨trade, htrade⟩ := Option.isSome_iff_exists.1 htrade
  obtain ⟨ev, hev⟩ := Option.isSome_iff_exists.1 hev
  have hkey : (rawTradeFill "main" ⟨fun _ => ⟨"BTC", "USDT"⟩⟩ sampleRawTrade none).map
      (·.eventKey) = some "binance:main:BTCUSDT:42:77:TRADE" := by decide +kernel
  rw [htrade] at hkey
  obtain ⟨⟨response, -, -, -, stream, -, hsame, hsame'⟩, -⟩ :=
    encodings_agree (.head _) hresponse hrow hevent hfills htrade hev
  exact ⟨response, trade, stream, hsame, hsame', Option.some.inj hkey⟩

end CryptoBot
