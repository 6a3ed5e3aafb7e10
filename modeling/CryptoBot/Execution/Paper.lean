import CryptoBot.Domain.Models

/-!
# The PAPER executor

`engine/execution/paper.py`, a simulated exchange whose book is kept in the ledger's key-value
table. A market order is filled at once and in full at its reference price; the trade and the order are
named after the order's row.
-/

namespace CryptoBot

/-- The `trade` of a record. -/
structure PaperTrade where
  id : String
  qty : ℚ
  price : ℚ
  quote : ℚ
  commission : ℚ
  commissionAsset : String
deriving DecidableEq

/-- A record of the simulated book. -/
structure PaperRecord where
  clientOrderId : String
  exchangeOrderId : String
  symbol : Symbol
  side : OrderSide
  type : OrderType
  status : OrderStatus
  origQty : ℚ
  executedQty : ℚ
  cumQuote : ℚ
  time : Int
  trade : PaperTrade
deriving DecidableEq

/-- The rows `paper_order:{client_order_id}`. -/
abbrev PaperBook := String → Option PaperRecord

namespace PaperExecutor

/-- `symbol_rules`. -/
def symbolRules (symbol : Symbol) : SymbolRules where
  symbol := symbol
  baseAsset := symbol.base
  quoteAsset := symbol.quote

variable (feeRate : ℚ)

/-- The record of an order that is filled at a price. -/
def record (order : Order) (rules : SymbolRules) (price : ℚ) (nowMs : Int) : PaperRecord :=
  let qty := rules.roundQty order.requestedQuantity
  let quote := qty * price
  { clientOrderId := order.clientOrderId, exchangeOrderId := s!"P{order.id}"
    symbol := order.symbol, side := order.side, type := order.orderType, status := .filled
    origQty := qty, executedQty := qty, cumQuote := quote, time := nowMs
    trade :=
      { id := s!"PT{order.id}", qty, price, quote, commission := quote * feeRate
        commissionAsset := rules.quoteAsset } }

/-- `_report`. -/
def report (r : PaperRecord) : ExchangeOrderReport where
  clientOrderId := r.clientOrderId
  symbol := r.symbol
  side := r.side
  orderType := r.type
  status := r.status
  origQty := r.origQty
  executedQty := r.executedQty
  cumQuoteQty := r.cumQuote
  exchangeOrderId := some r.exchangeOrderId
  updateTimeMs := some r.time

/-- The one execution of a record. -/
def fill (r : PaperRecord) : ExchangeFill where
  exchangeTradeId := r.trade.id
  exchangeOrderId := some r.exchangeOrderId
  clientOrderId := some r.clientOrderId
  symbol := r.symbol
  side := r.side
  quantity := r.trade.qty
  price := r.trade.price
  quoteQuantity := r.trade.quote
  commission := r.trade.commission
  commissionAsset := some r.trade.commissionAsset
  executionTimeMs := r.time
  eventKey := s!"paper:{r.symbol.text}:{r.exchangeOrderId}:{r.trade.id}:TRADE"

/-- `_fills`. -/
def fills (r : PaperRecord) : List ExchangeFill := [fill r]

def rejected (error : String) (errorCode : Option Int) : SubmitOutcome where
  kind := .rejected
  error := some error
  errorCode := errorCode

/-- `submit`: a known order is refused, and so is one that cannot be filled at once. -/
def submit (order : Order) (rules : SymbolRules) (nowMs : Int) (book : PaperBook) :
    SubmitOutcome × PaperBook :=
  match book order.clientOrderId with
  | some _ => (rejected "Duplicate order sent." (some (-2010)), book)
  | none =>
    if order.orderType ≠ .market then (rejected "PAPER supports MARKET orders only" none, book)
    else
      match order.referencePrice.filter (0 < ·) with
      | none => (rejected "PAPER order needs a reference price" none, book)
      | some price =>
        let r := record feeRate order rules price nowMs
        ({ kind := .acknowledged, report := some (report r), fills := fills r },
          Function.update book order.clientOrderId (some r))

/-- `query_order`. -/
def queryOrder (order : Order) (book : PaperBook) : Option ExchangeOrderReport :=
  (book order.clientOrderId).map report

/-- `query_fills`. -/
def queryFills (order : Order) (book : PaperBook) : List ExchangeFill :=
  (book order.clientOrderId).elim [] fills

/-- `cancel`. -/
def cancel : SubmitOutcome :=
  rejected "PAPER orders fill immediately; nothing to cancel" none

variable {feeRate} {order : Order} {rules : SymbolRules} {nowMs : Int} {book : PaperBook}

/-- An order is refused and the book stays as it is, or the order is new and is filled at its
reference price. -/
theorem submit_cases :
    ((submit feeRate order rules nowMs book).1.kind = .rejected ∧
      (submit feeRate order rules nowMs book).1.fills = [] ∧
      (submit feeRate order rules nowMs book).2 = book) ∨
    ∃ price, order.referencePrice = some price ∧ 0 < price ∧ order.orderType = .market ∧
      book order.clientOrderId = none ∧
      submit feeRate order rules nowMs book =
        ({ kind := .acknowledged, report := some (report (record feeRate order rules price nowMs))
           fills := [fill (record feeRate order rules price nowMs)] },
          Function.update book order.clientOrderId
            (some (record feeRate order rules price nowMs))) := by
  unfold submit
  cases hbook : book order.clientOrderId with
  | some r => exact .inl ⟨rfl, rfl, rfl⟩
  | none =>
    by_cases htype : order.orderType = .market
    · dsimp only
      rw [if_neg (not_not_intro htype)]
      cases hprice : order.referencePrice.filter (0 < ·) with
      | none => exact .inl ⟨rfl, rfl, rfl⟩
      | some price =>
        obtain ⟨href, hpos⟩ := Option.filter_eq_some_iff.1 hprice
        exact .inr ⟨price, href, by simpa using hpos, htype, rfl, rfl⟩
    · dsimp only
      rw [if_pos htype]
      exact .inl ⟨rfl, rfl, rfl⟩

end PaperExecutor
end CryptoBot
