import CryptoBot.Infrastructure.Store

/-!
# Position accounting

`engine/application/position_service.py`, the only code that changes positions: one accounting
routine, `applyFillToPosition`, shared by the incremental path and by the rebuild.

A commission in the base asset reduces the quantity received, one in the quote asset raises the
cost or lowers the proceeds, and any other is tracked in `feesOther`.
-/

namespace CryptoBot

open Lib

structure ApplyResult where
  position : Position
  realizedDelta : ℚ := 0
  anomalies : List Anomaly := []

namespace Fill

/-- What the fill is worth before fees. -/
def gross (f : Fill) : ℚ := if 0 < f.quoteQuantity then f.quoteQuantity else f.quantity * f.price

def baseFee (f : Fill) : ℚ := if f.commissionAsset = some f.symbol.base then f.commission else 0

def quoteFee (f : Fill) : ℚ := if f.commissionAsset = some f.symbol.quote then f.commission else 0

/-- What a BUY adds to the position. -/
def received (f : Fill) : ℚ := f.quantity - f.baseFee

def cost (f : Fill) : ℚ := f.gross + f.quoteFee

/-- What a SELL takes out of the position. -/
def delivered (f : Fill) : ℚ := f.quantity + f.baseFee

def proceeds (f : Fill) : ℚ := f.gross - f.quoteFee

end Fill

namespace Position

/-- Adds a commission to the fees of an asset. -/
def addFee (fees : List (String × ℚ)) (asset : String) (fee : ℚ) : List (String × ℚ) :=
  match fees.lookup asset with
  | some old => fees.map fun e => if e.1 = asset then (asset, old + fee) else e
  | none => fees ++ [(asset, fee)]

/-- The commission of a fill, where it is neither in the base nor in the quote asset. -/
def withOtherFee (p : Position) (f : Fill) : Position :=
  match f.commissionAsset with
  | none => p
  | some asset =>
    if 0 < f.commission ∧ asset ≠ f.symbol.base ∧ asset ≠ f.symbol.quote then
      { p with feesOther := addFee p.feesOther asset f.commission }
    else p

/-- A BUY: the quantity net of the base fee enters at its cost. A position that held nothing opens
at the execution time. -/
def buy (p : Position) (f : Fill) : Position :=
  { p with
    quantity := p.quantity + f.received
    averageEntryPrice :=
      (p.quantity * p.averageEntryPrice + f.cost) / (p.quantity + f.received)
    openedAt := if p.quantity ≤ 0 then some f.executionTime else p.openedAt }

/-- What a SELL realizes; an oversell is priced at the tracked quantity. -/
def realized (p : Position) (f : Fill) : ℚ :=
  f.proceeds - p.averageEntryPrice *
    (if p.quantity + 1 / 1000000000000 < f.delivered then p.quantity else f.delivered)

/-- A SELL: the delivered quantity leaves; a position that then holds exactly nothing is reset. -/
def sell (p : Position) (f : Fill) : Position :=
  let p' := { p with
    realizedPnl := p.realizedPnl + p.realized f
    quantity := max 0 (p.quantity - f.delivered) }
  if p'.quantity = 0 then
    { p' with averageEntryPrice := 0, stopPrice := none, openedAt := none }
  else p'

/-- The unrealized P&L at the last known mark price. -/
def remark (p : Position) : Position :=
  match p.lastMarkPrice with
  | some price => p.mark price
  | none => p

end Position

/-- `apply_fill_to_position`. -/
def applyFillToPosition (p : Position) (f : Fill) : ApplyResult :=
  let p := p.withOtherFee f
  match f.side with
  | .buy =>
    if f.received ≤ 0 then { position := p, anomalies := [.buyFillNonPositiveQuantity] }
    else { position := (p.buy f).remark }
  | .sell =>
    { position := (p.sell f).remark, realizedDelta := p.realized f
      anomalies := if p.quantity + 1 / 1000000000000 < f.delivered then
        [.sellExceedsTrackedPosition] else [] }
  | .other text => { position := p.remark, anomalies := [.unknownSide text] }

namespace PositionService

/-- `apply_fill`, part of the transaction that inserted the fill. -/
def applyFill (bot : String) (f : Fill) (now : Time) : Tx ApplyResult := do
  let s ← get
  let res := applyFillToPosition (s.getPosition bot f.symbol) f
  let p ← Store.savePosition res.position now
  return { res with position := p }

/-- The fold of `rebuild` over the recorded fills. -/
def replay (p : Position) : List Fill → Position × List Anomaly
  | [] => (p, [])
  | f :: fs =>
    let res := applyFillToPosition p f
    let rest := replay res.position fs
    (rest.1, res.anomalies ++ rest.2)

/-- The position `rebuild` computes from the row it read first and the fills it read next. -/
def rebuilt (existing : Position) (bot : String) (symbol : Symbol) (fills : List Fill) :
    Position × List Anomaly :=
  let res := replay { bot, symbol, lastMarkPrice := existing.lastMarkPrice } fills
  (if 0 < res.1.quantity then { res.1 with stopPrice := existing.stopPrice } else res.1, res.2)

/-- `set_stop`. -/
def setStop (bot : String) (symbol : Symbol) (stopPrice : ℚ) (now : Time) : Tx Position := do
  let s ← get
  Store.savePosition { s.getPosition bot symbol with stopPrice := some stopPrice } now

/-- `mark`. -/
def mark (bot : String) (symbol : Symbol) (price : ℚ) (now : Time) : Tx Position := do
  let s ← get
  Store.savePosition ((s.getPosition bot symbol).mark price) now

/-- `open_position_count`: rules are known for the traded symbol only. -/
def openPositionCount (s : Ledger) (bot : String) (symbol : Symbol) (rules : SymbolRules) : Nat :=
  ((s.positionsOf bot).filter fun p =>
    if p.symbol = symbol then p.isOpen rules else p.isOpenAny).length

/-- `paper_cash`: the starting balance, plus what SELL fills brought in, less what the others cost. -/
def paperCash (s : Ledger) (startingPaperBalance : ℚ) (bot : String) (symbol : Symbol) : ℚ :=
  (s.fillsOf bot symbol).foldl (fun cash f =>
    let fee := if f.commissionAsset = some symbol.quote then f.commission else 0
    cash + if f.side = .sell then f.gross - fee else -(f.gross + fee)) startingPaperBalance

/-- `equity`. -/
def equity (s : Ledger) (bot : String) (symbol : Symbol) (quoteTotal mark : ℚ) : ℚ :=
  quoteTotal + (s.getPosition bot symbol).quantity * mark

end PositionService

end CryptoBot
