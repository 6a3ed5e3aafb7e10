import Mathlib.Data.Rat.Defs
import Mathlib.Algebra.Order.Ring.Rat

/-!
# Enumerations and exchange-facing values

`engine/domain/enums.py` and `engine/domain/events.py`. Quantities, prices and amounts are exact
rationals where the source has `Decimal`; an instant is its number of microseconds since the epoch.
-/

namespace CryptoBot

/-- An instant, in microseconds since the epoch (UTC). -/
abbrev Time := Int

/-- A duration of whole seconds, in microseconds. -/
def seconds (n : Int) : Int := n * 1000000

/-- An internal symbol such as `BTC/USDT`, split at its slash. -/
structure Symbol where
  base : String
  quote : String
deriving DecidableEq, Repr

/-- The text of a symbol. -/
def Symbol.text (symbol : Symbol) : String := symbol.base ++ "/" ++ symbol.quote

inductive TradingMode
  | paper | testnet | live
deriving DecidableEq, Repr

/-- The text of an order's side; everything but `BUY` and `SELL` is `other`. -/
inductive OrderSide
  | buy | sell
  | other (text : String)
deriving DecidableEq, Repr

/-- The text of an order's type; `other` is one the bot never sends. -/
inductive OrderType
  | market | limit | stopLossLimit
  | other (text : String)
deriving DecidableEq, Repr

inductive OrderPurpose
  | entry | exit | stopExit | protectiveStop
deriving DecidableEq, Repr

inductive OrderStatus
  | intentCreated | submitting | new | partiallyFilled | filled | canceled | rejected | expired
deriving DecidableEq, Repr

namespace OrderStatus

/-- The text a status is stored and reported as. -/
def value : OrderStatus → String
  | intentCreated => "INTENT_CREATED"
  | submitting => "SUBMITTING"
  | new => "NEW"
  | partiallyFilled => "PARTIALLY_FILLED"
  | filled => "FILLED"
  | canceled => "CANCELED"
  | rejected => "REJECTED"
  | expired => "EXPIRED"

/-- `TERMINAL_STATUSES`. -/
def terminalStatuses : List OrderStatus := [filled, canceled, rejected, expired]

def isTerminal (s : OrderStatus) : Bool := terminalStatuses.contains s

end OrderStatus

inductive ReconciliationStatus
  | connecting | reconciling | healthy | degraded | halted
deriving DecidableEq, Repr

inductive MismatchSeverity
  | info | warning | critical
deriving DecidableEq, Repr

inductive SubmitOutcomeKind
  | acknowledged | rejected | ambiguous
deriving DecidableEq, Repr

inductive SignalAction
  | buy | sell | hold
deriving DecidableEq, Repr

/-- `client_signal_id`, the text `signal:bot:symbol:candle:action:score`. -/
structure SignalId where
  bot : String
  symbol : Symbol
  candleTs : String
  action : SignalAction
  score : ℚ
deriving DecidableEq

/-- An order report of the exchange, as every adapter hands it over. -/
structure ExchangeOrderReport where
  clientOrderId : String
  symbol : Symbol
  side : OrderSide
  orderType : OrderType
  status : OrderStatus
  origQty : ℚ
  executedQty : ℚ
  cumQuoteQty : ℚ
  exchangeOrderId : Option String := none
  updateTimeMs : Option Int := none
  rejectReason : Option String := none
deriving DecidableEq

/-- One execution reported by the exchange. -/
structure ExchangeFill where
  exchangeTradeId : String
  exchangeOrderId : Option String
  clientOrderId : Option String
  symbol : Symbol
  side : OrderSide
  quantity : ℚ
  price : ℚ
  quoteQuantity : ℚ
  commission : ℚ
  commissionAsset : Option String
  executionTimeMs : Int
  eventKey : String
deriving DecidableEq

/-- The free and locked amount of one asset. -/
structure AssetBalance where
  free : ℚ
  locked : ℚ
deriving DecidableEq

/-- `BalanceSnapshot`: the balances by asset. -/
structure BalanceSnapshot where
  balances : List (String × AssetBalance)
deriving DecidableEq

namespace BalanceSnapshot

/-- `total`: free plus locked, zero for an asset the snapshot does not list. -/
def total (b : BalanceSnapshot) (asset : String) : ℚ :=
  match b.balances.lookup asset with
  | some x => x.free + x.locked
  | none => 0

/-- The free amount of an asset, zero when it is not listed. -/
def free (b : BalanceSnapshot) (asset : String) : ℚ :=
  match b.balances.lookup asset with
  | some x => x.free
  | none => 0

end BalanceSnapshot

/-- What a submission or a cancel request came to. -/
structure SubmitOutcome where
  kind : SubmitOutcomeKind
  report : Option ExchangeOrderReport := none
  fills : List ExchangeFill := []
  error : Option String := none
  errorCode : Option Int := none
deriving DecidableEq

/-- The truth value Python gives an optional text: neither `None` nor empty. -/
def truthy : Option String → Bool
  | some t => t != ""
  | none => false

/-- `str.startswith`. -/
def startsWith (text pre : String) : Bool := pre.toList.isPrefixOf text.toList

end CryptoBot
