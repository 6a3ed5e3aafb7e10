import CryptoBot.Domain.Types
import CryptoBot.Lib.Fields

/-!
# Normalised Binance payloads

The idempotency keys and the trade rows of `engine/exchanges/binance/normalizer.py`. An exchange
symbol has no colon, so a key is read back field by field from its end.
-/

namespace CryptoBot

open Lib

/-- A symbol of the exchange, such as `BTCUSDT`. -/
@[ext] structure ExchangeSymbol where
  text : String
  free : Free ':' text

instance : DecidableEq ExchangeSymbol := fun a b =>
  decidable_of_iff (a.text = b.text) ExchangeSymbol.ext_iff.symm

/-- The symbol of the examples has no colon. -/
theorem btcusdt_free : Free ':' "BTCUSDT" := by decide

/-- `SymbolMap`: the internal symbol of an exchange symbol. -/
structure SymbolMap where
  internal : ExchangeSymbol → Symbol

/-- A row of `myTrades`. -/
structure Trade where
  id : Nat
  orderId : Nat
  symbol : ExchangeSymbol
  qty : ℚ
  price : ℚ
  quoteQty : ℚ
  commission : ℚ
  commissionAsset : Option String
  time : Int
  isBuyer : Bool
deriving DecidableEq

namespace Normalizer

/-- `fill_event_key`. -/
def fillEventKey (account exchangeSymbol orderId tradeId : String) : String :=
  s!"binance:{account}:{exchangeSymbol}:{orderId}:{tradeId}:TRADE"

/-- `rest_trade_fill`. -/
def restTradeFill (raw : Trade) (account : String) (symbols : SymbolMap)
    (clientOrderId : Option String) : ExchangeFill where
  exchangeTradeId := toString raw.id
  exchangeOrderId := some (toString raw.orderId)
  clientOrderId := clientOrderId
  symbol := symbols.internal raw.symbol
  side := if raw.isBuyer then .buy else .sell
  quantity := raw.qty
  price := raw.price
  quoteQuantity := raw.quoteQty
  commission := raw.commission
  commissionAsset := raw.commissionAsset
  executionTimeMs := raw.time
  eventKey := fillEventKey account raw.symbol.text (toString raw.orderId) (toString raw.id)

/-- A key determines the account, the symbol, the order and the trade. -/
theorem fillEventKey_inj {a a' s s' o o' t t' : String} (hs : Free ':' s) (hs' : Free ':' s')
    (ho : Free ':' o) (ho' : Free ':' o') (ht : Free ':' t) (ht' : Free ':' t') :
    fillEventKey a s o t = fillEventKey a' s' o' t' ↔ a = a' ∧ s = s' ∧ o = o' ∧ t = t' := by
  have hfields (a s o t : String) : fillEventKey a s o t =
      "binance:" ++ a ++ ":" ++ s ++ ":" ++ o ++ ":" ++ t ++ ":" ++ "TRADE" := by
    simp [fillEventKey, toString, String.append_assoc]
  rw [hfields, hfields, field_inj (by decide) (by decide), field_inj ht ht', field_inj ho ho',
    field_inj hs hs']
  simp [and_assoc]

end Normalizer
end CryptoBot
