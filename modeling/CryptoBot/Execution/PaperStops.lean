import CryptoBot.Application.Gating
import CryptoBot.Execution.PaperCash
import CryptoBot.Research.StopTrades

/-!
# The price of a stop exit

A cycle sells at the stop with the stop price as the reference price of its order, and the simulated
exchange fills a market order at its reference price, wherever the market has gone. The backtester
fills at the open when the market has gapped through the stop.
-/

namespace CryptoBot

open Lib OrderService TradingCycle

/-! ## The reference price of a stop exit -/

section
variable {cfg : Config} {V : History Label Ans → Ledger → Prop} {h₀ : History Label Ans} {α : Type}

end

/-! ## The fills -/

end CryptoBot
