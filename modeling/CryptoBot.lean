import CryptoBot.Lib.Prog
import CryptoBot.Lib.Runs
import CryptoBot.Lib.Pool
import CryptoBot.Lib.Leads
import CryptoBot.Lib.Sequenced
import CryptoBot.Lib.Claims
import CryptoBot.Lib.Authority
import CryptoBot.Lib.Paths
import CryptoBot.Lib.Grid
import CryptoBot.Lib.Keyset
import CryptoBot.Lib.Buckets
import CryptoBot.Lib.Sums
import CryptoBot.Lib.Table
import CryptoBot.Lib.Replay
import CryptoBot.Lib.Substitution
import CryptoBot.Lib.Causal
import CryptoBot.Domain.Types
import CryptoBot.Domain.Instants
import CryptoBot.Lib.TextOrder
import CryptoBot.Domain.InstantOrder
import CryptoBot.MarketData.Candles
import CryptoBot.Domain.Models
import CryptoBot.Domain.Messages
import CryptoBot.Lib.Fields
import CryptoBot.Execution.Paper
import CryptoBot.Exchanges.Normalizer
import CryptoBot.Domain.OrderMachine
import CryptoBot.Infrastructure.Store
import CryptoBot.Exchanges.TradePages
import CryptoBot.Exchanges.OrderFills
import CryptoBot.Infrastructure.StoreLaws
import CryptoBot.Infrastructure.OrderLife
import CryptoBot.Application.PositionService
import CryptoBot.Application.Effects
import CryptoBot.MarketData.Fetcher
import CryptoBot.Application.OrderService
import CryptoBot.Exchanges.Payloads
import CryptoBot.Application.OwnOrders
import CryptoBot.Application.ReconciliationService
import CryptoBot.Application.RiskManager
import CryptoBot.Application.TradingCycle
import CryptoBot.Application.Moves
import CryptoBot.Application.OrderRules
import CryptoBot.Application.RunRules
import CryptoBot.Application.PositionLaws
import CryptoBot.Application.PositionShape
import CryptoBot.Application.Episodes
import CryptoBot.Application.Bookkeeping
import CryptoBot.Application.Accounting
import CryptoBot.Application.Conflicts
import CryptoBot.Application.Programs
import CryptoBot.Application.SingleSend
import CryptoBot.Application.Retries
import CryptoBot.Application.Gating
import CryptoBot.Application.Authority
import CryptoBot.MarketData.EntryCandle
import CryptoBot.Workers.ReconciliationWorker
import CryptoBot.Workers.StateRow
import CryptoBot.Workers.HaltSticky
import CryptoBot.Workers.RebuildRace
import CryptoBot.Application.Deliveries
import CryptoBot.Application.RunAlone
import CryptoBot.Application.HealthyBooks
import CryptoBot.Application.Escapes
import CryptoBot.Application.ConflictVerdict
import CryptoBot.Application.RunGrowth
import CryptoBot.Application.OrderMessages
import CryptoBot.Application.Journal
import CryptoBot.Application.Dispatch
import CryptoBot.Application.Handover
import CryptoBot.Application.Leases
import CryptoBot.Application.Markets
import CryptoBot.Workers.Acknowledgement
import CryptoBot.Application.OpenOrders
import CryptoBot.Application.SingleSell
import CryptoBot.Application.Exits
import CryptoBot.Application.StopPresence
import CryptoBot.Application.DailyLatch
import CryptoBot.Application.Ambiguity
import CryptoBot.Application.ExitCover
import CryptoBot.Research.Backtest
import CryptoBot.Research.BacktestLaws
import CryptoBot.Research.BacktestAccounting
import CryptoBot.Research.DailyHalt
import CryptoBot.Research.StopTrades
import CryptoBot.Research.Evaluate
import CryptoBot.Research.Overlay
import CryptoBot.Research.OverlayWindow
import CryptoBot.Research.Ml
import CryptoBot.Research.OutOfSample
import CryptoBot.Research.OverlayRuns
import CryptoBot.Strategy.Sentiment
import CryptoBot.Strategy.MultiFactor
import CryptoBot.Strategy.AIStrategy
import CryptoBot.ControlPlane.BotControl
import CryptoBot.ControlPlane.OperatorControl
import CryptoBot.ControlPlane.FillIdentity
import CryptoBot.ControlPlane.RunMirror
import CryptoBot.ControlPlane.RequestLimits
import CryptoBot.ControlPlane.InternalApi
import CryptoBot.ControlPlane.AcceptedWrites
import CryptoBot.ControlPlane.EndToEnd
import CryptoBot.ControlPlane.Convergence
import CryptoBot.Application.Sizing
import CryptoBot.Execution.PaperAccount
import CryptoBot.Execution.PaperCash
import CryptoBot.Execution.PaperStops
import CryptoBot.Infrastructure.TextColumns
import CryptoBot.Infrastructure.Logging
import CryptoBot.Infrastructure.Redaction
import CryptoBot.Application.Draining
import CryptoBot.Strategy.Indicators
import CryptoBot.Research.Parity
