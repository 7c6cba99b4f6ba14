import Chronos.NearestDivision
import Chronos.OrderedLevels
import Chronos.SearchedArray
import Chronos.KeyedTable
import Chronos.Schedule
import Chronos.TicketRing
import Chronos.OptimisticRead
import Chronos.Emission
import Chronos.Json
import Chronos.ByteRecords
import Chronos.Decimal
import Chronos.Types
import Chronos.BookLadder
import Chronos.OrderBook
import Chronos.OrderBookRefinement
import Chronos.OrderBookV2
import Chronos.OrderBookV2Refinement
import Chronos.OrderBookV2Invariant
import Chronos.OrderBookAgreement
import Chronos.OrderBookV2Writes
import Chronos.OrderBookV2Program
import Chronos.OrderBookV2Readings
import Chronos.OrderBookV2Threads
import Chronos.OrderBookV2HotReads
import Chronos.OrderBookV2ColdReads
import Chronos.PositionManager
import Chronos.PositionConservation
import Chronos.PositionAccounting
import Chronos.RiskEngine
import Chronos.RiskStatistics
import Chronos.RiskWrapAround
import Chronos.PositionLimit
import Chronos.PortfolioValue
import Chronos.PriceDrift
import Chronos.PortfolioLimit
import Chronos.RiskParameterUpdate
import Chronos.RiskParameterThreads
import Chronos.RiskParameterReads
import Chronos.StrategyContext
import Chronos.OrdersInFlight
import Chronos.RateLimiter
import Chronos.MpmcQueue
import Chronos.MpmcQueueInvariant
import Chronos.MpmcQueueSteps
import Chronos.MpmcQueueSafety
import Chronos.OrderEncoding
import Chronos.OrderGateway
import Chronos.OrderGatewaySteps
import Chronos.LiveOrders
import Chronos.PendingEntries
import Chronos.OrderSends
import Chronos.FillAttribution
import Chronos.BinanceUserStream
import Chronos.CancelRequests
import Chronos.TransmittedOrders
import Chronos.ExchangeRecord
import Chronos.PositionPersistence
import Chronos.PositionRoundTrip
import Chronos.FailedLoad
import Chronos.ParseDecimal
import Chronos.MarketDataProtocols
import Chronos.MarketDataShapes
import Chronos.BinanceMessages
import Chronos.OKXMessages
import Chronos.MarketDataParsing
import Chronos.LegacyParsers
import Chronos.ParserAgreement
import Chronos.LogReader
import Chronos.LogWriter
import Chronos.LogRoundTrip
import Chronos.LogRecovery
import Chronos.ErrorHistory
import Chronos.TimeReplayer
import Chronos.ReplayMerge
import Chronos.StrategyEngine
import Chronos.Subscriptions
import Chronos.MarketIsolation
import Chronos.TradeTicks
import Chronos.SymbolNumbers
import Chronos.SinglePopper
import Chronos.EngineShutdown
import Chronos.ShutdownFills
import Chronos.ZMQBridge
import Chronos.PublishedEvents
import Chronos.Reconnection
import Chronos.BacktestLedger
import Chronos.TradeLedger
import Chronos.BacktestEngine
import Chronos.BacktestCancels
import Chronos.BacktestSale
import Chronos.BacktestClock
import Chronos.BacktestIsolation
import Chronos.PriceRange
import Chronos.CachedTotal
import Chronos.DecimalNumerals
import Chronos.ParsedNumerals
import Chronos.ParseFailures
import Chronos.SentNumbers
import Chronos.BookFreshness
import Chronos.SnapshotRebuild
import Chronos.SequentialQueue
import Chronos.QueueSize
import Chronos.OrderSubmission
import Chronos.RunningPeak
import Chronos.Drawdown
import Chronos.GatewayCounters
import Chronos.TickTimers
import Chronos.ReplayTargets
import Chronos.LogFileAccess
import Chronos.ApiKeyEncryptor
import Chronos.Calendar
import Chronos.LogRetention
import Chronos.FillModes
import Chronos.DelimitedBlocks
import Chronos.LogSanitizer
import Chronos.TimestampSeek
import Chronos.ParameterPublication
import Chronos.ReconnectDelay
import Chronos.JsonCodec
import Chronos.SystemConfig
import Chronos.WhileLoop
import Chronos.DailyReturns
import Chronos.DailyReturnDays
import Chronos.DailyReturnGaps
import Chronos.SlotRegister
import Chronos.GridStrategy
import Chronos.GridOrders
import Chronos.SharedOrderBookDepth
import Chronos.SharedOrderBookSolo
import Chronos.TradingPipeline
import Chronos.OrdersExactlyOnce
import Chronos.StoppedGateway
import Chronos.TokenValidator
import Chronos.SecretMasking
