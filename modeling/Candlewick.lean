import Candlewick.Amount
import Candlewick.Candle.Basic
import Candlewick.Candle.Metadata
import Candlewick.Candle.Record
import Candlewick.CommandLine.Arguments
import Candlewick.CommandLine.Backtest
import Candlewick.CommandLine.Files
import Candlewick.CommandLine.LogFilter
import Candlewick.CommandLine.Pattern
import Candlewick.Decimal.Binary64
import Candlewick.Decimal.Shortest
import Candlewick.Decimal.Text
import Candlewick.Desk.Basic
import Candlewick.Desk.Book
import Candlewick.Desk.Trades
import Candlewick.Desk.Venue
import Candlewick.Feed.Backoff
import Candlewick.Feed.Csv
import Candlewick.Feed.Error
import Candlewick.Feed.Feeder
import Candlewick.Feed.History
import Candlewick.Feed.Replay
import Candlewick.Feed.Router
import Candlewick.Feed.Turns
import Candlewick.Feed.Wire
import Candlewick.Json.Reader
import Candlewick.Json.Record
import Candlewick.Json.Value
import Candlewick.Main
import Candlewick.Market.Account
import Candlewick.Market.Pair
import Candlewick.Market.Timeframe
import Candlewick.Order.Basic
import Candlewick.Order.Broker
import Candlewick.Order.Plan
import Candlewick.Order.Record
import Candlewick.Proofs.Candle.Metadata
import Candlewick.Proofs.Desk.Agreement
import Candlewick.Proofs.Desk.Book
import Candlewick.Proofs.Desk.Fills
import Candlewick.Proofs.Desk.Gains
import Candlewick.Proofs.Desk.Mirror
import Candlewick.Proofs.Desk.Position
import Candlewick.Proofs.Desk.Refresh
import Candlewick.Proofs.Desk.Run
import Candlewick.Proofs.Desk.Tracking
import Candlewick.Proofs.Feed.Connect
import Candlewick.Proofs.Feed.Delivery
import Candlewick.Proofs.Feed.Queries
import Candlewick.Proofs.Feed.Retries
import Candlewick.Proofs.Feed.Router
import Candlewick.Proofs.Feed.Schedule
import Candlewick.Proofs.Feed.Turns
import Candlewick.Proofs.Market.Splitting
import Candlewick.Proofs.Rational
import Candlewick.Proofs.ReplayOrder
import Candlewick.Proofs.Sequencer.Heap
import Candlewick.Proofs.Sequencer.Queue
import Candlewick.Proofs.Sequencer.Wakeup
import Candlewick.Proofs.Session.AverageCross
import Candlewick.Proofs.Session.Backtest
import Candlewick.Proofs.Session.Causality
import Candlewick.Proofs.Session.LiveRuns
import Candlewick.Proofs.Session.Priming
import Candlewick.Proofs.Session.Records
import Candlewick.Proofs.Session.Timeline
import Candlewick.Proofs.Session.Watching
import Candlewick.Proofs.StableSort
import Candlewick.Proofs.Strategy.AverageCross
import Candlewick.Proofs.Strategy.Columns
import Candlewick.Proofs.Strategy.MovingAverage
import Candlewick.Proofs.Strategy.Tabulation
import Candlewick.Proofs.Table
import Candlewick.Proofs.Text.Canonical
import Candlewick.Proofs.Wallet.AtOnce
import Candlewick.Proofs.Wallet.Bids
import Candlewick.Proofs.Wallet.Drawdown
import Candlewick.Proofs.Wallet.Equity
import Candlewick.Proofs.Wallet.Funds
import Candlewick.Proofs.Wallet.Held
import Candlewick.Proofs.Wallet.Lock
import Candlewick.Proofs.Wallet.Log
import Candlewick.Proofs.Wallet.MarkedValue
import Candlewick.Proofs.Wallet.OneMarket
import Candlewick.Proofs.Wallet.Profit
import Candlewick.Proofs.Wallet.Reconciliation
import Candlewick.Proofs.Wallet.RoundTrips
import Candlewick.Proofs.Wallet.Run
import Candlewick.Proofs.Wallet.Solvency
import Candlewick.Proofs.Wallet.TradeValue
import Candlewick.Proofs.Wallet.Triggers
import Candlewick.Proofs.Wallet.Withdrawal
import Candlewick.Sequencer.Basic
import Candlewick.Sequencer.Heap
import Candlewick.Sequencer.Station
import Candlewick.Session.Backtest
import Candlewick.Session.Basic
import Candlewick.Session.Config
import Candlewick.Session.Live
import Candlewick.Strategy.Basic
import Candlewick.Strategy.Frame
import Candlewick.Strategy.MovingAverage
import Candlewick.Strategy.Scripted
import Candlewick.Table
import Candlewick.Text.Blank
import Candlewick.Text.CodeRange
import Candlewick.Text.Hidden
import Candlewick.Text.Letter
import Candlewick.Text.Quoted
import Candlewick.Text.Terminal
import Candlewick.Text.Upper
import Candlewick.Text.Utf8
import Candlewick.Time.Instant
import Candlewick.Time.Stamp
import Candlewick.Time.Timer
import Candlewick.Wallet.Basic
import Candlewick.Wallet.Config
import Candlewick.Wallet.Drawdown
import Candlewick.Wallet.Orders
import Candlewick.Wallet.Proxy
import Candlewick.Wallet.Report
import Candlewick.Wallet.Settlement
import Candlewick.Wallet.Valuation
