import Tqt.Backtest.Blind
import Tqt.Backtest.Conservation
import Tqt.Backtest.CostAlgebra
import Tqt.Backtest.Costs
import Tqt.Backtest.Drawdown
import Tqt.Backtest.Engine
import Tqt.Backtest.Lookahead
import Tqt.Backtest.Marking
import Tqt.Backtest.Outcome
import Tqt.Backtest.Rebalance
import Tqt.Backtest.Replay
import Tqt.Backtest.Rescale
import Tqt.Backtest.Solvency
import Tqt.Backtest.Validate
import Tqt.Calendar
import Tqt.Calendar.Week
import Tqt.Data.DateRange
import Tqt.Data.Ingest
import Tqt.Data.Mirror
import Tqt.Data.Money
import Tqt.Data.RoundTrip
import Tqt.Data.State
import Tqt.Data.Shown
import Tqt.Data.Store
import Tqt.Data.SyncAll
import Tqt.Execution.Broker
import Tqt.Execution.Crash
import Tqt.Execution.Exchange
import Tqt.Execution.Filled
import Tqt.Execution.Isolation
import Tqt.Execution.LimitPrice
import Tqt.Execution.Live
import Tqt.Execution.Orphans
import Tqt.Execution.Paper
import Tqt.Execution.PaperEquity
import Tqt.Execution.PaperLedger
import Tqt.Execution.PaperShared
import Tqt.Execution.PaperSteps
import Tqt.Execution.Reconcile
import Tqt.Execution.Reset
import Tqt.Execution.Sales
import Tqt.Execution.Sync
import Tqt.Foundation.Bands
import Tqt.Foundation.Binary64
import Tqt.Foundation.Changes
import Tqt.Foundation.Context
import Tqt.Foundation.Decimal
import Tqt.Foundation.Dict
import Tqt.Foundation.Directed
import Tqt.Foundation.Feed
import Tqt.Foundation.Groups
import Tqt.Foundation.History
import Tqt.Foundation.Lines
import Tqt.Foundation.Lts
import Tqt.Foundation.Memo
import Tqt.Foundation.Mutex
import Tqt.Foundation.Noninterference
import Tqt.Foundation.Ranking
import Tqt.Foundation.Rounding
import Tqt.Foundation.RunningMax
import Tqt.Foundation.Sweep
import Tqt.Foundation.TokenBucket
import Tqt.Foundation.Transactions
import Tqt.Foundation.Whole
import Tqt.Notify.Base
import Tqt.Notify.Chunks
import Tqt.Notify.Telegram
import Tqt.Ops.IpWatch
import Tqt.Ops.MarketClock
import Tqt.Ops.Remote
import Tqt.Portfolio
import Tqt.Risk
import Tqt.Risk.DailyLoss
import Tqt.Risk.Gate
import Tqt.Risk.Halts
import Tqt.Risk.Warnings
import Tqt.Runner.Aim
import Tqt.Runner.Brokers
import Tqt.Runner.Budget
import Tqt.Runner.Cadence
import Tqt.Runner.Commitment
import Tqt.Runner.Cycle
import Tqt.Runner.Duplicates
import Tqt.Runner.FullExit
import Tqt.Runner.Funded
import Tqt.Runner.KillSwitch
import Tqt.Runner.Orders
import Tqt.Runner.Plan
import Tqt.Runner.Replan
import Tqt.Runner.Schedule
import Tqt.Runner.Sleeves
import Tqt.Runner.Thresholds
import Tqt.Runner.Threads
import Tqt.Strategy.Base
import Tqt.Strategy.Breadth
import Tqt.Strategy.Momentum
import Tqt.Strategy.Rules
import Tqt.Strategy.Signals
import Tqt.Tick
import Tqt.Tick.Aggressive
import Tqt.Tick.Grid
import Tqt.Tick.Optimal
import Tqt.Toss.Account
import Tqt.Toss.AtMostOnce
import Tqt.Toss.Candles
import Tqt.Toss.Client
import Tqt.Toss.Errors
import Tqt.Toss.Penalty
import Tqt.Toss.Progress
import Tqt.Toss.RateLimit
import Tqt.Toss.Resend
import Tqt.Toss.Throughput
import Tqt.Toss.Tokens
import Tqt.Toss.Window
import Tqt.Universe
import Tqt.Web.App
import Tqt.Runner.Tracking
