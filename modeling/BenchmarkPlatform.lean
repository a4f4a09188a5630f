import BenchmarkPlatform.OrderBook.Refinement
import BenchmarkPlatform.OrderBook.Uncrossed
import BenchmarkPlatform.OrderBook.Ledger
import BenchmarkPlatform.OrderBook.Totals
import BenchmarkPlatform.OrderBook.Split
import BenchmarkPlatform.OrderBook.Commute
import BenchmarkPlatform.OrderBook.Symmetry
import BenchmarkPlatform.Worker.Timers
import BenchmarkPlatform.Worker.Shutdown
import BenchmarkPlatform.Worker.Reporter
import BenchmarkPlatform.Worker.Market
import BenchmarkPlatform.Worker.Limit
import BenchmarkPlatform.Worker.Wire
import BenchmarkPlatform.Exchange.Mirror
import BenchmarkPlatform.Exchange.Price
import BenchmarkPlatform.Exchange.History
import BenchmarkPlatform.Scoring.Ledger
import BenchmarkPlatform.Scoring.Attempts
import BenchmarkPlatform.Scoring.Ranking
import BenchmarkPlatform.Scoring.Snapshot
import BenchmarkPlatform.Scoring.Writer
import BenchmarkPlatform.Scoring.Summary
import BenchmarkPlatform.Scoring.Iterator
import BenchmarkPlatform.Scoring.Monotone
import BenchmarkPlatform.Scoring.Timestamp
import BenchmarkPlatform.Orchestrator.Status
import BenchmarkPlatform.Orchestrator.Topic
import BenchmarkPlatform.Orchestrator.Duration
import BenchmarkPlatform.Orchestrator.Ramp
import BenchmarkPlatform.Sandbox.Teardown
import BenchmarkPlatform.Sandbox.Injection
import BenchmarkPlatform.Sandbox.Isolation
import BenchmarkPlatform.Submissions.Testing
import BenchmarkPlatform.Submissions.Finalize
import BenchmarkPlatform.Submissions.DeleteTeam
import BenchmarkPlatform.Submissions.DbPool
import BenchmarkPlatform.Submissions.Archive
import BenchmarkPlatform.Submissions.ZipProgress
import BenchmarkPlatform.Submissions.SizedEntries
import BenchmarkPlatform.Submissions.Builds
import BenchmarkPlatform.Submissions.Tables
import BenchmarkPlatform.Leaderboard.Stream
import BenchmarkPlatform.OrderBook.Depth
import BenchmarkPlatform.Exchange.Linear
import BenchmarkPlatform.Worker.Custody
import BenchmarkPlatform.Sandbox.Progress
import BenchmarkPlatform.Sandbox.Ready
import BenchmarkPlatform.Scoring.Latest
import BenchmarkPlatform.Scoring.Pipeline
import BenchmarkPlatform.Worker.Rate
import BenchmarkPlatform.Worker.Command
import BenchmarkPlatform.Gateway.Guard
