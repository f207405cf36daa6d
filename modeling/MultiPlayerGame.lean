import MultiPlayerGame.Library.Utf8
import MultiPlayerGame.Library.KeyedMap
import MultiPlayerGame.Library.Since
import MultiPlayerGame.Library.Program
import MultiPlayerGame.Library.Interleaving
import MultiPlayerGame.Library.Schedules
import MultiPlayerGame.Library.Abstraction
import MultiPlayerGame.Library.Observation
import MultiPlayerGame.Library.Sessions
import MultiPlayerGame.Library.Phases
import MultiPlayerGame.Library.CheckThenUse
import MultiPlayerGame.Library.Footprint
import MultiPlayerGame.Library.CappedLog
import MultiPlayerGame.Library.OrderStatistics
import MultiPlayerGame.Library.Arrears
import MultiPlayerGame.Library.Traces
import MultiPlayerGame.Library.Counting
import MultiPlayerGame.Library.Transition
import MultiPlayerGame.Library.Framing
import MultiPlayerGame.Library.Trimming
import MultiPlayerGame.Json.Value
import MultiPlayerGame.Json.Parser
import MultiPlayerGame.Json.RoundTrip
import MultiPlayerGame.Json.Canonical
import MultiPlayerGame.Json.Sizes
import MultiPlayerGame.Server.World
import MultiPlayerGame.Server.RequestHandler
import MultiPlayerGame.Server.Requests
import MultiPlayerGame.Server.Arena
import MultiPlayerGame.Server.Serving
import MultiPlayerGame.Server.Deeds
import MultiPlayerGame.Server.Legible
import MultiPlayerGame.Server.ResponseSizes
import MultiPlayerGame.Server.HandleClient
import MultiPlayerGame.Server.Connections
import MultiPlayerGame.Server.Reachable
import MultiPlayerGame.Server.Readable
import MultiPlayerGame.Server.Copies
import MultiPlayerGame.Server.Records
import MultiPlayerGame.Server.Snapshots
import MultiPlayerGame.Server.MessageFramer
import MultiPlayerGame.Server.MetricsExport
import MultiPlayerGame.Server.ThreadPool
import MultiPlayerGame.Server.CacheManager
import MultiPlayerGame.Server.RedisCommands
import MultiPlayerGame.Server.MockRedis
import MultiPlayerGame.Server.DatabaseHandle
import MultiPlayerGame.Server.Schema
import MultiPlayerGame.Server.RunLoop
import MultiPlayerGame.Simulator.MetricsCollector
import MultiPlayerGame.Simulator.PlayerBot
import MultiPlayerGame.Simulator.Simulator
import MultiPlayerGame.Results.Ledger
import MultiPlayerGame.Results.Scores
import MultiPlayerGame.Results.Linearizability
import MultiPlayerGame.Results.Glances
import MultiPlayerGame.Results.Census
import MultiPlayerGame.Results.Journal
import MultiPlayerGame.Results.Errors
import MultiPlayerGame.Results.Integers
import MultiPlayerGame.Results.Elimination
import MultiPlayerGame.Results.Lifecycle
import MultiPlayerGame.Results.Shutdown
import MultiPlayerGame.Results.Tasks
import MultiPlayerGame.Results.Dispatch
import MultiPlayerGame.Results.StopRequest
import MultiPlayerGame.Results.Handle
import MultiPlayerGame.Results.EventOrder
import MultiPlayerGame.Results.Accounting
import MultiPlayerGame.Results.Exports
import MultiPlayerGame.Results.Gauge
import MultiPlayerGame.Results.Reports
import MultiPlayerGame.Results.CacheOrder
import MultiPlayerGame.Results.Cache
import MultiPlayerGame.Results.RedisSession
import MultiPlayerGame.Results.StaleReplies
import MultiPlayerGame.Results.Story
import MultiPlayerGame.Results.Frames
import MultiPlayerGame.Results.Conversations
import MultiPlayerGame.Results.Delivery
import MultiPlayerGame.Results.Registry
import MultiPlayerGame.Results.Simulation
import MultiPlayerGame.Results.Responses
import MultiPlayerGame.Results.Wire
import MultiPlayerGame.Results.Readback
import MultiPlayerGame.Results.ResponseLimit
import MultiPlayerGame.Results.Failover
import MultiPlayerGame.Results.Commuting
import MultiPlayerGame.Results.Agreement
import MultiPlayerGame.Results.OwnState
import MultiPlayerGame.Results.EventIds
import MultiPlayerGame.Results.EventTurns
import MultiPlayerGame.Results.RecentEvents
import MultiPlayerGame.Results.KillCount
import MultiPlayerGame.Results.RefusedWrites
import MultiPlayerGame.Results.CacheQueries
import MultiPlayerGame.Results.Summary
import MultiPlayerGame.Results.Measurements
import MultiPlayerGame.Results.Recorded
import MultiPlayerGame.Results.SchemaStatements
