import GoRedis.Go.Bytes
import GoRedis.Go.Strconv
import GoRedis.Go.Time
import GoRedis.Go.World
import GoRedis.Protocol.Serializer
import GoRedis.Protocol.Parser
import GoRedis.Storage.Store
import GoRedis.Storage.Strings
import GoRedis.Storage.Hashes
import GoRedis.Storage.Lists
import GoRedis.Storage.Sets
import GoRedis.Storage.ZSets
import GoRedis.Storage.Scan
import GoRedis.Lib.Machine
import GoRedis.Storage.Operations
import GoRedis.Storage.OneType
import GoRedis.Storage.View
import GoRedis.Storage.NoEmpty
import GoRedis.Storage.TimeFree
import GoRedis.Commands.Reply
import GoRedis.Commands.Strings
import GoRedis.Commands.Hashes
import GoRedis.Commands.Lists
import GoRedis.Commands.Sets
import GoRedis.Commands.ZSets
import GoRedis.Commands.Server
import GoRedis.Commands.Router
import GoRedis.Commands.Acts
import GoRedis.Storage.Cells
import GoRedis.Persistence.AOF
import GoRedis.Persistence.Replay
import GoRedis.Lib.PrefixCode
import GoRedis.Lib.Journal
import GoRedis.Protocol.RoundTrip
import GoRedis.Persistence.Recovery
import GoRedis.Persistence.Reopen
import GoRedis.Persistence.Reachable
import GoRedis.Persistence.Unlogged
import GoRedis.Persistence.Echo
import GoRedis.Persistence.Accepted
import GoRedis.Persistence.Refinement
import GoRedis.Persistence.Rename
import GoRedis.Persistence.Deadlines
import GoRedis.Persistence.Expiry
import GoRedis.Persistence.Cut
import GoRedis.Persistence.Damage
import GoRedis.Lib.LastWrite
import GoRedis.Lib.TwoPhase
import GoRedis.Persistence.Interleaving
import GoRedis.Storage.Slots
import GoRedis.Storage.Edits
import GoRedis.Storage.Remains
import GoRedis.Storage.Changes
import GoRedis.Storage.Orphans
import GoRedis.Storage.Versions
import GoRedis.Commands.Emptiness
import GoRedis.Lib.Calls
import GoRedis.Lib.Pool
import GoRedis.Pubsub.Message
import GoRedis.Pubsub.Broker
import GoRedis.Server.Handler
import GoRedis.Server.Transactions
import GoRedis.Server.Watch
import GoRedis.Server.Isolation
import GoRedis.Server.SubscriptionMode
import GoRedis.Server.Subscriptions
import GoRedis.Server.Shutdown
import GoRedis.Lib.Footprint
import GoRedis.Lib.Paging
import GoRedis.Lib.Loops
import GoRedis.Lib.Ranking
import GoRedis.Storage.Look
import GoRedis.Storage.Typed
import GoRedis.Storage.SetAlgebra
import GoRedis.Storage.Ranks
import GoRedis.Storage.Graft
import GoRedis.Storage.Listing
import GoRedis.Commands.Looks
import GoRedis.Commands.RangeOrder
import GoRedis.Commands.Locality
import GoRedis.Protocol.Values
import GoRedis.Commands.Framing
import GoRedis.Commands.Panics
import GoRedis.Commands.Stale
import GoRedis.Commands.Sweep
import GoRedis.Commands.Iteration
import GoRedis.Lib.Serial
import GoRedis.Commands.Stepwise
import GoRedis.Commands.Linearizable
import GoRedis.Commands.Counters
import GoRedis.Commands.Existence
import GoRedis.Commands.Expirations
import GoRedis.Commands.SetAlgebra
import GoRedis.Commands.Ranks
import GoRedis.Commands.TypeGuards
import GoRedis.Commands.WrongType
import GoRedis.Lib.Slices
import GoRedis.Lib.Keyed
import GoRedis.Storage.ScoreUpdates
import GoRedis.Commands.ScoreUpdates
import GoRedis.Storage.Ranges
import GoRedis.Commands.Ranges
import GoRedis.Storage.ListRanges
import GoRedis.Commands.ListRanges
import GoRedis.Storage.WeightedStores
import GoRedis.Commands.WeightedStores
import GoRedis.Storage.PlainStores
import GoRedis.Persistence.LossyRecords
import GoRedis.Storage.Pops
import GoRedis.Commands.Pops
import GoRedis.Storage.Moves
import GoRedis.Commands.Moves
import GoRedis.Commands.Positions
import GoRedis.Storage.Counts
import GoRedis.Commands.Counts
import GoRedis.Storage.KeptDeadlines
import GoRedis.Commands.KeptDeadlines
import GoRedis.Pubsub.Frames
import GoRedis.Protocol.Hostile
import GoRedis.Server.Aborts
import GoRedis.Lib.Delivery
import GoRedis.Pubsub.Publish
import GoRedis.Commands.FullScans
import GoRedis.Go.Slices
import GoRedis.Storage.Checked
import GoRedis.Commands.Checked
import GoRedis.Commands.Bounds
import GoRedis.Lib.Durable
import GoRedis.Go.Files
import GoRedis.Persistence.Sync
import GoRedis.Persistence.Crash
import GoRedis.Persistence.Restarts
import GoRedis.Lib.Unwinding
import GoRedis.Server.Tenants
import GoRedis.Server.Lifecycle
