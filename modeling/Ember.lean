import Ember.Base.Outcome
import Ember.Base.Framing
import Ember.Base.Utf8
import Ember.Base.Decimal
import Ember.Base.Lexical
import Ember.Base.Word
import Ember.Base.Positions
import Ember.Base.FiniteMap
import Ember.Base.Prog
import Ember.Base.Interleaving
import Ember.Base.Threads
import Ember.Base.Atomicity
import Ember.Base.Locks
import Ember.Base.Rely
import Ember.Base.Reader
import Ember.Base.BufWriter
import Ember.Base.Wire
import Ember.Base.FileSystem
import Ember.Base.Refinement
import Ember.Resp.Types
import Ember.Resp.Parser
import Ember.Resp.Delimited
import Ember.Resp.RoundTrip
import Ember.Resp.Panics
import Ember.Resp.Grammar
import Ember.Database.Core
import Ember.Database.Sequential
import Ember.Database.Lists
import Ember.Database.TtlStore
import Ember.Database.ExpiredWrites
import Ember.Database.CleanupRace
import Ember.Database.Keys
import Ember.Database.SameKey
import Ember.Database.ExpireRace
import Ember.Database.PushRace
import Ember.Database.Snapshot
import Ember.Database.FuzzySnapshot
import Ember.Database.ExpirationCycle
import Ember.Database.Guards
import Ember.Command.Command
import Ember.Command.Extraction
import Ember.Command.Arguments
import Ember.Command.Dispatcher
import Ember.Command.Transaction
import Ember.Command.Replay
import Ember.Command.AtMostOnce
import Ember.Command.Failure
import Ember.Command.Panics
import Ember.Command.Isolation
import Ember.Command.Server
import Ember.Command.Contents
import Ember.Command.Consistency
import Ember.Command.ExpireOptions
import Ember.Rdb.Writer
import Ember.Rdb.SnapshotFile
import Ember.Rdb.Reader
import Ember.Rdb.Lengths
import Ember.Rdb.Codec
import Ember.Rdb.RoundTrip
import Ember.Rdb.Truncation
import Ember.Rdb.Restart
import Ember.Rdb.Recovery
import Ember.Config.Client
import Ember.Config.Segmentation
import Ember.Config.Malformed
import Ember.Config.Yielding
import Ember.Config.Replies
import Ember.Config.GetReplies
import Ember.Config.Inline
import Ember.Config.TimeToLive
import Ember.Config.QueuedTtl
import Ember.Config.Task
import Ember.Config.Requests
import Ember.Config.InStep
import Ember.Config.Footprint
import Ember.Config.Services
import Ember.Config.Tenants
import Ember.Config.Provenance
import Ember.Rdb.LiveSave
import Ember.Rdb.Lives
import Ember.Config.Linearizable
import Ember.Config.Expired
import Ember.Config.Unexpired
import Ember.Config.Deadlock
import Ember.Config.WriteErrors
import Ember.Config.Prompt
import Ember.Server.PortSearch
