import Relay.Foundation.AssocMap
import Relay.Foundation.LastWrite
import Relay.Foundation.Machine
import Relay.Foundation.Program
import Relay.Foundation.Roster
import Relay.Foundation.Table
import Relay.Foundation.Text
import Relay.Foundation.Wire
import Relay.Core.Message
import Relay.Core.Topic
import Relay.Core.Grammar
import Relay.Core.Acl
import Relay.Core.Meaning
import Relay.Core.Router
import Relay.Core.RouterMap
import Relay.Core.RoundRobin
import Relay.Core.Recipients
import Relay.Core.Retained
import Relay.Server.Session
import Relay.Server.Retry
import Relay.Server.PacketIds
import Relay.Server.Codec
import Relay.Server.Restored
import Relay.Server.Represented
import Relay.Server.Storage
import Relay.Server.Hub
import Relay.Server.Sections
import Relay.Server.SessionTable
import Relay.Server.EachSession
import Relay.Server.Startup
import Relay.Server.Fanout
import Relay.Server.Broker
import Relay.Server.Handler
import Relay.Server.WebSocket
import Relay.Server.Orphans
import Relay.Server.Authorization
import Relay.Server.Auth
import Relay.Server.Templates
import Relay.Server.Queues
import Relay.Server.Snapshots
import Relay.Server.InflightWrites
import Relay.Server.EventLog
import Relay.Server.Replay
import Relay.Server.Records
import Relay.Server.Mirror
import Relay.Server.Upkeep
import Relay.Server.Reload
import Relay.Server.Restart
import Relay.Server.Subscriptions
import Relay.Server.Gate
import Relay.Server.Offsets
import Relay.Server.Confinement
import Relay.Server.RetainedWrites
import Relay.Server.RetainedLaw
import Relay.Server.Handover
import Relay.Server.Acknowledged
import Relay.Server.StaleHandles
import Relay.Server.Ghosts
import Relay.Server.Quota
import Relay.Server.Coverage
import Relay.Server.StoreHistory
import Relay.Server.Isolation
import Relay.Server.WorkQueue
import Relay.Server.CleanStart
import Relay.Server.Desk
import Relay.Server.Inbound
import Relay.Server.Ledger
import Relay.Server.Handshake
import Relay.Server.Duplicates
import Relay.Server.Touches
import Relay.Server.Audit
import Relay.Server.Attempts
import Relay.Server.Casualties
import Relay.Server.Receivers
import Relay.Server.Routines
import Relay.Server.System
import Relay.Server.Contents
import Relay.Server.Lineage
import Relay.Server.Lengths
import Relay.Server.Integrity
import Relay.Foundation.Exchange
import Relay.Server.Link
import Relay.Server.Moves
import Relay.Server.ExactlyOnce
import Relay.Server.Identifiers
import Relay.Server.Subscriber
import Relay.Server.AtLeastOnce
import Relay.Server.Progress
import Relay.Server.Deadline
import Relay.Server.Expiry
import Relay.Server.CatchUp
import Relay.Server.Barrier
import Relay.Server.Locks
