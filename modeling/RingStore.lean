import RingStore.Bytes
import RingStore.Decimal
import RingStore.Text.Utf8
import RingStore.Text.CaseTable
import RingStore.Text.Lowercase
import RingStore.Hash.SipHash
import RingStore.Hash.XxHash64
import RingStore.Wire.Value
import RingStore.Wire.Reader
import RingStore.Machine
import RingStore.Keyspace.Table
import RingStore.Keyspace
import RingStore.Glob
import RingStore.Refusal
import RingStore.Command.Registry
import RingStore.Command.Catalogue
import RingStore.Database
import RingStore.Node
import RingStore.Failure
import RingStore.Journal.Record
import RingStore.Journal.Scan
import RingStore.Journal.File
import RingStore.Journal.Recorder
import RingStore.Journal.Recovery
import RingStore.Connection
import RingStore.PeerClient
import RingStore.Json.Token
import RingStore.Json.Document
import RingStore.Settings
import RingStore.Ring
import RingStore.Pool
import RingStore.Pool.Borrowers
import RingStore.Pool.Stages
import RingStore.Pool.Shared
import RingStore.Cluster.Address
import RingStore.Cluster.Routing
import RingStore.Cluster.Coordinator
import RingStore.Cluster.Relay
import RingStore.Cluster.RelayStages
import RingStore.Cluster.Network
import RingStore.Server
import RingStore.Main
import RingStore.Proofs.Keyspace.Agreement
import RingStore.Proofs.Keyspace.KeySet
import RingStore.Proofs.Command.Redo
import RingStore.Proofs.Command.Errors
import RingStore.Proofs.Database
import RingStore.Proofs.Text.Utf8
import RingStore.Proofs.Decimal
import RingStore.Proofs.Journal.Codec
import RingStore.Proofs.Journal.Recorder
import RingStore.Proofs.Journal.Readable
import RingStore.Proofs.Journal.Handover
import RingStore.Proofs.Node
import RingStore.Proofs.Journal.Recovery
import RingStore.Proofs.Journal.Restart
import RingStore.Proofs.Wire.LineEnd
import RingStore.Proofs.Wire.Framed
import RingStore.Proofs.Wire.RoundTrip
import RingStore.Proofs.Wire.Extension
import RingStore.Proofs.PeerClient
import RingStore.Proofs.Pool
import RingStore.Proofs.Cluster.FaultyPeer.Matching
import RingStore.Proofs.Text.Lowercase
import RingStore.Proofs.Wire.ReadAll
import RingStore.Proofs.Command.Plain
import RingStore.Proofs.Connection
import RingStore.Proofs.Replies
import RingStore.Proofs.Ring
import RingStore.Proofs.Cluster.Members
import RingStore.Proofs.Cluster.Hosts
import RingStore.Proofs.Cluster.Peering
import RingStore.Proofs.Keyspace.Share
import RingStore.Proofs.Keyspace.FiniteMap
import RingStore.Proofs.Command.Local
import RingStore.Proofs.Cluster.Coordinator
import RingStore.Proofs.Command.Call
import RingStore.Proofs.Cluster.Division
import RingStore.Proofs.Cluster.Relaying
import RingStore.Proofs.Cluster.Mirror
import RingStore.Proofs.Cluster.OneStore
import RingStore.Proofs.Journal.Crash
import RingStore.Proofs.Wire.Feeding
import RingStore.Proofs.Connection.Dialogue
import RingStore.Proofs.Pool.Ledger
import RingStore.Proofs.Pool.Lifecycle
import RingStore.Proofs.Cluster.Errands
import RingStore.Proofs.Wire.Overlong
import RingStore.Proofs.Cluster.Transparency
import RingStore.Proofs.Cluster.Roster
import RingStore.Proofs.Cluster.Placement
import RingStore.Proofs.Cluster.Asking
import RingStore.Proofs.Cluster.Upkeep
import RingStore.Proofs.Cluster.SingleHop
import RingStore.Proofs.Pool.Turns
import RingStore.Proofs.Pool.Shutdown
import RingStore.Proofs.Ring.Membership
import RingStore.Proofs.Attended
import RingStore.Proofs.Node.Isolation
import RingStore.Proofs.Glob
import RingStore.Proofs.Command.Keys
import RingStore.Proofs.Node.Refusals
import RingStore.Proofs.Server.Shutdown
import RingStore.Proofs.Wire.Grammar
import RingStore.Proofs.Wire.InlineLimit
import RingStore.Proofs.Connection.QueryBound
import RingStore.Proofs.Connection.Shutdown
import RingStore.Proofs.PeerClient.Pairing
import RingStore.Proofs.Ring.Clockwise
import RingStore.Proofs.Ring.Tags
import RingStore.Proofs.Cluster.Colocation
import RingStore.Proofs.Cluster.Merging
import RingStore.Proofs.Text.Idempotence
import RingStore.Proofs.Command.Lookup
import RingStore.Proofs.Command.Accounting
import RingStore.Proofs.Command.Chronicle
import RingStore.Proofs.Guarded
import RingStore.Proofs.Glob.Positions
import RingStore.Proofs.Command.Handlers
import RingStore.Proofs.Node.Barrier
