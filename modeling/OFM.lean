import OFM.Lib.Machine
import OFM.Lib.Computations
import OFM.Lib.Relay
import OFM.Lib.Words
import OFM.Lib.FlowKey
import OFM.Lib.Archive
import OFM.Bro.Analyzer
import OFM.Bro.HashKey
import OFM.Bro.Sessions
import OFM.Bro.Perflow
import OFM.Bro.Lemmas.Perflow
import OFM.Bro.Theorems.KeySelection
import OFM.Bro.Lemmas.Instance
import OFM.Bro.Theorems.FoundAgain
import OFM.Bro.Theorems.FailingGets
import OFM.Bro.Handover
import OFM.Shared.PerflowCalls
import OFM.Bro.Theorems.PutAcks
import OFM.Iptables.Conntrack
import OFM.Iptables.Theorems.PutAcks
import OFM.Bro.Theorems.Handover
import OFM.Shared.PerflowKey
import OFM.Shared.Event
import OFM.Shared.PacketPath
import OFM.Shared.Release
import OFM.Shared.Theorems.Release
import OFM.Shared.Lemmas.Filters
import OFM.Shared.Theorems.Filters
import OFM.Shared.Theorems.PacketPath
import OFM.Shared.EventCommands
import OFM.Shared.Theorems.EventCommands
import OFM.Prads.Connection
import OFM.Prads.Perflow
import OFM.Prads.Lemmas.Perflow
import OFM.Prads.Theorems.Selection
import OFM.Prads.Lemmas.Track
import OFM.Prads.Lemmas.Records
import OFM.Shared.Core
import OFM.Prads.Instance
import OFM.Prads.Lemmas.Instance
import OFM.Prads.Theorems.LateLock
import OFM.Prads.Theorems.Undisturbed
import OFM.Prads.Theorems.Statistics
import OFM.Controller.Message
import OFM.Controller.ReprocessEvent
import OFM.Controller.OFMatch
import OFM.Controller.Lemmas.OFMatches
import OFM.Controller.Operation
import OFM.Controller.Network
import OFM.Controller.Transfer
import OFM.Controller.Flow
import OFM.Controller.MoveOperation
import OFM.Controller.CopyOperation
import OFM.Controller.Lemmas.Events
import OFM.Controller.Lemmas.Move
import OFM.Controller.Lemmas.MoveEffects
import OFM.Controller.Lemmas.MoveRun
import OFM.Controller.Theorems.OFMatches
import OFM.Controller.Theorems.RouteUpdate
import OFM.Controller.Lemmas.MoveEvents
import OFM.Controller.Theorems.OrderPreserving
import OFM.Controller.Lemmas.TransferBasic
import OFM.Controller.Lemmas.TransferMove
import OFM.Controller.Lemmas.TransferCopy
import OFM.Controller.Lemmas.Transfer
import OFM.Controller.Lemmas.Flow
import OFM.Controller.Lemmas.TransferRun
import OFM.Controller.Lemmas.TransferFinish
import OFM.Controller.Lemmas.TransferChunks
import OFM.Controller.Lemmas.TransferComplete
import OFM.Controller.Theorems.Chunks
import OFM.Controller.Theorems.Finish
import OFM.Controller.Theorems.Progress
import OFM.Controller.Theorems.Released
import OFM.Controller.Lemmas.MoveFilters
import OFM.Controller.Theorems.LeftFilters
import OFM.Controller.Channel
import OFM.Shared.Json
import OFM.Controller.Channelled
import OFM.Controller.Lemmas.CopyChannels
import OFM.Controller.Theorems.CopyScopes
import OFM.Controller.PacketMatch
import OFM.Shared.Theorems.KeyRelay
import OFM.Shared.KeyJson
import OFM.Controller.Text
import OFM.Shared.Theorems.Blobs
import OFM.Controller.ShareOperation
import OFM.Controller.SdmbnManager
import OFM.Controller.Theorems.Connections
import OFM.Controller.Lemmas.Share
import OFM.Controller.Lemmas.Dequeue
import OFM.Controller.Lemmas.Failures
import OFM.Controller.Theorems.NFErrors
import OFM.Lib.Scatter
import OFM.Controller.Sharer
import OFM.Controller.Lemmas.ShareSound
import OFM.Controller.Lemmas.Sharing
import OFM.Controller.Lemmas.Exchange
import OFM.Controller.Lemmas.Rounds
import OFM.Controller.Lemmas.Confined
import OFM.Controller.Lemmas.Syncing
import OFM.Controller.Lemmas.Joins
import OFM.Controller.Theorems.InitialSync
import OFM.Lib.Framing
import OFM.Shared.Conn
import OFM.Shared.Senders
import OFM.Shared.Lemmas.Senders
import OFM.Shared.Theorems.Framing
import OFM.Controller.SendMessage
import OFM.Prads.Theorems.SharedKey
import OFM.Controller.Theorems.SentFrames
import OFM.Algorithms.Migration
import OFM.Algorithms.Scaling
import OFM.Algorithms.Lemmas.Balancing
import OFM.Algorithms.Lemmas.Scaling
import OFM.Algorithms.Lemmas.Room
import OFM.Algorithms.Theorems.Representation
import OFM.Algorithms.Lemmas.Destinations
import OFM.Algorithms.Lemmas.Plan
import OFM.Algorithms.Theorems.Conservation
import OFM.Algorithms.Lemmas.Placement
import OFM.Algorithms.Lemmas.Picks
import OFM.Algorithms.Lemmas.Choices
import OFM.Algorithms.Theorems.ScaleOutBest
import OFM.Algorithms.Lemmas.Considered
import OFM.Algorithms.Theorems.ScaleOut
import OFM.Algorithms.Lemmas.Loads
import OFM.Lib.FirstFit
import OFM.Algorithms.Distribution
import OFM.Algorithms.Lemmas.Distribution
import OFM.Algorithms.Theorems.LoadBalancing
import OFM.Algorithms.Theorems.MayMigrate
import OFM.Prads.Theorems.Fates
import OFM.Prads.AssetChunks
import OFM.Prads.Serialize
import OFM.Prads.Theorems.Escape
import OFM.Prads.Lemmas.Serialize
import OFM.Prads.Theorems.Serialize
import OFM.Prads.Theorems.CurrentAssets
import OFM.Lib.Links
import OFM.Prads.Chains
import OFM.Prads.Lemmas.Chains
import OFM.Prads.Theorems.OneRecord
import OFM.Prads.Assets
import OFM.Prads.Theorems.MergedAssets
import OFM.Lib.Worklist
import OFM.Prads.Translators
import OFM.Prads.Theorems.RoundTrip
import OFM.Shared.Theorems.GetLock
import OFM.Shared.Thresholds
import OFM.Shared.Theorems.Thresholds
import OFM.Lib.Rotation
import OFM.Prads.ReleaseLoop
import OFM.Prads.Theorems.ReleaseLoop
import OFM.Lib.Pointer
import OFM.Bro.Buffers
import OFM.Bro.Theorems.Buffers
import OFM.Lib.Reload
import OFM.Bro.Messages
import OFM.Bro.Lemmas.Messages
import OFM.Bro.Theorems.Messages
import OFM.Lib.Block
import OFM.Shared.Decoding
import OFM.Shared.Stream
import OFM.Shared.Theorems.Stream
import OFM.Iptables.Perflow
import OFM.Iptables.Theorems.Selection
import OFM.Bro.Lemmas.FlowsActive
import OFM.Lib.Tally
import OFM.Lib.Sublists
import OFM.Lib.OnesComplement
import OFM.Controller.DHCP
import OFM.Controller.SetFlag
import OFM.Controller.Lemmas.DHCP
import OFM.Controller.Lemmas.Segments
import OFM.Controller.Lemmas.SetFlag
import OFM.Controller.Theorems.SetFlag
import OFM.Controller.Theorems.Echoes
import OFM.Controller.Theorems.Sharing
import OFM.Bro.TcpStats
import OFM.Bro.Theorems.TcpStats
import OFM.Prads.Lemmas.FlowsActive
import OFM.Shared.Theorems.FlowsActive
import OFM.Lib.Greedy
import OFM.Algorithms.Theorems.Assignment
import OFM.Lib.Merging
import OFM.Algorithms.Theorems.ScaleInRandom
import OFM.Lib.Numerals
import OFM.Lib.Objects
import OFM.Algorithms.Theorems.Nchoosek
import OFM.Lib.Pairing
import OFM.Lib.LinearProgram
import OFM.Algorithms.ScaleIn
import OFM.Algorithms.Lemmas.ScaleIn
import OFM.Algorithms.Theorems.ScaleIn
import OFM.Lib.Fields
import OFM.Iptables.NetMsg
import OFM.Iptables.Theorems.NetMsg
import OFM.Iptables.Theorems.Received
