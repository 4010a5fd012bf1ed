import Certus.Lib.Run
import Certus.Lib.OrdMap
import Certus.Lib.Dyadic
import Certus.Lib.LittleEndian
import Certus.ExtentManager.Slab
import Certus.ExtentManager.RegionInvariant
import Certus.ExtentManager.Superblock
import Certus.ExtentManager.Recovery
import Certus.ExtentManager.Coalesce
import Certus.ExtentManager.Manager
import Certus.ExtentManager.Placement
import Certus.ExtentManager.RestoredState
import Certus.Dispatcher.IoSegmenter
import Certus.PartitionManager.Layout
import Certus.Dispatcher.DataPlacement
import Certus.Lib.Interleave
import Certus.Dispatcher.OneKey
import Certus.Dispatcher.SlotDiscipline
import Certus.Dispatcher.SlotOwnership
import Certus.Dispatcher.RefDiscipline
import Certus.Dispatcher.ReferenceCounts
import Certus.Dispatcher.Frame
import Certus.Dispatcher.WriteThroughReads
import Certus.EvictionPolicy.Lru
import Certus.MemoryTier.Component
import Certus.RemoteLookup.Actor
import Certus.RemoteLookup.Steps
import Certus.RemoteLookup.Books
import Certus.Lib.History
import Certus.RemoteLookup.PublishedSlots
import Certus.RemoteLookup.Teardown
import Certus.PartitionManager.Gpt
import Certus.Lib.Sectors
import Certus.MetadataStore.Format
import Certus.MetadataStore.Store
import Certus.Dispatcher.Prefetch
import Certus.TransferEndpoint.Serve
import Certus.Lib.MessageCell
import Certus.ShmQueue.Mailbox
import Certus.TransferEndpoint.Actor
import Certus.TransferEndpoint.Steps
import Certus.TransferEndpoint.Barrier
import Certus.BlockDevice.Commands
import Certus.BlockDevice.RingActor
import Certus.DispatcherP2p.StagingRing
import Certus.MetadataStore.Flush
import Certus.BlockDevice.Transfers
import Certus.BlockDevice.Answers
import Certus.BlockDevice.NvmeActor
import Certus.BlockDevice.RingAnswers
import Certus.BlockDevice.NvmeAnswers
import Certus.BlockDevice.OneAnswer
import Certus.BlockDevice.Buffers
import Certus.Connector.Keys
import Certus.Connector.PrepareStore
import Certus.ExtentManager.Reservations
import Certus.ExtentManager.RoundTrip
import Certus.Dispatcher.Sizes
import Certus.MemoryTier.Allocator
import Certus.DispatchMap.Protocol
import Certus.EvictionPolicy.Optimized
import Certus.ShmqDispatcher.ChannelPins
import Certus.ShmqDispatcher.IpcCache
