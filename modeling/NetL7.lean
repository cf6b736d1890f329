import NetL7.Device.Attach
import NetL7.Device.PoolPartition
import NetL7.Device.SystemMemory
import NetL7.Driver.Ownership
import NetL7.Loader.Interleavings
import NetL7.Packet.Cancel
import NetL7.Packet.CreateFlow
import NetL7.Packet.Disjoint
import NetL7.Packet.ManageOutput
import NetL7.Packet.StaleSlot
import NetL7.Device.ContextRing
import NetL7.Device.PoolEstimate
import NetL7.Loader.GroupTags
import NetL7.Packet.Assertions
import NetL7.Packet.FlowGroups
import NetL7.Packet.FlowOffset
import NetL7.Packet.PacketBases
import NetL7.Device.MemOverlap
import NetL7.Device.PoolMemory
import NetL7.Packet.ByteOffset
import NetL7.Demo.CollectResults
import NetL7.Demo.ResultLoop
import NetL7.Device.CopyDdr
import NetL7.Driver.PageRuns
import NetL7.Driver.Probe
import NetL7.Loader.EntryHeader
import NetL7.Lib.RingWrites
import NetL7.Loader.CheckDatabase
import NetL7.Driver.FixedMemory
import NetL7.Driver.DynamicMemory
import NetL7.Device.FindEdge
import NetL7.Demo.PacketTx
import NetL7.Loader.TryLoad
import NetL7.Loader.CommandRing
import NetL7.Lib.LateLinks
import NetL7.Packet.ChainReach
import NetL7.Packet.ChainSnapshots
import NetL7.Packet.ChainDrain
import NetL7.Packet.ChainApi
import NetL7.Packet.GetResults
