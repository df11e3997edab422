import BlueBridge.VmemRun
import BlueBridge.Wire
import BlueBridge.Bytes
import BlueBridge.Rmem
import BlueBridge.RmemBatch
import BlueBridge.RmemRead
import BlueBridge.RmemBulk
import BlueBridge.RmemRoundTrip
import BlueBridge.Clients
import BlueBridge.RmemAlloc
import BlueBridge.RmemLinear
import BlueBridge.Raid
import BlueBridge.Stripes
import BlueBridge.RaidStripes
import BlueBridge.RaidRecover
import BlueBridge.RaidLoss
import BlueBridge.RaidWire
import BlueBridge.Ring
import BlueBridge.RingRun
import BlueBridge.RingEarly
import BlueBridge.Frame
import BlueBridge.RxRing
import BlueBridge.Dpdk
import BlueBridge.Headers
import BlueBridge.SwitchParse
import BlueBridge.Switch
import BlueBridge.SwitchFrames
import BlueBridge.Heimdall
import BlueBridge.Access
import BlueBridge.Recency
import BlueBridge.VmemFifo
import BlueBridge.VmemPaged
import BlueBridge.VmemProgress
import BlueBridge.VmemFlush
import BlueBridge.VmemOrder
import BlueBridge.VmemTrace
import BlueBridge.VmemStays
import BlueBridge.VmemThreads
import BlueBridge.VmemMain
import BlueBridge.FrameTrip
import BlueBridge.Disk
import BlueBridge.TxRing
import BlueBridge.VmemSignal
import BlueBridge.FrameSize
import BlueBridge.RaidMissing
import BlueBridge.RmemSchedule
import BlueBridge.RmemCapacity
import BlueBridge.RmemPointer
import BlueBridge.RmemBlocks
import BlueBridge.VmemFreq
import BlueBridge.VmemAges
import BlueBridge.CString
import BlueBridge.ConfigFile
import BlueBridge.WordCount
import BlueBridge.RmemUniform
import BlueBridge.ArrComp
import BlueBridge.RaidCrash
import BlueBridge.RmemStore
import BlueBridge.RmemTest
import BlueBridge.Lossy
import BlueBridge.Nbd
import BlueBridge.RmemLossy
import BlueBridge.ArrRpc
import BlueBridge.PacketFilter
import BlueBridge.RaidPaging
import BlueBridge.Coding
import BlueBridge.FrameClient
import BlueBridge.SwitchNet
