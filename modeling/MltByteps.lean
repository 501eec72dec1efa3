import MltByteps.Lib.Check
import MltByteps.Lib.Memory
import MltByteps.Lib.Lots
import MltByteps.Lib.IntervalList
import MltByteps.Lib.Machine
import MltByteps.Lib.Lists
import MltByteps.Mlt.Basic
import MltByteps.Mlt.TreeBlockMgr
import MltByteps.Mlt.GradPacket
import MltByteps.Mlt.LtMessage
import MltByteps.Mlt.Packetizer
import MltByteps.Mlt.Communicator
import MltByteps.Mlt.PriorityChannel
import MltByteps.Mlt.PriorityThread
import MltByteps.Mlt.ReceivingChannel
import MltByteps.Mlt.Connection
import MltByteps.Mlt.Retransmission
import MltByteps.Mlt.Framing
import MltByteps.Mlt.Flow
import MltByteps.Mlt.FlowSteps
import MltByteps.Mlt.FlowView
import MltByteps.Mlt.SenderView
import MltByteps.Mlt.ReceiverView
import MltByteps.Mlt.FlowRefinement
import MltByteps.Mlt.Guarantees
import MltByteps.Mlt.Wire
import MltByteps.Mlt.CopyGradients
import MltByteps.Mlt.ReceivingThread
import MltByteps.Mlt.Backlog
import MltByteps.Mlt.InitBacklog
import MltByteps.Mlt.Drain
import MltByteps.Mlt.LossPattern
import MltByteps.Mlt.SendRelease
import MltByteps.Mlt.UdpEndpoint
import MltByteps.Mlt.RateMeter
import MltByteps.Mlt.RateLimit
import MltByteps.Mlt.RdEndpoint
import MltByteps.Mlt.Mesh
import MltByteps.Mlt.MeshInv
import MltByteps.Mlt.ConnectSetup
import MltByteps.Mlt.SendRouting
import MltByteps.Mlt.MetaDelivery
import MltByteps.Mlt.ConnectProgress
import MltByteps.Lib.Ring
import MltByteps.Mlt.SpscQueue
import MltByteps.Mlt.ThreadsafeQueue
import MltByteps.Lib.Loop
import MltByteps.Lib.LowBit
import MltByteps.Lib.Pointer
import MltByteps.Mlt.RoundUpPower2
import MltByteps.Mlt.BitmapBlockMgr
import MltByteps.Mlt.BitmapGrowth
import MltByteps.Mlt.BitmapBits
import MltByteps.Lib.Slices
import MltByteps.Ps.Basic
import MltByteps.Ps.Slicer
import MltByteps.Ps.Partition
import MltByteps.Ps.Pull
import MltByteps.Ps.Server
import MltByteps.Ps.Worker
import MltByteps.Ps.Cluster
import MltByteps.Ps.Request
import MltByteps.Ps.Completion
import MltByteps.Ps.Order
import MltByteps.Ps.Service
import MltByteps.Ps.PushPull
import MltByteps.Ps.Consistency
import MltByteps.Ps.Meta
import MltByteps.Ps.Postoffice
import MltByteps.Ps.Barrier
import MltByteps.Ps.Customers
import MltByteps.Ps.Resender
import MltByteps.Ps.Delivery
import MltByteps.Ps.Keys
import MltByteps.Ps.StartUp
import MltByteps.Ps.Address
import MltByteps.Ps.AddNode
import MltByteps.Ps.Assign
import MltByteps.Ps.Failover
import MltByteps.Ps.MetaCodec
import MltByteps.Ps.MetaImage
import MltByteps.Ps.NodeSlots
import MltByteps.Lib.Dict
import MltByteps.Lib.HeapTree
import MltByteps.Lib.JoinOrder
import MltByteps.Lib.RateWindow
import MltByteps.Lib.Progress
import MltByteps.Lib.WaitCounts
import MltByteps.Rdma.AddressPool
import MltByteps.Rdma.Van
import MltByteps.Rdma.Cache
import MltByteps.Rdma.Fabric
import MltByteps.Rdma.VanSteps
import MltByteps.Rdma.Blocks
import MltByteps.Rdma.Integrity
import MltByteps.Rdma.Conservation
import MltByteps.Tracker.Topology
import MltByteps.Tracker.LinkMap
import MltByteps.Tracker.AcceptSlaves
import MltByteps.Tracker.LinkSetup
import MltByteps.Tracker.AcceptRuns
import MltByteps.Tracker.Recovery
