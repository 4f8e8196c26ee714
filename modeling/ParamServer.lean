import ParamServer.Library.InsertionMap
import ParamServer.Library.Linearization
import ParamServer.Library.Locks
import ParamServer.Library.OnePiece
import ParamServer.Library.Quorum
import ParamServer.Library.Resources
import ParamServer.Library.Events
import ParamServer.Library.ZipPrefix
import ParamServer.Library.Framing
import ParamServer.Library.Machine
import ParamServer.Library.CanReach
import ParamServer.Tensor
import ParamServer.Text
import ParamServer.Server.Core
import ParamServer.Server.Receive
import ParamServer.Server.History
import ParamServer.Server.Frame
import ParamServer.Server.Exact
import ParamServer.Server.Sgd
import ParamServer.Server.ArrivalOrder
import ParamServer.Server.Positions
import ParamServer.Server.Completion
import ParamServer.Server.TotalWorkers
import ParamServer.Server.Redelivery
import ParamServer.Server.Independence
import ParamServer.Server.Bootstrap
import ParamServer.Server.Checkpoint
import ParamServer.Server.Mutexes
import ParamServer.Server.Threads
import ParamServer.Server.Linearizable
import ParamServer.Server.Torn
import ParamServer.Server.Visibility
import ParamServer.Server.Save
import ParamServer.Server.Damage
import ParamServer.Server.Recovery
import ParamServer.Server.Calls
import ParamServer.Server.Restart
import ParamServer.Server.Reload
import ParamServer.Service.Handlers
import ParamServer.Service.Ready
import ParamServer.Service.Replies
import ParamServer.Service.Checkpoints
import ParamServer.Service.CrashRecovery
import ParamServer.Service.Snapshots
import ParamServer.Service.Rollback
import ParamServer.Service.Memory
import ParamServer.Worker.RunIteration
import ParamServer.Worker.MultiGpu
import ParamServer.Worker.Collective
import ParamServer.Worker.Communicators
import ParamServer.Cluster.System
import ParamServer.Cluster.Versions
import ParamServer.Cluster.Synchronous
import ParamServer.Cluster.Descent
import ParamServer.Cluster.Order
import ParamServer.Cluster.Progress
import ParamServer.Cluster.Layouts
import ParamServer.Cluster.ConstantGradient
import ParamServer.Coordinator.Core
import ParamServer.Coordinator.Registry
import ParamServer.Coordinator.Heartbeats
import ParamServer.Coordinator.Threads
import ParamServer.Worker.Discovery
import ParamServer.Worker.Queries
import ParamServer.Coordinator.Endpoint
import ParamServer.Worker.Report
import ParamServer.Service.Startup
