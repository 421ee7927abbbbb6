import PyMotor.Conductor.RadixTree.Chains
import PyMotor.Conductor.RadixTree.Sound
import PyMotor.Conductor.LowerTier.Owners
import PyMotor.Conductor.Events.HttpWire
import PyMotor.Conductor.Removal
import PyMotor.Conductor.TwoPhase
import PyMotor.Conductor.Interleaving
import PyMotor.Conductor.Coverage.OwnPrefixes
import PyMotor.Conductor.Registry.IpIndex
import PyMotor.Coordinator.Membership.Agreement
import PyMotor.Coordinator.CircuitBreaker.Unblocking
import PyMotor.Router.StreamResponse.Answers
import PyMotor.Controller.Routing.Agreement
import PyMotor.Controller.EventPusher.Table
import PyMotor.Controller.Persistence.SharedEtcd
import PyMotor.Controller.ScaleP2D.Selection
import PyMotor.Coordinator.MetricsCollector.Totals
import PyMotor.Router.ForwardStream
import PyMotor.Router.DecodeQueue.Delivery
import PyMotor.Coordinator.InstanceCache.Steps
import PyMotor.Coordinator.Scheduler.Finding
import PyMotor.Coordinator.InstanceManager.SetEvents
import PyMotor.Controller.InstanceManager.Heartbeats
import PyMotor.Router.StreamRetry.Budget
import PyMotor.Router.PrecisionSample.Alignment
import PyMotor.Controller.FaultManager.ResourceMonitor
import PyMotor.Controller.FaultManager.Reboot
import PyMotor.Controller.InstanceAssembler.EndpointIds
import PyMotor.Controller.InstanceAssembler.StartCommand
import PyMotor.Controller.FaultManager.Ownership
import PyMotor.Coordinator.Scheduler.ShortPrompts
import PyMotor.Coordinator.BlockOffset.Following
import PyMotor.Coordinator.MetricsCollector.Rates
import PyMotor.Coordinator.RateLimiter.Bound
import PyMotor.Coordinator.RateLimiter.Congestion
import PyMotor.EngineServer.DispatchRegistry.Waiters
import PyMotor.NodeManager.HeartbeatManager.Pause
import PyMotor.NodeManager.FaultReporter.Reports
import PyMotor.Coordinator.AggregationEngine.Right
import PyMotor.Coordinator.Scheduler.Conservation
import PyMotor.Common.StandbyManager.Cluster
import PyMotor.Coordinator.ZmqProtocol.RoundTrip
import PyMotor.Coordinator.WorkloadShm.Layout
import PyMotor.NodeManager.ProcessSupervisor.Tracking
import PyMotor.Coordinator.SubprocessSupervisor
import PyMotor.EngineServer.SimInference
import PyMotor.Controller.PrecisionRecovery.Groups
