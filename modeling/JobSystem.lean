import JobSystem.Lib.Text
import JobSystem.Lib.Dict
import JobSystem.Lib.Trans
import JobSystem.Lib.WriteLog
import JobSystem.Lib.Bus
import JobSystem.Cache.Resp
import JobSystem.Cache.Lru
import JobSystem.Cache.RespRoundTrip
import JobSystem.Cache.Aof
import JobSystem.Cache.Clients
import JobSystem.Cache.RespPrefix
import JobSystem.Cache.Stream
import JobSystem.Coordinator.Trial
import JobSystem.Coordinator.NotLost
import JobSystem.Coordinator.Requeue
import JobSystem.Coordinator.Final
import JobSystem.Cache.Recency
import JobSystem.Coordinator.BreakerRuns
import JobSystem.Coordinator.Load
import JobSystem.Coordinator.Stale
import JobSystem.Coordinator.LostUpdate
import JobSystem.EventBus.Subscriber
import JobSystem.EventBus.Framing
import JobSystem.Worker.Receive
import JobSystem.Gateway.Submit
import JobSystem.Coordinator.Agreement
import JobSystem.Coordinator.Capacity
import JobSystem.Coordinator.Autoscaler
import JobSystem.Coordinator.Survival
import JobSystem.Gateway.RateLimiter
import JobSystem.Gateway.Request
import JobSystem.Gateway.Accepted
import JobSystem.Metrics.Collector
import JobSystem.Metrics.Depth
import JobSystem.Coordinator.PriorityOrder
import JobSystem.Coordinator.RetryBudget
import JobSystem.Cache.TornLog
import JobSystem.Cache.Client
import JobSystem.Worker.SendEvent
import JobSystem.EventBus.BadLine
import JobSystem.EventBus.Bookkeeping
import JobSystem.Worker.Totp
import JobSystem.Gateway.Auth
import JobSystem.Coordinator.ScaleDown
import JobSystem.Gateway.Status
import JobSystem.Cache.Progress
import JobSystem.EventBus.EndToEnd
import JobSystem.Cache.Methods
import JobSystem.Coordinator.Ledger
import JobSystem.Frontend.Relay
