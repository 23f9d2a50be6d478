import InferenceEngine.Lib.Run
import InferenceEngine.Lib.Count
import InferenceEngine.Lib.Semaphore
import InferenceEngine.Inference.Types
import InferenceEngine.Inference.Scheduler
import InferenceEngine.Inference.Admission
import InferenceEngine.Inference.SchedulerRun
import InferenceEngine.Inference.Drain
import InferenceEngine.Inference.Stream
import InferenceEngine.Inference.StreamDelivery
import InferenceEngine.Inference.StreamClose
import InferenceEngine.Inference.Threaded
import InferenceEngine.Inference.ThreadedLifecycle
import InferenceEngine.Inference.ThreadedWorkers
import InferenceEngine.Inference.StreamCut
import InferenceEngine.Inference.Registry
import InferenceEngine.Inference.Router
import InferenceEngine.Inference.Placement
import InferenceEngine.Inference.Routing
import InferenceEngine.Gateway.Limiter
import InferenceEngine.Gateway.Authorize
import InferenceEngine.Gateway.Accesses
import InferenceEngine.Gateway.Quota
import InferenceEngine.Serving.Core
import InferenceEngine.Serving.Balance
import InferenceEngine.Serving.Calls
import InferenceEngine.Serving.Finish
import InferenceEngine.Serving.Node
import InferenceEngine.Serving.Capacity
import InferenceEngine.Lib.Prog
import InferenceEngine.Edge.Generators
import InferenceEngine.Edge.FinishOnce
import InferenceEngine.Lib.Json
import InferenceEngine.Lib.JsonRoundTrip
import InferenceEngine.Audit.Log
import InferenceEngine.Audit.Writers
import InferenceEngine.Edge.Requests
import InferenceEngine.Edge.Reports
import InferenceEngine.Lib.Faults
import InferenceEngine.Lib.Table
import InferenceEngine.Billing.Store
import InferenceEngine.Billing.Stripe
import InferenceEngine.Billing.StripeRuns
import InferenceEngine.Billing.StripeRetry
import InferenceEngine.Billing.StripeFrame
import InferenceEngine.Billing.Webhook
import InferenceEngine.Billing.Plans
import InferenceEngine.Billing.Keys
import InferenceEngine.Billing.Usage
import InferenceEngine.Lib.Feed
import InferenceEngine.Billing.ClientEvents
import InferenceEngine.Billing.ClientStream
import InferenceEngine.Billing.ClientOnce
import InferenceEngine.Billing.ClientWakeup
import InferenceEngine.Billing.Delivery
import InferenceEngine.Billing.DeliveryLoop
import InferenceEngine.Billing.DeliveryRuns
import InferenceEngine.Billing.DeliveryReplay
import InferenceEngine.Billing.DeliveryTiming
import InferenceEngine.Lib.PyStr
import InferenceEngine.Lib.Base64
import InferenceEngine.Billing.Signing
import InferenceEngine.Lib.PyValue
import InferenceEngine.Inference.RemoteParse
import InferenceEngine.Inference.Remote
import InferenceEngine.Inference.RemoteUsage
import InferenceEngine.Inference.RemoteEnd
import InferenceEngine.Lib.JsonLex
import InferenceEngine.Edge.Agreement
import InferenceEngine.Edge.Proxy
import InferenceEngine.Edge.Disconnects
import InferenceEngine.Models.DownloadTask
import InferenceEngine.Models.Deletion
import InferenceEngine.Models.LoadRaces
import InferenceEngine.Lifecycle.Shutdown
import InferenceEngine.Backup.Restore
import InferenceEngine.Gateway.RateWindows
import InferenceEngine.Gateway.Binding
import InferenceEngine.Telemetry.EventBus
import InferenceEngine.Models.GgufProbe
import InferenceEngine.Models.GgufCut
import InferenceEngine.Store.Migrations
import InferenceEngine.Store.Ownership
import InferenceEngine.Lifecycle.Fleet
import InferenceEngine.Serving.Accounts
import InferenceEngine.Models.Recovery
import InferenceEngine.Models.RedactionLeaks
import InferenceEngine.Telemetry.LogBuffer
import InferenceEngine.Telemetry.Power
import InferenceEngine.Release.StableTags
import InferenceEngine.Inference.Fairness
import InferenceEngine.Billing.FanOut
import InferenceEngine.Dashboard.LiveMetrics
import InferenceEngine.Dashboard.ModelDetail
import InferenceEngine.Inference.Pool
import InferenceEngine.Billing.ClientPolling
import InferenceEngine.Billing.StripeSignature
import InferenceEngine.Billing.Portal
import InferenceEngine.Billing.PortalRuns
import InferenceEngine.Lib.UriCoding
import InferenceEngine.Dashboard.HashRoute
import InferenceEngine.Dashboard.OneTimeSecret
import InferenceEngine.Billing.Attribution
import InferenceEngine.Lib.JsonLines
import InferenceEngine.Telemetry.LogLines
