import InferenceEngine.Gateway.Authorize
import InferenceEngine.Inference.Admission
import InferenceEngine.Inference.Router
import InferenceEngine.Lib.Run

/-!
# Serving.Core

The request lifecycle shared by the API edges (`api/serving.py`): `start_generation_core`
authorizes, admits, routes and starts a generation and returns a `Served`; `finish_generation`
releases what the `Served` holds and records its usage. Between the two releases and the record it
computes a cost in floats, which raises when the upstream's count of tokens has no float.

`start_generation_core` suspends in `scheduler.admit` only. It is modelled by the step from the call
to the suspension (`startGenerationCore`) and the step that goes on from there (`afterAdmit`); a
suspended call is a waiter of the scheduler that carries its access and its arguments (`Pending`).
What the chosen backend's `generate` does is an input: an exception, or the stream it returns.

`step` is the application among its requests: any number of calls, in any order, with any answers of
the stores and the backends, queue timeouts, cancellations of suspended calls, changes of the
backends' health, and one `finish_generation` for a `Served` at some time after it was returned.

The telemetry feed, the rolling rate of the counters and the timings of a result are left out: no
function here reads them.
-/

namespace InferenceEngine

structure Counters where
  requestsTotal : Nat := 0
  requestsActive : Nat := 0
  requestsErrors : Nat := 0
  promptTokens : Nat := 0
  completionTokens : Nat := 0
  deriving DecidableEq, Repr

namespace Counters

def requestStarted (c : Counters) : Counters :=
  { c with
    requestsTotal := c.requestsTotal + 1
    requestsActive := c.requestsActive + 1 }

/-- The guard `if self._requests_active > 0` is the truncated subtraction, and `max(0, n)` is
`toNat`. -/
def requestFinished (c : Counters) (promptTokens completionTokens : Int) (error : Bool) :
    Counters :=
  { c with
    requestsActive := c.requestsActive - 1
    requestsErrors := if error then c.requestsErrors + 1 else c.requestsErrors
    promptTokens := c.promptTokens + promptTokens.toNat
    completionTokens := c.completionTokens + completionTokens.toNat }

end Counters

inductive Outcome where
  | ok
  | cancelled
  | error
  deriving DecidableEq, Repr

structure RouteOutcome where
  model : String
  backend : String
  decision : RouteDecision
  queueWaitMs : ℚ
  promptTokens : Int
  completionTokens : Int
  cost : ℚ
  outcome : Outcome
  deriving DecidableEq, Repr

inductive RouteEvent where
  | shed (model : String)
  | record (r : RouteOutcome)
  deriving DecidableEq, Repr

structure GenerationCall where
  token : Option String
  endpoint : String
  modelId : String
  routeModel : String
  promptText : Utf8.Text
  maxTokens : Nat
  requestId : String
  required : List Feature := []

def GenerationCall.auth (c : GenerationCall) : AuthRequest where
  token := c.token
  promptText := c.promptText
  maxTokens := c.maxTokens
  endpoint := c.endpoint
  model := some c.modelId

structure Pending where
  access : ApiAccess
  call : GenerationCall

/-- The handle of one generation. `finished`: `finish_generation` has been called; `costFailed`: and
its cost could not be computed; `recordFailed`: and the usage store raised in it. -/
structure Served where
  access : ApiAccess
  lease : SchedulerLease
  registryLease : RegistryLease
  stream : Nat
  requestId : String
  modelId : String
  endpoint : String
  finished : Bool := false
  costFailed : Bool := false
  recordFailed : Bool := false
  deriving DecidableEq, Repr

/-- How a call of `start_generation_core` ends: it returns, raises, or passes on what
`router.acquire` or `generate` of the backend of an entry raised. -/
inductive CallEnd where
  | returned (served : Nat)
  | raised (exc : Exc)
  | acquireRaised (exc : Exc)
  | generateRaised (entry : Nat) (exc : Exc)
  deriving DecidableEq, Repr

/-- `app.state`, with every `Served` returned so far and a log of how the calls ended. -/
structure App where
  gateway : Gateway
  scheduler : Scheduler Pending
  router : Router
  registry : BackendRegistry
  counters : Counters
  routeMetrics : List RouteEvent
  prefixAffinityChars : Nat
  served : List Served
  ends : List CallEnd

structure AppConfig where
  gateway : GatewaySettings
  scheduler : SchedulerConfig
  router : Router := {}
  entries : List BackendEntry
  prefixAffinityChars : Nat := 0
  idle : ∀ e ∈ entries, e.inFlight = 0

namespace App

def init (cfg : AppConfig) : App where
  gateway := .init cfg.gateway
  scheduler := .init cfg.scheduler
  router := cfg.router
  registry := .ofEntries cfg.entries
  counters := {}
  routeMetrics := []
  prefixAffinityChars := cfg.prefixAffinityChars
  served := []
  ends := []

/-- The call ends. -/
def ended (s : App) (e : CallEnd) : App := { s with ends := s.ends ++ [e] }

/-- `access.abort()`. -/
def abort (s : App) (a : ApiAccess) : App := { s with gateway := (a.abort s.gateway).2 }

/-- `lease.release()` of a lease just issued. -/
def releaseLease (s : App) (l : SchedulerLease) : App :=
  { s with scheduler := (l.release s.scheduler false).2 }

/-- `route_metrics.record_shed`. -/
def recordShed (s : App) (model : String) : App :=
  { s with routeMetrics := s.routeMetrics ++ [.shed model] }

/-- The prefix that placement goes by, when prefix affinity is on. -/
def prefixKey (s : App) (c : GenerationCall) : Option Utf8.Text :=
  if 0 < s.prefixAffinityChars then some (c.promptText.take s.prefixAffinityChars) else none

/-- The name of the entry a lease is on. -/
def entryName (s : App) (rl : RegistryLease) : String :=
  (s.registry.entries[rl.entry]?.map (·.name)).getD ""

/-- `backend.generate` raised, after the route was selected. -/
def generateFailed (s : App) (p : Pending) (l : SchedulerLease) (rl : RegistryLease) : App :=
  let recorded : App := { s with
    routeMetrics := s.routeMetrics ++ [.record
      { model := p.call.modelId
        backend := s.entryName rl
        decision := rl.decision
        queueWaitMs := l.waitedS * 1000
        promptTokens := 0
        completionTokens := 0
        cost := 0
        outcome := .error }]
    registry := (rl.release s.registry).2 }
  let released := (recorded.releaseLease l).abort p.access
  { released with counters := released.counters.requestFinished 0 0 true }

section Serve

variable (digest : List UInt8 → Nat)

/-- `start_generation_core` from the lease on; `gen i` is what `generate` of entry `i`'s backend
does. -/
def place (s : App) (p : Pending) (waitedS : ℚ) (gen : Nat → Except Exc Nat) : App :=
  let l : SchedulerLease := ⟨waitedS, false⟩
  match s.router.acquire digest s.registry p.call.routeModel
    (s.prefixKey p.call) p.call.required with
  | .error (.featureUnsupported features _) =>
    -- a request error, not a capacity shed
    ((s.releaseLease l).abort p.access).ended
      (.raised (.featureUnsupported (features.map Feature.name)))
  | .error (.noBackend reason) =>
    (((s.releaseLease l).abort p.access).recordShed p.call.routeModel).ended
      (match reason with
      | .busy => .raised (.saturated ⟨.allBackendsBusy, 1⟩)
      | .unloaded => .raised (.backendNotReady "no backend is ready to generate"))
  -- neither `except` clause sees a `UnicodeEncodeError`, so nothing is given back
  | .error .unicodeEncode => s.ended (.acquireRaised (.other "surrogates not allowed"))
  | .ok (rl, registry) =>
    let started : App := { s with
      registry := registry
      counters := s.counters.requestStarted }
    match gen rl.entry with
    | .error exc => (started.generateFailed p l rl).ended (.generateRaised rl.entry exc)
    | .ok stream =>
      let v : Served :=
        { access := p.access
          lease := l
          registryLease := rl
          stream := stream
          requestId := p.call.requestId
          modelId := p.call.modelId
          endpoint := p.call.endpoint }
      { started with served := s.served ++ [v] }.ended (.returned s.served.length)

/-- `start_generation_core` from the end, or the suspension, of `admit` on. -/
def afterAdmit (s : App) (p : Pending) (gen : Nat → Except Exc Nat) : Admission → App
  | .suspended => s
  | .saturated exc =>
    ((s.abort p.access).recordShed p.call.routeModel).ended (.raised (.saturated exc))
  -- `except SchedulerSaturated` does not see a `CancelledError`
  | .cancelled => s.ended (.raised .cancelledError)
  | .lease waitedS => s.place digest p waitedS gen

/-- `start_generation_core` from the call on. -/
def startGenerationCore (s : App) (c : GenerationCall) (ans : AuthAnswers) (now : ℚ)
    (gen : Nat → Except Exc Nat) : App :=
  let auth := s.gateway.authorizeToken c.auth ans
  let s' : App := { s with gateway := auth.2 }
  match auth.1 with
  | .error exc => s'.ended (.raised exc)
  | .ok access =>
    let p : Pending := ⟨access, c⟩
    let adm := s.scheduler.admitStart p now
    { s' with scheduler := adm.2 }.afterAdmit digest p gen adm.1

end Serve

structure FinishCall where
  result : Option GenerationResult
  backpressureWaits : Nat
  error : Option Exc
  recordExc : Option Exc
  ts : ℚ
  deriving DecidableEq, Repr

/-- A disconnect leaves no error, with a cancelled result or none. -/
def FinishCall.cancelled (f : FinishCall) : Bool :=
  f.error.isNone && f.result.all fun r => r.finishReason == .cancelled

def FinishCall.outcome (f : FinishCall) : Outcome :=
  if f.cancelled then .cancelled else if f.error.isSome then .error else .ok

/-- Has the integer a float? From halfway between the largest one and 2 ^ 1024 on, `float(n)` raises
`OverflowError`. -/
def hasFloat (n : Int) : Bool := n.natAbs < 2 ^ 1024 - 2 ^ 970

/-- The cost can be computed: the counts have floats. -/
def FinishCall.priced (f : FinishCall) : Bool :=
  f.result.all fun r => hasFloat r.promptTokens && hasFloat r.completionTokens

/-- `finish_generation`: the exception it raises, and what it leaves. -/
def finishGeneration (s : App) (v : Served) (f : FinishCall) : Option Exc × Served × App :=
  let noted := if 0 < f.backpressureWaits then s.scheduler.noteSlowConsumer f.backpressureWaits
    else s.scheduler
  let lease := v.lease.release noted f.cancelled
  let rlease := v.registryLease.release s.registry
  let promptTokens := (f.result.map (·.promptTokens)).getD 0
  let completionTokens := (f.result.map (·.completionTokens)).getD 0
  let entry := s.registry.entries[v.registryLease.entry]?
  let cost (per1k : BackendEntry → ℚ) (tokens : Int) : ℚ :=
    tokens / 1000 * ((entry.map per1k).getD 0)
  let v' : Served := { v with
    lease := lease.1
    registryLease := rlease.1
    finished := true }
  let s' : App := { s with
    scheduler := lease.2
    registry := rlease.2 }
  -- what follows an exception in the source is not executed
  if !f.priced then (some (.other "int too large to convert to float"),
    { v' with costFailed := true }, s')
  else
    let fin := v.access.finalize s.gateway
      { ts := f.ts
        requestId := v.requestId
        model := some v.modelId
        promptTokens := promptTokens
        completionTokens := completionTokens
        status := if f.error.isSome then 500 else 200 } f.recordExc
    let v' : Served := { v' with
      access := fin.2.1
      recordFailed := fin.1.isSome }
    let s' : App := { s' with
      gateway := fin.2.2
      routeMetrics := s.routeMetrics ++ [.record
        { model := v.modelId
          backend := s.entryName v.registryLease
          decision := v.registryLease.decision
          queueWaitMs := v.lease.waitedS * 1000
          promptTokens := promptTokens
          completionTokens := completionTokens
          cost := cost (·.costPer1kInput) promptTokens + cost (·.costPer1kOutput) completionTokens
          outcome := f.outcome }] }
    match fin.1 with
    | some exc => (some exc, v', s')
    | none =>
      (none, v', { s' with
        counters := s'.counters.requestFinished promptTokens completionTokens f.error.isSome })

inductive Ev where
  | start (c : GenerationCall) (ans : AuthAnswers) (now : ℚ) (gen : Nat → Except Exc Nat)
  /-- suspended call `k` runs again -/
  | resume (k : Nat) (now : ℚ) (gen : Nat → Except Exc Nat)
  /-- its queue timer fires, or its task is cancelled -/
  | interrupt (k : Nat) (i : Interrupt)
  | finish (i : Nat) (f : FinishCall)
  /-- the backend behind entry `i` or its health flag has changed -/
  | refresh (i : Nat) (backend : Option BackendView) (available : Bool)
  | beginDrain

def step (digest : List UInt8 → Nat) (s : App) : Ev → Option App
  | .start c ans now gen => some (s.startGenerationCore digest c ans now gen)
  | .resume k now gen =>
    match s.scheduler.admitResume k now with
    | none => none
    | some (p, adm, sched) => some ({ s with scheduler := sched }.afterAdmit digest p gen adm)
  | .interrupt k i => (s.scheduler.interrupt k i).map fun sched => { s with scheduler := sched }
  | .finish i f =>
    match s.served[i]? with
    | some v =>
      if v.finished then none
      else
        let r := s.finishGeneration v f
        some { r.2.2 with served := s.served.set i r.2.1 }
    | none => none
  | .refresh i backend available =>
    some { s with registry := s.registry.refresh i backend available }
  | .beginDrain => some { s with scheduler := s.scheduler.beginDrain }

end App
end InferenceEngine
