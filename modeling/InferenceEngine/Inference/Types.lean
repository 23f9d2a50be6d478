import Mathlib.Data.Rat.Defs
import Mathlib.Data.Finset.Basic

/-!
# Inference.Types

The generation types shared by the backends, the scheduler and the edges (`inference/types.py`),
and the exceptions that travel between them. Python's `asyncio.CancelledError` and
`GeneratorExit` are `BaseException`s, so an `except Exception` clause does not see them
(`Exc.isException`). Times are exact rationals.
-/

namespace InferenceEngine

inductive BackendState where
  | unloaded
  | loading
  | ready
  | generating
  | failed
  deriving DecidableEq, Repr

/-- `BackendState` is a `StrEnum`. -/
def BackendState.value : BackendState → String
  | .unloaded => "unloaded"
  | .loading => "loading"
  | .ready => "ready"
  | .generating => "generating"
  | .failed => "failed"

inductive FinishReason where
  | stop
  | length
  | cancelled
  | error
  deriving DecidableEq, Repr

inductive SaturatedReason where
  | draining
  | queueFull
  | queueTimeout
  | allBackendsBusy
  deriving DecidableEq, Repr

structure SchedulerSaturated where
  reason : SaturatedReason
  retryAfterS : Nat
  deriving DecidableEq, Repr

/-- An error already shaped for a client (`OpenAIError`). -/
structure EdgeError where
  message : String
  statusCode : Nat
  type : String := "invalid_request_error"
  code : String
  /-- the `retry-after` header -/
  retryAfterS : Option Int := none
  deriving DecidableEq, Repr

inductive Exc where
  | edge (e : EdgeError)
  /-- What the edge makes of a `SchedulerSaturated` (`on_saturated`). -/
  | saturated (exc : SchedulerSaturated)
  | backendNotReady (message : String)
  | backendBusy (message : String)
  | generationFailed (message : String)
  | modelLoad (message : String)
  | featureUnsupported (features : List String)
  /-- Any other `Exception`: a locked database, a failed assertion, an interpreter limit. -/
  | other (message : String)
  /-- `asyncio.CancelledError`. -/
  | cancelledError
  | generatorExit
  deriving DecidableEq, Repr

/-- Is it an `Exception`, the class an `except Exception` clause catches? -/
def Exc.isException : Exc → Bool
  | .cancelledError | .generatorExit => false
  | _ => true

/-- The terminal result of a generation, without its timings. A remote backend takes the counts from
its upstream, negative ones included. -/
structure GenerationResult where
  text : String
  finishReason : FinishReason
  promptTokens : Int
  completionTokens : Int
  deriving DecidableEq, Repr

structure GenerationChunk where
  text : String
  index : Nat
  deriving DecidableEq, Repr

end InferenceEngine
