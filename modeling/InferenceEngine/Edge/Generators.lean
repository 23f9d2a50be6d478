import InferenceEngine.Inference.Types
import InferenceEngine.Lib.Prog

/-!
# Edge.Generators

The response generators of the three streaming edges: OpenAI `_sse` (`api/openai_router.py`),
Anthropic `_sse` (`api/anthropic_router.py`) and gRPC `Generate` with `_stream` and
`_drain_and_finish` (`grpc/server.py`).

Every place where the world takes part is an operation: a yield (the transport pulls again, or
throws `GeneratorExit` in when it closes or drops the generator), an await (which returns, raises,
or is cancelled), a call of another component. `_sse` is a generator that the handler creates after
`start_generation` has returned; whether the transport pulls it at all is the operation `opened`,
and an unstarted generator that is dropped runs nothing. `Generate` starts the generation itself and
pulls `_stream` at once.

The stream delivers the tokens of a `Script` and then ends as the script says. The interval of the
progress feed is the operation `intervalPassed`. Log lines are left out, and so are the id and the
model name in the frames.
-/

namespace InferenceEngine

open Effect

/-- `FinishReason` is a `StrEnum`. -/
def FinishReason.value : FinishReason → String
  | .stop => "stop"
  | .length => "length"
  | .cancelled => "cancelled"
  | .error => "error"

namespace Edge

/-- One `data:` line of the OpenAI edge. -/
inductive OpenAIFrame where
  | chunk (role content finishReason : Option String)
  | error (message type : String)
  | done
  deriving DecidableEq, Repr

/-- One event of the Anthropic edge. -/
inductive AnthropicFrame where
  | messageStart (inputTokens : Int)
  | contentBlockStart
  | ping
  | contentBlockDelta (text : String)
  | contentBlockStop
  | messageDelta (stopReason : String) (outputTokens : Int)
  | messageStop
  | error (type message : String)
  deriving DecidableEq, Repr

inductive GenerateChunk where
  | text (text : String)
  | done (finishReason : String) (promptTokens completionTokens : Int)
  deriving DecidableEq, Repr

inductive Frame where
  | openai (f : OpenAIFrame)
  | anthropic (f : AnthropicFrame)
  | grpc (c : GenerateChunk)
  deriving DecidableEq, Repr

inductive Op where
  /-- `await start_generation(...)` -/
  | start
  /-- does the transport pull the response? -/
  | opened
  | yield (f : Frame)
  /-- `await stream.__anext__()` -/
  | anext
  | intervalPassed
  /-- `telemetry.request_progress` -/
  | progress (tokens : Nat)
  /-- `stream.result` -/
  | result
  /-- `await stream.aclose()` -/
  | aclose
  /-- `finish_generation(served, error=error)` -/
  | finish (error : Option Exc)
  /-- `await context.abort(...)` -/
  | abort
  /-- `async with self._lock` of a handler -/
  | lock
  /-- `close_all` gets to a handler that is still tracked -/
  | closeAll
  deriving DecidableEq, Repr

def Op.Res : Op → Type
  | .opened | .intervalPassed => Bool
  | .result | .finish _ => Option GenerationResult
  | _ => Unit

def Op.isYield : Op → Bool
  | .yield _ => true
  | _ => false

abbrev EdgeProg := Prog Op Op.Res Exc

abbrev EdgeEvent := Event Op Op.Res Exc

abbrev EdgeEnv := Env Op Op.Res Exc

structure Script where
  tokens : List String
  fin : Option Exc
  promptTokens : Int
  knownModel : Bool
  deriving DecidableEq, Repr

open Prog

def start : EdgeProg Unit := call Op.start

def opened : EdgeProg Bool := call Op.opened

def yield (f : Frame) : EdgeProg Unit := call (Op.yield f)

def anext : EdgeProg Unit := call Op.anext

def intervalPassed : EdgeProg Bool := call Op.intervalPassed

def progress (tokens : Nat) : EdgeProg Unit := call (Op.progress tokens)

def result : EdgeProg (Option GenerationResult) := call Op.result

def aclose : EdgeProg Unit := call Op.aclose

def finishGeneration (error : Option Exc) : EdgeProg (Option GenerationResult) :=
  call (Op.finish error)

def abort : EdgeProg Unit := call Op.abort

def lock : EdgeProg Unit := call Op.lock

def closeAll : EdgeProg Unit := call Op.closeAll

/-- `async for token in stream`; the value is the number of tokens. -/
def asyncFor (body : Nat → String → EdgeProg Unit) (fin : Option Exc) :
    Nat → List String → EdgeProg Nat
  | emitted, [] => do
    anext
    match fin with
    | none => pure emitted
    | some e => raise e
  | emitted, text :: rest => do
    anext
    body (emitted + 1) text
    asyncFor body fin (emitted + 1) rest

/-- At most one progress event an interval. -/
def feed (emitted : Nat) : EdgeProg Unit := do
  if ← intervalPassed then progress emitted

/-- The `finally` of `_sse`: `finish_generation` stands in an inner `finally`. -/
def close (error : Option Exc) : EdgeProg Unit :=
  tryFinally aclose (finishGeneration error)

/-- The frame of both `_sse`: `try: body except Exception: handler finally: close`. -/
def sse (body : EdgeProg Unit) (handler : EdgeProg Unit) : EdgeProg Unit := do
  let r ← body.attempt
  match r with
  | .ok () => close none
  | .error e =>
    -- `GeneratorExit` and `CancelledError` pass the `except Exception`
    if e.isException then tryFinally handler (close (some e))
    else tryFinally (raise e) (close none)

/-- `_finish_reason` -/
def finishReason : FinishReason → String
  | .length => "length"
  | _ => "stop"

/-- `_sse` of the OpenAI edge. -/
def openaiSse (s : Script) : EdgeProg Unit :=
  sse
    (do
      yield (.openai (.chunk (some "assistant") none none))
      let _ ← asyncFor (fun emitted text => do
        yield (.openai (.chunk none (some text) none))
        feed emitted) s.fin 0 s.tokens
      let result ← result
      let finish := (result.map fun r => finishReason r.finishReason).getD "stop"
      yield (.openai (.chunk none none (some finish)))
      yield (.openai .done))
    (do
      yield (.openai (.error "generation failed" "server_error"))
      yield (.openai .done))

/-- `_stop_reason` -/
def stopReason : FinishReason → String
  | .length => "max_tokens"
  | _ => "end_turn"

/-- `_sse` of the Anthropic edge. -/
def anthropicSse (s : Script) : EdgeProg Unit :=
  sse
    (do
      yield (.anthropic (.messageStart s.promptTokens))
      yield (.anthropic .contentBlockStart)
      yield (.anthropic .ping)
      let emitted ← asyncFor (fun emitted text => do
        yield (.anthropic (.contentBlockDelta text))
        feed emitted) s.fin 0 s.tokens
      let result ← result
      yield (.anthropic .contentBlockStop)
      let reason := (result.map fun r => stopReason r.finishReason).getD "end_turn"
      let outputTokens : Int := (result.map (·.completionTokens)).getD emitted
      yield (.anthropic (.messageDelta reason outputTokens))
      yield (.anthropic .messageStop))
    (yield (.anthropic (.error "api_error" "generation failed")))

/-- A handler that answers with a generator: the generation is started before there is anything for
the transport to pull. -/
def streamingResponse (generator : EdgeProg Unit) : EdgeProg Unit := do
  start
  if ← opened then generator

/-- `_drain_and_finish` -/
def drainAndFinish (error : Option Exc) : EdgeProg (Option GenerationResult) := do
  let r ← aclose.attempt
  match r with
  | .ok () => finishGeneration error
  | .error e =>
    if e.isException then finishGeneration error
    else
      -- the close was interrupted: the request is finished, and the interruption goes on
      let f ← (finishGeneration error).attempt
      match f with
      | .ok _ => raise e
      | .error e' => if e'.isException then raise e else raise e'

/-- `_stream` after its loop. -/
def streamEnd (error : Option Exc) : EdgeProg Unit := do
  let result ← drainAndFinish error
  if error.isSome then
    abort
  yield (.grpc (.done ((result.map fun r => r.finishReason.value).getD "stop")
    ((result.map (·.promptTokens)).getD 0) ((result.map (·.completionTokens)).getD 0)))

/-- `_stream` -/
def stream (s : Script) : EdgeProg Unit := do
  let r ← (asyncFor (fun _ text => yield (.grpc (.text text))) s.fin 0 s.tokens).attempt
  match r with
  | .ok _ => streamEnd none
  | .error (.generationFailed m) => streamEnd (some (.generationFailed m))
  | .error e => do
    -- a client that went away
    let _ ← drainAndFinish none
    raise e

/-- `aclose()` of a generator that is suspended at a yield. -/
def closeGenerator (rest : Exc → EdgeProg Unit) : EdgeProg Unit := do
  let r ← (rest .generatorExit).attempt
  match r with
  | .ok () | .error .generatorExit => pure ()
  | .error e => raise e

/-- `handlers.close(handler)`, where `_stream` has ended or is left suspended. An interruption
leaves the handler tracked, and `close_all` closes its stream. -/
def handlersClose (suspended : Option (Exc → EdgeProg Unit)) : EdgeProg Unit := do
  let r ← lock.attempt
  match r, suspended with
  | .ok (), none => pure ()
  | .ok (), some rest => closeGenerator rest
  | .error e, none => raise e
  | .error e, some rest => do
    let _ ← closeAll.attempt
    let _ ← (closeGenerator rest).attempt
    raise e

/-- `_generate` from `start_generation_core` on. -/
def startStream (s : Script) : EdgeProg Unit := do
  let r ← start.attempt
  match r with
  | .ok () => stream s
  | .error (.saturated _) | .error (.edge _) | .error (.backendNotReady _)
  | .error (.featureUnsupported _) => abort
  | .error e => raise e

/-- `Generate`: what `_generate` and `_stream` yield is yielded again, and in the end the handler is
closed. -/
def generate (s : Script) : EdgeProg Unit := do
  let r ← relay Op.isYield do
    if !s.knownModel then
      abort
    startStream s
  match r with
  | .ended r => tryFinally (ofExcept r) (handlersClose none)
  | .thrown e rest => tryFinally (raise e) (handlersClose (some rest))

inductive Dialect where
  | openai
  | anthropic
  | grpc
  deriving DecidableEq, Repr

/-- One streamed request on an edge. -/
def request : Dialect → Script → EdgeProg Unit
  | .openai, s => streamingResponse (openaiSse s)
  | .anthropic, s => streamingResponse (anthropicSse s)
  | .grpc, s => generate s

end Edge
end InferenceEngine
