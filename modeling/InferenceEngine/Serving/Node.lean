import InferenceEngine.Serving.Balance
import InferenceEngine.Inference.ThreadedWorkers

/-!
# Serving.Node

The application with a `ThreadedBackend` behind one of its registry entries, and the edges that read
the streams of that backend.

An `App` step that places a request on the entry calls the backend's `generate`; whether it did is
read off the end of the call (`App.ranGenerate`). A request placed there is read by its edge, which
in its `finally` awaits `stream.aclose()` and, with no further await, calls `finish_generation`:
after the `aclose` has returned (`closed`), or when its await is cancelled (`closeCancelled`). The
edge that does not stream finishes a request without closing its stream once `collect` has returned
(`collected`). The model stays loaded: there are no loads and unloads, so nobody but its edge closes
a stream.
-/

namespace InferenceEngine

def Stream.Ev.ofWorker : Stream.Ev → Bool
  | .work | .stopEarly _ | .closeRaises _ | .callback => true
  | _ => false

/-- The events of the edge up to the await in its `finally`. -/
def Stream.Ev.ofEdge : Stream.Ev → Bool
  | .anext | .getResume | .anextCancel | .aclose => true
  | _ => false

def ThreadedBackend.loaded : ThreadedBackend where
  state := .ready
  active := none
  llm := true
  streams := []
  loads := [.ended]
  unloads := []

example : Lts.exec ThreadedBackend.step .init [.load, .loadHook 0 true, .loadResume 0] =
    some .loaded := by decide

namespace App

def ranGenerate (s s' : App) (i : Nat) : Bool :=
  match s'.ends.drop s.ends.length with
  | [.returned n] => s'.served[n]?.any fun v => v.registryLease.entry == i
  | [.generateRaised j _] => j == i
  | _ => false

def Ev.withGenerate (i : Nat) (r : Except Exc Nat) : Ev → Ev
  | .start c ans now gen => .start c ans now fun j => if j = i then r else gen j
  | .resume k now gen => .resume k now fun j => if j = i then r else gen j
  | e => e

def finishesOn (s : App) (i : Nat) : Ev → Bool
  | .finish n _ => s.served[n]?.any fun v => v.registryLease.entry == i
  | _ => false

end App

structure NodeConfig where
  app : AppConfig
  /-- the entry of the `ThreadedBackend` -/
  entry : Nat
  capabilities : Capabilities
  maxInFlight : app.entries[entry]?.map (·.maxInFlight) = some 1

structure Node where
  app : App
  backend : ThreadedBackend

structure EdgeFinish where
  error : Option Exc := none
  recordExc : Option Exc := none
  ts : ℚ := 0

/-- `finish_generation` reads the result and the backpressure count off the stream. -/
def EdgeFinish.call (f : EdgeFinish) (s : Stream) : App.FinishCall where
  result := s.result
  backpressureWaits := s.backpressureWaits
  error := f.error
  recordExc := f.recordExc
  ts := f.ts

namespace Node

def sync (cfg : NodeConfig) (s : Node) : Node :=
  let available := (s.app.registry.entries[cfg.entry]?.map (·.available)).getD true
  { s with app := { s.app with
      registry := s.app.registry.refresh cfg.entry (some ⟨s.backend.state, cfg.capabilities⟩)
        available } }

def init (cfg : NodeConfig) : Node := sync cfg ⟨.init cfg.app, .loaded⟩

inductive Ev where
  /-- an event of the application; `call` is what the backend's `generate` meets in it -/
  | app (e : App.Ev) (call : GenerateCall)
  | worker (j : Nat) (e : Stream.Ev)
  | edge (i : Nat) (e : Stream.Ev)
  /-- its `aclose` returns, and it finishes the request -/
  | closed (i : Nat) (timedOut : Bool) (f : EdgeFinish)
  /-- its task is cancelled in the await of `aclose`, and it finishes the request -/
  | closeCancelled (i : Nat) (f : EdgeFinish)
  /-- `collect` has returned, and it finishes the request -/
  | collected (i : Nat) (f : EdgeFinish)

def request (cfg : NodeConfig) (s : Node) (i : Nat) : Option (Served × Stream) :=
  match s.app.served[i]? with
  | some v =>
    if v.finished = false ∧ v.registryLease.entry = cfg.entry then
      s.backend.streams[v.stream]?.map (v, ·)
    else none
  | none => none

section Step

variable (digest : List UInt8 → Nat) (cfg : NodeConfig)

def finish (s : Node) (i : Nat) (v : Served) (b : ThreadedBackend) (f : EdgeFinish) : Option Node :=
  match b.streams[v.stream]? with
  | none => none
  | some str =>
    (s.app.step digest (.finish i (f.call str))).map fun app => sync cfg ⟨app, b⟩

def step (s : Node) : Ev → Option Node
  | .app e call =>
    if s.app.finishesOn cfg.entry e then none
    else
      let g := s.backend.generate call
      (s.app.step digest (e.withGenerate cfg.entry g.1)).map fun app =>
        sync cfg ⟨app, if s.app.ranGenerate app cfg.entry then g.2 else s.backend⟩
  | .worker j e =>
    if e.ofWorker then (s.backend.step (.stream j e)).map fun b => sync cfg { s with backend := b }
    else none
  | .edge i e =>
    match s.request cfg i with
    | none => none
    | some (v, str) =>
      -- the task of the edge is in one place at a time
      if e.ofEdge ∧ str.closed = false ∧ (e = .aclose → str.consumer ≠ .waiting) then
        (s.backend.step (.stream v.stream e)).map fun b => sync cfg { s with backend := b }
      else none
  | .closed i timedOut f =>
    match s.request cfg i with
    | none => none
    | some (v, _) =>
      match s.backend.step (.stream v.stream (.acloseResume timedOut)) with
      | none => none
      | some b => s.finish digest cfg i v b f
  | .closeCancelled i f =>
    match s.request cfg i with
    | none => none
    | some (v, _) =>
      match s.backend.step (.stream v.stream .acloseCancel) with
      | none => none
      | some b => s.finish digest cfg i v b f
  | .collected i f =>
    match s.request cfg i with
    | none => none
    | some (v, str) =>
      if str.consumer = .ended none then s.finish digest cfg i v s.backend f else none

end Step

end Node
end InferenceEngine
