import InferenceEngine.Inference.StreamClose

/-!
# Inference.Threaded

`ThreadedBackend` (`inference/threaded.py`) with the hooks of `LlamaCppBackend`
(`inference/llamacpp.py`): one model, one generation at a time.

`load` and `unload` are coroutines that suspend at their awaits, so several calls of each may be
under way (`loads`, `unloads`); their blocking hooks run in the executor and end in any order.
`generate` and `_on_generation_done` run on the event loop without a suspension. Every stream ever
started stays in `streams`; its events are those of `Inference.Stream`.

* `_load` sets `_llm` when it returns and leaves it alone when it raises; `_unload` clears it.
* A hook submitted to the executor and not yet begun is dropped when the task that awaits it is
  cancelled; one that has begun goes on.
* `_count_prompt_tokens` raises without a resident model, and may raise with one.
* The worker thread of a new stream may fail to start (`RuntimeError`).
-/

namespace InferenceEngine

inductive LoadTask where
  | hook
  | hookDone (ok : Bool)
  /-- cancelled, with its hook still in the executor -/
  | orphan
  | ended
  deriving DecidableEq, Repr

inductive UnloadTask where
  /-- inside `await active.aclose()`, in the join -/
  | closing (i : Nat)
  | pending
  | running
  | hookDone
  /-- cancelled, with `_unload` running -/
  | orphan
  | ended
  deriving DecidableEq, Repr

def UnloadTask.outstanding : UnloadTask → Bool
  | .pending | .running | .orphan => true
  | _ => false

def UnloadTask.inHook : UnloadTask → Bool
  | .running | .orphan => true
  | _ => false

structure ThreadedBackend where
  state : BackendState
  active : Option Nat
  /-- `_llm is not None` -/
  llm : Bool
  streams : List Stream
  loads : List LoadTask
  unloads : List UnloadTask
  deriving DecidableEq, Repr

/-- What `generate` meets: the producer, the prompt's tokens (`none` when counting them raises) and
whether the worker thread starts. -/
structure GenerateCall where
  producer : Producer
  promptTokens : Option Nat
  threadStarts : Bool := true
  deriving DecidableEq, Repr

namespace ThreadedBackend

def init : ThreadedBackend where
  state := .unloaded
  active := none
  llm := false
  streams := []
  loads := []
  unloads := []

/-- `load` up to its await: `some e` when it raises, nothing when it returns or suspends. -/
def load (b : ThreadedBackend) : Option Exc × ThreadedBackend :=
  if b.state = .ready ∨ b.state = .generating then (none, b)
  else if b.state = .loading then (some (.backendBusy "model is already loading"), b)
  else
    (none, { b with
      state := .loading
      loads := b.loads ++ [.hook] })

/-- `unload` from its state check on, up to the await of the hook. -/
def unloadCheck (b : ThreadedBackend) : UnloadTask :=
  if b.state = .unloaded then .ended else .pending

def unload (b : ThreadedBackend) : ThreadedBackend :=
  match b.active with
  | none => { b with unloads := b.unloads ++ [b.unloadCheck] }
  | some i =>
    match b.streams[i]? with
    | none => b
    | some s =>
      if s.closed then
        -- `aclose` returns at once
        { b with
          active := none
          unloads := b.unloads ++ [b.unloadCheck] }
      else
        { b with
          streams := b.streams.set i s.aclose
          unloads := b.unloads ++ [.closing i] }

def onGenerationDone (b : ThreadedBackend) : ThreadedBackend :=
  { b with
    active := none
    state := if b.state = .generating then .ready else b.state }

/-- Stream `i` has moved from `s` to `s'`; `on_done` is `_on_generation_done`. -/
def streamMoved (b : ThreadedBackend) (i : Nat) (s s' : Stream) : ThreadedBackend :=
  let b' := { b with streams := b.streams.set i s' }
  if s.onDoneFired = false ∧ s'.onDoneFired = true then b'.onGenerationDone else b'

/-- `generate`: the exception it raises, or the index of its stream. -/
def generate (b : ThreadedBackend) (c : GenerateCall) : Except Exc Nat × ThreadedBackend :=
  if b.state = .generating then
    (.error (.backendBusy "a generation is already in progress"), b)
  else if b.state ≠ .ready then
    (.error (.backendNotReady "no model is ready to generate"), b)
  else
    let b' := { b with state := .generating }
    match (if b.llm then c.promptTokens else none) with
    | none => (.error (.other "prompt tokens"), { b' with state := .ready })
    | some n =>
      if c.threadStarts then
        (.ok b.streams.length, { b' with
          streams := b.streams ++ [.init c.producer n]
          active := some b.streams.length })
      else (.error (.other "can't start new thread"), b')

def unloadCloses (b : ThreadedBackend) (i : Nat) : Prop := .closing i ∈ b.unloads

instance (b : ThreadedBackend) (i : Nat) : Decidable (b.unloadCloses i) :=
  inferInstanceAs (Decidable (_ ∈ b.unloads))

/-- An event of a stream that is a step of its worker, of the event loop, or of the request that
reads and closes it. -/
def streamEv (b : ThreadedBackend) (i : Nat) (e : Stream.Ev) : Option ThreadedBackend :=
  match b.streams[i]? with
  | none => none
  | some s =>
    match e with
    | .acloseResume _ | .acloseCancel =>
      if b.unloadCloses i then none else (s.step e).map (b.streamMoved i s)
    | _ => (s.step e).map (b.streamMoved i s)

inductive Ev where
  | load
  | loadHook (k : Nat) (ok : Bool)
  | loadResume (k : Nat)
  | loadCancel (k : Nat)
  | unload
  /-- unload `u` comes back from the join of its `aclose` -/
  | unloadClosed (u : Nat) (timedOut : Bool)
  | unloadHookStart (u : Nat)
  | unloadHook (u : Nat) (ok : Bool)
  | unloadResume (u : Nat)
  | unloadCancel (u : Nat)
  | generate (c : GenerateCall)
  | stream (i : Nat) (e : Stream.Ev)
  deriving DecidableEq, Repr

def step (b : ThreadedBackend) : Ev → Option ThreadedBackend
  | .load => some b.load.2
  | .loadHook k ok =>
    match b.loads[k]? with
    | some .hook =>
      some { b with
        llm := b.llm || ok
        loads := b.loads.set k (.hookDone ok) }
    | some .orphan =>
      some { b with
        llm := b.llm || ok
        loads := b.loads.set k .ended }
    | _ => none
  | .loadResume k =>
    match b.loads[k]? with
    | some (.hookDone ok) =>
      some { b with
        state := if ok then .ready else .unloaded
        loads := b.loads.set k .ended }
    | _ => none
  | .loadCancel k =>
    match b.loads[k]? with
    | some .hook => some { b with loads := b.loads.set k .orphan }
    | some (.hookDone _) => some { b with loads := b.loads.set k .ended }
    | _ => none
  | .unload => some b.unload
  | .unloadClosed u timedOut =>
    match b.unloads[u]? with
    | some (.closing i) =>
      match b.streams[i]? with
      | none => none
      | some s =>
        (s.step (.acloseResume timedOut)).map fun s' =>
          let b' := b.streamMoved i s s'
          { b' with
            active := none
            unloads := b'.unloads.set u b'.unloadCheck }
    | _ => none
  | .unloadHookStart u =>
    match b.unloads[u]? with
    | some .pending => some { b with unloads := b.unloads.set u .running }
    | _ => none
  | .unloadHook u ok =>
    match b.unloads[u]? with
    | some .running =>
      some { b with
        llm := b.llm && !ok
        unloads := b.unloads.set u .hookDone }
    | some .orphan =>
      some { b with
        llm := b.llm && !ok
        unloads := b.unloads.set u .ended }
    | _ => none
  | .unloadResume u =>
    match b.unloads[u]? with
    | some .hookDone =>
      some { b with
        state := .unloaded
        unloads := b.unloads.set u .ended }
    | _ => none
  | .unloadCancel u =>
    match b.unloads[u]? with
    | some (.closing i) =>
      match b.streams[i]? with
      | none => none
      | some s =>
        (s.step .acloseCancel).map fun s' =>
          let b' := b.streamMoved i s s'
          { b' with unloads := b'.unloads.set u .ended }
    | some .pending =>
      some { b with
        state := .unloaded
        unloads := b.unloads.set u .ended }
    | some .running =>
      some { b with
        state := .unloaded
        unloads := b.unloads.set u .orphan }
    | some .hookDone =>
      some { b with
        state := .unloaded
        unloads := b.unloads.set u .ended }
    | _ => none
  | .generate c => some (b.generate c).2
  | .stream i e => b.streamEv i e

variable {b b' : ThreadedBackend}

theorem streamEv_cases {i : Nat} {e : Stream.Ev} (h : b.streamEv i e = some b') :
    ∃ s s', b.streams[i]? = some s ∧ s.step e = some s' ∧ b' = b.streamMoved i s s' := by
  simp only [streamEv] at h
  cases hi : b.streams[i]? with
  | none => simp [hi] at h
  | some s =>
    have key : (s.step e).map (b.streamMoved i s) = some b' →
        ∃ r s', some s = some r ∧ r.step e = some s' ∧ b' = b.streamMoved i r s' := by
      intro h
      simp only [Option.map_eq_some_iff] at h
      obtain ⟨s', hs', rfl⟩ := h
      exact ⟨s, s', rfl, hs', rfl⟩
    simp only [hi] at h
    split at h
    · split at h
      · cases h
      · exact key h
    · split at h
      · cases h
      · exact key h
    · exact key h

@[simp] theorem streamMoved_streams (b : ThreadedBackend) (i : Nat) (s s' : Stream) :
    (b.streamMoved i s s').streams = b.streams.set i s' := by
  simp only [streamMoved]
  split <;> rfl

@[simp] theorem streamMoved_unloads (b : ThreadedBackend) (i : Nat) (s s' : Stream) :
    (b.streamMoved i s s').unloads = b.unloads := by
  simp only [streamMoved]
  split <;> rfl

end ThreadedBackend
end InferenceEngine
