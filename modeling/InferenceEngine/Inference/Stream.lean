import InferenceEngine.Inference.Types
import InferenceEngine.Lib.Run

/-!
# Inference.Stream

`QueueGenerationStream` (`inference/stream.py`): a worker thread runs a blocking token producer and
hands its items to the event loop, which puts them on a bounded queue that the consumer reads.

Four parties move, in any order:

* the worker (`_run`), one program point at a time (`Worker`), with a `threading.Semaphore` of
  `maxsize` permits (`cap`) that it takes before it asks for a token;
* the event loop, which runs the callbacks the worker sent with `call_soon_threadsafe`, in the order
  they were sent (`chan`): `put_nowait` of an item, and at the end `_fire_on_done`;
* the consumer (`__anext__`), which takes items off the queue and gives their permits back;
* whoever calls `aclose`.

A terminal item takes no permit. `put_nowait` on a full queue raises inside the callback and the
item is lost (`dropped`). The consumer's step from the wake-up to the return of `__anext__` is
atomic: no other callback runs in between, and the worker shares only the semaphore with it. The
join inside `_finish` blocks that step for at most its timeout and changes nothing. The loop is not
closed while the stream lives.

Ghost fields, for statements only: `received`, `terminals`, `dropped`, `onDone`.
-/

namespace InferenceEngine

/-- How a token generator ends: it returns (a `FinishReason` or nothing), or raises. -/
inductive ProducerEnd where
  | returned (reason : Option FinishReason)
  | raised (exc : Exc)
  deriving DecidableEq, Repr

/-- `_Terminal`: how the worker's loop ended. -/
structure Terminal where
  finish : FinishReason
  error : Option Exc
  deriving DecidableEq, Repr

def ProducerEnd.terminal : ProducerEnd → Terminal
  | .returned reason => ⟨reason.getD .stop, none⟩
  | .raised e => ⟨.error, some e⟩

/-- A token producer: the tokens it yields and how it ends. `onCall`: it raises when it is called,
before there is a generator. -/
structure Producer where
  tokens : List String
  fin : ProducerEnd
  onCall : Option Exc := none
  deriving DecidableEq, Repr

def Producer.terminal (p : Producer) : Terminal :=
  match p.onCall with
  | some e => ⟨.error, some e⟩
  | none => p.fin.terminal

def Producer.yields (p : Producer) : List String :=
  match p.onCall with
  | some _ => []
  | none => p.tokens

inductive Item where
  | token (text : String)
  | terminal (t : Terminal)
  deriving DecidableEq, Repr

inductive Callback where
  | put (item : Item)
  | fireOnDone
  deriving DecidableEq, Repr

/-- Program points of `_run`. -/
inductive Worker where
  /-- calling `self._producer(self._cancel)` -/
  | start
  /-- the first `self._cancel.is_set()` of an iteration -/
  | loopTop
  /-- `self._capacity.acquire(blocking=False)` -/
  | tryAcquire
  /-- `self._capacity.acquire()` -/
  | blocked
  /-- the second `self._cancel.is_set()` -/
  | recheck
  /-- inside `next(gen)` -/
  | next
  | offer (text : String)
  /-- inside `gen.close()` -/
  | close
  | terminal (t : Terminal)
  | notify
  | ended
  deriving DecidableEq, Repr

/-- Is the thread executing the producer's code? -/
def Worker.inProducer : Worker → Bool
  | .start | .next | .close => true
  | _ => false

/-- Does the worker hold a permit for a token it has not offered yet? -/
def Worker.reserved : Worker → Nat
  | .recheck | .next | .offer _ => 1
  | _ => 0

/-- Where the consumer is: outside `__anext__`, suspended in `queue.get()`, or told that the stream
has ended (`StopAsyncIteration`, or `GenerationFailedError` from `error`). -/
inductive Consumer where
  | idle
  | waiting
  | ended (error : Option Exc)
  deriving DecidableEq, Repr

/-- The one call of `aclose` that gets past `if self._closed`. -/
inductive Closing where
  | notClosed
  /-- awaiting the join in the executor -/
  | joining
  /-- its await was cancelled -/
  | interrupted
  | done
  deriving DecidableEq, Repr

structure Stream where
  producer : Producer
  maxsize : Nat
  promptTokens : Nat
  /-- tokens `next(gen)` has still to yield -/
  script : List String
  worker : Worker
  cap : Nat
  cancel : Bool
  chan : List Callback
  queue : List Item
  backpressureWaits : Nat
  consumer : Consumer
  index : Nat
  parts : List String
  result : Option GenerationResult
  exhausted : Bool
  closing : Closing
  onDoneFired : Bool
  received : List GenerationChunk
  terminals : List Terminal
  dropped : List Item
  onDone : Nat
  deriving DecidableEq, Repr

namespace Stream

def defaultMaxsize : Nat := 64

/-- `__init__`, with the worker thread started. -/
def init (p : Producer) (promptTokens : Nat) (maxsize : Nat := defaultMaxsize) : Stream where
  producer := p
  maxsize := maxsize
  promptTokens := promptTokens
  script := p.tokens
  worker := .start
  cap := maxsize
  cancel := false
  chan := []
  queue := []
  backpressureWaits := 0
  consumer := .idle
  index := 0
  parts := []
  result := none
  exhausted := false
  closing := .notClosed
  onDoneFired := false
  received := []
  terminals := []
  dropped := []
  onDone := 0

def closed (s : Stream) : Bool := s.closing != .notClosed

/-- The producer has ended: the permit taken for its next token goes back. -/
def producerEnded (s : Stream) (e : ProducerEnd) : Stream :=
  { s with cap := s.cap + 1, worker := .terminal e.terminal }

/-- The worker's next step; `none` when it is blocked or has ended. -/
def work (s : Stream) : Option Stream :=
  match s.worker with
  | .start =>
    match s.producer.onCall with
    | some e => some { s with worker := .terminal ⟨.error, some e⟩ }
    | none => some { s with worker := .loopTop }
  | .loopTop => some { s with worker := if s.cancel then .close else .tryAcquire }
  | .tryAcquire =>
    if 0 < s.cap then some { s with cap := s.cap - 1, worker := .recheck }
    else some { s with backpressureWaits := s.backpressureWaits + 1, worker := .blocked }
  | .blocked => if 0 < s.cap then some { s with cap := s.cap - 1, worker := .recheck } else none
  | .recheck =>
    if s.cancel then some { s with cap := s.cap + 1, worker := .close }
    else some { s with worker := .next }
  | .next =>
    match s.script with
    | text :: rest => some { s with script := rest, worker := .offer text }
    | [] => some (s.producerEnded s.producer.fin)
  | .offer text => some { s with chan := s.chan ++ [.put (.token text)], worker := .loopTop }
  | .close => some { s with worker := .terminal ⟨.cancelled, none⟩ }
  | .terminal t => some { s with chan := s.chan ++ [.put (.terminal t)], worker := .notify }
  | .notify => some { s with chan := s.chan ++ [.fireOnDone], worker := .ended }
  | .ended => none

def fireOnDone (s : Stream) : Stream :=
  if s.onDoneFired then s else { s with onDoneFired := true, onDone := s.onDone + 1 }

/-- `put_nowait`: raises on a full queue, and the item is lost. -/
def putNowait (s : Stream) (item : Item) : Stream :=
  if s.queue.length < s.maxsize then { s with queue := s.queue ++ [item] }
  else { s with dropped := s.dropped ++ [item] }

def runCallback (s : Stream) : Option Stream :=
  match s.chan with
  | [] => none
  | .put item :: rest => some ({ s with chan := rest }.putNowait item)
  | .fireOnDone :: rest => some { s with chan := rest }.fireOnDone

def resultWith (s : Stream) (finish : FinishReason) : GenerationResult where
  text := String.join s.parts
  finishReason := finish
  promptTokens := s.promptTokens
  completionTokens := s.index

def finish (s : Stream) (t : Terminal) : Stream :=
  { s with
    result := s.result <|> some (s.resultWith t.finish)
    exhausted := true }.fireOnDone

/-- `__anext__` with an item from `queue.get()`. -/
def consume (s : Stream) (rest : List Item) : Item → Stream
  | .token text =>
    { s with
      queue := rest
      cap := s.cap + 1
      consumer := .idle
      index := s.index + 1
      parts := s.parts ++ [text]
      received := s.received ++ [⟨text, s.index⟩] }
  | .terminal t =>
    { s with
      queue := rest
      consumer := .ended t.error
      terminals := s.terminals ++ [t] }.finish t

def anext (s : Stream) : Option Stream :=
  match s.consumer with
  | .idle =>
    if s.exhausted then some { s with consumer := .ended none }
    else
      match s.queue with
      | item :: rest => some (s.consume rest item)
      | [] => some { s with consumer := .waiting }
  | _ => none

def getResume (s : Stream) : Option Stream :=
  match s.consumer, s.queue with
  | .waiting, item :: rest => some (s.consume rest item)
  | _, _ => none

/-- `aclose` up to its await; a second call returns at once. -/
def aclose (s : Stream) : Stream :=
  if s.closed then s else { s with closing := .joining, cancel := true, cap := s.cap + 1 }

/-- The rest of `aclose`, after the join. The join returns when the thread has ended, or after its
timeout. -/
def acloseResume (s : Stream) (timedOut : Bool) : Option Stream :=
  if s.closing = .joining ∧ (timedOut = true ∨ s.worker = .ended) then
    some { s with
      closing := .done
      result := s.result <|> some (s.resultWith .cancelled)
      exhausted := true }.fireOnDone
  else none

inductive Ev where
  | work
  /-- the producer, inside `next(gen)`, notices the cancellation and ends early -/
  | stopEarly (e : ProducerEnd)
  | closeRaises (e : Exc)
  | callback
  | anext
  | getResume
  /-- the consumer's task is cancelled while suspended in `queue.get()` -/
  | anextCancel
  | aclose
  | acloseResume (timedOut : Bool)
  /-- the task awaiting the join is cancelled -/
  | acloseCancel
  deriving DecidableEq, Repr

def step (s : Stream) : Ev → Option Stream
  | .work => s.work
  | .stopEarly e =>
    if s.worker = .next ∧ s.cancel = true then some (s.producerEnded e) else none
  | .closeRaises e =>
    if s.worker = .close then some { s with worker := .terminal ⟨.error, some e⟩ } else none
  | .callback => s.runCallback
  | .anext => s.anext
  | .getResume => s.getResume
  | .anextCancel => if s.consumer = .waiting then some { s with consumer := .idle } else none
  | .aclose => some s.aclose
  | .acloseResume timedOut => s.acloseResume timedOut
  | .acloseCancel => if s.closing = .joining then some { s with closing := .interrupted } else none

variable {s s' : Stream}

inductive Works (s : Stream) : Stream → Prop
  | startFails (e : Exc) (hw : s.worker = .start) (h : s.producer.onCall = some e) :
    Works s { s with worker := .terminal ⟨.error, some e⟩ }
  | starts (hw : s.worker = .start) (h : s.producer.onCall = none) :
    Works s { s with worker := .loopTop }
  | cancelled (hw : s.worker = .loopTop) (h : s.cancel = true) : Works s { s with worker := .close }
  | loops (hw : s.worker = .loopTop) (h : s.cancel = false) :
    Works s { s with worker := .tryAcquire }
  | acquires (hw : s.worker = .tryAcquire ∨ s.worker = .blocked) (h : 0 < s.cap) :
    Works s { s with cap := s.cap - 1, worker := .recheck }
  | blocks (hw : s.worker = .tryAcquire) :
    Works s { s with backpressureWaits := s.backpressureWaits + 1, worker := .blocked }
  | rechecksCancelled (hw : s.worker = .recheck) (h : s.cancel = true) :
    Works s { s with cap := s.cap + 1, worker := .close }
  | rechecks (hw : s.worker = .recheck) (h : s.cancel = false) : Works s { s with worker := .next }
  | yields (text : String) (rest : List String) (hw : s.worker = .next)
    (h : s.script = text :: rest) : Works s { s with script := rest, worker := .offer text }
  | ends (hw : s.worker = .next) (h : s.script = []) : Works s (s.producerEnded s.producer.fin)
  | offers (text : String) (hw : s.worker = .offer text) :
    Works s { s with chan := s.chan ++ [.put (.token text)], worker := .loopTop }
  | closes (hw : s.worker = .close) : Works s { s with worker := .terminal ⟨.cancelled, none⟩ }
  | terminates (t : Terminal) (hw : s.worker = .terminal t) :
    Works s { s with chan := s.chan ++ [.put (.terminal t)], worker := .notify }
  | notifies (hw : s.worker = .notify) :
    Works s { s with chan := s.chan ++ [.fireOnDone], worker := .ended }

theorem works (h : s.work = some s') : s.Works s' := by
  unfold work at h
  cases hw : s.worker with
  | start =>
    simp only [hw] at h
    split at h <;> cases h
    · exact .startFails _ hw ‹_›
    · exact .starts hw ‹_›
  | loopTop =>
    simp only [hw] at h
    by_cases hc : s.cancel = true
    · rw [if_pos hc] at h
      cases h
      exact .cancelled hw hc
    · rw [if_neg hc] at h
      cases h
      exact .loops hw (Bool.eq_false_of_not_eq_true hc)
  | tryAcquire =>
    simp only [hw] at h
    split at h <;> cases h
    · exact .acquires (.inl hw) ‹_›
    · exact .blocks hw
  | blocked =>
    simp only [hw] at h
    split at h <;> cases h
    exact .acquires (.inr hw) ‹_›
  | recheck =>
    simp only [hw] at h
    split at h <;> rename_i hc <;> cases h
    · exact .rechecksCancelled hw hc
    · exact .rechecks hw (Bool.eq_false_of_not_eq_true hc)
  | next =>
    simp only [hw] at h
    split at h <;> cases h
    · exact .yields _ _ hw ‹_›
    · exact .ends hw ‹_›
  | offer text =>
    simp only [hw] at h
    cases h
    exact .offers text hw
  | close =>
    simp only [hw] at h
    cases h
    exact .closes hw
  | terminal t =>
    simp only [hw] at h
    cases h
    exact .terminates t hw
  | notify =>
    simp only [hw] at h
    cases h
    exact .notifies hw
  | ended => simp [hw] at h

theorem work_frame (h : s.work = some s') :
    ∃ w cap script chan waits, s' = { s with
      worker := w
      cap := cap
      script := script
      chan := chan
      backpressureWaits := waits } := by
  cases works h <;> exact ⟨_, _, _, _, _, rfl⟩

theorem runCallback_cases (h : s.runCallback = some s') :
    (∃ item rest, s.chan = .put item :: rest ∧ s.queue.length < s.maxsize ∧
      s' = { s with
        chan := rest
        queue := s.queue ++ [item] }) ∨
    (∃ item rest, s.chan = .put item :: rest ∧ s.maxsize ≤ s.queue.length ∧
      s' = { s with
        chan := rest
        dropped := s.dropped ++ [item] }) ∨
    (∃ rest, s.chan = .fireOnDone :: rest ∧ s' = { s with chan := rest }.fireOnDone) := by
  simp only [runCallback] at h
  cases hch : s.chan with
  | nil => simp [hch] at h
  | cons cb rest =>
    cases cb with
    | put item =>
      simp only [hch, Option.some.injEq] at h
      subst h
      simp only [putNowait]
      split
      · exact .inl ⟨item, rest, rfl, ‹_›, rfl⟩
      · exact .inr (.inl ⟨item, rest, rfl, Nat.le_of_not_lt ‹_›, rfl⟩)
    | fireOnDone =>
      simp only [hch, Option.some.injEq] at h
      exact .inr (.inr ⟨rest, rfl, h.symm⟩)

theorem anext_cases (h : s.anext = some s') :
    s.consumer = .idle ∧
    ((s.exhausted = true ∧ s' = { s with consumer := .ended none }) ∨
     (∃ item rest, s.exhausted = false ∧ s.queue = item :: rest ∧ s' = s.consume rest item) ∨
     (s.exhausted = false ∧ s.queue = [] ∧ s' = { s with consumer := .waiting })) := by
  simp only [anext] at h
  cases hc : s.consumer with
  | idle =>
    refine ⟨rfl, ?_⟩
    simp only [hc] at h
    split at h
    · cases h
      exact .inl ⟨‹_›, rfl⟩
    · rename_i hx
      have hx : s.exhausted = false := by simpa using hx
      split at h
      · rename_i item rest hq
        cases h
        exact .inr (.inl ⟨item, rest, hx, hq, rfl⟩)
      · cases h
        exact .inr (.inr ⟨hx, ‹_›, rfl⟩)
  | waiting => simp [hc] at h
  | ended e => simp [hc] at h

theorem getResume_cases (h : s.getResume = some s') :
    s.consumer = .waiting ∧ ∃ item rest, s.queue = item :: rest ∧ s' = s.consume rest item := by
  simp only [getResume] at h
  split at h
  · rename_i item rest hc hq
    cases h
    exact ⟨hc, item, rest, hq, rfl⟩
  · cases h

section FireOnDone

variable (s : Stream)

theorem fireOnDone_fired : s.fireOnDone.onDoneFired = true := by
  cases h : s.onDoneFired <;> simp [fireOnDone, h]

@[simp] theorem fireOnDone_queue : s.fireOnDone.queue = s.queue := by
  simp only [fireOnDone]; split <;> rfl

@[simp] theorem fireOnDone_chan : s.fireOnDone.chan = s.chan := by
  simp only [fireOnDone]; split <;> rfl

@[simp] theorem fireOnDone_worker : s.fireOnDone.worker = s.worker := by
  simp only [fireOnDone]; split <;> rfl

@[simp] theorem fireOnDone_consumer : s.fireOnDone.consumer = s.consumer := by
  simp only [fireOnDone]; split <;> rfl

@[simp] theorem fireOnDone_exhausted : s.fireOnDone.exhausted = s.exhausted := by
  simp only [fireOnDone]; split <;> rfl

theorem consume_worker (rest : List Item) (item : Item) :
    (s.consume rest item).worker = s.worker := by
  cases item with
  | token text => rfl
  | terminal t => simp [consume, finish]

end FireOnDone

/-- Why `on_done` has fired: the callback of the worker runs, the consumer reads the terminal, or
`aclose` comes back from its join. -/
def Fires (s : Stream) (e : Ev) : Prop :=
  .fireOnDone ∈ s.chan ∨ (∃ t rest, s.queue = .terminal t :: rest) ∨
    ∃ timedOut, e = .acloseResume timedOut ∧ (timedOut = true ∨ s.worker = .ended)

theorem consume_fires {rest : List Item} {item : Item} (hq : s.queue = item :: rest) (e : Ev) :
    (s.consume rest item).onDoneFired = s.onDoneFired ∧
        (s.consume rest item).exhausted = s.exhausted ∨
      (s.consume rest item).onDoneFired = true ∧ s.Fires e ∧
        (s.consume rest item).worker = s.worker := by
  cases item with
  | token text => exact .inl ⟨rfl, rfl⟩
  | terminal t => exact .inr ⟨fireOnDone_fired _, .inr (.inl ⟨t, rest, hq⟩), consume_worker ..⟩

/-- A step leaves `on_done` and the end of the stream alone, or it fires `on_done`. -/
theorem step_fires {e : Ev} (h : step s e = some s') :
    s'.onDoneFired = s.onDoneFired ∧ s'.exhausted = s.exhausted ∨
      s'.onDoneFired = true ∧ s.Fires e ∧ s'.worker = s.worker := by
  cases e with
  | work => obtain ⟨_, _, _, _, _, rfl⟩ := work_frame h; exact .inl ⟨rfl, rfl⟩
  | stopEarly e => simp only [step] at h; split at h <;> cases h; exact .inl ⟨rfl, rfl⟩
  | closeRaises e => simp only [step] at h; split at h <;> cases h; exact .inl ⟨rfl, rfl⟩
  | callback =>
    rcases runCallback_cases h with ⟨_, _, -, -, rfl⟩ | ⟨_, _, -, -, rfl⟩ | ⟨rest, hch, rfl⟩
    · exact .inl ⟨rfl, rfl⟩
    · exact .inl ⟨rfl, rfl⟩
    · refine .inr ⟨fireOnDone_fired _, .inl ?_, fireOnDone_worker _⟩
      rw [hch]
      exact List.mem_cons_self ..
  | anext =>
    obtain ⟨-, ⟨-, rfl⟩ | ⟨_, _, -, hq, rfl⟩ | ⟨-, -, rfl⟩⟩ := anext_cases h
    · exact .inl ⟨rfl, rfl⟩
    · exact consume_fires hq _
    · exact .inl ⟨rfl, rfl⟩
  | getResume =>
    obtain ⟨-, _, _, hq, rfl⟩ := getResume_cases h
    exact consume_fires hq _
  | anextCancel => simp only [step] at h; split at h <;> cases h; exact .inl ⟨rfl, rfl⟩
  | aclose => cases h; simp only [aclose]; split <;> exact .inl ⟨rfl, rfl⟩
  | acloseResume timedOut =>
    simp only [step, acloseResume] at h
    split at h
    · rename_i hj
      cases h
      exact .inr ⟨fireOnDone_fired _, .inr (.inr ⟨timedOut, rfl, hj.2⟩), fireOnDone_worker _⟩
    · cases h
  | acloseCancel => simp only [step] at h; split at h <;> cases h; exact .inl ⟨rfl, rfl⟩

theorem fired_step {e : Ev} (hf : s.onDoneFired = true) (h : step s e = some s') :
    s'.onDoneFired = true := by
  rcases step_fires h with ⟨heq, -⟩ | ⟨hf', -, -⟩
  · rw [heq]; exact hf
  · exact hf'

theorem exhausted_fired_step {e : Ev} (hx : s.exhausted = true → s.onDoneFired = true)
    (h : step s e = some s') (hx' : s'.exhausted = true) : s'.onDoneFired = true := by
  rcases step_fires h with ⟨hf, hex⟩ | ⟨hf', -, -⟩
  · rw [hex] at hx'
    rw [hf]
    exact hx hx'
  · exact hf'

end Stream
end InferenceEngine
