import InferenceEngine.Inference.Types
import InferenceEngine.Lib.Semaphore
import Mathlib.Data.Rat.Floor

/-!
# Inference.Scheduler

The admission layer (`inference/scheduler.py`): `max_concurrency` slots guarded by a semaphore, a
bounded queue of waiting requests, and a drain flag for shutdown.

`admit` is a coroutine with one suspension point, so it is modelled by two functions: `admit`
runs from the call to the suspension (or to the end, when a slot is free or the request is
refused), and `admitResume` runs a suspended call from its wake-up to its end. A suspended call is
a waiter of the semaphore (`Suspended`); a queue timeout or a task cancellation first only asks
for it to be interrupted (`interrupt`), and takes effect when the call runs again, as in
`asyncio`: the future it waits on is cancelled if it is still pending, and a permit that was
already handed to it is given back on the way out.

`wait_for` runs in the waiting task itself (Python 3.12 on).
-/

namespace InferenceEngine

open Semaphore

/-- Why a suspended call is being interrupted. A cancellation wins over a timeout. -/
inductive Interrupt where
  | timeout
  | cancel
  deriving DecidableEq, Repr

def Interrupt.join : Option Interrupt → Interrupt → Interrupt
  | some .cancel, _ => .cancel
  | _, i => i

/-- A call suspended inside `admit`, on behalf of `task`. -/
structure Suspended (δ : Type) where
  task : δ
  waitStart : ℚ
  interrupt : Option Interrupt
  deriving Repr

structure SchedulerConfig where
  maxConcurrency : Nat
  maxQueueDepth : Nat
  queueTimeoutS : ℚ
  maxConcurrency_pos : 1 ≤ maxConcurrency
  queueTimeoutS_nonneg : 0 ≤ queueTimeoutS

/-- Defaults of `Scheduler.__init__`. -/
def SchedulerConfig.default : SchedulerConfig where
  maxConcurrency := 1
  maxQueueDepth := 32
  queueTimeoutS := 30
  maxConcurrency_pos := by decide
  queueTimeoutS_nonneg := by decide +kernel

structure Scheduler (δ : Type) where
  cfg : SchedulerConfig
  sem : Sem (Suspended δ)
  draining : Bool
  idle : Bool
  inUse : Nat
  waiters : Nat
  admitted : Nat
  rejectedQueueFull : Nat
  rejectedTimeout : Nat
  cancelled : Nat
  slowConsumer : Nat
  peakInUse : Nat
  peakWaiters : Nat
  waitTotal : ℚ
  waitCount : Nat
  waitMax : ℚ
  waitLast : ℚ

inductive Admission where
  | lease (waitedS : ℚ)
  | saturated (exc : SchedulerSaturated)
  | cancelled
  | suspended
  deriving DecidableEq, Repr

/-- The number of leases an end of `admit` issues. -/
def Admission.leases : Admission → Nat
  | .lease _ => 1
  | _ => 0

namespace Scheduler

variable {δ : Type}

def init (cfg : SchedulerConfig) : Scheduler δ where
  cfg := cfg
  sem := Sem.init cfg.maxConcurrency
  draining := false
  idle := true
  inUse := 0
  waiters := 0
  admitted := 0
  rejectedQueueFull := 0
  rejectedTimeout := 0
  cancelled := 0
  slowConsumer := 0
  peakInUse := 0
  peakWaiters := 0
  waitTotal := 0
  waitCount := 0
  waitMax := 0
  waitLast := 0

/-- `_retry_after_hint`: the observed average wait, rounded up, with a floor of one second. -/
def retryAfterHint (s : Scheduler δ) : Nat :=
  if 0 < s.waitCount then max 1 (Int.toNat ⌈s.waitTotal / s.waitCount⌉) else 1

/-- The end of a successful `admit`, after the permit is held. -/
def issue (s : Scheduler δ) (waited : ℚ) : Scheduler δ :=
  { s with
    inUse := s.inUse + 1
    idle := false
    peakInUse := max s.peakInUse (s.inUse + 1)
    admitted := s.admitted + 1
    waitTotal := s.waitTotal + waited
    waitCount := s.waitCount + 1
    waitMax := max s.waitMax waited
    waitLast := waited }

/-- `admit` up to its suspension. -/
def admitStart (s : Scheduler δ) (task : δ) (now : ℚ) : Admission × Scheduler δ :=
  if s.draining then
    (.saturated ⟨.draining, s.retryAfterHint⟩,
      { s with rejectedQueueFull := s.rejectedQueueFull + 1 })
  else if s.sem.locked then
    if s.cfg.maxQueueDepth ≤ s.waiters then
      (.saturated ⟨.queueFull, s.retryAfterHint⟩,
        { s with rejectedQueueFull := s.rejectedQueueFull + 1 })
    else
      (.suspended,
        { s with
          waiters := s.waiters + 1
          peakWaiters := max s.peakWaiters (s.waiters + 1)
          sem := s.sem.enqueue ⟨task, now, none⟩ })
  else
    -- a slot is free: `acquire` returns without suspending and nothing was waited
    (.lease 0, ({ s with sem := s.sem.acquireNow } : Scheduler δ).issue 0)

/-- Suspended call `k` runs again. It runs only once its future is done: with a permit, or to be
interrupted. -/
def admitResume (s : Scheduler δ) (k : Nat) (now : ℚ) : Option (δ × Admission × Scheduler δ) :=
  match s.sem.waiters[k]? with
  | none => none
  | some w =>
    match w.task.interrupt with
    | none =>
      if w.fut = .granted then
        let waited := max 0 (now - w.task.waitStart)
        let s' : Scheduler δ :=
          { s with sem := s.sem.leave k false, waiters := s.waiters - 1 }
        some (w.task.task, .lease waited, s'.issue waited)
      else none
    | some i =>
      -- the acquire is interrupted: a permit already handed over goes back
      let s' : Scheduler δ :=
        { s with sem := s.sem.leave k (w.fut = .granted), waiters := s.waiters - 1 }
      match i with
      | .timeout =>
        let s'' : Scheduler δ := { s' with rejectedTimeout := s'.rejectedTimeout + 1 }
        some (w.task.task, .saturated ⟨.queueTimeout, s''.retryAfterHint⟩, s'')
      | .cancel => some (w.task.task, .cancelled, s')

/-- The queue timer fires for suspended call `k` (`timeout`, only armed when the timeout is
positive), or its task is cancelled (`cancel`). -/
def interrupt (s : Scheduler δ) (k : Nat) (i : Interrupt) : Option (Scheduler δ) :=
  if k < s.sem.waiters.length ∧ (i = .timeout → 0 < s.cfg.queueTimeoutS) then
    some { s with sem := s.sem.interrupt k fun c =>
      { c with interrupt := some (Interrupt.join c.interrupt i) } }
  else none

/-- `_release`. The guard `if self._in_use > 0` is the truncated subtraction. -/
def release (s : Scheduler δ) (wasCancelled : Bool) : Scheduler δ :=
  let inUse := s.inUse - 1
  { s with
    inUse := inUse
    cancelled := if wasCancelled then s.cancelled + 1 else s.cancelled
    idle := if inUse = 0 then true else s.idle
    sem := s.sem.release }

def beginDrain (s : Scheduler δ) : Scheduler δ := { s with draining := true }

def noteSlowConsumer (s : Scheduler δ) (waits : Nat) : Scheduler δ :=
  if 0 < waits then { s with slowConsumer := s.slowConsumer + 1 } else s

end Scheduler

structure SchedulerLease where
  waitedS : ℚ
  released : Bool
  deriving DecidableEq, Repr

/-- `SchedulerLease.release`: only the first call reaches the scheduler. -/
def SchedulerLease.release {δ : Type} (l : SchedulerLease) (s : Scheduler δ) (wasCancelled : Bool) :
    SchedulerLease × Scheduler δ :=
  if l.released then (l, s) else ({ l with released := true }, s.release wasCancelled)

end InferenceEngine
