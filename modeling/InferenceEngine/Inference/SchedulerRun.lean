import InferenceEngine.Inference.Admission
import InferenceEngine.Lib.Run

/-!
# Inference.SchedulerRun

The scheduler among the tasks that use it: any number of `admit` calls, queue timeouts and
cancellations of suspended calls, releases of the leases issued so far (repeated ones included),
and `begin_drain` / `wait_drained` calls, in any order.

`Sys` holds the scheduler, the leases it has issued, the `wait_drained` calls, and a log of how
each `admit` call suspended or ended. The suspended calls are the waiters of the semaphore.

* `scheduler_step_sound`: every step keeps `Sys.Sound`, that is `Scheduler.Sound` and the books
  on leases.
* `scheduler_accounts`: over every run, permits, gauges and leases agree, and a call that ends
  without a lease changes none of them.
-/

namespace InferenceEngine
namespace SchedulerRun

open Semaphore Lts

/-- A call of `wait_drained`. `woken`: `_idle.set()` has completed its future. -/
inductive DrainCall where
  | waiting (woken : Bool)
  | returned (idle : Bool)
  deriving DecidableEq, Repr

structure Sys where
  sched : Scheduler Unit
  leases : List SchedulerLease
  drains : List DrainCall
  log : List Admission

inductive Ev where
  | admitStart (now : ℚ)
  | resume (k : Nat) (now : ℚ)
  | interrupt (k : Nat) (i : Interrupt)
  | release (i : Nat) (wasCancelled : Bool)
  | beginDrain
  | waitDrained
  | drainResume (d : Nat)
  | drainTimeout (d : Nat)
  | noteSlowConsumer (waits : Nat)
  deriving DecidableEq

def Sys.init (cfg : SchedulerConfig) : Sys := ⟨Scheduler.init cfg, [], [], []⟩

/-- `admit` suspended or ended with `a`, leaving `sc`. -/
def Sys.note (s : Sys) (a : Admission) (sc : Scheduler Unit) : Sys :=
  { s with
    sched := sc
    leases := match a with
      | .lease waited => s.leases ++ [⟨waited, false⟩]
      | _ => s.leases
    log := s.log ++ [a] }

/-- `Event.set` completes the future of every suspended `wait_drained`. -/
def DrainCall.wake : DrainCall → DrainCall
  | .waiting _ => .waiting true
  | c => c

def step (s : Sys) : Ev → Option Sys
  | .admitStart now => some (s.note (s.sched.admitStart () now).1 (s.sched.admitStart () now).2)
  | .resume k now =>
    match s.sched.admitResume k now with
    | none => none
    | some (_, a, sc) => some (s.note a sc)
  | .interrupt k i => (s.sched.interrupt k i).map fun sc => { s with sched := sc }
  | .release i c =>
    match s.leases[i]? with
    | none => none
    | some l =>
      let r := l.release s.sched c
      some { s with
        sched := r.2
        leases := s.leases.set i r.1
        drains := if !l.released && r.2.inUse == 0 then s.drains.map DrainCall.wake else s.drains }
  | .beginDrain => some { s with sched := s.sched.beginDrain }
  | .waitDrained =>
    some { s with
      drains := s.drains ++ [if s.sched.inUse = 0 then .returned true else .waiting false] }
  | .drainResume d =>
    match s.drains[d]? with
    | some (.waiting true) => some { s with drains := s.drains.set d (.returned true) }
    | _ => none
  | .drainTimeout d =>
    match s.drains[d]? with
    | some (.waiting _) => some { s with drains := s.drains.set d (.returned false) }
    | _ => none
  | .noteSlowConsumer n => some { s with sched := s.sched.noteSlowConsumer n }

/-- The scheduler's invariant with the books on leases. -/
structure Sys.Sound (cfg : SchedulerConfig) (s : Sys) : Prop where
  sched : s.sched.Sound
  cfg_eq : s.sched.cfg = cfg
  inUse_eq : s.sched.inUse = s.leases.countP (!·.released)
  admitted_eq : s.sched.admitted = s.leases.length

theorem init_sound (cfg : SchedulerConfig) : (Sys.init cfg).Sound cfg :=
  ⟨Scheduler.init_sound cfg, rfl, rfl, rfl⟩

variable {cfg : SchedulerConfig} {s s' : Sys}

/-- Issuing a lease is the only end of `admit` that moves the books. -/
theorem note_sound {a : Admission} {sc : Scheduler Unit} (hs : s.Sound cfg) (hsc : sc.Sound)
    (hcfg : sc.cfg = s.sched.cfg) (hi : sc.inUse = s.sched.inUse + a.leases)
    (ha : sc.admitted = s.sched.admitted + a.leases) : (s.note a sc).Sound cfg := by
  obtain ⟨-, hc, hi', ha'⟩ := hs
  refine ⟨hsc, hcfg.trans hc, ?_, ?_⟩ <;>
    cases a <;> simp [Sys.note, Admission.leases] at hi ha ⊢ <;> omega

theorem release_step_sound {i : Nat} {c : Bool} (hs : s.Sound cfg)
    (h : step s (.release i c) = some s') : s'.Sound cfg := by
  obtain ⟨hsc, hc, hi, ha⟩ := hs
  simp only [step] at h
  cases hl : s.leases[i]? with
  | none => rw [hl] at h; cases h
  | some l =>
    rw [hl] at h
    cases h
    have hset := Count.countP_set_add (p := fun l : SchedulerLease => !l.released)
      (b := (l.release s.sched c).1) hl
    cases hr : l.released with
    | true =>
      -- a repeated release reaches neither the scheduler nor the lease
      simp only [SchedulerLease.release, hr, if_true] at hset ⊢
      simp only [Bool.not_true, Bool.false_eq_true, if_false] at hset
      exact ⟨hsc, hc, by simp only; omega, by simpa using ha⟩
    | false =>
      have hpos : 0 < s.sched.inUse := by
        rw [hi]
        exact Count.countP_pos_of_getElem? hl (by simp [hr])
      simp only [SchedulerLease.release, hr, Bool.false_eq_true, if_false] at hset ⊢
      simp only [Bool.not_false, if_true, Bool.not_true, Bool.false_eq_true, if_false] at hset
      refine ⟨Scheduler.release_sound hsc hpos c, hc, ?_, by simpa [Scheduler.release] using ha⟩
      simp only [Scheduler.release]
      omega

theorem scheduler_step_sound (hs : s.Sound cfg) {e : Ev} (h : step s e = some s') :
    s'.Sound cfg := by
  obtain ⟨hsc, hc, hi, ha⟩ := id hs
  cases e with
  | admitStart now =>
    cases h
    have hadm : s.sched.admitStart () now = (_, _) := rfl
    obtain ⟨hcfg, hi', ha'⟩ := Scheduler.admit_books hadm
    exact note_sound hs (Scheduler.admit_sound hsc hadm) hcfg hi' ha'
  | resume k now =>
    simp only [step] at h
    cases hr : s.sched.admitResume k now with
    | none => rw [hr] at h; cases h
    | some r =>
      obtain ⟨d, a, sc⟩ := r
      rw [hr] at h
      cases h
      obtain ⟨hcfg, hi', ha'⟩ := Scheduler.admitResume_books hr
      exact note_sound hs (Scheduler.admitResume_sound hsc hr) hcfg hi' ha'
  | interrupt k i =>
    simp only [step] at h
    cases hr : s.sched.interrupt k i with
    | none => rw [hr] at h; cases h
    | some sc =>
      rw [hr] at h
      cases h
      have he := Scheduler.interrupt_eq hr
      have hsc' := Scheduler.interrupt_sound hsc hr
      subst he
      exact ⟨hsc', hc, hi, ha⟩
  | release i c => exact release_step_sound hs h
  | beginDrain =>
    cases h
    exact ⟨Scheduler.beginDrain_sound hsc, hc, hi, ha⟩
  | waitDrained => cases h; exact ⟨hsc, hc, hi, ha⟩
  | drainResume d =>
    simp only [step] at h
    split at h
    · cases h; exact ⟨hsc, hc, hi, ha⟩
    · cases h
  | drainTimeout d =>
    simp only [step] at h
    split at h
    · cases h; exact ⟨hsc, hc, hi, ha⟩
    · cases h
  | noteSlowConsumer n =>
    cases h
    have hsound := Scheduler.noteSlowConsumer_sound hsc n
    by_cases hn : 0 < n
    · simp only [Scheduler.noteSlowConsumer, hn, if_true] at hsound ⊢
      exact ⟨hsound, hc, hi, ha⟩
    · simp only [Scheduler.noteSlowConsumer, hn, if_false]
      exact ⟨hsc, hc, hi, ha⟩

theorem run_sound {ls : List Ev} (h : Run step (Sys.init cfg) ls s) : s.Sound cfg :=
  h.invariant (fun _ _ _ hs hst => scheduler_step_sound hs hst) (init_sound cfg)

/-- Was the call suspended, and so counted as a waiter, before this step of it? -/
def Ev.ownWaiter : Ev → Nat
  | .resume _ _ => 1
  | _ => 0

/-- What one step of an `admit` call does to permits and gauges unless it ends with a lease. A call
that suspends adds itself to the waiters; one that ends with `SchedulerSaturated` or a
cancellation takes that back. Nothing else moves. -/
def CallFrame (e : Ev) (sc sc' : Scheduler Unit) : Admission → Prop
  | .lease _ => True
  | .suspended => sc'.sem.permits = sc.sem.permits ∧ sc'.inUse = sc.inUse ∧
      sc'.admitted = sc.admitted ∧ sc'.waiters = sc.waiters + 1
  | .saturated _ | .cancelled => sc'.sem.permits = sc.sem.permits ∧ sc'.inUse = sc.inUse ∧
      sc'.admitted = sc.admitted ∧ sc'.waiters + e.ownWaiter = sc.waiters

theorem admit_callFrame {sc sc' : Scheduler Unit} {now : ℚ} {a : Admission}
    (h : sc.admitStart () now = (a, sc')) : CallFrame (.admitStart now) sc sc' a := by
  rcases Scheduler.admit_cases h with ⟨exc, rfl, rfl⟩ | ⟨rfl, -, -, -, rfl⟩ | ⟨rfl, -, -, rfl⟩
  · exact ⟨rfl, rfl, rfl, rfl⟩
  · exact ⟨by simp, rfl, rfl, rfl⟩
  · trivial

theorem admitResume_callFrame {sc sc' : Scheduler Unit} {k : Nat} {now : ℚ} {a : Admission}
    {u : Unit} (hs : sc.Sound) (h : sc.admitResume k now = some (u, a, sc')) :
    CallFrame (.resume k now) sc sc' a := by
  have hs' := Scheduler.admitResume_sound hs h
  obtain ⟨hcfg, hi, ha⟩ := Scheduler.admitResume_books h
  obtain ⟨w, hk, -, hcase⟩ := Scheduler.admitResume_cases h
  have hwait : sc'.waiters + 1 = sc.waiters := by
    have hpos : 0 < sc.waiters := by
      have := leave_length sc.sem hk false
      rw [hs.waiters_eq]
      omega
    rcases hcase with ⟨-, -, -, -, rfl⟩ | ⟨-, -, rfl⟩ | ⟨-, -, rfl⟩
    · simp only [Scheduler.issue]
      omega
    · simp only
      omega
    · simp only
      omega
  -- permits follow from conservation: `in_use` did not move, so neither did they
  have hperm : a.leases = 0 → sc'.sem.permits = sc.sem.permits := by
    intro h0
    have h₁ := hs.conserved
    have h₂ := hs'.conserved
    rw [hcfg] at h₂
    omega
  rcases hcase with ⟨-, -, waited, rfl, -⟩ | ⟨-, ⟨exc, rfl⟩, -⟩ | ⟨-, rfl, -⟩
  · trivial
  · exact ⟨hperm rfl, hi, ha, hwait⟩
  · exact ⟨hperm rfl, hi, ha, hwait⟩

theorem step_callFrame (hs : s.Sound cfg) {e : Ev} (h : step s e = some s') {a : Admission}
    (hlog : s'.log = s.log ++ [a]) : CallFrame e s.sched s'.sched a := by
  -- only a step of an `admit` call writes to the log
  have hsame (s₁ : Sys) (heq : s₁.log = s.log) : s₁ ≠ s' := by
    rintro rfl
    rw [heq] at hlog
    simp at hlog
  cases e with
  | admitStart now =>
    cases h
    simp only [Sys.note, List.append_cancel_left_eq, List.cons.injEq, and_true] at hlog
    exact admit_callFrame (Prod.ext hlog rfl)
  | resume k now =>
    simp only [step] at h
    cases hr : s.sched.admitResume k now with
    | none => rw [hr] at h; cases h
    | some r =>
      obtain ⟨d, b, sc⟩ := r
      rw [hr] at h
      cases h
      simp only [Sys.note, List.append_cancel_left_eq, List.cons.injEq, and_true] at hlog
      subst hlog
      exact admitResume_callFrame hs.sched hr
  | interrupt k i =>
    simp only [step] at h
    cases hr : s.sched.interrupt k i with
    | none => rw [hr] at h; cases h
    | some sc => rw [hr] at h; cases h; exact absurd rfl (hsame _ rfl)
  | release i c =>
    simp only [step] at h
    cases hl : s.leases[i]? with
    | none => rw [hl] at h; cases h
    | some l => rw [hl] at h; cases h; exact absurd rfl (hsame _ rfl)
  | beginDrain => cases h; exact absurd rfl (hsame _ rfl)
  | waitDrained => cases h; exact absurd rfl (hsame _ rfl)
  | drainResume d =>
    simp only [step] at h
    split at h
    · cases h; exact absurd rfl (hsame _ rfl)
    · cases h
  | drainTimeout d =>
    simp only [step] at h
    split at h
    · cases h; exact absurd rfl (hsame _ rfl)
    · cases h
  | noteSlowConsumer n => cases h; exact absurd rfl (hsame _ rfl)

/-- **The scheduler's books.** Over every run: free permits, permits granted to a waiter that has
not resumed, and slots in use add up to `max_concurrency`; `in_use` counts the unreleased leases,
`waiters` the suspended calls, within the queue bound; `admitted` counts the leases issued; and a
call that ends without a lease leaves permits and gauges as it found them. -/
theorem scheduler_accounts (cfg : SchedulerConfig) {ls : List Ev} {s : Sys}
    (h : Run step (Sys.init cfg) ls s) :
    s.sched.sem.value + s.sched.sem.granted + s.sched.inUse = cfg.maxConcurrency ∧
    s.sched.inUse = s.leases.countP (!·.released) ∧ s.sched.inUse ≤ cfg.maxConcurrency ∧
    s.sched.waiters = s.sched.sem.tasks.length ∧ s.sched.waiters ≤ cfg.maxQueueDepth ∧
    s.sched.admitted = s.leases.length ∧
    ∀ e s' a, step s e = some s' → s'.log = s.log ++ [a] → CallFrame e s.sched s'.sched a := by
  have hs := run_sound h
  have hcons := hs.sched.conserved
  have hle := hs.sched.waiters_le
  rw [hs.cfg_eq] at hcons hle
  refine ⟨hcons, hs.inUse_eq, by omega, hs.sched.waiters_eq, hle, hs.admitted_eq, ?_⟩
  intro e s' a hst hlog
  exact step_callFrame hs hst hlog

/-- One slot and one place in the queue. -/
def oneSlot : SchedulerConfig := { SchedulerConfig.default with maxQueueDepth := 1 }

/-- A second call queues, a third is refused; the slot is released twice, which grants its permit
to the queued call; that call is cancelled before it runs, and gives the permit back. -/
def grantThenCancel : List Ev :=
  [.admitStart 0, .admitStart 0, .admitStart 0, .release 0 false, .release 0 false,
    .interrupt 0 .cancel, .resume 0 5]

theorem scheduler_accounts_grantThenCancel :
    ∃ s, exec step (Sys.init oneSlot) grantThenCancel = some s ∧
      s.log = [.lease 0, .suspended, .saturated ⟨.queueFull, 1⟩, .cancelled] ∧
      s.sched.sem.value + s.sched.sem.granted + s.sched.inUse = 1 ∧ s.sched.inUse = 0 := by
  refine ⟨(exec step (Sys.init oneSlot) grantThenCancel).get (by decide +kernel), ?_, ?_, ?_, ?_⟩
  · simp
  · decide +kernel
  · have hrun : Run step (Sys.init oneSlot) grantThenCancel
        ((exec step (Sys.init oneSlot) grantThenCancel).get (by decide +kernel)) :=
      run_of_exec (by simp)
    exact (scheduler_accounts oneSlot hrun).1
  · decide +kernel

end SchedulerRun
end InferenceEngine
