import InferenceEngine.Inference.Scheduler

/-!
# Inference.Admission

What one operation of the scheduler can do, and the invariant every operation keeps.

* `admit_cases`, `admitResume_cases` — the possible ends of `admit` and of a resumed call, each
  with the scheduler it leaves.
* `Scheduler.Sound` — permits are conserved, the `waiters` gauge counts the
  suspended calls and stays within the queue bound, `idle` mirrors `in_use = 0`, no wake-up is
  lost, and a call is being interrupted if its future is cancelled, and is not if it is pending.
-/

namespace InferenceEngine
namespace Scheduler

open Semaphore

variable {δ : Type} {s s' : Scheduler δ} {task d : δ} {now : ℚ} {a : Admission} {k : Nat}

theorem admit_cases (h : s.admitStart task now = (a, s')) :
    (∃ exc, a = .saturated exc ∧ s' = { s with rejectedQueueFull := s.rejectedQueueFull + 1 }) ∨
    (a = .suspended ∧ s.draining = false ∧ s.sem.locked = true ∧ s.waiters < s.cfg.maxQueueDepth ∧
      s' = { s with
        waiters := s.waiters + 1
        peakWaiters := max s.peakWaiters (s.waiters + 1)
        sem := s.sem.enqueue ⟨task, now, none⟩ }) ∨
    (a = .lease 0 ∧ s.draining = false ∧ s.sem.locked = false ∧
      s' = ({ s with sem := s.sem.acquireNow } : Scheduler δ).issue 0) := by
  unfold admitStart at h
  split at h
  · cases h
    exact .inl ⟨_, rfl, rfl⟩
  · rename_i hd
    have hd : s.draining = false := by simpa using hd
    split at h
    · rename_i hl
      split at h
      · cases h
        exact .inl ⟨_, rfl, rfl⟩
      · rename_i hq
        cases h
        exact .inr (.inl ⟨rfl, hd, hl, by omega, rfl⟩)
    · rename_i hl
      cases h
      exact .inr (.inr ⟨rfl, hd, by simpa using hl, rfl⟩)

/-- A call of `admit` that comes now has its lease at once. -/
def free (s : Scheduler δ) : Bool := !s.draining && !s.sem.locked

theorem admit_lease_iff (s : Scheduler δ) (task : δ) (now : ℚ) :
    (∃ waited, (s.admitStart task now).1 = .lease waited) ↔ s.free = true := by
  unfold admitStart free
  cases s.draining with
  | true => simp
  | false =>
    cases s.sem.locked with
    | true => simp only [Bool.false_eq_true, if_false, if_true]; split <;> simp
    | false => simp

/-- A resumed call either has its permit and is issued a lease, or is interrupted and leaves with
nothing. -/
theorem admitResume_cases (h : s.admitResume k now = some (d, a, s')) :
    ∃ w, s.sem.waiters[k]? = some w ∧ d = w.task.task ∧
      ((w.task.interrupt = none ∧ w.fut = .granted ∧ ∃ waited, a = .lease waited ∧
          s' = ({ s with sem := s.sem.leave k false, waiters := s.waiters - 1 } :
            Scheduler δ).issue waited) ∨
        (w.task.interrupt = some .timeout ∧ (∃ exc, a = .saturated exc) ∧
          s' = { s with
            sem := s.sem.leave k (w.fut = .granted)
            waiters := s.waiters - 1
            rejectedTimeout := s.rejectedTimeout + 1 }) ∨
        (w.task.interrupt = some .cancel ∧ a = .cancelled ∧
          s' = { s with
            sem := s.sem.leave k (w.fut = .granted)
            waiters := s.waiters - 1 })) := by
  unfold admitResume at h
  cases hw : s.sem.waiters[k]? with
  | none => rw [hw] at h; cases h
  | some w =>
    rw [hw] at h
    refine ⟨w, rfl, ?_⟩
    cases hi : w.task.interrupt with
    | none =>
      simp only [hi] at h
      split at h
      · rename_i hg
        cases h
        exact ⟨rfl, .inl ⟨rfl, hg, _, rfl, rfl⟩⟩
      · cases h
    | some i =>
      simp only [hi] at h
      cases i with
      | timeout => cases h; exact ⟨rfl, .inr (.inl ⟨rfl, ⟨_, rfl⟩, rfl⟩)⟩
      | cancel => cases h; exact ⟨rfl, .inr (.inr ⟨rfl, rfl, rfl⟩)⟩

theorem admit_books (h : s.admitStart task now = (a, s')) :
    s'.cfg = s.cfg ∧ s'.inUse = s.inUse + a.leases ∧ s'.admitted = s.admitted + a.leases := by
  rcases admit_cases h with ⟨exc, rfl, rfl⟩ | ⟨rfl, -, -, -, rfl⟩ | ⟨rfl, -, -, rfl⟩
  · exact ⟨rfl, rfl, rfl⟩
  · exact ⟨rfl, rfl, rfl⟩
  · exact ⟨rfl, rfl, rfl⟩

theorem admitResume_books (h : s.admitResume k now = some (d, a, s')) :
    s'.cfg = s.cfg ∧ s'.inUse = s.inUse + a.leases ∧ s'.admitted = s.admitted + a.leases := by
  obtain ⟨w, -, -, ⟨-, -, waited, rfl, rfl⟩ | ⟨-, ⟨exc, rfl⟩, rfl⟩ | ⟨-, rfl, rfl⟩⟩ :=
    admitResume_cases h
  · exact ⟨rfl, rfl, rfl⟩
  · exact ⟨rfl, rfl, rfl⟩
  · exact ⟨rfl, rfl, rfl⟩

theorem interrupt_eq {i : Interrupt} (h : s.interrupt k i = some s') :
    s' = { s with sem := s.sem.interrupt k fun c =>
      { c with interrupt := some (Interrupt.join c.interrupt i) } } := by
  unfold interrupt at h
  split at h
  · cases h; rfl
  · cases h

/-- The future of a suspended call agrees with whether the call is being interrupted; a granted
one can be either. -/
def FutOk (w : Waiter (Suspended δ)) : Prop :=
  (w.fut = .pending → w.task.interrupt = none) ∧ (w.fut = .cancelled → w.task.interrupt ≠ none)

theorem futOk_of_granted {w : Waiter (Suspended δ)} (h : w.fut = .granted) : FutOk w := by
  simp [FutOk, h]

structure Sound (s : Scheduler δ) : Prop where
  conserved : s.sem.permits + s.inUse = s.cfg.maxConcurrency
  waiters_eq : s.waiters = s.sem.tasks.length
  waiters_le : s.waiters ≤ s.cfg.maxQueueDepth
  idle_iff : s.idle = true ↔ s.inUse = 0
  noLost : s.sem.NoLost
  fut_ok : ∀ w ∈ s.sem.waiters, FutOk w

theorem init_sound (cfg : SchedulerConfig) : (init cfg : Scheduler δ).Sound where
  conserved := by simp [init]
  waiters_eq := rfl
  waiters_le := Nat.zero_le _
  idle_iff := by simp [init]
  noLost := init_noLost _
  fut_ok := by simp [init, Sem.init]

theorem admit_sound (hs : s.Sound) (h : s.admitStart task now = (a, s')) : s'.Sound := by
  obtain ⟨hc, hw, hle, hid, hnl, hpl⟩ := hs
  rcases admit_cases h with ⟨exc, -, rfl⟩ | ⟨-, -, hl, hq, rfl⟩ | ⟨-, -, hl, rfl⟩
  · exact ⟨hc, hw, hle, hid, hnl, hpl⟩
  · refine ⟨by simpa using hc, by simp [hw], hq, hid, enqueue_noLost _ _ hl hnl, ?_⟩
    intro w hm
    simp only [Sem.enqueue, List.mem_append, List.mem_singleton] at hm
    rcases hm with hm | rfl
    · exact hpl w hm
    · simp [FutOk]
  · have hperm := acquireNow_permits s.sem hl
    refine ⟨?_, hw, hle, by simp [issue], acquireNow_noLost _ hl, hpl⟩
    simp only [issue]
    omega

theorem admitResume_sound (hs : s.Sound) (h : s.admitResume k now = some (d, a, s')) :
    s'.Sound := by
  obtain ⟨hc, hw, hle, hid, hnl, hpl⟩ := hs
  obtain ⟨w, hk, -, hcase⟩ := admitResume_cases h
  have hlen (back : Bool) := leave_length s.sem hk back
  have hleave (back : Bool) := leave_permits s.sem hk back
  have hfut {back : Bool} : ∀ v ∈ (s.sem.leave k back).waiters, FutOk v := by
    intro v hv
    by_cases hg : v.fut = .granted
    · exact futOk_of_granted hg
    · exact hpl v (ungranted_of_leave s.sem hv hg)
  -- an interrupted call takes no permit with it: it was not handed one, or gives it back
  have hback : (s.sem.leave k (w.fut = .granted)).permits = s.sem.permits := by
    have := hleave (w.fut = .granted)
    by_cases hg : w.fut = .granted <;> simp [hg] at this <;> simpa [hg] using this
  rcases hcase with ⟨-, hg, waited, -, rfl⟩ | ⟨-, -, rfl⟩ | ⟨-, -, rfl⟩
  · have h₁ := hlen false
    have h₂ := hleave false
    simp only [hg, if_true, Bool.toNat_false] at h₂
    refine ⟨?_, ?_, ?_, by simp [issue], leave_noLost _ _ _, hfut⟩ <;> simp only [issue] <;> omega
  · have h₁ := hlen (w.fut = .granted)
    refine ⟨by rw [hback]; exact hc, ?_, ?_, hid, leave_noLost _ _ _, hfut⟩ <;> simp only <;> omega
  · have h₁ := hlen (w.fut = .granted)
    refine ⟨by rw [hback]; exact hc, ?_, ?_, hid, leave_noLost _ _ _, hfut⟩ <;> simp only <;> omega

theorem interrupt_sound {i : Interrupt} (hs : s.Sound) (h : s.interrupt k i = some s') :
    s'.Sound := by
  obtain ⟨hc, hw, hle, hid, hnl, hpl⟩ := hs
  rw [interrupt_eq h]
  refine ⟨by simpa using hc, by simpa [interrupt_tasks] using hw, hle, hid,
    interrupt_noLost _ _ _ hnl, ?_⟩
  intro w hm
  rcases mem_interrupt _ hm with hm | ⟨hn, w₀, -, ht⟩
  · exact hpl w hm
  · exact ⟨fun hp => absurd hp hn, fun _ => by simp [ht]⟩

theorem release_sound (hs : s.Sound) (hpos : 0 < s.inUse) (c : Bool) : (s.release c).Sound := by
  obtain ⟨hc, hw, hle, hid, hnl, hpl⟩ := hs
  refine ⟨?_, by simpa [release] using hw, hle, ?_, release_noLost _, ?_⟩
  · simp only [release, release_permits]
    omega
  · have hidle : s.idle = false := by
      cases hi : s.idle with
      | false => rfl
      | true => have := hid.mp hi; omega
    simp [release, hidle]
  · intro w hm
    by_cases hg : w.fut = .granted
    · exact futOk_of_granted hg
    · exact hpl w (ungranted_of_release s.sem hm hg)

theorem noteSlowConsumer_sound (hs : s.Sound) (waits : Nat) : (s.noteSlowConsumer waits).Sound := by
  simp only [noteSlowConsumer]
  split
  · exact ⟨hs.conserved, hs.waiters_eq, hs.waiters_le, hs.idle_iff, hs.noLost, hs.fut_ok⟩
  · exact hs

theorem beginDrain_sound (hs : s.Sound) : s.beginDrain.Sound :=
  ⟨hs.conserved, hs.waiters_eq, hs.waiters_le, hs.idle_iff, hs.noLost, hs.fut_ok⟩

@[simp] theorem noteSlowConsumer_inUse (waits : Nat) :
    (s.noteSlowConsumer waits).inUse = s.inUse := by
  simp only [noteSlowConsumer]; split <;> rfl

/-- The tasks whose calls are suspended in `admit`, the first in the queue first. -/
def suspendedTasks (s : Scheduler δ) : List δ := s.sem.tasks.map (·.task)

theorem admit_suspendedTasks (h : s.admitStart task now = (a, s')) :
    s'.suspendedTasks = if a = .suspended then s.suspendedTasks ++ [task]
      else s.suspendedTasks := by
  rcases admit_cases h with ⟨exc, rfl, rfl⟩ | ⟨rfl, -, -, -, rfl⟩ | ⟨rfl, -, -, rfl⟩
  · rfl
  · simp [suspendedTasks]
  · rfl

theorem admitResume_suspendedTasks (h : s.admitResume k now = some (d, a, s')) :
    s.suspendedTasks[k]? = some d ∧ s'.suspendedTasks = s.suspendedTasks.eraseIdx k := by
  obtain ⟨w, hw, rfl, hcase⟩ := admitResume_cases h
  have hk : s.suspendedTasks[k]? = some w.task.task := by simp [suspendedTasks, Sem.tasks, hw]
  have hleave (back : Bool) : (s.sem.leave k back).tasks.map (·.task) =
      s.suspendedTasks.eraseIdx k := by
    rw [leave_tasks, suspendedTasks, List.eraseIdx_map]
  refine ⟨hk, ?_⟩
  rcases hcase with ⟨-, -, waited, -, rfl⟩ | ⟨-, -, rfl⟩ | ⟨-, -, rfl⟩
  · exact hleave _
  · exact hleave _
  · exact hleave _

theorem interrupt_suspendedTasks {i : Interrupt} (h : s.interrupt k i = some s') :
    s'.suspendedTasks = s.suspendedTasks := by
  rw [interrupt_eq h]
  simp only [suspendedTasks, interrupt_tasks]
  refine List.ext_getElem? fun j => ?_
  simp only [List.getElem?_map, List.getElem?_modify]
  cases s.sem.tasks[j]? with
  | none => rfl
  | some t => by_cases hk : k = j <;> simp [hk]

@[simp] theorem release_suspendedTasks (c : Bool) :
    (s.release c).suspendedTasks = s.suspendedTasks := by
  simp [suspendedTasks, release]

@[simp] theorem noteSlowConsumer_suspendedTasks (waits : Nat) :
    (s.noteSlowConsumer waits).suspendedTasks = s.suspendedTasks := by
  simp only [noteSlowConsumer]; split <;> rfl

end Scheduler
end InferenceEngine
