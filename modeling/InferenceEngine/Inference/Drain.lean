import InferenceEngine.Inference.SchedulerRun

/-!
# Inference.Drain

Graceful drain: after `begin_drain`, is the idle point that `wait_drained` reports final?

`admit` tests the drain flag on entry only, so a call that queued before the drain began can still
be issued a lease after it. `drained_final_iff` says exactly when the reported idle point is final:
no slot is in use when `wait_drained` returns, and no call is left in the queue that has not been
told to stop. `drained_then_admitted` is a run in which it is not.

* `quiet_step`: with the queue empty of live calls, a draining scheduler never issues a lease.
* `live_waiter_admitted`: with a live call in the queue and no slot in use, some call can run and
  be issued one.
-/

namespace InferenceEngine
namespace SchedulerRun

open Semaphore Lts

/-- A `wait_drained` call returns `True` in the step from `s` to `s'`. -/
def ReturnsDrained (s s' : Sys) : Prop :=
  ∃ d : Nat, s'.drains[d]? = some (.returned true) ∧ s.drains[d]? ≠ some (.returned true)

/-- Draining, nothing in use, and every call still in the queue is about to be interrupted. -/
structure Quiet (s : Sys) : Prop where
  draining : s.sched.draining = true
  inUse : s.sched.inUse = 0
  stopped : ∀ c ∈ s.sched.sem.tasks, c.interrupt ≠ none

variable {cfg : SchedulerConfig} {s s' : Sys}

theorem wake_returned {c : DrainCall} (h : c.wake = .returned true) : c = .returned true := by
  cases c with
  | waiting w => cases h
  | returned b => exact h

/-- The step in which `wait_drained` returns is a step of that call alone. -/
theorem returnsDrained_sched {e : Ev} (h : step s e = some s') (hr : ReturnsDrained s s') :
    s'.sched = s.sched := by
  obtain ⟨d, hd', hd⟩ := hr
  have hsame (s₁ : Sys) (heq : s₁.drains = s.drains) : s₁ ≠ s' := by
    rintro rfl
    rw [heq] at hd'
    exact hd hd'
  cases e with
  | admitStart now => cases h; exact absurd rfl (hsame _ rfl)
  | resume k now =>
    simp only [step] at h
    split at h
    · cases h
    · cases h; exact absurd rfl (hsame _ rfl)
  | interrupt k i =>
    simp only [step, Option.map_eq_some_iff] at h
    obtain ⟨sc, -, rfl⟩ := h
    exact absurd rfl (hsame _ rfl)
  | release i c =>
    simp only [step] at h
    split at h
    · cases h
    · cases h
      simp only at hd'
      split at hd'
      · rw [List.getElem?_map] at hd'
        cases hc : s.drains[d]? with
        | none => rw [hc] at hd'; cases hd'
        | some c =>
          rw [hc] at hd' hd
          simp only [Option.map_some, Option.some.injEq] at hd'
          exact absurd (congrArg some (wake_returned hd')) hd
      · exact absurd hd' hd
  | beginDrain => cases h; exact absurd rfl (hsame _ rfl)
  | waitDrained => cases h; rfl
  | drainResume d =>
    simp only [step] at h
    split at h
    · cases h; rfl
    · cases h
  | drainTimeout d =>
    simp only [step] at h
    split at h
    · cases h; rfl
    · cases h
  | noteSlowConsumer n => cases h; exact absurd rfl (hsame _ rfl)

theorem quiet_resume {k : Nat} {now : ℚ} (hq : Quiet s) (h : step s (.resume k now) = some s') :
    Quiet s' := by
  simp only [step] at h
  cases hr : s.sched.admitResume k now with
  | none => rw [hr] at h; cases h
  | some r =>
    obtain ⟨u, a, sc⟩ := r
    rw [hr] at h
    cases h
    obtain ⟨w, hk, -, hcase⟩ := Scheduler.admitResume_cases hr
    have hmem : w.task ∈ s.sched.sem.tasks :=
      List.mem_map.mpr ⟨w, List.mem_of_getElem? hk, rfl⟩
    have hleave (back : Bool) : ∀ c ∈ (s.sched.sem.leave k back).tasks, c.interrupt ≠ none := by
      intro c hc
      rw [leave_tasks] at hc
      exact hq.stopped c (List.mem_of_mem_eraseIdx hc)
    rcases hcase with ⟨hi, -, -, -, -⟩ | ⟨-, -, rfl⟩ | ⟨-, -, rfl⟩
    · exact absurd hi (hq.stopped _ hmem)
    · exact ⟨hq.draining, hq.inUse, hleave _⟩
    · exact ⟨hq.draining, hq.inUse, hleave _⟩

theorem quiet_step (hs : s.Sound cfg) (hq : Quiet s) {e : Ev} (h : step s e = some s') :
    Quiet s' := by
  cases e with
  | admitStart now =>
    cases h
    have hadm : s.sched.admitStart () now =
        ((s.sched.admitStart () now).1, (s.sched.admitStart () now).2) := rfl
    rcases Scheduler.admit_cases hadm with ⟨exc, -, he⟩ | ⟨-, hd, -⟩ | ⟨-, hd, -⟩
    · refine ⟨?_, ?_, ?_⟩ <;> simp only [Sys.note, he]
      · exact hq.draining
      · exact hq.inUse
      · exact hq.stopped
    · rw [hq.draining] at hd; cases hd
    · rw [hq.draining] at hd; cases hd
  | resume k now => exact quiet_resume hq h
  | interrupt k i =>
    simp only [step, Option.map_eq_some_iff] at h
    obtain ⟨sc, hi, rfl⟩ := h
    rw [Scheduler.interrupt_eq hi]
    refine ⟨hq.draining, hq.inUse, ?_⟩
    intro c hc
    rw [interrupt_tasks] at hc
    obtain ⟨j, hj⟩ := List.getElem?_of_mem hc
    rw [List.getElem?_modify] at hj
    cases ht : s.sched.sem.tasks[j]? with
    | none => rw [ht] at hj; split at hj <;> cases hj
    | some c₀ =>
      rw [ht] at hj
      split at hj
      · cases hj; simp
      · cases hj; exact hq.stopped _ (List.mem_of_getElem? ht)
  | release i c =>
    simp only [step] at h
    cases hl : s.leases[i]? with
    | none => rw [hl] at h; cases h
    | some l =>
      rw [hl] at h
      cases h
      -- every lease has been released already, so this is a repeated release
      have hr : l.released = true := by
        by_contra hn
        have := Count.countP_pos_of_getElem? (p := fun l : SchedulerLease => !l.released) hl
          (by simpa using hn)
        rw [← hs.inUse_eq, hq.inUse] at this
        omega
      refine ⟨?_, ?_, ?_⟩ <;> simp only [SchedulerLease.release, hr, if_true]
      · exact hq.draining
      · exact hq.inUse
      · exact hq.stopped
  | beginDrain => cases h; exact ⟨rfl, hq.inUse, hq.stopped⟩
  | waitDrained => cases h; exact ⟨hq.draining, hq.inUse, hq.stopped⟩
  | drainResume d =>
    simp only [step] at h
    split at h
    · cases h; exact ⟨hq.draining, hq.inUse, hq.stopped⟩
    · cases h
  | drainTimeout d =>
    simp only [step] at h
    split at h
    · cases h; exact ⟨hq.draining, hq.inUse, hq.stopped⟩
    · cases h
  | noteSlowConsumer n =>
    cases h
    by_cases hn : 0 < n
    · simp only [Scheduler.noteSlowConsumer, hn, if_true]
      exact ⟨hq.draining, hq.inUse, hq.stopped⟩
    · simp only [Scheduler.noteSlowConsumer, hn, if_false]
      exact hq

theorem granted_admitted {w : Waiter (Suspended Unit)} (hw : w ∈ s.sched.sem.waiters)
    (hg : w.fut = .granted) (hi : w.task.interrupt = none) :
    ∃ e t, step s e = some t ∧ t.sched.inUse = s.sched.inUse + 1 := by
  obtain ⟨k, hk⟩ := List.getElem?_of_mem hw
  have hst : ∃ t, step s (.resume k 0) = some t ∧ t.sched.inUse = s.sched.inUse + 1 := by
    simp only [step, Scheduler.admitResume, hk, hi, hg, if_true, Option.some.injEq, exists_eq_left']
    rfl
  exact ⟨_, hst⟩

theorem interrupted_passes_on (hs : s.Sound cfg) {v : Waiter (Suspended Unit)}
    (hv : v ∈ s.sched.sem.waiters) (hg : v.fut = .granted) (hi : v.task.interrupt ≠ none)
    (hp : ∃ w ∈ s.sched.sem.waiters, w.fut = .pending) :
    ∃ e t, step s e = some t ∧ t.sched.inUse = s.sched.inUse ∧
      ∃ w ∈ t.sched.sem.waiters, w.fut = .granted ∧ w.task.interrupt = none := by
  obtain ⟨k, hk⟩ := List.getElem?_of_mem hv
  obtain ⟨w, hw, hwp, hm⟩ := leave_hands_on s.sched.sem hk hg hp
  have hwi := (hs.sched.fut_ok w hw).1 hwp
  have hst : ∃ t, step s (.resume k 0) = some t ∧ t.sched.inUse = s.sched.inUse ∧
      t.sched.sem = s.sched.sem.leave k true := by
    cases hint : v.task.interrupt with
    | none => exact absurd hint hi
    | some i =>
      cases i <;>
        simp only [step, Scheduler.admitResume, hk, hint, hg, decide_true, Option.some.injEq,
          exists_eq_left'] <;>
        exact ⟨rfl, rfl⟩
  obtain ⟨t, ht, htu, hts⟩ := hst
  exact ⟨_, t, ht, htu, ⟨w.task, .granted⟩, hts ▸ hm, rfl, hwi⟩

/-- With a free slot and a live call in the queue, a slot comes into use within two steps: a
granted call runs, or a granted call that is being interrupted passes its permit on first. -/
theorem live_waiter_admitted (hs : s.Sound cfg) (hu : s.sched.inUse = 0)
    (hl : ∃ c ∈ s.sched.sem.tasks, c.interrupt = none) :
    ∃ ls t, Run step s ls t ∧ t.sched.inUse ≠ 0 := by
  obtain ⟨c, hc, hi⟩ := hl
  obtain ⟨w, hw, rfl⟩ := List.mem_map.mp hc
  by_cases hlive : ∃ v ∈ s.sched.sem.waiters, v.fut = .granted ∧ v.task.interrupt = none
  · obtain ⟨v, hv, hg, hvi⟩ := hlive
    obtain ⟨e, t, hst, ht⟩ := granted_admitted hv hg hvi
    exact ⟨[e], t, .single hst, by omega⟩
  · have hp : w.fut = .pending := by
      cases hf : w.fut with
      | pending => rfl
      | granted => exact absurd ⟨w, hw, hf, hi⟩ hlive
      | cancelled => exact absurd hi ((hs.sched.fut_ok w hw).2 hf)
    have hpos := s.sched.cfg.maxConcurrency_pos
    have hcons := hs.sched.conserved
    have hgr : 0 < s.sched.sem.granted := by
      by_cases hv : 0 < s.sched.sem.value
      · exact hs.sched.noLost ⟨w, hw, hp⟩ hv
      · simp only [Sem.permits] at hcons
        omega
    obtain ⟨v, hv, hg⟩ := (granted_pos_iff _).mp hgr
    have hvi : v.task.interrupt ≠ none := fun h => hlive ⟨v, hv, hg, h⟩
    obtain ⟨e, t, hst, htu, u, hu', hug, hui⟩ := interrupted_passes_on hs hv hg hvi ⟨w, hw, hp⟩
    obtain ⟨e', t', hst', ht'⟩ := granted_admitted hu' hug hui
    exact ⟨[e, e'], t', .cons hst (.single hst'), by omega⟩

/-- **When the reported idle point is final.** In any run, if `wait_drained` returns `True` while
the scheduler is draining, no request ever holds a slot again exactly when no slot is in use at
that moment and every call left in the queue is already being interrupted. -/
theorem drained_final_iff (cfg : SchedulerConfig) {ls : List Ev} {s s' : Sys} {e : Ev}
    (h : Run step (Sys.init cfg) ls s) (hd : s.sched.draining = true)
    (hst : step s e = some s') (hr : ReturnsDrained s s') :
    (∀ ls' t, Run step s' ls' t → t.sched.inUse = 0) ↔
      s.sched.inUse = 0 ∧ ∀ c ∈ s.sched.sem.tasks, c.interrupt ≠ none := by
  have hs := run_sound h
  have hs' := scheduler_step_sound hs hst
  have he := returnsDrained_sched hst hr
  constructor
  · intro hall
    have hu : s'.sched.inUse = 0 := hall [] s' .refl
    refine ⟨he ▸ hu, ?_⟩
    by_contra hne
    push Not at hne
    rw [← he] at hne
    obtain ⟨ls', t, hrun, ht⟩ := live_waiter_admitted hs' hu hne
    exact ht (hall ls' t hrun)
  · rintro ⟨hu, hc⟩ ls' t hrun
    have hq : Quiet s' := ⟨he ▸ hd, he ▸ hu, he ▸ hc⟩
    -- the books are carried along: a repeated release is told from a first one by them
    have hinv : t.Sound cfg ∧ Quiet t :=
      hrun.invariant (P := fun t => t.Sound cfg ∧ Quiet t)
        (fun _ _ _ hp hst => ⟨scheduler_step_sound hp.1 hst, quiet_step hp.1 hp.2 hst⟩) ⟨hs', hq⟩
    exact hinv.2.inUse

/-- A call has been cancelled in the queue and has not run since; the running request has released
its slot and woken the `wait_drained` call. -/
def stoppedQueue : Sys :=
  (exec step (Sys.init oneSlot)
    [.admitStart 0, .admitStart 0, .interrupt 0 .cancel, .beginDrain, .waitDrained,
      .release 0 false]).get
    (by decide +kernel)

theorem drained_final_stoppedQueue :
    stoppedQueue.sched.sem.tasks.length = 1 ∧
    ∃ s', step stoppedQueue (.drainResume 0) = some s' ∧ ReturnsDrained stoppedQueue s' ∧
      ∀ ls' t, Run step s' ls' t → t.sched.inUse = 0 := by
  have hret : ReturnsDrained stoppedQueue ((step stoppedQueue (.drainResume 0)).get
      (by decide +kernel)) := ⟨0, by decide +kernel, by decide +kernel⟩
  refine ⟨by decide +kernel, _, by simp, hret, ?_⟩
  have hrun : Run step (Sys.init oneSlot)
      [.admitStart 0, .admitStart 0, .interrupt 0 .cancel, .beginDrain, .waitDrained,
        .release 0 false]
      stoppedQueue :=
    run_of_exec (by simp [stoppedQueue])
  refine (drained_final_iff oneSlot (s := stoppedQueue) (e := .drainResume 0) hrun
    (by decide +kernel) (by simp) hret).mpr ?_
  exact ⟨by decide +kernel, by decide +kernel⟩

/-- The same with a call in the queue that nobody has cancelled. -/
def queuedDrain : Sys :=
  (exec step (Sys.init oneSlot)
    [.admitStart 0, .admitStart 0, .beginDrain, .waitDrained, .release 0 false]).get
      (by decide +kernel)

/-- `wait_drained` has just returned `True`. -/
def reportedIdle : Sys := (step queuedDrain (.drainResume 0)).get (by decide +kernel)

/-- After `wait_drained` returned `True` the queued call is issued a lease. -/
theorem drained_then_admitted :
    Run step (Sys.init oneSlot) [.admitStart 0, .admitStart 0, .beginDrain, .waitDrained,
      .release 0 false]
      queuedDrain ∧ queuedDrain.sched.draining = true ∧
    step queuedDrain (.drainResume 0) = some reportedIdle ∧
    ReturnsDrained queuedDrain reportedIdle ∧
    ∃ t, Run step reportedIdle [.resume 0 0] t ∧ t.sched.inUse = 1 := by
  refine ⟨run_of_exec (by simp [queuedDrain]), by decide +kernel, by simp [reportedIdle],
    ⟨0, by decide +kernel, by decide +kernel⟩,
    (step reportedIdle (.resume 0 0)).get (by decide +kernel), .single (by simp),
    by decide +kernel⟩

end SchedulerRun
end InferenceEngine
