import InferenceEngine.Serving.Balance

/-!
# Serving.Calls

Every call of `start_generation_core`, however it ends, among any other requests. A call that was
made is suspended in `admit`, has raised, or has returned one `Served` (`step_calls`,
`step_returned`), and the four counts are what the live `Served` objects and the suspended calls
account for (`Balanced`): a call that has raised has left nothing in them.

* `balanced_iff`: this holds throughout a run exactly when its steps satisfy `KeepsCounts`.
* `cancelledInQueue_leaks`: a queued call of an API key is cancelled, and its limiter slot stays
  taken.
-/

namespace InferenceEngine

/-- The index of the `Served` that was returned. -/
def CallEnd.served : CallEnd → Option Nat
  | .returned i => some i
  | .raised _ | .acquireRaised _ | .generateRaised .. => none

namespace App

open Lts

/-- The calls made so far: those that have ended, and those suspended in `admit`. -/
def calls (s : App) : Nat := s.ends.length + s.scheduler.suspendedTasks.length

def Ev.isStart : Ev → Bool
  | .start .. => true
  | _ => false

/-- The calls that returned are the `Served` objects, one each. -/
def Returned (s : App) : Prop := s.ends.filterMap CallEnd.served = List.range s.served.length

/-- The four counts are what the live `Served` objects account for, each with what a `Served` should
hold, and the suspended calls (one limiter slot each, unless its key is the local one). The gauge
also keeps the requests whose `finish_generation` raised, and the limiter the slots of those of them
whose cost could not be computed. -/
structure Balanced (s : App) : Prop where
  inUse : s.scheduler.inUse = s.unfinished
  inFlight : ∀ i, s.registry.inFlight i =
    s.served.countP fun v => !v.finished && v.registryLease.entry == i
  active : s.counters.requestsActive = s.unfinished + s.served.countP Served.failed
  limiter : ∀ k, s.gateway.limiter.inflight k =
    s.served.countP (fun v => (!v.finished || v.costFailed) && v.access.holds k) +
      s.scheduler.suspendedTasks.countP fun p => p.access.keyId != localKeyId && p.access.keyId == k
  held : ∀ v ∈ s.served, v.finished = false → v.Held s.registry
  returned : s.Returned

variable {digest : List UInt8 → Nat} {s s' t : App}

theorem Returned.congr (h : s.Returned) (hserved : s'.served.length = s.served.length)
    (hends : s'.ends = s.ends) : s'.Returned := by
  rw [Returned, hends, hserved]
  exact h

theorem raised_log (h : s.Returned) (hserved : s'.served = s.served) {e : CallEnd}
    (he : e.served = none) (hends : s'.ends = s.ends ++ [e])
    (htasks : s'.scheduler.suspendedTasks = s.scheduler.suspendedTasks) :
    s'.Returned ∧ s'.calls = s.calls + 1 := by
  constructor
  · rw [Returned, hends, hserved, List.filterMap_append, h]
    simp [he]
  · simp only [calls, hends, htasks, List.length_append, List.length_singleton]
    omega

theorem place_log (h : s.Returned) (p : Pending) (w : ℚ) (gen : Nat → Except Exc Nat) :
    (s.place digest p w gen).Returned ∧ (s.place digest p w gen).calls = s.calls + 1 := by
  have hrel : (s.scheduler.release false).suspendedTasks = s.scheduler.suspendedTasks := by simp
  simp only [place]
  split
  · exact raised_log h rfl rfl rfl hrel
  · rename_i reason _
    cases reason <;> exact raised_log h rfl rfl rfl hrel
  · exact raised_log h rfl rfl rfl rfl
  · rename_i rl registry _
    cases hgen : gen rl.entry with
    | error exc => exact raised_log h rfl rfl rfl hrel
    | ok stream =>
      constructor
      · simp only [Returned, ended, List.filterMap_append, List.length_append,
          List.length_singleton, List.range_succ]
        rw [h]
        rfl
      · simp only [calls, ended, List.length_append, List.length_singleton]
        omega

theorem afterAdmit_log (digest : List UInt8 → Nat) (h : s.Returned) (p : Pending)
    (gen : Nat → Except Exc Nat) (a : Admission) : (s.afterAdmit digest p gen a).Returned ∧
      (s.afterAdmit digest p gen a).calls = s.calls + if a = .suspended then 0 else 1 := by
  cases a with
  | lease w => exact place_log h p w gen
  | saturated exc => exact raised_log h rfl rfl rfl rfl
  | cancelled => exact raised_log h rfl rfl rfl rfl
  | suspended => exact ⟨h, rfl⟩

theorem finishGeneration_scheduler (s : App) (v : Served) (f : FinishCall) :
    (s.finishGeneration v f).2.2.scheduler = (v.lease.release
      (if 0 < f.backpressureWaits then s.scheduler.noteSlowConsumer f.backpressureWaits else s.scheduler)
      f.cancelled).2 := by
  simp only [finishGeneration]
  split
  · rfl
  · split <;> rfl

theorem step_log (h : s.Returned) {e : Ev} (hst : step digest s e = some s') :
    s'.Returned ∧ s'.calls = s.calls + if e.isStart then 1 else 0 := by
  cases e with
  | start c ans now gen =>
    cases hst
    simp only [startGenerationCore, Ev.isStart, if_true]
    cases hauth : (s.gateway.authorizeToken c.auth ans).1 with
    | error exc => exact raised_log h rfl rfl rfl rfl
    | ok access =>
      rcases hadm : s.scheduler.admitStart ⟨access, c⟩ now with ⟨adm, sched⟩
      have htasks := Scheduler.admit_suspendedTasks hadm
      simp only [hadm]
      obtain ⟨hret, hcalls⟩ := afterAdmit_log digest
        (s := { s with
          gateway := (s.gateway.authorizeToken c.auth ans).2
          scheduler := sched }) h ⟨access, c⟩ gen adm
      refine ⟨hret, hcalls.trans ?_⟩
      simp only [calls, htasks]
      split
      · simp only [List.length_append, List.length_singleton]
        omega
      · rfl
  | resume k now gen =>
    simp only [step] at hst
    cases hr : s.scheduler.admitResume k now with
    | none => rw [hr] at hst; cases hst
    | some r =>
      obtain ⟨p, a, sched⟩ := r
      rw [hr] at hst
      cases hst
      obtain ⟨hk, htasks⟩ := Scheduler.admitResume_suspendedTasks hr
      have hlt := (List.getElem?_eq_some_iff.mp hk).1
      obtain ⟨hret, hcalls⟩ := afterAdmit_log digest
        (s := { s with scheduler := sched }) h p gen a
      refine ⟨hret, hcalls.trans ?_⟩
      simp only [calls, htasks, List.length_eraseIdx_of_lt hlt, Ev.isStart]
      have hne : a ≠ .suspended := by
        obtain ⟨w, -, -, ⟨-, -, waited, ha, -⟩ | ⟨-, ⟨exc, ha⟩, -⟩ | ⟨-, ha, -⟩⟩ :=
          Scheduler.admitResume_cases hr <;> rw [ha] <;> simp
      simp only [if_neg hne]
      simp
      omega
  | interrupt k i =>
    simp only [step, Option.map_eq_some_iff] at hst
    obtain ⟨sched, hi, rfl⟩ := hst
    refine ⟨h, ?_⟩
    simp only [calls, Scheduler.interrupt_suspendedTasks hi, Ev.isStart]
    rfl
  | finish i f =>
    simp only [step] at hst
    split at hst
    · rename_i v hi
      split at hst
      · cases hst
      · cases hst
        have hends : (s.finishGeneration v f).2.2.ends = s.ends := by
          simp only [finishGeneration]
          split
          · rfl
          · split <;> rfl
        have htasks : (s.finishGeneration v f).2.2.scheduler.suspendedTasks =
            s.scheduler.suspendedTasks := by
          rw [finishGeneration_scheduler]
          simp only [SchedulerLease.release]
          split <;> split <;> simp
        refine ⟨h.congr (by simp) hends, ?_⟩
        simp only [calls, hends, htasks, Ev.isStart]
        rfl
    · cases hst
  | refresh i backend available => cases hst; exact ⟨h, rfl⟩
  | beginDrain => cases hst; exact ⟨h, rfl⟩

theorem run_log {ls : List Ev} (h : Run (step digest) s ls t) (hs : s.Returned) :
    t.calls = s.calls + ls.countP Ev.isStart := by
  induction h with
  | refl => rfl
  | cons hst _ ih =>
    obtain ⟨hret, hcalls⟩ := step_log hs hst
    rw [ih hret, hcalls, List.countP_cons]
    omega

/-- With the other books in order, a state is balanced when the limiter's are, and no lease is
stranded. -/
theorem balanced_iff_slots (hb : s.Books 0) (hr : s.Returned) :
    s.Balanced ↔ s.Slots (fun _ => 0) ∧ s.stranded = 0 := by
  have hserved (k : String) :
      s.served.countP (fun v => (!v.finished || v.costFailed) && v.access.holds k) =
        s.served.countP (·.access.holds k) := by
    refine List.countP_congr fun v hv => ?_
    cases hf : v.finished with
    | false => simp
    | true =>
      cases hc : v.costFailed with
      | true => simp
      | false => simp [ApiAccess.holds, hb.settled v hv hf hc]
  have hpending (k : String) : s.scheduler.suspendedTasks.countP
        (fun p => p.access.keyId != localKeyId && p.access.keyId == k) =
      s.scheduler.suspendedTasks.countP (·.access.holds k) := by
    refine List.countP_congr fun p hp => ?_
    rw [ApiAccess.holds, (hb.pending p hp).slotHeld]
  have hlim (k : String) : (s.gateway.limiter.inflight k =
      s.served.countP (fun v => (!v.finished || v.costFailed) && v.access.holds k) +
        s.scheduler.suspendedTasks.countP fun p =>
          p.access.keyId != localKeyId && p.access.keyId == k) ↔
      s.gateway.limiter.inflight k = s.scheduler.suspendedTasks.countP (·.access.holds k) +
        s.served.countP (·.access.holds k) + 0 := by
    rw [hserved, hpending, Nat.add_zero, Nat.add_comm]
  have hin := hb.inUse
  constructor
  · intro h
    have := h.inUse
    exact ⟨fun k => (hlim k).mp (h.limiter k), by omega⟩
  · rintro ⟨h, hnone⟩
    exact ⟨by omega, hb.inFlight, hb.active, fun k => (hlim k).mpr (h k), hb.held, hr⟩

/-- **Every call leaves the counts as its end says, exactly along the runs that keep them.** In
every run, each call made so far has ended or is suspended; and in every state of the run each
`Served` holds one scheduler lease, one slot in flight, one unit of the gauge and, for a key that is
not the local one, one limiter slot, while a call that ended otherwise has left nothing, if and only
if no suspended call that holds a limiter slot was cancelled, no quota pre-check raised, and every
prefix key had the bytes that its placement asked for. -/
theorem balanced_iff {cfg : AppConfig} {ls : List Ev} (h : Run (step digest) (init cfg) ls t) :
    t.calls = ls.countP Ev.isStart ∧
      (Always (step digest) Balanced (init cfg) ls ↔
        Guarded (step digest) KeepsCounts (init cfg) ls) := by
  refine ⟨(run_log h rfl).trans (Nat.zero_add _), ?_⟩
  refine h.always_iff_guarded_of_invariant (I := fun s => s.Books 0 ∧ s.Returned) ?_ ?_
    ⟨books_init cfg, rfl⟩ ((balanced_iff_slots (books_init cfg) rfl).mpr ⟨slots_init cfg, rfl⟩)
  · rintro s e s' ⟨hb, hr⟩ hst
    exact ⟨step_books hb hst, (step_log hr hst).1⟩
  · rintro s e s' ⟨hb, hr⟩ hbal hst
    obtain ⟨hslots, hnone⟩ := (balanced_iff_slots hb hr).mp hbal
    have hiff := step_slots_iff hb hslots hst
    rw [hnone] at hiff
    exact (balanced_iff_slots (step_books hb hst) (step_log hr hst).1).trans hiff

/-- One ready local backend, one scheduler slot, a queue, no limits. -/
def oneSlot : AppConfig where
  gateway :=
    { requireAuth := true
      quota5hCu := 0
      quotaWeeklyCu := 0
      rateLimitPerMin := 0
      maxConcurrentPerKey := 0 }
  scheduler := .default
  entries := [{ name := "local", kind := "llama_cpp", backend := some ⟨.ready, ⟨"m", false⟩⟩ }]
  idle := by simp

/-- A request with the API key `key`. -/
def request (key : String) (gen : Nat → Except Exc Nat) : Ev :=
  .start
    { token := some key
      endpoint := "/v1/chat/completions"
      modelId := "m"
      routeModel := "m"
      promptText := []
      maxTokens := 1
      requestId := key }
    { verified := .ok (some key)
      now := 0 } 0 gen

/-- The first request is served and finished while the second waits; the backend then refuses the
second. -/
def queuedAndRefused : List Ev :=
  [request "a" fun _ => .ok 0, request "b" fun _ => .ok 1, .finish 0 ⟨none, 0, none, none, 0⟩,
    .resume 0 1 fun _ => .error (.backendBusy "a generation is already running")]

def queuedAndRefusedEnd : App :=
  (exec (step List.length) (init oneSlot) queuedAndRefused).get (by decide +kernel)

theorem balanced_iff_queuedAndRefused :
    Run (step List.length) (init oneSlot) queuedAndRefused queuedAndRefusedEnd ∧
      queuedAndRefusedEnd.calls = 2 ∧
      Always (step List.length) Balanced (init oneSlot) queuedAndRefused := by
  have hrun : Run (step List.length) (init oneSlot) queuedAndRefused queuedAndRefusedEnd :=
    run_of_exec (by simp [queuedAndRefusedEnd])
  obtain ⟨hcalls, hiff⟩ := balanced_iff hrun
  exact ⟨hrun, hcalls, hiff.mpr (by decide +kernel)⟩

/-- The second request is cancelled while it waits in the queue. -/
def cancelledInQueue : List Ev :=
  [request "a" fun _ => .ok 0, request "b" fun _ => .ok 1, .interrupt 0 .cancel,
    .resume 0 1 fun _ => .ok 1]

def cancelledInQueueEnd : App :=
  (exec (step List.length) (init oneSlot) cancelledInQueue).get (by decide +kernel)

/-- The same without the second request. -/
def servedOnce : App :=
  (exec (step List.length) (init oneSlot) [request "a" fun _ => .ok 0]).get (by decide +kernel)

/-- The cancelled call has raised, and its key has one slot more than had it never been made. -/
theorem cancelledInQueue_leaks :
    (∃ s, Run (step List.length) (init oneSlot) cancelledInQueue s ∧
      s.ends = [.returned 0, .raised .cancelledError] ∧
      s.scheduler.suspendedTasks.length = 0 ∧ s.gateway.limiter.inflight "b" = 1) ∧
    ∃ s, Run (step List.length) (init oneSlot) [request "a" fun _ => .ok 0] s ∧
      s.ends = [.returned 0] ∧ s.gateway.limiter.inflight "b" = 0 :=
  ⟨⟨cancelledInQueueEnd, run_of_exec (by simp [cancelledInQueueEnd]), by decide +kernel,
      by decide +kernel, by decide +kernel⟩,
    ⟨servedOnce, run_of_exec (by simp [servedOnce]), by decide +kernel, by decide +kernel⟩⟩

end App
end InferenceEngine
