import InferenceEngine.Lib.Dict

/-!
# Lifecycle.Writers

The writers of the store that the lifespan has to see stopped, besides the downloads: the thread of
the webhook worker and the handlers of the gRPC edge.

* `WebhookTask`: `DeliveryWorker.run_loop`. The task cannot stop its thread; cancelled, it waits for
  it.
* `GrpcEdge`: the calls of `Generate`. A handler is tracked from its first step until its stream is
  closed, which is after its last write; `stop` waits until none is tracked.

Both keep what `idle` and the end of `stop` are read for: `WebhookTask.Inv.idle`,
`GrpcEdge.Inv.no_pending`.
-/

namespace InferenceEngine

namespace WebhookTask

/-- Where the loop is: `batching` and `finishing` wait for the batch. -/
inductive Phase where
  | created
  | batching
  | finishing
  | sleeping
  | done
  deriving DecidableEq

structure St where
  /-- `_stop` -/
  stop : Bool
  phase : Phase
  /-- `task.cancel()` was called, and the task has not run since -/
  cancelling : Bool
  /-- a batch thread runs -/
  thread : Bool
  /-- `_inflight`, and whether it is done -/
  inflight : Option Bool
  deriving DecidableEq

inductive Label where
  /-- the task comes to the head of its loop; the executor may refuse the batch -/
  | run (submits : Bool)
  | threadReturns
  /-- the loop hears of it -/
  | futureDone
  | resume
  | requestStop
  | cancel
  /-- the task runs, with the `CancelledError` -/
  | deliver

namespace St

def init : St := ⟨false, .created, false, false, none⟩

/-- `worker.idle`. -/
def idle (s : St) : Bool := decide (s.inflight ≠ some false)

def loop (s : St) (submits : Bool) : St :=
  if s.stop ∨ submits = false then { s with phase := .done }
  else { s with phase := .batching, thread := true, inflight := some false }

/-- The `while` of `_finish`: it ends with the task when the batch is done. -/
def finish (s : St) : St :=
  { s with cancelling := false, phase := if s.inflight = some true then .done else .finishing }

def deliver (s : St) : St :=
  match s.phase with
  | .batching => { s with stop := true }.finish
  | .finishing => s.finish
  | .created | .sleeping | .done => { s with cancelling := false, phase := .done }

end St

def step (s : St) : Label → Option St
  | .run submits =>
    if (s.phase = .created ∨ s.phase = .sleeping) ∧
      s.cancelling = false then some (s.loop submits) else none
  | .threadReturns => if s.thread then some { s with thread := false } else none
  | .futureDone =>
    if s.inflight = some false ∧ s.thread = false then some { s with inflight := some true }
      else none
  | .resume =>
    if s.inflight = some true ∧ s.cancelling = false then
      match s.phase with
      | .batching => some { s with phase := .sleeping }
      | .finishing => some { s with phase := .done }
      | .created | .sleeping | .done => none
    else none
  | .requestStop => some { s with stop := true }
  | .cancel => if s.phase = .done then none else some { s with cancelling := true }
  | .deliver => if s.cancelling then some s.deliver else none

/-- A running thread is the one that `_inflight` stands for, and the task waits for it. -/
structure Inv (s : St) : Prop where
  pending : s.thread = true → s.inflight = some false
  waits : s.thread = true → s.phase = .batching ∨ s.phase = .finishing

namespace Inv

variable {s s' : St} {l : Label}

theorem init : Inv .init := ⟨fun h => (by cases h), fun h => (by cases h)⟩

theorem idle (h : Inv s) (hidle : s.idle = true) : s.thread = false := by
  cases hthread : s.thread with
  | false => rfl
  | true => exact absurd (h.pending hthread) (of_decide_eq_true hidle)

theorem between (h : Inv s) (hbatching : s.phase ≠ .batching) (hfinishing : s.phase ≠ .finishing) :
    s.thread = false := by
  cases hthread : s.thread with
  | false => rfl
  | true => exact absurd (h.waits hthread) (not_or.mpr ⟨hbatching, hfinishing⟩)

theorem of_no_thread (h : s.thread = false) : Inv s :=
  ⟨fun ht => absurd (h.symm.trans ht) (by decide), fun ht => absurd (h.symm.trans ht) (by decide)⟩

theorem finish (h : Inv s) : Inv s.finish := by
  refine ⟨h.pending, fun ht => .inr ?_⟩
  have hpending : s.inflight ≠ some true := by
    rw [h.pending ht]
    decide
  exact if_neg hpending

theorem deliver (h : Inv s) : Inv s.deliver := by
  unfold St.deliver
  split
  · have hstop : Inv { s with stop := true } := ⟨h.pending, h.waits⟩
    exact hstop.finish
  · exact h.finish
  all_goals
    rename_i hphase
    exact of_no_thread (h.between (by rw [hphase]; decide) (by rw [hphase]; decide))

theorem step (h : Inv s) (hst : step s l = some s') : Inv s' := by
  cases l with
  | run submits =>
    simp only [WebhookTask.step] at hst
    split at hst
    · rename_i hphase
      cases hst
      have hnone : s.thread = false := by
        rcases hphase.1 with hphase | hphase
        · exact h.between (by rw [hphase]; decide) (by rw [hphase]; decide)
        · exact h.between (by rw [hphase]; decide) (by rw [hphase]; decide)
      unfold St.loop
      split
      · exact of_no_thread hnone
      · exact ⟨fun _ => rfl, fun _ => .inl rfl⟩
    · cases hst
  | threadReturns =>
    simp only [WebhookTask.step] at hst
    split at hst
    · cases hst; exact of_no_thread rfl
    · cases hst
  | futureDone =>
    simp only [WebhookTask.step] at hst
    split at hst
    · rename_i hdone
      cases hst
      exact of_no_thread hdone.2
    · cases hst
  | resume =>
    simp only [WebhookTask.step] at hst
    split at hst
    · rename_i hdone
      have hnone : s.thread = false := h.idle (by rw [St.idle, hdone.1]; rfl)
      split at hst
      · cases hst; exact of_no_thread hnone
      · cases hst; exact of_no_thread hnone
      all_goals cases hst
    · cases hst
  | requestStop => cases hst; exact ⟨h.pending, h.waits⟩
  | cancel =>
    simp only [WebhookTask.step] at hst
    split at hst
    · cases hst
    · cases hst; exact ⟨h.pending, h.waits⟩
  | deliver =>
    simp only [WebhookTask.step] at hst
    split at hst
    · cases hst; exact h.deliver
    · cases hst

end Inv

end WebhookTask

namespace GrpcEdge

/-- Where a request is: `starting` before it is served, and `ended` when nothing is left to write
for it. -/
inductive Phase where
  | starting
  | streaming
  | ended
  deriving DecidableEq

structure Handler where
  phase : Phase
  taskDone : Bool
  deriving DecidableEq

/-- The stream, if there is one, is closed; and the `finally` of `Generate` comes after the
request. -/
def Handler.mayClose (h : Handler) (byTask : Bool) : Bool :=
  match h.phase with
  | .starting => if byTask then false else h.taskDone
  | .streaming => false
  | .ended => if byTask then true else h.taskDone

structure St where
  /-- the server may be taking calls -/
  serving : Bool
  /-- `Server.stop` has returned -/
  stopped : Bool
  handlers : Dict Nat Handler
  /-- `_Handlers._open` -/
  tracked : List Nat

inductive Label where
  | start
  /-- a call comes to `Generate` -/
  | call (k : Nat)
  /-- the generation has started, and there is a stream to close -/
  | served (k : Nat)
  /-- it has not, and what it had taken is given back -/
  | refused (k : Nat)
  /-- the call is cancelled while a chunk is being sent: its task ends, and the stream is left as it
  is -/
  | abandoned (k : Nat)
  /-- the last write is made, by the task or by who closes the stream -/
  | finalized (k : Nat)
  | taskEnds (k : Nat)
  /-- `close` ends, in the task itself or in `close_all`, which waits for the task first -/
  | closed (k : Nat) (byTask : Bool)
  | serverStopped
  deriving DecidableEq

namespace St

def init : St := ⟨false, false, [], []⟩

def set (s : St) (k : Nat) (h : Handler) : St := { s with handlers := s.handlers.set k h }

end St

def step (s : St) : Label → Option St
  | .start => some { s with serving := true }
  | .call k =>
    if s.serving ∧ s.stopped = false ∧ s.handlers.get k = none then
      some { s.set k ⟨.starting, false⟩ with tracked := k :: s.tracked }
    else none
  | .served k =>
    match s.handlers.get k with
    | some ⟨.starting, taskDone⟩ => some (s.set k ⟨.streaming, taskDone⟩)
    | _ => none
  | .refused k =>
    match s.handlers.get k with
    | some ⟨.starting, taskDone⟩ => some (s.set k ⟨.ended, taskDone⟩)
    | _ => none
  | .abandoned k =>
    match s.handlers.get k with
    | some ⟨.streaming, false⟩ => some (s.set k ⟨.streaming, true⟩)
    | _ => none
  | .finalized k =>
    match s.handlers.get k with
    | some ⟨.streaming, taskDone⟩ => some (s.set k ⟨.ended, taskDone⟩)
    | _ => none
  | .taskEnds k =>
    match s.handlers.get k with
    | some ⟨.ended, false⟩ => some (s.set k ⟨.ended, true⟩)
    | _ => none
  | .closed k byTask =>
    match s.handlers.get k with
    | some handler =>
      if handler.mayClose byTask then some { s with tracked := s.tracked.filter (· ≠ k) } else none
    | none => none
  | .serverStopped => some { s with stopped := true }

theorem serving_of_step {s s' : St} {l : Label} (hl : l ≠ .start) (hst : step s l = some s') :
    s'.serving = s.serving := by
  cases l with
  | start => exact absurd rfl hl
  | call k =>
    simp only [step] at hst
    split at hst
    · cases hst; rfl
    · cases hst
  | closed k byTask =>
    simp only [step] at hst
    split at hst
    · split at hst
      · cases hst; rfl
      · cases hst
    · cases hst
  | serverStopped => cases hst; rfl
  | _ =>
    simp only [step] at hst
    split at hst
    · cases hst; rfl
    · cases hst

structure Inv (s : St) : Prop where
  tracked : ∀ k handler, s.handlers.get k = some handler → handler.phase ≠ .ended → k ∈ s.tracked
  /-- a cancellation before the request is served goes through its task -/
  alive : ∀ k handler, s.handlers.get k = some handler → handler.phase = .starting →
    handler.taskDone = false
  silent : s.serving = false → s.handlers = [] ∧ s.tracked = []

namespace Inv

variable {s s' : St} {l : Label} {k : Nat}

theorem init : Inv .init where
  tracked := fun _ _ h => (by cases h)
  alive := fun _ _ h => (by cases h)
  silent := fun _ => ⟨rfl, rfl⟩

theorem no_pending (h : Inv s) (hnone : s.tracked = []) {handler : Handler}
    (hget : s.handlers.get k = some handler) :
    handler.phase = .ended := by
  by_contra hphase
  have hmem := h.tracked k handler hget hphase
  rw [hnone] at hmem
  cases hmem

theorem set (h : Inv s) {old new : Handler} (hget : s.handlers.get k = some old)
    (hphase : new.phase ≠ .ended → old.phase ≠ .ended) (hstarting : new.phase ≠ .starting) :
    Inv (s.set k new) := by
  refine ⟨?_, ?_, ?_⟩
  · intro j handler hj hne
    rw [St.set, Dict.get_set] at hj
    split at hj
    · cases hj
      rename_i heq
      subst heq
      exact h.tracked j old hget (hphase hne)
    · exact h.tracked j handler hj hne
  · intro j handler hj hne
    rw [St.set, Dict.get_set] at hj
    split at hj
    · cases hj
      exact absurd hne hstarting
    · exact h.alive j handler hj hne
  · intro hserving
    rw [(h.silent hserving).1] at hget
    cases hget

theorem call (h : Inv s) (hserving : s.serving = true) :
    Inv { s.set k ⟨.starting, false⟩ with tracked := k :: s.tracked } := by
  refine ⟨?_, ?_, ?_⟩
  · intro j handler hj hne
    by_cases heq : j = k
    · exact List.mem_cons.mpr (.inl heq)
    · rw [St.set, Dict.get_set, if_neg heq] at hj
      exact List.mem_cons_of_mem _ (h.tracked j handler hj hne)
  · intro j handler hj hne
    by_cases heq : j = k
    · rw [St.set, Dict.get_set, if_pos heq] at hj
      cases hj
      rfl
    · rw [St.set, Dict.get_set, if_neg heq] at hj
      exact h.alive j handler hj hne
  · intro hoff
    rw [show s.serving = false from hoff] at hserving
    cases hserving

theorem closed (h : Inv s) {handler : Handler} {byTask : Bool}
    (hget : s.handlers.get k = some handler) (hmay : handler.mayClose byTask = true) :
    Inv { s with tracked := s.tracked.filter (· ≠ k) } := by
  have hended : handler.phase = .ended := by
    unfold Handler.mayClose at hmay
    split at hmay
    · rename_i hphase
      rw [h.alive k handler hget hphase] at hmay
      cases byTask <;> cases hmay
    · cases hmay
    · assumption
  refine ⟨?_, h.alive, ?_⟩
  · intro j handler' hj hne
    refine List.mem_filter.mpr ⟨h.tracked j handler' hj hne, decide_eq_true ?_⟩
    rintro rfl
    cases hget.symm.trans hj
    exact hne hended
  · intro hserving
    obtain ⟨hhandlers, htracked⟩ := h.silent hserving
    exact ⟨hhandlers, by rw [htracked]; rfl⟩

theorem step (h : Inv s) (hst : step s l = some s') : Inv s' := by
  cases l with
  | start => cases hst; exact ⟨h.tracked, h.alive, fun h => (by cases h)⟩
  | call k =>
    simp only [GrpcEdge.step] at hst
    split at hst
    · rename_i hmay
      cases hst
      exact h.call hmay.1
    · cases hst
  | served k =>
    simp only [GrpcEdge.step] at hst
    split at hst
    · rename_i hget
      cases hst
      exact h.set hget (fun _ h => by cases h) (fun h => by cases h)
    · cases hst
  | refused k =>
    simp only [GrpcEdge.step] at hst
    split at hst
    · rename_i hget
      cases hst
      exact h.set hget (fun hne => absurd rfl hne) (fun h => by cases h)
    · cases hst
  | abandoned k =>
    simp only [GrpcEdge.step] at hst
    split at hst
    · rename_i hget
      cases hst
      exact h.set hget (fun _ h => by cases h) (fun h => by cases h)
    · cases hst
  | finalized k =>
    simp only [GrpcEdge.step] at hst
    split at hst
    · rename_i hget
      cases hst
      exact h.set hget (fun hne => absurd rfl hne) (fun h => by cases h)
    · cases hst
  | taskEnds k =>
    simp only [GrpcEdge.step] at hst
    split at hst
    · rename_i hget
      cases hst
      exact h.set hget (fun hne => absurd rfl hne) (fun h => by cases h)
    · cases hst
  | closed k byTask =>
    simp only [GrpcEdge.step] at hst
    split at hst
    · rename_i hget
      split at hst
      · rename_i hmay
        cases hst
        exact h.closed hget hmay
      · cases hst
    · cases hst
  | serverStopped => cases hst; exact ⟨h.tracked, h.alive, h.silent⟩

/-- After the server has stopped, what is not tracked stays so. -/
theorem tracked_of_stopped (hstopped : s.stopped = true) (hnone : s.tracked = [])
    (hst : GrpcEdge.step s l = some s') :
    s'.stopped = true ∧ s'.tracked = [] := by
  cases l with
  | call k =>
    simp only [GrpcEdge.step] at hst
    split at hst
    · rename_i hmay
      rw [hstopped] at hmay
      cases hmay.2.1
    · cases hst
  | closed k byTask =>
    simp only [GrpcEdge.step] at hst
    split at hst
    · split at hst
      · cases hst
        exact ⟨hstopped, by rw [hnone]; rfl⟩
      · cases hst
    · cases hst
  | start => cases hst; exact ⟨hstopped, hnone⟩
  | serverStopped => cases hst; exact ⟨rfl, hnone⟩
  | _ =>
    simp only [GrpcEdge.step] at hst
    split at hst
    · cases hst; exact ⟨hstopped, hnone⟩
    · cases hst

end Inv

end GrpcEdge

end InferenceEngine
