import InferenceEngine.Lifecycle.Writers
import InferenceEngine.Models.Ownership

/-!
# Lifecycle.Shutdown

The lifespan of an engine: it takes the locks of its store, serves, cleans up and decides whether to
give the locks back. The cleanup is a task of eight steps, each of which may fail; it may be cut
short by a cancellation of its own. A cancellation of the lifespan does not reach it, nor the
draining after it: what they wait for is shielded.

`_live_writers` reads flags, tasks and tables. `Inv` says what these tell about the threads and the
handlers themselves, and `released_quiet` follows: whatever fails or is cancelled, the locks are
given up only when nobody can write.
-/

namespace InferenceEngine
namespace Lifespan

open Lts

inductive Grpc where
  | disabled
  | owned
  | stopping
  | terminated
  deriving DecidableEq

inductive CleanupStep where
  | grpc
  | drain
  | healthTask
  | webhookTask
  | remoteWorkers
  | telemetry
  | modelService
  | backend
  deriving DecidableEq

def CleanupStep.all : List CleanupStep :=
  [.grpc, .drain, .healthTask, .webhookTask, .remoteWorkers, .telemetry, .modelService, .backend]

/-- Where the cleanup is: the steps that are left, and whether the first of them has begun. -/
inductive Cleanup where
  | running (left : List CleanupStep) (begun : Bool)
  | completed
  | cut
  deriving DecidableEq

inductive Phase where
  | idle
  /-- before the `try` of `_serve` -/
  | starting
  /-- in the `try`: the workers are being started -/
  | opening
  | serving
  /-- waiting for the cleanup -/
  | cleaning
  /-- in `_drain_owned_work` -/
  | draining
  | ended
  | exited
  deriving DecidableEq

structure St where
  phase : Phase
  /-- the locks of the store -/
  held : Bool
  /-- `app.state.store_ownership_retained` -/
  retained : Bool
  /-- `log_collector.persist` -/
  persist : Bool
  service : ModelService.St
  /-- `webhook_task` and `webhook_worker` -/
  webhooks : Option WebhookTask.St
  edge : GrpcEdge.St
  grpc : Grpc
  cleanup : Option Cleanup

inductive Label where
  | acquire (succeeds : Bool)
  | enter
  | startWebhooks
  /-- `create_grpc_server`; the start is awaited after it -/
  | createGrpc
  | yields
  /-- an exception, a cancellation of the lifespan, or the end of serving -/
  | leave
  /-- a cancellation of the lifespan while it waits for what is shielded -/
  | cancel
  /-- the cleanup comes to its next step -/
  | begins
  | ends (succeeds : Bool)
  /-- the cleanup task is cancelled -/
  | cut
  /-- `_complete` returns -/
  | cleaned
  /-- `_drain_owned_work` ends, and the lifespan with it -/
  | drained (succeeds : Bool)
  /-- what nobody refers to is collected -/
  | collect
  | exit
  | service (label : ModelService.Label)
  | webhooks (label : WebhookTask.Label)
  | edge (label : GrpcEdge.Label)

namespace St

def init (rows : List ModelRecord) (files : FileTree String) : St where
  phase := .idle
  held := false
  retained := false
  persist := false
  service := .init rows files
  webhooks := none
  edge := .init
  grpc := .disabled
  cleanup := none

/-- `model_service.owns_work()`. -/
def ownsWork (s : St) : Bool := !s.service.tasks.isEmpty

/-- `_live_writers`. -/
def liveWriters (s : St) : List String :=
  (if s.ownsWork then ["downloads"] else []) ++
    (if s.webhooks.any fun w => w.phase ≠ .done then ["webhook_task"] else []) ++
    (if s.webhooks.any fun w => !w.idle then ["webhook_thread"] else []) ++
    (if s.grpc = .disabled ∨ s.grpc = .terminated then [] else ["grpc"]) ++
    (if s.cleanup = none ∨ s.cleanup = some .completed then [] else ["cleanup"])

def acquire (s : St) (succeeds : Bool) : St :=
  if succeeds then { s with phase := .starting, held := true, persist := true }
    else { s with phase := .ended }

/-- The lifespan leaves `_serve`: through its `finally` if it has come so far. -/
def leave (s : St) : Option St :=
  match s.phase with
  | .starting => some { s with phase := .draining }
  | .opening | .serving =>
    some { s with phase := .cleaning, cleanup := some (.running CleanupStep.all false) }
  | _ => none

/-- What a step of the cleanup does before it waits. -/
def begins (s : St) (step : CleanupStep) : St :=
  match step with
  | .grpc => if s.grpc = .disabled then s else { s with grpc := .stopping }
  | .webhookTask =>
    { s with webhooks := s.webhooks.map fun w => { w with
      stop := true, cancelling := decide (w.phase ≠ .done) } }
  | .modelService => { s with service := s.service.shutdownTurn }
  | _ => s

/-- What the step has waited for. -/
def finished (s : St) : CleanupStep → Bool
  | .grpc => decide (s.grpc = .disabled) || (s.edge.stopped && s.edge.tracked.isEmpty)
  | .webhookTask => s.webhooks.all fun w => w.phase = .done
  | .modelService => s.service.tasks.isEmpty
  | _ => true

/-- What it does after that. -/
def afterwards (s : St) : CleanupStep → St
  | .grpc => if s.grpc = .disabled then s else { s with grpc := .terminated }
  | _ => s

def ends (s : St) (succeeds : Bool) : Option St :=
  match s.cleanup with
  | some (.running (step :: left) true) =>
    let next : Cleanup := if left.isEmpty then .completed else .running left false
    if succeeds then
      if s.finished step then some { s.afterwards step with cleanup := some next } else none
    else some { s with cleanup := some next }
  | _ => none

/-- The `finally` of the lifespan. -/
def conclude (s : St) : St :=
  if s.liveWriters = [] then { s with persist := false, held := false, phase := .ended }
  else { s with retained := true, phase := .ended }

end St

def step (p : Paths) (s : St) (l : Label) : Option St :=
  if s.phase = .exited then none
  else
    match l with
    | .acquire succeeds => if s.phase = .idle then some (s.acquire succeeds) else none
    | .enter => if s.phase = .starting then some { s with phase := .opening } else none
    | .startWebhooks =>
      if s.phase = .opening ∧ s.webhooks = none then some { s with webhooks := some .init }
        else none
    | .createGrpc =>
      if s.phase = .opening ∧ s.grpc = .disabled then some { s with grpc := .owned } else none
    | .yields => if s.phase = .opening then some { s with phase := .serving } else none
    | .leave => s.leave
    | .cancel => if s.phase = .cleaning ∨ s.phase = .draining then some s else none
    | .begins =>
      match s.cleanup with
      | some (.running (step :: left) false) =>
        some { s.begins step with cleanup := some (.running (step :: left) true) }
      | _ => none
    | .ends succeeds => s.ends succeeds
    | .cut =>
      match s.cleanup with
      | some (.running _ _) => some { s with cleanup := some .cut }
      | _ => none
    | .cleaned =>
      if s.phase = .cleaning ∧ (s.cleanup = some .completed ∨ s.cleanup = some .cut) then
        some { s with phase := .draining }
      else none
    | .drained succeeds =>
      if s.phase = .draining ∧ (succeeds → s.service.tasks.isEmpty) then some s.conclude else none
    | .collect =>
      if s.phase = .ended ∧ s.retained = false then some { s with held := false } else none
    | .exit => some { s with phase := .exited, held := false }
    | .service .restart => none
    | .service label => (ModelService.step p s.service label).map fun service => { s with service }
    | .webhooks label =>
      s.webhooks.bind fun w => (WebhookTask.step w label).map fun w => { s with webhooks := some w }
    | .edge label =>
      -- the server is started after it was created, and stopped by the cleanup
      if label = .start ∧ s.grpc = .disabled ∨ label = .serverStopped ∧ s.grpc ≠ .stopping then none
      else
        (GrpcEdge.step s.edge label).map fun edge => { s with edge }

/-- Nothing can write the store: no thread of a download, no batch of webhooks, no gRPC request with
a write to make, and no log. -/
structure Quiet (s : St) : Prop where
  downloads : s.service.threads = []
  webhooks : ∀ w, s.webhooks = some w → w.thread = false
  handlers : ∀ k handler, s.edge.handlers.get k = some handler → handler.phase = .ended
  logs : s.persist = false

/-- The locks are given up at the exit, or when all is quiet. -/
def ReleasedQuiet (s : St) (l : Label) (s' : St) : Prop :=
  s.held = true → s'.held = false → l = .exit ∨ Quiet s'

structure Inv (s : St) : Prop where
  service : ModelService.Owned s.service
  webhooks : ∀ w, s.webhooks = some w → WebhookTask.Inv w
  edge : GrpcEdge.Inv s.edge
  disabled : s.grpc = .disabled → s.edge.serving = false
  terminated : s.grpc = .terminated → s.edge.stopped = true ∧ s.edge.tracked = []

/-- What is still held after the end is referred to. -/
structure Locks (s : St) : Prop where
  idle : s.phase = .idle → s.held = false
  ended : s.phase = .ended → s.held = true → s.retained = true

variable {p : Paths} {s s' : St} {l : Label}

namespace Inv

theorem init (rows : List ModelRecord) (files : FileTree String) (hids : (rows.map (·.id)).Nodup) :
    Inv (.init rows files) where
  service := .init rows files hids
  webhooks := fun _ h => (by cases h)
  edge := .init
  disabled := fun _ => rfl
  terminated := fun h => (by cases h)

theorem begins (h : Inv s) (step : CleanupStep) : Inv (s.begins step) := by
  unfold St.begins
  split
  · split
    · exact h
    · exact ⟨h.service, h.webhooks, h.edge, fun h => (by cases h), fun h => (by cases h)⟩
  · refine ⟨h.service, ?_, h.edge, h.disabled, h.terminated⟩
    intro w hw
    obtain ⟨w₀, hw₀, rfl⟩ := Option.map_eq_some_iff.mp hw
    have hinv := h.webhooks w₀ hw₀
    exact ⟨hinv.pending, hinv.waits⟩
  · exact ⟨h.service.shutdownTurn, h.webhooks, h.edge, h.disabled, h.terminated⟩
  · exact h

theorem afterwards (h : Inv s) {step : CleanupStep} (hfinished : s.finished step = true) :
    Inv (s.afterwards step) := by
  unfold St.afterwards
  split
  · split
    · exact h
    · rename_i hgrpc
      simp only [St.finished, hgrpc, decide_false, Bool.false_or, Bool.and_eq_true,
        List.isEmpty_iff] at hfinished
      exact ⟨h.service, h.webhooks, h.edge, fun h => (by cases h), fun _ => hfinished⟩
  · exact h

theorem ends (h : Inv s) {succeeds : Bool} (hst : s.ends succeeds = some s') : Inv s' := by
  unfold St.ends at hst
  split at hst
  · rename_i step left _
    simp only at hst
    split at hst
    · split at hst
      · rename_i hfinished
        cases hst
        exact { h.afterwards hfinished with }
      · cases hst
    · cases hst
      exact { h with }
  · cases hst

theorem conclude (h : Inv s) : Inv s.conclude := by
  unfold St.conclude
  split
  · exact { h with }
  · exact { h with }

theorem setEdge (h : Inv s) {label : GrpcEdge.Label} {edge : GrpcEdge.St}
    (hstart : label = .start → s.grpc ≠ .disabled)
    (hst : GrpcEdge.step s.edge label = some edge) : Inv { s with edge := edge } := by
  refine ⟨h.service, h.webhooks, h.edge.step hst, ?_, ?_⟩
  · intro hgrpc
    have hoff := h.disabled hgrpc
    have hne : label ≠ .start := fun heq => hstart heq hgrpc
    exact (GrpcEdge.serving_of_step hne hst).trans hoff
  · intro hgrpc
    obtain ⟨hstopped, hnone⟩ := h.terminated hgrpc
    exact GrpcEdge.Inv.tracked_of_stopped hstopped hnone hst

theorem quiet (h : Inv s) (hlive : s.liveWriters = []) :
    Quiet { s with persist := false, held := false, phase := .ended } := by
  unfold St.liveWriters at hlive
  simp only [List.append_eq_nil_iff] at hlive
  obtain ⟨⟨⟨⟨hdownloads, -⟩, hthread⟩, hgrpc⟩, -⟩ := hlive
  refine ⟨?_, ?_, ?_, rfl⟩
  · have hnone : s.service.tasks = [] := by
      unfold St.ownsWork at hdownloads
      cases htasks : s.service.tasks with
      | nil => rfl
      | cons e tasks =>
        rw [htasks] at hdownloads
        cases hdownloads
    exact (h.service.nothing_owned hnone).2.2
  · intro w hw
    replace hw : s.webhooks = some w := hw
    refine (h.webhooks w hw).idle ?_
    rw [hw] at hthread
    cases hidle : w.idle with
    | true => rfl
    | false =>
      simp only [Option.any_some, hidle, Bool.not_false, if_true] at hthread
      cases hthread
  · intro k handler hget
    have hstate : s.grpc = .disabled ∨ s.grpc = .terminated := by
      by_contra hne
      rw [if_neg hne] at hgrpc
      cases hgrpc
    rcases hstate with hoff | hend
    · rw [show s.edge.handlers = [] from (h.edge.silent (h.disabled hoff)).1] at hget
      cases hget
    · exact h.edge.no_pending (h.terminated hend).2 hget

theorem step (h : Inv s) (hst : step p s l = some s') : Inv s' := by
  unfold Lifespan.step at hst
  split at hst
  · cases hst
  cases l with
  | acquire succeeds =>
    simp only at hst
    split at hst
    · cases hst
      cases succeeds with
      | true => exact { h with }
      | false => exact { h with }
    · cases hst
  | enter =>
    simp only at hst
    split at hst
    · cases hst; exact { h with }
    · cases hst
  | startWebhooks =>
    simp only at hst
    split at hst
    · cases hst
      refine ⟨h.service, ?_, h.edge, h.disabled, h.terminated⟩
      intro w hw
      cases hw
      exact .init
    · cases hst
  | createGrpc =>
    simp only at hst
    split at hst
    · cases hst
      exact ⟨h.service, h.webhooks, h.edge, fun h => (by cases h), fun h => (by cases h)⟩
    · cases hst
  | yields =>
    simp only at hst
    split at hst
    · cases hst; exact { h with }
    · cases hst
  | leave =>
    simp only [St.leave] at hst
    split at hst
    · cases hst; exact { h with }
    · cases hst; exact { h with }
    · cases hst; exact { h with }
    · cases hst
  | cancel =>
    simp only at hst
    split at hst
    · cases hst; exact h
    · cases hst
  | begins =>
    simp only at hst
    split at hst
    · cases hst; exact { h.begins _ with }
    · cases hst
  | ends succeeds => exact h.ends hst
  | cut =>
    simp only at hst
    split at hst
    · cases hst; exact { h with }
    · cases hst
  | cleaned =>
    simp only at hst
    split at hst
    · cases hst; exact { h with }
    · cases hst
  | drained succeeds =>
    simp only at hst
    split at hst
    · cases hst; exact h.conclude
    · cases hst
  | collect =>
    simp only at hst
    split at hst
    · cases hst; exact { h with }
    · cases hst
  | exit => cases hst; exact { h with }
  | service label =>
    cases label
    case restart => cases hst
    all_goals
      simp only at hst
      obtain ⟨service, hservice, rfl⟩ := Option.map_eq_some_iff.mp hst
      exact { h with service := h.service.step hservice }
  | webhooks label =>
    simp only at hst
    obtain ⟨w, hw, hst⟩ := Option.bind_eq_some_iff.mp hst
    obtain ⟨w', hw', rfl⟩ := Option.map_eq_some_iff.mp hst
    refine ⟨h.service, ?_, h.edge, h.disabled, h.terminated⟩
    intro w'' hw''
    cases hw''
    exact (h.webhooks w hw).step hw'
  | edge label =>
    simp only at hst
    split at hst
    · cases hst
    · rename_i hmay
      rw [not_or] at hmay
      obtain ⟨edge, hedge, rfl⟩ := Option.map_eq_some_iff.mp hst
      exact h.setEdge (fun heq hgrpc => hmay.1 ⟨heq, hgrpc⟩) hedge

end Inv

/-! ## The locks -/

theorem begins_locks (s : St) (step : CleanupStep) :
    (s.begins step).phase = s.phase ∧ (s.begins step).held = s.held ∧
      (s.begins step).retained = s.retained := by
  unfold St.begins
  split
  · split
    · exact ⟨rfl, rfl, rfl⟩
    · exact ⟨rfl, rfl, rfl⟩
  · exact ⟨rfl, rfl, rfl⟩
  · exact ⟨rfl, rfl, rfl⟩
  · exact ⟨rfl, rfl, rfl⟩

theorem ends_locks {succeeds : Bool} (hst : s.ends succeeds = some s') :
    s'.phase = s.phase ∧ s'.held = s.held ∧ s'.retained = s.retained := by
  unfold St.ends at hst
  split at hst
  · simp only at hst
    split at hst
    · split at hst
      · cases hst
        unfold St.afterwards
        split
        · split
          · exact ⟨rfl, rfl, rfl⟩
          · exact ⟨rfl, rfl, rfl⟩
        · exact ⟨rfl, rfl, rfl⟩
      · cases hst
    · cases hst
      exact ⟨rfl, rfl, rfl⟩
  · cases hst

/-- What a step can do to the locks and to where the lifespan is. -/
inductive LockStep (s : St) (l : Label) (s' : St) : Prop where
  | acquire :
      s.phase = .idle → s'.phase ≠ .idle → (s'.phase = .ended → s'.held = s.held) → LockStep s l s'
  | move : s'.phase ≠ .idle → s'.phase ≠ .ended → s'.held = s.held → LockStep s l s'
  | stay : s'.phase = s.phase → s'.held = s.held → s'.retained = s.retained → LockStep s l s'
  | conclude : s.phase = .draining → s' = s.conclude → LockStep s l s'
  | collect :
      s.phase = .ended → s.retained = false → s' = { s with held := false } → LockStep s l s'
  | exit : l = .exit → s'.phase = .exited → LockStep s l s'

theorem lockStep (hst : step p s l = some s') : LockStep s l s' := by
  unfold Lifespan.step at hst
  split at hst
  · cases hst
  cases l with
  | acquire succeeds =>
    simp only at hst
    split at hst
    · rename_i hidle
      cases hst
      cases succeeds with
      | true => exact .acquire hidle (fun h => by cases h) (fun h => by cases h)
      | false => exact .acquire hidle (fun h => by cases h) (fun _ => rfl)
    · cases hst
  | enter =>
    simp only at hst
    split at hst
    · cases hst; exact .move (fun h => by cases h) (fun h => by cases h) rfl
    · cases hst
  | startWebhooks =>
    simp only at hst
    split at hst
    · cases hst; exact .stay rfl rfl rfl
    · cases hst
  | createGrpc =>
    simp only at hst
    split at hst
    · cases hst; exact .stay rfl rfl rfl
    · cases hst
  | yields =>
    simp only at hst
    split at hst
    · cases hst; exact .move (fun h => by cases h) (fun h => by cases h) rfl
    · cases hst
  | leave =>
    simp only [St.leave] at hst
    split at hst
    · cases hst; exact .move (fun h => by cases h) (fun h => by cases h) rfl
    · cases hst; exact .move (fun h => by cases h) (fun h => by cases h) rfl
    · cases hst; exact .move (fun h => by cases h) (fun h => by cases h) rfl
    · cases hst
  | cancel =>
    simp only at hst
    split at hst
    · cases hst; exact .stay rfl rfl rfl
    · cases hst
  | begins =>
    simp only at hst
    split at hst
    · cases hst
      obtain ⟨hphase, hheld, hretained⟩ := begins_locks s ‹CleanupStep›
      exact .stay hphase hheld hretained
    · cases hst
  | ends succeeds =>
    obtain ⟨hphase, hheld, hretained⟩ := ends_locks hst
    exact .stay hphase hheld hretained
  | cut =>
    simp only at hst
    split at hst
    · cases hst; exact .stay rfl rfl rfl
    · cases hst
  | cleaned =>
    simp only at hst
    split at hst
    · cases hst; exact .move (fun h => by cases h) (fun h => by cases h) rfl
    · cases hst
  | drained succeeds =>
    simp only at hst
    split at hst
    · rename_i hmay
      cases hst
      exact .conclude hmay.1 rfl
    · cases hst
  | collect =>
    simp only at hst
    split at hst
    · rename_i hmay
      cases hst
      exact .collect hmay.1 hmay.2 rfl
    · cases hst
  | exit => cases hst; exact .exit rfl rfl
  | service label =>
    cases label
    case restart => cases hst
    all_goals
      simp only at hst
      obtain ⟨service, -, rfl⟩ := Option.map_eq_some_iff.mp hst
      exact .stay rfl rfl rfl
  | webhooks label =>
    simp only at hst
    obtain ⟨w, -, hst⟩ := Option.bind_eq_some_iff.mp hst
    obtain ⟨w', -, rfl⟩ := Option.map_eq_some_iff.mp hst
    exact .stay rfl rfl rfl
  | edge label =>
    simp only at hst
    split at hst
    · cases hst
    · obtain ⟨edge, -, rfl⟩ := Option.map_eq_some_iff.mp hst
      exact .stay rfl rfl rfl

theorem step_locks (h : Locks s) (hst : step p s l = some s') : Locks s' := by
  cases lockStep hst with
  | acquire hidle hphase hheld =>
    refine ⟨fun he => absurd he hphase, fun he ht => ?_⟩
    rw [hheld he, h.idle hidle] at ht
    cases ht
  | move hidle hended _ => exact ⟨fun he => absurd he hidle, fun he => absurd he hended⟩
  | stay hphase hheld hretained =>
    refine ⟨?_, ?_⟩
    · rw [hphase, hheld]
      exact h.idle
    · rw [hphase, hheld, hretained]
      exact h.ended
  | conclude _ heq =>
    subst heq
    unfold St.conclude
    split
    · exact ⟨fun h => (by cases h), fun _ h => (by cases h)⟩
    · exact ⟨fun h => (by cases h), fun _ _ => rfl⟩
  | collect hended _ heq =>
    subst heq
    refine ⟨fun _ => rfl, fun _ h => (by cases h)⟩
  | exit _ hphase =>
    refine ⟨?_, ?_⟩
    · rw [hphase]
      exact fun h => by cases h
    · rw [hphase]
      exact fun h => by cases h

theorem step_releasedQuiet (h : Inv s) (hlocks : Locks s) (hst : step p s l = some s') :
    ReleasedQuiet s l s' := by
  intro hheld hfree
  have hsame : s'.held ≠ s.held := by
    rw [hheld, hfree]
    decide
  cases lockStep hst with
  | acquire hidle _ _ =>
    rw [hlocks.idle hidle] at hheld
    cases hheld
  | move _ _ heq => exact absurd heq hsame
  | stay _ heq _ => exact absurd heq hsame
  | conclude _ heq =>
    subst heq
    unfold St.conclude at hfree ⊢
    split
    · exact .inr (h.quiet ‹_›)
    · rename_i hlive
      rw [if_neg hlive] at hfree
      exact absurd (hheld.symm.trans hfree) (by decide)
  | collect hended hretained _ =>
    rw [hlocks.ended hended hheld] at hretained
    cases hretained
  | exit hl _ => exact .inl hl

/-- In every run the locks are given up only at the exit of the process, or in a state in which
nothing can write the store. A lifespan that has ended and holds them keeps them until the exit. -/
theorem released_quiet {rows : List ModelRecord} {files : FileTree String} {ls : List Label}
    {t : St} (hids : (rows.map (·.id)).Nodup) (hrun : Run (step p) (.init rows files) ls t) :
    Along (step p) ReleasedQuiet (.init rows files) ls ∧
      (t.phase = .ended → t.held = true → ∀ l t', step p t l = some t' → l ≠ .exit →
      t'.held = true) := by
  have hinit : Inv (.init rows files) ∧ Locks (.init rows files) :=
    ⟨.init rows files hids, fun _ => rfl, fun h => (by cases h)⟩
  have hkeep : ∀ s l s', Inv s ∧ Locks s → step p s l = some s' → Inv s' ∧ Locks s' :=
    fun _ _ _ h hst => ⟨h.1.step hst, step_locks h.2 hst⟩
  refine ⟨?_, ?_⟩
  · have hstep : ∀ s l s', Inv s ∧ Locks s → True → step p s l = some s' →
        ReleasedQuiet s l s' ∧ Inv s' ∧ Locks s' :=
      fun s l s' h _ hst => ⟨step_releasedQuiet h.1 h.2 hst, hkeep s l s' h hst⟩
    exact along_of_invariant hstep hinit fun _ _ => trivial
  · have hend := hrun.invariant hkeep hinit
    intro hended hheld l t' hst hl
    cases lockStep hst with
    | acquire hidle _ _ => rw [hended] at hidle; cases hidle
    | move _ _ heq => exact heq.trans hheld
    | stay _ heq _ => exact heq.trans hheld
    | conclude hdraining _ => rw [hended] at hdraining; cases hdraining
    | collect _ hretained _ =>
      rw [hend.2.ended hended hheld] at hretained
      cases hretained
    | exit hexit _ => exact absurd hexit hl

section Example

/-- A start with webhooks that is cancelled while it creates the gRPC server; the cleanup is
cancelled before its first step, while a batch is being sent. -/
def cutShort : List Label :=
  [.acquire true, .enter, .startWebhooks, .webhooks (.run true), .leave, .cancel, .cut, .cleaned,
    .cancel, .drained true]

theorem released_quiet_cutShort :
    ∃ t, Run (step ModelService.plainPaths) (.init [] []) cutShort t ∧ t.held = true ∧
      t.webhooks.any (·.thread) = true ∧
      ∀ l t', step ModelService.plainPaths t l = some t' → l ≠ .exit → t'.held = true := by
  obtain ⟨t, hrun, ht⟩ : ∃ t, Run (step ModelService.plainPaths) (.init [] []) cutShort t ∧
      (t.phase, t.held, t.webhooks.any (·.thread)) = (.ended, true, true) := run_of_exec_map rfl
  obtain ⟨hphase, ht⟩ := Prod.mk.inj ht
  obtain ⟨hheld, hthread⟩ := Prod.mk.inj ht
  have hids : (([] : List ModelRecord).map (·.id)).Nodup := List.nodup_nil
  exact ⟨t, hrun, hheld, hthread, (released_quiet hids hrun).2 hphase hheld⟩

end Example

end Lifespan

end InferenceEngine
