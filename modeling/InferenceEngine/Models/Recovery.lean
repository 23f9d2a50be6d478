import InferenceEngine.Models.Deletion
import InferenceEngine.Models.DownloadTask

/-!
# Models.Recovery

The service with the threads of its downloads in full, over any number of processes. A thread takes
the steps of `Models.Downloader`; between any two of them, and between any two steps of the service,
the process may die. What is left then are the rows and the files, and a file has whatever content
it has: a thread starts with the partial file it finds.

* `run_sound`: a download is ready only after its file was renamed into place with the checksum it
  expects.
* `delete_converges`: a delete that is not interrupted leaves neither the row nor its files,
  whatever was left before it.
* `recovers`: both, in every state of every run, and what `reconcile_interrupted` leaves.
-/

namespace InferenceEngine
namespace Recovery

open Lts ModelService
open Downloader (Bytes Call Args Traced)

/-- A rename of a partial file into place. -/
structure Promotion where
  id : String
  digest : String
  content : Bytes

structure Engine where
  service : ModelService.St
  /-- what each download was started with; `expected_sha256` is a column of its row -/
  calls : Dict String Call
  /-- the threads of the downloads -/
  workers : Dict String Downloader.St
  /-- the renames, those of deleted models too -/
  promotions : List Promotion

inductive Label where
  | startDownload (id base : String) (sourceType : SourceType) (args : Args)
      (server : Nat → Downloader.Reply)
  /-- the task runs for the first time; `found` is the content of the partial file, if there is
  one -/
  | run (id : String) (submits persists : Bool) (found : Bytes)
  /-- a step of a thread, with what makes it fail -/
  | work (id : String) (fault : Option (String × Nat))
  /-- the thread of `gguf.probe` returns -/
  | probeReturns (id : String)
  /-- the process dies, and another one starts -/
  | crash
  | other (l : ModelService.Label)

/-- The labels of the service that are steps of a thread here, or come with more. -/
def isInner : ModelService.Label → Bool
  | .startDownload .. | .run .. | .touch .. | .threadReturns .. | .restart => true
  | _ => false

/-- How the thread has ended, as the task sees it. -/
def outcome : Except Downloader.Exc String → ModelService.Outcome
  | .ok _ => .promoted
  | .error .downloadCancelled => .cancelled
  | .error _ => .failed

namespace Engine

def init (files : FileTree String) : Engine := ⟨.init [] files, [], [], []⟩

variable (p : Paths) (sha256 : Bytes → String)

def startDownload (s : Engine) (id base : String) (sourceType : SourceType) (call : Call) :
    Engine :=
  if s.service.mayDownload p id base sourceType then
    { service := s.service.startDownload p id base sourceType
      calls := s.calls.set id call
      workers := s.workers.pop id
      promotions := s.promotions.filter (·.id ≠ id) }
  else s

/-- Whether a thread finds a partial file. -/
def hasPart (s : Engine) (id : String) : Bool :=
  (s.service.get? id).any fun row => s.service.exists? p (partPath row.path)

def run (s : Engine) (id : String) (submits persists : Bool) (found : Bytes) : Option Engine :=
  (s.service.run id submits persists).map fun service =>
    match service.tasks.get id, s.calls.get id with
    | some ⟨.running false, _⟩, some _ =>
      { s with
        service := service
        workers := s.workers.set id (.start (if s.hasPart p id then some found else none) none) }
    | _, _ => { s with service := service }

/-- The next state of a thread. The rename is tried only when the event is not set. -/
def next (call : Call) (w : Downloader.St) (isSet : Bool) :
    Option (String × Nat) → Option Downloader.St
  | none => w.go sha256 call isSet
  | some (typeName, kept) =>
    match w.pc with
    | .promote _ => if isSet then none else w.fail call typeName kept
    | _ => w.fail call typeName kept

/-- What a step of a thread is to the service: the thread returns, or the partial file comes or
goes. -/
def worked (s : Engine) (id : String) (w w' : Downloader.St) : Option Engine :=
  match w'.pc with
  | .ended result =>
    (s.service.threadReturns p id (outcome result)).map fun service =>
      { s with
        service := service
        workers := s.workers.pop id
        promotions := match result with
          | .ok digest => s.promotions ++ [⟨id, digest, w'.dest.getD []⟩]
          | .error _ => s.promotions }
  | _ =>
    (if w'.part.isSome = w.part.isSome then some s.service else s.service.touch p id w'.part.isSome).map
      fun service => { s with service := service, workers := s.workers.set id w' }

def work (s : Engine) (id : String) (fault : Option (String × Nat)) : Option Engine :=
  match s.calls.get id, s.workers.get id with
  | some call, some w =>
    (next sha256 call w (s.service.cancels.get id =
      some true) fault).bind fun w' => s.worked p id w w'
  | _, _ => none

def probeReturns (s : Engine) (id : String) : Option Engine :=
  match s.service.tasks.get id with
  | some ⟨.running true, _⟩ =>
    -- what the probe returns is looked at when the task goes on
    (s.service.threadReturns p id .failed).map fun service => { s with service := service }
  | _ => none

end Engine

def step (p : Paths) (sha256 : Bytes → String) (s : Engine) : Label → Option Engine
  | .startDownload id base sourceType args server =>
    some (s.startDownload p id base sourceType (DownloadTask.serviceCall args server))
  | .run id submits persists found => s.run p id submits persists found
  | .work id fault => s.work p sha256 id fault
  | .probeReturns id => s.probeReturns p id
  | .crash => some { s with service := s.service.restart, workers := [] }
  | .other l =>
    if isInner l then none
    else (ModelService.step p s.service l).map fun service => { s with service := service }

/-! ## What the service makes of a promoted file -/

/-- The file has been renamed into place. -/
def isPast : Phase → Bool
  | .returned .promoted | .running true | .probed => true
  | _ => false

/-- No task is newly past the rename, and what is newly ready was. -/
structure Quiet (s s' : ModelService.St) : Prop where
  past : ∀ id task', s'.tasks.get id = some task' → isPast task'.phase = true →
    ∃ task, s.tasks.get id = some task ∧ isPast task.phase = true
  ready : ∀ r' ∈ s'.rows, r'.sourceType ≠ .importFile → r'.status = .ready →
    (∃ r ∈ s.rows, r.id = r'.id ∧ r.sourceType = r'.sourceType ∧ r.status = .ready) ∨
      ∃ task, s.tasks.get r'.id = some task ∧ isPast task.phase = true

section

variable {p : Paths} {sha256 : Bytes → String} {s s' : ModelService.St} {id : String}

namespace Quiet

theorem refl (s : ModelService.St) : Quiet s s where
  past := fun _ task hget hpast => ⟨task, hget, hpast⟩
  ready := fun r hr _ hready => .inl ⟨r, hr, rfl, rfl, hready⟩

theorem trans {s'' : ModelService.St} (h : Quiet s s') (h' : Quiet s' s'') : Quiet s s'' where
  past := by
    intro id task'' hget hpast
    obtain ⟨task', hget', hpast'⟩ := h'.past id task'' hget hpast
    exact h.past id task' hget' hpast'
  ready := by
    intro r'' hr'' hsource hready
    rcases h'.ready r'' hr'' hsource hready with ⟨r', hr', hid, htype, hready'⟩ |
        ⟨task', hget, hpast⟩
    · rcases h.ready r' hr' (htype ▸ hsource) hready' with ⟨r, hr, hid', htype', hready''⟩ |
          ⟨task, hget, hpast⟩
      · exact .inl ⟨r, hr, hid'.trans hid, htype'.trans htype, hready''⟩
      · exact .inr ⟨task, hid ▸ hget, hpast⟩
    · exact .inr (h.past _ task' hget hpast)

theorem same (hrows : s'.rows = s.rows) (htasks : s'.tasks = s.tasks) : Quiet s s' where
  past := fun _ task hget hpast => ⟨task, htasks ▸ hget, hpast⟩
  ready := fun r hr _ hready => .inl ⟨r, hrows ▸ hr, rfl, rfl, hready⟩

theorem setPhase {phase : Phase} {cancelling : Bool}
    (h : isPast phase = true → ∃ task, s.tasks.get id = some task ∧ isPast task.phase = true) :
    Quiet s (s.setPhase id phase cancelling) where
  past := by
    intro id' task' hget hpast
    rw [St.setPhase, Dict.get_set] at hget
    by_cases hid : id' = id
    · rw [if_pos hid] at hget
      cases hget
      rw [hid]
      exact h hpast
    · rw [if_neg hid] at hget
      exact ⟨task', hget, hpast⟩
  ready := fun r hr _ hready => .inl ⟨r, hr, rfl, rfl, hready⟩

theorem release (s : ModelService.St) (id : String) : Quiet s (s.release id) where
  past := by
    intro id' task' hget hpast
    simp only [St.release, Dict.get_pop] at hget
    split at hget
    · cases hget
    · exact ⟨task', hget, hpast⟩
  ready := fun r hr _ hready => .inl ⟨r, hr, rfl, rfl, hready⟩

/-- The statuses change, and only a task past the rename makes a row ready. -/
theorem setRows {f : ModelRecord → ModelRecord} (hid : ∀ r, (f r).id = r.id)
    (htype : ∀ r, (f r).sourceType = r.sourceType)
    (hready : ∀ r ∈ s.rows, (f r).status = .ready →
      r.status = .ready ∨ ∃ task, s.tasks.get r.id = some task ∧ isPast task.phase = true) :
    Quiet s { s with rows := s.rows.map f } where
  past := fun _ task hget hpast => ⟨task, hget, hpast⟩
  ready := by
    intro r' hr' hsource hstatus
    obtain ⟨r, hr, rfl⟩ := List.mem_map.mp hr'
    rcases hready r hr hstatus with hr' | hpast
    · exact .inl ⟨r, hr, (hid r).symm, (htype r).symm, hr'⟩
    · rw [hid]
      exact .inr hpast

theorem rows (htasks : s'.tasks = s.tasks)
    (hrows : ∀ r ∈ s'.rows, r.sourceType ≠ .importFile → r ∈ s.rows ∨ r.status ≠ .ready) :
    Quiet s s' where
  past := fun _ task hget hpast => ⟨task, htasks ▸ hget, hpast⟩
  ready := by
    intro r hr hsource hready
    rcases hrows r hr hsource with hmem | hne
    · exact .inl ⟨r, hmem, rfl, rfl, hready⟩
    · exact absurd hready hne

theorem setStatus {status : ModelStatus}
    (h : status = .ready → ∃ task, s.tasks.get id = some task ∧ isPast task.phase = true) :
    Quiet s (s.setStatus id status) := by
  refine setRows ?_ ?_ ?_
  · intro r
    split <;> rfl
  · intro r
    split <;> rfl
  · intro r _ hready
    split at hready
    · rename_i hid
      exact .inr (hid ▸ h hready)
    · exact .inl hready

theorem record {status : ModelStatus} (persists : Bool)
    (h : status = .ready → ∃ task, s.tasks.get id = some task ∧ isPast task.phase = true) :
    Quiet s (s.record id status persists) := by
  unfold St.record
  split
  · exact (setStatus h).trans (release _ id)
  · exact release s id

end Quiet

theorem quiet_threadReturns {out : ModelService.Outcome} (hst : s.threadReturns p id out = some s')
    (h : out ≠ .promoted ∨ ∃ cancelling, s.tasks.get id = some ⟨.running true, cancelling⟩) :
    Quiet s s' := by
  simp only [St.threadReturns] at hst
  split at hst
  · rename_i cancelling row hget _
    have hout : out ≠ .promoted := by
      refine h.resolve_right ?_
      rintro ⟨c, hrunning⟩
      rw [hget] at hrunning
      cases hrunning
    rw [if_neg hout, Option.some.injEq] at hst
    subst hst
    refine (Quiet.setPhase fun hpast => ?_).trans (.same rfl rfl)
    cases out with
    | promoted => exact absurd rfl hout
    | cancelled => cases hpast
    | failed => cases hpast
  · rename_i cancelling hget
    cases hst
    exact (Quiet.setPhase fun _ => ⟨_, hget, rfl⟩).trans (.same rfl rfl)
  · cases hst

theorem quiet_run {submits persists : Bool} (hst : s.run id submits persists = some s') :
    Quiet s s' := by
  simp only [St.run] at hst
  split at hst
  · cases hst
    exact Quiet.setPhase fun hpast => by cases hpast
  · cases hst
    split
    · exact (Quiet.setPhase fun hpast => by cases hpast).trans (.same rfl rfl)
    · exact Quiet.record persists fun hready => by cases hready
  · cases hst

theorem quiet_touch {present : Bool} (hst : s.touch p id present = some s') : Quiet s s' := by
  simp only [St.touch] at hst
  split at hst
  · cases hst
    exact .same rfl rfl
  · cases hst

theorem quiet_resume {submits ready persists : Bool}
    (hst : s.resume p id submits ready persists = some s') :
    Quiet s s' := by
  simp only [St.resume] at hst
  split at hst
  · rename_i hget
    cases hst
    split
    · exact (Quiet.setPhase fun _ => ⟨_, hget, rfl⟩).trans (.same rfl rfl)
    · exact Quiet.record persists fun hready => by cases hready
  · cases hst
    exact Quiet.record persists fun hready => by cases hready
  · cases hst
    exact Quiet.record persists fun hready => by cases hready
  · rename_i hget
    cases hst
    split
    · exact Quiet.record true fun _ => ⟨_, hget, rfl⟩
    · exact Quiet.record persists fun hready => by cases hready
  · cases hst

theorem quiet_startDownload (base : String) (sourceType : SourceType) :
    Quiet s (s.startDownload p id base sourceType) := by
  unfold St.startDownload
  split
  · have hcreated : Quiet s (s.setPhase id .created false) := .setPhase fun hpast => by cases hpast
    refine hcreated.trans (.rows rfl fun r hr _ => ?_)
    rcases List.mem_append.mp hr with hr | hr
    · exact .inl hr
    · rw [List.mem_singleton.mp hr]
      exact .inr fun hready => by cases hready
  · exact .refl s

theorem quiet_setCancel (s : ModelService.St) (id : String) : Quiet s (s.setCancel id) := by
  unfold St.setCancel
  split
  · exact .refl s
  · exact .refl s
  · exact .refl s
  · split <;> exact .same rfl rfl

theorem quiet_cancelTask (hst : s.cancelTask id = some s') : Quiet s s' := by
  simp only [St.cancelTask] at hst
  split at hst
  · cases hst
  · cases hst
  · rename_i hget
    cases hst
    exact Quiet.setPhase fun hpast => ⟨_, hget, hpast⟩

theorem quiet_deliver (hst : s.deliver id = some s') : Quiet s s' := by
  simp only [St.deliver] at hst
  split at hst
  any_goals cases hst
  rename_i phase _ _ hget
  exact (Quiet.setPhase fun hpast => ⟨_, hget, hpast⟩).trans (quiet_setCancel _ id)

theorem quiet_imported {key : String} {stored : Bool} (hst : s.imported p key id stored = some s') :
    Quiet s s' := by
  simp only [St.imported] at hst
  split at hst
  · cases hst
    split
    · refine .rows ?_ fun r hr hsource => ?_
      · unfold St.create
        split <;> rfl
      · simp only [St.endImport, St.create] at hr
        split at hr
        · exact .inl hr
        · rcases List.mem_append.mp hr with hr | hr
          · exact .inl hr
          · rw [List.mem_singleton.mp hr] at hsource
            exact absurd rfl hsource
    · exact .same rfl rfl
  · cases hst

theorem quiet_delete (id : String) (reach : Reach) : Quiet s (s.delete p id reach) := by
  unfold St.delete
  split
  · split
    · exact .refl s
    · simp only [St.deleteModel, St.unlinkAll_eq]
      cases reach with
      | nothing => exact .same rfl rfl
      | file => exact .same rfl rfl
      | files => exact .same rfl rfl
      | row => exact .rows rfl fun r hr _ => .inl (List.mem_of_mem_filter hr)
  · exact .refl s

theorem quiet_shutdownTurn (s : ModelService.St) : Quiet s s.shutdownTurn := by
  have hall (ids : List String) : ∀ s, Quiet s (ids.foldl St.setCancel s) := by
    induction ids with
    | nil => exact .refl
    | cons id ids ih => exact fun s => (quiet_setCancel s id).trans (ih _)
  unfold St.shutdownTurn
  split
  · exact .refl s
  · exact (hall _ s).trans (.same rfl rfl)

theorem quiet_wake (hst : s.wake = some s') : Quiet s s' := by
  have hall (es : List (String × Task)) : ∀ s : ModelService.St,
      Quiet s (es.foldl (fun s e => s.release e.1) s) := by
    induction es with
    | nil => exact .refl
    | cons e es ih => exact fun s => (Quiet.release s e.1).trans (ih _)
  simp only [St.wake] at hst
  split at hst
  · cases hst
    refine Quiet.trans ?_ (quiet_shutdownTurn _)
    have hless : Quiet s { s with shutdowns := s.shutdowns - 1 } := .same rfl rfl
    exact hless.trans (hall _ _)
  · cases hst

theorem quiet_reconcile (s : ModelService.St) : Quiet s s.reconcile := by
  refine Quiet.setRows ?_ ?_ ?_
  · intro r
    split <;> rfl
  · intro r
    split <;> rfl
  · intro r _ hready
    split at hready
    · cases hready
    · exact .inl hready

theorem quiet_step {l : ModelService.Label} (hinner : isInner l = false)
    (hst : ModelService.step p s l = some s') :
    Quiet s s' := by
  cases l with
  | startDownload | run | touch | threadReturns | restart => cases hinner
  | resume => exact quiet_resume hst
  | cancel => cases hst; exact quiet_setCancel ..
  | cancelTask => exact quiet_cancelTask hst
  | deliver => exact quiet_deliver hst
  | importLocal path valid =>
    cases hst
    unfold St.importLocal
    split <;> exact .same rfl rfl
  | hashed key =>
    simp only [ModelService.step, St.hashed] at hst
    split at hst <;> cases hst
    exact .same rfl rfl
  | imported => exact quiet_imported hst
  | importCancelled key =>
    simp only [ModelService.step, St.importCancelled] at hst
    split at hst <;> cases hst <;> exact .same rfl rfl
  | orphanReturns path =>
    simp only [ModelService.step] at hst
    split at hst <;> cases hst
    exact .same rfl rfl
  | beginOperation id =>
    cases hst
    unfold St.beginOperation
    split
    · split <;> exact .same rfl rfl
    · exact .refl s
  | endOperation => cases hst; exact .same rfl rfl
  | delete => cases hst; exact quiet_delete ..
  | registerConfigured path id =>
    cases hst
    unfold St.registerConfigured
    split
    · refine .rows rfl fun r hr hsource => ?_
      rcases List.mem_append.mp hr with hr | hr
      · exact .inl hr
      · rw [List.mem_singleton.mp hr] at hsource
        exact absurd rfl hsource
    · exact .refl s
  | reconcile => cases hst; exact quiet_reconcile s
  | shutdown => cases hst; exact quiet_shutdownTurn s
  | wake => exact quiet_wake hst
  | shutdownCancelled =>
    simp only [ModelService.step] at hst
    split at hst <;> cases hst
    exact .same rfl rfl

/-! ## Ready means promoted -/

/-- The file was renamed into place, and its checksum is the one that was expected, if one was. -/
def Promoted (sha256 : Bytes → String) (s : Engine) (id : String) : Prop :=
  ∃ pr ∈ s.promotions, pr.id = id ∧ pr.digest = sha256 pr.content ∧
    ∃ call, s.calls.get id = some call ∧ call.args.accepts pr.digest = true

structure Sound (sha256 : Bytes → String) (s : Engine) : Prop where
  owned : Owned s.service
  ready : ∀ r ∈ s.service.rows, r.sourceType ≠ .importFile → r.status = .ready →
    Promoted sha256 s r.id
  past : ∀ id task, s.service.tasks.get id = some task → isPast task.phase = true →
    Promoted sha256 s id
  worker : ∀ id w, s.workers.get id = some w →
    ∃ call part, s.calls.get id = some call ∧ Traced sha256 call part none w

variable {e e' : Engine}

theorem sound_init (sha256 : Bytes → String) (files : FileTree String) :
    Sound sha256 (.init files) where
  owned := .init [] files List.nodup_nil
  ready := fun _ hr => absurd hr List.not_mem_nil
  past := fun _ _ hget => by cases hget
  worker := fun _ _ hget => by cases hget

/-- A quiet step of the service, with threads that are where they should be. -/
theorem Sound.quiet (h : Sound sha256 e) {service : ModelService.St}
    {workers : Dict String Downloader.St} (howned : Owned service)
      (hquiet : Quiet e.service service) (hworkers : ∀ id w, workers.get id = some w →
      ∃ call part, e.calls.get id = some call ∧ Traced sha256 call part none w) :
    Sound sha256 { e with service := service, workers := workers } where
  owned := howned
  ready := by
    intro r hr hsource hready
    rcases hquiet.ready r hr hsource hready with ⟨r₀, hr₀, hid, htype, hready₀⟩ |
        ⟨task, hget, hpast⟩
    · rw [← hid]
      exact h.ready r₀ hr₀ (htype ▸ hsource) hready₀
    · exact h.past _ task hget hpast
  past := by
    intro id task hget hpast
    obtain ⟨task₀, hget₀, hpast₀⟩ := hquiet.past id task hget hpast
    exact h.past id task₀ hget₀ hpast₀
  worker := hworkers

theorem Sound.startDownload (h : Sound sha256 e) (id base : String)
    (sourceType : SourceType) (call : Call) :
    Sound sha256 (e.startDownload p id base sourceType call) := by
  unfold Engine.startDownload
  split
  · rename_i hmay
    have hnew : id ∉ e.service.rows.map (·.id) := hmay.2.2.2.2
    -- what is known of another model stays
    have hother {id' : String} (hne : id' ≠ id) (hpr : Promoted sha256 e id') :
        Promoted sha256 ⟨e.service.startDownload p id base sourceType, e.calls.set id call,
          e.workers.pop id,
          e.promotions.filter (·.id ≠ id)⟩ id' := by
      obtain ⟨pr, hmem, hid, hdigest, c, hcall, haccepts⟩ := hpr
      refine ⟨pr, List.mem_filter.mpr ⟨hmem, by simpa [hid] using hne⟩, hid, hdigest,
        c, ?_, haccepts⟩
      rw [Dict.get_set, if_neg hne]
      exact hcall
    have hquiet : Quiet e.service (e.service.startDownload p id base sourceType) :=
      quiet_startDownload base sourceType
    refine ⟨h.owned.startDownload base sourceType, ?_, ?_, ?_⟩
    · intro r hr hsource hready
      rcases hquiet.ready r hr hsource hready with ⟨r₀, hr₀, hid, htype, hready₀⟩ |
          ⟨task, hget, hpast⟩
      · have hne : r.id ≠ id := fun heq => hnew (List.mem_map.mpr ⟨r₀, hr₀, hid.trans heq⟩)
        refine hother hne ?_
        rw [← hid]
        exact h.ready r₀ hr₀ (htype ▸ hsource) hready₀
      · have hlive := h.owned.listed _ (Dict.mem_keys_of_mem (Dict.mem_of_get hget))
        exact hother (fun heq => hnew (heq ▸ hlive)) (h.past _ task hget hpast)
    · intro id' task hget hpast
      obtain ⟨task₀, hget₀, hpast₀⟩ := hquiet.past id' task hget hpast
      have hlive := h.owned.listed _ (Dict.mem_keys_of_mem (Dict.mem_of_get hget₀))
      exact hother (fun heq => hnew (heq ▸ hlive)) (h.past id' task₀ hget₀ hpast₀)
    · intro id' w hget
      rw [Dict.get_pop] at hget
      split at hget
      · cases hget
      · rename_i hne
        obtain ⟨c, part, hcall, htraced⟩ := h.worker id' w hget
        refine ⟨c, part, ?_, htraced⟩
        rw [Dict.get_set, if_neg hne]
        exact hcall
  · exact h

theorem next_traced {call : Call} {part : Option Bytes} {w w' : Downloader.St} {isSet : Bool}
    {fault : Option (String × Nat)} (h : Traced sha256 call part none w)
    (hst : Engine.next sha256 call w isSet fault = some w') : Traced sha256 call part none w' := by
  cases fault with
  | none => exact Downloader.go_traced h hst
  | some f =>
    simp only [Engine.next] at hst
    split at hst
    · split at hst
      · cases hst
      · exact Downloader.fail_traced h hst
    · exact Downloader.fail_traced h hst

theorem threadReturns_frame {out : ModelService.Outcome}
    (hst : s.threadReturns p id out = some s') :
    s'.rows = s.rows ∧ ∀ id' ≠ id, s'.tasks.get id' = s.tasks.get id' := by
  have hother (phase : Phase) (cancelling : Bool) (id' : String) (hne : id' ≠ id) :
      (s.setPhase id phase cancelling).tasks.get id' = s.tasks.get id' :=
    (Dict.get_set ..).trans (if_neg hne)
  simp only [St.threadReturns] at hst
  split at hst
  · split at hst
    · split at hst
      · cases hst
      · cases hst
        exact ⟨rfl, hother _ _⟩
    · cases hst
      exact ⟨rfl, hother _ _⟩
  · cases hst
    exact ⟨rfl, hother _ _⟩
  · cases hst

theorem Promoted.append {sha256 : Bytes → String} (h : Promoted sha256 e id)
    {service : ModelService.St} {workers : Dict String Downloader.St} (prs : List Promotion) :
    Promoted sha256 ⟨service, e.calls, workers, e.promotions ++ prs⟩ id := by
  obtain ⟨pr, hmem, hrest⟩ := h
  exact ⟨pr, List.mem_append_left _ hmem, hrest⟩

theorem Sound.promoted (h : Sound sha256 e) {call : Call} {part : Option Bytes} {w : Downloader.St}
    {digest : String} (hcall : e.calls.get id = some call)
      (htraced : Traced sha256 call part none w) (hpc : w.pc = .ended (.ok digest))
      {service : ModelService.St} (hst : e.service.threadReturns p id .promoted = some service) :
    Sound sha256 ⟨service, e.calls, e.workers.pop id,
      e.promotions ++ [⟨id, digest, w.dest.getD []⟩]⟩ := by
  have hplaced := htraced.placed
  rw [hpc] at hplaced
  obtain ⟨f, -, hdest, -, hdigest, haccepts⟩ := hplaced
  obtain ⟨hrows, hother⟩ := threadReturns_frame hst
  refine ⟨h.owned.threadReturns hst, ?_, ?_, ?_⟩
  · intro r hr hsource hready
    exact (h.ready r (hrows ▸ hr) hsource hready).append _
  · intro id' task hget hpast
    by_cases hid : id' = id
    · subst hid
      refine ⟨⟨id', digest, w.dest.getD []⟩, List.mem_append_right _ (List.mem_singleton_self _),
        rfl, ?_, call, hcall, haccepts⟩
      rw [hdigest, hdest, Option.getD_some]
    · exact (h.past id' task (hother id' hid ▸ hget) hpast).append _
  · intro id' w' hget
    rw [Dict.get_pop] at hget
    split at hget
    · cases hget
    · exact h.worker id' w' hget

theorem Sound.worked (h : Sound sha256 e) {call : Call} {part : Option Bytes} {w w' : Downloader.St}
    (hcall : e.calls.get id = some call) (htraced : Traced sha256 call part none w')
    (hst : e.worked p id w w' = some e') : Sound sha256 e' := by
  have hpop (id' : String) (w'' : Downloader.St) (hget : (e.workers.pop id).get id' = some w'') :
      ∃ call part, e.calls.get id' = some call ∧ Traced sha256 call part none w'' := by
    rw [Dict.get_pop] at hget
    split at hget
    · cases hget
    · exact h.worker id' w'' hget
  have hset (id' : String) (w'' : Downloader.St) (hget : (e.workers.set id w').get id' = some w'') :
      ∃ call part, e.calls.get id' = some call ∧ Traced sha256 call part none w'' := by
    rw [Dict.get_set] at hget
    split at hget
    · rename_i hid
      cases hget
      exact ⟨call, part, hid ▸ hcall, htraced⟩
    · exact h.worker id' w'' hget
  simp only [Engine.worked] at hst
  split at hst
  · rename_i result hpc
    obtain ⟨service, hservice, rfl⟩ := Option.map_eq_some_iff.mp hst
    cases result with
    | ok digest => exact h.promoted hcall htraced hpc hservice
    | error exc =>
      have hout : outcome (.error exc) ≠ .promoted := by cases exc <;> simp [outcome]
      exact h.quiet (h.owned.threadReturns hservice) (quiet_threadReturns hservice (.inl hout)) hpop
  · obtain ⟨service, hservice, rfl⟩ := Option.map_eq_some_iff.mp hst
    split at hservice
    · cases hservice
      exact h.quiet h.owned (.refl _) hset
    · exact h.quiet (h.owned.touch hservice) (quiet_touch hservice) hset

theorem Sound.run (h : Sound sha256 e) {submits persists : Bool} {found : Bytes}
    (hst : e.run p id submits persists found = some e') : Sound sha256 e' := by
  simp only [Engine.run] at hst
  obtain ⟨service, hservice, rfl⟩ := Option.map_eq_some_iff.mp hst
  have howned := h.owned.run hservice
  have hquiet := quiet_run hservice
  split
  · rename_i call _ hcall
    refine h.quiet howned hquiet fun id' w hget => ?_
    rw [Dict.get_set] at hget
    split at hget
    · rename_i hid
      cases hget
      exact ⟨call, _, hid ▸ hcall, Downloader.start_traced⟩
    · exact h.worker id' w hget
  · exact h.quiet howned hquiet h.worker

theorem Sound.step (h : Sound sha256 e) {l : Label} (hst : step p sha256 e l = some e') :
    Sound sha256 e' := by
  cases l with
  | startDownload id base sourceType args server => cases hst; exact h.startDownload ..
  | run id submits persists found => exact h.run hst
  | work id fault =>
    simp only [Recovery.step, Engine.work] at hst
    split at hst
    · rename_i call w hcall hw
      obtain ⟨w', hnext, hworked⟩ := Option.bind_eq_some_iff.mp hst
      obtain ⟨call', part, hcall', htraced⟩ := h.worker id w hw
      obtain rfl := Option.some.inj (hcall.symm.trans hcall')
      exact h.worked hcall (next_traced htraced hnext) hworked
    · cases hst
  | probeReturns id =>
    simp only [Recovery.step, Engine.probeReturns] at hst
    split at hst
    · rename_i cancelling hget
      obtain ⟨service, hservice, rfl⟩ := Option.map_eq_some_iff.mp hst
      exact h.quiet (h.owned.threadReturns hservice)
        (quiet_threadReturns hservice (.inr ⟨cancelling, hget⟩)) h.worker
    · cases hst
  | crash =>
    cases hst
    refine h.quiet h.owned.restart ⟨fun _ _ hget => ?_, fun r hr _ hready => ?_⟩ fun _ _ hget => ?_
    · cases hget
    · exact .inl ⟨r, hr, rfl, rfl, hready⟩
    · cases hget
  | other l =>
    simp only [Recovery.step] at hst
    split at hst
    · cases hst
    · rename_i hinner
      obtain ⟨service, hservice, rfl⟩ := Option.map_eq_some_iff.mp hst
      exact h.quiet (h.owned.step hservice) (quiet_step (by simpa using hinner) hservice) h.worker

theorem run_sound {files : FileTree String} {ls : List Label}
    (hrun : Run (step p sha256) (.init files) ls e) :
    Sound sha256 e :=
  hrun.invariant (fun _ _ _ h hst => h.step hst) (sound_init sha256 files)

/-! ## A delete that is repeated -/

/-- What a delete that nothing interrupts leaves: no row, no files, and a name that can be
downloaded again, but while an import has reserved the destination. -/
structure Deleted (p : Paths) (s t : ModelService.St) (r : ModelRecord) : Prop where
  row : ∀ r' ∈ t.rows, r'.id ≠ r.id
  dest : t.files.get (p.entry r.path) = none
  part : t.files.get (p.entry (partPath r.path)) = none
  accepted : ∀ id base sourceType, p.dest base = r.path → sourceType ≠ .importFile →
    id ∉ t.rows.map (·.id) →
    (t.mayDownload p id base sourceType ↔ p.entry r.path ∉ s.importPaths)

theorem delete_eq (howned : Owned s) {r : ModelRecord} (hr : r ∈ s.rows)
    (hsource : r.sourceType ≠ .importFile) (hbusy : s.isBusy p r = false) :
    s.delete p r.id .row =
      { s with
        files := (s.files.unlink (p.entry r.path)).unlink (p.entry (partPath r.path))
        rows := s.rows.filter (·.id ≠ r.id)
        tried := r.id :: s.tried } := by
  have hget : s.get? r.id = some r := by
    cases hfind : s.get? r.id with
    | none =>
      have hnone := List.find?_eq_none.mp hfind r hr
      simp at hnone
    | some r' =>
      obtain ⟨hmem, hid⟩ := mem_of_get? hfind
      exact congrArg some (List.inj_on_of_nodup_map howned.ids hmem hr hid)
  simp only [St.delete, hget, hbusy, Bool.false_eq_true, if_false, St.deleteModel, St.unlinkAll_eq,
    unlinked_of_download hsource]
  rfl

theorem resolve_of_not_link {files : FileTree String} {x : String}
    (h : ∀ target, files.get x ≠ some (.link target)) : files.resolve x = x := by
  unfold FileTree.resolve FileTree.maxLinks FileTree.last
  split
  · exact absurd ‹_› (h _)
  · rfl

theorem delete_converges (howned : Owned s) {r : ModelRecord} (hr : r ∈ s.rows)
    (hsource : r.sourceType ≠ .importFile) (hpath : ∀ r' ∈ s.rows, r'.path = r.path →
      r' = r) (hbusy : s.isBusy p r = false) :
    Deleted p s (s.delete p r.id .row) r := by
  rw [delete_eq howned hr hsource hbusy]
  have hdest : ((s.files.unlink (p.entry r.path)).unlink (p.entry (partPath r.path))).get
      (p.entry r.path) = none := by
    rw [FileTree.unlink, Dict.get_pop]
    split
    · rfl
    · exact (Dict.get_pop ..).trans (if_pos rfl)
  have hresolve : ((s.files.unlink (p.entry r.path)).unlink (p.entry (partPath r.path))).resolve
      (p.entry r.path) =
      p.entry r.path := resolve_of_not_link fun target => by rw [hdest]; simp
  refine ⟨?_, hdest, (Dict.get_pop ..).trans (if_pos rfl), ?_⟩
  · intro r' hr'
    simpa using (List.mem_filter.mp hr').2
  · intro id base sourceType hbase htype hid
    unfold St.mayDownload Paths.key St.exists?
    rw [hbase, hresolve, FileTree.isFile, hresolve, hdest]
    constructor
    · exact fun h => h.2.1
    · refine fun h => ⟨htype, h, rfl, fun hmem => ?_, hid⟩
      obtain ⟨r', hr', heq⟩ := List.mem_map.mp hmem
      obtain ⟨hmem', hne⟩ := List.mem_filter.mp hr'
      rw [hpath r' hmem' heq] at hne
      simp at hne

/-- A destination that is not a link is not reserved when the delete is not refused. -/
theorem not_reserved {r : ModelRecord} (hbusy : s.isBusy p r = false)
    (hlink : ∀ target, s.files.get (p.entry r.path) ≠ some (.link target)) :
    p.entry r.path ∉ s.importPaths := by
  simp only [St.isBusy, Bool.or_eq_false_iff, decide_eq_false_iff_not] at hbusy
  have hkey : p.key s.files r.path = p.entry r.path := resolve_of_not_link hlink
  exact hkey ▸ hbusy.2

/-- **Whatever a crash leaves is recovered.** In every state of every run, with crashes between any
two steps of the threads, the tasks and the deletes, and any number of new processes: after
`reconcile_interrupted` every row that is downloading or verifying has a task; a downloaded row that
is ready had its file renamed into place, with the checksum it expects; and a delete of a download
that shares its path with no other row, which a new process never refuses, leaves neither the row
nor its files, after which the name is accepted again (unless an import has reserved the
destination, which takes a link of that name). -/
theorem recovers {files : FileTree String} {ls : List Label}
    (hrun : Run (step p sha256) (.init files) ls e) :
    (∀ r ∈ e.service.reconcile.rows, r.status = .downloading ∨ r.status = .verifying →
      r.id ∈ e.service.tasks.keys) ∧
    (∀ r ∈ e.service.rows, r.sourceType ≠ .importFile → r.status = .ready →
      Promoted sha256 e r.id) ∧
    ∀ r ∈ e.service.rows, r.sourceType ≠
      .importFile → (∀ r' ∈ e.service.rows, r'.path = r.path → r' = r) →
      e.service.restart.isBusy p r = false ∧
        (e.service.isBusy p r = false →
          Deleted p e.service (e.service.delete p r.id .row) r ∧
            ((∀ target, e.service.files.get (p.entry r.path) ≠ some (.link target)) →
              p.entry r.path ∉ e.service.importPaths)) := by
  have hsound := run_sound hrun
  refine ⟨fun r hr hstatus => ?_, hsound.ready,
    fun r hr hsource hpath => ⟨?_, fun hbusy => ⟨?_, ?_⟩⟩⟩
  · obtain ⟨r₀, hr₀, rfl⟩ := List.mem_map.mp hr
    split at hstatus
    · simp at hstatus
    · rename_i hrun
      rw [if_neg hrun]
      exact Classical.byContradiction fun hdead => hrun ⟨hstatus, hdead⟩
  · rfl
  · exact delete_converges hsound.owned hr hsource hpath hbusy
  · exact not_reserved hbusy

end

/-- A download up to the rename of its file. -/
def fetch (id base : String) : List Label :=
  [.startDownload id base .url Downloader.testFile.args Downloader.testFile.server,
    .run id true true []] ++
    List.replicate 23 (.work id none)

/-- One download is ready. The process dies after the rename of another one, and again within the
delete of what that has left. -/
def twoCrashes : List Label :=
  fetch "a" "a.gguf" ++
    [.other (.resume "a" true true true), .probeReturns "a", .other (.resume "a" true true true)] ++
    fetch "b" "b.gguf" ++ [.crash, .other .reconcile, .other (.delete "b" .file), .crash,
      .other .reconcile]

theorem recovers_twoCrashes :
    ∃ s, Run (step plainPaths Downloader.testSha256) (.init []) twoCrashes s ∧
      s.service.rows = [⟨"a", "models/a.gguf", .url, .ready⟩,
      ⟨"b", "models/b.gguf", .url, .error⟩] ∧
      Promoted Downloader.testSha256 s "a" ∧
      (s.service.delete plainPaths "b" .row).mayDownload plainPaths "c" "b.gguf" .url := by
  obtain ⟨s, hrun, hs⟩ : ∃ s, Run (step plainPaths Downloader.testSha256) (.init []) twoCrashes s ∧
      (s.service.rows, s.service.importPaths, s.service.isBusy plainPaths ⟨"b", "models/b.gguf",
        .url, .error⟩) =
        ([⟨"a", "models/a.gguf", .url, .ready⟩, ⟨"b", "models/b.gguf", .url, .error⟩], [], false) :=
    run_of_exec_map rfl
  obtain ⟨hrows, hrest⟩ := Prod.mk.inj hs
  obtain ⟨himports, hbusy⟩ := Prod.mk.inj hrest
  obtain ⟨-, hready, hdelete⟩ := recovers hrun
  have ha : (⟨"a", "models/a.gguf", .url, .ready⟩ : ModelRecord) ∈ s.service.rows := by simp [hrows]
  have hb : (⟨"b", "models/b.gguf", .url, .error⟩ : ModelRecord) ∈ s.service.rows := by simp [hrows]
  obtain ⟨-, hafter⟩ := hdelete _ hb (by simp) fun r' hr' hpath => by
    rw [hrows] at hr'
    rcases List.mem_cons.mp hr' with rfl | hr'
    · simp at hpath
    · exact List.mem_singleton.mp hr'
  obtain ⟨hdeleted, -⟩ := hafter hbusy
  refine ⟨s, hrun, hrows, hready _ ha (by simp) rfl, ?_⟩
  refine (hdeleted.accepted "c" "b.gguf" .url (by decide) (by simp) ?_).mpr (by simp [himports])
  intro hc
  obtain ⟨r, hr, hid⟩ := List.mem_map.mp hc
  have hmem : r ∈ s.service.rows := by
    rw [delete_eq (run_sound hrun).owned hb (by simp) hbusy] at hr
    exact List.mem_of_mem_filter hr
  rw [hrows] at hmem
  rcases List.mem_cons.mp hmem with rfl | hmem
  · simp at hid
  · rw [List.mem_singleton.mp hmem] at hid
    simp at hid

end Recovery
end InferenceEngine
