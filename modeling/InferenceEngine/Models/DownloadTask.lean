import InferenceEngine.Models.Resume

/-!
# Models.DownloadTask

One download of `ModelService`: the worker thread that runs `downloader.download` and its progress
callback, the task `_run_download` that waits for it behind a shield, and what others do meanwhile:
operators who cancel the download, whoever cancels the task, and the shutdown of the service. The
thread and the event loop take their steps in any order. The log has what is written to the row of
the model, the answers to cancel requests and the rename.

* `Inv`: how the event, the thread, the task and the log go together.
* `cancel_or_commit`: a cancel that was accepted prevents the rename and one after it is refused;
  the row gets at most one final status, `ready` only after the rename, and nothing after it.
-/

namespace InferenceEngine

namespace DownloadTask

open Lts Downloader

/-- `CancelEvent`. Both of its methods hold the lock. -/
structure CancelEvent where
  isSet : Bool
  committed : Bool

namespace CancelEvent

/-- `request`: whether it was accepted. -/
def request (e : CancelEvent) : Bool × CancelEvent :=
  if e.committed then (false, e) else (true, { e with isSet := true })

end CancelEvent

inductive Status where
  | ready
  | cancelled
  | error
  deriving DecidableEq

inductive Event where
  | cancel (accepted : Bool)
  | promoted
  | size (total : Nat)
  | progress (done : Nat)
  | terminal (status : Status)
  deriving DecidableEq

namespace Event

def isTerminal : Event → Bool
  | .terminal _ => true
  | _ => false

/-- The writes of the thread. -/
def isProgress : Event → Bool
  | .size _ | .progress _ => true
  | _ => false

end Event

/-- Where the task is. `probing` waits for `gguf.probe`. -/
inductive Task where
  | created
  | downloading
  | probing
  | done
  deriving DecidableEq

inductive Callback where
  | look
  | size
  | throttle
  | progress
  deriving DecidableEq

structure St where
  cancel : CancelEvent
  /-- the thread has been started -/
  started : Bool
  worker : Downloader.St
  callback : Callback
  seenTotal : Bool
  task : Task
  /-- `task.cancel()` was called, and the task has not run since -/
  cancelling : Bool
  interrupted : Bool
  /-- the entries of the service for this download -/
  owned : Bool
  log : List Event

inductive Label where
  /-- the task runs for the first time; the executor may refuse the call, and the row may not be
  written -/
  | run (submits persists : Bool)
  /-- a step of the thread, with what makes it fail -/
  | work (fault : Option (String × Nat))
  /-- a step of the callback; writes to the row may fail -/
  | callback (throttled : Bool) (fault : Option String)
  /-- `ModelService.cancel` -/
  | cancel
  /-- `task.cancel()` -/
  | cancelTask
  /-- `shutdown` sets the event -/
  | shutdown
  /-- the task runs, with the `CancelledError` -/
  | deliver
  /-- the task runs, after its thread has returned -/
  | resume (submits ready persists : Bool)

namespace St

def init (part dest : Option Bytes) : St where
  cancel := ⟨false, false⟩
  started := false
  worker := .start part dest
  callback := .look
  seenTotal := false
  task := .created
  cancelling := false
  interrupted := false
  owned := true
  log := []

def note (s : St) (e : Event) : St := { s with log := s.log ++ [e] }

/-- `cancel.request()`. -/
def request (s : St) : St :=
  { s with cancel := s.cancel.request.2, log := s.log ++ [.cancel s.cancel.request.1] }

/-- A final status, one attempt to write it, and `_release`. -/
def record (s : St) (status : Status) (persists : Bool) : St :=
  { s with
    log := if persists then s.log ++ [.terminal status] else s.log
    task := .done
    owned := false }

end St

section Machine

variable (sha256 : Bytes → String) (c : Call)

namespace St

/-- What the thread has done: the commit point sets `_committed`. -/
def worked (s : St) (w : Downloader.St) : St :=
  if w.pc.isOk then
    { s with worker := w, cancel := { s.cancel with
      committed := true }, log := s.log ++ [.promoted] }
  else { s with worker := w }

def run (s : St) (submits persists : Bool) : Option St :=
  if s.task = .created then
    -- a task that is cancelled before it has run never runs
    if s.cancelling then some { s with task := .done }
    else if submits then some { s with task := .downloading, started := true }
    else some (s.record .error persists)
  else none

def work (s : St) (fault : Option (String × Nat)) : Option St :=
  if s.started then
    match s.worker.pc, fault with
    | .progress _, _ => none
    | _, none => (s.worker.go sha256 c s.cancel.isSet).map s.worked
    | .promote _, some (typeName, kept) =>
      -- the rename is tried only when the event is not set
      if s.cancel.isSet then none else (s.worker.fail c typeName kept).map s.worked
    | _, some (typeName, kept) => (s.worker.fail c typeName kept).map s.worked
  else none

/-- The callback has returned. -/
def called (s : St) (l : Loop) : St :=
  { s with worker := s.worker.goto (.checkLoop l), callback := .look }

def runCallback (s : St) (throttled : Bool) (fault : Option String) : Option St :=
  match s.worker.pc with
  | .progress l =>
    match s.callback, fault with
    | .look, _ =>
      if s.cancel.isSet then some (s.called l)
      else if l.total.isSome && !s.seenTotal then some { s with
        callback := .size, seenTotal := true }
      else some { s with callback := .throttle }
    | .throttle, _ => if throttled then some (s.called l) else some { s with callback := .progress }
    | .size, none => some { s.note (.size (l.total.getD 0)) with callback := .throttle }
    | .progress, none => some ((s.note (.progress l.downloaded)).called l)
    | _, some typeName =>
      some { s with worker := s.worker.raise (.other typeName), callback := .look }
  | _ => none

/-- The task goes on after its thread has returned. -/
def resume (s : St) (submits ready persists : Bool) : Option St :=
  if s.cancelling then none
  else
    match s.task, s.worker.pc with
    | .downloading, .ended (.ok _) =>
      if submits then some { s with task := .probing } else some (s.record .error persists)
    | .downloading, .ended (.error .downloadCancelled) => some (s.record .cancelled persists)
    | .downloading, .ended (.error _) => some (s.record .error persists)
    | .probing, _ => some (if ready then s.record .ready true else s.record .error persists)
    | _, _ => none

/-- The `CancelledError` comes out of the shield: the event is set, and the task waits again. -/
def deliver (s : St) : Option St :=
  if s.cancelling ∧ (s.task = .downloading ∨ s.task = .probing) then
    some { s.request with cancelling := false, interrupted := true }
  else none

end St

def step (s : St) : Label → Option St
  | .run submits persists => s.run submits persists
  | .work fault => s.work sha256 c fault
  | .callback throttled fault => s.runCallback throttled fault
  | .cancel => some (if s.owned then s.request else s.note (.cancel false))
  | .cancelTask => some { s with cancelling := s.cancelling || decide (s.task ≠ .done) }
  | .shutdown => some (if s.owned then s.request else s)
  | .deliver => s.deliver
  | .resume submits ready persists => s.resume submits ready persists

end Machine

/-- `downloader.download`, as the service calls it. -/
def serviceCall (a : Args) (server : Nat → Downloader.Reply) : Call :=
  ⟨{ a with cancel := .cancelEvent }, server⟩

/-! ## The commit point of the thread -/

section Worker

variable {sha256 : Bytes → String} {c : Call} {w w' : Downloader.St} {isSet : Bool}

/-- A step without the rename, and not to the rename without the lock. -/
structure Plain (w w' : Downloader.St) : Prop where
  dest : w'.dest = w.dest
  isOk : w'.pc.isOk = false
  locked : ∀ digest, w'.pc ≠ .replace digest

theorem plain_raise (e : Downloader.Exc) : Plain w (w.raise e) :=
  ⟨rfl, rfl, fun _ h => by cases h⟩

theorem plain_goto {pc : Pc} (hok : pc.isOk = false) (hlocked : ∀ digest, pc ≠ .replace digest) :
    Plain w (w.goto pc) := ⟨rfl, hok, hlocked⟩

theorem plain_check {pc : Pc} (hok : pc.isOk = false) (hlocked : ∀ digest, pc ≠ .replace digest)
    (cancel : Cancel) : Plain w (w.check cancel isSet pc) := by
  unfold Downloader.St.check
  split
  · exact plain_raise _
  · exact plain_goto hok hlocked

/-- The file is renamed only when the event is not set. -/
theorem go_plain_or_promoted (hcancel : c.args.cancel = .cancelEvent)
    (hlocked : ∀ digest, w.pc ≠ .replace digest) (h : w.go sha256 c isSet = some w') :
    Plain w w' ∨ isSet = false ∧ w'.pc.isOk = true ∧ ∀ digest, w'.pc ≠ .replace digest := by
  cases hpc : w.pc with
  | promote digest =>
    simp only [Downloader.St.go, hpc, Downloader.St.promote, hcancel, Option.some.injEq] at h
    subst h
    cases isSet with
    | true => exact .inl (plain_raise _)
    | false => exact .inr ⟨rfl, rfl, fun _ h => by cases h⟩
  | replace digest => exact absurd hpc (hlocked digest)
  | ended =>
    simp only [Downloader.St.go, hpc] at h
    cases h
  | checkFirst | checkResponse | checkLoop | checkWritten | checkClosed | checkHash =>
    simp only [Downloader.St.go, hpc, Option.some.injEq] at h
    subst h
    exact .inl (plain_check rfl (fun _ h => by cases h) _)
  | checkRead l chunk =>
    simp only [Downloader.St.go, hpc, Option.some.injEq] at h
    subst h
    refine .inl (plain_check ?_ ?_ _)
    · split <;> rfl
    · intro digest h
      split at h <;> cases h
  | enter | progress | close =>
    simp only [Downloader.St.go, hpc, Option.some.injEq] at h
    subst h
    exact .inl (plain_goto rfl fun _ h => by cases h)
  | restart =>
    simp only [Downloader.St.go, hpc, Option.some.injEq] at h
    subst h
    exact .inl ⟨rfl, rfl, fun _ h => by cases h⟩
  | urlopen k =>
    simp only [Downloader.St.go, hpc, Option.some.injEq] at h
    subst h
    cases c.server k with
    | invalidUrl | networkError => exact .inl (plain_raise _)
    | response => exact .inl (plain_goto rfl fun _ h => by cases h)
    | httpError code =>
      simp only [Downloader.St.opened]
      split
      · exact .inl (plain_goto rfl fun _ h => by cases h)
      · exact .inl (plain_raise _)
  | discard k r =>
    simp only [Downloader.St.go, hpc] at h
    split at h
    · cases h
      exact .inl ⟨rfl, rfl, fun _ h => by cases h⟩
    · cases h
      exact .inl (plain_goto rfl fun _ h => by cases h)
  | openPart k r =>
    simp only [Downloader.St.go, hpc] at h
    split at h
    · cases h
      exact .inl ⟨rfl, rfl, fun _ h => by cases h⟩
    · cases h
      exact .inl (plain_raise _)
  | read l =>
    simp only [Downloader.St.go, hpc] at h
    split at h
    · cases h
      exact .inl (plain_goto rfl fun _ h => by cases h)
    · cases h
      exact .inl (plain_raise _)
  | write l chunk =>
    simp only [Downloader.St.go, hpc, Option.some.injEq, Downloader.St.written] at h
    split at h
    · subst h
      exact .inl ⟨rfl, rfl, fun _ h => by cases h⟩
    · subst h
      exact .inl ⟨rfl, rfl, fun _ h => by cases h⟩
  | hash done =>
    simp only [Downloader.St.go, hpc, Option.some.injEq, Downloader.St.hashed] at h
    subst h
    refine .inl (plain_goto ?_ ?_)
    · split <;> rfl
    · intro digest h
      split at h <;> cases h
  | verify done =>
    simp only [Downloader.St.go, hpc, Option.some.injEq, Downloader.St.verified] at h
    split at h
    · subst h
      exact .inl (plain_goto rfl fun _ h => by cases h)
    · subst h
      exact .inl (plain_raise _)

theorem fail_plain {typeName : String} {kept : Nat} (h : w.fail c typeName kept = some w') :
    Plain w w' := by
  obtain ⟨-, ⟨e, hpc⟩, hdest⟩ := fail_spec h
  refine ⟨hdest, by rw [hpc]; rfl, fun digest hreplace => ?_⟩
  rw [hpc] at hreplace
  cases hreplace

theorem isEnded_of_go (h : w.go sha256 c isSet = some w') : w.pc.isEnded = false := by
  cases hpc : w.pc with
  | ended =>
    simp only [Downloader.St.go, hpc] at h
    cases h
  | _ => rfl

end Worker

/-! ## The invariant -/

/-- What may follow in the log. -/
def Allowed (e e' : Event) : Prop :=
  (e = .promoted → e' ≠ .cancel true) ∧
    (e.isTerminal = true → e'.isTerminal = false ∧ e'.isProgress = false ∧ e' ≠ .promoted)

structure Logged (cancel : CancelEvent) (task : Task) (log : List Event) : Prop where
  set : cancel.isSet = true ↔ .cancel true ∈ log
  committed : cancel.committed = true ↔ .promoted ∈ log
  exclusive : cancel.isSet = true → cancel.committed = false
  closed : ∀ e ∈ log, e.isTerminal = true → task = .done
  ready : .terminal .ready ∈ log → cancel.committed = true
  order : log.Pairwise Allowed

/-- The thread, the task and the commit point. -/
structure Working (dest : Option Bytes) (committed started : Bool)
    (worker : Downloader.St) (task : Task) :
    Prop where
  isOk : worker.pc.isOk = committed
  dest : committed = false → worker.dest = dest
  locked : ∀ digest, worker.pc ≠ .replace digest
  idle : started = false → worker.pc = .enter
  created : task = .created → started = false
  probing : task = .probing → committed = true
  finished : task = .done → started = true → worker.pc.isEnded = true

structure Inv (dest : Option Bytes) (s : St) : Prop where
  logged : Logged s.cancel s.task s.log
  working : Working dest s.cancel.committed s.started s.worker s.task

theorem init_inv (part dest : Option Bytes) : Inv dest (.init part dest) where
  logged :=
    { set := by simp [St.init]
      committed := by simp [St.init]
      exclusive := fun h => by cases h
      closed := fun _ h => by cases h
      ready := fun h => by cases h
      order := .nil }
  working :=
    { isOk := rfl
      dest := fun _ => rfl
      locked := fun _ h => by cases h
      idle := fun _ => rfl
      created := fun _ => rfl
      probing := fun h => by cases h
      finished := fun h => by cases h }

theorem Logged.concat {cancel cancel' : CancelEvent} {task task' : Task} {log : List Event}
    {e : Event} (h : Logged cancel task log)
      (hset : cancel'.isSet = (cancel.isSet || decide (e = .cancel true)))
      (hcommitted : cancel'.committed = (cancel.committed || decide (e = .promoted)))
      (hexclusive : cancel'.isSet = true → cancel'.committed = false) (hdone : task = .done →
      task' = .done) (hterminal : e.isTerminal = true → task' = .done)
    (hready : e = .terminal .ready → cancel.committed = true) (horder : ∀ a ∈ log, Allowed a e) :
    Logged cancel' task' (log ++ [e]) where
  set := by
    rw [hset, Bool.or_eq_true, h.set, decide_eq_true_eq, List.mem_append, List.mem_singleton]
    exact or_congr_right eq_comm
  committed := by
    rw [hcommitted, Bool.or_eq_true, h.committed, decide_eq_true_eq, List.mem_append,
      List.mem_singleton]
    exact or_congr_right eq_comm
  exclusive := hexclusive
  closed e' he' hterminal' := by
    rcases List.mem_append.mp he' with he' | he'
    · exact hdone (h.closed e' he' hterminal')
    · rw [List.mem_singleton.mp he'] at hterminal'
      exact hterminal hterminal'
  ready hready' := by
    rw [hcommitted, Bool.or_eq_true]
    rcases List.mem_append.mp hready' with hready' | hready'
    · exact .inl (h.ready hready')
    · exact .inl (hready (List.mem_singleton.mp hready').symm)
  order := by
    refine List.pairwise_append.mpr ⟨h.order, List.pairwise_singleton .., fun a ha b hb => ?_⟩
    rw [List.mem_singleton.mp hb]
    exact horder a ha

theorem Logged.task {cancel : CancelEvent} {task task' : Task} {log : List Event}
    (h : Logged cancel task log) (hdone : task = .done → task' = .done) : Logged cancel task' log :=
  { h with closed := fun e he hterminal => hdone (h.closed e he hterminal) }

theorem isEnded_of_isOk {pc : Pc} (h : pc.isOk = true) : pc.isEnded = true := by
  cases pc with
  | ended => rfl
  | _ => cases h

namespace Inv

variable {sha256 : Bytes → String} {c : Call} {dest : Option Bytes} {s s' : St}

/-- While the thread runs, nothing is renamed and the task waits for it. -/
theorem waits (h : Inv dest s) (hstarted : s.started = true) (hopen : s.worker.pc.isEnded = false) :
    s.cancel.committed = false ∧ s.task = .downloading := by
  have hcommitted : s.cancel.committed = false := by
    cases hcommitted : s.cancel.committed with
    | false => rfl
    | true =>
      rw [isEnded_of_isOk (h.working.isOk.trans hcommitted)] at hopen
      cases hopen
  refine ⟨hcommitted, ?_⟩
  cases htask : s.task with
  | created =>
    rw [h.working.created htask] at hstarted
    cases hstarted
  | downloading => rfl
  | probing =>
    rw [h.working.probing htask] at hcommitted
    cases hcommitted
  | done =>
    rw [h.working.finished htask hstarted] at hopen
    cases hopen

theorem started_of_progress (h : Inv dest s) {l : Loop} (hpc : s.worker.pc = .progress l) :
    s.started = true ∧ s.worker.pc.isEnded = false := by
  refine ⟨?_, by rw [hpc]; rfl⟩
  cases hstarted : s.started with
  | true => rfl
  | false =>
    rw [h.working.idle hstarted] at hpc
    cases hpc

theorem not_terminal (h : Inv dest s) (htask : s.task ≠ .done) {e : Event} (he : e ∈ s.log) :
    e.isTerminal = false := by
  cases hterminal : e.isTerminal with
  | false => rfl
  | true => exact absurd (h.logged.closed e he hterminal) htask

theorem request (h : Inv dest s) : Inv dest s.request := by
  cases hcommitted : s.cancel.committed with
  | true =>
    have hrequest : s.cancel.request = (false, s.cancel) := if_pos hcommitted
    refine ⟨?_, ?_⟩
    · rw [St.request, hrequest]
      refine h.logged.concat (by simp) (by simp) h.logged.exclusive id (fun h => by cases h)
        (fun h => by cases h) fun a _ => ⟨fun _ h => ?_, fun _ => ⟨rfl, rfl, fun h => ?_⟩⟩
      · cases h
      · cases h
    · rw [St.request, hrequest]
      exact h.working
  | false =>
    have hrequest : s.cancel.request = (true, { s.cancel with isSet := true }) :=
      if_neg (by rw [hcommitted]; decide)
    refine ⟨?_, ?_⟩
    · rw [St.request, hrequest]
      refine h.logged.concat (by simp) (by simp) (fun _ => hcommitted) id (fun h => by cases h)
        (fun h => by cases h) fun a ha => ⟨fun hpromoted _ => ?_, fun _ => ⟨rfl, rfl, fun h => ?_⟩⟩
      · rw [hpromoted] at ha
        rw [h.logged.committed.mpr ha] at hcommitted
        cases hcommitted
      · cases h
    · rw [St.request, hrequest]
      exact h.working

theorem plain (h : Inv dest s) (hstarted : s.started = true) (hopen : s.worker.pc.isEnded = false)
    {w : Downloader.St} (hw : Plain s.worker w) : Inv dest { s with worker := w } := by
  obtain ⟨hcommitted, htask⟩ := h.waits hstarted hopen
  refine ⟨h.logged, ?_, fun _ => hw.dest.trans (h.working.dest hcommitted), hw.locked,
    fun hidle => ?_, h.working.created, h.working.probing, fun hdone => ?_⟩
  · rw [hw.isOk, hcommitted]
  · rw [hstarted] at hidle
    cases hidle
  · rw [htask] at hdone
    cases hdone

theorem worked (h : Inv dest s) (hstarted : s.started = true) (hopen : s.worker.pc.isEnded = false)
    {w : Downloader.St} (hw : Plain s.worker w ∨
      s.cancel.isSet = false ∧ w.pc.isOk = true ∧ ∀ digest, w.pc ≠ .replace digest) :
    Inv dest (s.worked w) := by
  rcases hw with hw | ⟨hset, hok, hlocked⟩
  · rw [St.worked, if_neg (by rw [hw.isOk]; decide)]
    exact h.plain hstarted hopen hw
  · obtain ⟨hcommitted, htask⟩ := h.waits hstarted hopen
    rw [St.worked, if_pos hok]
    refine ⟨h.logged.concat (by simp) (by simp) ?_ id (fun h => by cases h)
      (fun h => by cases h) ?_, hok, fun h => ?_, hlocked, fun hidle => ?_, h.working.created,
      fun _ => rfl, fun hdone => ?_⟩
    · intro hset'
      rw [show s.cancel.isSet = true from hset'] at hset
      cases hset
    · intro a ha
      refine ⟨fun _ h => (by cases h), fun hterminal => ?_⟩
      rw [h.not_terminal (by rw [htask]; decide) ha] at hterminal
      cases hterminal
    · cases h
    · rw [show s.started = false from hidle] at hstarted
      cases hstarted
    · rw [show s.task = .done from hdone] at htask
      cases htask

theorem note (h : Inv dest s) (htask : s.task ≠ .done) {e : Event} (he : e.isProgress = true) :
    Inv dest (s.note e) := by
  have hother : e ≠ .cancel true ∧ e ≠ .promoted ∧ e.isTerminal = false := by
    cases e <;> simp_all [Event.isProgress, Event.isTerminal]
  obtain ⟨hcancel, hpromoted, hterminal⟩ := hother
  refine ⟨h.logged.concat (by simp [St.note, hcancel])
    (by simp [St.note, hpromoted]) h.logged.exclusive id (fun h => ?_)
    (fun h => ?_) fun a ha => ⟨fun _ => hcancel, fun h' => ?_⟩, h.working⟩
  · rw [hterminal] at h
    cases h
  · rw [h] at hterminal
    cases hterminal
  · rw [h.not_terminal htask ha] at h'
    cases h'

/-- The final status, when the thread has ended or was never started. -/
theorem record (h : Inv dest s) (htask : s.task ≠ .done)
    (hended : s.started = true → s.worker.pc.isEnded = true) {status : Status}
    (hready : status = .ready → s.cancel.committed = true) (persists : Bool) :
    Inv dest (s.record status persists) := by
  have hworking : Working dest s.cancel.committed s.started s.worker .done :=
    { h.working with
      created := fun h => by cases h
      probing := fun h => by cases h
      finished := fun _ => hended }
  refine ⟨?_, hworking⟩
  cases persists with
  | false => exact h.logged.task fun _ => rfl
  | true =>
    refine h.logged.concat (by simp [St.record])
      (by simp [St.record]) h.logged.exclusive (fun _ => rfl)
      (fun _ => rfl) ?_ ?_
    · intro he
      cases he
      exact hready rfl
    · intro a ha
      refine ⟨fun _ h => (by cases h), fun hterminal => ?_⟩
      rw [h.not_terminal htask ha] at hterminal
      cases hterminal

theorem called (h : Inv dest s) {l : Loop} (hpc : s.worker.pc = .progress l) :
    Inv dest (s.called l) := by
  obtain ⟨hstarted, hopen⟩ := h.started_of_progress hpc
  have hplain : Plain s.worker (s.worker.goto (.checkLoop l)) :=
    plain_goto rfl fun _ h => by cases h
  have hcalled := h.plain hstarted hopen hplain
  exact ⟨hcalled.logged, hcalled.working⟩

theorem step (hcancel : c.args.cancel = .cancelEvent) (h : Inv dest s) {l : Label}
    (hst : DownloadTask.step sha256 c s l = some s') : Inv dest s' := by
  cases l with
  | run submits persists =>
    simp only [DownloadTask.step, St.run] at hst
    split at hst
    · rename_i htask
      have hidle := h.working.created htask
      have hdone : s.task = .done → s'.task = .done := by
        intro hdone
        rw [htask] at hdone
        cases hdone
      split at hst
      · cases hst
        refine ⟨h.logged.task hdone,
          { h.working with created := ?_, probing := ?_, finished := ?_ }⟩
        · exact fun h => by cases h
        · exact fun h => by cases h
        · intro _ hstarted
          rw [hidle] at hstarted
          cases hstarted
      · split at hst
        · cases hst
          refine ⟨h.logged.task hdone,
            { h.working with idle := ?_, created := ?_, probing := ?_, finished := ?_ }⟩
          · exact fun h => by cases h
          · exact fun h => by cases h
          · exact fun h => by cases h
          · exact fun h => by cases h
        · cases hst
          refine h.record (by rw [htask]; decide) (fun hstarted => ?_)
            (fun h => by cases h) persists
          rw [hidle] at hstarted
          cases hstarted
    · cases hst
  | work fault =>
    simp only [DownloadTask.step, St.work] at hst
    split at hst
    · rename_i hstarted
      split at hst
      · cases hst
      · obtain ⟨w, hw, rfl⟩ := Option.map_eq_some_iff.mp hst
        exact h.worked hstarted (isEnded_of_go hw)
          (go_plain_or_promoted hcancel h.working.locked hw)
      · split at hst
        · cases hst
        · obtain ⟨w, hw, rfl⟩ := Option.map_eq_some_iff.mp hst
          exact h.worked hstarted (fail_spec hw).1 (.inl (fail_plain hw))
      · obtain ⟨w, hw, rfl⟩ := Option.map_eq_some_iff.mp hst
        exact h.worked hstarted (fail_spec hw).1 (.inl (fail_plain hw))
    · cases hst
  | callback throttled fault =>
    simp only [DownloadTask.step, St.runCallback] at hst
    split at hst
    · rename_i l hpc
      obtain ⟨hstarted, hopen⟩ := h.started_of_progress hpc
      have htask : s.task ≠ .done := by rw [(h.waits hstarted hopen).2]; decide
      split at hst
      · split at hst
        · cases hst
          exact h.called hpc
        · split at hst
          · cases hst
            exact ⟨h.logged, h.working⟩
          · cases hst
            exact ⟨h.logged, h.working⟩
      · split at hst
        · cases hst
          exact h.called hpc
        · cases hst
          exact ⟨h.logged, h.working⟩
      · cases hst
        have hnoted := h.note htask (e := .size (l.total.getD 0)) rfl
        exact ⟨hnoted.logged, hnoted.working⟩
      · cases hst
        exact (h.note htask (e := .progress l.downloaded) rfl).called hpc
      · rename_i typeName _ _
        cases hst
        have hraised := h.plain hstarted hopen (plain_raise (.other typeName))
        exact ⟨hraised.logged, hraised.working⟩
    · cases hst
  | cancel =>
    cases hst
    split
    · exact h.request
    · refine ⟨h.logged.concat (by simp [St.note]) (by simp [St.note]) h.logged.exclusive id
        (fun h => by cases h) (fun h => by cases h) fun a _ => ⟨fun _ h => ?_,
          fun _ => ⟨rfl, rfl, fun h => ?_⟩⟩, h.working⟩
      · cases h
      · cases h
  | cancelTask =>
    cases hst
    exact ⟨h.logged, h.working⟩
  | shutdown =>
    cases hst
    split
    · exact h.request
    · exact h
  | deliver =>
    simp only [DownloadTask.step, St.deliver] at hst
    split at hst
    · cases hst
      exact ⟨h.request.logged, h.request.working⟩
    · cases hst
  | resume submits ready persists =>
    simp only [DownloadTask.step, St.resume] at hst
    split at hst
    · cases hst
    · split at hst
      · rename_i htask hpc
        split at hst
        · cases hst
          refine ⟨h.logged.task fun hdone => ?_,
            { h.working with created := ?_, probing := fun _ => ?_, finished := ?_ }⟩
          · rw [htask] at hdone
            cases hdone
          · exact fun h => by cases h
          · rw [← h.working.isOk, hpc]
            rfl
          · exact fun h => by cases h
        · cases hst
          exact h.record (by rw [htask]; decide) (fun _ => by rw [hpc]; rfl)
            (fun h => by cases h) persists
      · rename_i htask hpc
        cases hst
        exact h.record (by rw [htask]; decide) (fun _ => by rw [hpc]; rfl)
          (fun h => by cases h) persists
      · rename_i htask hpc
        cases hst
        exact h.record (by rw [htask]; decide) (fun _ => by rw [hpc]; rfl)
          (fun h => by cases h) persists
      · rename_i htask
        have hcommitted := h.working.probing htask
        have hended : s.started = true → s.worker.pc.isEnded = true := fun _ =>
          isEnded_of_isOk (h.working.isOk.trans hcommitted)
        cases hst
        split
        · exact h.record (by rw [htask]; decide) hended (fun _ => hcommitted) true
        · exact h.record (by rw [htask]; decide) hended (fun h => by cases h) persists
      · cases hst

end Inv

/-- What comes after an entry of the log. -/
theorem allowed_of_split {log before after : List Event} {e e' : Event} (h : log.Pairwise Allowed)
    (hlog : log = before ++ e :: after) (he' : e' ∈ after) : Allowed e e' := by
  rw [hlog] at h
  exact List.rel_of_pairwise_cons (List.pairwise_append.mp h).2.1 he'

/-- In every run of a download: a cancel that was accepted prevents the rename and the status
`ready`; after the rename every cancel is refused; `ready` comes after the rename; and after a final
status the row gets no other one and no write of the thread. -/
theorem cancel_or_commit (sha256 : Bytes → String) (a : Args) (server : Nat → Downloader.Reply)
    (part dest : Option Bytes) (labels : List Label) (t : St)
    (hrun : Run (step sha256 (serviceCall a server)) (.init part dest) labels t) :
    (.cancel true ∈ t.log → t.worker.dest = dest ∧ .promoted ∉ t.log ∧ .terminal .ready ∉ t.log) ∧
      (.promoted ∉ t.log → t.worker.dest = dest) ∧
      (∀ before after, t.log = before ++ .promoted :: after → .cancel true ∉ after) ∧
      (∀ before after, t.log = before ++ .terminal .ready :: after → .promoted ∈ before) ∧
      ∀ before after status, t.log = before ++ .terminal status :: after →
        ∀ e ∈ after, e.isTerminal = false ∧ e.isProgress = false := by
  have hinv : Inv dest t := hrun.invariant (fun _ _ _ h => h.step rfl) (init_inv part dest)
  have hkept : .promoted ∉ t.log → t.worker.dest = dest := by
    intro hpromoted
    refine hinv.working.dest ?_
    rw [← hinv.logged.committed, Bool.not_eq_true] at hpromoted
    exact hpromoted
  refine ⟨fun haccepted => ?_, hkept, ?_, ?_, ?_⟩
  · have hcommitted := hinv.logged.exclusive (hinv.logged.set.mpr haccepted)
    have hpromoted : .promoted ∉ t.log := by
      rw [← hinv.logged.committed, hcommitted]
      decide
    refine ⟨hkept hpromoted, hpromoted, fun hready => ?_⟩
    rw [hinv.logged.ready hready] at hcommitted
    cases hcommitted
  · intro before after hlog hmem
    exact (allowed_of_split hinv.logged.order hlog hmem).1 rfl rfl
  · intro before after hlog
    have hready : .terminal .ready ∈ t.log := by
      rw [hlog]
      exact List.mem_append_right _ (List.mem_cons_self ..)
    have hpromoted := hinv.logged.committed.mp (hinv.logged.ready hready)
    rw [hlog] at hpromoted
    rcases List.mem_append.mp hpromoted with hmem | hmem
    · exact hmem
    · rcases List.mem_cons.mp hmem with heq | hmem
      · cases heq
      · exact absurd rfl ((allowed_of_split hinv.logged.order hlog hmem).2 rfl).2.2
  · intro before after status hlog e he
    have hallowed := (allowed_of_split hinv.logged.order hlog he).2 rfl
    exact ⟨hallowed.1, hallowed.2.1⟩

/-- A file of four bytes that is fetched, renamed and recorded; a cancel comes after the rename. -/
def lateCancel : List Label :=
  [.run true true] ++ List.replicate 11 (.work none) ++ List.replicate 2 (.callback true none) ++
    List.replicate 11 (.work none) ++ [.cancel, .resume true true true, .resume true true true]

theorem cancel_or_commit_lateCancel :
    ∃ t, Run (step testSha256 (serviceCall testFile.args testFile.server)) (.init none none)
        lateCancel t ∧
      t.log = [.promoted, .cancel false, .terminal .ready] ∧ .cancel true ∉ t.log ∧
      ∀ before after, t.log = before ++ .terminal .ready :: after → .promoted ∈ before := by
  obtain ⟨t, hrun, hlog⟩ : ∃ t, Run (step testSha256 (serviceCall testFile.args testFile.server))
      (.init none none) lateCancel t ∧ t.log = [.promoted, .cancel false, .terminal .ready] :=
    run_of_exec_map rfl
  obtain ⟨-, -, -, hready, -⟩ :=
    cancel_or_commit testSha256 testFile.args testFile.server none none lateCancel t hrun
  exact ⟨t, hrun, hlog, by rw [hlog]; decide, hready⟩

end DownloadTask

end InferenceEngine
