import InferenceEngine.Lib.FileTree
import InferenceEngine.Lib.Run

/-!
# Models.Service

`ModelService`: the rows of the registry, the files, and the tables that say who is using what. A
download is a task of the event loop with a thread behind it; an import hashes its file in a thread;
a load is held by its caller. What the event loop runs between two awaits is one step.

The threads change files and return when they like; here they are only what the service can see of
them. `Models.DownloadTask` has one of them in full.
-/

namespace InferenceEngine

inductive ModelStatus where
  | downloading
  | verifying
  | ready
  | error
  | cancelled
  deriving DecidableEq

inductive SourceType where
  | huggingface
  | url
  | importFile
  deriving DecidableEq

structure ModelRecord where
  id : String
  path : String
  sourceType : SourceType
  status : ModelStatus
  deriving DecidableEq

/-- What the directories say about paths: they do not change. -/
structure Paths where
  modelsDir : String
  /-- the entry that a path names, in its resolved directory -/
  entry : String → String
  /-- whether an entry is in `models_dir` -/
  within : String → Bool

/-- The destination of a download. -/
def Paths.dest (p : Paths) (base : String) : String :=
  p.modelsDir ++ "/" ++ if ".gguf".toList.isSuffixOf base.toList then base else base ++ ".gguf"

/-- `path.with_suffix(path.suffix + ".part")`. -/
def partPath (path : String) : String := path ++ ".part"

/-- `_path_key`. -/
def Paths.key (p : Paths) (files : FileTree String) (path : String) : String :=
  files.resolve (p.entry path)

/-- What `delete_files` unlinks: the files the engine manages. -/
def Paths.unlinked (p : Paths) (files : FileTree String) (sourceType : SourceType) (path : String) :
    List String :=
  if sourceType ≠ .importFile ∨
    p.within (p.key files path) then [p.entry path, p.entry (partPath path)]
  else []

namespace ModelService

inductive Outcome where
  | promoted
  | cancelled
  | failed
  deriving DecidableEq

inductive Phase where
  | created
  | running (probe : Bool)
  | returned (outcome : Outcome)
  | probed
  | done
  deriving DecidableEq

namespace Phase

def isRunning : Phase → Bool
  | .running _ => true
  | _ => false

end Phase

structure Task where
  phase : Phase
  /-- `task.cancel()` was called, and the task has not run since -/
  cancelling : Bool
  deriving DecidableEq

structure Import where
  path : String
  hashed : Bool
  deriving DecidableEq

structure St where
  rows : List ModelRecord
  files : FileTree String
  tasks : Dict String Task
  /-- the events, and whether they are set -/
  cancels : Dict String Bool
  downloadPaths : Dict String String
  operations : List String
  importPaths : List String
  /-- the imports, by the path they have reserved -/
  imports : Dict String Import
  /-- the downloads whose thread runs -/
  threads : List String
  /-- what is being hashed for imports that no longer wait -/
  orphans : List String
  /-- the calls of `shutdown` that wait -/
  shutdowns : Nat
  /-- the models whose deletion has been tried -/
  tried : List String

/-- How far `delete_model` gets before something fails. -/
inductive Reach where
  | nothing
  | file
  | files
  | row
  deriving DecidableEq

inductive Label where
  | startDownload (id base : String) (sourceType : SourceType)
  /-- the task runs for the first time; the executor may refuse the call -/
  | run (id : String) (submits persists : Bool)
  /-- the thread writes the partial file, or unlinks it -/
  | touch (id : String) (present : Bool)
  | threadReturns (id : String) (outcome : Outcome)
  /-- the task goes on after its thread -/
  | resume (id : String) (submits ready persists : Bool)
  | cancel (id : String)
  | cancelTask (id : String)
  /-- the task runs, with the `CancelledError` -/
  | deliver (id : String)
  | importLocal (path : String) (valid : Bool)
  /-- the thread of the import returns -/
  | hashed (key : String)
  /-- the import goes on after its thread; `stored` when no exception comes between -/
  | imported (key id : String) (stored : Bool)
  | importCancelled (key : String)
  | orphanReturns (path : String)
  | beginOperation (id : String)
  | endOperation (id : String)
  | delete (id : String) (reach : Reach)
  | registerConfigured (path id : String)
  | restart
  | reconcile
  | shutdown
  | wake
  | shutdownCancelled

namespace St

variable (p : Paths)

def init (rows : List ModelRecord) (files : FileTree String) : St :=
  ⟨rows, files, [], [], [], [], [], [], [], [], 0, []⟩

def exists? (s : St) (path : String) : Bool := s.files.isFile (p.entry path)

def get? (s : St) (id : String) : Option ModelRecord := s.rows.find? (·.id = id)

/-- `registry.create`: the id is new. -/
def create (s : St) (row : ModelRecord) : St :=
  if row.id ∈ s.rows.map (·.id) then s else { s with rows := s.rows ++ [row] }

def setStatus (s : St) (id : String) (status : ModelStatus) : St :=
  { s with rows := s.rows.map fun r => if r.id = id then { r with status } else r }

def setPhase (s : St) (id : String) (phase : Phase) (cancelling : Bool) : St :=
  { s with tasks := s.tasks.set id ⟨phase, cancelling⟩ }

/-- `_release`. -/
def release (s : St) (id : String) : St :=
  { s with
    cancels := s.cancels.pop id
    tasks := s.tasks.pop id
    downloadPaths := s.downloadPaths.pop id }

/-- `cancel.set()`: not after the rename, which the service sees as a thread that has promoted its
file. -/
def setCancel (s : St) (id : String) : St :=
  match s.tasks.get id with
  | some ⟨.returned .promoted, _⟩ | some ⟨.running true, _⟩ | some ⟨.probed, _⟩ => s
  | _ => if id ∈ s.cancels.keys then { s with cancels := s.cancels.set id true } else s

def unlink (s : St) (entry : String) : St := { s with files := s.files.unlink entry }

/-- The checks of `start_download`; the id is new. -/
def mayDownload (s : St) (id base : String) (sourceType : SourceType) : Prop :=
  sourceType ≠ .importFile ∧ p.key s.files (p.dest base) ∉ s.importPaths ∧
    s.exists? p (p.dest base) = false ∧
    p.dest base ∉ s.rows.map (·.path) ∧ id ∉ s.rows.map (·.id)

instance (s : St) (id base : String) (sourceType : SourceType) :
    Decidable (s.mayDownload p id base sourceType) :=
  inferInstanceAs (Decidable (_ ∧ _))

/-- `start_download`. -/
def startDownload (s : St) (id base : String) (sourceType : SourceType) : St :=
  let dest := p.dest base
  if s.mayDownload p id base sourceType then
    { s with
      rows := s.rows ++ [⟨id, dest, sourceType, .downloading⟩]
      cancels := s.cancels.set id false
      downloadPaths := s.downloadPaths.set id (p.key s.files dest)
      tasks := s.tasks.set id ⟨.created, false⟩ }
  else s

/-- The thread of a task is started. -/
def submit (s : St) (id : String) (probe : Bool) : St :=
  { s.setPhase id (.running probe) false with threads := id :: s.threads }

/-- A final status, one attempt to write it, and `_release`. -/
def record (s : St) (id : String) (status : ModelStatus) (persists : Bool) : St :=
  (if persists then s.setStatus id status else s).release id

def run (s : St) (id : String) (submits persists : Bool) : Option St :=
  match s.tasks.get id with
  | some ⟨.created, true⟩ => some (s.setPhase id .done false)
  | some ⟨.created, false⟩ =>
    some (if submits then s.submit id false else s.record id .error persists)
  | _ => none

def touch (s : St) (id : String) (present : Bool) : Option St :=
  match s.tasks.get id, s.get? id with
  | some ⟨.running false, _⟩, some row =>
    let part := p.entry (partPath row.path)
    some { s with files := if present then s.files.write part else s.files.unlink part }
  | _, _ => none

/-- The thread returns. The rename is its last act, and it is made only while the event is not set.
A file that is not there cannot be renamed. -/
def threadReturns (s : St) (id : String) (outcome : Outcome) : Option St :=
  match s.tasks.get id, s.get? id with
  | some ⟨.running false, cancelling⟩, some row =>
    let returned := { s.setPhase id (.returned outcome) cancelling with
      threads := s.threads.filter (· ≠ id) }
    if outcome = .promoted then
      let part := p.entry (partPath row.path)
      if s.cancels.get id = some true ∨ s.files.get part = none then none
      else some { returned with files := s.files.rename part (p.entry row.path) }
    else some returned
  | some ⟨.running true, cancelling⟩, _ =>
    some { s.setPhase id .probed cancelling with threads := s.threads.filter (· ≠ id) }
  | _, _ => none

/-- Whether the file of a model is there. -/
def stored (s : St) (id : String) : Bool := (s.get? id).any fun row => s.exists? p row.path

def resume (s : St) (id : String) (submits ready persists : Bool) : Option St :=
  match s.tasks.get id with
  | some ⟨.returned .promoted, false⟩ =>
    some (if submits then s.submit id true else s.record id .error persists)
  | some ⟨.returned .cancelled, false⟩ => some (s.record id .cancelled persists)
  | some ⟨.returned .failed, false⟩ => some (s.record id .error persists)
  | some ⟨.probed, false⟩ =>
    some (if ready ∧ s.stored p id then s.record id .ready true else s.record id .error persists)
  | _ => none

def cancelTask (s : St) (id : String) : Option St :=
  match s.tasks.get id with
  | some ⟨.done, _⟩ | none => none
  | some task => some (s.setPhase id task.phase true)

/-- The event is set, and the task waits again. -/
def deliver (s : St) (id : String) : Option St :=
  match s.tasks.get id with
  | some ⟨.created, _⟩ | some ⟨.done, _⟩ | some ⟨_, false⟩ | none => none
  | some ⟨phase, true⟩ => some ((s.setPhase id phase false).setCancel id)

/-- The checks of `import_local`. -/
def mayImport (s : St) (path : String) (valid : Bool) : Prop :=
  p.key s.files path ∉ s.importPaths ∧ p.key s.files path ∉ s.downloadPaths.values ∧
    s.exists? p path = true ∧ valid = true

instance (s : St) (path : String) (valid : Bool) : Decidable (s.mayImport p path valid) :=
  inferInstanceAs (Decidable (_ ∧ _))

/-- `import_local`, up to the thread that hashes the file. -/
def importLocal (s : St) (path : String) (valid : Bool) : St :=
  let key := p.key s.files path
  if s.mayImport p path valid then
    { s with importPaths := key :: s.importPaths, imports := s.imports.set key ⟨path, false⟩ }
  else s

/-- The `finally` of `import_local`. -/
def endImport (s : St) (key : String) : St :=
  { s with importPaths := s.importPaths.filter (· ≠ key), imports := s.imports.pop key }

def hashed (s : St) (key : String) : Option St :=
  match s.imports.get key with
  | some ⟨path, false⟩ => some { s with imports := s.imports.set key ⟨path, true⟩ }
  | _ => none

def imported (s : St) (key id : String) (stored : Bool) : Option St :=
  match s.imports.get key with
  | some ⟨path, true⟩ =>
    some (if stored ∧ s.exists? p path then (s.create ⟨id, path, .importFile, .ready⟩).endImport key
      else s.endImport key)
  | _ => none

/-- A thread that is still hashing goes on. -/
def importCancelled (s : St) (key : String) : Option St :=
  match s.imports.get key with
  | some ⟨_, true⟩ => some (s.endImport key)
  | some ⟨path, false⟩ => some { s.endImport key with orphans := path :: s.orphans }
  | none => none

def isBusy (s : St) (record : ModelRecord) : Bool :=
  decide (record.id ∈ s.tasks.keys) || decide (record.id ∈ s.operations) ||
    decide (p.key s.files record.path ∈ s.importPaths)

def beginOperation (s : St) (id : String) : St :=
  match s.get? id with
  | some record => if s.isBusy p record then s else { s with operations := id :: s.operations }
  | none => s

theorem unlinkAll_eq (entries : List String) (s : St) :
    entries.foldl unlink s = { s with files := entries.foldl FileTree.unlink s.files } := by
  induction entries generalizing s with
  | nil => rfl
  | cons e entries ih => exact ih _

/-- `delete_model`. What fails ends it; the row is the last thing that is deleted. -/
def deleteModel (s : St) (record : ModelRecord) (reach : Reach) : St :=
  let files := p.unlinked s.files record.sourceType record.path
  let s := { s with tried := record.id :: s.tried }
  match reach with
  | .nothing => s
  | .file => (files.take 1).foldl unlink s
  | .files => files.foldl unlink s
  | .row => { files.foldl unlink s with rows := s.rows.filter (·.id ≠ record.id) }

def delete (s : St) (id : String) (reach : Reach) : St :=
  match s.get? id with
  | some record => if s.isBusy p record then s else s.deleteModel p record reach
  | none => s

/-- Whether `register_configured` adds a row. -/
def mayRegister (s : St) (path id : String) : Prop :=
  s.exists? p path = true ∧ path ∉ s.rows.map (·.path) ∧ id ∉ s.rows.map (·.id)

instance (s : St) (path id : String) : Decidable (s.mayRegister p path id) :=
  inferInstanceAs (Decidable (_ ∧ _))

def registerConfigured (s : St) (path id : String) : St :=
  if s.mayRegister p path id then { s with rows := s.rows ++ [⟨id, path, .importFile, .ready⟩] }
    else s

/-- A new process: the rows and the files are what is left. -/
def restart (s : St) : St := { init s.rows s.files with tried := s.tried }

/-- `reconcile_interrupted`. -/
def reconcile (s : St) : St :=
  { s with
    rows := s.rows.map fun r =>
      if (r.status = .downloading ∨ r.status = .verifying) ∧
        r.id ∉ s.tasks.keys then { r with status := .error }
      else r }

/-- A turn of the loop of `shutdown`: it returns when no task is left. -/
def shutdownTurn (s : St) : St :=
  if s.tasks.isEmpty then s
  else { s.cancels.keys.foldl setCancel s with shutdowns := s.shutdowns + 1 }

/-- The tasks that are done and have not released themselves. -/
def releaseDone (s : St) : St :=
  (s.tasks.filter fun e => e.2.phase = .done).foldl (fun s e => s.release e.1) s

/-- The end of a turn, after the wait. -/
def woken (s : St) : St := { s with shutdowns := s.shutdowns - 1 }.releaseDone

def wake (s : St) : Option St := if 0 < s.shutdowns then some s.woken.shutdownTurn else none

end St

def step (p : Paths) (s : St) : Label → Option St
  | .startDownload id base sourceType => some (s.startDownload p id base sourceType)
  | .run id submits persists => s.run id submits persists
  | .touch id present => s.touch p id present
  | .threadReturns id outcome => s.threadReturns p id outcome
  | .resume id submits ready persists => s.resume p id submits ready persists
  | .cancel id => some (s.setCancel id)
  | .cancelTask id => s.cancelTask id
  | .deliver id => s.deliver id
  | .importLocal path valid => some (s.importLocal p path valid)
  | .hashed key => s.hashed key
  | .imported key id stored => s.imported p key id stored
  | .importCancelled key => s.importCancelled key
  | .orphanReturns path =>
    if path ∈ s.orphans then some { s with orphans := s.orphans.erase path } else none
  | .beginOperation id => some (s.beginOperation p id)
  | .endOperation id => some { s with operations := s.operations.filter (· ≠ id) }
  | .delete id reach => some (s.delete p id reach)
  | .registerConfigured path id => some (s.registerConfigured p path id)
  | .restart => some s.restart
  | .reconcile => some s.reconcile
  | .shutdown => some s.shutdownTurn
  | .wake => s.wake
  | .shutdownCancelled =>
    if 0 < s.shutdowns then some { s with shutdowns := s.shutdowns - 1 } else none

/-- A call of `shutdown` returns at this step. -/
def returns (s : St) : Label → Bool
  | .shutdown => s.tasks.isEmpty
  | .wake => decide (0 < s.shutdowns) && s.woken.tasks.isEmpty
  | _ => false

end ModelService

end InferenceEngine
