import InferenceEngine.Lib.FileLock
import InferenceEngine.Lib.Run

/-!
# Store.Ownership

The two locks of a writable store (`store/ownership.py`): one next to the database, one inside the
directory of the models. Any number of engines take them and give them back; a step is one call of
the operating system by one of them, which may fail, and a process may exit at any moment.

Which file an engine finds at a path is its own matter (`Config.file`): two engines may reach one
file by different paths, through links or mounts. Nothing replaces a lock file, so this does not
change.

* `step_claimed`: the table of the locks is what the engines have in hand, call by call.
* `store_owned_once`: two engines never have a lock file in common.
* `acquires_iff`: what is left behind by engines that have failed, released or exited is no
  obstacle.
* `calls_bounded`: nobody waits.
-/

namespace InferenceEngine
namespace StoreOwnership

open Lts FileLock

inductive Resource where
  | database
  | modelStore
  deriving DecidableEq, Repr

def Resource.str : Resource → String
  | .database => "database"
  | .modelStore => "model directory"

/-- `MODEL_STORE_LOCK_NAME`. -/
def modelStoreLockName : String := ".engine-model-store.lock"

/-- The store an engine is configured with: canonical paths, by their parts. -/
structure Settings where
  dbParent : List String
  dbName : String
  modelsDir : List String
  deriving DecidableEq

/-- `lock_path_for` and `model_store_lock_path`. -/
def Settings.lockPath (s : Settings) : Resource → List String
  | .database => s.dbParent ++ [s.dbName ++ ".lock"]
  | .modelStore => s.modelsDir ++ [modelStoreLockName]

def pathStr (parts : List String) : String := "/" ++ "/".intercalate parts

inductive Errno where
  | again
  | access
  | other
  deriving DecidableEq, Repr

structure OSError where
  errno : Errno
  typeName : String
  deriving DecidableEq, Repr

/-- `_is_contention`. -/
def OSError.isContention (e : OSError) : Bool := e.errno = .again || e.errno = .access

inductive Error where
  | sameLockFile
  | locked (r : Resource)
  | cannotOpen (r : Resource) (e : OSError)
  | cannotLock (r : Resource) (e : OSError)
  /-- from the release of the first lock, after the second was refused -/
  | unlockFailed (e : OSError)
  deriving DecidableEq, Repr

/-- The text of an error of the module itself. -/
def Error.message (lockPath : Resource → List String) : Error → Option String
  | .sameLockFile =>
    some ("the database and the model directory map to the same lock file; " ++
      "configure distinct, non-overlapping locations")
  | .locked r =>
    some ("another engine process already owns this " ++ r.str ++ " (lock: " ++
      pathStr (lockPath r) ++ ")")
  | .cannotOpen r e =>
    some ("cannot open the " ++ r.str ++ " lock file " ++ pathStr (lockPath r) ++ " (" ++
      e.typeName ++ ")")
  | .cannotLock r e =>
    some ("cannot lock the " ++ r.str ++ " lock file " ++ pathStr (lockPath r) ++ " (" ++
      e.typeName ++ ")")
  | .unlockFailed _ => none

inductive Pc where
  | idle
  /-- `mkdir` and `open` -/
  | opening (r : Resource)
  /-- `_lock` -/
  | locking (r : Resource)
  /-- `_lock` has failed, and the file is closed -/
  | refused (r : Resource) (e : Error)
  | owned
  | unlocking (r : Resource) (cause : Option Error)
  /-- the file is closed, and still locked if `_unlock` has failed -/
  | closing (r : Resource) (cause : Option Error) (locked : Bool)
  | failed (e : Error)
  | released
  | exited
  deriving DecidableEq, Repr

inductive Call where
  | acquire
  | openFile (error : Option OSError)
  | lock (error : Option OSError)
  | close
  | release
  | unlock (error : Option OSError)
  | exit
  deriving DecidableEq

structure Label (ι : Type) where
  engine : ι
  call : Call

structure Config (ι F : Type) where
  settings : ι → Settings
  /-- the file that an engine finds at a path -/
  reaches : ι → List String → F

variable {ι F : Type}

/-- The lock file of an engine. -/
def Config.file (c : Config ι F) (i : ι) (r : Resource) : F :=
  c.reaches i ((c.settings i).lockPath r)

structure St (ι F : Type) where
  locks : Locks F (ι × Resource)
  pc : ι → Pc

def init : St ι F := ⟨fun _ => none, fun _ => .idle⟩

/-- After a lock is taken: the database is the first. -/
def afterLocked : Resource → Pc
  | .database => .opening .modelStore
  | .modelStore => .owned

/-- After a lock was refused: all or nothing. -/
def afterRefused (e : Error) : Resource → Pc
  | .database => .failed e
  | .modelStore => .unlocking .database (some e)

/-- After a lock is given up: the database is the last. -/
def afterReleased (cause : Option Error) : Resource → Pc
  | .modelStore => .unlocking .database cause
  | .database =>
    match cause with
    | some e => .failed e
    | none => .released

/-- What `_lock` raises, as `acquire` passes it on. -/
def refusal (r : Resource) (e : OSError) : Error :=
  if e.isContention then .locked r else .cannotLock r e

def blocking : OSError := ⟨.again, "BlockingIOError"⟩

/-- The locks that are in the hands of an engine. -/
def Pc.holds : Pc → Resource → Bool
  | .opening .modelStore, .database | .locking .modelStore, .database | .refused .modelStore _,
      .database => true
  | .owned, _ | .unlocking .modelStore _, _ | .unlocking .database _, .database => true
  | .closing .modelStore _ _, .database => true
  | .closing .modelStore _ locked, .modelStore | .closing .database _ locked, .database => locked
  | _, _ => false

/-- How many calls an engine may still make. -/
def Pc.left : Pc → Nat
  | .idle => 11
  | .opening .database => 10
  | .locking .database => 9
  | .opening .modelStore => 8
  | .locking .modelStore => 7
  | .owned => 6
  | .unlocking .modelStore _ => 5
  | .closing .modelStore _ _ | .refused .modelStore _ => 4
  | .unlocking .database _ => 3
  | .closing .database _ _ | .refused .database _ => 2
  | .failed _ | .released => 1
  | .exited => 0

/-- The handle of a lock, and the file it has locked. -/
def Claims (c : Config ι F) (s : St ι F) (h : ι × Resource) (f : F) : Prop :=
  (s.pc h.1).holds h.2 = true ∧ f = c.file h.1 h.2

variable {c : Config ι F} {s s' : St ι F} {l : Label ι} {i : ι}

theorem init_claimed (c : Config ι F) : Claimed (Claims c init) (init : St ι F).locks := by
  intro h f
  simp [Claims, init, Pc.holds]

theorem claims_update [DecidableEq ι] {locks : Locks F (ι × Resource)} {pc : Pc}
    {h : ι × Resource} {f : F} :
    Claims c ⟨locks, Function.update s.pc i pc⟩ h f ↔
      if h.1 = i then pc.holds h.2 = true ∧ f = c.file i h.2 else Claims c s h f := by
  by_cases hi : h.1 = i
  · simp [Claims, hi]
  · simp [Claims, hi]

/-- A lock file is in the hands of one engine at most, as one of its two locks. -/
theorem holder_unique (hc : Claimed (Claims c s) s.locks) {j : ι} {r r' : Resource}
    (hi : (s.pc i).holds r = true) (hj : (s.pc j).holds r' = true)
      (heq : c.file i r = c.file j r') : i = j ∧ r = r' :=
  Prod.mk.inj (Claimed.unique (h := (i, r)) hc ⟨hi, rfl⟩ ⟨hj, heq⟩)

/-- The calls of an `acquire` that nothing goes wrong with. -/
def attempt (i : ι) : List (Label ι) :=
  [⟨i, .acquire⟩, ⟨i, .openFile none⟩, ⟨i, .lock none⟩, ⟨i, .openFile none⟩, ⟨i, .lock none⟩]

theorem engine_of_mem_attempt (h : l ∈ attempt i) : l.engine = i := by
  simp only [attempt, List.mem_cons, List.not_mem_nil, or_false] at h
  rcases h with rfl | rfl | rfl | rfl | rfl <;> rfl

variable [DecidableEq ι] [DecidableEq F]

def St.goto (s : St ι F) (i : ι) (pc : Pc) : St ι F := { s with pc := Function.update s.pc i pc }

def step (c : Config ι F) (s : St ι F) (l : Label ι) : Option (St ι F) :=
  let i := l.engine
  match s.pc i, l.call with
  | .exited, _ => none
  | _, .exit =>
    some ⟨free (free s.locks (c.file i .database) (i, .database)) (c.file i .modelStore) (i,
      .modelStore), Function.update s.pc i .exited⟩
  | .idle, .acquire =>
    some (s.goto i (if (c.settings i).lockPath .database = (c.settings i).lockPath .modelStore
      then .failed .sameLockFile else .opening .database))
  | .opening r, .openFile error =>
    match error with
    | none => some (s.goto i (.locking r))
    | some e => some (s.goto i (afterRefused (.cannotOpen r e) r))
  | .locking r, .lock error =>
    match s.locks (c.file i r), error with
    | some _, _ => some (s.goto i (.refused r (refusal r (error.getD blocking))))
    | none, some e => some (s.goto i (.refused r (refusal r e)))
    | none, none => some ⟨take s.locks (c.file i r) (i, r), Function.update s.pc i (afterLocked r)⟩
  | .refused r e, .close => some (s.goto i (afterRefused e r))
  | .owned, .release => some (s.goto i (.unlocking .modelStore none))
  | .unlocking r cause, .unlock error =>
    match error with
    | none =>
      some ⟨free s.locks (c.file i r) (i, r), Function.update s.pc i (.closing r cause false)⟩
    | some e => some (s.goto i (.closing r (cause.map fun _ => .unlockFailed e) true))
  | .closing r cause _, .close =>
    some ⟨free s.locks (c.file i r) (i, r), Function.update s.pc i (afterReleased cause r)⟩
  | _, _ => none

/-- What a call does to the locks, and what it makes of those its engine holds. -/
inductive Moves (c : Config ι F) (s : St ι F) (i : ι) : St ι F → Prop where
  | keep {old pc : Pc} (hpc : s.pc i = old) (hleft : pc.left < old.left)
      (h : ∀ r, pc.holds r = old.holds r) :
      Moves c s i (s.goto i pc)
  | take {old pc : Pc} {r : Resource} (hpc : s.pc i = old) (hleft : pc.left < old.left)
      (hfree : s.locks (c.file i r) = none) (h : ∀ r',
        pc.holds r' = (old.holds r' || decide (r' = r))) :
      Moves c s i ⟨take s.locks (c.file i r) (i, r), Function.update s.pc i pc⟩
  | free {old pc : Pc} {r : Resource} (hpc : s.pc i = old) (hleft : pc.left < old.left)
      (h : ∀ r', pc.holds r' = (old.holds r' && decide (r' ≠ r))) :
      Moves c s i ⟨free s.locks (c.file i r) (i, r), Function.update s.pc i pc⟩
  | exit (hleft : 0 < (s.pc i).left) :
      Moves c s i ⟨free (free s.locks (c.file i .database) (i, .database)) (c.file i .modelStore)
        (i, .modelStore), Function.update s.pc i .exited⟩

theorem holds_afterLocked (r r' : Resource) :
    (afterLocked r).holds r' = ((Pc.locking r).holds r' || decide (r' = r)) := by
  cases r <;> cases r' <;> rfl

theorem holds_afterRefused (r r' : Resource) (e e' : Error) :
    (afterRefused e r).holds r' = (Pc.refused r e').holds r' := by
  cases r <;> cases r' <;> rfl

theorem holds_afterReleased (r r' : Resource) (cause : Option Error) (locked : Bool) :
    (afterReleased cause r).holds r' =
      ((Pc.closing r cause locked).holds r' && decide (r' ≠ r)) := by
  cases r <;> cases r' <;> cases cause <;> simp [afterReleased, Pc.holds]

theorem left_pos {pc : Pc} (h : pc ≠ .exited) : 0 < pc.left := by
  cases pc with
  | exited => exact absurd rfl h
  | opening r | locking r | refused r | unlocking r | closing r =>
    cases r <;> exact Nat.zero_lt_succ _
  | _ => exact Nat.zero_lt_succ _

theorem left_afterLocked (r : Resource) : (afterLocked r).left < (Pc.locking r).left := by
  cases r <;> decide

theorem left_afterRefused (e : Error) (r : Resource) :
    (afterRefused e r).left < (Pc.refused r e).left ∧
      (Pc.refused r e).left < (Pc.locking r).left := by
  cases r <;> simp [afterRefused, Pc.left]

theorem left_afterReleased (cause : Option Error) (r : Resource) (locked : Bool) :
    (afterReleased cause r).left < (Pc.closing r cause locked).left := by
  cases r <;> cases cause <;> simp [afterReleased, Pc.left]

theorem step_moves (hst : step c s l = some s') : Moves c s l.engine s' := by
  obtain ⟨i, call⟩ := l
  simp only [step] at hst
  split at hst
  · cases hst
  · cases hst
    exact .exit (left_pos ‹_›)
  · cases hst
    refine .keep ‹_› ?_ fun r => ?_
    · split <;> decide
    · split <;> cases r <;> rfl
  · rename_i r _ hpc
    split at hst <;> cases hst
    · exact .keep hpc (by cases r <;> decide) fun r' => by cases r <;> cases r' <;> rfl
    · exact .keep hpc (by cases r <;> simp [afterRefused, Pc.left]) fun r' => by cases r
        <;> cases r' <;> rfl
  · rename_i r _ hpc
    split at hst <;> cases hst
    · exact .keep hpc (left_afterRefused _ r).2 fun r' => by cases r <;> cases r' <;> rfl
    · exact .keep hpc (left_afterRefused _ r).2 fun r' => by cases r <;> cases r' <;> rfl
    · exact .take hpc (left_afterLocked r) ‹_› (holds_afterLocked r)
  · rename_i r e hpc
    cases hst
    exact .keep hpc (left_afterRefused e r).1 fun r' => holds_afterRefused r r' e e
  · rename_i hpc
    cases hst
    exact .keep hpc (by decide) fun r => by cases r <;> rfl
  · rename_i r _ _ hpc
    split at hst <;> cases hst
    · exact .free hpc (by cases r <;> simp [Pc.left]) fun r' => by cases r <;> cases r' <;> rfl
    · exact .keep hpc (by cases r <;> simp [Pc.left]) fun r' => by cases r <;> cases r' <;> rfl
  · rename_i r cause locked hpc
    cases hst
    exact .free hpc (left_afterReleased cause r locked) fun r' => holds_afterReleased r r' cause locked
  · cases hst

theorem step_left (hst : step c s l = some s') :
    (s'.pc l.engine).left < (s.pc l.engine).left ∧ ∀ j, j ≠ l.engine → s'.pc j = s.pc j := by
  cases step_moves hst with
  | exit hleft => exact ⟨by simpa [Pc.left] using hleft, fun j hj => Function.update_of_ne hj ..⟩
  | keep hpc hleft | take hpc hleft | free hpc hleft =>
    exact ⟨by simpa [St.goto, hpc] using hleft, fun j hj => Function.update_of_ne hj ..⟩

theorem run_others {ls : List (Label ι)} {t : St ι F} (hrun : Run (step c) s ls t) {j : ι}
    (hls : ∀ l ∈ ls, l.engine ≠ j) : t.pc j = s.pc j := by
  induction hrun with
  | refl => rfl
  | @cons s s' t l ls hst _ ih =>
    have hl : j ≠ l.engine := (hls l (List.mem_cons_self ..)).symm
    exact (ih fun l' hl' => hls l' (List.mem_cons_of_mem l hl')).trans ((step_left hst).2 j hl)

theorem step_claimed (hc : Claimed (Claims c s) s.locks) (hst : step c s l = some s') :
    Claimed (Claims c s') s'.locks := by
  cases step_moves hst with
  | keep hpc _ h =>
    refine hc.congr fun g e => claims_update.trans ?_
    split
    · simp [Claims, *]
    · rfl
  | @take old pc r hpc _ hfree h =>
    refine hc.take hfree fun g e => claims_update.trans ?_
    obtain ⟨j, r'⟩ := g
    by_cases hj : j = l.engine
    · simp only [Claims, hj, hpc, if_true, h, Bool.or_eq_true, decide_eq_true_eq,
        Prod.mk.injEq, true_and]
      constructor
      · rintro ⟨hr | rfl, he⟩
        · exact .inl ⟨hr, he⟩
        · exact .inr ⟨rfl, he⟩
      · rintro (⟨hr, he⟩ | ⟨rfl, he⟩)
        · exact ⟨.inl hr, he⟩
        · exact ⟨.inr rfl, he⟩
    · simp [hj]
  | @free old pc r hpc _ h =>
    refine hc.free fun g e => claims_update.trans ?_
    obtain ⟨j, r'⟩ := g
    by_cases hj : j = l.engine
    · simp only [Claims, hj, hpc, if_true, h, Bool.and_eq_true, decide_eq_true_eq,
        Prod.mk.injEq, true_and]
      constructor
      · rintro ⟨⟨hr, hne⟩, he⟩
        exact ⟨⟨hr, he⟩, fun h => hne h.1⟩
      · rintro ⟨⟨hr, he⟩, hne⟩
        exact ⟨⟨hr, fun hrr => hne ⟨hrr, by rw [he, hrr]⟩⟩, he⟩
    · simp [hj]
  | exit _ =>
    have hdb : Claimed (fun g e => Claims c s g e ∧
        ¬ (g = (l.engine, .database) ∧ e = c.file l.engine .database))
        (free s.locks (c.file l.engine .database) (l.engine, .database)) :=
          hc.free fun _ _ => Iff.rfl
    refine hdb.free fun g e => claims_update.trans ?_
    obtain ⟨j, r'⟩ := g
    by_cases hj : j = l.engine
    · subst hj
      cases r' <;> simp [Claims, Pc.holds]
    · simp [hj]

theorem run_claimed {ls : List (Label ι)} {t : St ι F} (hrun : Run (step c) init ls t) :
    Claimed (Claims c t) t.locks :=
  hrun.invariant (P := fun s => Claimed (Claims c s) s.locks)
    (fun _ _ _ hc hst => step_claimed hc hst)
    (init_claimed c)

/-- In every state of every run a lock file is in the hands of one engine at most; so two engines
that own their stores share neither file, and the two files of one that does are not the same. -/
theorem store_owned_once {ls : List (Label ι)} {t : St ι F} (hrun : Run (step c) init ls t) :
    (∀ i j r r', (t.pc i).holds r = true → (t.pc j).holds r' = true → c.file i r = c.file j r' →
      i = j ∧ r = r') ∧
    (∀ i, t.pc i = .owned → c.file i .database ≠ c.file i .modelStore) ∧
    ∀ i j, t.pc i = .owned → t.pc j = .owned → i ≠ j → ∀ r r', c.file i r ≠ c.file j r' := by
  have hc := run_claimed hrun
  refine ⟨fun i j r r' => holder_unique hc, fun i hi heq => ?_, fun i j hi hj hne r r' heq => ?_⟩
  · have hholds : ∀ r, (t.pc i).holds r = true := fun r => by rw [hi]; rfl
    cases (holder_unique hc (hholds .database) (hholds .modelStore) heq).2
  · exact hne (holder_unique hc (by rw [hi]; rfl) (by rw [hj]; rfl) heq).1

/-- Every engine has the same settings, and finds the same files. -/
def sameStore : Config Nat (List String) :=
  ⟨fun _ => ⟨["data"], "engine.db", ["data", "models"]⟩, fun _ path => path⟩

/-- The second engine is refused. -/
def contention : List (Label Nat) :=
  attempt 0 ++ [⟨1, .acquire⟩, ⟨1, .openFile none⟩, ⟨1, .lock none⟩]

theorem store_owned_once_contention :
    ∃ t : St Nat (List String), Run (step sameStore) init contention t ∧ t.pc 0 = .owned ∧
      t.pc 1 = .refused .database (.locked .database) ∧ ∀ j, t.pc j = .owned → j = 0 := by
  obtain ⟨t, hrun, ht⟩ : ∃ t : St Nat (List String), Run (step sameStore) init contention t ∧
      (t.pc 0, t.pc 1) = (.owned, .refused .database (.locked .database)) := run_of_exec_map rfl
  obtain ⟨hfirst, hsecond⟩ := Prod.mk.inj ht
  refine ⟨t, hrun, hfirst, hsecond, fun j hj => ?_⟩
  by_contra hne
  exact (store_owned_once hrun).2.2 j 0 hj hfirst hne .database .database rfl

/-! ## Nothing is left behind, and nobody waits -/

theorem exec_attempt {t : St ι F} (hidle : t.pc i = .idle)
    (hfiles : c.file i .database ≠ c.file i .modelStore) :
    (exec (step c) t (attempt i)).map (fun t' => t'.pc i) =
      match t.locks (c.file i .database), t.locks (c.file i .modelStore) with
      | none, none => some .owned
      | none, some _ => some (.refused .modelStore (refusal .modelStore blocking))
      | some _, _ => none := by
  have hpaths : (c.settings i).lockPath .database ≠
      (c.settings i).lockPath .modelStore := fun heq =>
    hfiles (congrArg (c.reaches i) heq)
  cases hdb : t.locks (c.file i .database) with
  | some _ => simp [attempt, exec, step, hidle, hpaths, St.goto, hdb]
  | none =>
    have htaken : take t.locks (c.file i .database) (i, .database) (c.file i .modelStore) =
        t.locks (c.file i .modelStore) := Function.update_of_ne hfiles.symm ..
    cases hms : t.locks (c.file i .modelStore) with
    | some _ => simp [attempt, exec, step, hidle, hpaths, St.goto, hdb, afterLocked, htaken, hms]
    | none => simp [attempt, exec, step, hidle, hpaths, St.goto, hdb, afterLocked, htaken, hms]

/-- Undisturbed, an engine comes to own its store exactly if neither of its lock files is in the
hands of another engine: what those left behind that have failed, released or exited is no
obstacle. -/
theorem acquires_iff {ls : List (Label ι)} {t : St ι F} (hrun : Run (step c) init ls t)
    (hidle : t.pc i = .idle) (hfiles : c.file i .database ≠ c.file i .modelStore) :
    (∃ t', Run (step c) t (attempt i) t' ∧ t'.pc i = .owned) ↔
      ∀ j r r', (t.pc j).holds r' = true → c.file j r' ≠ c.file i r := by
  have hc := run_claimed hrun
  have hexec := exec_attempt hidle hfiles
  constructor
  · rintro ⟨t', hattempt, howned⟩ j r r' hholds heq
    have htable : t.locks (c.file i r) = some (j, r') := (hc (j, r') _).mp ⟨hholds, heq.symm⟩
    rw [hattempt.exec_eq, Option.map_some, howned] at hexec
    split at hexec
    · rename_i hdb hms
      cases r with
      | database => cases hdb.symm.trans htable
      | modelStore => cases hms.symm.trans htable
    · cases hexec
    · cases hexec
  · intro hfree
    have hnone : ∀ r, t.locks (c.file i r) = none := fun r => by
      cases htable : t.locks (c.file i r) with
      | none => rfl
      | some h =>
        obtain ⟨hholds, heq⟩ := (hc h _).mpr htable
        exact absurd heq.symm (hfree h.1 r h.2 hholds)
    simp only [hnone] at hexec
    exact run_of_exec_map hexec

/-- An engine is killed while it owns its store; the next one takes it. -/
theorem acquires_iff_afterKill :
    ∃ t : St Nat (List String), Run (step sameStore) init (attempt 0 ++ [⟨0, .exit⟩]) t ∧
      ∃ t', Run (step sameStore) t (attempt 1) t' ∧ t'.pc 1 = .owned := by
  obtain ⟨t, hrun, hexited⟩ : ∃ t : St Nat (List String),
      Run (step sameStore) init (attempt 0 ++ [⟨0, .exit⟩]) t ∧
      t.pc 0 = .exited := run_of_exec_map rfl
  have hothers : ∀ j, j ≠ 0 → t.pc j = .idle := fun j hj =>
    run_others hrun fun l hl h => by
      rcases List.mem_append.mp hl with hl | hl
      · exact hj (h.symm.trans (engine_of_mem_attempt hl))
      · rw [List.mem_singleton.mp hl] at h
        exact hj h.symm
  refine ⟨t, hrun, (acquires_iff hrun (hothers 1 (by decide))
    (by decide)).mpr fun j r r' hholds => ?_⟩
  by_cases hj : j = 0
  · rw [hj, hexited] at hholds
    cases hholds
  · rw [hothers j hj] at hholds
    cases hholds

/-- The engine is within `acquire` or `release`. -/
def Pc.busy : Pc → Bool
  | .idle | .owned | .failed _ | .released | .exited => false
  | _ => true

theorem enabled_of_busy (h : (s.pc i).busy = true) :
    ∃ call s', call ≠ .exit ∧ step c s ⟨i, call⟩ = some s' := by
  cases hpc : s.pc i with
  | opening r => exact ⟨.openFile none, _, by decide, by simp only [step, hpc]; rfl⟩
  | locking r =>
    cases hlock : s.locks (c.file i r) with
    | none => exact ⟨.lock none, _, by decide, by simp only [step, hpc, hlock]; rfl⟩
    | some h => exact ⟨.lock none, _, by decide, by simp only [step, hpc, hlock]; rfl⟩
  | refused r e => exact ⟨.close, _, by decide, by simp only [step, hpc]; rfl⟩
  | unlocking r cause => exact ⟨.unlock none, _, by decide, by simp only [step, hpc]; rfl⟩
  | closing r cause locked => exact ⟨.close, _, by decide, by simp only [step, hpc]; rfl⟩
  | idle | owned | failed | released | exited =>
    rw [hpc] at h
    cases h

/-- No call waits for another engine: one within `acquire` or `release` can always make its next
call, whatever the others hold, and in the whole of a run it makes no more calls than it has
left. -/
theorem calls_bounded {ls : List (Label ι)} {t : St ι F} (hrun : Run (step c) s ls t) (i : ι) :
    (ls.filter fun l => l.engine = i).length + (t.pc i).left ≤ (s.pc i).left ∧
      ((t.pc i).busy = true → ∃ call t', call ≠ .exit ∧ step c t ⟨i, call⟩ = some t') := by
  refine ⟨?_, enabled_of_busy⟩
  induction hrun with
  | refl => simp
  | @cons s s' t l ls hst _ ih =>
    obtain ⟨hleft, hother⟩ := step_left hst
    by_cases hi : l.engine = i
    · subst hi
      simp only [List.filter_cons, decide_true, if_true, List.length_cons]
      omega
    · simp only [List.filter_cons, hi, decide_false, Bool.false_eq_true, if_false]
      rwa [hother i (Ne.symm hi)] at ih

theorem calls_bounded_contention :
    ∃ t : St Nat (List String), Run (step sameStore) init contention t ∧ (t.pc 1).busy = true ∧
      (contention.filter fun l => l.engine = 1).length + (t.pc 1).left ≤ 11 ∧
      ∃ call t', call ≠ .exit ∧ step sameStore t ⟨1, call⟩ = some t' := by
  obtain ⟨t, hrun, hbusy⟩ : ∃ t : St Nat (List String), Run (step sameStore) init contention t ∧
      (t.pc 1).busy = true := run_of_exec_map rfl
  exact ⟨t, hrun, hbusy, (calls_bounded hrun 1).1, (calls_bounded hrun 1).2 hbusy⟩

end StoreOwnership
end InferenceEngine
