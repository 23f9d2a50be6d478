import Mathlib.Data.List.Sort
import Mathlib.Data.String.Basic
import InferenceEngine.Lib.PyStr
import InferenceEngine.Lib.Results
import InferenceEngine.Lib.Run

/-!
# Store.Migrations

The migration runner (`store/migrations.py`). A directory is the list of its files; SQLite is what
it makes of a script (`Sqlite.read`), and a database with one open transaction at most: the runners
take turns. A statement of a script may raise, whatever it is, and a process may die between any two
of them.

A version is recorded for a file, while the pending files are told from the recorded versions.
`Clean` is what makes the two agree: no two files have one version, and SQLite reads in every script
what the runner wrote into it. Then the recorded files are the first ones of the directory and the
schema is what they make of it, in every run (`run_clean`).
-/

namespace InferenceEngine
namespace Migrations

open Lts

/-! ## The files -/

structure SqlFile where
  name : String
  sql : String
  deriving DecidableEq

structure Migration where
  version : String
  name : String
  sql : String
  deriving DecidableEq

/-- Unicode's decimal digits (`\\d`) and word characters (`\\w`), as Python has them. -/
structure Unicode where
  isDecimal : Char → Bool
  isWord : Char → Bool

inductive MigrationError where
  | misnamed (message : String)
  | transactionKeyword (message : String)
  deriving DecidableEq

/-- `path.name.endswith(".sql")`, which is what `glob("*.sql")` finds. -/
def isSql (name : String) : Bool := ".sql".toList.isSuffixOf name.toList

/-- `_FILENAME_RE.match`: `^(\\d{4})_.+\\.sql$`, and its group. -/
def matchVersion (u : Unicode) (name : String) : Option String :=
  let digits := name.toList.take 4
  let rest := name.toList.drop 4
  let middle := (rest.drop 1).take (rest.length - 5)
  if digits.length = 4 && digits.all u.isDecimal && rest.head? = some '_' && isSql name &&
      6 ≤ rest.length && !middle.contains '\n' then
    some (String.ofList digits)
  else none

/-- One file of `discover_migrations`. -/
def discover (u : Unicode) (f : SqlFile) : Except MigrationError Migration :=
  match matchVersion u f.name with
  | some version => .ok ⟨version, f.name, f.sql⟩
  | none => .error (.misnamed ("Migration file " ++ Py.repr f.name ++ " must match NNNN_name.sql"))

/-- `discover_migrations`. -/
def discoverMigrations (u : Unicode) (dir : List SqlFile) :
    Except MigrationError (List Migration) :=
  ((dir.filter fun f => isSql f.name).insertionSort fun a b => a.name.toList ≤ b.name.toList).mapM
    (discover u)

/-- `_TXN_KEYWORD_RE.search`: `\\b(BEGIN|COMMIT|ROLLBACK)\\b`, with whether a word character stands
before. -/
def hasTxnKeyword (u : Unicode) (afterWord : Bool) : List Char → Bool
  | [] => false
  | c :: cs =>
    (!afterWord && ["BEGIN".toList, "COMMIT".toList, "ROLLBACK".toList].any fun word =>
        Py.beginsIgnoreCase word (c :: cs) && !(((c :: cs).drop word.length).head?.any u.isWord)) ||
      hasTxnKeyword u (u.isWord c) cs

structure UtcTime where
  year : Nat
  month : Nat
  day : Nat
  hour : Nat
  minute : Nat
  second : Nat
  microsecond : Nat
  valid : 1 ≤ year ∧ year ≤ 9999 ∧ 1 ≤ month ∧ month ≤ 12 ∧ 1 ≤ day ∧ day ≤ 31 ∧
    hour ≤ 23 ∧ minute ≤ 59 ∧
    second ≤ 59 ∧ microsecond ≤ 999999 := by decide
  deriving DecidableEq

/-- `%0*d` -/
def zeroPadded (width n : Nat) : List Char := (Nat.toDigits 10 n).leftpad width '0'

def UtcTime.isoformat (t : UtcTime) : List Char :=
  let microseconds := if t.microsecond = 0 then [] else '.' :: zeroPadded 6 t.microsecond
  zeroPadded 4 t.year ++ '-' :: zeroPadded 2 t.month ++ '-' :: zeroPadded 2 t.day ++ 'T' ::
    zeroPadded 2 t.hour ++
    ':' :: zeroPadded 2 t.minute ++ ':' :: zeroPadded 2 t.second ++ microseconds ++ "+00:00".toList

/-- The text that is given to `executescript`. -/
def scriptText (m : Migration) (now : UtcTime) : List Char :=
  "BEGIN;\n".toList ++ m.sql.toList ++
    "\nINSERT INTO schema_migrations (version, applied_at) VALUES ('".toList ++
    m.version.toList ++ "', '".toList ++ now.isoformat ++ "');\nCOMMIT;".toList

/-! ## The database -/

variable {σ : Type}

structure Db (σ : Type) where
  schema : σ
  /-- the rows of `schema_migrations` -/
  versions : List String

inductive Stmt (σ : Type) where
  | begin
  /-- `COMMIT`, or `END` -/
  | commit
  | rollback
  /-- the `INSERT` of a version -/
  | record (version : String)
  /-- a statement that leaves `schema_migrations` alone -/
  | change (f : σ → Option σ)
  /-- any other one -/
  | other (f : Db σ → Option (Db σ))

/-- What SQLite reads in a script. -/
structure Sqlite (σ : Type) where
  read : List Char → List (Stmt σ)

/-- One statement: the committed database and the open transaction after it. -/
def execStmt (db : Db σ) (txn : Option (Db σ)) : Stmt σ → Option (Db σ × Option (Db σ))
  | .begin => if txn.isSome then none else some (db, some db)
  | .commit => txn.map fun d => (d, none)
  | .rollback => txn.map fun _ => (db, none)
  | .record version =>
    let d := txn.getD db
    if version ∈ d.versions then none
    else write { d with versions := d.versions ++ [version] }
  | .change f =>
    (f (txn.getD db).schema).bind fun schema => write { txn.getD db with schema := schema }
  | .other f => (f (txn.getD db)).bind write
where
  /-- into the transaction, or at once when there is none -/
  write (d : Db σ) : Option (Db σ × Option (Db σ)) :=
    if txn.isSome then some (db, some d) else some (d, none)

/-- `migrations_at_head`. -/
def migrationsAtHead (files : List Migration) (db : Db σ) : Bool :=
  files.all fun m => db.versions.contains m.version

/-! ## The runners -/

inductive Phase (σ : Type) where
  | idle
  /-- at the head of the loop -/
  | looping (already : List String) (left : List Migration) (newlyApplied : List String)
  /-- in `executescript`, with the statements that are left -/
  | script (already : List String) (m : Migration) (stmts : List (Stmt σ)) (left : List Migration)
      (newlyApplied : List String)
  | returned (newlyApplied : List String)
  | raised

structure St (σ : Type) where
  db : Db σ
  /-- the open transaction and whose it is -/
  txn : Option (Nat × Db σ)
  runners : Nat → Phase σ

inductive Act where
  | call
  /-- a pass of the loop, up to `executescript`; reading the file may raise -/
  | pass (now : UtcTime) (raises : Bool)
  | stmt (raises : Bool)
  /-- the process dies -/
  | crash
  deriving DecidableEq

namespace St

/-- The transaction of runner `i`. -/
def own (s : St σ) (i : Nat) : Option (Db σ) :=
  s.txn.bind fun t => if t.1 = i then some t.2 else none

/-- Runner `i` goes on with `p`, after a statement. -/
def put (s : St σ) (i : Nat) (db : Db σ) (txn : Option (Db σ)) (p : Phase σ) : St σ where
  db := db
  txn := txn.map fun d => (i, d)
  runners := Function.update s.runners i p

/-- Runner `i` goes on with `p`, and the database is left alone. -/
def go (s : St σ) (i : Nat) (p : Phase σ) : St σ :=
  { s with runners := Function.update s.runners i p }

/-- The transaction of runner `i` is committed, if it has one. -/
def commitPending (s : St σ) (i : Nat) : St σ :=
  match s.own i with
  | some d => { s with db := d, txn := none }
  | none => s

/-- The transaction of runner `i` is rolled back, if it has one. -/
def rollback (s : St σ) (i : Nat) : St σ := if (s.own i).isSome then { s with txn := none } else s

/-- No other runner has a transaction. -/
def free (s : St σ) (i : Nat) : Bool := s.txn.all fun t => t.1 = i

end St

structure World (σ : Type) where
  unicode : Unicode
  sqlite : Sqlite σ
  dir : List SqlFile

/-- The call begins: `applied_versions` and `discover_migrations`. -/
def call (w : World σ) (s : St σ) (i : Nat) : St σ :=
  match discoverMigrations w.unicode w.dir with
  | .error _ => s.go i .raised
  | .ok files => s.go i (.looping ((s.own i).getD s.db).versions files [])

def step (w : World σ) (s : St σ) : Nat × Act → Option (St σ)
  | (i, .call) =>
    match s.runners i with
    | .idle => some (call w s i)
    | .returned _ => some (call w s i)
    | .raised => some (call w s i)
    | _ => none
  | (i, .pass now raises) =>
    match s.runners i with
    | .looping _ [] newly => some (s.go i (.returned newly))
    | .looping already (m :: left) newly =>
      if m.version ∈ already then some (s.go i (.looping already left newly))
      else if raises || hasTxnKeyword w.unicode false m.sql.toList then some (s.go i .raised)
      -- `executescript` commits what is pending
      else some ((s.commitPending i).go i
        (.script already m (w.sqlite.read (scriptText m now)) left newly))
    | _ => none
  | (i, .stmt raises) =>
    match s.runners i with
    | .script already m [] left newly =>
      some (s.go i (.looping already left (newly ++ [m.version])))
    | .script already m (st :: stmts) left newly =>
      if raises then some ((s.rollback i).go i .raised)
      else if s.free i then
        match execStmt s.db (s.own i) st with
        | some (db, txn) => some (s.put i db txn (.script already m stmts left newly))
        | none => some ((s.rollback i).go i .raised)
      else none
    | _ => none
  | (i, .crash) => some ((s.rollback i).go i .idle)

def init (schema : σ) : St σ where
  db := ⟨schema, []⟩
  txn := none
  runners := fun _ => .idle

/-! ## Clean directories -/

/-- What the statements of a file make of a schema. -/
def runStmts (fs : List (σ → Option σ)) (x : σ) : Option σ := fs.foldlM (fun x f => f x) x

/-- What the files make of a schema, one after the other. -/
def replay (stmts : Migration → List (σ → Option σ)) (files : List Migration) (x : σ) : Option σ :=
  files.foldlM (fun x m => runStmts (stmts m) x) x

/-- No two files have one version, and what SQLite reads in the script of a file is what the runner
means: the statements of the file, none of which ends the transaction or touches the bookkeeping,
between the runner's own. -/
structure Clean (w : World σ) (files : List Migration) (stmts : Migration → List (σ → Option σ)) :
    Prop where
  discovered : discoverMigrations w.unicode w.dir = .ok files
  distinct : (files.map (·.version)).Nodup
  script : ∀ m ∈ files, hasTxnKeyword w.unicode false m.sql.toList = false → ∀ now,
    w.sqlite.read (scriptText m now) =
      .begin :: ((stmts m).map .change ++ [.record m.version, .commit])

/-- The files recorded as applied. -/
def recorded (files : List Migration) (db : Db σ) : List Migration :=
  files.filter fun m => m.version ∈ db.versions

section

variable {w : World σ} {files : List Migration} {stmts : Migration → List (σ → Option σ)} {x₀ : σ}
  {s s' : St σ} {i j : Nat} {db : Db σ}

theorem runStmts_append (fs : List (σ → Option σ)) (f : σ → Option σ) (x : σ) :
    runStmts (fs ++ [f]) x = (runStmts fs x).bind f := by
  simp [runStmts, List.foldlM_append]

theorem replay_append (ms : List Migration) (m : Migration) (x : σ) :
    replay stmts (ms ++ [m]) x = (replay stmts ms x).bind (runStmts (stmts m)) := by
  simp [replay, List.foldlM_append]

/-- The first `k` files are the recorded ones, and the schema is what they make of the first one. -/
structure Applied (files : List Migration) (stmts : Migration → List (σ → Option σ)) (x₀ : σ)
    (db : Db σ) (k : Nat) : Prop where
  le : k ≤ files.length
  versions : db.versions = (files.take k).map (·.version)
  schema : replay stmts (files.take k) x₀ = some db.schema

/-- Where the script of a file is, and the transaction with it. -/
inductive Progress (stmts : Migration → List (σ → Option σ)) (db : Db σ) (m : Migration) :
    Option (Db σ) → List (Stmt σ) → Prop where
  | start :
      Progress stmts db m none (.begin :: ((stmts m).map .change ++ [.record m.version, .commit]))
  | inside (d : Db σ) (fs : List (σ → Option σ)) (g : σ → Option σ) (gs : List (σ → Option σ))
      (hstmts : stmts m = fs ++ g :: gs) (hversions : d.versions = db.versions)
      (hschema : runStmts fs db.schema = some d.schema) :
      Progress stmts db m (some d) (.change g :: (gs.map .change ++ [.record m.version, .commit]))
  | changed (d : Db σ) (hversions : d.versions = db.versions)
      (hschema : runStmts (stmts m) db.schema = some d.schema) :
      Progress stmts db m (some d) [.record m.version, .commit]
  | recorded (d : Db σ) (hnew : m.version ∉ db.versions)
      (hversions : d.versions = db.versions ++ [m.version])
      (hschema : runStmts (stmts m) db.schema = some d.schema) : Progress stmts db m
        (some d) [.commit]
  | committed (h : m.version ∈ db.versions) : Progress stmts db m none []

/-- What holds of a runner: the files before the one it is at are recorded. -/
def RunnerOk (files : List Migration) (stmts : Migration → List (σ → Option σ)) (db : Db σ)
    (txn : Option (Db σ)) : Phase σ → Prop
  | .idle => txn = none
  | .looping already left _ =>
    txn = none ∧ already ⊆ db.versions ∧
      ∃ done, files = done ++ left ∧ ∀ m ∈ done, m.version ∈ db.versions
  | .script already m rest left _ =>
    already ⊆ db.versions ∧ Progress stmts db m txn rest ∧
      ∃ done, files = done ++ m :: left ∧ ∀ m ∈ done, m.version ∈ db.versions
  | .returned _ => txn = none ∧ ∀ m ∈ files, m.version ∈ db.versions
  | .raised => txn = none

structure Inv (files : List Migration) (stmts : Migration → List (σ → Option σ)) (x₀ : σ)
    (s : St σ) : Prop where
  applied : ∃ k, Applied files stmts x₀ s.db k
  runner : ∀ i, RunnerOk files stmts s.db (s.own i) (s.runners i)

/-- More versions are recorded, and the runner has no transaction that began before. -/
theorem RunnerOk.mono {db' : Db σ} {p : Phase σ} (h : RunnerOk files stmts db none p)
    (hsub : db.versions ⊆ db'.versions) : RunnerOk files stmts db' none p := by
  cases p with
  | idle => exact rfl
  | looping already left newly =>
    obtain ⟨-, halready, done, hfiles, hdone⟩ := h
    exact ⟨rfl, List.Subset.trans halready hsub, done, hfiles, fun m hm => hsub (hdone m hm)⟩
  | script already m rest left newly =>
    obtain ⟨halready, hprogress, done, hfiles, hdone⟩ := h
    refine ⟨List.Subset.trans halready hsub, ?_, done, hfiles, fun m hm => hsub (hdone m hm)⟩
    cases hprogress with
    | start => exact .start
    | committed hmem => exact .committed (hsub hmem)
  | returned newly => exact ⟨rfl, fun m hm => hsub (h.2 m hm)⟩
  | raised => exact rfl

/-! ## The parts of a step -/

@[simp] theorem own_go (p : Phase σ) : (s.go i p).own j = s.own j := rfl

@[simp] theorem go_db (p : Phase σ) : (s.go i p).db = s.db := rfl

@[simp] theorem go_runners (p : Phase σ) : (s.go i p).runners = Function.update s.runners i p := rfl

@[simp] theorem put_runners (txn : Option (Db σ)) (p : Phase σ) :
    (s.put i db txn p).runners = Function.update s.runners i p := rfl

theorem own_put (txn : Option (Db σ)) (p : Phase σ) :
    (s.put i db txn p).own j = if i = j then txn else none := by
  cases txn with
  | none => simp [St.own, St.put]
  | some d => simp [St.own, St.put]

theorem own_of_free (h : s.free i = true) (hij : i ≠ j) : s.own j = none := by
  unfold St.free at h
  unfold St.own
  cases htxn : s.txn with
  | none => rfl
  | some t =>
    rw [htxn] at h
    have hi : t.1 = i := by simpa using h
    simp [hi, hij]

theorem own_rollback : (s.rollback i).own j = if i = j then none else s.own j := by
  unfold St.rollback
  split
  · next hsome =>
    by_cases hij : i = j
    · simp [St.own, hij]
    · obtain ⟨d, hd⟩ := Option.isSome_iff_exists.mp hsome
      rw [if_neg hij]
      unfold St.own at hd ⊢
      cases htxn : s.txn with
      | none => rfl
      | some t =>
        rw [htxn] at hd
        by_cases hi : t.1 = i
        · simp [hi, hij]
        · simp [hi] at hd
  · next hnone =>
    by_cases hij : i = j
    · subst hij
      simpa using hnone
    · rw [if_neg hij]

@[simp] theorem rollback_db : (s.rollback i).db = s.db := by
  unfold St.rollback
  split <;> rfl

@[simp] theorem rollback_runners : (s.rollback i).runners = s.runners := by
  unfold St.rollback
  split <;> rfl

theorem Inv.go (h : Inv files stmts x₀ s) {p : Phase σ}
    (hp : RunnerOk files stmts s.db (s.own i) p) :
    Inv files stmts x₀ (s.go i p) := by
  refine ⟨h.applied, fun j => ?_⟩
  by_cases hij : j = i
  · subst hij
    simpa using hp
  · simpa [Function.update_of_ne hij] using h.runner j

theorem Inv.rollback (h : Inv files stmts x₀ s) {p : Phase σ}
    (hp : RunnerOk files stmts s.db none p) :
    Inv files stmts x₀ ((s.rollback i).go i p) := by
  refine ⟨by simpa using h.applied, fun j => ?_⟩
  rw [own_go, own_rollback, go_db, rollback_db]
  by_cases hij : i = j
  · subst hij
    simpa using hp
  · simpa [Function.update_of_ne (Ne.symm hij), hij] using h.runner j

theorem Inv.put (h : Inv files stmts x₀ s) (hfree : s.free i = true) {txn : Option (Db σ)}
    {p : Phase σ} (happlied : ∃ k, Applied files stmts x₀ db k)
      (hsub : s.db.versions ⊆ db.versions) (hp : RunnerOk files stmts db txn p) :
    Inv files stmts x₀ (s.put i db txn p) := by
  refine ⟨happlied, fun j => ?_⟩
  rw [own_put]
  by_cases hij : i = j
  · subst hij
    simpa [St.put] using hp
  · have hj := h.runner j
    rw [own_of_free hfree hij] at hj
    simpa [St.put, Function.update_of_ne (Ne.symm hij), hij] using hj.mono hsub

/-! ## Runs -/

/-- The files before a file are recorded and it is not: it is the next one. -/
theorem Applied.eq_length {k : Nat} (h : Applied files stmts x₀ db k)
    (hdistinct : (files.map (·.version)).Nodup) {done left : List Migration} {m : Migration}
    (hfiles : files = done ++ m :: left) (hdone : ∀ m ∈ done, m.version ∈ db.versions)
    (hnew : m.version ∉ db.versions) : k = done.length := by
  rcases Nat.lt_trichotomy k done.length with hlt | heq | hgt
  · -- a file of `done` that is not among the first `k` has a version of one that is
    obtain ⟨x, hx⟩ : ∃ x, x ∈ done.drop k :=
      List.exists_mem_of_length_pos (by rw [List.length_drop]; omega)
    have hmem := hdone x (List.mem_of_mem_drop hx)
    rw [h.versions] at hmem
    have hdrop : x ∈ files.drop k := by
      rw [hfiles, List.drop_append_of_le_length (by omega)]
      exact List.mem_append_left _ hx
    rw [← List.take_append_drop k files, List.map_append] at hdistinct
    exact absurd rfl ((List.nodup_append.mp hdistinct).2.2 _ hmem _ (List.mem_map_of_mem hdrop))
  · exact heq
  · -- the file itself is among the first `k`
    have hm : m ∈ files.take k := by
      rw [hfiles, List.take_append, List.mem_append]
      obtain ⟨n, hn⟩ := Nat.exists_eq_add_of_lt hgt
      rw [show k - done.length = n + 1 by omega, List.take_succ_cons]
      exact .inr List.mem_cons_self
    rw [h.versions] at hnew
    exact absurd (List.mem_map_of_mem hm) hnew

theorem Applied.commit {k : Nat} (h : Applied files stmts x₀ db k)
    (hdistinct : (files.map (·.version)).Nodup) {done left : List Migration} {m : Migration}
      (hfiles : files = done ++ m :: left) (hdone : ∀ m ∈ done, m.version ∈ db.versions)
      (hnew : m.version ∉ db.versions) {d : Db σ}
      (hversions : d.versions = db.versions ++ [m.version])
      (hschema : runStmts (stmts m) db.schema = some d.schema) :
    Applied files stmts x₀ d (k + 1) := by
  have hk := h.eq_length hdistinct hfiles hdone hnew
  subst hk
  have htake : files.take done.length = done := by
    rw [hfiles, List.take_left]
  have htake' : files.take (done.length + 1) = done ++ [m] := by
    rw [hfiles, List.take_append, List.take_of_length_le (by omega), Nat.add_sub_cancel_left]
    rfl
  have hver := h.versions
  have hrep := h.schema
  rw [htake] at hver hrep
  refine ⟨?_, ?_, ?_⟩
  · rw [hfiles, List.length_append, List.length_cons]
    omega
  · rw [htake', hversions, hver, List.map_append]
    rfl
  · rw [htake', replay_append, hrep, Option.bind_some, hschema]

theorem Progress.of_split {m : Migration} {d : Db σ} {fs gs : List (σ → Option σ)}
    (hstmts : stmts m = fs ++ gs) (hversions : d.versions = db.versions)
      (hschema : runStmts fs db.schema = some d.schema) :
    Progress stmts db m (some d) (gs.map .change ++ [.record m.version, .commit]) := by
  cases gs with
  | nil =>
    rw [List.append_nil] at hstmts
    exact .changed d hversions (hstmts ▸ hschema)
  | cons g gs => exact .inside d fs g gs hstmts hversions hschema

/-- The database after a statement: as it was, or with one file more. -/
def OneMore (stmts : Migration → List (σ → Option σ)) (m : Migration) (db db' : Db σ) : Prop :=
  m.version ∉ db.versions ∧ db'.versions = db.versions ++ [m.version] ∧
    runStmts (stmts m) db.schema = some db'.schema

/-- A statement of a script: nothing is committed before the last one, which commits the file as a
whole. -/
theorem Progress.exec {m : Migration} {txn txn' : Option (Db σ)} {db' : Db σ} {st : Stmt σ}
    {rest : List (Stmt σ)} (h : Progress stmts db m txn (st :: rest))
    (hexec : execStmt db txn st = some (db', txn')) :
    Progress stmts db' m txn' rest ∧ (db' = db ∨ rest = [] ∧ OneMore stmts m db db') := by
  generalize hall : st :: rest = all at h
  cases h with
  | start =>
    cases hall
    cases hexec
    exact ⟨.of_split (List.nil_append _).symm rfl rfl, .inl rfl⟩
  | inside d fs g gs hstmts hversions hschema =>
    cases hall
    simp only [execStmt, Option.getD_some] at hexec
    obtain ⟨x, hx, hwrite⟩ := Option.bind_eq_some_iff.mp hexec
    cases hwrite
    refine ⟨.of_split (by rw [hstmts, List.append_cons]) hversions ?_, .inl rfl⟩
    rw [runStmts_append, hschema]
    exact hx
  | changed d hversions hschema =>
    cases hall
    simp only [execStmt, Option.getD_some] at hexec
    split at hexec
    · cases hexec
    · next hnew =>
      cases hexec
      rw [hversions] at hnew
      exact ⟨.recorded _ hnew (by rw [hversions]) hschema, .inl rfl⟩
  | recorded d hnew hversions hschema =>
    cases hall
    cases hexec
    refine ⟨.committed ?_, .inr ⟨rfl, hnew, hversions, hschema⟩⟩
    rw [hversions]
    exact List.mem_append_right _ List.mem_cons_self
  | committed hmem => cases hall

theorem call_inv (hclean : Clean w files stmts) (h : Inv files stmts x₀ s) (hown : s.own i = none) :
    Inv files stmts x₀ (call w s i) := by
  unfold call
  rw [hclean.discovered, hown]
  exact h.go ⟨hown, List.Subset.refl _, [], rfl, by simp⟩

theorem looping_next {already newly : List String} {m : Migration} {done left : List Migration}
    {txn : Option (Db σ)} (hown : txn = none) (halready : already ⊆ db.versions)
    (hfiles : files = done ++ m :: left) (hdone : ∀ m ∈ done, m.version ∈ db.versions)
    (hmem : m.version ∈ db.versions) :
    RunnerOk files stmts db txn (.looping already left newly) := by
  refine ⟨hown, halready, done ++ [m], by simp [hfiles], fun m' hm' => ?_⟩
  rcases List.mem_append.mp hm' with hm' | hm'
  · exact hdone m' hm'
  · rw [List.mem_singleton.mp hm']
    exact hmem

theorem call_db : (call w s i).db = s.db := by
  unfold call
  split <;> rfl

/-- What a step can do: the invariant is kept, and the database stays as it is or one file is
committed as a whole, whose script then is at its end. -/
theorem step_spec (hclean : Clean w files stmts) (h : Inv files stmts x₀ s) {l : Nat × Act}
    (hstep : step w s l = some s') :
    Inv files stmts x₀ s' ∧ (s'.db = s.db ∨ ∃ m ∈ files, OneMore stmts m s.db s'.db ∧
      ∃ already left newly, s'.runners l.1 = .script already m [] left newly) := by
  obtain ⟨i, a⟩ := l
  have hi := h.runner i
  cases a with
  | call =>
    have hcall (hown : s.own i = none) : Inv files stmts x₀ (call w s i) ∧
        ((call w s i).db = s.db ∨ ∃ m ∈ files, OneMore stmts m s.db (call w s i).db ∧
          ∃ already left newly, (call w s i).runners i = .script already m [] left newly) :=
      ⟨call_inv hclean h hown, .inl call_db⟩
    simp only [step] at hstep
    split at hstep
    · next hp =>
      cases hstep
      rw [hp] at hi
      exact hcall hi
    · next hp =>
      cases hstep
      rw [hp] at hi
      exact hcall hi.1
    · next hp =>
      cases hstep
      rw [hp] at hi
      exact hcall hi
    · cases hstep
  | pass now raises =>
    simp only [step] at hstep
    split at hstep
    · next hp =>
      cases hstep
      rw [hp] at hi
      obtain ⟨hown, -, done, hfiles, hdone⟩ := hi
      refine ⟨h.go ⟨hown, fun m hm => ?_⟩, .inl rfl⟩
      rw [hfiles, List.append_nil] at hm
      exact hdone m hm
    · next already m left newly hp =>
      rw [hp] at hi
      obtain ⟨hown, halready, done, hfiles, hdone⟩ := hi
      split at hstep
      · next hmem =>
        cases hstep
        exact ⟨h.go (looping_next hown halready hfiles hdone (halready hmem)), .inl rfl⟩
      · split at hstep
        · cases hstep
          exact ⟨h.go hown, .inl rfl⟩
        · next hkeyword =>
          cases hstep
          have hpending : s.commitPending i = s := by
            unfold St.commitPending
            rw [hown]
          have hm : m ∈ files := by
            rw [hfiles]
            exact List.mem_append_right _ List.mem_cons_self
          have hword : hasTxnKeyword w.unicode false m.sql.toList = false := by
            simp only [Bool.or_eq_true, not_or] at hkeyword
            simpa using hkeyword.2
          rw [hpending, hclean.script m hm hword now]
          refine ⟨h.go ⟨halready, ?_, done, hfiles, hdone⟩, .inl rfl⟩
          rw [hown]
          exact .start
    · cases hstep
  | stmt raises =>
    simp only [step] at hstep
    split at hstep
    · next already m left newly hp =>
      cases hstep
      rw [hp] at hi
      obtain ⟨halready, hprogress, done, hfiles, hdone⟩ := hi
      generalize hown : s.own i = txn at hprogress
      cases hprogress with
      | committed hmem => exact ⟨h.go (looping_next hown halready hfiles hdone hmem), .inl rfl⟩
    · next already m st rest left newly hp =>
      rw [hp] at hi
      obtain ⟨halready, hprogress, done, hfiles, hdone⟩ := hi
      split at hstep
      · cases hstep
        exact ⟨h.rollback rfl, .inl (by simp)⟩
      · split at hstep
        · next hfree =>
          split at hstep
          · next db txn hexec =>
            cases hstep
            obtain ⟨hprogress', hdb⟩ := hprogress.exec hexec
            obtain ⟨k, hk⟩ := h.applied
            rcases hdb with rfl | ⟨rfl, hmore⟩
            · exact ⟨h.put hfree ⟨k, hk⟩ (List.Subset.refl _) ⟨halready, hprogress', done, hfiles,
                hdone⟩, .inl rfl⟩
            · -- the COMMIT of the script
              obtain ⟨hnew, hversions, hschema⟩ := hmore
              have hsub : s.db.versions ⊆ db.versions := by
                rw [hversions]
                exact List.subset_append_left _ _
              have hm : m ∈ files := by
                rw [hfiles]
                exact List.mem_append_right _ List.mem_cons_self
              refine ⟨h.put hfree ⟨k + 1,
                hk.commit hclean.distinct hfiles hdone hnew hversions hschema⟩ hsub
                ⟨List.Subset.trans halready hsub, hprogress', done, hfiles,
                  fun m' hm' => hsub (hdone m' hm')⟩,
                  .inr ⟨m, hm, ⟨hnew, hversions, hschema⟩, already, left, newly, ?_⟩⟩
              rw [put_runners, Function.update_self]
          · cases hstep
            exact ⟨h.rollback rfl, .inl (by simp)⟩
        · cases hstep
    · cases hstep
  | crash =>
    cases hstep
    exact ⟨h.rollback rfl, .inl (by simp)⟩

theorem run_inv (hclean : Clean w files stmts) {ls : List (Nat × Act)}
    (hrun : Run (step w) (init x₀) ls s) : Inv files stmts x₀ s :=
  hrun.invariant (fun _ _ _ h hstep => (step_spec hclean h hstep).1)
    ⟨⟨0, Nat.zero_le _, rfl, rfl⟩, fun _ => rfl⟩

theorem recorded_eq_take (hdistinct : (files.map (·.version)).Nodup) {k : Nat}
    (h : db.versions = (files.take k).map (·.version)) : recorded files db = files.take k := by
  unfold recorded
  conv_lhs => rw [← List.take_append_drop k files]
  rw [List.filter_append]
  rw [← List.take_append_drop k files, List.map_append] at hdistinct
  have hapart := (List.nodup_append.mp hdistinct).2.2
  have htake : (files.take k).filter (fun m => m.version ∈ db.versions) = files.take k := by
    refine List.filter_eq_self.mpr fun m hm => ?_
    rw [h]
    exact decide_eq_true (List.mem_map_of_mem hm)
  have hdrop : (files.drop k).filter (fun m => m.version ∈ db.versions) = [] := by
    refine List.filter_eq_nil_iff.mpr fun m hm => ?_
    rw [h, decide_eq_true_eq]
    intro hmem
    exact hapart _ hmem _ (List.mem_map_of_mem hm) rfl
  rw [htake, hdrop, List.append_nil]

/-! ## The order of the files -/

theorem lt_of_take_lt_take {n : Nat} {l l' : List Char} (h : l.take n < l'.take n) : l < l' := by
  induction n generalizing l l' with
  | zero => exact absurd h (lt_irrefl _)
  | succ n ih =>
    cases l' with
    | nil =>
      rw [List.take_nil] at h
      exact absurd h (List.not_lt_nil _)
    | cons b l' =>
      cases l with
      | nil => exact List.nil_lt_cons b l'
      | cons a l =>
        rw [List.take_succ_cons, List.take_succ_cons, List.cons_lt_cons_iff] at h
        exact List.cons_lt_cons_iff.mpr (h.imp_right fun h => ⟨h.1, ih h.2⟩)

theorem take_le_take {l l' : List Char} (h : l ≤ l') (n : Nat) : l.take n ≤ l'.take n :=
  not_lt.mp fun hlt => absurd h (not_le.mpr (lt_of_take_lt_take hlt))

theorem version_of_discover {u : Unicode} {f : SqlFile} {m : Migration} (h : discover u f = .ok m) :
    m.version.toList = f.name.toList.take 4 := by
  unfold discover at h
  split at h
  · next version hversion =>
    cases h
    simp only [matchVersion] at hversion
    split at hversion
    · cases hversion
      exact String.toList_ofList
    · cases hversion
  · cases h

theorem discover_sorted {u : Unicode} {dir : List SqlFile}
    (h : discoverMigrations u dir = .ok files) :
    files.Pairwise fun a b => a.version.toList ≤ b.version.toList := by
  have hsorted := List.pairwise_insertionSort (fun a b : SqlFile => a.name.toList ≤ b.name.toList)
    (dir.filter fun f => isSql f.name)
  have hforall := Results.mapM_ok h
  generalize (dir.filter fun f => isSql f.name).insertionSort
    (fun a b => a.name.toList ≤ b.name.toList) = sorted at hsorted hforall
  clear h
  induction hforall with
  | nil => exact .nil
  | @cons f m fs ms hm hms ih =>
    obtain ⟨hfirst, hsorted⟩ := List.pairwise_cons.mp hsorted
    refine List.pairwise_cons.mpr ⟨fun m' hm' => ?_, ih hsorted⟩
    obtain ⟨f', hf', hd⟩ := Results.exists_item hms hm'
    rw [version_of_discover hm, version_of_discover hd]
    exact take_le_take (hfirst f' hf') 4

/-- In every run over a clean directory: the schema is what the recorded files make of it, in the
order of their versions; a step that raises leaves the database alone, and any other one does so too
or commits a file as a whole; and when `apply_migrations` returns, or `migrations_at_head` says so,
all files are among them. -/
theorem run_clean (hclean : Clean w files stmts) {ls : List (Nat × Act)}
    (hrun : Run (step w) (init x₀) ls s) :
    (s.db.versions = (recorded files s.db).map (·.version) ∧
        replay stmts (recorded files s.db) x₀ = some s.db.schema ∧
        files.Pairwise fun a b => a.version.toList ≤ b.version.toList) ∧
      (∀ l s', step w s l = some s' → s'.db = s.db ∨
        s'.runners l.1 ≠ .raised ∧ ∃ m ∈ files, OneMore stmts m s.db s'.db) ∧
      (∀ i newly, s.runners i = .returned newly → recorded files s.db = files) ∧
      (migrationsAtHead files s.db = true → recorded files s.db = files) := by
  have hinv := run_inv hclean hrun
  have hall (hmem : ∀ m ∈ files, m.version ∈ s.db.versions) : recorded files s.db = files :=
    List.filter_eq_self.mpr fun m hm => decide_eq_true (hmem m hm)
  refine ⟨?_, fun l s' hstep => ?_, fun i newly hret => ?_, fun hhead => ?_⟩
  · obtain ⟨k, hk⟩ := hinv.applied
    rw [recorded_eq_take hclean.distinct hk.versions]
    exact ⟨hk.versions, hk.schema, discover_sorted hclean.discovered⟩
  · rcases (step_spec hclean hinv hstep).2 with hdb | ⟨m, hm, hmore, already, left, newly, hphase⟩
    · exact .inl hdb
    · refine .inr ⟨?_, m, hm, hmore⟩
      rw [hphase]
      intro hraised
      cases hraised
  · have hi := hinv.runner i
    rw [hret] at hi
    exact hall hi.2
  · refine hall fun m hm => ?_
    have hmem := List.all_eq_true.mp hhead m hm
    simpa using hmem

end

/-! ## Two directories -/

def ascii : Unicode := ⟨Char.isDigit, fun c => c.isAlphanum || c = '_'⟩

/-- The statements of a script: it is cut at every `;` outside quotes. -/
def statements (quoted : Bool) (text : List Char) : List Char → List (List Char)
  | [] => [text]
  | c :: cs =>
    if c = ';' && !quoted then text :: statements false [] cs
    else statements (if c = '\'' then !quoted else quoted) (text ++ [c]) cs

/-- `CREATE TABLE`, in a schema that is the list of its tables. -/
def createTable (name : String) (tables : List String) : Option (List String) :=
  if name ∈ tables then none else some (tables ++ [name])

/-- A statement of the runner, or a `CREATE TABLE`; any other one is an error. -/
def readStmt (text : List Char) : Stmt (List String) :=
  if text = "BEGIN".toList then .begin
  else if text = "COMMIT".toList then .commit
  else
    match text.dropPrefix? "INSERT INTO schema_migrations (version, applied_at) VALUES ('".toList with
    | some rest => .record (String.ofList (rest.takeWhile (· != '\'')))
    | none =>
      match text.dropPrefix? "CREATE TABLE ".toList with
      | some rest => .change (createTable (String.ofList (rest.takeWhile (· != '('))))
      | none => .other fun _ => none

/-- SQLite, for scripts of such statements without comments. -/
def plainSql : Sqlite (List String) where
  read text := ((statements false [] text).map (·.dropWhile Py.isSpace)).filter
    (!·.isEmpty) |>.map readStmt

def inOrder : World (List String) :=
  ⟨ascii, plainSql, [⟨"0002_keys.sql", "CREATE TABLE keys(id);"⟩,
    ⟨"0001_users.sql", "CREATE TABLE users(id);"⟩]⟩

def inOrderFiles : List Migration :=
  [⟨"0001", "0001_users.sql", "CREATE TABLE users(id);"⟩,
    ⟨"0002", "0002_keys.sql", "CREATE TABLE keys(id);"⟩]

def newYear : UtcTime := ⟨2026, 1, 1, 0, 0, 0, 0, by decide⟩

/-- The calls of a runner that is not disturbed. -/
def undisturbed (n : Nat) : List (Nat × Act) :=
  (0, .pass newYear false) :: List.replicate n (0, .stmt false)

theorem zeroPadded_digits {width n : Nat} {c : Char} (hc : c ∈ zeroPadded width n) :
    c.isDigit = true := by
  unfold zeroPadded List.leftpad at hc
  rcases List.mem_append.mp hc with hc | hc
  · rw [(List.mem_replicate.mp hc).2]
    decide
  · exact Nat.isDigit_of_mem_toDigits (by decide) (by decide) hc

/-- A timestamp ends neither its quotes nor its statement. -/
theorem isoformat_plain (now : UtcTime) : ∀ c ∈ now.isoformat, c ≠ ';' ∧ c ≠ '\'' := by
  have hdigits (width n : Nat) : ∀ c ∈ zeroPadded width n, c ≠ ';' ∧ c ≠ '\'' := by
    intro c hc
    have hdigit := zeroPadded_digits hc
    constructor <;> rintro rfl <;> exact absurd hdigit (by decide)
  have hmicroseconds : ∀ c ∈ (if now.microsecond = 0 then [] else '.' ::
      zeroPadded 6 now.microsecond),
      c ≠ ';' ∧ c ≠ '\'' := by
    split
    · exact List.forall_mem_nil _
    · exact List.forall_mem_cons.mpr ⟨by decide, hdigits 6 _⟩
  have hzone : ∀ c ∈ "+00:00".toList, c ≠ ';' ∧ c ≠ '\'' := by simp
  unfold UtcTime.isoformat
  simp only [List.forall_mem_append, List.forall_mem_cons]
  exact ⟨⟨⟨⟨⟨⟨⟨hdigits 4 _, by decide, hdigits 2 _⟩, by decide, hdigits 2 _⟩,
    by decide, hdigits 2 _⟩, by decide,
    hdigits 2 _⟩, by decide, hdigits 2 _⟩, hmicroseconds⟩, hzone⟩

theorem statements_plain {cs : List Char} (hcs : ∀ c ∈ cs, c ≠ ';' ∧ c ≠ '\'') (quoted : Bool)
    (text rest : List Char) :
      statements quoted text (cs ++ rest) = statements quoted (text ++ cs) rest := by
  induction cs generalizing text with
  | nil => rw [List.nil_append, List.append_nil]
  | cons c cs ih =>
    obtain ⟨hsemicolon, hquote⟩ := hcs c List.mem_cons_self
    rw [List.cons_append, statements, if_neg (by simp [hsemicolon]), if_neg hquote,
      ih (fun c hc => hcs c (List.mem_cons_of_mem _ hc)), List.append_assoc, List.singleton_append]

theorem plain_of_all {cs : List Char} (h : (cs.all fun c => c != ';' && c != '\'') = true) :
    ∀ c ∈ cs, c ≠ ';' ∧ c ≠ '\'' := by
  simpa using h

theorem statements_semicolon (text rest : List Char) :
    statements false text (';' :: rest) = text :: statements false [] rest := rfl

theorem statements_quote (quoted : Bool) (text rest : List Char) :
    statements quoted text ('\'' :: rest) = statements (!quoted) (text ++ ['\'']) rest := rfl

theorem statements_script (m : Migration) (body : List Char) (hsql : m.sql.toList = body ++ [';'])
    (hbody : ∀ c ∈ body, c ≠ ';' ∧ c ≠ '\'') (hversion : ∀ c ∈ m.version.toList, c ≠ ';' ∧ c ≠ '\'')
    (now : UtcTime) :
    statements false [] (scriptText m now) =
      ["BEGIN".toList, "\n".toList ++ body,
        "\nINSERT INTO schema_migrations (version, applied_at) VALUES ('".toList ++
          (m.version.toList ++ ("', '".toList ++ (now.isoformat ++ "')".toList))),
        "\nCOMMIT".toList, []] := by
  have hbegin : "BEGIN;\n".toList = "BEGIN".toList ++ (';' :: "\n".toList) := by decide
  have hinsert : "\nINSERT INTO schema_migrations (version, applied_at) VALUES ('".toList =
      "\nINSERT INTO schema_migrations (version, applied_at) VALUES (".toList ++ ['\''] := by decide
  have hcomma : "', '".toList = '\'' :: (", ".toList ++ ['\'']) := by decide
  have hclose : "')".toList = '\'' :: ")".toList := by decide
  have hcommit : "');\nCOMMIT;".toList =
      '\'' :: (")".toList ++ (';' :: ("\nCOMMIT".toList ++ [';']))) := by decide
  unfold scriptText
  rw [hsql, hbegin, hinsert, hcomma, hclose, hcommit]
  simp only [List.append_assoc, List.cons_append, List.nil_append]
  rw [statements_plain (@plain_of_all "BEGIN".toList (by decide)), statements_semicolon,
    statements_plain (@plain_of_all "\n".toList (by decide)), statements_plain hbody,
      statements_semicolon,
    statements_plain (plain_of_all (by decide)), statements_quote, statements_plain hversion,
      statements_quote,
    statements_plain (@plain_of_all ", ".toList (by decide)), statements_quote,
      statements_plain (isoformat_plain now),
    statements_quote, statements_plain (@plain_of_all ")".toList (by decide)),
      Bool.not_false, Bool.not_true,
    Bool.not_false, Bool.not_true, statements_semicolon,
      statements_plain (@plain_of_all "\nCOMMIT".toList (by decide)),
    statements_semicolon]
  simp only [List.append_assoc, List.cons_append, List.nil_append]
  rfl

theorem inOrder_clean : Clean inOrder inOrderFiles
    fun m => if m.version = "0001" then [createTable "users"] else [createTable "keys"] where
  discovered := by decide +kernel
  distinct := by decide
  script := by
    intro m hm _ now
    simp only [inOrderFiles, List.mem_cons, List.not_mem_nil, or_false] at hm
    rcases hm with rfl | rfl
    · have hscript := statements_script ⟨"0001", "0001_users.sql", "CREATE TABLE users(id);"⟩
        "CREATE TABLE users(id)".toList (by decide) (plain_of_all (by decide))
          (plain_of_all (by decide)) now
      simp only [inOrder, plainSql, hscript]
      rfl
    · have hscript := statements_script ⟨"0002", "0002_keys.sql", "CREATE TABLE keys(id);"⟩
        "CREATE TABLE keys(id)".toList (by decide) (plain_of_all (by decide))
          (plain_of_all (by decide)) now
      simp only [inOrder, plainSql, hscript]
      rfl

/-- What a call has returned. -/
def Phase.returned? : Phase σ → Option (List String)
  | .returned newly => some newly
  | _ => none

theorem Phase.eq_returned {p : Phase σ} {newly : List String} (h : p.returned? = some newly) :
    p = .returned newly := by
  cases p <;> cases h
  rfl

/-- One file is applied, the other fails at its first statement and is applied by the next call. -/
theorem run_clean_inOrder :
    ∃ s, Run (step inOrder) (init [])
        ((0, .call) :: undisturbed 5 ++ [(0, .pass newYear false), (0, .stmt false),
        (0, .stmt true), (0, .call),
          (0, .pass newYear false)] ++ undisturbed 5 ++ [(0, .pass newYear false)]) s ∧
      s.runners 0 = .returned ["0002"] ∧ s.db.schema = ["users", "keys"] ∧
      recorded inOrderFiles s.db = inOrderFiles := by
  obtain ⟨s, hrun, hs⟩ : ∃ s, Run (step inOrder) (init [])
      ((0, .call) :: undisturbed 5 ++ [(0, .pass newYear false), (0, .stmt false), (0, .stmt true),
        (0, .call), (0, .pass newYear false)] ++ undisturbed 5 ++ [(0, .pass newYear false)]) s ∧
      ((s.runners 0).returned?, s.db.schema) = (some ["0002"], ["users", "keys"]) :=
    run_of_exec_map (by decide +kernel)
  obtain ⟨hreturned, hschema⟩ := Prod.mk.inj hs
  have hphase := Phase.eq_returned hreturned
  exact ⟨s, hrun, hphase, hschema, (run_clean inOrder_clean hrun).2.2.1 0 _ hphase⟩

/-- Two files of one version. -/
def twins : World (List String) :=
  ⟨ascii, plainSql, [⟨"0001_a.sql", "CREATE TABLE a(x);"⟩, ⟨"0001_b.sql", "CREATE TABLE b(x);"⟩]⟩

def twinFiles : List Migration :=
  [⟨"0001", "0001_a.sql", "CREATE TABLE a(x);"⟩, ⟨"0001", "0001_b.sql", "CREATE TABLE b(x);"⟩]

/-- The second file fails when its version is recorded. The next call takes it for applied, returns,
and `migrations_at_head` agrees; only the first file was executed. -/
theorem twins_skipped :
    discoverMigrations twins.unicode twins.dir = .ok twinFiles ∧
      ∃ s, Run (step twins) (init [])
          ((0, .call) :: undisturbed 5 ++ undisturbed 3 ++ [(0, .call), (0, .pass newYear false),
            (0, .pass newYear false), (0, .pass newYear false)]) s ∧
        s.runners 0 = .returned [] ∧ migrationsAtHead twinFiles s.db = true ∧
        s.db.schema = ["a"] := by
  refine ⟨by decide +kernel, ?_⟩
  obtain ⟨s, hrun, hs⟩ : ∃ s, Run (step twins) (init [])
      ((0, .call) :: undisturbed 5 ++ undisturbed 3 ++ [(0, .call), (0, .pass newYear false),
        (0, .pass newYear false), (0, .pass newYear false)]) s ∧
      ((s.runners 0).returned?, migrationsAtHead twinFiles s.db,
        s.db.schema) = (some [], true, ["a"]) :=
    run_of_exec_map (by decide +kernel)
  obtain ⟨hreturned, hdb⟩ := Prod.mk.inj hs
  exact ⟨s, hrun, Phase.eq_returned hreturned, Prod.mk.inj hdb⟩

end Migrations
end InferenceEngine
