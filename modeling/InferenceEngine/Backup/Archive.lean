import InferenceEngine.Lib.Dict
import InferenceEngine.Lib.JsonIndent

/-!
# Backup.Archive

`engine/backup.py`: the database and the config file are put into a tarball with a manifest of their
checksums, and restored from it.

An archive is the list of its members, as `tarfile` reads it. The SHA-256 of a file is a parameter,
and so is which paths the operating system lets be written (`writable`); a write that fails half way
is left out. A path names one file: links and other spellings of a path are not looked at. Where
`create_backup` puts the archive (`out` and the time in its name) is left out as well.

* `unpack`: everything that `restore_backup` does before its first write.
* `restoreBackup`: the rest of it, the database first and then the config file.
* `unpack_pack`: what was packed is unpacked, through the JSON text of the manifest and its bytes.
-/

namespace InferenceEngine

namespace Backup

open Json

variable {F : Type}

abbrev Bytes := List UInt8

structure Path where
  parent : String
  name : String
  deriving DecidableEq, Repr

inductive Entry where
  | file (content : Bytes)
  | directory
  deriving DecidableEq

abbrev Files := Dict Path Entry

structure Settings where
  dbPath : Path
  configFile : Option Path

inductive Exc where
  | archiveNotFound
  | databaseExists (path : Path)
  /-- `tarfile` cannot read the archive -/
  | tarError
  | unexpectedMember (name : String)
  | manifestMissing
  /-- the errors of `read_text` and `json.loads` -/
  | manifestUnreadable
  | databaseMissing
  /-- only a dict has a `get` -/
  | attributeError
  | databaseMismatch
  | configMismatch
  /-- the operating system refuses a write -/
  | osError (path : Path)
  deriving DecidableEq

/-! ## Files -/

namespace Files

/-- What `read_bytes` returns. -/
def content (fs : Files) (p : Path) : Option Bytes :=
  match fs.get p with
  | some (.file data) => some data
  | _ => none

def Writable (writable : Path → Bool) (fs : Files) (p : Path) : Prop :=
  fs.get p ≠ some .directory ∧ writable p = true

instance (writable : Path → Bool) (fs : Files) (p : Path) : Decidable (fs.Writable writable p) :=
  inferInstanceAs (Decidable (_ ∧ _))

/-- `path.parent.mkdir(parents=True, exist_ok=True)` and `path.write_bytes(data)` -/
def writeBytes (writable : Path → Bool) (fs : Files) (p : Path) (data : Bytes) : Except Exc Files :=
  if fs.Writable writable p then .ok (fs.set p (.file data)) else .error (.osError p)

end Files

/-! ## The archive -/

def dbArcname : String := "inference_engine.db"

def configArcname : String := "config.toml"

def manifestArcname : String := "manifest.json"

structure Member where
  name : String
  isfile : Bool
  content : Bytes
  deriving DecidableEq

/-- What lies at the path of the archive. -/
inductive Archive where
  | missing
  | unreadable
  | members (ms : List Member)
  deriving DecidableEq

def Archive.getmembers : Archive → Except Exc (List Member)
  | .members ms => .ok ms
  | _ => .error .tarError

def allowed : List String := [manifestArcname, dbArcname, configArcname]

/-- `_safe_members` -/
def safeMembers : List Member → Except Exc (List Member)
  | [] => .ok []
  | m :: ms =>
    if m.name ∉ allowed ∨ m.isfile = false then .error (.unexpectedMember m.name)
    else (safeMembers ms).map (m :: ·)

/-- The files of the temporary directory; a member overwrites an earlier one of its name. -/
def extractall (ms : List Member) : Dict String Bytes :=
  ms.foldl (fun tmp m => tmp.set m.name m.content) []

/-- `path.read_text()`; it also turns every line break into `\n`, and for `json.loads` all are the
same. -/
def readText (data : Bytes) : Option String := String.fromUTF8? ⟨data.toArray⟩

def orRaise {α : Type} (exc : Exc) : Option α → Except Exc α
  | some a => .ok a
  | none => .error exc

/-- The items of a dict, the only value that has a `get`. -/
def dictItems : Value F → Except Exc (List (Text × Value F))
  | .obj items => .ok items
  | _ => .error .attributeError

/-- `digest == manifest.get(key)` -/
def matchesDigest (manifest : List (Text × Value F)) (key digest : String) : Bool :=
  match manifest.lookup (Text.ofString key) with
  | some (.str s) => s = Text.ofString digest
  | _ => false

/-! ## The database -/

/-- What is used of SQLite. A state is what a connection sees: the committed pages. -/
structure Sqlite (S : Type) where
  /-- what a database file by itself holds -/
  load : Bytes → Option S
  /-- the file that a rollback journal makes of the database file; `none` when the journal is not
  hot -/
  rollback : Bytes → Bytes → Option Bytes
  /-- the commits of a write-ahead log over a state; `none` when it is not a valid log -/
  replay : Bytes → S → Option S
  /-- the file that the online backup API writes -/
  backup : S → Bytes
  load_backup : ∀ s, load (backup s) = some s

def Path.beside (p : Path) (suffix : String) : Path := { p with name := p.name ++ suffix }

/-- The write-ahead log of a database lies beside it. -/
def Path.wal (p : Path) : Path := p.beside "-wal"

/-- And so does its rollback journal. -/
def Path.journal (p : Path) : Path := p.beside "-journal"

namespace Sqlite

variable {S : Type} (sq : Sqlite S)

/-- What a file holds with a log. -/
def logged (file : Bytes) (log : Option Bytes) : Option S :=
  (sq.load file).map fun s => (log.bind fun wal => sq.replay wal s).getD s

/-- What a file holds with the journal and the log found beside it: a hot journal is rolled back
first. The index of the log (`-shm`) is built anew by the first connection, so nothing is read from
one that was left behind. -/
def opened (file : Bytes) (journal log : Option Bytes) : Option S :=
  sq.logged ((journal.bind fun j => sq.rollback j file).getD file) log

/-- The state seen by a connection to the database at `p`: `connect` of `engine/store/db.py`, once
the file is there. -/
def connect (fs : Files) (p : Path) : Option S :=
  (fs.content p).bind fun file => sq.opened file (fs.content p.journal) (fs.content p.wal)

end Sqlite

/-- `_consistent_db_copy` -/
def consistentDbCopy {S : Type} (sq : Sqlite S) (fs : Files) (dbPath : Path) : Option Bytes :=
  (sq.connect fs dbPath).map sq.backup

/-! ## The manifest -/

inductive Field where
  | text (s : String)
  | flag (b : Bool)
  deriving DecidableEq

namespace Field

def value : Field → Value F
  | text s => .str (Text.ofString s)
  | flag b => .bool b

def write (fl : Floats F) (field : Field) : List Char := Json.write fl .spaced field.value

end Field

/-- The manifest in the order in which its keys are set. -/
abbrev Manifest := List (String × Field)

namespace Manifest

def items (m : Manifest) : List (Text × Value F) := m.map fun p => (Text.ofString p.1, p.2.value)

/-- `json.dumps(manifest, indent=2)` -/
def dumps (fl : Floats F) (m : Manifest) : String :=
  .ofList (indentText (m.map fun p => ((Text.ofString p.1).flatMap escape, p.2.write fl)))

end Manifest

def manifestOf (version createdAt dbSha256 : String) (configSha256 : Option String) : Manifest :=
  [("engine_version", .text version), ("created_at", .text createdAt),
    ("db_filename", .text dbArcname), ("db_sha256", .text dbSha256),
    ("config_included", .flag configSha256.isSome),
    ("note", .text "model files are not included; back them up separately")] ++
  configSha256.toList.map fun digest => ("config_sha256", .text digest)

/-- `path.write_text(s)` -/
def writeText (s : String) : Bytes := s.toUTF8.data.toList

/-- The members of a backup, in the order in which they are added. -/
def pack (fl : Floats F) (m : Manifest) (db : Bytes) (config : Option Bytes) : List Member :=
  [⟨manifestArcname, true, writeText (m.dumps fl)⟩, ⟨dbArcname, true, db⟩] ++
    config.toList.map fun data => ⟨configArcname, true, data⟩

inductive CreateExc where
  | databaseNotFound (path : Path)
  /-- SQLite cannot read the file -/
  | databaseError
  deriving DecidableEq

/-- The bytes of the config file, if there is one. -/
def Settings.config (settings : Settings) (fs : Files) : Option Bytes :=
  settings.configFile.bind fs.content

/-- `create_backup`; `createdAt` is the time it is called at. -/
def createBackup {S : Type} (sq : Sqlite S) (sha256 : Bytes → String) (fl : Floats F)
    (version createdAt : String) (settings : Settings) (fs : Files) :
    Except CreateExc (List Member) :=
  if (fs.content settings.dbPath).isNone then .error (.databaseNotFound settings.dbPath)
  else
    match consistentDbCopy sq fs settings.dbPath with
    | none => .error .databaseError
    | some db =>
      let config := settings.config fs
      .ok (pack fl (manifestOf version createdAt (sha256 db) (config.map sha256)) db config)

/-! ## Restoring -/

structure Unpacked (F : Type) where
  manifest : List (Text × Value F)
  db : Bytes
  config : Option Bytes

structure RestoreResult (F : Type) where
  dbPath : Path
  configPath : Option Path
  manifest : List (Text × Value F)

variable (sha256 : Bytes → String) (fl : Floats F) (writable : Path → Bool) (archive : Archive)
  (settings : Settings) (force : Bool) (configOut : Option Path) (fs : Files)

/-- `restore_backup` up to its first write. -/
def unpack : Except Exc (Unpacked F) :=
  if archive = .missing then .error .archiveNotFound
  else if (fs.get settings.dbPath).isSome ∧
    force = false then .error (.databaseExists settings.dbPath)
  else do
    let ms ← safeMembers (← archive.getmembers)
    let tmp := extractall ms
    let data ← orRaise .manifestMissing (tmp.get manifestArcname)
    let manifest ← orRaise .manifestUnreadable ((readText data).bind (loads fl))
    let db ← orRaise .databaseMissing (tmp.get dbArcname)
    let items ← dictItems manifest
    if matchesDigest items "db_sha256" (sha256 db) then
      .ok ⟨items, db, tmp.get configArcname⟩
    else .error .databaseMismatch

/-- Where the config file goes: `config_out`, `settings.config_file` or `db_path.parent /
CONFIG_ARCNAME`. -/
def Settings.target (settings : Settings) (configOut : Option Path) : Path :=
  configOut.getD (settings.configFile.getD ⟨settings.dbPath.parent, configArcname⟩)

/-- Returns what the call returns or raises, and the files after it. -/
def restoreBackup : Except Exc (RestoreResult F) × Files :=
  match unpack sha256 fl archive settings force fs with
  | .error exc => (.error exc, fs)
  | .ok u =>
    match fs.writeBytes writable settings.dbPath u.db with
    | .error exc => (.error exc, fs)
    | .ok fs =>
      match u.config with
      | none => (.ok ⟨settings.dbPath, none, u.manifest⟩, fs)
      | some config =>
        -- the database has been replaced by now
        if matchesDigest u.manifest "config_sha256" (sha256 config) =
          false then (.error .configMismatch, fs)
        else
          let target := settings.target configOut
          match fs.writeBytes writable target config with
          | .error exc => (.error exc, fs)
          | .ok fs => (.ok ⟨settings.dbPath, some target, u.manifest⟩, fs)

/-! ## What is unpacked from a backup -/

theorem readText_writeText (s : String) : readText (writeText s) = some s := by
  have hbytes : (⟨(writeText s).toArray⟩ : ByteArray) = s.toByteArray := rfl
  unfold readText
  rw [hbytes, String.fromUTF8?, dif_pos s.isValidUTF8]
  rfl

theorem Field.reads (field : Field) : Reads fl (field.write fl) field.value := by
  cases field with
  | text s =>
    unfold Field.write Field.value
    rw [Json.write]
    exact reads_writeString _
  | flag b => exact reads_bool .spaced b

theorem Manifest.loads_dumps (m : Manifest) :
    loads fl (m.dumps fl) = some (.obj (dict m.items)) := by
  refine loads_indentText (List.forall₂_map_left_iff.mpr (List.forall₂_map_right_iff.mpr ?_))
  refine List.forall₂_same.mpr fun p hp => ⟨?_, p.2.reads fl⟩
  exact fun rest => scanString_writeString _ rest

theorem Manifest.lookup_items (m : Manifest) (key : String) :
    (m.items (F := F)).lookup (Text.ofString key) = (m.lookup key).map Field.value := by
  induction m with
  | nil => rfl
  | cons p m ih =>
    have hcons : Manifest.items (F := F) (p :: m) = (Text.ofString p.1, p.2.value) ::
        Manifest.items m := rfl
    rw [hcons, List.lookup_cons, List.lookup_cons, ih]
    by_cases hkey : key = p.1
    · simp [hkey]
    · have hne : Text.ofString key ≠ Text.ofString p.1 := fun h => hkey (Text.ofString_injective h)
      rw [beq_eq_false_iff_ne.mpr hkey, beq_eq_false_iff_ne.mpr hne]

/-- A digest that the manifest holds is the one compared with. -/
theorem matchesDigest_items {m : Manifest} {key held : String}
    (hheld : (List.lookup key m.reverse) = some (.text held)) (digest : String) :
    matchesDigest (dict (m.items (F := F))) key digest = decide (held = digest) := by
  have hlookup : (dict (m.items (F := F))).lookup (Text.ofString key) =
      some (.str (Text.ofString held)) := by
    rw [lookup_dict, Manifest.items, ← List.map_reverse]
    exact (Manifest.lookup_items m.reverse key).trans (by rw [hheld]; rfl)
  unfold matchesDigest
  rw [hlookup]
  exact decide_eq_decide.mpr ⟨fun h => Text.ofString_injective h, fun h => h ▸ rfl⟩

theorem lookup_dbSha256 (version createdAt dbSha256 : String) (configSha256 : Option String) :
    List.lookup "db_sha256" (manifestOf version createdAt dbSha256 configSha256).reverse =
      some (.text dbSha256) := by
  cases configSha256 with
  | none => rfl
  | some digest => rfl

theorem lookup_configSha256 (version createdAt dbSha256 digest : String) :
    List.lookup "config_sha256" (manifestOf version createdAt dbSha256 (some digest)).reverse =
      some (.text digest) := rfl

theorem safeMembers_pack (m : Manifest) (db : Bytes) (config : Option Bytes) :
    safeMembers (pack fl m db config) = .ok (pack fl m db config) := by
  cases config with
  | none => rfl
  | some data => rfl

theorem get_extractall_pack (m : Manifest) (db : Bytes) (config : Option Bytes) :
    (extractall (pack fl m db config)).get manifestArcname = some (writeText (m.dumps fl)) ∧
      (extractall (pack fl m db config)).get dbArcname = some db ∧
      (extractall (pack fl m db config)).get configArcname = config := by
  cases config with
  | none => exact ⟨rfl, rfl, rfl⟩
  | some data => exact ⟨rfl, rfl, rfl⟩

variable {sha256 settings force fs}

theorem unpack_pack {m : Manifest} {db : Bytes} (config : Option Bytes)
    (hm : List.lookup "db_sha256" m.reverse = some (.text (sha256 db)))
    (hfree : force = true ∨ fs.get settings.dbPath = none) :
    unpack sha256 fl (.members (pack fl m db config)) settings force fs =
      .ok ⟨dict m.items, db, config⟩ := by
  have hguard : ¬ ((fs.get settings.dbPath).isSome ∧ force = false) := by
    rintro ⟨hsome, hforce⟩
    obtain htrue | hnone := hfree
    · rw [htrue] at hforce
      cases hforce
    · rw [hnone] at hsome
      cases hsome
  obtain ⟨hmanifest, hdb, hconfig⟩ := get_extractall_pack fl m db config
  have hsha : matchesDigest (dict (m.items (F := F))) "db_sha256" (sha256 db) = true :=
    (matchesDigest_items hm _).trans (decide_eq_true rfl)
  unfold unpack
  rw [if_neg (fun h => by cases h), if_neg hguard]
  simp only [Archive.getmembers, bind, Except.bind, safeMembers_pack, hmanifest, hdb, hconfig,
    orRaise, readText_writeText, Option.bind_some, Manifest.loads_dumps, dictItems, hsha, if_true]

end Backup

end InferenceEngine
