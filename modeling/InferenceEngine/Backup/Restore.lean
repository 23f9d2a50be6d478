import InferenceEngine.Backup.Archive

/-!
# Backup.Restore

What a restore leaves at its destination.

* `raises_unchanged_iff`: a restore that raises has left the database and the config file alone,
  unless the config file is all that is wrong with the archive.
* `restores_iff`: what a backup and a restore bring back, in terms of what lay at the destination:
  the log and the journal of another database are not removed, and the next connection applies them.
-/

namespace InferenceEngine

namespace Backup

open Json

variable {F : Type}

/-! ## A restore that raises -/

section

variable {sha256 : Bytes → String} {fl : Floats F} {writable : Path → Bool} {archive : Archive}
  {settings : Settings} {force : Bool} {configOut : Option Path} {fs : Files}

/-- A call that raises has written nothing, or the database only. -/
theorem restoreBackup_raises {exc : Exc}
    (h : (restoreBackup sha256 fl writable archive settings force configOut fs).1 = .error exc) :
    (restoreBackup sha256 fl writable archive settings force configOut fs).2 = fs ∨
      ∃ u config, unpack sha256 fl archive settings force fs = .ok u ∧
      fs.Writable writable settings.dbPath ∧
        u.config = some config ∧
        (restoreBackup sha256 fl writable archive settings force configOut fs).2 =
          fs.set settings.dbPath (.file u.db) ∧
        (exc = .osError (settings.target configOut) ∨
          matchesDigest u.manifest "config_sha256" (sha256 config) = false) := by
  unfold restoreBackup at h ⊢
  cases hunpack : unpack sha256 fl archive settings force fs with
  | error exc => exact .inl rfl
  | ok u =>
    simp only [hunpack, Files.writeBytes] at h ⊢
    by_cases hdb : fs.Writable writable settings.dbPath
    · simp only [if_pos hdb] at h ⊢
      cases hconfig : u.config with
      | none =>
        rw [hconfig] at h
        cases h
      | some config =>
        simp only [hconfig] at h ⊢
        refine .inr ⟨u, config, rfl, hdb, hconfig, ?_⟩
        by_cases hsha : matchesDigest u.manifest "config_sha256" (sha256 config) = false
        · rw [if_pos hsha]
          exact ⟨rfl, .inr hsha⟩
        · simp only [if_neg hsha] at h ⊢
          by_cases htarget : Files.Writable writable (fs.set settings.dbPath (.file u.db))
              (settings.target configOut)
          · rw [if_pos htarget] at h
            cases h
          · rw [if_neg htarget] at h ⊢
            cases h
            exact ⟨rfl, .inl rfl⟩
    · rw [if_neg hdb]
      exact .inl rfl

/-- The checksum of the config file is looked at when the database has been replaced. -/
theorem restoreBackup_mismatch {m : List (Text × Value F)} {db data : Bytes}
    (hunpack : unpack sha256 fl archive settings force fs = .ok ⟨m, db, some data⟩)
    (hdb : fs.Writable writable settings.dbPath)
    (hsha : matchesDigest m "config_sha256" (sha256 data) = false) :
    restoreBackup sha256 fl writable archive settings force configOut fs =
      (.error .configMismatch, fs.set settings.dbPath (.file db)) := by
  unfold restoreBackup
  simp only [hunpack, Files.writeBytes, if_pos hdb, hsha, if_true]

end

section

variable (sha256 : Bytes → String) (fl : Floats F) (writable : Path → Bool) (archive : Archive)
  (settings : Settings) (force : Bool) (configOut : Option Path) (fs : Files)

/-- Nothing but the config file of the archive is damaged, and its database is not the one at the
destination. -/
def OnlyConfigDamaged : Prop :=
  ∃ u config, unpack sha256 fl archive settings force fs = .ok u ∧
    fs.Writable writable settings.dbPath ∧
    u.config = some config ∧ matchesDigest u.manifest "config_sha256" (sha256 config) = false ∧
    fs.get settings.dbPath ≠ some (.file u.db)

/-- A restore that raises, other than for the operating system, leaves the database and the config
file as they were, but for archives of which only the config file is damaged. -/
theorem raises_unchanged_iff :
    (∀ exc, (restoreBackup sha256 fl writable archive settings force configOut fs).1 = .error exc →
        (∀ p, exc ≠ .osError p) → ∀ p ∈ [settings.dbPath, settings.target configOut],
          (restoreBackup sha256 fl writable archive settings force configOut fs).2.get p =
          fs.get p) ↔
      ¬ OnlyConfigDamaged sha256 fl writable archive settings force fs := by
  constructor
  · rintro hkept ⟨⟨m, db, _⟩, config, hunpack, hdb, rfl, hsha, hne⟩
    have hrun : restoreBackup sha256 fl writable archive settings force configOut fs = _ :=
      restoreBackup_mismatch hunpack hdb hsha
    have hget := hkept .configMismatch (by rw [hrun]) (fun p h => by cases h) settings.dbPath
      (List.mem_cons_self ..)
    rw [hrun, Dict.get_set, if_pos rfl] at hget
    exact hne hget.symm
  · intro hok exc hexc hos p hp
    obtain hfs | ⟨u, config, hunpack, hdb, hconfig, hfs, hraise⟩ := restoreBackup_raises hexc
    · rw [hfs]
    · have hsha := hraise.resolve_left (hos _)
      -- the archive's database is the one that was there
      have hsame : fs.get settings.dbPath = some (.file u.db) := by
        by_contra hne
        exact hok ⟨u, config, hunpack, hdb, hconfig, hsha, hne⟩
      rw [hfs, Dict.get_set]
      split
      · rename_i heq
        rw [heq, hsame]
      · rfl

/-- The checksums of four files of one byte. -/
def knownSha256 (data : Bytes) : String :=
  if data = [0x01] then "4bf5122f344554c53bde2ebb8cd2b7e3d1600ad631c385a5d7cce23c7785459a"
  else if data = [0x05] then "e77b9a9ae9e30b0dbdb6f510a264ef9de781501d7b6b92ae89eb059c5ab743db"
  else if data = [0x61] then "ca978112ca1bbdcafac231b39a23dc4da786eff8147c4e72b9807785afee48bb"
  else if data = [0x62] then "3e23e8160039594a33894f6564e1b1348bbd7a0088d42c4acb73eeaed59c009d"
  else ""

def site : Settings := ⟨⟨"/data", "inference_engine.db"⟩, some ⟨"/data", "config.toml"⟩⟩

/-- A backup whose config file was damaged: the call raises, and the database has been replaced. -/
theorem damaged_config_replaces_database :
    restoreBackup knownSha256 Floats.exact (fun _ => true)
        (.members (pack Floats.exact
          (manifestOf "0.1.1" "2026-01-01T00:00:00Z" (knownSha256 [0x01])
          (some (knownSha256 [0x61])))
          [0x01] (some [0x62]))) site true none [(site.dbPath, .file [0x02])] =
      (.error .configMismatch, [(site.dbPath, .file [0x01])]) := by
  have hsha := (matchesDigest_items (F := ExactFloat)
    (lookup_configSha256 "0.1.1" "2026-01-01T00:00:00Z" (knownSha256 [0x01]) (knownSha256 [0x61]))
    (knownSha256 [0x62])).trans (decide_eq_false (by decide))
  have hdb := lookup_dbSha256 "0.1.1" "2026-01-01T00:00:00Z" (knownSha256 [0x01])
      (some (knownSha256 [0x61]))
  exact restoreBackup_mismatch (unpack_pack Floats.exact (some [0x62]) hdb (.inl rfl))
    (by decide) hsha

end

/-! ## A backup and its restore -/

theorem Files.content_set (fs : Files) (p q : Path) (data : Bytes) :
    Files.content (fs.set p (.file data)) q = if q = p then some data else fs.content q := by
  unfold Files.content
  rw [Dict.get_set]
  by_cases hq : q = p
  · rw [if_pos hq, if_pos hq]
  · rw [if_neg hq, if_neg hq]

theorem Files.writable_set {writable : Path → Bool} {fs : Files} {q : Path} (p : Path)
    (data : Bytes) (h : fs.Writable writable q) :
    Files.Writable writable (fs.set p (.file data)) q := by
  refine ⟨?_, h.2⟩
  rw [Dict.get_set]
  split
  · exact fun heq => by cases heq
  · exact h.1

theorem Path.beside_ne (p : Path) {suffix : String} (hsuffix : 0 < suffix.length) :
    p.beside suffix ≠ p := by
  intro h
  have hname : p.name ++ suffix = p.name := congrArg Path.name h
  have hlen := congrArg String.length hname
  rw [String.length_append] at hlen
  omega

theorem Path.wal_ne_journal (p : Path) : p.wal ≠ p.journal := by
  intro h
  have hname : p.name ++ "-wal" = p.name ++ "-journal" := congrArg Path.name h
  have hlen := congrArg String.length hname
  rw [String.length_append, String.length_append] at hlen
  exact absurd (Nat.add_left_cancel hlen) (by decide)

/-- The files at the destination once both have been written. -/
def restored (dst : Settings) (configOut : Option Path) (found : Files) (db : Bytes)
    (config : Option Bytes) :
    Files :=
  let fs := found.set dst.dbPath (.file db)
  match config with
  | none => fs
  | some data => fs.set (dst.target configOut) (.file data)

theorem restoreBackup_ok {sha256 : Bytes → String} {fl : Floats F} {writable : Path → Bool}
    {archive : Archive} {dst : Settings} {force : Bool} {configOut : Option Path} {found : Files}
      {m : List (Text × Value F)} {db : Bytes} {config : Option Bytes}
      (hunpack : unpack sha256 fl archive dst force found = .ok ⟨m, db, config⟩) (hsha : ∀ data,
      config = some data → matchesDigest m "config_sha256" (sha256 data) = true)
    (hdb : found.Writable writable dst.dbPath)
      (htarget : found.Writable writable (dst.target configOut)) :
    restoreBackup sha256 fl writable archive dst force configOut found =
      (.ok ⟨dst.dbPath, config.map fun _ => dst.target configOut, m⟩,
        restored dst configOut found db config) := by
  unfold restoreBackup restored
  simp only [hunpack, Files.writeBytes, if_pos hdb]
  cases config with
  | none => rfl
  | some data =>
    have hwrite := Files.writable_set dst.dbPath db htarget
    simp only [hsha data rfl, Bool.true_eq_false, if_false, if_pos hwrite, Option.map_some]

section

variable {S : Type} (sq : Sqlite S) (sha256 : Bytes → String) (fl : Floats F)
  (version createdAt : String)
  (src : Settings) (origin : Files) (writable : Path → Bool) (dst : Settings)
    (configOut : Option Path)
  (found : Files) (s : S)

/-- The backup made of `origin` is restored over what is found at the destination. A connection then
sees the state `s`, and the config file has the bytes it had. -/
def Restores : Prop :=
  ∃ ms result fs, createBackup sq sha256 fl version createdAt src origin = .ok ms ∧
    restoreBackup sha256 fl writable (.members ms) dst true configOut found = (.ok result, fs) ∧
    sq.connect fs dst.dbPath = some s ∧
    ∀ data, src.config origin = some data →
      result.configPath = some (dst.target configOut) ∧
        fs.content (dst.target configOut) = some data

variable {sq sha256 fl version createdAt src origin writable dst configOut found s}

/-- The manifest of a backup of the state `s`. -/
def manifestFor (sq : Sqlite S) (sha256 : Bytes → String) (version createdAt : String)
    (src : Settings) (origin : Files) (s : S) : Manifest :=
  manifestOf version createdAt (sha256 (sq.backup s)) ((src.config origin).map sha256)

theorem createBackup_ok (hs : sq.connect origin src.dbPath = some s) :
    createBackup sq sha256 fl version createdAt src origin =
      .ok (pack fl (manifestFor sq sha256 version createdAt src origin s) (sq.backup s)
        (src.config origin)) := by
  have hfile : (origin.content src.dbPath).isNone = false := by
    unfold Sqlite.connect at hs
    cases hcontent : origin.content src.dbPath with
    | none =>
      rw [hcontent] at hs
      cases hs
    | some file => rfl
  have hcopy : consistentDbCopy sq origin src.dbPath = some (sq.backup s) := by
    rw [consistentDbCopy, hs, Option.map_some]
  unfold createBackup manifestFor
  simp only [hfile, Bool.false_eq_true, if_false, hcopy]

theorem restoreBackup_pack (hdb : found.Writable writable dst.dbPath)
    (htarget : found.Writable writable (dst.target configOut)) :
    restoreBackup sha256 fl writable
        (.members (pack fl (manifestFor sq sha256 version createdAt src origin s) (sq.backup s)
          (src.config origin))) dst true configOut found =
      (.ok ⟨dst.dbPath, (src.config origin).map fun _ => dst.target configOut,
        dict (manifestFor sq sha256 version createdAt src origin s).items⟩,
        restored dst configOut found (sq.backup s) (src.config origin)) := by
  have hunpack : unpack sha256 fl
      (.members (pack fl (manifestFor sq sha256 version createdAt src origin s) (sq.backup s)
        (src.config origin))) dst true found =
        .ok ⟨dict (manifestFor sq sha256 version createdAt src origin s).items, sq.backup s,
          src.config origin⟩ :=
    unpack_pack fl (src.config origin) (lookup_dbSha256 ..) (.inl rfl)
  refine restoreBackup_ok hunpack (fun data hconfig => ?_) hdb htarget
  have hheld : List.lookup "config_sha256"
      (manifestFor sq sha256 version createdAt src origin s).reverse =
      some (.text (sha256 data)) := by
    unfold manifestFor
    rewrite [hconfig]
    exact lookup_configSha256 version createdAt (sha256 (sq.backup s)) (sha256 data)
  exact (matchesDigest_items hheld (sha256 data)).trans (decide_eq_true rfl)

/-- The two are put together; whether the backup is restored is then a matter of the files. -/
theorem restores_iff_connect (hs : sq.connect origin src.dbPath = some s)
    (hdb : found.Writable writable dst.dbPath)
      (htarget : found.Writable writable (dst.target configOut)) :
    Restores sq sha256 fl version createdAt src origin writable dst configOut found s ↔
      sq.connect (restored dst configOut found (sq.backup s)
      (src.config origin)) dst.dbPath = some s := by
  have hback := @restoreBackup_pack F S sq sha256 fl version createdAt src origin writable dst
    configOut found s hdb htarget
  constructor
  · rintro ⟨ms, result, fs, hcreate, hrestore, hconnect, -⟩
    rw [createBackup_ok hs] at hcreate
    cases hcreate
    rw [hback] at hrestore
    cases hrestore
    exact hconnect
  · intro hconnect
    refine ⟨_, _, _, createBackup_ok hs, hback, hconnect, fun data hdata => ⟨?_, ?_⟩⟩
    · simp only [hdata, Option.map_some]
    · unfold restored
      rw [hdata]
      exact (Files.content_set ..).trans (if_pos rfl)

/-- No valid log lies there, or one that gives the state back. -/
def NoReplay (sq : Sqlite S) (log : Option Bytes) (s : S) : Prop :=
  ∀ wal, log = some wal → ∀ s', sq.replay wal s = some s' → s' = s

/-- The copy that the backup API has written holds `s`; a log may hold more. -/
theorem logged_backup_iff (log : Option Bytes) :
    sq.logged (sq.backup s) log = some s ↔ NoReplay sq log s := by
  unfold Sqlite.logged NoReplay
  rw [sq.load_backup, Option.map_some, Option.some.injEq]
  cases log with
  | none => exact ⟨fun _ wal h => (by cases h), fun _ => rfl⟩
  | some wal =>
    rw [Option.bind_some]
    cases hreplay : sq.replay wal s with
    | none =>
      refine ⟨fun _ wal' hwal s' hs' => ?_, fun _ => rfl⟩
      cases hwal
      rw [hreplay] at hs'
      cases hs'
    | some t =>
      refine ⟨fun ht wal' hwal s' hs' => ?_, fun h => h wal rfl t hreplay⟩
      cases hwal
      rw [hreplay] at hs'
      cases hs'
      exact ht

/-- No hot journal and no valid log lies there, or what they make of the copy gives the state
back. -/
def Harmless (sq : Sqlite S) (journal log : Option Bytes) (s : S) : Prop :=
  match journal.bind fun j => sq.rollback j (sq.backup s) with
  | none => NoReplay sq log s
  | some file => sq.logged file log = some s

theorem opened_backup_iff (journal log : Option Bytes) :
    sq.opened (sq.backup s) journal log = some s ↔ Harmless sq journal log s := by
  unfold Sqlite.opened Harmless
  cases journal.bind fun j => sq.rollback j (sq.backup s) with
  | none => exact logged_backup_iff log
  | some file => exact Iff.rfl

/-- What is beside the database at the destination does not change it. Should the config file be
restored to the path of the database, of its journal or of its log, then it is read in its place. -/
def Undisturbed (sq : Sqlite S) (dst : Settings) (configOut : Option Path) (found : Files)
    (config : Option Bytes) (s : S) : Prop :=
  let journal := found.content dst.dbPath.journal
  let wal := found.content dst.dbPath.wal
  match config with
  | none => Harmless sq journal wal s
  | some data =>
    if dst.target configOut = dst.dbPath then sq.opened data journal wal = some s
    else if dst.target configOut = dst.dbPath.journal then Harmless sq (some data) wal s
    else if dst.target configOut = dst.dbPath.wal then Harmless sq journal (some data) s
    else Harmless sq journal wal s

theorem connect_restored_iff (config : Option Bytes) :
    sq.connect (restored dst configOut found (sq.backup s) config) dst.dbPath = some s ↔
      Undisturbed sq dst configOut found config s := by
  have hwal : dst.dbPath.wal ≠ dst.dbPath := dst.dbPath.beside_ne (by decide)
  have hjournal : dst.dbPath.journal ≠ dst.dbPath := dst.dbPath.beside_ne (by decide)
  have hapart := dst.dbPath.wal_ne_journal
  unfold Sqlite.connect restored Undisturbed
  cases config with
  | none =>
    simp only [Files.content_set, if_true, if_neg hwal, if_neg hjournal, Option.bind_some]
    exact opened_backup_iff _ _
  | some data =>
    simp only [Files.content_set, if_true, if_neg hwal, if_neg hjournal]
    by_cases hpath : dst.target configOut = dst.dbPath
    · simp only [hpath, if_true, if_neg hwal, if_neg hjournal, Option.bind_some]
    · rw [if_neg (fun h => hpath h.symm), if_neg hpath, Option.bind_some]
      by_cases hback : dst.target configOut = dst.dbPath.journal
      · rw [if_pos hback.symm, if_pos hback, if_neg (fun h => hapart (h.trans hback))]
        exact opened_backup_iff _ _
      · rw [if_neg (fun h => hback h.symm), if_neg hback]
        by_cases hlog : dst.target configOut = dst.dbPath.wal
        · rw [if_pos hlog.symm, if_pos hlog]
          exact opened_backup_iff _ _
        · rw [if_neg (fun h => hlog h.symm), if_neg hlog]
          exact opened_backup_iff _ _

/-- A backup of a database in the state `s`, its latest commits in the log or not, brings back `s`
and the config file exactly when nothing that is found beside the destination is rolled back or
replayed over it. -/
theorem restores_iff (hs : sq.connect origin src.dbPath = some s)
    (hdb : found.Writable writable dst.dbPath)
      (htarget : found.Writable writable (dst.target configOut)) :
    Restores sq sha256 fl version createdAt src origin writable dst configOut found s ↔
      Undisturbed sq dst configOut found (src.config origin) s := by
  rw [restores_iff_connect hs hdb htarget]
  exact connect_restored_iff (src.config origin)

end

/-- The frames of a log, or of a journal: the number of a page and the page, a byte each. -/
def replayFrames : Bytes → Bytes → Bytes
  | n :: page :: frames, pages => replayFrames frames (pages.set n.toNat page)
  | _, pages => pages

/-- A database of pages of one byte. A valid log starts with the first bytes of SQLite's magic
number, and so does a hot journal; the number of pages that there were is next in it. -/
def pageStore : Sqlite Bytes where
  load := some
  rollback journal file :=
    match journal with
    | 0xd9 :: 0xd5 :: pages :: frames => some (replayFrames frames (file.take pages.toNat))
    | _ => none
  replay wal pages :=
    match wal with
    | 0x37 :: 0x7f :: frames => some (replayFrames frames pages)
    | _ => none
  backup := id
  load_backup _ := rfl

/-- The latest commit of the engine is in its log; beside the destination lie a log that was cut off
and a journal whose header was zeroed when its transaction was committed. -/
theorem restores_iff_tornLog :
    pageStore.connect [(site.dbPath, .file [0x01]),
      (site.dbPath.wal, .file [0x37, 0x7f, 0x00, 0x05]),
        (⟨"/data", "config.toml"⟩, .file [0x61])] site.dbPath = some [0x05] ∧
      Restores pageStore knownSha256 Floats.exact "0.1.1" "2026-01-01T00:00:00Z" site
        [(site.dbPath, .file [0x01]), (site.dbPath.wal, .file [0x37, 0x7f, 0x00, 0x05]),
          (⟨"/data", "config.toml"⟩, .file [0x61])] (fun _ => true) site none
        [(site.dbPath, .file [0x02]), (site.dbPath.wal, .file [0x37]),
          (site.dbPath.journal, .file [0x00, 0x00, 0x01])] [0x05] := by
  have hstate : pageStore.connect [(site.dbPath, .file [0x01]),
      (site.dbPath.wal, .file [0x37, 0x7f, 0x00, 0x05]), (⟨"/data", "config.toml"⟩, .file [0x61])]
        site.dbPath = some [0x05] := by decide
  refine ⟨hstate, (restores_iff hstate (by decide) (by decide)).mpr ?_⟩
  intro wal hwal s' hs'
  cases hwal
  cases hs'

/-- An engine has crashed at the destination: its log is replayed over the restored database. -/
theorem leftover_log_replayed :
    pageStore.connect [(site.dbPath, .file [0x01]),
      (⟨"/data", "config.toml"⟩, .file [0x61])] site.dbPath =
        some [0x01] ∧
      ¬ Restores pageStore knownSha256 Floats.exact "0.1.1" "2026-01-01T00:00:00Z" site
        [(site.dbPath, .file [0x01]), (⟨"/data", "config.toml"⟩, .file [0x61])]
        (fun _ => true) site none
        [(site.dbPath, .file [0x02]),
        (site.dbPath.wal, .file [0x37, 0x7f, 0x00, 0x03])] [0x01] := by
  have hstate : pageStore.connect [(site.dbPath, .file [0x01]),
      (⟨"/data", "config.toml"⟩, .file [0x61])]
      site.dbPath = some [0x01] := by decide
  refine ⟨hstate, fun h => ?_⟩
  have hconnect := (restores_iff_connect hstate (by decide) (by decide)).mp h
  exact absurd hconnect (by decide)

end Backup

end InferenceEngine
