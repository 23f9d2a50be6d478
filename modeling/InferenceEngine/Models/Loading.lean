import InferenceEngine.Models.Service

/-!
# Models.Loading

Which model is loaded. There are three answers: the backend (`app.state.backend`), the `active` flag
of the rows, and `_is_loaded`, which wants the flag, a loaded backend and the name of the row in the
backend. The routes and the startup each write some of them. Here every call ends before the next
one begins.

`Kept` says that the answers agree on the row whose file the backend serves, and `mayCall` of each
call when they still do after it; `loaded_agrees_iff` puts the two together for whole runs.
-/

namespace InferenceEngine

structure Model extends ModelRecord where
  name : String
  active : Bool
  deriving DecidableEq

namespace Loading

open Lts

structure Backend where
  modelId : String
  /-- the model file; a remote backend has none -/
  path : Option String
  loaded : Bool
  deriving DecidableEq

structure Settings where
  modelPath : Option String
  modelId : String
  /-- `remote_model`, when `backend_kind` is a remote one -/
  remoteModel : Option String
  /-- the names of the virtual models -/
  virtualModelNames : List String

structure St where
  rows : List Model
  backend : Option Backend

inductive Label where
  | load (id : String) (loads : Bool)
  /-- `backend.unload()` may raise, and leaves an unloaded backend -/
  | unload (id : String) (raises : Bool)
  /-- `/admin/model/load` -/
  | modelLoad (builds loads : Bool)
  /-- `/admin/model/unload` -/
  | modelUnload
  | delete (id : String) (deleted : Bool)
  /-- the process ends, and another one starts; `id` is for a row that is registered -/
  | restart (id : String) (isFile loads : Bool)
  /-- a file has been imported, or is being downloaded -/
  | add (record : ModelRecord) (name : String)
  /-- a download ends -/
  | ends (id : String) (status : ModelStatus)

inductive DeleteOutcome where
  | notFound
  | modelLoaded
  | allowed
  deriving DecidableEq

/-! ## The registry -/

def setActive (rows : List Model) (id : String) : List Model :=
  rows.map fun r => { r with active := decide (r.id = id) }

def clearActive (rows : List Model) : List Model := rows.map fun r => { r with active := false }

/-- `registry.update` with a status. -/
def setStatus (rows : List Model) (id : String) (status : ModelStatus) : List Model :=
  rows.map fun r => if r.id = id then { r with status } else r

def findByPath (rows : List Model) (path : String) : Option Model := rows.find? (·.path = path)

/-- `register_configured`. -/
def registerConfigured (rows : List Model) (id path name : String) : List Model :=
  match findByPath rows path with
  | some _ => rows
  | none => setActive (rows ++
    [{ id, path, sourceType := .importFile, status := .ready, name, active := false }]) id

/-! ## The routes -/

/-- `build_backend(settings)`: not when no model is configured. -/
def Settings.buildBackend (c : Settings) : Option Backend :=
  match c.remoteModel, c.modelPath with
  | some model, _ => some ⟨model, none, false⟩
  | none, some path => some ⟨c.modelId, some path, false⟩
  | none, none => none

/-- The checks of `load_model`. -/
def Settings.mayLoad (c : Settings) (record : Model) : Bool :=
  decide (record.status = .ready) && decide (record.name ∉ c.virtualModelNames)

namespace St

def get? (s : St) (id : String) : Option Model := s.rows.find? (·.id = id)

/-- `_is_loaded`. -/
def isLoaded (s : St) (record : Model) : Bool :=
  match s.backend with
  | some backend => record.active && backend.loaded && decide (backend.modelId = record.name)
  | none => false

/-- `load_model`. The backend before is unloaded after this one is in its place. -/
def load (c : Settings) (s : St) (id : String) (loads : Bool) : St :=
  match s.get? id with
  | some record =>
    if c.mayLoad record ∧ loads then
      ⟨setActive s.rows id, some ⟨record.name, some record.path, true⟩⟩
    else s
  | none => s

/-- `unload_model`. -/
def unload (s : St) (id : String) (raises : Bool) : St :=
  match s.get? id with
  | some record =>
    if s.isLoaded record then
      if raises then { s with backend := s.backend.map fun b => { b with loaded := false } }
      else ⟨clearActive s.rows, none⟩
    else { s with rows := clearActive s.rows }
  | none => s

/-- The backend that `model_load` loads: the one there is, or a new one. -/
def toLoad (c : Settings) (s : St) (builds : Bool) : Option Backend :=
  match s.backend, c.modelPath with
  | some backend, some _ => if backend.loaded then none else some backend
  | none, some _ => if builds then c.buildBackend else none
  | _, none => none

def modelLoad (c : Settings) (s : St) (builds loads : Bool) : St :=
  match s.toLoad c builds with
  | some backend => { s with backend := some { backend with loaded := loads } }
  | none => s

def modelUnload (s : St) : St :=
  { s with backend := s.backend.map fun b => { b with loaded := false } }

def deleteOutcome (s : St) (id : String) : DeleteOutcome :=
  match s.get? id with
  | none => .notFound
  | some record => if s.isLoaded record then .modelLoaded else .allowed

/-- The service may still refuse, or fail. -/
def delete (s : St) (id : String) (deleted : Bool) : St :=
  if s.deleteOutcome id = .allowed ∧ deleted then { s with rows := s.rows.filter (·.id ≠ id) }
    else s

/-- The rows after the startup has registered the configured model. -/
def registered (c : Settings) (s : St) (id : String) (isFile : Bool) : List Model :=
  match c.modelPath with
  | some path => if isFile then registerConfigured s.rows id path c.modelId else s.rows
  | none => s.rows

def restart (c : Settings) (s : St) (id : String) (isFile loads : Bool) : St where
  rows := s.registered c id isFile
  backend := if loads then c.buildBackend.map fun b => { b with loaded := true } else none

end St

/-- The ids are new. -/
def step (c : Settings) (s : St) : Label → Option St
  | .load id loads => some (s.load c id loads)
  | .unload id raises => some (s.unload id raises)
  | .modelLoad builds loads => some (s.modelLoad c builds loads)
  | .modelUnload => some s.modelUnload
  | .delete id deleted => some (s.delete id deleted)
  | .restart id isFile loads =>
    if id ∈ s.rows.map (·.id) then none else some (s.restart c id isFile loads)
  | .add record name =>
    if record.id ∈ s.rows.map (·.id) then none
    else some { s with rows := s.rows ++ [{ record with name, active := false }] }
  | .ends id status => some { s with rows := setStatus s.rows id status }

/-! ## What the answers are worth -/

section Agreement

variable {c : Settings} {file : String → String} {s s' : St} {id : String}

/-- The backend serves the file of the row; `file` says which file a path leads to. -/
def Serves (file : String → String) (s : St) (m : Model) : Prop :=
  ∃ backend path, s.backend = some backend ∧ backend.loaded = true ∧ backend.path = some path ∧
    file path = file m.path

/-- The row is the active one. -/
def SoleActive (rows : List Model) (m : Model) : Prop := ∀ r ∈ rows, r.active = true ↔ r.id = m.id

/-- The row that is served is the active one, and is not deleted. -/
def Kept (file : String → String) (s : St) : Prop :=
  ∀ m ∈ s.rows, Serves file s m → SoleActive s.rows m ∧ s.deleteOutcome m.id = .modelLoaded

/-- An unload of another row than the one that is served changes neither the backend nor the
flag. -/
def Untouched (file : String → String) (s : St) (l : Label) (s' : St) : Prop :=
  ∀ id raises, l = .unload id raises → ∀ m ∈ s.rows, Serves file s m → m.id ≠ id →
    s'.backend = s.backend ∧ m ∈ s'.rows

/-- A backend with this file and this name agrees with the rows. -/
def Agrees (file : String → String) (rows : List Model) (path name : String) : Prop :=
  ∀ m ∈ rows, file path = file m.path → SoleActive rows m ∧ m.name = name

/-- When a call leaves the answers in agreement. -/
def mayCall (c : Settings) (file : String → String) (s : St) : Label → Prop
  -- no other row has the file
  | .load id loads => loads = true → ∀ record, s.get? id = some record → c.mayLoad record = true →
      ∀ m ∈ s.rows, file record.path = file m.path → m.id = id
  -- nothing else is being served
  | .unload id _ => s.get? id ≠ none → ∀ m ∈ s.rows, Serves file s m → m.id = id
  -- the rows that have the file know
  | .modelLoad builds loads => loads = true → ∀ backend path, s.toLoad c builds = some backend →
      backend.path = some path → Agrees file s.rows path backend.modelId
  -- the same, unless a row is registered; then it is the first one with the file
  | .restart _ isFile loads =>
    loads = true → c.remoteModel = none → ∀ path, c.modelPath = some path →
      if isFile = true ∧ findByPath s.rows path = none then ∀ m ∈ s.rows, file path ≠ file m.path
      else Agrees file s.rows path c.modelId
  | .add record _ => ∀ backend path, s.backend = some backend → backend.loaded = true →
      backend.path = some path → file path ≠ file record.path
  | .modelUnload | .delete _ _ | .ends _ _ => True

/-- The ids of the rows. -/
def Keyed (s : St) : Prop := (s.rows.map (·.id)).Nodup

theorem mem_of_get? {record : Model} (h : s.get? id = some record) :
    record ∈ s.rows ∧ record.id = id := by
  unfold St.get? at h
  have hid := List.find?_some h
  exact ⟨List.mem_of_find?_eq_some h, of_decide_eq_true hid⟩

theorem get?_of_mem (hs : Keyed s) {m : Model} (hm : m ∈ s.rows) : s.get? m.id = some m := by
  cases h : s.get? m.id with
  | none =>
    have hne := List.find?_eq_none.mp h m hm
    exact absurd (decide_eq_true rfl) hne
  | some m' =>
    obtain ⟨hm', hid⟩ := mem_of_get? h
    exact congrArg some (List.inj_on_of_nodup_map hs hm' hm hid)

theorem kept_of_unloaded (h : ∀ backend, s.backend = some backend → backend.loaded = false) :
    Kept file s := by
  rintro m - ⟨backend, path, hbackend, hloaded, -⟩
  rw [h backend hbackend] at hloaded
  cases hloaded

theorem deleteOutcome_eq (hs : Keyed s) {m : Model} (hm : m ∈ s.rows) :
    s.deleteOutcome m.id = .modelLoaded ↔ s.isLoaded m = true := by
  unfold St.deleteOutcome
  rw [get?_of_mem hs hm]
  simp only
  split
  · exact ⟨fun _ => ‹_›, fun _ => rfl⟩
  · constructor
    · intro h
      cases h
    · exact fun h => absurd h ‹_›

theorem isLoaded_iff {backend : Backend} (hbackend : s.backend = some backend)
    (hloaded : backend.loaded = true) (m : Model) :
    s.isLoaded m = true ↔ m.active = true ∧ backend.modelId = m.name := by
  unfold St.isLoaded
  rw [hbackend]
  simp only [hloaded, Bool.and_true, Bool.and_eq_true, decide_eq_true_eq]

/-- What a loaded backend needs of the rows. -/
theorem kept_iff_agrees (hs : Keyed s) {backend : Backend} {path : String}
    (hbackend : s.backend = some backend) (hloaded : backend.loaded = true)
      (hpath : backend.path = some path) :
    Kept file s ↔ Agrees file s.rows path backend.modelId := by
  constructor
  · intro h m hm hfile
    obtain ⟨hactive, hrefused⟩ := h m hm ⟨backend, path, hbackend, hloaded, hpath, hfile⟩
    have hname := ((isLoaded_iff hbackend hloaded m).mp ((deleteOutcome_eq hs hm).mp hrefused)).2
    exact ⟨hactive, hname.symm⟩
  · rintro h m hm ⟨backend', path', hbackend', -, hpath', hfile⟩
    cases hbackend.symm.trans hbackend'
    cases hpath.symm.trans hpath'
    obtain ⟨hactive, hname⟩ := h m hm hfile
    refine ⟨hactive, (deleteOutcome_eq hs hm).mpr
      ((isLoaded_iff hbackend hloaded m).mpr ⟨?_, hname.symm⟩)⟩
    exact (hactive m hm).mpr rfl

theorem kept_of_remote {backend : Backend} (hbackend : s.backend = some backend)
    (hpath : backend.path = none) :
    Kept file s := by
  rintro m - ⟨backend', path, hbackend', -, hpath', -⟩
  cases hbackend.symm.trans hbackend'
  rw [hpath] at hpath'
  cases hpath'

/-! ## One call -/

theorem map_ids {f : Model → Model} (h : ∀ r, (f r).id = r.id) (rows : List Model) :
    (rows.map f).map (·.id) = rows.map (·.id) := by
  rw [List.map_map]
  exact List.map_congr_left fun r _ => h r

theorem setActive_ids (rows : List Model) (id : String) :
    (setActive rows id).map (·.id) = rows.map (·.id) := by
  refine map_ids (f := fun r => { r with active := decide (r.id = id) }) ?_ rows
  exact fun _ => rfl

theorem clearActive_ids (rows : List Model) : (clearActive rows).map (·.id) = rows.map (·.id) := by
  refine map_ids (f := fun r => { r with active := false }) ?_ rows
  exact fun _ => rfl

theorem setActive_iff (rows : List Model) (id : String) :
    ∀ r ∈ setActive rows id, r.active = true ↔ r.id = id := by
  intro r hr
  obtain ⟨r₀, -, rfl⟩ := List.mem_map.mp hr
  exact decide_eq_true_iff

theorem agrees_setActive {rows : List Model} (hkeyed : (rows.map (·.id)).Nodup) {record : Model}
    (hrecord : record ∈ rows) {path : String} :
    Agrees file (setActive rows record.id) path record.name ↔
      ∀ m ∈ rows, file path = file m.path → m.id = record.id := by
  constructor
  · intro h m hm hfile
    have hmem : ∀ r ∈ rows,
        { r with active := decide (r.id = record.id) } ∈ setActive rows record.id :=
      fun r hr => List.mem_map.mpr ⟨r, hr, rfl⟩
    obtain ⟨hsole, -⟩ := h _ (hmem m hm) hfile
    exact ((hsole _ (hmem record hrecord)).mp (decide_eq_true rfl)).symm
  · intro h m hm hfile
    obtain ⟨m₀, hm₀, rfl⟩ := List.mem_map.mp hm
    have hid : m₀.id = record.id := h m₀ hm₀ hfile
    have heq : m₀ = record := List.inj_on_of_nodup_map hkeyed hm₀ hrecord hid
    refine ⟨fun r hr => ?_, ?_⟩
    · rw [setActive_iff rows record.id r hr, ← hid]
    · show m₀.name = record.name
      rw [heq]

theorem load_kept (hs : Keyed s) (hk : Kept file s) (loads : Bool) :
    Kept file (s.load c id loads) ↔ mayCall c file s (.load id loads) := by
  simp only [St.load, mayCall]
  cases hget : s.get? id with
  | none => exact ⟨fun _ _ _ h => (by cases h), fun _ => hk⟩
  | some record =>
    obtain ⟨hmem, rfl⟩ := mem_of_get? hget
    simp only
    by_cases hmay : c.mayLoad record = true ∧ loads = true
    · rw [if_pos hmay]
      have hkeyed : Keyed ⟨setActive s.rows record.id,
          some ⟨record.name, some record.path, true⟩⟩ := by
        unfold Keyed
        rw [setActive_ids]
        exact hs
      rw [kept_iff_agrees hkeyed rfl rfl rfl, agrees_setActive hs hmem]
      constructor
      · intro h _ record' hrecord' _
        cases hrecord'
        exact h
      · exact fun h => h hmay.2 record rfl hmay.1
    · rw [if_neg hmay]
      refine ⟨fun _ hloads record' hrecord' hmay' => ?_, fun _ => hk⟩
      cases hrecord'
      exact absurd ⟨hmay', hloads⟩ hmay

theorem unload_kept (hs : Keyed s) (hk : Kept file s) (raises : Bool) :
    Kept file (s.unload id raises) ↔ mayCall c file s (.unload id raises) := by
  simp only [St.unload, mayCall]
  cases hget : s.get? id with
  | none => exact ⟨fun _ h => absurd rfl h, fun _ => hk⟩
  | some record =>
    obtain ⟨hmem, rfl⟩ := mem_of_get? hget
    simp only
    by_cases hloaded : s.isLoaded record = true
    · -- what is served is the active row, which is this one
      have hright : ∀ m ∈ s.rows, Serves file s m → m.id = record.id := by
        intro m hm hserves
        obtain ⟨backend, path, hbackend, hup, -⟩ := id hserves
        have hactive := ((isLoaded_iff hbackend hup record).mp hloaded).1
        exact (((hk m hm hserves).1 record hmem).mp hactive).symm
      rw [if_pos hloaded]
      refine ⟨fun _ _ => hright, fun _ => kept_of_unloaded ?_⟩
      split
      · intro backend hbackend
        obtain ⟨b, -, rfl⟩ := Option.map_eq_some_iff.mp hbackend
        rfl
      · intro backend hbackend
        cases hbackend
    · rw [if_neg hloaded]
      constructor
      · intro h _ m hm hserves
        have hm' : { m with active := false } ∈ clearActive s.rows := List.mem_map.mpr ⟨m, hm, rfl⟩
        have hsole := (h _ hm' hserves).1
        cases (hsole _ hm').mpr rfl
      · rintro h m hm hserves
        obtain ⟨m₀, hm₀, rfl⟩ := List.mem_map.mp hm
        have hid : m₀.id = record.id := h (fun h => by cases h) m₀ hm₀ hserves
        have heq : m₀ = record := List.inj_on_of_nodup_map hs hm₀ hmem hid
        have hrefused := (hk m₀ hm₀ hserves).2
        rw [deleteOutcome_eq hs hm₀, heq] at hrefused
        exact absurd hrefused hloaded

theorem modelLoad_kept (hs : Keyed s) (hk : Kept file s) (builds loads : Bool) :
    Kept file (s.modelLoad c builds loads) ↔ mayCall c file s (.modelLoad builds loads) := by
  simp only [St.modelLoad, mayCall]
  cases hload : s.toLoad c builds with
  | none => exact ⟨fun _ _ _ _ h => (by cases h), fun _ => hk⟩
  | some backend =>
    simp only
    cases loads with
    | false =>
      refine ⟨fun _ h => (by cases h), fun _ => kept_of_unloaded ?_⟩
      intro backend' hbackend'
      cases hbackend'
      rfl
    | true =>
      cases hpath : backend.path with
      | none =>
        refine ⟨fun _ _ backend' path' hbackend' hpath' => ?_, fun _ => kept_of_remote rfl rfl⟩
        cases hbackend'
        rw [hpath] at hpath'
        cases hpath'
      | some path =>
        rw [kept_iff_agrees (s := ⟨s.rows, some ⟨backend.modelId, some path, true⟩⟩) hs rfl rfl rfl]
        constructor
        · intro h _ backend' path' hbackend' hpath'
          cases hbackend'
          cases hpath.symm.trans hpath'
          exact h
        · exact fun h => h rfl backend path rfl hpath

theorem delete_kept (hs : Keyed s) (hk : Kept file s) (deleted : Bool) :
    Kept file (s.delete id deleted) := by
  unfold St.delete
  split
  · intro m hm hserves
    have hkeyed : Keyed { s with rows := s.rows.filter (·.id ≠ id) } :=
      List.Nodup.sublist (List.filter_sublist.map _) hs
    have hm₀ := (List.mem_filter.mp hm).1
    obtain ⟨hsole, hrefused⟩ := hk m hm₀ hserves
    refine ⟨fun r hr => hsole r (List.mem_filter.mp hr).1, (deleteOutcome_eq hkeyed hm).mpr ?_⟩
    exact (deleteOutcome_eq hs hm₀).mp hrefused
  · exact hk

theorem restart_keyed (hs : Keyed s) (hnew : id ∉ s.rows.map (·.id)) (isFile : Bool) :
    ((s.registered c id isFile).map (·.id)).Nodup := by
  unfold St.registered
  split
  · split
    · unfold registerConfigured
      split
      · exact hs
      · rw [setActive_ids, List.map_append]
        exact List.nodup_append'.mpr ⟨hs, List.nodup_singleton _, List.disjoint_singleton.mpr hnew⟩
    · exact hs
  · exact hs

theorem registered_agrees (hs : Keyed s) (hnew : id ∉ s.rows.map (·.id)) {path : String}
    (hpath : c.modelPath = some path) (isFile : Bool) :
    Agrees file (s.registered c id isFile) path c.modelId ↔
      if isFile = true ∧ findByPath s.rows path = none then ∀ m ∈ s.rows, file path ≠ file m.path
      else Agrees file s.rows path c.modelId := by
  simp only [St.registered, hpath]
  cases isFile with
  | false => rw [if_neg (fun h => by cases h), if_neg (fun h => by cases h.1)]
  | true =>
    simp only [if_true, true_and, registerConfigured]
    cases hfound : findByPath s.rows path with
    | some existing => rw [if_neg (fun h => by cases h)]
    | none =>
      rw [if_pos rfl]
      let row : Model :=
        { id, path, sourceType := .importFile, status := .ready, name := c.modelId, active := false }
      have hkeyed : ((s.rows ++ [row]).map (·.id)).Nodup := by
        rw [List.map_append]
        exact List.nodup_append'.mpr ⟨hs, List.nodup_singleton _, List.disjoint_singleton.mpr hnew⟩
      have hrow : row ∈ s.rows ++ [row] := List.mem_append_right _ (List.mem_singleton_self _)
      rw [agrees_setActive hkeyed hrow]
      constructor
      · intro h m hm hfile
        have hid : m.id = id := h m (List.mem_append_left _ hm) hfile
        exact hnew (hid ▸ List.mem_map.mpr ⟨m, hm, rfl⟩)
      · intro h m hm hfile
        rcases List.mem_append.mp hm with hm | hm
        · exact absurd hfile (h m hm)
        · rw [List.mem_singleton.mp hm]

theorem restart_kept (hs : Keyed s) (hnew : id ∉ s.rows.map (·.id)) (isFile loads : Bool) :
    Kept file (s.restart c id isFile loads) ↔ mayCall c file s (.restart id isFile loads) := by
  simp only [mayCall]
  cases loads with
  | false =>
    refine ⟨fun _ h => (by cases h), fun _ => kept_of_unloaded ?_⟩
    intro backend hbackend
    cases hbackend
  | true =>
    cases hremote : c.remoteModel with
    | some model =>
      refine ⟨fun _ _ h => (by cases h), fun _ => ?_⟩
      have hbackend : (s.restart c id isFile true).backend = some ⟨model, none, true⟩ := by
        simp only [St.restart, Settings.buildBackend, hremote, if_true, Option.map_some]
      exact kept_of_remote hbackend rfl
    | none =>
      cases hpath : c.modelPath with
      | none =>
        refine ⟨fun _ _ _ path h => (by cases h), fun _ => kept_of_unloaded ?_⟩
        intro backend hbackend
        simp only [St.restart, Settings.buildBackend, hremote, hpath, if_true,
          Option.map_none] at hbackend
        cases hbackend
      | some path =>
        have hbackend : (s.restart c id isFile true).backend = some ⟨c.modelId,
            some path, true⟩ := by
          simp only [St.restart, Settings.buildBackend, hremote, hpath, if_true, Option.map_some]
        have hkeyed : Keyed (s.restart c id isFile true) := restart_keyed hs hnew isFile
        rw [kept_iff_agrees hkeyed hbackend rfl rfl]
        refine (registered_agrees hs hnew hpath isFile).trans ?_
        constructor
        · intro h _ _ path' hpath'
          cases hpath'
          exact h
        · exact fun h => h rfl rfl path rfl

theorem add_kept (hs : Keyed s) (hk : Kept file s) {record : ModelRecord} (name : String)
    (hnew : record.id ∉ s.rows.map (·.id)) :
    Kept file { s with rows := s.rows ++ [{ record with name, active := false }] } ↔
      mayCall c file s (.add record name) := by
  simp only [mayCall]
  let row : Model := { record with name, active := false }
  have hkeyed : Keyed { s with rows := s.rows ++ [row] } := by
    unfold Keyed
    rw [List.map_append]
    exact List.nodup_append'.mpr ⟨hs, List.nodup_singleton _, List.disjoint_singleton.mpr hnew⟩
  have hrow : row ∈ s.rows ++ [row] := List.mem_append_right _ (List.mem_singleton_self _)
  constructor
  · -- the new row is not active
    intro h backend path hbackend hloaded hpath hfile
    have hsole := (h row hrow ⟨backend, path, hbackend, hloaded, hpath, hfile⟩).1
    cases (hsole row hrow).mpr rfl
  · intro h m hm hserves
    rcases List.mem_append.mp hm with hm' | hm'
    · obtain ⟨hsole, hrefused⟩ := hk m hm' hserves
      refine ⟨fun r hr => ?_,
        (deleteOutcome_eq hkeyed hm).mpr ((deleteOutcome_eq hs hm').mp hrefused)⟩
      rcases List.mem_append.mp hr with hr | hr
      · exact hsole r hr
      · rw [List.mem_singleton.mp hr]
        refine ⟨fun h => (by cases h),
          fun hid => absurd (hid ▸ List.mem_map.mpr ⟨m, hm', rfl⟩) hnew⟩
    · obtain ⟨backend, path, hbackend, hloaded, hpath, hfile⟩ := hserves
      rw [List.mem_singleton.mp hm'] at hfile
      exact absurd hfile (h backend path hbackend hloaded hpath)

theorem mem_setStatus {rows : List Model} {status : ModelStatus} {r : Model}
    (hr : r ∈ setStatus rows id status) :
    ∃ r₀ ∈ rows, r.id = r₀.id ∧ r.active = r₀.active ∧ r.name = r₀.name ∧ r.path = r₀.path := by
  obtain ⟨r₀, hr₀, rfl⟩ := List.mem_map.mp hr
  refine ⟨r₀, hr₀, ?_⟩
  split <;> exact ⟨rfl, rfl, rfl, rfl⟩

theorem setStatus_ids (rows : List Model) (id : String) (status : ModelStatus) :
    (setStatus rows id status).map (·.id) = rows.map (·.id) := by
  refine map_ids (f := fun r => if r.id = id then { r with status } else r) (fun r => ?_) rows
  split <;> rfl

theorem ends_kept (hs : Keyed s) (hk : Kept file s) (status : ModelStatus) :
    Kept file { s with rows := setStatus s.rows id status } := by
  have hkeyed : Keyed { s with rows := setStatus s.rows id status } := by
    unfold Keyed
    rw [setStatus_ids]
    exact hs
  rintro m hm ⟨backend, path, hbackend, hloaded, hpath, hfile⟩
  obtain ⟨m₀, hm₀, hid, hactive, hname, hplace⟩ := mem_setStatus hm
  rw [hplace] at hfile
  obtain ⟨hsole, hrefused⟩ := hk m₀ hm₀ ⟨backend, path, hbackend, hloaded, hpath, hfile⟩
  constructor
  · intro r hr
    obtain ⟨r₀, hr₀, hid', hactive', -, -⟩ := mem_setStatus hr
    rw [hid, hid', hactive']
    exact hsole r₀ hr₀
  · have hold : m₀.active = true ∧ backend.modelId = m₀.name :=
      (isLoaded_iff hbackend hloaded m₀).mp ((deleteOutcome_eq hs hm₀).mp hrefused)
    rw [deleteOutcome_eq hkeyed hm,
      isLoaded_iff (s := ⟨setStatus s.rows id status, s.backend⟩) hbackend hloaded, hactive, hname]
    exact hold

/-! ## Runs -/

theorem step_keyed {l : Label} (hs : Keyed s) (hst : step c s l = some s') : Keyed s' := by
  cases l with
  | load id loads =>
    cases hst
    unfold St.load Keyed
    split
    · split
      · rw [setActive_ids]
        exact hs
      · exact hs
    · exact hs
  | unload id raises =>
    cases hst
    have hclear : ((clearActive s.rows).map (·.id)).Nodup := by
      rw [clearActive_ids]
      exact hs
    unfold St.unload Keyed
    split
    · split
      · split
        · exact hs
        · exact hclear
      · exact hclear
    · exact hs
  | modelLoad builds loads =>
    cases hst
    unfold St.modelLoad Keyed
    split
    · exact hs
    · exact hs
  | modelUnload => cases hst; exact hs
  | delete id deleted =>
    cases hst
    unfold St.delete Keyed
    split
    · exact List.Nodup.sublist (List.filter_sublist.map _) hs
    · exact hs
  | restart id isFile loads =>
    simp only [step] at hst
    split at hst
    · cases hst
    · cases hst
      exact restart_keyed hs ‹_› isFile
  | add record name =>
    simp only [step] at hst
    split at hst
    · cases hst
    · rename_i hnew
      cases hst
      unfold Keyed
      rw [List.map_append]
      exact List.nodup_append'.mpr ⟨hs, List.nodup_singleton _, List.disjoint_singleton.mpr hnew⟩
  | ends id status =>
    cases hst
    unfold Keyed
    rw [setStatus_ids]
    exact hs

theorem step_kept {l : Label} (hs : Keyed s) (hk : Kept file s) (hst : step c s l = some s') :
    Kept file s' ↔ mayCall c file s l := by
  cases l with
  | load id loads => cases hst; exact load_kept hs hk loads
  | unload id raises => cases hst; exact unload_kept hs hk raises
  | modelLoad builds loads => cases hst; exact modelLoad_kept hs hk builds loads
  | modelUnload =>
    cases hst
    refine iff_of_true (kept_of_unloaded fun backend hbackend => ?_) trivial
    obtain ⟨b, -, rfl⟩ := Option.map_eq_some_iff.mp hbackend
    rfl
  | delete id deleted => cases hst; exact iff_of_true (delete_kept hs hk deleted) trivial
  | restart id isFile loads =>
    simp only [step] at hst
    split at hst
    · cases hst
    · cases hst
      exact restart_kept hs ‹_› isFile loads
  | add record name =>
    simp only [step] at hst
    split at hst
    · cases hst
    · cases hst
      exact add_kept hs hk name ‹_›
  | ends id status => cases hst; exact iff_of_true (ends_kept hs hk status) trivial

/-- An allowed unload of a row that is there is of the one that is served. -/
theorem step_untouched {l : Label} (hok : mayCall c file s l) (hst : step c s l = some s') :
    Untouched file s l s' := by
  rintro id raises rfl m hm hserves hne
  cases hget : s.get? id with
  | none =>
    cases hst
    simp only [St.unload, hget]
    exact ⟨trivial, hm⟩
  | some record => exact absurd (hok (by rw [hget]; exact fun h => by cases h) m hm hserves) hne

/-- The row that is served is the one active row, a delete of it is refused and the unload of
another row leaves it alone, throughout a run, exactly when every call of the run is allowed. -/
theorem loaded_agrees_iff {rows : List Model} {ls : List Label} {t : St}
    (hids : (rows.map (·.id)).Nodup) (hrun : Run (step c) ⟨rows, none⟩ ls t) :
      (Always (step c) (Kept file) ⟨rows, none⟩ ls ∧
      Along (step c) (Untouched file) ⟨rows, none⟩ ls) ↔
      Guarded (step c) (mayCall c file) ⟨rows, none⟩ ls := by
  have hstart : Kept file ⟨rows, none⟩ := kept_of_unloaded fun _ h => by cases h
  have hkeyed : Keyed ⟨rows, none⟩ := hids
  have halways : Always (step c) (Kept file) ⟨rows, none⟩ ls ↔
      Guarded (step c) (mayCall c file) ⟨rows, none⟩ ls :=
    hrun.always_iff_guarded_of_invariant (fun _ _ _ hs hst => step_keyed hs hst)
      (fun _ _ _ hs hk hst => step_kept hs hk hst) hkeyed hstart
  have hstep : ∀ s l s', True → mayCall c file s l → step c s l = some s' →
      Untouched file s l s' ∧ True :=
    fun _ _ _ _ hok hst => ⟨step_untouched hok hst, trivial⟩
  exact ⟨fun h => halways.mp h.1, fun h => ⟨halways.mpr h, Guarded.along hstep trivial h⟩⟩

end Agreement

section Example

def noModel : Settings := ⟨none, "local-model", none, []⟩

def readyModel (name path : String) (active : Bool) : Model where
  id := name
  path := path
  sourceType := .url
  status := .ready
  name := name
  active := active

def twoModels : List Model :=
  [readyModel "a" "models/a.gguf" false, readyModel "b" "models/b.gguf" false]

/-- One model is loaded, and then another. -/
def swap : List Label := [.load "a" true, .load "b" true]

theorem loaded_agrees_iff_swap : ∃ t, Run (step noModel) ⟨twoModels, none⟩ swap t ∧
    t.backend = some ⟨"b", some "models/b.gguf", true⟩ ∧
    Always (step noModel) (Kept fun path => path) ⟨twoModels, none⟩ swap := by
  obtain ⟨t, hrun, hbackend⟩ : ∃ t, Run (step noModel) ⟨twoModels, none⟩ swap t ∧
      t.backend = some ⟨"b", some "models/b.gguf", true⟩ := run_of_exec_map rfl
  have hids : (twoModels.map (·.id)).Nodup := by decide
  refine ⟨t, hrun, hbackend, ((loaded_agrees_iff hids hrun).mpr ?_).1⟩
  refine ⟨?_, fun s' hs' => ⟨?_, fun _ _ => trivial⟩⟩
  · intro _ record hrecord _
    cases hrecord
    decide
  · cases hs'
    intro _ record hrecord _
    cases hrecord
    decide

/-- The model `a` is loaded, and `b`, which is not, is unloaded: the backend still serves `a`, which
may now be deleted. -/
theorem unload_of_another :
    ¬ ∀ (c : Settings) (file : String → String) (rows : List Model) (ls : List Label) (t : St),
      (rows.map (·.id)).Nodup → Run (step c) ⟨rows, none⟩ ls t →
        Always (step c) (Kept file) ⟨rows, none⟩ ls ∧
        Along (step c) (Untouched file) ⟨rows, none⟩ ls := by
  intro h
  obtain ⟨t, hrun⟩ : ∃ t, Run (step noModel) ⟨twoModels, none⟩ [.load "a" true,
      .unload "b" false] t :=
    ⟨_, run_of_exec rfl⟩
  have hids : (twoModels.map (·.id)).Nodup := by decide
  have hkept := ((h noModel (fun path => path) twoModels _ t hids hrun).1.2 _ rfl).2 _ rfl
  have hserved := hkept (readyModel "a" "models/a.gguf" false) (by decide)
    ⟨⟨"a", some "models/a.gguf", true⟩, "models/a.gguf", rfl, rfl, rfl, rfl⟩
  cases hserved.2

end Example

end Loading

end InferenceEngine
