import InferenceEngine.Lib.Run
import InferenceEngine.Lib.Tickets

/-!
# Dashboard.ModelDetail

The details of one model, kept consistent with the polled list of all (`useModelDetail` in
`hooks/useModels.ts`). A step is a render with an id and a list, the effects that follow a render,
the answer to any request in flight, a click on Retry, or the unmounting. Between a render and its
effects answers may come, and clicks; no render.

What a row shows (`fingerprint`) and its id are parameters. `shown` keeps for whom the details that
were shown were asked for, and when; `fetchedAt` is when the last request was issued, and
`changedAt` when the effects last found that the row had changed, or that another model was opened.

* `shown_for_id`: what is shown is the model that was asked for, and newer each time.
* `no_change_missed`: once nothing is in flight, the details are not older than the last change of
  the row.
* `not_starved`: whatever the list does, a request in flight is waited for.
-/

namespace InferenceEngine
namespace ModelDetail

open Lts Tickets

inductive AsyncStatus where
  | loading
  | ready
  | error
  deriving DecidableEq, Repr

structure ModelsState (μ : Type) where
  status : AsyncStatus
  models : List μ
  error : Option String

/-- What the hook reads of a row of the list. -/
structure Row (μ φ : Type) where
  id : μ → String
  fingerprint : μ → φ

structure Failure where
  api : Option (Nat × Option String)
  message : String
  auth : Bool

def isNotFound (e : Failure) : Bool := e.api = some (404, some "model_not_found")

inductive State (μ : Type) where
  | idle
  | loading
  | ready (model : μ) (stale : Bool) (error : Option String)
  | notFound
  | error (error : String)

/-- What the effects depend on: what the list confirms is the fingerprint of a row, that there is
none, or nothing. -/
structure Deps (φ : Type) where
  id : Option String
  confirmed : Option (Option φ)
  deriving DecidableEq

structure Request where
  mine : Nat
  target : String
  time : Nat
  deriving DecidableEq, Repr

structure Shown (μ : Type) where
  model : μ
  target : String
  time : Nat

structure St (μ φ : Type) where
  now : Nat
  requests : List Request
  mounted : Bool
  /-- of the last render; `idRef` is its id -/
  props : Deps φ
  /-- those that the effects last ran with -/
  ran : Option (Deps φ)
  /-- the effects of the last render are still to run -/
  pending : Bool
  seq : Nat
  inFlight : Bool
  queued : Bool
  seen : Option (String × Option φ)
  state : State μ
  /-- the newest first -/
  shown : List (Shown μ)
  fetchedAt : Nat
  changedAt : Nat
  /-- a request of this hook has ended the session -/
  ended : Bool

inductive Answer (μ : Type) where
  | ok (model : μ)
  | failed (e : Failure)

inductive Event (μ : Type) where
  | render (id : Option String) (list : ModelsState μ)
  | effects
  | answer (i : Nat) (result : Answer μ)
  | retry
  | unmount

variable {μ φ : Type}

/-- `confirmed`. -/
def confirmed (row : Row μ φ) (id : Option String) (list : ModelsState μ) : Option (Option φ) :=
  match id with
  | none => none
  | some id =>
    if list.status ≠ .ready || list.error.isSome then none
    else some ((list.models.find? fun m => row.id m = id).map row.fingerprint)

/-- The state after an error that does not end the session. -/
def State.failed (state : State μ) (e : Failure) : State μ :=
  if isNotFound e then .notFound
  else
    match state with
    | .ready model _ _ => .ready model true (some e.message)
    | _ => .error e.message

/-- `retry` keeps what is shown. -/
def State.retried (state : State μ) : State μ :=
  match state with
  | .ready model stale e => .ready model stale e
  | _ => .loading

namespace St

/-- After the first render. -/
def mount (row : Row μ φ) (id : Option String) (list : ModelsState μ) : St μ φ where
  now := 0
  requests := []
  mounted := true
  props := ⟨id, confirmed row id list⟩
  ran := none
  pending := true
  seq := 0
  inFlight := false
  queued := false
  seen := none
  state := .idle
  shown := []
  fetchedAt := 0
  changedAt := 0
  ended := false

def fetchNow (s : St μ φ) (target : String) : St μ φ :=
  { s with
    seq := s.seq + 1
    inFlight := true
    queued := false
    requests := s.requests ++ [⟨s.seq + 1, target, s.now⟩]
    fetchedAt := s.now }

/-- `current`. -/
def current (s : St μ φ) (r : Request) : Bool := r.mine = s.seq && s.props.id = some r.target

/-- The last line of both callbacks. -/
def next (s : St μ φ) (target : String) : St μ φ := if s.queued then s.fetchNow target else s

def received (s : St μ φ) (r : Request) (model : μ) : St μ φ :=
  { s with inFlight := false, state := .ready model false none, shown := ⟨model, r.target,
    r.time⟩ :: s.shown }

def refused (s : St μ φ) (e : Failure) : St μ φ :=
  { s with inFlight := false, state := s.state.failed e }

def settle (s : St μ φ) (r : Request) (result : Answer μ) : St μ φ :=
  if s.current r then
    match result with
    | .ok model => (s.received r model).next r.target
    | .failed e =>
      if e.auth then { s with inFlight := false, ended := true } else (s.refused e).next r.target
  else s

def loading (s : St μ φ) : St μ φ := { s with seen := none, state := .loading, changedAt := s.now }

/-- The effect of `[id]`. -/
def opened (s : St μ φ) : St μ φ :=
  match s.props.id with
  | none =>
    { s with seen := none, seq := s.seq + 1, inFlight := false, queued := false, state := .idle }
  | some id => s.loading.fetchNow id

/-- The row has changed: a background refresh. -/
def changed (s : St μ φ) (id : String) (fp : Option φ) : St μ φ :=
  { s with seen := some (id, fp), changedAt := s.now }

/-- The effect of `[id, confirmed]`. -/
def compared [DecidableEq φ] (s : St μ φ) : St μ φ :=
  match s.props.id, s.props.confirmed with
  | some id, some fp =>
    match s.seen with
    | some (prevId, prevFp) =>
      if prevId ≠ id ∨ prevFp = fp then { s with seen := some (id, fp) }
      else if s.inFlight then { s.changed id fp with queued := true }
      else (s.changed id fp).fetchNow id
    | none => { s with seen := some (id, fp) }
  | _, _ => s

def effects [DecidableEq φ] (s : St μ φ) : St μ φ :=
  let s₁ := if s.ran.map (·.id) = some s.props.id then s else s.opened
  let s₂ := if s.ran = some s.props then s₁ else s₁.compared
  { s₂ with ran := some s.props, pending := false }

def retried (s : St μ φ) : St μ φ := { s with state := s.state.retried }

def retry (s : St μ φ) : St μ φ :=
  match s.props.id with
  | none => s
  | some target => s.retried.fetchNow target

def answered (s : St μ φ) (i : Nat) : St μ φ := { s with requests := s.requests.eraseIdx i }

def wait (s : St μ φ) : St μ φ := { s with now := s.now + 1 }

end St

def move [DecidableEq φ] (row : Row μ φ) (s : St μ φ) : Event μ → Option (St μ φ)
  | .render id list =>
    if s.mounted && !s.pending
      then some { s with props := ⟨id, confirmed row id list⟩, pending := true } else none
  | .effects => if s.pending then some s.effects else none
  | .answer i result => s.requests[i]?.map fun r => (s.answered i).settle r result
  | .retry => if s.mounted then some s.retry else none
  | .unmount =>
    if s.mounted && !s.pending then some { s with mounted := false, seq := s.seq + 1 } else none

def step [DecidableEq φ] (row : Row μ φ) (s : St μ φ) (e : Event μ) : Option (St μ φ) :=
  (move row s e).map St.wait

variable {row : Row μ φ} {s s' : St μ φ} {now : Nat} {e : Event μ} {r : Request} {target : String}

/-- A request is answered in the order of its number; what was shown was asked for in that order. -/
structure Timed (now : Nat) (s : St μ φ) : Prop where
  ordered : Ordered Request.mine Request.time s.seq now s.requests
  shown_lt : ∀ x ∈ s.shown, x.time < now
  sorted : s.shown.Pairwise fun x y => y.time < x.time
  changed_le : s.changedAt ≤ now

/-- The request in flight that will be accepted is the last one. -/
structure Flight (s : St μ φ) : Prop where
  current : ∀ r ∈ s.requests, r.mine = s.seq →
    s.inFlight = true ∧ r.time = s.fetchedAt ∧ ∀ x ∈ s.shown, x.time < r.time
  queued : s.queued = true → s.inFlight = true ∨ s.ended = true

/-- What is shown is of the model that the effects have opened. -/
def Belongs (s : St μ φ) : Prop :=
  ∀ model stale error, s.state = .ready model stale error →
    ∃ x, s.shown.head? = some x ∧ x.model = model ∧ s.props.id = some x.target

/-- While the effects have run for the id of the last render. -/
structure Synced (s : St μ φ) : Prop where
  target : ∀ r ∈ s.requests, r.mine = s.seq → s.props.id = some r.target
  flying : s.inFlight = true → ∃ r ∈ s.requests, r.mine = s.seq
  idle : s.state = .idle ↔ s.props.id = none
  belongs : Belongs s
  covered : s.props.id ≠ none → s.changedAt ≤ s.fetchedAt ∨ s.queued = true
  loading : s.state = .loading → s.inFlight = true ∨ s.ended = true
  newest : ∀ model error, s.state = .ready model false error →
    s.inFlight = true ∨ s.ended = true ∨ ∃ x, s.shown.head? = some x ∧ x.time = s.fetchedAt

/-- The requests, and what was shown of their answers. -/
structure SameRequests (s s' : St μ φ) : Prop where
  requests : s'.requests = s.requests
  seq : s'.seq = s.seq
  shown : s'.shown = s.shown
  changedAt : s'.changedAt = s.changedAt

/-- The hook's fetching of the model that is open. -/
structure SameFetch (s s' : St μ φ) : Prop extends SameRequests s s' where
  id : s'.props.id = s.props.id
  inFlight : s'.inFlight = s.inFlight
  queued : s'.queued = s.queued
  state : s'.state = s.state
  fetchedAt : s'.fetchedAt = s.fetchedAt
  ended : s'.ended = s.ended

theorem Timed.congr (h : Timed now s) (hsame : SameRequests s s') : Timed now s' where
  ordered := by rw [hsame.requests, hsame.seq]; exact h.ordered
  shown_lt := by rw [hsame.shown]; exact h.shown_lt
  sorted := by rw [hsame.shown]; exact h.sorted
  changed_le := by rw [hsame.changedAt]; exact h.changed_le

theorem Flight.congr (h : Flight s) (hsame : SameFetch s s') : Flight s' where
  current := by
    rw [hsame.requests, hsame.seq, hsame.inFlight, hsame.fetchedAt, hsame.shown]; exact h.current
  queued := by rw [hsame.queued, hsame.inFlight, hsame.ended]; exact h.queued

theorem Synced.congr (h : Synced s) (hsame : SameFetch s s') : Synced s' := by
  constructor
  · rw [hsame.requests, hsame.seq, hsame.id]
    exact h.target
  · rw [hsame.inFlight, hsame.requests, hsame.seq]
    exact h.flying
  · rw [hsame.state, hsame.id]
    exact h.idle
  · unfold Belongs
    rw [hsame.state, hsame.shown, hsame.id]
    exact h.belongs
  · rw [hsame.id, hsame.changedAt, hsame.fetchedAt, hsame.queued]
    exact h.covered
  · rw [hsame.state, hsame.inFlight, hsame.ended]
    exact h.loading
  · rw [hsame.state, hsame.inFlight, hsame.ended, hsame.shown, hsame.fetchedAt]
    exact h.newest

theorem good_congr (h : Timed now s ∧ Flight s ∧ Synced s) (hsame : SameFetch s s') :
    Timed now s' ∧ Flight s' ∧ Synced s' :=
  ⟨h.1.congr hsame.toSameRequests, h.2.1.congr hsame, h.2.2.congr hsame⟩

namespace Timed

theorem wait (h : Timed now s) : Timed (now + 1) s :=
  ⟨h.ordered.wait, fun x hx => Nat.lt_succ_of_lt (h.shown_lt x hx), h.sorted,
    Nat.le_succ_of_le h.changed_le⟩

theorem answered (h : Timed now s) (i : Nat) : Timed now (s.answered i) :=
  ⟨h.ordered.answered i, h.shown_lt, h.sorted, h.changed_le⟩

theorem fetchNow (h : Timed s.now s) (target : String) : Timed (s.now + 1) (s.fetchNow target) :=
  ⟨h.ordered.issue rfl rfl, fun x hx => Nat.lt_succ_of_lt (h.shown_lt x hx), h.sorted,
    Nat.le_succ_of_le h.changed_le⟩

theorem lt_seq (h : Timed now s) (hr : r ∈ s.requests) : r.mine ≠ s.seq + 1 :=
  Nat.ne_of_lt (Nat.lt_succ_of_le (h.ordered.number_le r hr))

theorem flight_fetchNow (h : Timed s.now s) (target : String) : Flight (s.fetchNow target) where
  current r hr hmine := by
    rcases List.mem_append.mp hr with hr | hr
    · exact absurd hmine (h.lt_seq hr)
    · rw [List.mem_singleton.mp hr]
      exact ⟨rfl, rfl, h.shown_lt⟩
  queued hqueued := by cases hqueued

theorem synced_fetchNow (h : Timed s.now s) (hid : s.props.id = some target)
    (hidle : s.state ≠ .idle) (hbelongs : Belongs s) : Synced (s.fetchNow target) where
  target r hr hmine := by
    rcases List.mem_append.mp hr with hr | hr
    · exact absurd hmine (h.lt_seq hr)
    · rw [List.mem_singleton.mp hr]
      exact hid
  flying _ := ⟨_, List.mem_append_right _ (List.mem_singleton_self _), rfl⟩
  idle := by simp [St.fetchNow, hidle, hid]
  belongs := hbelongs
  covered _ := .inl h.changed_le
  loading _ := .inl rfl
  newest _ _ _ := .inl rfl

end Timed

/-! ## Answers -/

theorem current_iff : s.current r = true ↔ r.mine = s.seq ∧ s.props.id = some r.target := by
  simp [St.current]

/-- What an accepted answer finds: it was the only one that would be. -/
structure Accepted (s : St μ φ) (r : Request) : Prop where
  mine : r.mine = s.seq
  id : s.props.id = some r.target
  fetched : r.time = s.fetchedAt
  newer : ∀ x ∈ s.shown, x.time < r.time
  only : ∀ r' ∈ s.requests, r'.mine ≠ s.seq

theorem accepted {i : Nat} (htimed : Timed now s) (hflight : Flight s)
    (hr : s.requests[i]? = some r) (hcur : s.current r = true) : Accepted (s.answered i) r := by
  obtain ⟨hmine, hid⟩ := current_iff.mp hcur
  obtain ⟨-, htime, hnewer⟩ := hflight.current r (List.mem_of_getElem? hr) hmine
  refine ⟨hmine, hid, htime, hnewer, fun r' hr' => ?_⟩
  show r'.mine ≠ s.seq
  rw [← hmine]
  exact htimed.ordered.ne_of_answered hr hr'

theorem Timed.next (h : Timed s.now s) : Timed (s.now + 1) (s.next target) := by
  unfold St.next
  split
  · exact h.fetchNow target
  · exact h.wait

theorem Timed.flight_next (h : Timed s.now s) (hnone : ∀ r ∈ s.requests, r.mine ≠ s.seq) :
    Flight (s.next target) := by
  unfold St.next
  split
  · exact h.flight_fetchNow target
  · rename_i hqueued
    exact ⟨fun r hr hmine => absurd hmine (hnone r hr), fun hq => absurd hq hqueued⟩

theorem Timed.synced_next (h : Timed s.now s) (hid : s.props.id = some target)
    (hidle : s.state ≠ .idle) (hbelongs : Belongs s) (hnone : ∀ r ∈ s.requests, r.mine ≠ s.seq)
      (hflight : s.inFlight = false) (hcovered : s.changedAt ≤ s.fetchedAt ∨ s.queued = true)
      (hloading : s.state ≠ .loading) (hnewest : ∀ model error, s.state = .ready model false error →
      ∃ x, s.shown.head? = some x ∧ x.time = s.fetchedAt) : Synced (s.next target) := by
  unfold St.next
  split
  · exact h.synced_fetchNow hid hidle hbelongs
  · rename_i hqueued
    exact {
      target := fun r hr hmine => absurd hmine (hnone r hr)
      flying := fun hfl => absurd (hflight.symm.trans hfl) (by decide)
      idle := by simp [hidle, hid]
      belongs := hbelongs
      covered := fun _ => .inl (hcovered.resolve_right hqueued)
      loading := fun hl => absurd hl hloading
      newest := fun model error hready => .inr (.inr (hnewest model error hready)) }

theorem failed_ne (state : State μ) (e : Failure) :
    state.failed e ≠ .idle ∧ state.failed e ≠ .loading ∧ ∀ model error,
      state.failed e ≠ .ready model false error := by
  unfold State.failed
  split
  · simp
  · split <;> simp

theorem failed_ready {state : State μ} {e : Failure} {model : μ} {stale : Bool}
    {error : Option String} (h : state.failed e = .ready model stale error) :
    ∃ stale error, state = .ready model stale error := by
  unfold State.failed at h
  split at h
  · cases h
  · split at h
    · cases h
      exact ⟨_, _, rfl⟩
    · cases h

namespace Accepted

variable {model : μ}

theorem timed_ok (h : Accepted s r) (htimed : Timed s.now s) (htime : r.time < s.now) :
    Timed s.now (s.received r model) where
  ordered := htimed.ordered
  shown_lt x hx := by
    rcases List.mem_cons.mp hx with rfl | hx
    · exact htime
    · exact htimed.shown_lt x hx
  sorted := List.pairwise_cons.mpr ⟨h.newer, htimed.sorted⟩
  changed_le := htimed.changed_le

theorem timed (h : Accepted s r) (htimed : Timed s.now s) (htime : r.time < s.now)
    (result : Answer μ) :
    Timed (s.now + 1) (s.settle r result) := by
  unfold St.settle
  split
  · cases result with
    | ok model => exact Timed.next (s := s.received r model) (h.timed_ok htimed htime)
    | failed e =>
      dsimp only
      split
      · exact htimed.wait.congr ⟨rfl, rfl, rfl, rfl⟩
      · exact Timed.next (s := s.refused e) (htimed.congr ⟨rfl, rfl, rfl, rfl⟩)
  · exact htimed.wait

theorem flight (h : Accepted s r) (htimed : Timed s.now s) (htime : r.time < s.now)
    (hcur : s.current r = true) (result : Answer μ) : Flight (s.settle r result) := by
  unfold St.settle
  rw [if_pos hcur]
  cases result with
  | ok model => exact Timed.flight_next (s := s.received r model) (h.timed_ok htimed htime) h.only
  | failed e =>
    dsimp only
    split
    · exact ⟨fun r hr hmine => absurd hmine (h.only r hr), fun _ => .inr rfl⟩
    · exact Timed.flight_next (s := s.refused e) (htimed.congr ⟨rfl, rfl, rfl, rfl⟩) h.only

theorem synced (h : Accepted s r) (htimed : Timed s.now s) (htime : r.time < s.now)
    (hcur : s.current r = true) (hbelongs : Belongs s) (hidle : s.state ≠ .idle)
      (hcovered : s.changedAt ≤ s.fetchedAt ∨ s.queued = true) (result : Answer μ) :
    Synced (s.settle r result) := by
  unfold St.settle
  rw [if_pos hcur]
  cases result with
  | ok model =>
    refine Timed.synced_next (s := s.received r model) (h.timed_ok htimed htime) h.id
      (by simp [St.received]) ?_ h.only
      rfl hcovered (by simp [St.received]) ?_
    · rintro _ _ _ ⟨⟩
      exact ⟨_, rfl, rfl, h.id⟩
    · exact fun _ _ _ => ⟨_, rfl, h.fetched⟩
  | failed e =>
    obtain ⟨hne, hload, hready⟩ := failed_ne s.state e
    dsimp only
    split
    · exact {
        target := fun r hr hmine => absurd hmine (h.only r hr)
        flying := fun hfl => by cases hfl
        idle := by simp [hidle, h.id]
        belongs := hbelongs
        covered := fun _ => hcovered
        loading := fun _ => .inr rfl
        newest := fun _ _ _ => .inr (.inl rfl) }
    · refine Timed.synced_next (s := s.refused e)
        (htimed.congr ⟨rfl, rfl, rfl, rfl⟩) h.id hne ?_ h.only rfl hcovered
        hload fun model error heq => absurd heq (hready model error)
      intro model stale error heq
      obtain ⟨_, _, hstate⟩ := failed_ready heq
      exact hbelongs _ _ _ hstate

end Accepted

/-! ## Effects -/

theorem opened_good (h : Timed s.now s) :
    Timed (s.now + 1) s.opened ∧ Flight s.opened ∧ Synced s.opened := by
  unfold St.opened
  cases hid : s.props.id with
  | none =>
    have hnone : ∀ r ∈ s.requests, r.mine ≠ s.seq + 1 := fun r hr => h.lt_seq hr
    refine ⟨⟨h.ordered.skip.wait, h.wait.shown_lt, h.sorted, h.wait.changed_le⟩, ?_, ?_⟩
    · exact ⟨fun r hr hmine => absurd hmine (hnone r hr), fun hqueued => by cases hqueued⟩
    · exact {
        target := fun r hr hmine => absurd hmine (hnone r hr)
        flying := fun hfl => by cases hfl
        idle := by simp [hid]
        belongs := fun _ _ _ hstate => by cases hstate
        covered := fun hne => absurd hid hne
        loading := fun hl => by cases hl
        newest := fun _ _ hstate => by cases hstate }
  | some id =>
    have hloading : Timed s.loading.now s.loading :=
      ⟨h.ordered, h.shown_lt, h.sorted, Nat.le_refl _⟩
    exact ⟨hloading.fetchNow id, hloading.flight_fetchNow id,
      hloading.synced_fetchNow hid (by simp [St.loading]) fun _ _ _ hstate => by cases hstate⟩

theorem retry_good (h : Timed s.now s) (hflight : Flight s) :
    Timed (s.now + 1) s.retry ∧ Flight s.retry := by
  unfold St.retry
  split
  · exact ⟨h.wait, hflight⟩
  · have hretried : Timed s.retried.now s.retried := h.congr ⟨rfl, rfl, rfl, rfl⟩
    exact ⟨hretried.fetchNow _, hretried.flight_fetchNow _⟩

theorem retried_ready {state : State μ} {model : μ} {stale : Bool} {error : Option String}
    (h : state.retried = .ready model stale error) : state = .ready model stale error := by
  unfold State.retried at h
  split at h
  · exact h
  · cases h

theorem retried_ne (state : State μ) : state.retried ≠ .idle := by
  unfold State.retried
  split <;> simp

theorem retry_synced (h : Timed s.now s) (hsynced : Synced s) : Synced s.retry := by
  unfold St.retry
  split
  · exact hsynced
  · rename_i target hid
    exact Timed.synced_fetchNow (s := s.retried) (h.congr ⟨rfl, rfl, rfl, rfl⟩) hid
      (retried_ne s.state)
      fun _ _ _ hstate => hsynced.belongs _ _ _ (retried_ready hstate)

section Compared

variable [DecidableEq φ]

/-- After the opening there is nothing to compare with. -/
theorem compared_seen (h : s.seen = none) : ∃ seen, s.compared = { s with seen := seen } := by
  unfold St.compared
  split
  · rw [h]
    exact ⟨_, rfl⟩
  · exact ⟨s.seen, rfl⟩

theorem compared_good (h : Timed s.now s) (hflight : Flight s) (hsynced : Synced s) :
    Timed (s.now + 1) s.compared ∧ Flight s.compared ∧ Synced s.compared := by
  have hseen (seen : Option (String × Option φ)) : Timed (s.now + 1) { s with seen := seen } ∧
      Flight { s with seen := seen } ∧ Synced { s with seen := seen } :=
    good_congr ⟨h.wait, hflight, hsynced⟩ ⟨⟨rfl, rfl, rfl, rfl⟩, rfl, rfl, rfl, rfl, rfl, rfl⟩
  unfold St.compared
  split
  · rename_i id fp hid _
    split
    · split
      · exact hseen _
      · have hchanged : Timed (s.changed id fp).now (s.changed id fp) :=
          ⟨h.ordered, h.shown_lt, h.sorted, Nat.le_refl _⟩
        split
        · rename_i hfl
          refine ⟨⟨h.ordered.wait, h.wait.shown_lt, h.sorted, Nat.le_succ _⟩,
            ⟨hflight.current, fun _ => .inl hfl⟩, ?_⟩
          exact ⟨hsynced.target, hsynced.flying, hsynced.idle, hsynced.belongs, fun _ => .inr rfl,
            hsynced.loading, hsynced.newest⟩
        · have hidle : s.state ≠ .idle := fun hstate => by
            rw [hsynced.idle.mp hstate] at hid
            cases hid
          exact ⟨hchanged.fetchNow id, hchanged.flight_fetchNow id,
            hchanged.synced_fetchNow hid hidle hsynced.belongs⟩
    · exact hseen _
  · exact hseen s.seen

theorem effects_good (h : Timed s.now s) (hflight : Flight s)
    (hsynced : s.ran.map (·.id) = some s.props.id → Synced s) :
    Timed (s.now + 1) s.effects ∧ Flight s.effects ∧ Synced s.effects := by
  have of_parts {u : St μ φ} (hu : Timed (s.now + 1) u ∧ Flight u ∧ Synced u) :
      Timed (s.now + 1) { u with ran := some s.props, pending := false } ∧
        Flight { u with ran := some s.props, pending := false } ∧
        Synced { u with ran := some s.props, pending := false } :=
    good_congr hu ⟨⟨rfl, rfl, rfl, rfl⟩, rfl, rfl, rfl, rfl, rfl, rfl⟩
  unfold St.effects
  dsimp only
  refine of_parts ?_
  by_cases hid : s.ran.map (·.id) = some s.props.id
  · rw [if_pos hid]
    split
    · exact ⟨h.wait, hflight, hsynced hid⟩
    · exact compared_good h hflight (hsynced hid)
  · rw [if_neg hid]
    obtain ⟨htimed, hfl, hsyn⟩ := opened_good h
    split
    · exact ⟨htimed, hfl, hsyn⟩
    · have hnone : s.opened.seen = none := by
        unfold St.opened
        split <;> rfl
      obtain ⟨seen, heq⟩ := compared_seen hnone
      rw [heq]
      exact good_congr ⟨htimed, hfl, hsyn⟩ ⟨⟨rfl, rfl, rfl, rfl⟩, rfl, rfl, rfl, rfl, rfl, rfl⟩

end Compared

/-! ## Runs -/

structure Inv (s : St μ φ) : Prop where
  timed : Timed s.now s
  flight : s.mounted = true → Flight s
  synced : s.mounted = true → s.ran.map (·.id) = some s.props.id → Synced s
  /-- a render waits for the effects of the one before it -/
  ran : s.pending = false → s.ran = some s.props
  gone : s.mounted = false → s.pending = false ∧ ∀ r ∈ s.requests, r.mine ≠ s.seq

theorem next_keeps (s : St μ φ) (target : String) :
    (s.next target).now = s.now ∧ (s.next target).mounted = s.mounted ∧
      (s.next target).props = s.props ∧
      (s.next target).ran = s.ran ∧ (s.next target).pending = s.pending := by
  unfold St.next
  split <;> exact ⟨rfl, rfl, rfl, rfl, rfl⟩

/-- An answer leaves alone what React knows. -/
theorem settle_keeps (s : St μ φ) (r : Request) (result : Answer μ) :
    (s.settle r result).now = s.now ∧ (s.settle r result).mounted = s.mounted ∧
      (s.settle r result).props = s.props ∧ (s.settle r result).ran = s.ran ∧
      (s.settle r result).pending = s.pending := by
  unfold St.settle
  split
  · cases result with
    | ok model => exact next_keeps (s.received r model) r.target
    | failed e =>
      dsimp only
      split
      · exact ⟨rfl, rfl, rfl, rfl, rfl⟩
      · exact next_keeps (s.refused e) r.target
  · exact ⟨rfl, rfl, rfl, rfl, rfl⟩

theorem retry_keeps (s : St μ φ) :
    s.retry.now = s.now ∧ s.retry.mounted = s.mounted ∧ s.retry.props = s.props ∧
      s.retry.ran = s.ran ∧
      s.retry.pending = s.pending := by
  unfold St.retry
  split <;> exact ⟨rfl, rfl, rfl, rfl, rfl⟩

theorem opened_keeps (s : St μ φ) :
    s.opened.now = s.now ∧ s.opened.mounted = s.mounted ∧ s.opened.props = s.props := by
  unfold St.opened
  split <;> exact ⟨rfl, rfl, rfl⟩

theorem effects_keeps [DecidableEq φ] (s : St μ φ) :
    s.effects.now = s.now ∧ s.effects.mounted = s.mounted ∧ s.effects.props = s.props := by
  have hcompared (u : St μ φ) :
      u.compared.now = u.now ∧ u.compared.mounted = u.mounted ∧ u.compared.props = u.props := by
    unfold St.compared
    repeat' split
    all_goals exact ⟨rfl, rfl, rfl⟩
  obtain ⟨hnow, hmounted, hprops⟩ := opened_keeps s
  unfold St.effects
  dsimp only
  split <;> split
  · exact ⟨rfl, rfl, rfl⟩
  · exact ⟨hnow, hmounted, hprops⟩
  · exact hcompared s
  · obtain ⟨hnow', hmounted', hprops'⟩ := hcompared s.opened
    exact ⟨hnow'.trans hnow, hmounted'.trans hmounted, hprops'.trans hprops⟩

theorem mount_inv (row : Row μ φ) (id : Option String) (list : ModelsState μ) :
    Inv (St.mount row id list) where
  timed := ⟨.nil, List.forall_mem_nil _, .nil, Nat.le_refl 0⟩
  flight _ := ⟨List.forall_mem_nil _, fun h => by cases h⟩
  synced _ h := by cases h
  ran h := by cases h
  gone h := by cases h

theorem Inv.waited {u : St μ φ} (htimed : Timed (u.now + 1) u)
    (hflight : u.mounted = true → Flight u)
      (hsynced : u.mounted = true → u.ran.map (·.id) = some u.props.id → Synced u)
      (hran : u.pending = false → u.ran = some u.props)
      (hgone : u.mounted = false → u.pending = false ∧ ∀ r ∈ u.requests, r.mine ≠ u.seq) :
    Inv u.wait where
  timed := htimed.congr ⟨rfl, rfl, rfl, rfl⟩
  flight h := (hflight h).congr ⟨⟨rfl, rfl, rfl, rfl⟩, rfl, rfl, rfl, rfl, rfl, rfl⟩
  synced h hid := (hsynced h hid).congr ⟨⟨rfl, rfl, rfl, rfl⟩, rfl, rfl, rfl, rfl, rfl, rfl⟩
  ran := hran
  gone := hgone

theorem settle_stale {result : Answer μ} (hcur : s.current r = false) : s.settle r result = s := by
  unfold St.settle
  rw [hcur, if_neg Bool.false_ne_true]

theorem Inv.answer (h : Inv s) {i : Nat} (hr : s.requests[i]? = some r) (result : Answer μ) :
    Inv ((s.answered i).settle r result).wait := by
  have hmem : r ∈ s.requests := List.mem_of_getElem? hr
  have htimed : Timed (s.answered i).now (s.answered i) := h.timed.answered i
  have htime : r.time < (s.answered i).now := h.timed.ordered.time_lt r hmem
  have hsub : ∀ r' ∈ s.requests.eraseIdx i, r' ∈ s.requests :=
      fun r' hr' => List.mem_of_mem_eraseIdx hr'
  obtain ⟨hnow, hmounted, hprops, hran, hpending⟩ := settle_keeps (s.answered i) r result
  cases hcur : (s.answered i).current r with
  | false =>
    rw [settle_stale hcur]
    have hne : r.mine = s.seq → s.props.id ≠ some r.target := fun hmine hid => by
      have hyes := current_iff.mpr ⟨hmine, hid⟩
      exact absurd (hcur.symm.trans hyes) (by decide)
    refine .waited htimed.wait (fun hm => ?_) (fun hm hid => ?_) h.ran fun hm => ?_
    · exact ⟨fun r' hr' => (h.flight hm).current r' (hsub r' hr'), (h.flight hm).queued⟩
    · -- the current request has the id of the last render, so it is another one
      have hs := h.synced hm hid
      refine ⟨fun r' hr' => hs.target r' (hsub r' hr'), fun hfl => ?_, hs.idle, hs.belongs,
        hs.covered, hs.loading, hs.newest⟩
      obtain ⟨r', hr', hmine⟩ := hs.flying hfl
      refine ⟨r', List.mem_eraseIdx_iff_getElem?.mpr ?_, hmine⟩
      obtain ⟨j, hj⟩ := List.getElem?_of_mem hr'
      refine ⟨j, fun hij => ?_, hj⟩
      rw [hij, hr] at hj
      obtain rfl := Option.some.inj hj
      exact hne hmine (hs.target r hmem hmine)
    · exact ⟨(h.gone hm).1, fun r' hr' => (h.gone hm).2 r' (hsub r' hr')⟩
  | true =>
    have hmine : r.mine = s.seq := (current_iff.mp hcur).1
    have hm : s.mounted = true := by
      by_contra hnot
      exact (h.gone (Bool.eq_false_iff.mpr hnot)).2 r hmem hmine
    have hacc := accepted h.timed (h.flight hm) hr hcur
    refine .waited ?_ (fun _ => hacc.flight htimed htime hcur result) (fun _ hid => ?_)
      (fun hp => ?_) fun hnot => ?_
    · rw [hnow]
      exact hacc.timed htimed htime result
    · rw [hran, hprops] at hid
      have hs := h.synced hm hid
      have hopen : s.props.id ≠ none := fun hnone => by
        have hid := hacc.id
        rw [show (s.answered i).props.id = none from hnone] at hid
        cases hid
      exact hacc.synced htimed htime hcur hs.belongs (fun hstate => hopen (hs.idle.mp hstate))
        (hs.covered hopen) result
    · rw [hran, hprops]
      exact h.ran (hpending.symm.trans hp)
    · exact absurd (hm.symm.trans (hmounted.symm.trans hnot)) (by decide)

theorem Inv.step [DecidableEq φ] (h : Inv s) (hst : step row s e = some s') : Inv s' := by
  obtain ⟨u, hu, rfl⟩ := Option.map_eq_some_iff.mp hst
  cases e with
  | render id list =>
    simp only [move] at hu
    split at hu
    · rename_i hmay
      cases hu
      simp only [Bool.and_eq_true, Bool.not_eq_true'] at hmay
      refine .waited ?_ (fun hm => ?_) (fun hm hid => ?_) (fun hp => by cases hp) fun hm => ?_
      · exact h.timed.wait.congr ⟨rfl, rfl, rfl, rfl⟩
      · exact ⟨(h.flight hm).current, (h.flight hm).queued⟩
      · -- the effects have run for this id if the render before had it too
        have hsame : s.props.id = id := by
          simp only [h.ran hmay.2, Option.map_some] at hid
          exact Option.some.inj hid
        have hs := h.synced hm (by rw [hsame]; exact hid)
        subst hsame
        exact hs.congr ⟨⟨rfl, rfl, rfl, rfl⟩, rfl, rfl, rfl, rfl, rfl, rfl⟩
      · exact absurd (hmay.1.symm.trans hm) (by decide)
    · cases hu
  | effects =>
    simp only [move] at hu
    split at hu
    · rename_i hpending
      cases hu
      have hm : s.mounted = true := by
        by_contra hnot
        exact absurd (hpending.symm.trans (h.gone (Bool.eq_false_iff.mpr hnot)).1) (by decide)
      obtain ⟨htimed, hflight, hsynced⟩ := effects_good h.timed (h.flight hm) (h.synced hm)
      obtain ⟨hnow, hmounted, hprops⟩ := effects_keeps s
      refine .waited ?_ (fun _ => hflight) (fun _ _ => hsynced) (fun _ => ?_) fun hnot => ?_
      · rwa [hnow]
      · rw [hprops]
        rfl
      · exact absurd (hm.symm.trans (hmounted.symm.trans hnot)) (by decide)
    · cases hu
  | answer i result =>
    obtain ⟨r, hr, rfl⟩ := Option.map_eq_some_iff.mp hu
    exact h.answer hr result
  | retry =>
    simp only [move] at hu
    split at hu
    · rename_i hm
      cases hu
      obtain ⟨htimed, hflight⟩ := retry_good h.timed (h.flight hm)
      obtain ⟨hnow, hmounted, hprops, hran, hpending⟩ := retry_keeps s
      refine .waited ?_ (fun _ => hflight) (fun _ hid => ?_) (fun hp => ?_) fun hnot => ?_
      · rwa [hnow]
      · rw [hran, hprops] at hid
        exact retry_synced h.timed (h.synced hm hid)
      · rw [hran, hprops]
        exact h.ran (hpending.symm.trans hp)
      · exact absurd (hm.symm.trans (hmounted.symm.trans hnot)) (by decide)
    · cases hu
  | unmount =>
    simp only [move] at hu
    split at hu
    · rename_i hmay
      cases hu
      simp only [Bool.and_eq_true, Bool.not_eq_true'] at hmay
      refine .waited ?_ (fun hm => by cases hm)
        (fun hm => by cases hm) h.ran fun _ => ⟨hmay.2, fun r hr => ?_⟩
      · exact ⟨h.timed.ordered.skip.wait, h.timed.wait.shown_lt, h.timed.sorted,
          h.timed.wait.changed_le⟩
      · exact h.timed.lt_seq hr
    · cases hu

/-- The effects have run for the last render. -/
def St.settled (s : St μ φ) : Prop := s.mounted = true ∧ s.pending = false

theorem Inv.synced_of_settled (h : Inv s) (hsettled : s.settled) : Synced s :=
  h.synced hsettled.1 (by rw [h.ran hsettled.2]; rfl)

variable [DecidableEq φ] {id : Option String} {list : ModelsState μ}
  {es : List (Event μ)} {t : St μ φ}

theorem run_inv (hrun : Run (step row) (St.mount row id list) es t) : Inv t :=
  hrun.invariant (fun _ _ _ h hst => h.step hst) (mount_inv row id list)

/-- Once the effects have run, the details that are shown are of the model of the last render;
whatever was shown was asked for after what was shown before. -/
theorem shown_for_id (hrun : Run (step row) (St.mount row id list) es t) :
    (t.shown.Pairwise fun later earlier => earlier.time < later.time) ∧
      (t.settled → ∀ model stale error, t.state = .ready model stale error →
        ∃ x, t.shown.head? = some x ∧ x.model = model ∧ t.props.id = some x.target) :=
  ⟨(run_inv hrun).timed.sorted, fun hsettled => ((run_inv hrun).synced_of_settled hsettled).belongs⟩

/-- Once the effects have run, either a request for the model of the last render is in flight, the
only one whose answer will be accepted, or the last request was issued after the last change of the
row that the effects have seen; then nothing is loading, and details that are not marked as stale
are the answer to that request. -/
theorem no_change_missed (hrun : Run (step row) (St.mount row id list) es t) (hsettled : t.settled)
    (hopen : t.props.id ≠ none) (hended : t.ended = false) :
    (∃ r ∈ t.requests, t.current r = true ∧ ∀ r' ∈ t.requests, t.current r' = true → r' = r) ∨
      (∀ r ∈ t.requests, t.current r = false) ∧ t.changedAt ≤ t.fetchedAt ∧ t.state ≠ .loading ∧
        ∀ model error, t.state = .ready model false error →
          ∃ x, t.shown.head? = some x ∧ x.model = model ∧ x.time = t.fetchedAt := by
  have hinv := run_inv hrun
  have hs := hinv.synced_of_settled hsettled
  have hflight := hinv.flight hsettled.1
  cases hfl : t.inFlight with
  | true =>
    obtain ⟨r, hr, hmine⟩ := hs.flying hfl
    refine .inl ⟨r, hr, current_iff.mpr ⟨hmine, hs.target r hr hmine⟩, fun r' hr' hcur => ?_⟩
    exact hinv.timed.ordered.eq_of_number hr' hr ((current_iff.mp hcur).1.trans hmine.symm)
  | false =>
    have hnot : ¬ (t.inFlight = true ∨ t.ended = true) := by simp [hfl, hended]
    refine .inr ⟨fun r hr => Bool.eq_false_iff.mpr fun hcur => ?_, ?_,
      fun hl => hnot (hs.loading hl), ?_⟩
    · exact absurd (hfl.symm.trans (hflight.current r hr (current_iff.mp hcur).1).1) (by decide)
    · exact (hs.covered hopen).resolve_right fun hqueued => hnot (hflight.queued hqueued)
    · intro model error hstate
      obtain ⟨x, hx, hmodel, -⟩ := hs.belongs _ _ _ hstate
      rcases hs.newest model error hstate with h | h | ⟨y, hy, htime⟩
      · exact absurd (.inl h) hnot
      · exact absurd (.inr h) hnot
      · obtain rfl := Option.some.inj (hx.symm.trans hy)
        exact ⟨x, hx, hmodel, htime⟩

/-! ## Background refreshes -/

/-- What happens by itself while the view stays on one model. -/
def Event.background (id : Option String) : Event μ → Prop
  | .render id' _ => id' = id
  | .effects | .answer _ _ => True
  | .retry | .unmount => False

omit [DecidableEq φ] in
theorem next_requests (s : St μ φ) (target : String) :
    (s.next target).seq = s.seq ∧ (s.next target).requests = s.requests ∨
      (s.next target).seq = s.seq + 1 ∧
        ∃ q : Request, (s.next target).requests = s.requests ++ [q] ∧ q.mine = s.seq + 1 := by
  unfold St.next
  split
  · exact .inr ⟨rfl, _, rfl, rfl⟩
  · exact .inl ⟨rfl, rfl⟩

omit [DecidableEq φ] in
theorem settle_requests (s : St μ φ) (r : Request) (result : Answer μ) :
    (s.settle r result).seq = s.seq ∧ (s.settle r result).requests = s.requests ∨
      s.current r = true ∧ (s.settle r result).seq = s.seq + 1 ∧
        ∃ q : Request, (s.settle r result).requests = s.requests ++ [q] ∧ q.mine = s.seq + 1 := by
  cases hcur : s.current r with
  | false => exact .inl (by rw [settle_stale hcur]; exact ⟨rfl, rfl⟩)
  | true =>
    unfold St.settle
    rw [if_pos hcur]
    cases result with
    | ok model => exact (next_requests (s.received r model) r.target).imp_right fun h => ⟨rfl, h⟩
    | failed e =>
      dsimp only
      split
      · exact .inl ⟨rfl, rfl⟩
      · exact (next_requests (s.refused e) r.target).imp_right fun h => ⟨rfl, h⟩

/-- While the id stays, the effects ask only if nothing is in flight. -/
theorem effects_requests (hid : s.ran.map (·.id) = some s.props.id) :
    s.effects.seq = s.seq ∧ s.effects.requests = s.requests ∨
      s.inFlight = false ∧ s.effects.seq = s.seq + 1 ∧
        ∃ q : Request, s.effects.requests = s.requests ++ [q] ∧ q.mine = s.seq + 1 := by
  unfold St.effects
  simp only [hid, if_true]
  split
  · exact .inl ⟨rfl, rfl⟩
  · unfold St.compared
    repeat' split
    all_goals first | exact .inl ⟨rfl, rfl⟩ | exact .inr ⟨Bool.eq_false_iff.mpr ‹_›,
      rfl, _, rfl, rfl⟩

/-- The request `r` is waited for, if it is still in flight. -/
structure Waits (r : Request) (s : St μ φ) : Prop where
  inv : Inv s
  mounted : s.mounted = true
  ran : s.ran.map (·.id) = some s.props.id
  id : s.props.id = some r.target
  mine_le : r.mine ≤ s.seq
  current : r ∈ s.requests → r.mine = s.seq

theorem effects_ran (s : St μ φ) : s.effects.ran = some s.props := rfl

omit [DecidableEq φ] in
/-- Another request is issued only when `r` is not in flight. -/
theorem current_of_requests {u : St μ φ} (hle : r.mine ≤ s.seq)
    (hcur : r ∈ s.requests → r.mine = s.seq) (hmove : u.seq = s.seq ∧ u.requests = s.requests ∨
      r ∉ s.requests ∧ u.seq = s.seq + 1 ∧ ∃ q : Request, u.requests = s.requests ++ [q] ∧
      q.mine = s.seq + 1) :
    r.mine ≤ u.seq ∧ (r ∈ u.requests → r.mine = u.seq) := by
  rcases hmove with ⟨hseq, hrequests⟩ | ⟨hnot, hseq, q, hrequests, hq⟩
  · rw [hseq, hrequests]
    exact ⟨hle, hcur⟩
  · rw [hseq, hrequests]
    refine ⟨Nat.le_succ_of_le hle, fun hr => ?_⟩
    rcases List.mem_append.mp hr with hr | hr
    · exact absurd hr hnot
    · rw [List.mem_singleton.mp hr, hq]

theorem Waits.step (h : Waits r s) (hback : e.background s.props.id)
    (hst : step row s e = some s') :
    Waits r s' ∧ s'.props.id = s.props.id := by
  have hinv := h.inv.step hst
  obtain ⟨u, hu, rfl⟩ := Option.map_eq_some_iff.mp hst
  cases e with
  | render id' list' =>
    simp only [move] at hu
    split at hu
    · cases hu
      have hsame : id' = s.props.id := hback
      subst hsame
      exact ⟨⟨hinv, h.mounted, h.ran, h.id, h.mine_le, h.current⟩, rfl⟩
    · cases hu
  | effects =>
    simp only [move] at hu
    split at hu
    · cases hu
      obtain ⟨-, hmounted, hprops⟩ := effects_keeps s
      have hid : s.effects.props.id = s.props.id := congrArg (·.id) hprops
      have hran : s.effects.ran.map (·.id) = some s.effects.props.id := by
        rw [effects_ran, hid]
        rfl
      obtain ⟨hle, hcurrent⟩ := current_of_requests (u := s.effects) h.mine_le h.current <|
        (effects_requests h.ran).imp_right fun ⟨hfl, hasked⟩ =>
          ⟨fun hr => absurd (hfl.symm.trans
            ((h.inv.flight h.mounted).current r hr (h.current hr)).1) (by decide), hasked⟩
      exact ⟨⟨hinv, hmounted.trans h.mounted, hran, hid.trans h.id, hle, hcurrent⟩, hid⟩
    · cases hu
  | answer i result =>
    obtain ⟨r₀, hr₀, rfl⟩ := Option.map_eq_some_iff.mp hu
    obtain ⟨-, hmounted, hprops, hran, -⟩ := settle_keeps (s.answered i) r₀ result
    have hid : ((s.answered i).settle r₀ result).props.id = s.props.id := congrArg (·.id) hprops
    have hran' : ((s.answered i).settle r₀ result).ran.map (·.id) =
        some ((s.answered i).settle r₀ result).props.id := by
      rw [hran, hid]
      exact h.ran
    have hrest : r ∈ (s.answered i).requests → r.mine = s.seq := fun hr =>
      h.current (List.mem_of_mem_eraseIdx hr)
    obtain ⟨hle, hcurrent⟩ := current_of_requests (s := s.answered i) h.mine_le hrest <|
      (settle_requests (s.answered i) r₀ result).imp_right fun ⟨hcur, hasked⟩ =>
        ⟨fun hr => h.inv.timed.ordered.ne_of_answered hr₀ hr
          ((hrest hr).trans (current_iff.mp hcur).1.symm), hasked⟩
    exact ⟨⟨hinv, hmounted.trans h.mounted, hran', hid.trans h.id, hle, hcurrent⟩, hid⟩
  | retry | unmount => cases hback

/-- A request whose answer will be accepted stays so until it is answered, whatever the list shows
meanwhile: only Retry, another model or the end of the view supersedes it. -/
theorem not_starved (hrun : Run (step row) (St.mount row id list) es t) (hsettled : t.settled)
    (hcur : t.current r = true) {es' : List (Event μ)} {t' : St μ φ}
    (hrun' : Run (step row) t es' t') (hback : ∀ e ∈ es', e.background t.props.id) :
    r ∈ t'.requests → t'.current r = true := by
  have hinv := run_inv hrun
  obtain ⟨hmine, htarget⟩ := current_iff.mp hcur
  have hwaits : Waits r t := ⟨hinv, hsettled.1, by rw [hinv.ran hsettled.2]; rfl, htarget,
    hmine ▸ Nat.le_refl _, fun _ => hmine⟩
  clear hrun hsettled hcur hinv hmine htarget
  induction hrun' with
  | refl => exact fun hr => current_iff.mpr ⟨hwaits.current hr, hwaits.id⟩
  | cons hst _ ih =>
    obtain ⟨hnext, hid⟩ := hwaits.step (hback _ (List.mem_cons_self ..)) hst
    exact ih (fun e he => hid ▸ hback e (List.mem_cons_of_mem _ he)) hnext

section Example

/-- Models that are an id and a status. -/
def named : Row (String × String) String := ⟨fun m => m.1, fun m => m.2⟩

def listed (status : String) : ModelsState (String × String) := ⟨.ready, [("a", status)], none⟩

def State.details : State μ → Option μ
  | .ready model _ _ => some model
  | _ => none

/-- The row changes while the first request is in flight; its answer is shown, and another request
is issued. -/
def changing : List (Event (String × String)) :=
  [.effects, .render (some "a") (listed "loading"), .effects, .answer 0 (.ok ("a", "idle"))]

theorem no_change_missed_changing :
    ∃ t, Run (step named) (St.mount named (some "a") (listed "idle")) changing t ∧
    ∃ r ∈ t.requests, t.current r = true := by
  obtain ⟨t, hrun, ht⟩ : ∃ t,
      Run (step named) (St.mount named (some "a") (listed "idle")) changing t ∧
      (t.mounted, t.pending, t.props.id, t.ended, t.changedAt,
        t.requests.map fun r => t.current r) =
        (true, false, some "a", false, 2, [true]) := run_of_exec_map rfl
  simp only [Prod.mk.injEq] at ht
  obtain ⟨hm, hp, hid, hended, -, hcurrent⟩ := ht
  refine ⟨t, hrun, ?_⟩
  rcases no_change_missed hrun ⟨hm, hp⟩ (by rw [hid]; decide) hended with ⟨r, hr,
      hcur, -⟩ | ⟨hnone, -⟩
  · exact ⟨r, hr, hcur⟩
  · obtain ⟨r, hr, hcur⟩ : ∃ r ∈ t.requests, t.current r = true :=
      List.mem_map.mp (hcurrent ▸ List.mem_singleton_self true)
    exact absurd ((hnone r hr).symm.trans hcur) (by decide)

theorem shown_for_id_changing :
    ∃ t, Run (step named) (St.mount named (some "a") (listed "idle")) changing t ∧
    ∃ x, t.shown.head? = some x ∧ x.model = ("a", "idle") ∧ x.target = "a" := by
  obtain ⟨t, hrun, ht⟩ : ∃ t,
      Run (step named) (St.mount named (some "a") (listed "idle")) changing t ∧
      (t.mounted, t.pending, t.props.id, t.state.details) =
        (true, false, some "a", some ("a", "idle")) := run_of_exec_map rfl
  simp only [Prod.mk.injEq] at ht
  obtain ⟨hm, hp, hid, hstate⟩ := ht
  obtain ⟨model, stale, error, hready⟩ : ∃ model stale error,
      t.state = .ready model stale error := by
    cases hs : t.state with
    | ready model stale error => exact ⟨model, stale, error, rfl⟩
    | _ =>
      rw [hs] at hstate
      cases hstate
  obtain ⟨x, hx, hmodel, hfor⟩ := (shown_for_id hrun).2 ⟨hm, hp⟩ model stale error hready
  rw [hready] at hstate
  exact ⟨t, hrun, x, hx, hmodel.trans (Option.some.inj hstate),
    Option.some.inj (hfor.symm.trans hid)⟩

/-- The row changes twice while the request is in flight. -/
def twice : List (Event (String × String)) :=
  [.render (some "a") (listed "loading"), .effects, .render (some "a") (listed "active"), .effects]

theorem not_starved_twice : ∃ t,
    Run (step named) (St.mount named (some "a") (listed "idle")) [.effects] t ∧
    ∃ t', Run (step named) t twice t' ∧ t'.queued = true ∧ ∃ r ∈ t'.requests,
      t'.current r = true := by
  obtain ⟨t, hrun, ht⟩ : ∃ t,
      Run (step named) (St.mount named (some "a") (listed "idle")) [.effects] t ∧
      (t.mounted, t.pending, t.props.id, t.current ⟨1, "a", 0⟩,
        (exec (step named) t twice).map fun t' => (t'.queued, t'.requests)) =
        (true, false, some "a", true, some (true, [⟨1, "a", 0⟩])) := run_of_exec_map rfl
  simp only [Prod.mk.injEq] at ht
  obtain ⟨hm, hp, hid, hcur, hexec⟩ := ht
  obtain ⟨t', hrun', ht'⟩ := run_of_exec_map hexec
  obtain ⟨hqueued, hrequests⟩ := Prod.mk.inj ht'
  have hmem : ⟨1, "a", 0⟩ ∈ t'.requests := hrequests ▸ List.mem_singleton_self _
  refine ⟨t, hrun, t', hrun', hqueued, _, hmem,
    not_starved hrun ⟨hm, hp⟩ hcur hrun' (fun e he => ?_) hmem⟩
  rw [hid]
  simp only [twice, List.mem_cons, List.not_mem_nil, or_false] at he
  rcases he with rfl | rfl | rfl | rfl
  · exact rfl
  · exact trivial
  · exact rfl
  · exact trivial

end Example

end ModelDetail
end InferenceEngine
