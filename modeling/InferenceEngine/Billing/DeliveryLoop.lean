import Mathlib.Data.Rat.Floor
import InferenceEngine.Lib.Run
import InferenceEngine.Billing.Delivery

/-!
# Billing.DeliveryLoop

The worker of outbound webhooks over whole runs, step by step, while the operator changes the
tables. The worker runs in a thread of its own: between two of its steps anything may happen to the
store and any time may pass.

* `run_once` reads the clock once and claims a batch (`poll`).
* The loop comes to a delivery, and `_attempt` reads its endpoint (`next`), then its secrets
  (`sign`), and starts the POST (`post`). `Stage` is how far it has come.
* The attempt ends and its outcome is written (`finish`), or the exception of the POST leaves the
  batch.

`attempt_eq` says that these steps, one right after the other, are `_attempt`. One row of the
fan-out of `enqueue_event` is one `enqueue`; the ids of deliveries are never used again.

Ghost fields, for statements only: `log`, `issued`.
-/

namespace InferenceEngine

namespace WebhookStore

variable (store : WebhookStore)

/-- The row that `enqueue_event` inserts for an endpoint. -/
def insertDelivery (id endpointId payload : String) (now : ℚ) : WebhookStore :=
  if h : id ∈ store.deliveries.map (·.id) then store
  else
    { store with
      deliveries := store.deliveries ++
        [{ id := id, endpointId := endpointId, payload := payload, nextAttemptAt := now,
           updatedAt := now }]
      ids := by
        rw [List.map_append, List.nodup_append]
        refine ⟨store.ids, List.nodup_singleton _, ?_⟩
        rintro a ha b hb rfl
        rw [List.map_singleton, List.mem_singleton] at hb
        rw [hb] at ha
        exact h ha }

def setDisabled (endpointId : String) (disabled : Bool) : WebhookStore :=
  { store with
    endpoints := Table.update (fun e => e.id = endpointId)
      (fun e => { e with disabled := disabled })
      store.endpoints }

/-- `delete_endpoint`; its secrets and deliveries go with it (`ON DELETE CASCADE`). -/
def deleteEndpoint (endpointId : String) : WebhookStore :=
  { endpoints := store.endpoints.filter fun e => e.id ≠ endpointId
    secrets := store.secrets.filter fun s => s.endpointId ≠ endpointId
    deliveries := store.deliveries.filter fun d => d.endpointId ≠ endpointId
    ids := store.ids.sublist (List.filter_sublist.map _) }

def createEndpoint (endpoint : Endpoint) (secret createdAt : String) : WebhookStore :=
  { store with
    endpoints := store.endpoints ++ [endpoint]
    secrets := store.secrets ++
      [{ endpointId := endpoint.id, secret := secret, createdAt := createdAt }] }

def rotateSecret (endpointId : String) (graceS now : ℚ) (newSecret createdAt : String) :
    WebhookStore :=
  { store with
    secrets := Table.update (fun s => s.endpointId = endpointId && s.expiresAt.isNone)
        (fun s => { s with expiresAt := some (now + graceS) }) store.secrets ++
      [{ endpointId := endpointId, secret := newSecret, createdAt := createdAt }] }

def replayed (now : ℚ) (d : Delivery) : Delivery :=
  { d with
    status := .pending
    attempts := 0
    nextAttemptAt := now
    lastError := none
    updatedAt := now }

def replay (deliveryId : String) (now : ℚ) : Bool × WebhookStore :=
  (store.deliveries.any fun d => d.id = deliveryId,
    { store with
      deliveries := Table.update (fun d => d.id = deliveryId) (replayed now) store.deliveries
      ids := by
        have hids : (Table.update (fun d => d.id = deliveryId) (replayed now) store.deliveries).map
            (·.id) = store.deliveries.map (·.id) := Table.map_update _ fun _ _ _ => rfl
        rw [hids]
        exact store.ids })

end WebhookStore

/-! ## An attempt step by step -/

namespace DeliveryWorker

variable (w : DeliveryWorker)

def seconds (now : ℚ) : Int := now.num.tdiv now.den

/-- `_attempt` up to the reading of the secrets: the endpoint to send to, or what the delivery is
dead of. -/
def look (d : Delivery) (store : WebhookStore) : Except String Endpoint :=
  match store.getEndpoint d.endpointId with
  | none => .error "endpoint missing or disabled"
  | some endpoint =>
    if endpoint.disabled then .error "endpoint missing or disabled"
    else if !w.hostIsAscii endpoint.url then .error nonAsciiHostError
    else .ok endpoint

def request (now : ℚ) (d : Delivery) (endpoint : Endpoint) (secrets : List String) : Posted where
  deliveryId := d.id
  url := endpoint.url
  body := d.payload
  headers := buildHeaders w.sign secrets d.id (seconds now) d.payload
  timeout := w.deliveryTimeoutS

def failure (d : Delivery) (statusCode : Option Int) (error : String) (now : ℚ) :
    WebhookStore.Outcome :=
  if w.limit ≤ d.attempts + 1 then
    { status := .dead, statusCode := statusCode, error := some error }
  else
    { status := .pending
      statusCode := statusCode
      error := some error
      nextAttemptAt := some (now + nextDelay (d.attempts + 1) w.schedule) }

/-- `_attempt` from the POST on: what it records, or the exception it raises. -/
def reply (opened : Opened) (now : ℚ) (d : Delivery) (url : String) :
    Except Exc WebhookStore.Outcome :=
  match w.post url opened with
  | .error (.transportError message) => .ok (w.failure d none message now)
  | .error (.other e) => .error e
  | .ok statusCode =>
    if 200 ≤ statusCode ∧ statusCode < 300 then
      .ok { status := .succeeded, statusCode := some statusCode, error := none }
    else .ok (w.failure d (some statusCode) ("HTTP " ++ toString statusCode) now)

theorem onFailure_eq (d : Delivery) (statusCode : Option Int) (error : String) (now : ℚ)
    (store : WebhookStore) :
    w.onFailure d (d.attempts + 1) statusCode error now store =
      store.update d.id (w.failure d statusCode error now) now := by
  unfold onFailure failure
  split
  · rfl
  · rfl

theorem attempt_eq (opened : Opened) (now : ℚ) (d : Delivery) (o : Outbox) :
    w.attempt opened now d o =
      match w.look d o.store with
      | .error error =>
        (.ok (),
          { o with
            store := o.store.update d.id
              { status := .dead, statusCode := none, error := some error } now })
      | .ok endpoint =>
        let p := w.request now d endpoint (o.store.activeSecrets endpoint.id now)
        match w.reply opened now d p.url with
        | .error e => (.error e, { o with sent := o.sent ++ [p] })
        | .ok oc => (.ok (), { store := o.store.update d.id oc now, sent := o.sent ++ [p] }) := by
  unfold attempt look
  cases o.store.getEndpoint d.endpointId with
  | none => rfl
  | some endpoint =>
    dsimp only
    by_cases hdisabled : endpoint.disabled = true
    · rw [if_pos hdisabled, if_pos hdisabled]
      rfl
    · by_cases hascii : w.hostIsAscii endpoint.url = true
      · simp only [hdisabled, hascii, Bool.not_true, Bool.false_eq_true, if_false, reply, request]
        cases w.post endpoint.url opened with
        | error e =>
          cases e with
          | transportError message => simp only [onFailure_eq, seconds]
          | other e => rfl
        | ok statusCode =>
          dsimp only
          split
          · rfl
          · simp only [onFailure_eq, seconds]
      · simp [hdisabled, hascii, WebhookStore.markDead]

theorem look_cases (d : Delivery) (store : WebhookStore) :
    (∃ error, w.look d store = .error error ∧
      ∀ e, store.getEndpoint d.endpointId = some e → e.disabled = true ∨
      w.hostIsAscii e.url = false) ∨
    ∃ e, w.look d store = .ok e ∧ store.getEndpoint d.endpointId = some e ∧ e.disabled = false ∧
      w.hostIsAscii e.url = true := by
  unfold look
  cases hfind : store.getEndpoint d.endpointId with
  | none => exact .inl ⟨_, rfl, fun e he => by cases he⟩
  | some endpoint =>
    dsimp only
    by_cases hdisabled : endpoint.disabled = true
    · rw [if_pos hdisabled]
      refine .inl ⟨_, rfl, fun e he => ?_⟩
      cases he
      exact .inl hdisabled
    · rw [if_neg hdisabled]
      by_cases hascii : w.hostIsAscii endpoint.url = true
      · rw [if_neg (by simpa using hascii)]
        exact .inr ⟨endpoint, rfl, rfl, by simpa using hdisabled, hascii⟩
      · rw [if_pos (by simpa using hascii)]
        refine .inl ⟨_, rfl, fun e he => ?_⟩
        cases he
        exact .inr (by simpa using hascii)

theorem reply_cases {url : String} (hascii : w.hostIsAscii url = true) (opened : Opened) (now : ℚ)
    (d : Delivery) :
    (∃ e, opened = .raised e ∧ w.reply opened now d url = .error e) ∨
    (∀ e, opened ≠ .raised e) ∧
      ((accepted opened = true ∧ ∃ statusCode, w.reply opened now d url =
          .ok { status := .succeeded, statusCode := some statusCode, error := none }) ∨
        accepted opened = false ∧ ∃ statusCode error, w.reply opened now d url =
          .ok (w.failure d statusCode error now)) := by
  simp only [reply, post, hascii, Bool.not_true, Bool.false_eq_true, if_false]
  cases opened with
  | raised e => exact .inl ⟨e, rfl, rfl⟩
  | networkError message => exact .inr ⟨by simp, .inr ⟨rfl, _, _, rfl⟩⟩
  | response status | httpError status =>
    refine .inr ⟨by simp, ?_⟩
    by_cases hok : 200 ≤ status ∧ status < 300
    · refine .inl ⟨by simp [accepted, hok], status, ?_⟩
      simp [hok]
    · refine .inr ⟨by simpa [accepted] using hok, some status, "HTTP " ++ toString status, ?_⟩
      simp only [hok, if_false]

end DeliveryWorker

/-- How far an attempt has come. -/
inductive Stage where
  /-- there is nothing to send to: it will be dead-lettered -/
  | refused (error : String)
  | found (endpoint : Endpoint)
  | signed (endpoint : Endpoint) (secrets : List String)
  /-- the POST was started, at `begun` -/
  | posting (p : Posted) (begun : ℚ)
  deriving DecidableEq, Repr

def Stage.isPost : Stage → Bool
  | .posting _ _ => true
  | _ => false

def Stage.endpoint? : Stage → Option Endpoint
  | .found endpoint | .signed endpoint _ => some endpoint
  | _ => none

/-! ## Runs -/

structure Attempt where
  delivery : Delivery
  stage : Stage
  deriving DecidableEq, Repr

/-- How the attempt ends, when it has come so far. -/
def DeliveryWorker.verdict (w : DeliveryWorker) (opened : Opened) (now : ℚ) (a : Attempt) :
    Option (Except Exc WebhookStore.Outcome) :=
  match a.stage with
  | .refused error => some (.ok { status := .dead, statusCode := none, error := some error })
  | .posting p _ => some (w.reply opened now a.delivery p.url)
  | _ => none

/-- A `run_once` in progress: the time it has read, and what it has still to come to. -/
structure Batch where
  now : ℚ
  due : List Delivery
  current : Option Attempt := none
  deriving DecidableEq, Repr

inductive Happening where
  /-- an attempt was begun, with what it has found of its endpoint -/
  | began (d : Delivery) (found : Option Endpoint)
  /-- a POST was started, by a batch that had read its clock; the endpoint is the one that was there
  then -/
  | posted (d : Delivery) (p : Posted) (begun reading : ℚ) (there : Option Endpoint)
  /-- an attempt has ended; what was written, unless it raised -/
  | ended (a : Attempt) (opened : Opened) (now : ℚ) (written : Option WebhookStore.Outcome)
  | replayed (deliveryId : String) (now : ℚ)
  deriving DecidableEq, Repr

structure DeliveryState where
  store : WebhookStore
  clock : ℚ
  stop : Bool := false
  batch : Option Batch := none
  log : List Happening := []
  /-- the ids of all deliveries so far -/
  issued : List String := []

inductive DeliveryLabel where
  | tick (dt : ℚ)
  | poll
  | next
  | sign
  | post
  | finish (opened : Opened)
  | requestStop
  /-- a new worker, when the batch of the last one has returned -/
  | restart
  | enqueue (id endpointId payload : String)
  | createEndpoint (endpoint : Endpoint) (secret createdAt : String)
  | setDisabled (endpointId : String) (disabled : Bool)
  | deleteEndpoint (endpointId : String)
  | rotateSecret (endpointId : String) (graceS : ℚ) (newSecret createdAt : String)
  | replay (deliveryId : String)
  deriving DecidableEq, Repr

namespace DeliveryState

variable (w : DeliveryWorker) (s : DeliveryState)

def seen (d : Delivery) : Stage :=
  match w.look d s.store with
  | .error error => .refused error
  | .ok endpoint => .found endpoint

/-- The loop of `run_once` comes to a delivery, or to its end. -/
def next : Option DeliveryState :=
  match s.batch with
  | some ⟨now, d :: due, none⟩ =>
    if s.stop then some { s with batch := none }
    else
      some { s with
        batch := some ⟨now, due, some ⟨d, s.seen w d⟩⟩
        log := s.log ++ [.began d (s.store.getEndpoint d.endpointId)] }
  | some ⟨_, [], none⟩ => some { s with batch := none }
  | _ => none

def sign : Option DeliveryState :=
  match s.batch with
  | some ⟨now, due, some ⟨d, .found endpoint⟩⟩ =>
    some { s with
      batch := some ⟨now, due, some ⟨d, .signed endpoint (s.store.activeSecrets endpoint.id now)⟩⟩ }
  | _ => none

def post : Option DeliveryState :=
  match s.batch with
  | some ⟨now, due, some ⟨d, .signed endpoint secrets⟩⟩ =>
    let p := w.request now d endpoint secrets
    some { s with
      batch := some ⟨now, due, some ⟨d, .posting p s.clock⟩⟩
      log := s.log ++ [.posted d p s.clock now (s.store.getEndpoint d.endpointId)] }
  | _ => none

def finish (opened : Opened) : Option DeliveryState :=
  match s.batch with
  | some ⟨now, due, some a⟩ =>
    match w.verdict opened now a with
    | some (.ok oc) =>
      some { s with
        store := s.store.update a.delivery.id oc now
        batch := some ⟨now, due, none⟩
        log := s.log ++ [.ended a opened now (some oc)] }
    -- `run_once` raises; its caller logs that and goes on
    | some (.error _) => some { s with batch := none, log := s.log ++ [.ended a opened now none] }
    | none => none
  | _ => none

/-- `replay`, with the clock of its caller. -/
def replay (deliveryId : String) : DeliveryState :=
  let r := s.store.replay deliveryId s.clock
  { s with
    store := r.2
    log := if r.1 then s.log ++ [.replayed deliveryId s.clock] else s.log }

def step (s : DeliveryState) : DeliveryLabel → Option DeliveryState
  | .tick dt => if 0 ≤ dt then some { s with clock := s.clock + dt } else none
  | .poll =>
    if s.batch = none then
      some { s with batch := some ⟨s.clock, s.store.claimDue s.clock w.batchLimit, none⟩ }
    else none
  | .next => s.next w
  | .sign => s.sign
  | .post => s.post w
  | .finish opened => s.finish w opened
  | .requestStop => some { s with stop := true }
  | .restart => if s.batch = none then some { s with stop := false } else none
  | .enqueue id endpointId payload =>
    if id ∈ s.issued then none
    else
      some { s with
        store := s.store.insertDelivery id endpointId payload s.clock
        issued := id :: s.issued }
  | .createEndpoint endpoint secret createdAt =>
    some { s with store := s.store.createEndpoint endpoint secret createdAt }
  | .setDisabled endpointId disabled =>
    some { s with store := s.store.setDisabled endpointId disabled }
  | .deleteEndpoint endpointId => some { s with store := s.store.deleteEndpoint endpointId }
  | .rotateSecret endpointId graceS newSecret createdAt =>
    some { s with store := s.store.rotateSecret endpointId graceS s.clock newSecret createdAt }
  | .replay deliveryId => some (s.replay deliveryId)

end DeliveryState

def DeliveryLabel.withdraws (endpointId : String) : DeliveryLabel → Bool
  | .setDisabled id disabled => id == endpointId && disabled
  | .deleteEndpoint id => id == endpointId
  | _ => false

def DeliveryLabel.rekeys (endpointId : String) : DeliveryLabel → Bool
  | .createEndpoint endpoint _ _ => endpoint.id == endpointId
  | .deleteEndpoint id | .rotateSecret id _ _ _ => id == endpointId
  | _ => false

namespace WebhookStore

variable {store : WebhookStore} {id : String} {e : Endpoint}

theorem getEndpoint_id (h : store.getEndpoint id = some e) : e.id = id := by
  simpa using List.find?_some h

theorem getEndpoint_create (endpoint : Endpoint) (secret createdAt : String)
    (h : store.getEndpoint id = some e) :
    (store.createEndpoint endpoint secret createdAt).getEndpoint id = some e := by
  unfold getEndpoint createEndpoint
  rw [List.find?_append]
  simp only [getEndpoint] at h
  rw [h]
  rfl

theorem getEndpoint_setDisabled {endpointId : String} {disabled : Bool}
    (h : store.getEndpoint id = some e) (henabled : e.disabled = false)
    (hkept : (endpointId == id && disabled) = false) :
    (store.setDisabled endpointId disabled).getEndpoint id = some e := by
  have hid := getEndpoint_id h
  have hfind : (store.setDisabled endpointId disabled).getEndpoint id =
      (store.getEndpoint id).map fun e => if e.id = endpointId then { e with disabled := disabled }
        else e := by
    have hupdate : (Table.update (fun e => e.id = endpointId)
        (fun e => { e with disabled := disabled }) store.endpoints).find? (fun e => e.id = id) =
        _ := Table.find?_update fun _ _ => rfl
    simpa [getEndpoint, setDisabled] using hupdate
  rw [hfind, h, Option.map_some, Option.some_inj]
  split
  · rename_i heq
    rw [← heq, hid, BEq.rfl, Bool.true_and] at hkept
    rw [hkept, ← henabled]
  · rfl

theorem getEndpoint_delete {endpointId : String} (h : store.getEndpoint id = some e)
    (hkept : (endpointId == id) = false) :
    (store.deleteEndpoint endpointId).getEndpoint id = some e := by
  have hne : endpointId ≠ id := by simpa using hkept
  unfold getEndpoint deleteEndpoint
  rw [List.find?_filter]
  simp only [getEndpoint] at h
  rw [← h]
  congr 1
  funext e'
  by_cases hid : e'.id = id
  · simp [hid, hne.symm]
  · simp [hid]

theorem activeSecrets_congr {store' : WebhookStore}
    (h : (store'.secrets.filter fun k => k.endpointId = id) =
      store.secrets.filter fun k => k.endpointId = id) (now : ℚ) : store'.activeSecrets id now =
      store.activeSecrets id now := by
  have hsplit (secrets : List WebhookSecret) :
      (secrets.filter fun k => k.endpointId = id && k.expiresAt.all fun x => now < x) =
        (secrets.filter fun k => k.endpointId =
          id).filter fun k => k.expiresAt.all fun x => now < x := by
    rw [List.filter_filter]
    refine List.filter_congr fun k _ => ?_
    rw [Bool.and_comm]
  unfold activeSecrets
  rw [hsplit, hsplit, h]

end WebhookStore

namespace DeliveryState

variable (w : DeliveryWorker) (s : DeliveryState)

inductive Moves (s : DeliveryState) : DeliveryLabel → DeliveryState → Prop where
  /-- neither the worker nor a replay; rows may go with their endpoint -/
  | other {l : DeliveryLabel} {s' : DeliveryState} (hclock : s.clock ≤ s'.clock)
      (hrows : s'.store.deliveries.Sublist s.store.deliveries) (hbatch : s'.batch = s.batch)
      (hlog : s'.log = s.log) (hissued : s'.issued = s.issued)
      (hendpoint : ∀ id e, s.store.getEndpoint id = some e → e.disabled = false →
        l.withdraws id = false → s'.store.getEndpoint id = some e)
      (hsecrets : ∀ id, l.rekeys id = false → (s'.store.secrets.filter fun k => k.endpointId = id) =
        s.store.secrets.filter fun k => k.endpointId = id) : Moves s l s'
  | enqueue (id endpointId payload : String) (hnew : id ∉ s.issued) :
      Moves s (.enqueue id endpointId payload)
        { s with
          store := s.store.insertDelivery id endpointId payload s.clock
          issued := id :: s.issued }
  | poll (hidle : s.batch = none) :
      Moves s .poll
        { s with batch := some ⟨s.clock, s.store.claimDue s.clock w.batchLimit, none⟩ }
  /-- the loop is over, or a stop was requested -/
  | leave {now : ℚ} {due : List Delivery} (hbatch : s.batch = some ⟨now, due, none⟩) :
      Moves s .next { s with batch := none }
  | start {now : ℚ} {d : Delivery} {due : List Delivery}
      (hbatch : s.batch = some ⟨now, d :: due, none⟩) :
      Moves s .next
        { s with
          batch := some ⟨now, due, some ⟨d, s.seen w d⟩⟩
          log := s.log ++ [.began d (s.store.getEndpoint d.endpointId)] }
  | sign {now : ℚ} {d : Delivery} {due : List Delivery} {endpoint : Endpoint}
      (hbatch : s.batch = some ⟨now, due, some ⟨d, .found endpoint⟩⟩) :
      Moves s .sign
        { s with batch := some ⟨now, due,
          some ⟨d, .signed endpoint (s.store.activeSecrets endpoint.id now)⟩⟩ }
  | post {now : ℚ} {d : Delivery} {due : List Delivery} {endpoint : Endpoint}
      {secrets : List String}
      (hbatch : s.batch = some ⟨now, due, some ⟨d, .signed endpoint secrets⟩⟩) :
      Moves s .post
        { s with
          batch := some ⟨now, due, some ⟨d, .posting (w.request now d endpoint secrets) s.clock⟩⟩
          log := s.log ++ [.posted d (w.request now d endpoint secrets) s.clock now
            (s.store.getEndpoint d.endpointId)] }
  | record {now : ℚ} {due : List Delivery} {a : Attempt} {opened : Opened}
      {oc : WebhookStore.Outcome} (hbatch : s.batch = some ⟨now, due, some a⟩)
      (hverdict : w.verdict opened now a = some (.ok oc)) :
      Moves s (.finish opened)
        { s with
          store := s.store.update a.delivery.id oc now
          batch := some ⟨now, due, none⟩
          log := s.log ++ [.ended a opened now (some oc)] }
  | raise {now : ℚ} {due : List Delivery} {a : Attempt} {opened : Opened} {e : Exc}
      (hbatch : s.batch = some ⟨now, due, some a⟩)
      (hverdict : w.verdict opened now a = some (.error e)) :
      Moves s (.finish opened)
        { s with batch := none, log := s.log ++ [.ended a opened now none] }
  | replay (deliveryId : String) : Moves s (.replay deliveryId) (s.replay deliveryId)

variable {w s} {s' : DeliveryState} {l : DeliveryLabel}

theorem moves_of_same (hclock : s.clock ≤ s'.clock) (hstore : s'.store = s.store)
    (hbatch : s'.batch = s.batch) (hlog : s'.log = s.log) (hissued : s'.issued = s.issued) :
    Moves w s l s' := by
  refine .other hclock ?_ hbatch hlog hissued (fun id e h _ _ => ?_) fun id _ => ?_
  · rw [hstore]
  · rw [hstore]
    exact h
  · rw [hstore]

theorem moves_of_next (h : s.next w = some s') : Moves w s .next s' := by
  unfold next at h
  split at h
  · rename_i now d due hbatch
    split at h <;> cases h
    · exact .leave hbatch
    · exact .start hbatch
  · rename_i now hbatch
    cases h
    exact .leave hbatch
  · cases h

theorem moves_of_sign (h : s.sign = some s') : Moves w s .sign s' := by
  unfold sign at h
  split at h <;> cases h
  rename_i hbatch
  exact .sign hbatch

theorem moves_of_post (h : s.post w = some s') : Moves w s .post s' := by
  unfold post at h
  split at h <;> cases h
  rename_i hbatch
  exact .post hbatch

theorem moves_of_finish {opened : Opened} (h : s.finish w opened = some s') :
    Moves w s (.finish opened) s' := by
  unfold finish at h
  split at h
  · rename_i now due a hbatch
    split at h <;> cases h
    · exact .record hbatch ‹_›
    · exact .raise hbatch ‹_›
  · cases h

theorem moves_of_step (h : step w s l = some s') : Moves w s l s' := by
  cases l with
  | tick dt =>
    simp only [step] at h
    split at h <;> cases h
    rename_i hdt
    exact moves_of_same (le_add_of_nonneg_right hdt) rfl rfl rfl rfl
  | poll =>
    simp only [step] at h
    split at h <;> cases h
    rename_i hidle
    exact .poll hidle
  | next => exact moves_of_next h
  | sign => exact moves_of_sign h
  | post => exact moves_of_post h
  | finish opened => exact moves_of_finish h
  | requestStop =>
    cases h
    exact moves_of_same le_rfl rfl rfl rfl rfl
  | restart =>
    simp only [step] at h
    split at h <;> cases h
    exact moves_of_same le_rfl rfl rfl rfl rfl
  | enqueue id endpointId payload =>
    simp only [step] at h
    split at h <;> cases h
    rename_i hnew
    exact .enqueue id endpointId payload hnew
  | createEndpoint endpoint secret createdAt =>
    cases h
    refine .other le_rfl (List.Sublist.refl _) rfl rfl rfl
      (fun id e hfind _ _ => WebhookStore.getEndpoint_create endpoint secret createdAt hfind)
      fun id hid => ?_
    have hne : endpoint.id ≠ id := by simpa [DeliveryLabel.rekeys] using hid
    simp [WebhookStore.createEndpoint, List.filter_append, hne]
  | setDisabled endpointId disabled =>
    cases h
    exact .other le_rfl (List.Sublist.refl _) rfl rfl rfl
      (fun id e hfind henabled hkept => WebhookStore.getEndpoint_setDisabled hfind henabled hkept)
      fun _ _ => rfl
  | deleteEndpoint endpointId =>
    cases h
    refine .other le_rfl List.filter_sublist rfl rfl rfl
      (fun id e hfind _ hkept => WebhookStore.getEndpoint_delete hfind hkept) fun id hid => ?_
    have hne : endpointId ≠ id := by simpa [DeliveryLabel.rekeys] using hid
    simp only [WebhookStore.deleteEndpoint, List.filter_filter]
    refine List.filter_congr fun k _ => ?_
    by_cases hk : k.endpointId = id
    · simp [hk, hne.symm]
    · simp [hk]
  | rotateSecret endpointId graceS newSecret createdAt =>
    cases h
    refine .other le_rfl (List.Sublist.refl _) rfl rfl rfl
      (fun id e hfind _ _ => hfind) fun id hid => ?_
    have hne : endpointId ≠ id := by simpa [DeliveryLabel.rekeys] using hid
    have hother : (Table.update (fun k => k.endpointId = endpointId && k.expiresAt.isNone)
        (fun k => { k with expiresAt := some (s.clock + graceS) }) s.store.secrets).filter
          (fun k => k.endpointId = id) = s.store.secrets.filter fun k => k.endpointId = id := by
      refine Table.filter_update fun k _ hk => ?_
      rw [Bool.and_eq_true, decide_eq_true_eq] at hk
      simp [hk.1, hne]
    simp [WebhookStore.rotateSecret, List.filter_append, hother, hne]
  | replay deliveryId =>
    cases h
    exact .replay deliveryId

/-- The deliveries that the batch has in hand, the one being attempted first. -/
def claimed (s : DeliveryState) : List Delivery :=
  match s.batch with
  | none => []
  | some b => (b.current.map (·.delivery)).toList ++ b.due

end DeliveryState
end InferenceEngine
