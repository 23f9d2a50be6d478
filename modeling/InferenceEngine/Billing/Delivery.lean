import Mathlib.Algebra.Order.Field.Rat
import Mathlib.Data.List.Nodup
import Mathlib.Data.List.Sort
import Mathlib.Tactic.Linarith
import InferenceEngine.Lib.Table
import InferenceEngine.Inference.Types

/-!
# Billing.Delivery

Outbound webhooks: the delivery table (`billing/webhooks/store.py`) and the worker that drains it
(`billing/webhooks/delivery.py`). The worker claims a batch of due deliveries and attempts them one
after the other. The transport turns the network errors it knows into a `TransportError`, which
counts as a failed attempt; anything else that the opener raises leaves the batch.

Parsing a URL for its host and the HMAC of a signature are parameters of the worker.

* `attempt_cases`: an attempt writes the row of its delivery and no other, or raises and writes
  nothing.
* `runOnce_records_iff`: a batch records an attempt for everything it reaches exactly when no POST
  of it raises, and every retry is put off.
-/

namespace InferenceEngine

/-! ## The store -/

inductive DeliveryStatus where
  | pending
  | succeeded
  | failed
  | dead
  deriving DecidableEq, Repr

structure Delivery where
  id : String
  endpointId : String
  payload : String
  status : DeliveryStatus := .pending
  attempts : Nat := 0
  nextAttemptAt : ℚ
  lastStatusCode : Option Int := none
  lastError : Option String := none
  updatedAt : ℚ
  deriving DecidableEq, Repr

structure Endpoint where
  id : String
  url : String
  disabled : Bool := false
  deriving DecidableEq, Repr

structure WebhookSecret where
  endpointId : String
  secret : String
  /-- an ISO time -/
  createdAt : String
  expiresAt : Option ℚ := none
  deriving DecidableEq, Repr

structure WebhookStore where
  endpoints : List Endpoint
  secrets : List WebhookSecret
  deliveries : List Delivery
  /-- `PRIMARY KEY (id)` -/
  ids : (deliveries.map (·.id)).Nodup

namespace WebhookStore

variable (store : WebhookStore)

def getEndpoint (endpointId : String) : Option Endpoint :=
  store.endpoints.find? fun e => e.id = endpointId

def activeSecrets (endpointId : String) (now : ℚ) : List String :=
  let active := store.secrets.filter fun s =>
    s.endpointId = endpointId && s.expiresAt.all fun expiresAt => now < expiresAt
  (active.insertionSort fun a b => b.createdAt ≤ a.createdAt).map (·.secret)

def claimDue (now : ℚ) (limit : Nat) : List Delivery :=
  let due := store.deliveries.filter fun d => d.status = .pending && d.nextAttemptAt ≤ now
  (due.insertionSort fun a b => a.nextAttemptAt ≤ b.nextAttemptAt).take limit

/-- What `_update` writes. -/
structure Outcome where
  status : DeliveryStatus
  attemptsInc : Bool := true
  statusCode : Option Int
  error : Option String
  nextAttemptAt : Option ℚ := none
  deriving DecidableEq, Repr

def Outcome.set (o : Outcome) (now : ℚ) (d : Delivery) : Delivery :=
  { d with
    status := o.status
    attempts := d.attempts + if o.attemptsInc then 1 else 0
    lastStatusCode := o.statusCode
    lastError := o.error
    nextAttemptAt := o.nextAttemptAt.getD d.nextAttemptAt
    updatedAt := now }

/-- `_update`. -/
def update (deliveryId : String) (o : Outcome) (now : ℚ) : WebhookStore :=
  { store with
    deliveries := Table.update (fun d => d.id = deliveryId) (o.set now) store.deliveries
    ids := by
      have hids : (Table.update (fun d => d.id = deliveryId)
          (o.set now) store.deliveries).map (·.id) =
          store.deliveries.map (·.id) := Table.map_update _ fun _ _ _ => rfl
      rw [hids]
      exact store.ids }

def markSucceeded (deliveryId : String) (statusCode : Int) (now : ℚ) : WebhookStore :=
  store.update deliveryId { status := .succeeded, statusCode := some statusCode, error := none } now

def markRetry (deliveryId : String) (nextAttemptAt : ℚ) (statusCode : Option Int)
    (error : Option String) (now : ℚ) : WebhookStore :=
  store.update deliveryId
    { status := .pending, statusCode := statusCode, error := error, nextAttemptAt := some nextAttemptAt }
    now

def markDead (deliveryId : String) (statusCode : Option Int) (error : Option String) (now : ℚ) :
    WebhookStore :=
  store.update deliveryId { status := .dead, statusCode := statusCode, error := error } now

end WebhookStore

/-! ## The transport -/

inductive Opened where
  | response (status : Int)
  /-- `HTTPError`: a reply that is not 2xx -/
  | httpError (code : Int)
  /-- `URLError`, `TimeoutError` or `OSError` -/
  | networkError (message : String)
  /-- any other exception, an `http.client.HTTPException` of a malformed reply among them -/
  | raised (e : Exc)
  deriving DecidableEq, Repr

inductive PostExc where
  | transportError (message : String)
  | other (e : Exc)
  deriving DecidableEq, Repr

def nonAsciiHostError : String :=
  "endpoint host is not ASCII; re-register it in the xn-- (punycode) form"

structure DeliveryWorker where
  /-- `urlsplit(url).hostname`; an error is a `ValueError` -/
  hostname : String → Except Unit (Option String)
  /-- `signing.sign(secret, msg_id, timestamp, body)` -/
  sign : String → String → Int → String → String
  maxAttempts : Nat := 5
  backoffScheduleS : List ℚ := []
  deliveryTimeoutS : ℚ := 10
  batchLimit : Nat := 50

structure Posted where
  deliveryId : String
  url : String
  body : String
  headers : List (String × String)
  timeout : ℚ
  deriving DecidableEq, Repr

def defaultBackoffScheduleS : List ℚ := [30, 120, 600, 1800]

namespace DeliveryWorker

variable (w : DeliveryWorker)

/-- `_max_attempts`. -/
def limit : Nat := max 1 w.maxAttempts

/-- `_schedule`. -/
def schedule : List ℚ :=
  if w.backoffScheduleS.isEmpty then defaultBackoffScheduleS else w.backoffScheduleS

def hostIsAscii (url : String) : Bool :=
  match w.hostname url with
  | .error _ => false
  | .ok none => true
  | .ok (some host) => host.toList.all fun c => c.toNat < 128

/-- `UrllibTransport.post`. -/
def post (url : String) (opened : Opened) : Except PostExc Int :=
  if !w.hostIsAscii url then .error (.transportError nonAsciiHostError)
  else
    match opened with
    | .response status => .ok status
    | .httpError code => .ok code
    | .networkError message => .error (.transportError message)
    | .raised e => .error (.other e)

end DeliveryWorker

/-- `_next_delay`. -/
def nextDelay (attemptsAfter : Nat) (schedule : List ℚ) : ℚ :=
  schedule[min (attemptsAfter - 1) (schedule.length - 1)]?.getD 0

/-- `signature_header`. -/
def signatureHeader (sign : String → String → Int → String → String) (secrets : List String)
    (msgId : String) (timestamp : Int) (body : String) : String :=
  String.intercalate " " (secrets.map fun s => "v1," ++ sign s msgId timestamp body)

def buildHeaders (sign : String → String → Int → String → String) (secrets : List String)
    (msgId : String) (timestamp : Int) (body : String) : List (String × String) :=
  [("content-type", "application/json"), ("webhook-id", msgId),
    ("webhook-timestamp", toString timestamp),
    ("webhook-signature", signatureHeader sign secrets msgId timestamp body),
    ("user-agent", "inference-engine-webhooks/1")]

/-! ## The worker -/

structure Outbox where
  store : WebhookStore
  sent : List Posted := []

structure BatchWorld where
  /-- whether a stop was requested by the time the loop comes to a delivery -/
  stopped : String → Bool
  /-- what the opener does with the POST of a delivery -/
  opened : String → Opened

namespace DeliveryWorker

variable (w : DeliveryWorker)

/-- `_on_failure`. -/
def onFailure (d : Delivery) (attemptsAfter : Nat) (statusCode : Option Int) (error : String)
    (now : ℚ) (store : WebhookStore) : WebhookStore :=
  if w.limit ≤ attemptsAfter then store.markDead d.id statusCode (some error) now
  else store.markRetry d.id (now + nextDelay attemptsAfter w.schedule) statusCode (some error) now

/-- `_attempt`. -/
def attempt (opened : Opened) (now : ℚ) (d : Delivery) (o : Outbox) : Except Exc Unit × Outbox :=
  match o.store.getEndpoint d.endpointId with
  | none =>
    (.ok (), { o with store := o.store.markDead d.id none (some "endpoint missing or disabled") now })
  | some endpoint =>
    if endpoint.disabled then
      (.ok (), { o with store := o.store.markDead d.id none (some "endpoint missing or disabled") now })
    else if !w.hostIsAscii endpoint.url then
      (.ok (), { o with store := o.store.markDead d.id none (some nonAsciiHostError) now })
    else
      let secrets := o.store.activeSecrets endpoint.id now
      let headers := buildHeaders w.sign secrets d.id (now.num.tdiv now.den) d.payload
      let attemptsAfter := d.attempts + 1
      let o : Outbox :=
        { o with
          sent := o.sent ++
            [{ deliveryId := d.id, url := endpoint.url, body := d.payload, headers := headers,
               timeout := w.deliveryTimeoutS }] }
      match w.post endpoint.url opened with
      | .error (.transportError message) =>
        (.ok (), { o with store := w.onFailure d attemptsAfter none message now o.store })
      | .error (.other e) => (.error e, o)
      | .ok statusCode =>
        if 200 ≤ statusCode ∧ statusCode < 300 then
          (.ok (), { o with store := o.store.markSucceeded d.id statusCode now })
        else
          (.ok (),
            { o with
              store := w.onFailure d attemptsAfter (some statusCode)
                ("HTTP " ++ toString statusCode) now
                o.store })

/-- The loop of `run_once`. -/
def runBatch (world : BatchWorld) (now : ℚ) : List Delivery → Nat → Outbox → Except Exc Nat × Outbox
  | [], attempted, o => (.ok attempted, o)
  | d :: due, attempted, o =>
    if world.stopped d.id then (.ok attempted, o)
    else
      match w.attempt (world.opened d.id) now d o with
      | (.error e, o) => (.error e, o)
      | (.ok _, o) => runBatch world now due (attempted + 1) o

def runOnce (world : BatchWorld) (now : ℚ) (store : WebhookStore) : Except Exc Nat × Outbox :=
  w.runBatch world now (store.claimDue now w.batchLimit) 0 { store := store }

/-! ## What an attempt does -/

/-- The endpoint that the delivery is posted to, if it is posted. -/
def target (endpoints : List Endpoint) (d : Delivery) : Option Endpoint :=
  (endpoints.find? fun e => e.id = d.endpointId).filter fun e => !e.disabled && w.hostIsAscii e.url

/-- A reply that counts as delivered. -/
def accepted : Opened → Bool
  | .response status => 200 ≤ status && status < 300
  | .httpError code => 200 ≤ code && code < 300
  | _ => false

/-- `row` is the row of `d` after an attempt. -/
def Recorded (d row : Delivery) : Prop :=
  row.id = d.id ∧ row.attempts = d.attempts + 1 ∧
    (row.status = .succeeded ∨ row.status = .pending ∧ d.nextAttemptAt < row.nextAttemptAt ∨
      row.status = .dead)

/-- What has to be the case of a delivery that is posted: the opener raises nothing but what the
transport knows, and if the attempt fails and is not the last, the delay puts the next one off. -/
def Settles (world : BatchWorld) (now : ℚ) (endpoints : List Endpoint) (d : Delivery) : Prop :=
  (w.target endpoints d).isSome → (∀ e, world.opened d.id ≠ .raised e) ∧
    (accepted (world.opened d.id) = false → d.attempts + 1 < w.limit →
      d.nextAttemptAt < now + nextDelay (d.attempts + 1) w.schedule)

variable {w} {world : BatchWorld} {now : ℚ} {d : Delivery} {o : Outbox}

theorem recorded_dead {statusCode : Option Int} {error : Option String} :
    Recorded d (WebhookStore.Outcome.set
      { status := .dead, statusCode := statusCode, error := error } now d) :=
  ⟨rfl, rfl, .inr (.inr rfl)⟩

theorem onFailure_writes (w : DeliveryWorker) (d : Delivery) (statusCode : Option Int)
    (error : String) (now : ℚ) (store : WebhookStore) :
    ∃ oc : WebhookStore.Outcome,
      w.onFailure d (d.attempts + 1) statusCode error now store = store.update d.id oc now ∧
      (Recorded d (oc.set now d) ↔ (d.attempts + 1 < w.limit →
        d.nextAttemptAt < now + nextDelay (d.attempts + 1) w.schedule)) := by
  unfold onFailure
  split
  · rename_i hlast
    refine ⟨_, rfl, iff_of_true recorded_dead fun hlt => ?_⟩
    omega
  · rename_i hmore
    refine ⟨_, rfl, ?_⟩
    constructor
    · rintro ⟨-, -, hstatus | ⟨-, hlater⟩ | hstatus⟩ _
      · cases hstatus
      · exact hlater
      · cases hstatus
    · intro hlater
      exact ⟨rfl, rfl, .inr (.inl ⟨rfl, hlater (Nat.not_le.mp hmore)⟩)⟩

theorem attempt_unsent (opened : Opened) (now : ℚ)
    (h : w.target o.store.endpoints d = none) :
    ∃ error, w.attempt opened now d o =
      (.ok (), { o with store := o.store.markDead d.id none (some error) now }) := by
  unfold target at h
  unfold attempt WebhookStore.getEndpoint
  cases hfind : o.store.endpoints.find? fun e => e.id = d.endpointId with
  | none => exact ⟨_, rfl⟩
  | some endpoint =>
    rw [hfind] at h
    dsimp only
    by_cases hdisabled : endpoint.disabled = true
    · rw [if_pos hdisabled]
      exact ⟨_, rfl⟩
    · by_cases hascii : w.hostIsAscii endpoint.url = true
      · simp [Option.filter, hdisabled, hascii] at h
      · rw [if_neg hdisabled, if_pos (by simpa using hascii)]
        exact ⟨_, rfl⟩

/-- A delivery that is posted is recorded as succeeded or failed, unless the opener raises. -/
theorem attempt_sent {endpoint : Endpoint} (opened : Opened) (now : ℚ)
    (h : w.target o.store.endpoints d = some endpoint) :
    (∃ e, opened = .raised e ∧ (w.attempt opened now d o).1 = .error e ∧
      (w.attempt opened now d o).2.store = o.store) ∨
    (∀ e, opened ≠ .raised e) ∧ (w.attempt opened now d o).1 = .ok () ∧
      ((accepted opened = true ∧ ∃ statusCode,
          (w.attempt opened now d o).2.store = o.store.markSucceeded d.id statusCode now) ∨
        accepted opened = false ∧ ∃ statusCode error, (w.attempt opened now d o).2.store =
          w.onFailure d (d.attempts + 1) statusCode error now o.store) := by
  unfold target at h
  obtain ⟨hfind, hcond⟩ := Option.filter_eq_some_iff.mp h
  simp only [Bool.and_eq_true, Bool.not_eq_true'] at hcond
  obtain ⟨hdisabled, hascii⟩ := hcond
  unfold attempt WebhookStore.getEndpoint post
  rw [hfind]
  simp only [hdisabled, hascii, Bool.not_true, Bool.false_eq_true, if_false]
  cases opened with
  | raised e => exact .inl ⟨e, rfl, rfl, rfl⟩
  | networkError message =>
    exact .inr ⟨by simp, rfl, .inr ⟨rfl, _, _, rfl⟩⟩
  | response status | httpError status =>
    refine .inr ⟨by simp, ?_⟩
    by_cases hok : 200 ≤ status ∧ status < 300
    · simp only [hok, and_self, if_true, true_and]
      exact .inl ⟨by simp [accepted, hok], _, rfl⟩
    · simp only [hok, if_false, true_and]
      exact .inr ⟨by simpa [accepted] using hok, _, _, rfl⟩

/-- An attempt raises what the transport does not know and writes nothing, or it writes the row of
its delivery; the row is that of an attempt exactly when the delivery settles. -/
theorem attempt_cases (w : DeliveryWorker) (world : BatchWorld) (now : ℚ) (d : Delivery)
    (o : Outbox) : (∃ e, (w.attempt (world.opened d.id) now d o).1 = .error e ∧
      (w.attempt (world.opened d.id) now d o).2.store = o.store ∧
      ¬ w.Settles world now o.store.endpoints d) ∨
    ∃ oc : WebhookStore.Outcome, (w.attempt (world.opened d.id) now d o).1 = .ok () ∧
      (w.attempt (world.opened d.id) now d o).2.store = o.store.update d.id oc now ∧
      (Recorded d (oc.set now d) ↔ w.Settles world now o.store.endpoints d) := by
  unfold Settles
  cases htarget : w.target o.store.endpoints d with
  | none =>
    obtain ⟨error, heq⟩ := attempt_unsent (world.opened d.id) now htarget
    rw [heq]
    exact .inr ⟨_, rfl, rfl, iff_of_true recorded_dead (by simp)⟩
  | some endpoint =>
    simp only [Option.isSome_some, forall_true_left]
    rcases attempt_sent (world.opened d.id) now htarget with
      ⟨e, hopened, herror, hstore⟩ | ⟨hopened, hok,
        ⟨haccepted, code, hstore⟩ | ⟨hfailed, code, error, hstore⟩⟩
    · exact .inl ⟨e, herror, hstore, fun h => h.1 e hopened⟩
    · refine .inr ⟨_, hok, hstore, iff_of_true ⟨rfl, rfl, .inl rfl⟩ ⟨hopened, fun hnot => ?_⟩⟩
      rw [haccepted] at hnot
      cases hnot
    · obtain ⟨oc, hwrites, hiff⟩ := onFailure_writes w d code error now o.store
      refine .inr ⟨oc, hok, hstore.trans hwrites, ?_⟩
      rw [hiff]
      exact ⟨fun hlater => ⟨hopened, fun _ => hlater⟩, fun h => h.2 hfailed⟩

theorem attempt_posts (w : DeliveryWorker) (opened : Opened) (now : ℚ) (d : Delivery) (o : Outbox) :
    ∀ p ∈ (w.attempt opened now d o).2.sent, p ∈ o.sent ∨ p.deliveryId = d.id := by
  intro p hp
  unfold attempt at hp
  split at hp
  · exact .inl hp
  · split at hp
    · exact .inl hp
    · split at hp
      · exact .inl hp
      · dsimp only at hp
        have hsent : ∃ q : Posted, q.deliveryId = d.id ∧ p ∈ o.sent ++ [q] := by
          split at hp
          · exact ⟨_, rfl, hp⟩
          · exact ⟨_, rfl, hp⟩
          · split at hp
            · exact ⟨_, rfl, hp⟩
            · exact ⟨_, rfl, hp⟩
        obtain ⟨q, hq, hp⟩ := hsent
        rcases List.mem_append.mp hp with hp | hp
        · exact .inl hp
        · rw [List.mem_singleton.mp hp]
          exact .inr hq

/-! ## A batch -/

/-- The deliveries of a batch that the loop comes to before a stop is requested. -/
def reached (world : BatchWorld) (due : List Delivery) : List Delivery :=
  due.takeWhile fun d => !world.stopped d.id

theorem reached_cons (world : BatchWorld) (d : Delivery) (due : List Delivery) :
    reached world (d :: due) = if world.stopped d.id then [] else d :: reached world due := by
  unfold reached
  rw [List.takeWhile_cons]
  cases world.stopped d.id with
  | true => rfl
  | false => rfl

theorem mem_update_other {store : WebhookStore} {id : String} {oc : WebhookStore.Outcome}
    {row : Delivery} (hrow : row ∈ store.deliveries) (hne : row.id ≠ id) :
    row ∈ (store.update id oc now).deliveries :=
  Table.mem_update_of_mem hrow (by simpa using hne)

theorem mem_update_self {store : WebhookStore} {oc : WebhookStore.Outcome}
    (hd : d ∈ store.deliveries) :
    oc.set now d ∈ (store.update d.id oc now).deliveries :=
  List.mem_map.mpr ⟨d, hd, by simp⟩

theorem eq_of_id (store : WebhookStore) {a b : Delivery} (ha : a ∈ store.deliveries)
    (hb : b ∈ store.deliveries) (hid : a.id = b.id) : a = b :=
  List.inj_on_of_nodup_map store.ids ha hb hid

theorem runBatch_frame {due : List Delivery} {n : Nat} {row : Delivery}
    (hrow : row ∈ o.store.deliveries) (hother : ∀ d ∈ due, row.id ≠ d.id) :
    row ∈ (w.runBatch world now due n o).2.store.deliveries := by
  induction due generalizing n o with
  | nil => exact hrow
  | cons d due ih =>
    unfold runBatch
    split
    · exact hrow
    · have hnext : row ∈ (w.attempt (world.opened d.id) now d o).2.store.deliveries := by
        rcases attempt_cases w world now d o with ⟨e, -, hstore, -⟩ | ⟨oc, -, hstore, -⟩
        · rw [hstore]
          exact hrow
        · rw [hstore]
          exact mem_update_other hrow (hother d (List.mem_cons_self ..))
      split
      · rename_i e o₁ hres
        rw [hres] at hnext
        exact hnext
      · rename_i u o₁ hres
        rw [hres] at hnext
        exact ih hnext fun d' hd' => hother d' (List.mem_cons_of_mem d hd')

/-- What is recorded of a batch, by induction on what is left of it. -/
theorem runBatch_records_iff {due : List Delivery} {n : Nat}
    (hin : ∀ d ∈ due, d ∈ o.store.deliveries) (hids : (due.map (·.id)).Nodup) :
    (∀ d ∈ reached world due,
        ∃ row ∈ (w.runBatch world now due n o).2.store.deliveries, Recorded d row) ↔
      ∀ d ∈ reached world due, w.Settles world now o.store.endpoints d := by
  induction due generalizing n o with
  | nil => exact iff_of_true (by simp [reached]) (by simp [reached])
  | cons d due ih =>
    rw [reached_cons]
    unfold runBatch
    split
    · simp
    · simp only [List.forall_mem_cons]
      rw [List.map_cons, List.nodup_cons] at hids
      have hd := hin d (List.mem_cons_self ..)
      have hother : ∀ d' ∈ due, d.id ≠ d'.id := by
        intro d' hd' heq
        exact hids.1 (List.mem_map.mpr ⟨d', hd', heq.symm⟩)
      rcases attempt_cases w world now d o with ⟨e, hres, hstore, hnot⟩ | ⟨oc, hres, hstore, hiff⟩
      · -- the exception leaves the batch, and the row as it was
        generalize w.attempt (world.opened d.id) now d o = a at hres hstore ⊢
        obtain ⟨res, o₁⟩ := a
        subst hres
        refine iff_of_false (fun h => ?_) fun h => hnot h.1
        obtain ⟨row, hrow, hid, hattempts, -⟩ := h.1
        rw [show (Except.error e, o₁).2.store = o.store from hstore] at hrow
        rw [eq_of_id o.store hrow hd hid] at hattempts
        omega
      · generalize w.attempt (world.opened d.id) now d o = a at hres hstore ⊢
        obtain ⟨res, o₁⟩ := a
        dsimp only at hstore
        subst hres
        dsimp only
        have hself : oc.set now d ∈ o₁.store.deliveries := by
          rw [hstore]
          exact mem_update_self hd
        have hendpoints : o₁.store.endpoints = o.store.endpoints := by
          rw [hstore]
          rfl
        have hrest := ih (n := n + 1) (o := o₁)
          (fun d' hd' => by
            rw [hstore]
            exact mem_update_other (hin d' (List.mem_cons_of_mem d hd'))
              (hother d' hd').symm) hids.2
        rw [hendpoints] at hrest
        refine and_congr (Iff.trans ?_ hiff) hrest
        have hkept : oc.set now d ∈ (w.runBatch world now due (n + 1) o₁).2.store.deliveries :=
          runBatch_frame hself hother
        constructor
        · rintro ⟨row, hrow, hrecorded⟩
          rw [← eq_of_id _ hrow hkept hrecorded.1]
          exact hrecorded
        · intro hrecorded
          exact ⟨_, hkept, hrecorded⟩

theorem runBatch_returns {due : List Delivery} {n : Nat}
    (hsettles : ∀ d ∈ reached world due, w.Settles world now o.store.endpoints d) :
    (w.runBatch world now due n o).1 = .ok (n + (reached world due).length) := by
  induction due generalizing n o with
  | nil => rfl
  | cons d due ih =>
    rw [reached_cons] at hsettles ⊢
    unfold runBatch
    split
    · rfl
    · rename_i hgo
      rw [if_neg hgo] at hsettles
      rw [List.forall_mem_cons] at hsettles
      rcases attempt_cases w world now d o with ⟨e, -, -, hnot⟩ | ⟨oc, hres, hstore, -⟩
      · exact absurd hsettles.1 hnot
      · generalize w.attempt (world.opened d.id) now d o = a at hres hstore ⊢
        obtain ⟨res, o₁⟩ := a
        dsimp only at hstore
        subst hres
        have hendpoints : o₁.store.endpoints = o.store.endpoints := by
          rw [hstore]
          rfl
        dsimp only
        rw [ih (n := n + 1) (o := o₁) (by rw [hendpoints]; exact hsettles.2), List.length_cons]
        congr 1
        omega

theorem runBatch_posts {due : List Delivery} {n : Nat} :
    ∀ p ∈ (w.runBatch world now due n o).2.sent,
      p ∈ o.sent ∨ ∃ d ∈ reached world due, p.deliveryId = d.id := by
  induction due generalizing n o with
  | nil => exact fun p hp => .inl hp
  | cons d due ih =>
    intro p hp
    rw [reached_cons]
    unfold runBatch at hp
    split at hp
    · exact .inl hp
    · rename_i hgo
      rw [if_neg hgo]
      have hposts := attempt_posts w (world.opened d.id) now d o
      generalize w.attempt (world.opened d.id) now d o = a at hposts hp
      obtain ⟨res, o₁⟩ := a
      have hfirst : p ∈ o₁.sent → p ∈ o.sent ∨ ∃ d' ∈ d :: reached world due,
          p.deliveryId = d'.id := by
        intro hp
        exact (hposts p hp).imp_right fun hid => ⟨d, List.mem_cons_self .., hid⟩
      cases res with
      | error e => exact hfirst hp
      | ok u =>
        rcases ih p hp with hp | ⟨d', hd', hid⟩
        · exact hfirst hp
        · exact .inr ⟨d', List.mem_cons_of_mem d hd', hid⟩

theorem mem_claimDue {store : WebhookStore} {limit : Nat} (h : d ∈ store.claimDue now limit) :
    d ∈ store.deliveries :=
  List.mem_of_mem_filter ((List.mem_insertionSort _).mp (List.mem_of_mem_take h))

theorem claimDue_ids (store : WebhookStore) (now : ℚ) (limit : Nat) :
    ((store.claimDue now limit).map (·.id)).Nodup := by
  have hsub := (List.take_sublist limit
    ((store.deliveries.filter fun d => d.status = .pending && d.nextAttemptAt ≤ now).insertionSort
      fun a b => a.nextAttemptAt ≤ b.nextAttemptAt)).map (·.id)
  refine List.Nodup.sublist hsub ?_
  rw [((List.perm_insertionSort _ _).map _).nodup_iff]
  exact store.ids.sublist (List.filter_sublist.map _)

/-- What a batch has to do. -/
structure Processed (w : DeliveryWorker) (world : BatchWorld) (now : ℚ) (store : WebhookStore) :
    Prop
    where
  /-- everything that is due is attempted, unless a stop is requested first -/
  reached : ∀ d ∈ reached world (store.claimDue now w.batchLimit),
    ∃ row ∈ (w.runOnce world now store).2.store.deliveries, Recorded d row
  sent : ∀ p ∈ (w.runOnce world now store).2.sent, ∃ d ∈ store.claimDue now w.batchLimit,
    d.id = p.deliveryId ∧ ∃ row ∈ (w.runOnce world now store).2.store.deliveries, Recorded d row
  returned : (w.runOnce world now store).1 =
    .ok (DeliveryWorker.reached world (store.claimDue now w.batchLimit)).length

/-- For every batch, every outcome of its POSTs and whenever a stop is requested: an attempt is
recorded for every delivery that is reached or sent exactly when no POST raises anything but what
the transport knows, and every failed attempt that is not the last is put off by its delay. -/
theorem runOnce_records_iff (w : DeliveryWorker) (world : BatchWorld) (now : ℚ)
    (store : WebhookStore) :
    w.Processed world now store ↔
      ∀ d ∈ reached world (store.claimDue now w.batchLimit),
      w.Settles world now store.endpoints d := by
  have hiff : (∀ d ∈ reached world (store.claimDue now w.batchLimit),
      ∃ row ∈ (w.runOnce world now store).2.store.deliveries, Recorded d row) ↔
      ∀ d ∈ reached world (store.claimDue now w.batchLimit),
        w.Settles world now store.endpoints d :=
    runBatch_records_iff (fun d hd => mem_claimDue hd) (claimDue_ids store now w.batchLimit)
  constructor
  · intro h
    exact hiff.mp h.reached
  · intro hsettles
    have hreached := hiff.mpr hsettles
    refine ⟨hreached, fun p hp => ?_, ?_⟩
    · rcases runBatch_posts p hp with hp | ⟨d, hd, hid⟩
      · cases hp
      · exact ⟨d, List.takeWhile_subset _ hd, hid.symm, hreached d hd⟩
    · have hreturns := runBatch_returns (n := 0) (o := { store := store }) hsettles
      rw [Nat.zero_add] at hreturns
      exact hreturns

def plainWorker : DeliveryWorker where
  hostname _ := .ok (some "hooks.example.com")
  sign _ _ _ _ := "c2ln"

/-- Two clients with a delivery each. -/
def twoDue : WebhookStore where
  endpoints := [{ id := "e1", url := "https://a.example.com" },
    { id := "e2", url := "https://b.example.com" }]
  secrets := []
  deliveries :=
    [{ id := "d1", endpointId := "e1", payload := "", nextAttemptAt := 0, updatedAt := 0 },
      { id := "d2", endpointId := "e2", payload := "", nextAttemptAt := 1, updatedAt := 1 }]
  ids := by decide

/-- The first endpoint answers with something that is not HTTP. -/
def malformedReply : BatchWorld where
  stopped _ := false
  opened id := if id = "d1" then .raised (.other "BadStatusLine") else .response 200

/-- Nothing is recorded of the delivery that was sent, and the other one is not attempted. -/
theorem malformed_reply_blocks :
    (plainWorker.runOnce malformedReply 2 twoDue).1 = .error (.other "BadStatusLine") ∧
      (plainWorker.runOnce malformedReply 2 twoDue).2.sent.map (·.deliveryId) = ["d1"] ∧
      (plainWorker.runOnce malformedReply 2 twoDue).2.store.deliveries = twoDue.deliveries ∧
      ¬ plainWorker.Processed malformedReply 2 twoDue := by
  have hrows : (plainWorker.runOnce malformedReply 2 twoDue).2.store.deliveries =
      twoDue.deliveries := by
    decide +kernel
  refine ⟨by decide +kernel, by decide +kernel, hrows, fun h => ?_⟩
  have hreached : twoDue.deliveries.head (by decide) ∈
      reached malformedReply (twoDue.claimDue 2 plainWorker.batchLimit) := by
    decide +kernel
  obtain ⟨row, hrow, hid, hattempts, -⟩ := h.reached _ hreached
  rw [hrows] at hrow
  rw [eq_of_id twoDue hrow (List.head_mem _) hid] at hattempts
  omega

end DeliveryWorker

end InferenceEngine
