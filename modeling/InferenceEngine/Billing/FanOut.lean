import InferenceEngine.Billing.Delivery
import InferenceEngine.Lib.Run

/-!
# Billing.FanOut

How an event comes to the endpoints of its client (`enqueue_event` in `billing/webhooks/store.py`,
which `emit` of the dispatcher calls), while endpoints are created, switched off and deleted, the
worker records its attempts, and other events are emitted. The endpoints are read in a statement of
its own; the deliveries are inserted in a transaction, later. Anything may happen between the two.

The tables keep their foreign keys: a delivery goes with its endpoint, and none can be inserted for
an endpoint that is gone. `INSERT OR IGNORE` ignores a row that is there, but not an endpoint that
is not.

What `uuid4` returns was never returned before: that is asked of the labels, and `used` keeps the
endpoint ids.

* `enqueue_eq`: the loop of inserts, as one insertion of all the rows that are missing.
* `all_or_none`: what a fan-out writes.
* `queued_once`: what the queue holds, in every state of every run.
-/

namespace InferenceEngine
namespace FanOut

open Lts

structure EndpointRow extends Endpoint where
  clientId : String
  eventTypes : Option (List String)
  deriving DecidableEq, Repr

structure DeliveryRow extends Delivery where
  eventId : String
  eventType : String
  createdAt : ℚ
  deriving DecidableEq, Repr

/-- What `emit` is asked for: the payload is the envelope. -/
structure Event where
  clientId : String
  eventId : String
  eventType : String
  payload : String
  deriving DecidableEq, Repr

def EndpointRow.subscribed (e : EndpointRow) (event : Event) : Bool :=
  e.eventTypes.all fun types => types.contains event.eventType

/-- The delivery of an event to an endpoint. -/
def DeliveryRow.isFor (d : DeliveryRow) (endpointId eventId : String) : Bool :=
  d.endpointId = endpointId && d.eventId = eventId

structure Tables where
  endpoints : List EndpointRow
  deliveries : List DeliveryRow

namespace Tables

variable (t : Tables)

def hasEndpoint (endpointId : String) : Bool := t.endpoints.any fun e => e.id = endpointId

def hasDelivery (endpointId eventId : String) : Bool :=
  t.deliveries.any fun d => d.isFor endpointId eventId

/-- The `SELECT` of `enqueue_event`. -/
def enabled (clientId : String) : List EndpointRow :=
  t.endpoints.filter fun e => e.clientId = clientId && !e.disabled

/-- `INSERT OR IGNORE INTO webhook_deliveries`; an error is an `IntegrityError`. -/
def insert (row : DeliveryRow) : Except Unit (Nat × Tables) :=
  if t.deliveries.any (fun d => d.id =
    row.id) || t.hasDelivery row.endpointId row.eventId then .ok (0, t)
  else if t.hasEndpoint row.endpointId then .ok (1, { t with deliveries := t.deliveries ++ [row] })
  else .error ()

def setDisabled (endpointId : String) (disabled : Bool) : Tables :=
  { t with
    endpoints := Table.update (fun e => e.id = endpointId)
      (fun e => { e with disabled := disabled }) t.endpoints }

/-- `DELETE FROM webhook_endpoints`, and `ON DELETE CASCADE`. -/
def deleteEndpoint (endpointId : String) : Tables where
  endpoints := t.endpoints.filter fun e => e.id ≠ endpointId
  deliveries := t.deliveries.filter fun d => d.endpointId ≠ endpointId

/-- `_update` of the worker. -/
def record (deliveryId : String) (o : WebhookStore.Outcome) (now : ℚ) : Tables :=
  { t with
    deliveries := Table.update (fun d => d.id = deliveryId)
      (fun d => { d with toDelivery := o.set now d.toDelivery }) t.deliveries }

end Tables

def newRow (event : Event) (now : ℚ) (e : EndpointRow) (uuid : String) : DeliveryRow where
  id := uuid
  endpointId := e.id
  payload := event.payload
  nextAttemptAt := now
  updatedAt := now
  eventId := event.eventId
  eventType := event.eventType
  createdAt := now

/-- The loop of `enqueue_event`, over the endpoints that were read and what `uuid4` returns for
them. -/
def enqueue (event : Event) (now : ℚ) :
    List (EndpointRow × String) → Tables → Except Unit (Nat × Tables)
  | [], t => .ok (0, t)
  | (e, uuid) :: rest, t =>
    if e.subscribed event then
      match t.insert (newRow event now e uuid) with
      | .ok (created, t) => (enqueue event now rest t).map fun r => (created + r.1, r.2)
      | .error () => .error ()
    else enqueue event now rest t

/-! ## Steps -/

inductive Phase where
  | called
  | read (rows : List EndpointRow)
  | done (rows : List EndpointRow) (created : Nat)
  /-- an exception, and a transaction that was rolled back -/
  | failed
  deriving DecidableEq, Repr

def Phase.rows : Phase → List EndpointRow
  | .read rows | .done rows _ => rows
  | _ => []

structure Emission where
  event : Event
  phase : Phase
  deriving DecidableEq, Repr

structure St where
  tables : Tables
  /-- the endpoint ids that were ever given -/
  used : List String
  emissions : List Emission

def init : St := ⟨⟨[], []⟩, [], []⟩

inductive Label where
  | createEndpoint (row : EndpointRow)
  | setDisabled (endpointId : String) (disabled : Bool)
  | deleteEndpoint (endpointId : String)
  | emit (event : Event)
  | read (i : Nat)
  | write (i : Nat) (uuids : List String) (now : ℚ)
  /-- a statement of the emission raises, or waits for the database too long -/
  | fail (i : Nat)
  /-- the worker records an attempt -/
  | record (deliveryId : String) (o : WebhookStore.Outcome) (now : ℚ)

def St.setPhase (s : St) (i : Nat) (phase : Phase) : St :=
  { s with emissions := s.emissions.modify i fun em => { em with phase := phase } }

def St.phase (s : St) (i : Nat) : Option Phase := s.emissions[i]?.map (·.phase)

def write (s : St) (i : Nat) (event : Event) (rows : List EndpointRow) (uuids : List String)
    (now : ℚ) : St :=
  match enqueue event now (rows.zip uuids) s.tables with
  | .ok (created, tables) => { s with tables := tables }.setPhase i (.done rows created)
  | .error () => s.setPhase i .failed

/-- `uuid4`. -/
def freshIds (s : St) (rows : List EndpointRow) (uuids : List String) : Bool :=
  uuids.length = rows.length && uuids.Nodup &&
    uuids.all fun uuid => s.tables.deliveries.all fun d => d.id ≠ uuid

def step (s : St) : Label → Option St
  | .createEndpoint row =>
    if s.used.contains row.id || row.disabled then none
    else
      some { s with
        tables := { s.tables with endpoints := s.tables.endpoints ++ [row] }
        used := row.id :: s.used }
  | .setDisabled endpointId disabled =>
    some { s with tables := s.tables.setDisabled endpointId disabled }
  | .deleteEndpoint endpointId => some { s with tables := s.tables.deleteEndpoint endpointId }
  | .emit event => some { s with emissions := s.emissions ++ [⟨event, .called⟩] }
  | .read i =>
    s.emissions[i]?.bind fun em =>
      match em.phase with
      | .called => some (s.setPhase i (.read (s.tables.enabled em.event.clientId)))
      | _ => none
  | .write i uuids now =>
    s.emissions[i]?.bind fun em =>
      match em.phase with
      | .read rows =>
        if freshIds s rows uuids then some (write s i em.event rows uuids now) else none
      | _ => none
  | .fail i =>
    s.emissions[i]?.bind fun em =>
      match em.phase with
      | .called | .read _ => some (s.setPhase i .failed)
      | _ => none
  | .record deliveryId o now => some { s with tables := s.tables.record deliveryId o now }

/-! ## The loop -/

variable {t t' : Tables} {event : Event} {now : ℚ} {ps : List (EndpointRow × String)}
  {endpointId eventId : String}

/-- The endpoints whose deliveries are to be inserted. -/
def Tables.missing (t : Tables) (event : Event) (ps : List (EndpointRow × String)) :
    List (EndpointRow × String) :=
  ps.filter fun p => p.1.subscribed event && !t.hasDelivery p.1.id event.eventId

def Tables.queue (t : Tables) (event : Event) (now : ℚ) (ps : List (EndpointRow × String)) :
    Tables :=
  { t with deliveries := t.deliveries ++ (t.missing event ps).map fun p => newRow event now p.1 p.2 }

structure Distinct (t : Tables) (ps : List (EndpointRow × String)) : Prop where
  endpoints : (ps.map fun p => p.1.id).Nodup
  uuids : (ps.map (·.2)).Nodup
  fresh : ∀ p ∈ ps, ∀ d ∈ t.deliveries, d.id ≠ p.2

theorem hasDelivery_append (rows : List DeliveryRow) :
    Tables.hasDelivery { t with deliveries := t.deliveries ++ rows } endpointId eventId =
      (t.hasDelivery endpointId eventId || rows.any fun d => d.isFor endpointId eventId) := by
  simp [Tables.hasDelivery]

namespace Distinct

variable {e : EndpointRow} {uuid : String}

theorem tail (hd : Distinct t ((e, uuid) :: ps)) : Distinct t ps where
  endpoints := (List.nodup_cons.mp hd.endpoints).2
  uuids := (List.nodup_cons.mp hd.uuids).2
  fresh p hp := hd.fresh p (List.mem_cons_of_mem _ hp)

theorem inserted (hd : Distinct t ((e, uuid) :: ps)) :
    Distinct { t with deliveries := t.deliveries ++ [newRow event now e uuid] } ps where
  endpoints := hd.tail.endpoints
  uuids := hd.tail.uuids
  fresh p hp d hmem := by
    rcases List.mem_append.mp hmem with hmem | hmem
    · exact hd.tail.fresh p hp d hmem
    · rw [List.mem_singleton.mp hmem]
      rintro rfl
      exact (List.nodup_cons.mp hd.uuids).1 (List.mem_map.mpr ⟨p, hp, rfl⟩)

theorem missing_inserted (hd : Distinct t ((e, uuid) :: ps)) :
    Tables.missing { t with deliveries := t.deliveries ++ [newRow event now e uuid] } event ps =
      t.missing event ps := by
  refine List.filter_congr fun p hp => ?_
  have hne : e.id ≠ p.1.id := fun heq =>
    (List.nodup_cons.mp hd.endpoints).1 (List.mem_map.mpr ⟨p, hp, heq.symm⟩)
  simp [hasDelivery_append, DeliveryRow.isFor, newRow, hne]

theorem insert_eq (hd : Distinct t ((e, uuid) :: ps)) :
    t.insert (newRow event now e uuid) =
      if t.hasDelivery e.id event.eventId then .ok (0, t)
      else if t.hasEndpoint e.id then .ok (1,
      { t with deliveries := t.deliveries ++ [newRow event now e uuid] })
      else .error () := by
  have hfresh : (t.deliveries.any fun d => d.id = (newRow event now e uuid).id) = false :=
    List.any_eq_false.mpr fun d hmem heq =>
      hd.fresh (e, uuid) (List.mem_cons_self ..) d hmem (of_decide_eq_true heq)
  unfold Tables.insert
  rw [hfresh, Bool.false_or]
  rfl

end Distinct

/-- The loop inserts what is missing, or finds an endpoint gone. -/
theorem enqueue_eq (hd : Distinct t ps) :
    enqueue event now ps t =
      if (t.missing event ps).all fun p => t.hasEndpoint p.1.id
      then .ok ((t.missing event ps).length, t.queue event now ps) else .error () := by
  induction ps generalizing t with
  | nil => simp [enqueue, Tables.missing, Tables.queue]
  | cons p ps ih =>
    obtain ⟨e, uuid⟩ := p
    unfold enqueue
    cases hsub : e.subscribed event with
    | false =>
      have hmissing : t.missing event ((e, uuid) :: ps) = t.missing event ps := by
        simp [Tables.missing, hsub]
      rw [if_neg Bool.false_ne_true, ih hd.tail, Tables.queue, Tables.queue, hmissing]
    | true =>
      rw [if_pos rfl, hd.insert_eq]
      cases hhas : t.hasDelivery e.id event.eventId with
      | true =>
        have hmissing : t.missing event ((e, uuid) :: ps) = t.missing event ps := by
          simp [Tables.missing, hhas]
        rw [if_pos rfl, Tables.queue, hmissing]
        simp only [ih hd.tail]
        split <;> simp [Except.map, Tables.queue]
      | false =>
        have hmissing : t.missing event ((e, uuid) :: ps) = (e, uuid) :: t.missing event ps := by
          simp [Tables.missing, hsub, hhas]
        rw [if_neg Bool.false_ne_true, Tables.queue, hmissing, List.all_cons]
        cases hend : t.hasEndpoint e.id with
        | true =>
          rw [if_pos rfl, Bool.true_and]
          simp only [ih hd.inserted, Tables.queue, hd.missing_inserted]
          have hsame : Tables.hasEndpoint { t with
              deliveries := t.deliveries ++ [newRow event now e uuid] } =
              t.hasEndpoint := rfl
          rw [hsame]
          split <;> simp [Except.map, Nat.add_comm]
        | false => rfl

/-! ## The tables -/

/-- The constraints of the schema. -/
structure Tables.Valid (t : Tables) : Prop where
  endpoints : (t.endpoints.map (·.id)).Nodup
  ids : (t.deliveries.map (·.id)).Nodup
  once : (t.deliveries.map fun d => (d.endpointId, d.eventId)).Nodup
  foreign : ∀ d ∈ t.deliveries, t.hasEndpoint d.endpointId = true

theorem hasEndpoint_iff : t.hasEndpoint endpointId = true ↔ ∃ e ∈ t.endpoints,
    e.id = endpointId := by
  simp [Tables.hasEndpoint]

theorem hasDelivery_iff : t.hasDelivery endpointId eventId = true ↔
    ∃ d ∈ t.deliveries, d.endpointId = endpointId ∧ d.eventId = eventId := by
  simp [Tables.hasDelivery, DeliveryRow.isFor]

theorem mem_missing {p : EndpointRow × String} : p ∈ t.missing event ps ↔
    p ∈ ps ∧ p.1.subscribed event = true ∧ t.hasDelivery p.1.id event.eventId = false := by
  simp [Tables.missing]

theorem Tables.Valid.queue (h : t.Valid) (hd : Distinct t ps)
    (hfound : ∀ p ∈ t.missing event ps, t.hasEndpoint p.1.id = true) :
    (t.queue event now ps).Valid where
  endpoints := h.endpoints
  ids := by
    have hnew : ((t.missing event ps).map (·.2)).Nodup :=
      hd.uuids.sublist (List.filter_sublist.map _)
    simp only [Tables.queue, List.map_append, List.map_map]
    refine List.nodup_append.mpr ⟨h.ids, hnew, fun id hid id' hid' => ?_⟩
    obtain ⟨d, hmem, rfl⟩ := List.mem_map.mp hid
    obtain ⟨p, hp, rfl⟩ := List.mem_map.mp hid'
    exact hd.fresh p (mem_missing.mp hp).1 d hmem
  once := by
    have hnew : ((t.missing event ps).map fun p => (p.1.id, event.eventId)).Nodup := by
      have hids : ((t.missing event ps).map fun p => p.1.id).Nodup :=
        hd.endpoints.sublist (List.filter_sublist.map _)
      have hkeys := hids.map fun a b (heq : (a, event.eventId) =
          (b, event.eventId)) => (Prod.mk.inj heq).1
      rwa [List.map_map] at hkeys
    simp only [Tables.queue, List.map_append, List.map_map]
    refine List.nodup_append.mpr ⟨h.once, hnew, fun key hkey key' hkey' => ?_⟩
    obtain ⟨d, hmem, rfl⟩ := List.mem_map.mp hkey
    obtain ⟨p, hp, rfl⟩ := List.mem_map.mp hkey'
    rintro heq
    have hhas : t.hasDelivery p.1.id event.eventId = true :=
      hasDelivery_iff.mpr ⟨d, hmem, (Prod.mk.inj heq).1, (Prod.mk.inj heq).2⟩
    exact absurd ((mem_missing.mp hp).2.2.symm.trans hhas) (by decide)
  foreign d hmem := by
    rcases List.mem_append.mp hmem with hmem | hmem
    · exact h.foreign d hmem
    · obtain ⟨p, hp, rfl⟩ := List.mem_map.mp hmem
      exact hfound p hp

theorem hasDelivery_queue {p : EndpointRow × String} (hp : p ∈ ps)
    (hsub : p.1.subscribed event = true) :
    (t.queue event now ps).hasDelivery p.1.id event.eventId = true := by
  cases hhas : t.hasDelivery p.1.id event.eventId with
  | true => simp [Tables.queue, hasDelivery_append, hhas]
  | false =>
    have hnew := List.mem_map_of_mem (f := fun p => newRow event now p.1 p.2)
        (mem_missing.mpr ⟨hp, hsub, hhas⟩)
    exact hasDelivery_iff.mpr ⟨_, List.mem_append_right _ hnew, rfl, rfl⟩

theorem hasDelivery_queue_of (h : t.hasDelivery endpointId eventId = true) :
    (t.queue event now ps).hasDelivery endpointId eventId = true := by
  simp [Tables.queue, hasDelivery_append, h]

theorem Tables.Valid.createEndpoint (h : t.Valid) {row : EndpointRow}
    (hnew : t.hasEndpoint row.id = false) :
    Tables.Valid { t with endpoints := t.endpoints ++ [row] } where
  endpoints := by
    rw [List.map_append]
    refine List.nodup_append.mpr ⟨h.endpoints, List.nodup_singleton _, fun id hid id' hid' => ?_⟩
    obtain ⟨e, he, rfl⟩ := List.mem_map.mp hid
    rw [List.mem_singleton.mp hid']
    intro heq
    exact absurd (hnew.symm.trans (hasEndpoint_iff.mpr ⟨e, he, heq⟩)) (by decide)
  ids := h.ids
  once := h.once
  foreign d hmem := by
    obtain ⟨e, he, heq⟩ := hasEndpoint_iff.mp (h.foreign d hmem)
    exact hasEndpoint_iff.mpr ⟨e, List.mem_append_left _ he, heq⟩

theorem hasEndpoint_setDisabled (disabled : Bool) (id : String) :
    (t.setDisabled id disabled).hasEndpoint endpointId = t.hasEndpoint endpointId :=
  Table.any_update fun _ _ => rfl

theorem Tables.Valid.setDisabled (h : t.Valid) (id : String) (disabled : Bool) :
    (t.setDisabled id disabled).Valid where
  endpoints := by
    have hids : (t.setDisabled id disabled).endpoints.map (·.id) = t.endpoints.map (·.id) :=
      Table.map_update _ fun _ _ _ => rfl
    rw [hids]
    exact h.endpoints
  ids := h.ids
  once := h.once
  foreign d hmem := by
    rw [hasEndpoint_setDisabled]
    exact h.foreign d hmem

theorem hasEndpoint_delete (id : String) :
    (t.deleteEndpoint id).hasEndpoint endpointId = (t.hasEndpoint endpointId && decide
      (endpointId ≠ id)) := by
  rw [Bool.eq_iff_iff, Bool.and_eq_true, decide_eq_true_eq, hasEndpoint_iff, hasEndpoint_iff]
  simp only [Tables.deleteEndpoint, List.mem_filter, decide_eq_true_eq]
  constructor
  · rintro ⟨e, ⟨he, hne⟩, rfl⟩
    exact ⟨⟨e, he, rfl⟩, hne⟩
  · rintro ⟨⟨e, he, rfl⟩, hne⟩
    exact ⟨e, ⟨he, hne⟩, rfl⟩

theorem Tables.Valid.deleteEndpoint (h : t.Valid) (id : String) : (t.deleteEndpoint id).Valid where
  endpoints := h.endpoints.sublist (List.filter_sublist.map _)
  ids := h.ids.sublist (List.filter_sublist.map _)
  once := h.once.sublist (List.filter_sublist.map _)
  foreign d hmem := by
    obtain ⟨hmem, hne⟩ := List.mem_filter.mp hmem
    rw [hasEndpoint_delete, h.foreign d hmem, Bool.true_and]
    exact hne

theorem Tables.Valid.record (h : t.Valid) (id : String) (o : WebhookStore.Outcome) :
    (t.record id o now).Valid where
  endpoints := h.endpoints
  ids := by
    have hids : (t.record id o now).deliveries.map (·.id) = t.deliveries.map (·.id) :=
      Table.map_update _ fun _ _ _ => rfl
    rw [hids]
    exact h.ids
  once := by
    have hkeys : (t.record id o now).deliveries.map (fun d => (d.endpointId, d.eventId)) =
        t.deliveries.map fun d => (d.endpointId, d.eventId) := Table.map_update _ fun _ _ _ => rfl
    rw [hkeys]
    exact h.once
  foreign d hmem := by
    obtain ⟨d₀, hmem₀, ⟨-, rfl⟩ | ⟨-, rfl⟩⟩ := Table.mem_update hmem
    · exact h.foreign d₀ hmem₀
    · exact h.foreign d hmem₀

/-! ## Runs -/

variable {s s' : St} {l : Label} {em : Emission} {i : Nat}

/-- Whom an emission has found: endpoints of its client, and no id comes to mean another
endpoint. -/
structure Found (s : St) (em : Emission) (rows : List EndpointRow) : Prop where
  ids : (rows.map (·.id)).Nodup
  client : ∀ e ∈ rows, e.clientId = em.event.clientId
  used : ∀ e ∈ rows, e.id ∈ s.used
  same : ∀ e ∈ rows, ∀ e' ∈ s.tables.endpoints, e'.id = e.id → e'.clientId = e.clientId

/-- A delivery is of an event that was emitted, to an endpoint that the emission has found. -/
def Emitted (emissions : List Emission) (d : DeliveryRow) : Prop :=
  ∃ em ∈ emissions, ∃ rows created, em.phase = .done rows created ∧
    d.eventId = em.event.eventId ∧ d.eventType = em.event.eventType ∧ d.payload = em.event.payload ∧
    ∃ e ∈ rows, e.id = d.endpointId ∧ e.subscribed em.event = true

structure Inv (s : St) : Prop where
  valid : s.tables.Valid
  used : ∀ e ∈ s.tables.endpoints, e.id ∈ s.used
  found : ∀ em ∈ s.emissions, Found s em em.phase.rows
  queued : ∀ em ∈ s.emissions, ∀ rows created, em.phase = .done rows created → ∀ e ∈ rows,
    e.subscribed em.event = true → s.tables.hasEndpoint e.id = true →
      s.tables.hasDelivery e.id em.event.eventId = true
  origin : ∀ d ∈ s.tables.deliveries, Emitted s.emissions d

theorem init_inv : Inv init where
  valid := ⟨List.nodup_nil, List.nodup_nil, List.nodup_nil, List.forall_mem_nil _⟩
  used := List.forall_mem_nil _
  found := List.forall_mem_nil _
  queued := List.forall_mem_nil _
  origin := List.forall_mem_nil _

/-- Other tables, in which the endpoints that were found are the same, and what was queued for them
still is. -/
theorem Inv.of_tables (h : Inv s) {tables : Tables} {used : List String} (hvalid : tables.Valid)
    (hused : ∀ e ∈ tables.endpoints, e.id ∈ used) (hmore : ∀ id ∈ s.used, id ∈ used)
    (hsame : ∀ id ∈ s.used, ∀ e' ∈ tables.endpoints, e'.id = id →
      ∃ e ∈ s.tables.endpoints, e.id = id ∧ e.clientId = e'.clientId)
    (hqueued : ∀ id ∈ s.used, ∀ eventId, tables.hasEndpoint id = true →
      s.tables.hasDelivery id eventId = true →
      tables.hasDelivery id eventId = true)
    (horigin : ∀ d ∈ tables.deliveries, Emitted s.emissions d) :
    Inv { s with tables := tables, used := used } where
  valid := hvalid
  used := hused
  found em hem := by
    have hfound := h.found em hem
    refine ⟨hfound.ids, hfound.client, fun e he => hmore _ (hfound.used e he),
      fun e he e' he' hid => ?_⟩
    obtain ⟨e₀, he₀, hid₀, hclient⟩ := hsame e.id (hfound.used e he) e' he' hid
    exact hclient.symm.trans (hfound.same e he e₀ he₀ hid₀)
  queued em hem rows created hphase e he hsub hend := by
    have hin : e.id ∈ s.used := (h.found em hem).used e (by rw [hphase]; exact he)
    obtain ⟨e', he', hid⟩ := hasEndpoint_iff.mp hend
    obtain ⟨e₀, he₀, hid₀, -⟩ := hsame e.id hin e' he' hid
    exact hqueued e.id hin _ hend
      (h.queued em hem rows created hphase e he hsub (hasEndpoint_iff.mpr ⟨e₀, he₀, hid₀⟩))
  origin := horigin

/-! ## Emissions -/

theorem mem_modify {ems : List Emission} {f : Emission → Emission} (hem : em ∈ ems.modify i f) :
    em ∈ ems ∨ ∃ em₀, ems[i]? = some em₀ ∧ em = f em₀ := by
  obtain ⟨j, hj⟩ := List.getElem?_of_mem hem
  rw [List.getElem?_modify] at hj
  obtain ⟨em₀, hem₀, rfl⟩ := Option.map_eq_some_iff.mp hj
  by_cases hij : i = j
  · exact .inr ⟨em₀, hij ▸ hem₀, by simp [hij]⟩
  · simpa [hij] using Or.inl (List.mem_of_getElem? hem₀)

theorem mem_modify_of_ne {ems : List Emission} {f : Emission → Emission} (hem : em ∈ ems)
    (hne : ems[i]? ≠ some em) : em ∈ ems.modify i f := by
  obtain ⟨j, hj⟩ := List.getElem?_of_mem hem
  have hij : i ≠ j := fun heq => hne (heq ▸ hj)
  refine List.mem_of_getElem? (i := j) ?_
  rw [List.getElem?_modify, hj]
  simp [hij]

theorem Emitted.setPhase {d : DeliveryRow} (h : Emitted s.emissions d) {phase : Phase}
    (hem : s.emissions[i]? = some em) (hopen : ∀ rows created, em.phase ≠ .done rows created) :
    Emitted (s.setPhase i phase).emissions d := by
  obtain ⟨em₀, hem₀, rows, created, hphase, hrest⟩ := h
  refine ⟨em₀, mem_modify_of_ne hem₀ fun heq => ?_, rows, created, hphase, hrest⟩
  obtain rfl := Option.some.inj (hem.symm.trans heq)
  exact hopen rows created hphase

/-- An emission that is not yet done goes on, without writing. -/
theorem Inv.setPhase (h : Inv s) {phase : Phase} (hem : s.emissions[i]? = some em)
    (hopen : ∀ rows created, em.phase ≠ .done rows created)
      (hphase : ∀ rows created, phase ≠ .done rows created) (hfound : Found s em phase.rows) :
    Inv (s.setPhase i phase) where
  valid := h.valid
  used := h.used
  found em' hem' := by
    rcases mem_modify hem' with hem' | ⟨em₀, hem₀, rfl⟩
    · have hf := h.found em' hem'
      exact ⟨hf.ids, hf.client, hf.used, hf.same⟩
    · obtain rfl := Option.some.inj (hem.symm.trans hem₀)
      exact ⟨hfound.ids, hfound.client, hfound.used, hfound.same⟩
  queued em' hem' rows created hdone := by
    rcases mem_modify hem' with hem' | ⟨em₀, -, rfl⟩
    · exact h.queued em' hem' rows created hdone
    · exact absurd hdone (hphase rows created)
  origin d hd := (h.origin d hd).setPhase hem hopen

theorem found_nil (s : St) (em : Emission) : Found s em [] :=
  ⟨List.nodup_nil, List.forall_mem_nil _, List.forall_mem_nil _, List.forall_mem_nil _⟩

theorem Inv.found_enabled (h : Inv s) (em : Emission) :
    Found s em (s.tables.enabled em.event.clientId) where
  ids := h.valid.endpoints.sublist (List.filter_sublist.map _)
  client e he := by
    have hclient := (List.mem_filter.mp he).2
    simp only [Bool.and_eq_true, decide_eq_true_eq] at hclient
    exact hclient.1
  used e he := h.used e (List.mem_filter.mp he).1
  same e he e' he' hid := by
    rw [List.inj_on_of_nodup_map h.valid.endpoints he' (List.mem_filter.mp he).1 hid]

theorem distinct_zip {rows : List EndpointRow} {uuids : List String}
    (hrows : (rows.map (·.id)).Nodup) (hfresh : freshIds s rows uuids = true) :
    Distinct s.tables (rows.zip uuids) := by
  simp only [freshIds, Bool.and_eq_true, decide_eq_true_eq, List.all_eq_true] at hfresh
  obtain ⟨⟨hlen, huuids⟩, hnew⟩ := hfresh
  refine ⟨?_, ?_, fun p hp d hd => hnew p.2 (List.of_mem_zip hp).2 d hd⟩
  · have hids : ((rows.zip uuids).map fun p => p.1.id) =
        ((rows.zip uuids).map Prod.fst).map (·.id) := by
      rw [List.map_map]
      rfl
    rwa [hids, List.map_fst_zip (Nat.le_of_eq hlen.symm)]
  · rwa [List.map_snd_zip (Nat.le_of_eq hlen)]

theorem mem_zip_of_mem {rows : List EndpointRow} {uuids : List String}
    (hlen : uuids.length = rows.length) {e : EndpointRow} (he : e ∈ rows) :
    ∃ p ∈ rows.zip uuids, p.1 = e := by
  rw [← List.map_fst_zip (Nat.le_of_eq hlen.symm)] at he
  obtain ⟨p, hp, heq⟩ := List.mem_map.mp he
  exact ⟨p, hp, heq⟩

structure Reading (s : St) (i : Nat) (em : Emission) (rows : List EndpointRow)
    (uuids : List String) : Prop where
  emission : s.emissions[i]? = some em
  phase : em.phase = .read rows
  fresh : freshIds s rows uuids = true

namespace Reading

variable {rows : List EndpointRow} {uuids : List String}

theorem length_eq (h : Reading s i em rows uuids) : uuids.length = rows.length := by
  have hfresh := h.fresh
  simp only [freshIds, Bool.and_eq_true, decide_eq_true_eq] at hfresh
  exact hfresh.1.1

theorem found (h : Reading s i em rows uuids) (hinv : Inv s) : Found s em rows := by
  have hfound := hinv.found em (List.mem_of_getElem? h.emission)
  rwa [h.phase] at hfound

theorem distinct (h : Reading s i em rows uuids) (hinv : Inv s) :
    Distinct s.tables (rows.zip uuids) :=
  distinct_zip (h.found hinv).ids h.fresh

theorem not_done (h : Reading s i em rows uuids) :
    ∀ rows created, em.phase ≠ .done rows created := by
  intro rows created hdone
  cases h.phase.symm.trans hdone

/-- The state after a fan-out that has succeeded. -/
def after (s : St) (i : Nat) (event : Event) (rows : List EndpointRow) (uuids : List String)
    (now : ℚ) : St :=
  { s with tables := s.tables.queue event now (rows.zip uuids) }.setPhase i
    (.done rows (s.tables.missing event (rows.zip uuids)).length)

theorem write_eq (h : Reading s i em rows uuids) (hinv : Inv s) :
    write s i em.event rows uuids now =
      if (s.tables.missing em.event (rows.zip uuids)).all fun p => s.tables.hasEndpoint p.1.id
      then after s i em.event rows uuids now else s.setPhase i .failed := by
  unfold write
  rw [enqueue_eq (h.distinct hinv)]
  split
  · rename_i heq
    split at heq
    · rename_i hall
      cases heq
      rw [if_pos hall]
      rfl
    · cases heq
  · rename_i heq
    split at heq
    · cases heq
    · rename_i hnot
      rw [if_neg hnot]

theorem inv_after (h : Reading s i em rows uuids) (hinv : Inv s)
    (hall : ∀ p ∈ s.tables.missing em.event (rows.zip uuids), s.tables.hasEndpoint p.1.id = true) :
    Inv (after s i em.event rows uuids now) where
  valid := hinv.valid.queue (h.distinct hinv) hall
  used := hinv.used
  found em' hem' := by
    rcases mem_modify hem' with hem' | ⟨em₀, hem₀, rfl⟩
    · have hf := hinv.found em' hem'
      exact ⟨hf.ids, hf.client, hf.used, hf.same⟩
    · obtain rfl := Option.some.inj (h.emission.symm.trans hem₀)
      have hf := h.found hinv
      exact ⟨hf.ids, hf.client, hf.used, hf.same⟩
  queued em' hem' rows' created hdone e he hsub hend := by
    rcases mem_modify hem' with hem' | ⟨em₀, hem₀, rfl⟩
    · exact hasDelivery_queue_of (hinv.queued em' hem' rows' created hdone e he hsub hend)
    · obtain rfl := Option.some.inj (h.emission.symm.trans hem₀)
      cases hdone
      obtain ⟨p, hp, rfl⟩ := mem_zip_of_mem h.length_eq he
      exact hasDelivery_queue hp hsub
  origin d hd := by
    rcases List.mem_append.mp hd with hd | hd
    · exact (hinv.origin d hd).setPhase h.emission h.not_done
    · obtain ⟨p, hp, rfl⟩ := List.mem_map.mp hd
      obtain ⟨hp, hsub, -⟩ := mem_missing.mp hp
      have hem : { em with phase := .done rows (s.tables.missing em.event
          (rows.zip uuids)).length } ∈
          (after s i em.event rows uuids now).emissions := by
        refine List.mem_of_getElem? (i := i) ?_
        unfold after St.setPhase
        rw [List.getElem?_modify, h.emission]
        simp
      exact ⟨_, hem, rows, _, rfl, rfl, rfl, rfl, p.1, (List.of_mem_zip hp).1, rfl, hsub⟩

theorem inv_write (h : Reading s i em rows uuids) (hinv : Inv s) :
    Inv (write s i em.event rows uuids now) := by
  rw [h.write_eq hinv]
  split
  · rename_i hall
    exact h.inv_after hinv (List.all_eq_true.mp hall)
  · exact hinv.setPhase h.emission h.not_done (by simp) (found_nil s em)

end Reading

theorem Inv.step (h : Inv s) (hst : step s l = some s') : Inv s' := by
  cases l with
  | createEndpoint row =>
    simp only [FanOut.step] at hst
    split at hst
    · cases hst
    · rename_i hnew
      cases hst
      simp only [Bool.or_eq_true, List.contains_iff_mem, not_or] at hnew
      have hnone : s.tables.hasEndpoint row.id = false := Bool.eq_false_iff.mpr fun hhas => by
        obtain ⟨e, he, heq⟩ := hasEndpoint_iff.mp hhas
        exact hnew.1 (heq ▸ h.used e he)
      refine h.of_tables (h.valid.createEndpoint hnone) (fun e he => ?_)
        (fun id hid => List.mem_cons_of_mem _ hid)
        (fun id hid e' he' heq => ?_) (fun _ _ _ _ hhas => hhas) h.origin
      · rcases List.mem_append.mp he with he | he
        · exact List.mem_cons_of_mem _ (h.used e he)
        · rw [List.mem_singleton.mp he]
          exact List.mem_cons_self ..
      · rcases List.mem_append.mp he' with he' | he'
        · exact ⟨e', he', heq, rfl⟩
        · rw [List.mem_singleton.mp he'] at heq
          exact absurd (heq ▸ hid) hnew.1
  | setDisabled endpointId disabled =>
    cases hst
    have hold {e' : EndpointRow} (he' : e' ∈ (s.tables.setDisabled endpointId disabled).endpoints) :
        ∃ e ∈ s.tables.endpoints, e.id = e'.id ∧ e.clientId = e'.clientId := by
      obtain ⟨e, he, ⟨-, rfl⟩ | ⟨-, rfl⟩⟩ := Table.mem_update he'
      · exact ⟨e, he, rfl, rfl⟩
      · exact ⟨e', he, rfl, rfl⟩
    refine h.of_tables (h.valid.setDisabled endpointId disabled) (fun e he => ?_) (fun _ hid => hid)
      (fun id _ e' he' heq => ?_) (fun _ _ _ _ hhas => hhas) h.origin
    · obtain ⟨e₀, he₀, hid, -⟩ := hold he
      exact hid ▸ h.used e₀ he₀
    · obtain ⟨e₀, he₀, hid, hclient⟩ := hold he'
      exact ⟨e₀, he₀, hid.trans heq, hclient⟩
  | deleteEndpoint endpointId =>
    cases hst
    refine h.of_tables (h.valid.deleteEndpoint endpointId)
      (fun e he => h.used e (List.mem_filter.mp he).1)
      (fun _ hid => hid) (fun id _ e' he' heq => ⟨e', (List.mem_filter.mp he').1, heq, rfl⟩)
      (fun id _ eventId hend hhas => ?_) fun d hd => h.origin d (List.mem_filter.mp hd).1
    -- a delivery of an endpoint that is left is left
    rw [hasEndpoint_delete, Bool.and_eq_true, decide_eq_true_eq] at hend
    obtain ⟨d, hd, hid, hev⟩ := hasDelivery_iff.mp hhas
    exact hasDelivery_iff.mpr ⟨d, List.mem_filter.mpr ⟨hd, by simpa [hid] using hend.2⟩, hid, hev⟩
  | emit event =>
    cases hst
    refine ⟨h.valid, h.used, fun em hem => ?_, fun em hem rows created hdone => ?_, fun d hd => ?_⟩
    · rcases List.mem_append.mp hem with hem | hem
      · have hf := h.found em hem
        exact ⟨hf.ids, hf.client, hf.used, hf.same⟩
      · rw [List.mem_singleton.mp hem]
        exact found_nil ..
    · rcases List.mem_append.mp hem with hem | hem
      · exact h.queued em hem rows created hdone
      · rw [List.mem_singleton.mp hem] at hdone
        cases hdone
    · obtain ⟨em, hem, hrest⟩ := h.origin d hd
      exact ⟨em, List.mem_append_left _ hem, hrest⟩
  | read i =>
    obtain ⟨em, hem, hst⟩ := Option.bind_eq_some_iff.mp hst
    split at hst
    · rename_i hphase
      cases hst
      exact h.setPhase hem (by simp [hphase]) (by simp) (h.found_enabled em)
    · cases hst
  | write i uuids now =>
    obtain ⟨em, hem, hst⟩ := Option.bind_eq_some_iff.mp hst
    split at hst
    · rename_i rows hphase
      split at hst
      · rename_i hfresh
        cases hst
        exact Reading.inv_write ⟨hem, hphase, hfresh⟩ h
      · cases hst
    · cases hst
  | fail i =>
    obtain ⟨em, hem, hst⟩ := Option.bind_eq_some_iff.mp hst
    split at hst
    · rename_i hphase
      cases hst
      exact h.setPhase hem (by simp [hphase]) (by simp) (found_nil s em)
    · rename_i hphase
      cases hst
      exact h.setPhase hem (by simp [hphase]) (by simp) (found_nil s em)
    · cases hst
  | record deliveryId o now =>
    cases hst
    have hsame (id eventId : String) : (s.tables.record deliveryId o now).hasDelivery id eventId =
        s.tables.hasDelivery id eventId := Table.any_update fun _ _ => rfl
    refine h.of_tables (h.valid.record deliveryId o) h.used (fun _ hid => hid)
      (fun id _ e' he' heq => ⟨e', he', heq, rfl⟩)
        (fun id _ eventId _ hhas => (hsame id eventId).trans hhas)
      fun d hd => ?_
    obtain ⟨d₀, hd₀, ⟨-, rfl⟩ | ⟨-, rfl⟩⟩ := Table.mem_update hd
    · exact h.origin d₀ hd₀
    · exact h.origin d hd₀

theorem run_inv {ls : List Label} {t : St} (hrun : Run step init ls t) : Inv t :=
  hrun.invariant (fun _ _ _ h hst => h.step hst) init_inv

theorem phase_setPhase (hem : s.emissions[i]? = some em) (phase : Phase) :
    (s.setPhase i phase).phase i = some phase := by
  unfold St.phase St.setPhase
  rw [List.getElem?_modify, hem]
  simp

/-- A fan-out writes all or nothing: one delivery, due at once, for each endpoint it has read that
wants the event and does not have it yet; or none, and it fails, exactly if one of those it has read
that want the event was deleted meanwhile. -/
theorem all_or_none {ls : List Label} (hrun : Run step init ls s) {uuids : List String} {now : ℚ}
    (hst : step s (.write i uuids now) = some s') :
    ∃ em rows, s.emissions[i]? = some em ∧ em.phase = .read rows ∧
      ((∀ e ∈ rows, e.subscribed em.event = true → s.tables.hasEndpoint e.id = true) ∧
          (∃ new, s'.tables = { s.tables with deliveries := s.tables.deliveries ++ new } ∧
            s'.phase i = some (.done rows new.length) ∧
            (new.map (·.endpointId) = (rows.filter fun e =>
              e.subscribed em.event && !s.tables.hasDelivery e.id em.event.eventId).map (·.id)) ∧
            ∀ d ∈ new, d.eventId = em.event.eventId ∧ d.payload = em.event.payload ∧
              d.status = .pending ∧
              d.attempts = 0 ∧ d.nextAttemptAt = now) ∨
        (∃ e ∈ rows, e.subscribed em.event = true ∧ s.tables.hasEndpoint e.id = false) ∧
          s'.tables = s.tables ∧ s'.phase i = some .failed) := by
  have hinv := run_inv hrun
  obtain ⟨em, hem, hst⟩ := Option.bind_eq_some_iff.mp hst
  split at hst
  · rename_i rows hphase
    split at hst
    · rename_i hfresh
      cases hst
      have hread : Reading s i em rows uuids := ⟨hem, hphase, hfresh⟩
      refine ⟨em, rows, hem, hphase, ?_⟩
      rw [hread.write_eq hinv]
      split
      · rename_i hall
        rw [List.all_eq_true] at hall
        refine .inl ⟨fun e he hsub => ?_, ?_⟩
        · obtain ⟨p, hp, rfl⟩ := mem_zip_of_mem hread.length_eq he
          cases hhas : s.tables.hasDelivery p.1.id em.event.eventId with
          | false => exact hall p (mem_missing.mpr ⟨hp, hsub, hhas⟩)
          | true =>
            obtain ⟨d, hd, hid, -⟩ := hasDelivery_iff.mp hhas
            exact hid ▸ hinv.valid.foreign d hd
        · refine ⟨(s.tables.missing em.event
            (rows.zip uuids)).map fun p => newRow em.event now p.1 p.2, rfl, ?_, ?_, ?_⟩
          · rw [List.length_map]
            exact phase_setPhase (s := { s with tables := _ }) hem _
          · have hfst : rows = (rows.zip uuids).map Prod.fst :=
              (List.map_fst_zip (Nat.le_of_eq hread.length_eq.symm)).symm
            conv_rhs => rw [hfst, List.filter_map, List.map_map]
            rw [List.map_map]
            rfl
          · intro d hd
            obtain ⟨p, -, rfl⟩ := List.mem_map.mp hd
            exact ⟨rfl, rfl, rfl, rfl, rfl⟩
      · rename_i hnot
        obtain ⟨p, hp, hgone⟩ : ∃ p ∈ s.tables.missing em.event (rows.zip uuids),
            s.tables.hasEndpoint p.1.id = false := by simpa using hnot
        obtain ⟨hp, hsub, -⟩ := mem_missing.mp hp
        exact .inr ⟨⟨p.1, (List.of_mem_zip hp).1, hsub, hgone⟩, rfl, phase_setPhase hem _⟩
    · cases hst
  · cases hst

theorem count_eq_one (h : t.Valid) (hhas : t.hasDelivery endpointId eventId = true) :
    (t.deliveries.filter fun d => d.isFor endpointId eventId).length = 1 := by
  obtain ⟨d, hd, hid, hev⟩ := hasDelivery_iff.mp hhas
  have hcount : (t.deliveries.map fun d => (d.endpointId, d.eventId)).count
      (endpointId, eventId) = 1 :=
    List.count_eq_one_of_mem h.once (List.mem_map.mpr ⟨d, hd, by rw [hid, hev]⟩)
  rw [← hcount, List.count, List.countP_map, List.countP_eq_length_filter]
  congr 1

/-- In every state of every run the queue holds, for each emission that has succeeded and each
endpoint it has found that wants the event and still exists, one delivery and no more; and every
delivery it holds is the payload of an emission that has succeeded, for an endpoint of the client it
was emitted for. -/
theorem queued_once {ls : List Label} {s : St} (hrun : Run step init ls s) :
    (∀ em ∈ s.emissions, ∀ rows created, em.phase = .done rows created → ∀ e ∈ rows,
      e.subscribed em.event = true → s.tables.hasEndpoint e.id = true →
        (s.tables.deliveries.filter fun d => d.isFor e.id em.event.eventId).length = 1) ∧
    ∀ d ∈ s.tables.deliveries, ∃ em ∈ s.emissions, ∃ rows created, em.phase = .done rows created ∧
      d.eventId = em.event.eventId ∧ d.eventType = em.event.eventType ∧
      d.payload = em.event.payload ∧
      ∃ e ∈ s.tables.endpoints, e.id = d.endpointId ∧ e.clientId = em.event.clientId := by
  have hinv := run_inv hrun
  refine ⟨fun em hem rows created hdone e he hsub hend => ?_, fun d hd => ?_⟩
  · exact count_eq_one hinv.valid (hinv.queued em hem rows created hdone e he hsub hend)
  · obtain ⟨em, hem, rows, created, hdone, hev, htype, hpayload, e, he, hid, -⟩ := hinv.origin d hd
    have hfound := hinv.found em hem
    rw [hdone] at hfound
    obtain ⟨e', he', hid'⟩ := hasEndpoint_iff.mp (hinv.valid.foreign d hd)
    have hclient := (hfound.same e he e' he' (hid'.trans hid.symm)).trans (hfound.client e he)
    exact ⟨em, hem, rows, created, hdone, hev, htype, hpayload, e', he', hid', hclient⟩

section Example

def endpointOf (id : String) (eventTypes : Option (List String)) : EndpointRow where
  id := id
  url := "https://example.com/hook"
  clientId := "c"
  eventTypes := eventTypes

/-- Two endpoints, one event that is emitted twice, and a deletion between the read and the write of
the second. -/
def twice : List Label :=
  [.createEndpoint (endpointOf "a" none),
    .createEndpoint (endpointOf "b" (some ["usage.threshold"])),
    .emit ⟨"c", "evt_1", "usage.threshold", "{}"⟩, .read 0, .write 0 ["d1", "d2"] 0,
    .emit ⟨"c", "evt_1", "usage.threshold", "{}"⟩, .read 1, .deleteEndpoint "a"]

theorem queued_once_twice : ∃ s : St, Run step init twice s ∧
    (s.tables.deliveries.filter fun d => d.isFor "b" "evt_1").length = 1 := by
  obtain ⟨s, hrun, hs⟩ : ∃ s : St, Run step init twice s ∧
      (s.emissions.head?, s.tables.hasEndpoint "b") =
        (some ⟨⟨"c", "evt_1", "usage.threshold", "{}"⟩,
          .done [endpointOf "a" none, endpointOf "b" (some ["usage.threshold"])] 2⟩, true) :=
            run_of_exec_map rfl
  obtain ⟨hhead, hend⟩ := Prod.mk.inj hs
  exact ⟨s, hrun, (queued_once hrun).1 _ (List.mem_of_mem_head? hhead) _ _ rfl
    (endpointOf "b" (some ["usage.threshold"])) (by simp) (by decide) hend⟩

/-- The second fan-out fails: one of its endpoints is gone. -/
theorem all_or_none_twice : ∃ s s' : St, Run step init twice s ∧
    step s (.write 1 ["d3", "d4"] 1) = some s' ∧
    s'.phase 1 = some .failed := by
  obtain ⟨s, hrun, hs⟩ : ∃ s : St, Run step init twice s ∧
      (step s (.write 1 ["d3", "d4"] 1)).map (·.phase 1) = some (some .failed) :=
        run_of_exec_map rfl
  obtain ⟨s', hst, hfailed⟩ := Option.map_eq_some_iff.mp hs
  obtain ⟨em, rows, -, -, ⟨-, new, -, hdone, -⟩ | ⟨-, -, hphase⟩⟩ := all_or_none hrun hst
  · cases hdone.symm.trans hfailed
  · exact ⟨s, s', hrun, hst, hphase⟩

end Example

end FanOut
end InferenceEngine
