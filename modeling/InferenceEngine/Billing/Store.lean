import InferenceEngine.Lib.Table
import InferenceEngine.Gateway.Authorize

/-!
# Billing.Store

The SQLite tables of the engine that billing reads and writes (migrations `0002` and `0006`), and
the operations of `BillingStore` (`billing/store.py`) and `KeyStore` (`auth/keys.py`) on them.

Every operation is one statement in a transaction of its own, so one that raises has no effect.
Statements with parameters of the caller's choice get what SQLite binds: `none` is NULL, which no
`=` matches. Times are numbers: the ISO texts of the source are compared, and sort, in the same
order. The columns `created_at`, `prefix`, `label`, `last_used_at`, `received_at` and `processed_at`
are only ever shown and are left out.

* `Db.Valid`: the constraints of the schema (primary keys, `UNIQUE`, `REFERENCES`), which every
  operation keeps.
-/

namespace InferenceEngine

structure Plan where
  id : String
  name : String
  quota5hCu : Quota := 0
  quotaWeeklyCu : Quota := 0
  rateLimitPerMin : Option Int := none
  allowedModels : Option (List String) := none
  deriving DecidableEq, Repr

inductive ClientStatus where
  | active
  | suspended
  | canceled
  deriving DecidableEq, Repr

structure Client where
  id : String
  externalRef : Option String
  email : Option String
  status : ClientStatus
  deriving DecidableEq, Repr

structure Subscription where
  id : String
  clientId : String
  planId : Option String
  provider : String
  providerSubId : String
  /-- as the provider spells it, but for `active` -/
  status : String
  currentPeriodEnd : Option String
  deriving DecidableEq, Repr

structure SubscriptionRow extends Subscription where
  updatedAt : ℚ
  deriving DecidableEq, Repr

structure KeyRow where
  id : String
  keyHash : String
  status : KeyStatus := .active
  revokedAt : Option ℚ := none
  clientId : Option String := none
  deriving DecidableEq, Repr

structure WebhookEvent where
  provider : String
  eventId : String
  eventType : Option String
  result : Option String := none
  deriving DecidableEq, Repr

structure Db where
  plans : List Plan := []
  clients : List Client := []
  subscriptions : List SubscriptionRow := []
  keys : List KeyRow := []
  webhookEvents : List WebhookEvent := []
  usage : List UsageEvent := []
  deriving DecidableEq, Repr

/-- `sqlite3.IntegrityError`. -/
def integrityError (message : String) : Exc := .other message

namespace Db

/-! ## Plans -/

def upsertPlan (db : Db) (p : Plan) : Db :=
  { db with plans := Table.upsert (fun q => q.id = p.id) (fun _ => p) p db.plans }

def getPlan (db : Db) (planId : Option String) : Option Plan :=
  db.plans.find? fun p => planId = some p.id

/-! ## Clients -/

def createClient (db : Db) (id : String) (externalRef email : Option String) :
    Except Exc (Client × Db) :=
  let client : Client := { id := id, externalRef := externalRef, email := email, status := .active }
  if db.clients.any (·.id = id) then
    .error (integrityError "UNIQUE constraint failed: clients.id")
  else if externalRef.isSome && db.clients.any (·.externalRef = externalRef) then
    .error (integrityError "UNIQUE constraint failed: clients.external_ref")
  else .ok (client, { db with clients := db.clients ++ [client] })

def getClientByExternalRef (db : Db) (externalRef : Option String) : Option Client :=
  db.clients.find? fun c => externalRef.isSome && c.externalRef = externalRef

def setClientStatus (db : Db) (clientId : String) (status : ClientStatus) : Db :=
  { db with
    clients := Table.update (fun c => c.id = clientId) (fun c => { c with status := status })
      db.clients }

/-! ## Keys -/

/-- `KeyStore.create`, with the id and the hash of the token it makes up. -/
def createKey (db : Db) (id keyHash : String) : Except Exc Db :=
  if db.keys.any (·.id = id) then .error (integrityError "UNIQUE constraint failed: api_keys.id")
  else if db.keys.any (·.keyHash = keyHash) then
    .error (integrityError "UNIQUE constraint failed: api_keys.key_hash")
  else .ok { db with keys := db.keys ++ [{ id := id, keyHash := keyHash }] }

/-- `KeyStore.verify`, given the hash of a token. -/
def verify (db : Db) (keyHash : String) : Option KeyRow :=
  match db.keys.find? (·.keyHash = keyHash) with
  | none => none
  | some row => if row.revokedAt.isSome then none else some row

/-- `KeyStore.revoke` leaves the column `status` as it is. -/
def revoke (db : Db) (keyId : String) (now : ℚ) : Db :=
  { db with
    keys := Table.update (fun k => k.id = keyId && k.revokedAt.isNone)
      (fun k => { k with revokedAt := some now }) db.keys }

/-- `KeyStore.delete`. -/
def deleteKey (db : Db) (keyId : String) : Db :=
  { db with keys := db.keys.filter (·.id ≠ keyId) }

/-- `KeyStore.get`. -/
def getKey (db : Db) (keyId : String) : Option KeyRow := db.keys.find? (·.id = keyId)

def attachKey (db : Db) (keyId clientId : String) : Except Exc (Bool × Db) :=
  if !db.keys.any (·.id = keyId) then .ok (false, db)
  else if !db.clients.any (·.id = clientId) then
    .error (integrityError "FOREIGN KEY constraint failed")
  else
    .ok (true,
      { db with
        keys := Table.update (fun k => k.id = keyId) (fun k => { k with clientId := some clientId })
          db.keys })

def revokeClientKeys (db : Db) (clientId : String) (now : ℚ) : Db :=
  { db with
    keys := Table.update (fun k => k.clientId = some clientId && k.revokedAt.isNone)
      (fun k => { k with status := .revoked, revokedAt := some now }) db.keys }

/-! ## Subscriptions -/

/-- Do the rows have the same `UNIQUE (provider, provider_sub_id)`? -/
def sameProviderSub (sub : Subscription) (row : SubscriptionRow) : Bool :=
  row.provider = sub.provider && row.providerSubId = sub.providerSubId

/-- `DO UPDATE SET`: the row of a subscription that is known keeps its id and its client. -/
def renew (sub : Subscription) (now : ℚ) (row : SubscriptionRow) : SubscriptionRow :=
  { row with
    planId := sub.planId
    status := sub.status
    currentPeriodEnd := sub.currentPeriodEnd
    updatedAt := now }

/-- The statement of `upsert_subscription`. -/
def putSubscription (db : Db) (sub : Subscription) (now : ℚ) : Db :=
  { db with
    subscriptions := Table.upsert (sameProviderSub sub) (renew sub now) { sub with
      updatedAt := now }
      db.subscriptions }

/-- The constraints that `upsert_subscription` may fail: those of the row it inserts, and the
plan. -/
def checkSubscription (db : Db) (sub : Subscription) : Except Exc Unit :=
  if !db.subscriptions.any (sameProviderSub sub) && db.subscriptions.any (·.id = sub.id) then
    .error (integrityError "UNIQUE constraint failed: subscriptions.id")
  else if (!db.subscriptions.any (sameProviderSub sub) && !db.clients.any (·.id = sub.clientId)) ||
      (sub.planId.isSome && !db.plans.any (fun p => sub.planId = some p.id)) then
    .error (integrityError "FOREIGN KEY constraint failed")
  else .ok ()

/-- `upsert_subscription`. A NULL id would pass, but the callers give the same value twice. -/
def upsertSubscription (db : Db) (id : Option String) (clientId : String) (planId : Option String)
    (provider : String) (providerSubId status currentPeriodEnd : Option String) (now : ℚ) :
    Except Exc Db :=
  match id, providerSubId, status with
  | some id, some providerSubId, some status =>
    let sub : Subscription :=
      { id := id, clientId := clientId, planId := planId, provider := provider,
        providerSubId := providerSubId, status := status, currentPeriodEnd := currentPeriodEnd }
    match db.checkSubscription sub with
    | .ok () => .ok (db.putSubscription sub now)
    | .error e => .error e
  | _, _, _ => .error (integrityError "NOT NULL constraint failed: subscriptions")

def getSubscriptionByProvider (db : Db) (provider : String) (providerSubId : Option String) :
    Option Subscription :=
  (db.subscriptions.find? fun s =>
    s.provider = provider && providerSubId = some s.providerSubId).map (·.toSubscription)

/-! ## Entitlements -/

end Db

/-- The limits of a plan. -/
def Plan.entitlement (p : Plan) : Entitlement where
  quota5hCu := p.quota5hCu
  quotaWeeklyCu := p.quotaWeeklyCu
  rateLimitPerMin := p.rateLimitPerMin
  allowedModels := p.allowedModels

namespace Db

/-- `ORDER BY updated_at DESC LIMIT 1`. -/
def latest : List SubscriptionRow → Option SubscriptionRow
  | [] => none
  | s :: rest =>
    match latest rest with
    | none => some s
    | some s' => if s.updatedAt < s'.updatedAt then some s' else some s

/-- `_entitlement_for_client`. -/
def entitlementForClient (db : Db) (defaultPlanId : Option String) (clientId : String) :
    Option Entitlement :=
  let active := db.subscriptions.filter fun s => s.clientId = clientId && s.status = "active"
  let planId := ((latest active).bind (·.planId)).or defaultPlanId
  (db.getPlan planId).map Plan.entitlement

def keyAccess (db : Db) (defaultPlanId : Option String) (keyId : String) : KeyAccess :=
  match db.getKey keyId with
  -- an unknown key id, such as the local one
  | none => { status := .active, entitlement := none }
  | some k =>
    if k.status = .revoked then { status := .revoked, entitlement := none }
    else
      match k.clientId with
      | none =>
        { status := if k.status = .suspended then .suspended else .active, entitlement := none }
      | some clientId =>
        let client := db.clients.find? (·.id = clientId)
        if client.any fun c => c.status = .suspended || c.status = .canceled then
          { status := .suspended, entitlement := none }
        else if k.status = .suspended then { status := .suspended, entitlement := none }
        else
          { status := .active, entitlement := db.entitlementForClient defaultPlanId clientId }

/-! ## The ledger of inbound webhooks, and usage -/

/-- Is it the row of this event? -/
def isEvent (provider eventId : String) (e : WebhookEvent) : Bool :=
  e.provider = provider && e.eventId = eventId

def recordEventOnce (db : Db) (provider eventId : String) (eventType : Option String) : Bool × Db :=
  if db.webhookEvents.any (isEvent provider eventId) then (false, db)
  else
    (true,
      { db with
        webhookEvents := db.webhookEvents ++
          [{ provider := provider, eventId := eventId, eventType := eventType }] })

def markEventProcessed (db : Db) (provider eventId result : String) : Db :=
  { db with
    webhookEvents := Table.update (isEvent provider eventId)
      (fun e => { e with result := some result }) db.webhookEvents }

def forgetEvent (db : Db) (provider eventId : String) : Db :=
  { db with webhookEvents := db.webhookEvents.filter fun e => !isEvent provider eventId e }

/-- The rows of `usage_events u JOIN api_keys k ON u.key_id = k.id` that `client_usage_cu` adds
up. -/
def clientUsage (db : Db) (clientId : String) (since : ℚ) : List UsageEvent :=
  db.usage.flatMap fun u =>
    (db.keys.filter fun k => u.keyId = k.id && k.clientId = some clientId && since ≤ u.ts).map
      fun _ => u

def clientUsageCu (db : Db) (clientId : String) (since : ℚ) : ℚ :=
  ((db.clientUsage clientId since).map (·.cu)).sum

/-! ## The constraints of the schema -/

/-- They are constraints on columns, so a statement that writes other columns keeps them. -/
structure Valid (db : Db) : Prop where
  planIds : (db.plans.map (·.id)).Nodup
  clientIds : (db.clients.map (·.id)).Nodup
  /-- `UNIQUE`, of those that are not NULL -/
  externalRefs : (db.clients.map (·.externalRef)).Pairwise fun a b => a = b → a = none
  subscriptionIds : (db.subscriptions.map (·.id)).Nodup
  providerSubs : (db.subscriptions.map fun s => (s.provider, s.providerSubId)).Nodup
  keyIds : (db.keys.map (·.id)).Nodup
  keyHashes : (db.keys.map (·.keyHash)).Nodup
  subClients : ∀ c ∈ db.subscriptions.map (·.clientId), c ∈ db.clients.map (·.id)
  subPlans : ∀ p ∈ db.subscriptions.map (·.planId), ∀ id ∈ p, id ∈ db.plans.map (·.id)
  keyClients : ∀ c ∈ db.keys.map (·.clientId), ∀ id ∈ c, id ∈ db.clients.map (·.id)

theorem Valid.empty : Valid {} := by constructor <;> simp

variable {db db' : Db}

theorem Valid.client_of_externalRef (h : db.Valid) {c c' : Client} {ref : String}
    (hc : c ∈ db.clients) (hc' : c' ∈ db.clients) (href : c.externalRef = some ref)
      (href' : c'.externalRef = some ref) :
    c = c' := by
  have hp := List.pairwise_map.mp h.externalRefs
  generalize db.clients = rows at hp hc hc'
  induction rows with
  | nil => cases hc
  | cons d rows ih =>
    have hd := List.pairwise_cons.mp hp
    rcases List.mem_cons.mp hc with rfl | hrest
    · rcases List.mem_cons.mp hc' with rfl | hrest'
      · rfl
      · have hnone := hd.1 c' hrest' (href.trans href'.symm)
        rw [href] at hnone
        cases hnone
    · rcases List.mem_cons.mp hc' with rfl | hrest'
      · have hnone := hd.1 c hrest (href'.trans href.symm)
        rw [href'] at hnone
        cases hnone
      · exact ih hd.2 hrest hrest'

theorem not_mem_column {α β : Type} [DecidableEq β] {rows : List α} {g : α → β} {b : β}
    (h : rows.any (fun r => g r = b) = false) : b ∉ rows.map g := by
  intro hb
  obtain ⟨r, hr, rfl⟩ := List.mem_map.mp hb
  simpa using List.any_eq_false.mp h r hr

theorem mem_column {α β : Type} [DecidableEq β] {rows : List α} {g : α → β} {b : β}
    (h : rows.any (fun r => g r = b) = true) : b ∈ rows.map g := by
  obtain ⟨r, hr, hrb⟩ := List.any_eq_true.mp h
  exact List.mem_map.mpr ⟨r, hr, by simpa using hrb⟩

theorem nodup_concat {β : Type} {xs : List β} {b : β} (h : xs.Nodup) (hb : b ∉ xs) :
    (xs ++ [b]).Nodup := by
  rw [List.nodup_append]
  refine ⟨h, List.nodup_singleton b, ?_⟩
  intro a ha c hc heq
  rw [List.mem_singleton.mp hc] at heq
  exact hb (heq ▸ ha)

theorem upsertPlan_ids (db : Db) (p : Plan) :
    (db.upsertPlan p).plans.map (·.id) = db.plans.map (·.id) ∨
      p.id ∉ db.plans.map (·.id) ∧
        (db.upsertPlan p).plans.map (·.id) = db.plans.map (·.id) ++ [p.id] := by
  unfold upsertPlan Table.upsert
  split
  · refine .inl (Table.map_update _ fun r _ hr => ?_)
    simpa using (of_decide_eq_true hr).symm
  · rename_i h
    exact .inr ⟨not_mem_column (by simpa using h), by simp⟩

theorem Valid.upsertPlan (h : db.Valid) (p : Plan) : (db.upsertPlan p).Valid := by
  have hsub : ∀ id ∈ db.plans.map (·.id), id ∈ (db.upsertPlan p).plans.map (·.id) := by
    intro id hid
    obtain heq | ⟨-, heq⟩ := upsertPlan_ids db p
    · rwa [heq]
    · rw [heq]
      exact List.mem_append_left _ hid
  refine { h with planIds := ?_, subPlans := fun q hq id hid => hsub id (h.subPlans q hq id hid) }
  obtain heq | ⟨hnew, heq⟩ := upsertPlan_ids db p
  · rw [heq]
    exact h.planIds
  · rw [heq]
    exact nodup_concat h.planIds hnew

theorem createClient_ok {id : String} {externalRef email : Option String} {c : Client}
    (h : db.createClient id externalRef email = .ok (c, db')) :
    id ∉ db.clients.map (·.id) ∧
      (externalRef.isSome = true → externalRef ∉ db.clients.map (·.externalRef)) ∧
      c = { id := id, externalRef := externalRef, email := email, status := .active } ∧
      db' = { db with clients := db.clients ++ [c] } := by
  unfold createClient at h
  split at h
  · cases h
  · rename_i hid
    split at h
    · cases h
    · rename_i href
      cases h
      refine ⟨not_mem_column (by simpa using hid), fun hsome => ?_, rfl, rfl⟩
      rw [hsome, Bool.true_and, Bool.not_eq_true] at href
      exact not_mem_column href

theorem createClient_of_new {id : String} {externalRef : Option String}
    (hid : id ∉ db.clients.map (·.id))
    (href : externalRef.isSome = true → externalRef ∉ db.clients.map (·.externalRef))
    (email : Option String) : ∃ x, db.createClient id externalRef email = .ok x := by
  unfold createClient
  have hid' : db.clients.any (·.id = id) = false := by
    rw [List.any_eq_false]
    intro c hc hce
    exact hid (List.mem_map.mpr ⟨c, hc, by simpa using hce⟩)
  have href' : (externalRef.isSome && db.clients.any (·.externalRef = externalRef)) = false := by
    rw [Bool.and_eq_false_iff, List.any_eq_false, or_iff_not_imp_left]
    intro hsome c hc hce
    exact href (Bool.not_eq_false _ ▸ hsome) (List.mem_map.mpr ⟨c, hc, by simpa using hce⟩)
  rw [hid', href']
  exact ⟨_, rfl⟩

theorem Valid.createClient {id : String} {externalRef email : Option String} {c : Client}
    (h : db.Valid) (hc : db.createClient id externalRef email = .ok (c, db')) : db'.Valid := by
  obtain ⟨hid, href, rfl, rfl⟩ := createClient_ok hc
  have hsub : ∀ a ∈ db.clients.map (·.id),
      a ∈ (db.clients ++ [({ id, externalRef, email, status := .active } : Client)]).map (·.id) :=
    fun a ha => by rw [List.map_append]; exact List.mem_append_left _ ha
  refine
    { h with
      clientIds := ?_
      externalRefs := ?_
      subClients := fun a ha => hsub a (h.subClients a ha)
      keyClients := fun a ha b hb => hsub b (h.keyClients a ha b hb) }
  · rw [List.map_append]
    exact nodup_concat h.clientIds hid
  · rw [List.map_append, List.pairwise_append]
    refine ⟨h.externalRefs, by simp, ?_⟩
    intro a ha b hb hab
    rw [List.mem_singleton.mp hb] at hab
    subst hab
    cases a with
    | none => rfl
    | some ref => exact absurd ha (href rfl)

theorem Valid.setClientStatus (h : db.Valid) (clientId : String) (status : ClientStatus) :
    (db.setClientStatus clientId status).Valid := by
  have hid : (db.setClientStatus clientId status).clients.map (·.id) = db.clients.map (·.id) :=
    Table.map_update _ fun _ _ _ => rfl
  have href : (db.setClientStatus clientId status).clients.map (·.externalRef) =
      db.clients.map (·.externalRef) := Table.map_update _ fun _ _ _ => rfl
  exact
    { h with
      clientIds := hid ▸ h.clientIds
      externalRefs := href ▸ h.externalRefs
      subClients := hid ▸ h.subClients
      keyClients := hid ▸ h.keyClients }

/-- A statement on `api_keys` that writes neither the ids nor the hashes. -/
theorem Valid.updateKeys {p : KeyRow → Bool} {f : KeyRow → KeyRow} (h : db.Valid)
    (hid : ∀ k, (f k).id = k.id) (hhash : ∀ k, (f k).keyHash = k.keyHash)
    (hclient : ∀ k ∈ db.keys, p k = true → ∀ c ∈ (f k).clientId, c ∈ db.clients.map (·.id)) :
    Valid { db with keys := Table.update p f db.keys } := by
  have hids : (Table.update p f db.keys).map (·.id) = db.keys.map (·.id) :=
    Table.map_update _ fun k _ _ => hid k
  have hhashes : (Table.update p f db.keys).map (·.keyHash) = db.keys.map (·.keyHash) :=
    Table.map_update _ fun k _ _ => hhash k
  refine { h with keyIds := hids ▸ h.keyIds, keyHashes := hhashes ▸ h.keyHashes, keyClients := ?_ }
  · intro a ha c hc
    obtain ⟨k, hk, rfl⟩ := List.mem_map.mp ha
    obtain ⟨k₀, hk₀, ⟨hp, rfl⟩ | ⟨-, rfl⟩⟩ := Table.mem_update hk
    · exact hclient k₀ hk₀ hp c hc
    · exact h.keyClients _ (List.mem_map_of_mem hk₀) c hc

theorem createKey_ok {id keyHash : String} (h : db.createKey id keyHash = .ok db') :
    id ∉ db.keys.map (·.id) ∧ keyHash ∉ db.keys.map (·.keyHash) ∧
      db' = { db with keys := db.keys ++ [{ id := id, keyHash := keyHash }] } := by
  unfold createKey at h
  split at h
  · cases h
  · rename_i hid
    split at h
    · cases h
    · rename_i hhash
      cases h
      exact ⟨not_mem_column (by simpa using hid), not_mem_column (by simpa using hhash), rfl⟩

/-- A key that is not there is not attached; otherwise the client has to be there. -/
theorem attachKey_ok {keyId clientId : String} {b : Bool}
    (h : db.attachKey keyId clientId = .ok (b, db')) :
    b = false ∧ db' = db ∨ b = true ∧ clientId ∈ db.clients.map (·.id) ∧
      db' = { db with
        keys := Table.update (fun k => k.id = keyId) (fun k => { k with clientId := some clientId })
          db.keys } := by
  unfold attachKey at h
  split at h
  · cases h
    exact .inl ⟨rfl, rfl⟩
  · split at h
    · cases h
    · rename_i hclient
      cases h
      exact .inr ⟨rfl, mem_column (by simpa using hclient), rfl⟩

theorem Valid.createKey {id keyHash : String} (h : db.Valid)
    (hk : db.createKey id keyHash = .ok db') :
    db'.Valid := by
  obtain ⟨hid, hhash, rfl⟩ := createKey_ok hk
  refine { h with keyIds := ?_, keyHashes := ?_, keyClients := ?_ }
  · rw [List.map_append]
    exact nodup_concat h.keyIds hid
  · rw [List.map_append]
    exact nodup_concat h.keyHashes hhash
  · intro a ha c hc
    rw [List.map_append] at ha
    rcases List.mem_append.mp ha with ha | ha
    · exact h.keyClients a ha c hc
    · rw [List.mem_singleton.mp ha] at hc
      cases hc

theorem Valid.revoke (h : db.Valid) (keyId : String) (now : ℚ) : (db.revoke keyId now).Valid :=
  h.updateKeys (fun _ => rfl) (fun _ => rfl)
    fun _ hk _ c hc => h.keyClients _ (List.mem_map_of_mem hk) c hc

theorem Valid.revokeClientKeys (h : db.Valid) (clientId : String) (now : ℚ) :
    (db.revokeClientKeys clientId now).Valid :=
  h.updateKeys (fun _ => rfl) (fun _ => rfl)
    fun _ hk _ c hc => h.keyClients _ (List.mem_map_of_mem hk) c hc

theorem Valid.attachKey {keyId clientId : String} {b : Bool} (h : db.Valid)
    (hk : db.attachKey keyId clientId = .ok (b, db')) : db'.Valid := by
  obtain ⟨-, rfl⟩ | ⟨-, hclient, rfl⟩ := attachKey_ok hk
  · exact h
  · refine h.updateKeys (fun _ => rfl) (fun _ => rfl) fun k _ _ c hc => ?_
    cases hc
    exact hclient

theorem Valid.deleteKey (h : db.Valid) (keyId : String) : (db.deleteKey keyId).Valid := by
  have hsub : (db.deleteKey keyId).keys.Sublist db.keys := List.filter_sublist
  exact
    { h with
      keyIds := h.keyIds.sublist (hsub.map _)
      keyHashes := h.keyHashes.sublist (hsub.map _)
      keyClients := fun c hc => h.keyClients c ((hsub.map _).subset hc) }

theorem checkSubscription_ok {sub : Subscription} (h : db.checkSubscription sub = .ok ()) :
    (db.subscriptions.any (sameProviderSub sub) = true ∨
      sub.id ∉ db.subscriptions.map (·.id) ∧ sub.clientId ∈ db.clients.map (·.id)) ∧
      ∀ id ∈ sub.planId, id ∈ db.plans.map (·.id) := by
  unfold checkSubscription at h
  split at h
  · cases h
  · rename_i hid
    split at h
    · cases h
    · rename_i hfk
      simp only [Bool.or_eq_true, not_or, Bool.and_eq_true, Bool.not_eq_true', not_and,
        Bool.not_eq_true] at hid hfk
      refine ⟨?_, ?_⟩
      · cases hany : db.subscriptions.any (sameProviderSub sub) with
        | true => exact .inl rfl
        | false =>
          exact .inr ⟨not_mem_column (hid hany), mem_column (by simpa using hfk.1 hany)⟩
      · intro id hid'
        have hplan := hfk.2
        rw [hid'] at hplan
        obtain ⟨p, hp, hpid⟩ : ∃ p ∈ db.plans, id = p.id := by simpa using hplan rfl
        exact List.mem_map.mpr ⟨p, hp, hpid.symm⟩

theorem Valid.putSubscription {sub : Subscription} (h : db.Valid)
    (hc : db.checkSubscription sub = .ok ()) (now : ℚ) : (db.putSubscription sub now).Valid := by
  obtain ⟨hnew, hplan⟩ := checkSubscription_ok hc
  -- the columns that an update leaves alone
  have hkeep {β : Type} (g : SubscriptionRow → β) (hg : ∀ row, g (renew sub now row) = g row) :
      (Table.update (sameProviderSub sub) (renew sub now) db.subscriptions).map g =
        db.subscriptions.map g := Table.map_update g fun row _ _ => hg row
  unfold Db.putSubscription Table.upsert
  split
  · refine
      { h with
        subscriptionIds := (hkeep (·.id) fun _ => rfl) ▸ h.subscriptionIds
        providerSubs := (hkeep (fun s => (s.provider,
          s.providerSubId)) fun _ => rfl) ▸ h.providerSubs
        subClients := (hkeep (·.clientId) fun _ => rfl) ▸ h.subClients
        subPlans := ?_ }
    · intro p hp id hid
      obtain ⟨s, hs, rfl⟩ := List.mem_map.mp hp
      obtain ⟨s₀, hs₀, ⟨-, rfl⟩ | ⟨-, rfl⟩⟩ := Table.mem_update hs
      · exact hplan id hid
      · exact h.subPlans _ (List.mem_map_of_mem hs₀) id hid
  · rename_i hany
    obtain hany' | ⟨hid, hclient⟩ := hnew
    · exact absurd hany' hany
    · refine
        { h with
          subscriptionIds := ?_, providerSubs := ?_, subClients := ?_, subPlans := ?_ }
      · rw [List.map_append]
        exact nodup_concat h.subscriptionIds hid
      · rw [List.map_append]
        refine nodup_concat h.providerSubs (not_mem_column ?_)
        simpa [sameProviderSub] using hany
      · intro c hc
        rw [List.map_append] at hc
        rcases List.mem_append.mp hc with hc | hc
        · exact h.subClients c hc
        · rw [List.mem_singleton.mp hc]
          exact hclient
      · intro p hp
        rw [List.map_append] at hp
        rcases List.mem_append.mp hp with hp | hp
        · exact h.subPlans p hp
        · rw [List.mem_singleton.mp hp]
          exact hplan

end Db

end InferenceEngine
