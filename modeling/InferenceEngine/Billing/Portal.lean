import InferenceEngine.Lib.PyStr
import InferenceEngine.Billing.ClientPolling
import InferenceEngine.Billing.ClientStream
import InferenceEngine.Billing.Keys

/-!
# Billing.Portal

What a client sees of its account (`api/client_router.py`). No request names a client: the client is
the one that owns the key it comes with, in a header (`extract_token` of `gateway.py`) or for a
stream also in the query (`_stream_token`). The stream itself is in `ClientStream`; here it is the
client and the cursor it begins with.

* `Own`: the rows of a client.
* `answers_own`: every answer to a client's key is a function of these rows, of the plans and of the
  settings.
-/

namespace InferenceEngine

namespace Portal

/-! ## The key of a request -/

/-- The headers and query parameters that a key can come in. -/
structure Credentials where
  authorization : Option String := none
  xApiKey : Option String := none
  queryApiKey : Option String := none
  queryToken : Option String := none
  deriving DecidableEq, Repr

def stripText (s : String) : String := .ofList (Py.strip s.toList)

/-- `extract_token`. -/
def extractToken (c : Credentials) : Option String :=
  let auth := c.authorization.getD ""
  if Py.beginsIgnoreCase "BEARER ".toList auth.toList then some
    (stripText (.ofList (auth.toList.drop 7)))
  else (c.xApiKey.filter (!·.isEmpty)).map stripText

/-- `_stream_token`: a browser cannot set a header on an `EventSource`. -/
def streamToken (c : Credentials) : Option String :=
  match (c.queryApiKey.filter (!·.isEmpty)).or (c.queryToken.filter (!·.isEmpty)) with
  | some token => some (stripText token)
  | none => extractToken c

/-! ## The client of a key -/

structure PortalSettings where
  quota5hCu : Quota
  quotaWeeklyCu : Quota
  defaultPlanId : Option String
  allowStructuredOutput : Bool
  clientEventsEnabled : Bool
  /-- `router.model_names()` -/
  modelNames : List String
  deriving Repr

structure PortalState where
  db : Db
  log : ClientEventLog

structure ClientContext where
  clientId : String
  keyId : String
  deriving DecidableEq, Repr

def missingApiKey : EdgeError :=
  { message := "missing API key", statusCode := 401, code := "missing_api_key" }

def invalidApiKey : EdgeError :=
  { message := "invalid API key", statusCode := 401, code := "invalid_api_key" }

def keyRevoked : EdgeError :=
  { message := "API key revoked", statusCode := 403, code := "key_revoked" }

def keySuspended : EdgeError :=
  { message := "API key suspended for this account", statusCode := 403, code := "key_suspended" }

def notAClientKey : EdgeError :=
  { message := "this endpoint requires a client-owned API key", statusCode := 403, code := "not_a_client_key" }

def clientNotFound : EdgeError :=
  { message := "client not found", statusCode := 404, code := "client_not_found" }

def clientEventsDisabled : EdgeError :=
  { message := "client event streaming is not enabled", statusCode := 404, code := "client_events_disabled" }

/-- `client_id_for_key`. -/
def clientIdForKey (db : Db) (keyId : String) : Option String := (db.getKey keyId).bind (·.clientId)

section

variable (settings : PortalSettings) (hashToken : String → String)

/-- `_resolve_client`. -/
def resolveClient (db : Db) (token : Option String) : Except EdgeError ClientContext :=
  match token.filter (!·.isEmpty) with
  | none => .error missingApiKey
  | some token =>
    match verifyToken hashToken db token with
    | none => .error invalidApiKey
    | some record =>
      let access := db.keyAccess settings.defaultPlanId record.id
      if access.status = .revoked then .error keyRevoked
      else if access.status ≠ .active then .error keySuspended
      else
        match clientIdForKey db record.id with
        -- An operator's key is no client's.
        | none => .error notAClientKey
        | some clientId => .ok ⟨clientId, record.id⟩

/-! ## The answers -/

structure ClientMe where
  id : String
  email : Option String
  status : ClientStatus
  plan : Option Plan
  deriving DecidableEq, Repr

structure WindowInfo where
  usedCu : ℚ
  limitCu : Quota
  /-- none of an unlimited window -/
  remainingCu : Option Quota
  resetAt : ℚ
  deriving DecidableEq, Repr

structure UsageInfo where
  keyId : String
  cu5h : WindowInfo
  cuWeekly : WindowInfo
  clientWeeklyCu : ℚ
  deriving DecidableEq, Repr

inductive PortalRequest where
  | me
  | plan
  | usage
  | services
  | events (since limit : Int)
  | stream (lastEventId since : Option String)
  deriving DecidableEq, Repr

inductive PortalAnswer where
  | me (me : ClientMe)
  | plan (plan : Option Plan) (entitled : Bool)
  | usage (info : UsageInfo)
  | services (models : List String) (structuredOutput : Bool)
  | events (events : List ClientEvent) (lastId : Nat)
  | stream (clientId : String) (cursor : Nat)
  deriving DecidableEq, Repr

/-- The plan whose values are the entitlement that `_entitlement_for_client` returns. -/
def planForClient (db : Db) (clientId : String) : Option Plan :=
  let active := db.subscriptions.filter fun s => s.clientId = clientId && s.status = "active"
  db.getPlan (((Db.latest active).bind (·.planId)).or settings.defaultPlanId)

/-- `entitlement.plan_id`, of the entitlement that `key_access` returns. -/
def planIdOf (db : Db) (ctx : ClientContext) : Option String :=
  if (db.keyAccess settings.defaultPlanId ctx.keyId).entitlement.isSome then
    (planForClient settings db ctx.clientId).map (·.id)
  else none

/-- `_plan_summary`; a plan has no other columns. -/
def planSummary (db : Db) (planId : Option String) : Option Plan :=
  planId.bind fun id => db.getPlan (some id)

/-- `_window`. -/
def window (w : WindowUsage) : WindowInfo :=
  { usedCu := w.used, limitCu := w.limit,
    remainingCu := if w.limit ≤ 0 then none else some w.remaining, resetAt := w.resetAt }

def getMe (s : PortalState) (ctx : ClientContext) : Except EdgeError PortalAnswer :=
  match s.db.clients.find? (·.id = ctx.clientId) with
  | none => .error clientNotFound
  | some client =>
    .ok (.me ⟨client.id, client.email, client.status,
      planSummary s.db (planIdOf settings s.db ctx)⟩)

def getPlan (s : PortalState) (ctx : ClientContext) : PortalAnswer :=
  .plan (planSummary s.db (planIdOf settings s.db ctx))
    (s.db.keyAccess settings.defaultPlanId ctx.keyId).entitlement.isSome

def getUsage (s : PortalState) (ctx : ClientContext) (now : ℚ) : PortalAnswer :=
  let entitlement := (s.db.keyAccess settings.defaultPlanId ctx.keyId).entitlement
  let limit5h := entitlement.elim settings.quota5hCu (·.quota5hCu)
  let limitWeek := entitlement.elim settings.quotaWeeklyCu (·.quotaWeeklyCu)
  .usage
    { keyId := ctx.keyId
      cu5h := window (usage5h s.db.usage ctx.keyId limit5h now)
      cuWeekly := window (usageWeekly s.db.usage ctx.keyId limitWeek now)
      clientWeeklyCu := s.db.clientUsageCu ctx.clientId (weekStart now) }

def getServices (s : PortalState) (ctx : ClientContext) : PortalAnswer :=
  let names :=
    match (s.db.keyAccess settings.defaultPlanId ctx.keyId).entitlement.bind (·.allowedModels) with
    | some allowed => settings.modelNames.filter (allowed.contains ·)
    | none => settings.modelNames
  .services names settings.allowStructuredOutput

def getEvents (s : PortalState) (ctx : ClientContext) (since limit : Int) :
    Except EdgeError PortalAnswer :=
  if settings.clientEventsEnabled then
    let page := s.log.getEvents ctx.clientId since limit
    .ok (.events page.1 page.2)
  else .error clientEventsDisabled

/-- `stream_events`, as far as its generator. -/
def streamEvents (ctx : ClientContext) (lastEventId since : Option String) :
    Except EdgeError PortalAnswer :=
  if settings.clientEventsEnabled then .ok (.stream ctx.clientId (cursorOf lastEventId since))
  else .error clientEventsDisabled

def answer (s : PortalState) (ctx : ClientContext) (now : ℚ) :
    PortalRequest → Except EdgeError PortalAnswer
  | .me => getMe settings s ctx
  | .plan => .ok (getPlan settings s ctx)
  | .usage => .ok (getUsage settings s ctx now)
  | .services => .ok (getServices settings s ctx)
  | .events since limit => getEvents settings s ctx since limit
  | .stream lastEventId since => streamEvents settings ctx lastEventId since

/-- The key that a request comes with. -/
def PortalRequest.token (c : Credentials) : PortalRequest → Option String
  | .stream .. => streamToken c
  | _ => extractToken c

def respond (s : PortalState) (c : Credentials) (now : ℚ) (request : PortalRequest) :
    Except EdgeError PortalAnswer :=
  match resolveClient settings hashToken s.db (request.token c) with
  | .error e => .error e
  | .ok ctx => answer settings s ctx now request

end

/-! ## The rows of a client -/

/-- What the engine stores about one client. -/
@[ext]
structure Own where
  client : List Client
  keys : List KeyRow
  subscriptions : List SubscriptionRow
  usage : List UsageEvent
  events : List ClientEvent

/-- Is the row one of the usage of these keys? -/
def usedBy (keys : List KeyRow) (u : UsageEvent) : Bool := keys.any fun k => u.keyId = k.id

def PortalState.own (s : PortalState) (clientId : String) : Own :=
  let keys := s.db.keys.filter (·.clientId = some clientId)
  { client := s.db.clients.filter (·.id = clientId)
    keys := keys
    subscriptions := s.db.subscriptions.filter (·.clientId = clientId)
    usage := s.db.usage.filter (usedBy keys)
    events := s.log.rows.filter (·.clientId = clientId) }

variable {settings : PortalSettings} {hashToken : String → String} {s s' : PortalState}
  {clientId : String} {k : KeyRow}

/-! ## Answers depend on these rows only -/

theorem mem_own_keys : k ∈ (s.own clientId).keys ↔ k ∈ s.db.keys ∧ k.clientId = some clientId := by
  rw [PortalState.own, List.mem_filter, decide_eq_true_eq]

theorem find?_client (s : PortalState) (clientId : String) :
    s.db.clients.find? (·.id = clientId) = (s.own clientId).client.head? :=
  List.head?_filter.symm

theorem active_subscriptions (s : PortalState) (clientId : String) :
    (s.db.subscriptions.filter fun sub => sub.clientId = clientId && sub.status = "active") =
      (s.own clientId).subscriptions.filter (·.status = "active") := by
  rw [PortalState.own, List.filter_filter]
  exact List.filter_congr fun sub _ => Bool.and_comm ..

theorem sumCu_own (hk : k ∈ (s.own clientId).keys) (since : ℚ) :
    sumCu s.db.usage k.id since = sumCu (s.own clientId).usage k.id since := by
  unfold sumCu
  refine congrArg (fun rows : List UsageEvent => (rows.map (·.cu)).sum) ?_
  rw [PortalState.own, List.filter_filter]
  refine List.filter_congr fun u _ => ?_
  by_cases hid : u.keyId = k.id
  · have hused : usedBy (s.db.keys.filter (·.clientId = some clientId)) u = true :=
      List.any_eq_true.mpr ⟨k, hk, decide_eq_true hid⟩
    simp [hid, hused]
  · simp [hid]

theorem clientUsage_own (s : PortalState) (clientId : String) (since : ℚ) :
    s.db.clientUsage clientId since =
      (s.own clientId).usage.flatMap fun u =>
        ((s.own clientId).keys.filter fun k => u.keyId =
        k.id && decide (since ≤ u.ts)).map fun _ => u := by
  have hrow : ∀ u : UsageEvent,
      (s.db.keys.filter fun k => u.keyId = k.id && k.clientId =
        some clientId && decide (since ≤ u.ts)) =
        (s.own clientId).keys.filter fun k => u.keyId = k.id && decide (since ≤ u.ts) := by
    intro u
    rw [PortalState.own, List.filter_filter]
    refine List.filter_congr fun k _ => ?_
    rw [Bool.and_assoc, Bool.and_assoc, Bool.and_comm (decide (k.clientId = some clientId))]
  have hdrop : ∀ rows : List UsageEvent,
      (rows.flatMap fun u =>
        ((s.own clientId).keys.filter fun k => u.keyId =
          k.id && decide (since ≤ u.ts)).map fun _ => u) =
      (rows.filter (usedBy (s.own clientId).keys)).flatMap fun u =>
        ((s.own clientId).keys.filter fun k => u.keyId =
          k.id && decide (since ≤ u.ts)).map fun _ => u := by
    intro rows
    induction rows with
    | nil => rfl
    | cons u rows ih =>
      rw [List.flatMap_cons, ih]
      by_cases hused : usedBy (s.own clientId).keys u = true
      · rw [List.filter_cons_of_pos hused, List.flatMap_cons]
      · have hnone : ((s.own clientId).keys.filter fun k => u.keyId =
            k.id && decide (since ≤ u.ts)) = [] := by
          refine List.filter_eq_nil_iff.mpr fun k hk hmatch => hused ?_
          exact List.any_eq_true.mpr ⟨k, hk, (Bool.and_eq_true_iff.mp hmatch).1⟩
        rw [List.filter_cons_of_neg hused, hnone, List.map_nil, List.nil_append]
  unfold Db.clientUsage
  simp only [hrow]
  exact hdrop s.db.usage

theorem since_own (s : PortalState) (clientId : String) (sinceId : Nat) :
    s.log.since clientId sinceId = (s.own clientId).events.filter (sinceId < ·.id) := by
  rw [PortalState.own, List.filter_filter]
  exact List.filter_congr fun e _ => Bool.and_comm ..

theorem getEvents_own (hown : s.own clientId = s'.own clientId) (since limit : Int) :
    s.log.getEvents clientId since limit = s'.log.getEvents clientId since limit := by
  have hsince : ∀ sinceId, s.log.since clientId sinceId = s'.log.since clientId sinceId :=
      fun sinceId => by
    rw [since_own, since_own, hown]
  have hpage : s.log.page clientId since.toNat limit = s'.log.page clientId since.toNat limit := by
    unfold ClientEventLog.page ClientEventLog.listSince
    rw [hsince]
  unfold ClientEventLog.getEvents
  rw [hpage]

section Same

variable (hs : s.db.Valid) (hs' : s'.db.Valid) (hown : s.own clientId = s'.own clientId)
include hs hs' hown

theorem getKey_own (hk : k ∈ (s.own clientId).keys) :
    s.db.getKey k.id = some k ∧ s'.db.getKey k.id = some k :=
  ⟨Table.find?_of_nodup (g := KeyRow.id) (r := k) hs.keyIds (mem_own_keys.mp hk).1,
    Table.find?_of_nodup (g := KeyRow.id) (r := k) hs'.keyIds (mem_own_keys.mp (hown ▸ hk)).1⟩

theorem verifyToken_own (hk : k ∈ (s.own clientId).keys) {token : String}
    (htoken : hashToken token = k.keyHash) :
    verifyToken hashToken s.db token = verifyToken hashToken s'.db token ∧
      ∀ record, verifyToken hashToken s.db token = some record → record = k := by
  have hfind : s.db.keys.find? (·.keyHash = k.keyHash) = some k :=
    Table.find?_of_nodup (g := KeyRow.keyHash) (r := k) hs.keyHashes (mem_own_keys.mp hk).1
  have hfind' : s'.db.keys.find? (·.keyHash = k.keyHash) = some k :=
    Table.find?_of_nodup (g := KeyRow.keyHash) (r := k) hs'.keyHashes
      (mem_own_keys.mp (hown ▸ hk)).1
  unfold verifyToken Db.verify
  rw [htoken, hfind, hfind']
  refine ⟨rfl, fun record h => ?_⟩
  split at h
  · cases h
  · dsimp only at h
    split at h
    · cases h
    · exact (Option.some.inj h).symm

variable (hplans : s.db.plans = s'.db.plans)
include hplans

omit hs hs' in
theorem planForClient_own :
    planForClient settings s.db clientId = planForClient settings s'.db clientId := by
  unfold planForClient Db.getPlan
  rw [active_subscriptions, active_subscriptions, hown, hplans]

omit hs hs' in
theorem entitlement_own : s.db.entitlementForClient settings.defaultPlanId clientId =
    s'.db.entitlementForClient settings.defaultPlanId clientId :=
  congrArg (Option.map Plan.entitlement) (planForClient_own hown hplans)

theorem keyAccess_own (hk : k ∈ (s.own clientId).keys) :
    s.db.keyAccess settings.defaultPlanId k.id = s'.db.keyAccess settings.defaultPlanId k.id := by
  obtain ⟨hget, hget'⟩ := getKey_own hs hs' hown hk
  unfold Db.keyAccess
  rw [hget, hget']
  simp only [(mem_own_keys.mp hk).2, find?_client, hown, entitlement_own hown hplans]

theorem resolveClient_own (hk : k ∈ (s.own clientId).keys) {token : Option String}
    (htoken : ∀ t ∈ token, hashToken t = k.keyHash) :
    resolveClient settings hashToken s.db token = resolveClient settings hashToken s'.db token ∧
      ∀ ctx, resolveClient settings hashToken s.db token = .ok ctx → ctx = ⟨clientId, k.id⟩ := by
  unfold resolveClient
  cases ht : token.filter (!·.isEmpty) with
  | none => exact ⟨rfl, fun ctx h => by cases h⟩
  | some t =>
    obtain ⟨hverify, hrecord⟩ :=
      verifyToken_own hs hs' hown hk (htoken t (Option.filter_eq_some_iff.mp ht).1)
    dsimp only
    rw [← hverify]
    cases hfound : verifyToken hashToken s.db t with
    | none => exact ⟨rfl, fun ctx h => by cases h⟩
    | some record =>
      obtain rfl := hrecord record hfound
      obtain ⟨hget, hget'⟩ := getKey_own hs hs' hown hk
      have hid : clientIdForKey s.db record.id = some clientId := by
        rw [clientIdForKey, hget, Option.bind_some, (mem_own_keys.mp hk).2]
      have hid' : clientIdForKey s'.db record.id = some clientId := by
        rw [clientIdForKey, hget', Option.bind_some, (mem_own_keys.mp hk).2]
      dsimp only
      rw [keyAccess_own hs hs' hown hplans hk, hid, hid']
      refine ⟨rfl, fun ctx h => ?_⟩
      split at h
      · cases h
      · split at h
        · cases h
        · exact (Except.ok.inj h).symm

theorem answer_own (hk : k ∈ (s.own clientId).keys) (now : ℚ) (request : PortalRequest) :
    answer settings s ⟨clientId, k.id⟩ now request = answer settings s' ⟨clientId,
      k.id⟩ now request := by
  have haccess : s.db.keyAccess settings.defaultPlanId k.id =
      s'.db.keyAccess settings.defaultPlanId k.id :=
    keyAccess_own hs hs' hown hplans hk
  have hplan : planIdOf settings s.db ⟨clientId, k.id⟩ =
      planIdOf settings s'.db ⟨clientId, k.id⟩ := by
    unfold planIdOf
    rw [haccess, planForClient_own hown hplans]
  have hsummary : planSummary s.db = planSummary s'.db := by
    unfold planSummary Db.getPlan
    rw [hplans]
  have hk' : k ∈ (s'.own clientId).keys := hown ▸ hk
  cases request with
  | me =>
    unfold answer getMe
    dsimp only
    rw [find?_client, find?_client, hown, hsummary, hplan]
  | plan =>
    unfold answer getPlan
    rw [hsummary, hplan, haccess]
  | usage =>
    unfold answer getUsage usage5h usageWeekly Db.clientUsageCu
    dsimp only
    rw [haccess, sumCu_own hk, sumCu_own hk, sumCu_own hk', sumCu_own hk', clientUsage_own,
      clientUsage_own, hown]
  | services =>
    unfold answer getServices
    rw [haccess]
  | events since limit =>
    unfold answer getEvents
    dsimp only
    rw [getEvents_own hown]
  | stream lastEventId since => rfl

end Same

/-- Two stores that hold the same of a client, and the same plans, give its key the same answers,
whatever else they hold. -/
theorem answers_own (hs : s.db.Valid) (hs' : s'.db.Valid) (hown : s.own clientId = s'.own clientId)
    (hplans : s.db.plans = s'.db.plans) (hk : k ∈ (s.own clientId).keys) {c : Credentials}
      {request : PortalRequest} (htoken : ∀ t ∈ request.token c,
      hashToken t = k.keyHash) (now : ℚ) :
    respond settings hashToken s c now request = respond settings hashToken s' c now request := by
  obtain ⟨hresolve, hctx⟩ :
      resolveClient settings hashToken s.db (request.token c) =
        resolveClient settings hashToken s'.db (request.token c) ∧
      ∀ ctx, resolveClient settings hashToken s.db (request.token c) = .ok ctx →
        ctx = ⟨clientId, k.id⟩ :=
    resolveClient_own hs hs' hown hplans hk htoken
  unfold respond
  rw [← hresolve]
  cases hres : resolveClient settings hashToken s.db (request.token c) with
  | error e => rfl
  | ok ctx =>
    obtain rfl := hctx ctx hres
    exact answer_own hs hs' hown hplans hk now request

end Portal

end InferenceEngine
