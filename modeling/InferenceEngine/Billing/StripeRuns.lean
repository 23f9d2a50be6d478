import InferenceEngine.Billing.Stripe

/-!
# Billing.StripeRuns

What a run of `handle_event` does, wherever it is cut off or fails. The event is about one client,
which it finds or creates (`locate`), and makes a few writes for it (`writes`), each committed by
itself.

* `handleEvent_ran`: every run leaves the store as it was, or with the client located and some first
  part of the writes made (`Ran`). A run that returns has made them all.
* `handleEvent_returns`: where there are a client and writes, a run in which every call is carried
  out returns.
-/

namespace InferenceEngine

open Effect Json

/-- A write of an event, for the client it is about. -/
inductive Write where
  | subscription (sub : Subscription)
  | status (clientId : String) (status : ClientStatus)
  | revoke (clientId : String)
  deriving DecidableEq, Repr

def Write.apply (now : ℚ) : Write → Db → Db
  | subscription sub, db => db.putSubscription sub now
  | status clientId st, db => db.setClientStatus clientId st
  | revoke clientId, db => db.revokeClientKeys clientId now

/-- Writes at the times at which they are made. -/
def made (ws : List (Write × ℚ)) (db : Db) : Db := applyAll (ws.map fun w => w.1.apply w.2) db

section

variable {F : Type} (r : Render F)

/-- The id of the client an event is about, and the store that has it; `none` when the event is
ignored. -/
def locate (uuid : String) (kind : EventKind) (obj : Items F) (db : Db) :
    Except Exc (Option (String × Db)) :=
  match kind with
  | .subscription =>
    if !r.truthy (obj.get "customer") || !r.truthy (obj.get "id") then .ok none
    else
      match r.bind (obj.get "customer") with
      | .error e => .error e
      | .ok externalRef =>
        match db.getClientByExternalRef externalRef with
        | some client => .ok (some (client.id, db))
        | none =>
          match r.bind (obj.get "email") with
          | .error e => .error e
          | .ok email => (db.createClient uuid externalRef email).map fun x => some (x.1.id, x.2)
  | .paymentFailed | .deleted =>
    if !r.truthy (obj.get "customer") then .ok none
    else
      (r.bind (obj.get "customer")).map fun externalRef =>
        (db.getClientByExternalRef externalRef).map fun client => (client.id, db)
  | .other => .ok none

/-- The plan that the metadata of an object choose. -/
def chosenPlan (obj : Items F) (db : Db) : Bound := do
  let metadata ← r.dictOrEmpty (obj.get "metadata")
  if !r.truthy (metadata.get "plan") then return none
  else
    let planId ← r.bind (metadata.get "plan")
    return if (db.getPlan planId).isSome then planId else none

/-- The subscription of an object. -/
def subscriptionOf (obj : Items F) (clientId : String) (planId : Option String) (status : Bound) :
    Except Exc Subscription := do
  let subId ← r.bind (obj.get "id")
  let status ← status
  let currentPeriodEnd ← periodEnd r obj
  match subId, status with
  | some subId, some status =>
    return { id := subId, clientId := clientId, planId := planId, provider := provider,
             providerSubId := subId, status := status, currentPeriodEnd := currentPeriodEnd }
  | _, _ => throw (integrityError "NOT NULL constraint failed: subscriptions")

/-- The write of a subscription that meets its constraints. -/
def subscriptionWrite (obj : Items F) (db : Db) (clientId : String) (planId : Option String)
    (status : Bound) : Except Exc Write := do
  let sub ← subscriptionOf r obj clientId planId status
  db.checkSubscription sub
  return .subscription sub

/-- The writes for the client, and what they come to. -/
def writes (kind : EventKind) (obj : Items F) (db : Db) (clientId : String) :
    Except Exc (List Write × LifecycleAction) :=
  match kind with
  | .subscription => do
    let planId ← chosenPlan r obj db
    let subStatus := obj.get "status" (.str [])
    let active ← isActiveState subStatus
    let w ← subscriptionWrite r obj db clientId planId
      (if active then .ok (some "active") else r.bind subStatus)
    if active then return ([w, .status clientId .active], .activated)
    else return ([w], .planChanged)
  | .paymentFailed => return ([.status clientId .suspended], .suspended)
  | .deleted =>
    if r.truthy (obj.get "id") then do
      let subId ← r.bind (obj.get "id")
      let planId := (db.getSubscriptionByProvider provider subId).bind (·.planId)
      let w ← subscriptionWrite r obj db clientId planId (.ok (some "canceled"))
      return ([w, .status clientId .canceled, .revoke clientId], .canceled)
    else return ([.status clientId .canceled, .revoke clientId], .canceled)
  | .other => return ([], .ignored)

end

/-- A run that has not returned: it was cut off, or it raised. -/
def Failed (v : Option (Except Exc LifecycleResult)) : Prop := ∀ res, v ≠ some (.ok res)

/-- What a run may leave, and how it may end. -/
inductive Ran {F : Type} (r : Render F) (uuid : String) (kind : EventKind)
    (obj : Items F) (db : Db) :
    Db → Option (Except Exc LifecycleResult) → Prop where
  | failed {v : Option (Except Exc LifecycleResult)} (hv : Failed v) : Ran r uuid kind obj db db v
  | ignored (hloc : locate r uuid kind obj db = .ok none) :
      Ran r uuid kind obj db db (some (.ok { action := .ignored }))
  | located {clientId : String} {db₁ : Db} {v : Option (Except Exc LifecycleResult)}
      (hloc : locate r uuid kind obj db = .ok (some (clientId, db₁))) (hv : Failed v) :
      Ran r uuid kind obj db db₁ v
  | wrote {clientId : String} {db₁ : Db} (ws : List (Write × ℚ)) {rest : List Write}
      {action : LifecycleAction} {v : Option (Except Exc LifecycleResult)}
      (hloc : locate r uuid kind obj db = .ok (some (clientId, db₁)))
      (hws : writes r kind obj db₁ clientId = .ok (ws.map Prod.fst ++ rest, action))
      (hv : Failed v) : Ran r uuid kind obj db (made ws db₁) v
  | finished {clientId : String} {db₁ : Db} (ws : List (Write × ℚ)) {action : LifecycleAction}
      (hloc : locate r uuid kind obj db = .ok (some (clientId, db₁)))
      (hws : writes r kind obj db₁ clientId = .ok (ws.map Prod.fst, action)) :
      Ran r uuid kind obj db (made ws db₁)
        (some (.ok { action := action, clientId := some clientId }))

variable {F : Type} {r : Render F} {uuid : String} {obj : Items F} {db db' : Db}

theorem failed_error (e : Exc) : Failed (some (.error e)) := fun _ h => by cases h

/-! ## Single calls -/

namespace StoreOp

theorem statement_ok {α : Type} {run : Except Exc (α × Db)} {a : α}
    (h : statement db run = (.ok a, db')) : run = .ok (a, db') := by
  unfold statement at h
  split at h
  · cases h
    rfl
  · cases h

theorem exec_error {now : ℚ} {op : StoreOp} {e : Exc} (h : op.exec now db = (.error e, db')) :
    db' = db := by
  have hst {α : Type} {run : Except Exc (α × Db)} (hr : statement db run = (.error e, db')) :
      db' = db := by
    unfold statement at hr
    split at hr
    · cases hr
    · cases hr
      rfl
  cases op with
  | setClientStatus | revokeClientKeys => cases h
  | _ => exact hst h

end StoreOp

/-- The rule for a call: it fails and changes nothing, or it is carried out. -/
theorem leads_store {α : Type} {op : StoreOp} {f : op.Res → Billing α}
    {Post : Db → Option (Except Exc α) → Prop}
    (hfail : ∀ v, (∀ a, v ≠ some (.ok a)) → Post db v)
    (hok : ∀ now a db', op.exec now db = (.ok a, db') →
      (f a).Leads StoreOp.exec db' Post) :
    ((Prog.call op).bind f).Leads StoreOp.exec db Post := by
  refine Prog.leads_call (hfail none fun _ h => by cases h)
    (fun e => hfail _ fun _ h => by cases h) hok fun now e db' h => ?_
  rw [StoreOp.exec_error h]
  exact hfail _ fun _ h => by cases h

theorem exec_upsertSubscription (now : ℚ) (db : Db) (clientId : String) (planId : Option String)
    (status : Bound) :
    (StoreOp.upsertSubscription (r.bind (obj.get "id")) clientId (.ok planId) provider
      (r.bind (obj.get "id")) status (periodEnd r obj)).exec now db =
      StoreOp.statement db ((subscriptionWrite r obj db clientId planId status).map
        fun w => ((), w.apply now db)) := by
  unfold StoreOp.exec subscriptionWrite subscriptionOf
  cases r.bind (obj.get "id") with
  | error e => rfl
  | ok id =>
    cases status with
    | error e => rfl
    | ok st =>
      cases periodEnd r obj with
      | error e => rfl
      | ok currentPeriodEnd =>
        simp only [bind, Except.bind, pure, Except.pure, Db.upsertSubscription]
        cases id with
        | none => rfl
        | some id =>
          cases st with
          | none => rfl
          | some st =>
            dsimp only
            cases db.checkSubscription
                { id := id, clientId := clientId, planId := planId, provider := provider,
                  providerSubId := id, status := st, currentPeriodEnd := currentPeriodEnd } with
            | error e => rfl
            | ok u => rfl

theorem exec_upsertSubscription_ok {now : ℚ} {clientId : String} {planId : Option String}
    {status : Bound} {a : Unit}
    (h : (StoreOp.upsertSubscription (r.bind (obj.get "id")) clientId (.ok planId) provider
      (r.bind (obj.get "id")) status (periodEnd r obj)).exec now db = (.ok a, db')) :
    ∃ w, subscriptionWrite r obj db clientId planId status = .ok w ∧ db' = w.apply now db := by
  rw [exec_upsertSubscription] at h
  have hrun := StoreOp.statement_ok h
  cases hw : subscriptionWrite r obj db clientId planId status with
  | error e =>
    rw [hw] at hrun
    cases hrun
  | ok w =>
    rw [hw] at hrun
    cases hrun
    exact ⟨w, rfl, rfl⟩

theorem leads_ensureClient {α : Type} {f : String → Billing α}
    {Post : Db → Option (Except Exc α) → Prop}
    (hcustomer : r.truthy (obj.get "customer") = true) (hsub : r.truthy (obj.get "id") = true)
    (hfail : ∀ v, (∀ a, v ≠ some (.ok a)) → Post db v)
    (hok : ∀ clientId db₁, locate r uuid .subscription obj db = .ok (some (clientId, db₁)) →
      (f clientId).Leads StoreOp.exec db₁ Post) :
    ((ensureClient uuid (r.bind (obj.get "customer")) (r.bind (obj.get "email"))).bind f).Leads
      StoreOp.exec db Post := by
  have hif : (!r.truthy (obj.get "customer") || !r.truthy (obj.get "id")) = false := by
    rw [hcustomer, hsub]
    rfl
  unfold ensureClient
  rw [Prog.bind_eq, Prog.bind_assoc]
  refine leads_store hfail fun now found db' hget => ?_
  have hrun := StoreOp.statement_ok hget
  cases href : r.bind (obj.get "customer") with
  | error e => rw [href] at hrun; cases hrun
  | ok externalRef =>
    rw [href] at hrun
    cases hrun
    cases hfind : db.getClientByExternalRef externalRef with
    | some client =>
      refine hok client.id db ?_
      simp only [locate, hif, href, hfind, Bool.false_eq_true, if_false]
    | none =>
      dsimp only
      rw [Prog.bind_eq, Prog.bind_assoc]
      refine leads_store hfail fun now client db₁ hcreate => ?_
      have hrun := StoreOp.statement_ok hcreate
      refine hok client.id db₁ ?_
      simp only [locate, hif, href, hfind, Bool.false_eq_true, if_false]
      cases hemail : r.bind (obj.get "email") with
      | error e => rw [hemail] at hrun; cases hrun
      | ok email =>
        rw [hemail] at hrun
        have hc : db.createClient uuid externalRef email = .ok (client, db₁) := hrun
        dsimp only
        rw [hc]
        rfl

theorem leads_resolvePlanId {α : Type} {f : Bound → Billing α}
    {Post : Db → Option (Except Exc α) → Prop}
    (hfail : ∀ v, (∀ a, v ≠ some (.ok a)) → Post db v)
    (hok : ∀ planId, chosenPlan r obj db =
      .ok planId → (f (.ok planId)).Leads StoreOp.exec db Post) :
      ((resolvePlanId r obj).bind f).Leads StoreOp.exec db Post := by
  unfold resolvePlanId
  rw [Prog.bind_eq, Prog.bind_assoc]
  refine Prog.leads_ofExcept (fun e => hfail _ fun _ h => by cases h) fun metadata hmeta => ?_
  unfold chosenPlan at hok
  simp only [hmeta, bind, Except.bind] at hok
  dsimp only
  split
  · rename_i hfalse
    simp only [hfalse, if_true] at hok
    exact hok none rfl
  · rename_i htrue
    simp only [htrue] at hok
    rw [Prog.bind_eq, Prog.bind_assoc]
    refine leads_store hfail fun now plan db' hget => ?_
    have hrun := StoreOp.statement_ok hget
    cases hb : r.bind (metadata.get "plan") with
    | error e => rw [hb] at hrun; cases hrun
    | ok planId =>
      rw [hb] at hrun
      cases hrun
      simp only [hb] at hok
      have hf := hok _ rfl
      show (f (if (db.getPlan planId).isSome then .ok planId else .ok none)).Leads StoreOp.exec db Post
      split
      · rename_i hsome
        simpa [hsome] using hf
      · rename_i hnone
        simpa [hnone] using hf

/-! ## The client -/

structure Located (r : Render F) (kind : EventKind) (obj : Items F) (db : Db) (client : Client) :
    Prop where
  known : kind ≠ .other
  customer : r.truthy (obj.get "customer") = true
  subId : kind = .subscription → r.truthy (obj.get "id") = true
  found : ∃ externalRef, r.bind (obj.get "customer") = .ok externalRef ∧
    db.getClientByExternalRef externalRef = some client

theorem locate_found {kind : EventKind} {clientId : String} {db₁ : Db}
    (hkind : kind = .paymentFailed ∨ kind = .deleted)
    (hloc : locate r uuid kind obj db = .ok (some (clientId, db₁))) :
    r.truthy (obj.get "customer") = true ∧ db₁ = db ∧ ∃ externalRef client,
      r.bind (obj.get "customer") = .ok externalRef ∧
        db.getClientByExternalRef externalRef = some client ∧ client.id = clientId := by
  have hloc' : (if !r.truthy (obj.get "customer") then
      (.ok none : Except Exc (Option (String × Db)))
      else (r.bind (obj.get "customer")).map fun externalRef =>
        (db.getClientByExternalRef externalRef).map fun client => (client.id, db)) =
      .ok (some (clientId, db₁)) := by
    obtain rfl | rfl := hkind <;> exact hloc
  split at hloc'
  · cases hloc'
  · rename_i hcustomer
    cases href : r.bind (obj.get "customer") with
    | error e => rw [href] at hloc'; cases hloc'
    | ok externalRef =>
      rw [href] at hloc'
      simp only [Except.map, Except.ok.injEq, Option.map_eq_some_iff, Prod.mk.injEq] at hloc'
      obtain ⟨client, hfind, hid, rfl⟩ := hloc'
      exact ⟨by simpa using hcustomer, rfl, externalRef, client, rfl, hfind, hid⟩

/-- The client is looked up, or, for a subscription, created. -/
theorem locate_cases {kind : EventKind} {clientId : String} {db₁ : Db}
    (h : locate r uuid kind obj db = .ok (some (clientId, db₁))) :
    (∃ client, Located r kind obj db client ∧ client.id = clientId ∧ db₁ = db) ∨
      kind = .subscription ∧ r.truthy (obj.get "customer") = true ∧
        r.truthy (obj.get "id") = true ∧ clientId = uuid ∧ ∃ externalRef email client,
          r.bind (obj.get "customer") = .ok externalRef ∧ r.bind (obj.get "email") = .ok email ∧
          db.getClientByExternalRef externalRef = none ∧
          db.createClient uuid externalRef email = .ok (client, db₁) := by
  cases kind with
  | other => cases h
  | subscription =>
    simp only [locate] at h
    split at h
    · cases h
    · rename_i hif
      simp only [Bool.or_eq_true, Bool.not_eq_true', not_or, Bool.not_eq_false] at hif
      cases href : r.bind (obj.get "customer") with
      | error e => rw [href] at h; cases h
      | ok externalRef =>
        rw [href] at h
        dsimp only at h
        cases hfind : db.getClientByExternalRef externalRef with
        | some client =>
          rw [hfind] at h
          cases h
          exact .inl ⟨client, ⟨by simp, hif.1, fun _ => hif.2, externalRef, href, hfind⟩, rfl, rfl⟩
        | none =>
          rw [hfind] at h
          dsimp only at h
          cases hemail : r.bind (obj.get "email") with
          | error e => rw [hemail] at h; cases h
          | ok email =>
            rw [hemail] at h
            dsimp only at h
            cases hcreate : db.createClient uuid externalRef email with
            | error e => rw [hcreate] at h; cases h
            | ok created =>
              rw [hcreate] at h
              cases h
              have hid := (Db.createClient_ok hcreate).2.2.1
              exact .inr ⟨rfl, hif.1, hif.2, by rw [hid], externalRef, email, created.1, rfl, rfl,
                hfind, hcreate⟩
  | paymentFailed =>
    obtain ⟨hcustomer, rfl, externalRef, client, href, hfind, hid⟩ := locate_found (.inl rfl) h
    exact .inl ⟨client, ⟨by simp, hcustomer, (by intro hk; cases hk), externalRef, href, hfind⟩,
      hid, rfl⟩
  | deleted =>
    obtain ⟨hcustomer, rfl, externalRef, client, href, hfind, hid⟩ := locate_found (.inr rfl) h
    exact .inl ⟨client, ⟨by simp, hcustomer, (by intro hk; cases hk), externalRef, href, hfind⟩,
      hid, rfl⟩

/-- When there is no client: an event of another kind, without the fields it needs, or for a
customer that is not known. -/
theorem locate_none {kind : EventKind} (h : locate r uuid kind obj db = .ok none) :
    kind = .other ∨
      kind = .subscription ∧
        (!r.truthy (obj.get "customer") || !r.truthy (obj.get "id")) = true ∨
      (kind = .paymentFailed ∨ kind = .deleted) ∧
        (r.truthy (obj.get "customer") = false ∨ ∃ externalRef,
          r.bind (obj.get "customer") = .ok externalRef ∧
            db.getClientByExternalRef externalRef = none) := by
  have hlookup (hl : (if !r.truthy (obj.get "customer") then
      (.ok none : Except Exc (Option (String × Db)))
      else (r.bind (obj.get "customer")).map fun externalRef =>
        (db.getClientByExternalRef externalRef).map fun client => (client.id, db)) = .ok none) :
      r.truthy (obj.get "customer") = false ∨ ∃ externalRef,
        r.bind (obj.get "customer") = .ok externalRef ∧
          db.getClientByExternalRef externalRef = none := by
    split at hl
    · rename_i hfalse
      exact .inl (by simpa using hfalse)
    · cases href : r.bind (obj.get "customer") with
      | error e => rw [href] at hl; cases hl
      | ok externalRef =>
        rw [href] at hl
        exact .inr ⟨externalRef, rfl, by simpa [Except.map] using hl⟩
  cases kind with
  | other => exact .inl rfl
  | subscription =>
    simp only [locate] at h
    split at h
    · rename_i hif
      exact .inr (.inl ⟨rfl, hif⟩)
    · split at h
      · cases h
      · split at h
        · cases h
        · split at h
          · cases h
          · rename_i externalRef _ _ _ _ email _
            cases hc : db.createClient uuid externalRef email with
            | error e => rw [hc] at h; cases h
            | ok x => rw [hc] at h; cases h
  | paymentFailed => exact .inr (.inr ⟨.inl rfl, hlookup h⟩)
  | deleted => exact .inr (.inr ⟨.inr rfl, hlookup h⟩)

theorem locate_none_uuid {kind : EventKind} (h : locate r uuid kind obj db = .ok none)
    (uuid' : String) : locate r uuid' kind obj db = .ok none := by
  obtain rfl | ⟨rfl, hif⟩ | ⟨rfl | rfl, hnone⟩ := locate_none h
  · rfl
  · simp only [locate, hif, if_true]
  · exact h
  · exact h

theorem Located.locate {kind : EventKind} {client : Client} (h : Located r kind obj db client)
    (uuid : String) : locate r uuid kind obj db = .ok (some (client.id, db)) := by
  obtain ⟨hkind, hcustomer, hsub, externalRef, href, hfind⟩ := h
  cases kind with
  | subscription => simp [InferenceEngine.locate, hcustomer, hsub rfl, href, hfind]
  | paymentFailed => simp [InferenceEngine.locate, hcustomer, href, hfind, Except.map]
  | deleted => simp [InferenceEngine.locate, hcustomer, href, hfind, Except.map]
  | other => exact absurd rfl hkind

/-! ## The writes -/

theorem except_bind_ok {α β : Type} {x : Except Exc α} {f : α → Except Exc β} {b : β} :
    x.bind f = .ok b ↔ ∃ a, x = .ok a ∧ f a = .ok b := by
  cases x with
  | error e => simp [Except.bind]
  | ok a => simp [Except.bind]

theorem subscriptionOf_ok {clientId : String} {planId : Option String} {status : Bound}
    {sub : Subscription} (h : subscriptionOf r obj clientId planId status = .ok sub) :
    r.bind (obj.get "id") = .ok (some sub.providerSubId) ∧ sub.id = sub.providerSubId ∧
      sub.clientId = clientId ∧ sub.planId = planId ∧ sub.provider = provider := by
  obtain ⟨subId, hid, h⟩ := except_bind_ok.mp h
  obtain ⟨st, -, h⟩ := except_bind_ok.mp h
  obtain ⟨currentPeriodEnd, -, h⟩ := except_bind_ok.mp h
  split at h
  · cases h
    exact ⟨hid, rfl, rfl, rfl, rfl⟩
  · cases h

theorem subscriptionWrite_ok_iff {clientId : String} {planId : Option String} {status : Bound}
    {w : Write} :
    subscriptionWrite r obj db clientId planId status = .ok w ↔
      ∃ sub, subscriptionOf r obj clientId planId status = .ok sub ∧
        db.checkSubscription sub = .ok () ∧ w = .subscription sub := by
  constructor
  · intro h
    obtain ⟨sub, hsub, h⟩ := except_bind_ok.mp h
    obtain ⟨u, hcheck, h⟩ := except_bind_ok.mp h
    cases h
    exact ⟨sub, hsub, hcheck, rfl⟩
  · rintro ⟨sub, hsub, hcheck, rfl⟩
    exact except_bind_ok.mpr ⟨sub, hsub, except_bind_ok.mpr ⟨(), hcheck, rfl⟩⟩

/-- `customer.subscription.created` and `updated` write the subscription, and activate the client if
it is active. -/
theorem writes_subscription_iff {clientId : String} {L : List Write} {action : LifecycleAction} :
    writes r .subscription obj db clientId = .ok (L, action) ↔
      ∃ planId active sub, chosenPlan r obj db = .ok planId ∧
        isActiveState (obj.get "status" (.str [])) = .ok active ∧
        subscriptionOf r obj clientId planId
          (if active then .ok (some "active") else r.bind (obj.get "status" (.str []))) = .ok sub ∧
        db.checkSubscription sub = .ok () ∧
        L = .subscription sub :: (if active then [.status clientId .active] else []) ∧
        action = if active then .activated else .planChanged := by
  constructor
  · intro h
    obtain ⟨planId, hplan, h⟩ := except_bind_ok.mp h
    obtain ⟨active, hactive, h⟩ := except_bind_ok.mp h
    obtain ⟨w, hw, h⟩ := except_bind_ok.mp h
    obtain ⟨sub, hsub, hcheck, rfl⟩ := subscriptionWrite_ok_iff.mp hw
    refine ⟨planId, active, sub, hplan, hactive, hsub, hcheck, ?_⟩
    cases active with
    | true => cases h; exact ⟨rfl, rfl⟩
    | false => cases h; exact ⟨rfl, rfl⟩
  · rintro ⟨planId, active, sub, hplan, hactive, hsub, hcheck, rfl, rfl⟩
    refine except_bind_ok.mpr ⟨planId, hplan, except_bind_ok.mpr ⟨active, hactive, ?_⟩⟩
    refine except_bind_ok.mpr ⟨_, subscriptionWrite_ok_iff.mpr ⟨sub, hsub, hcheck, rfl⟩, ?_⟩
    cases active with
    | true => rfl
    | false => rfl

/-- `customer.subscription.deleted` writes the subscription, if it has one, cancels the client and
revokes its keys. -/
theorem writes_deleted_iff {clientId : String} {L : List Write} {action : LifecycleAction} :
    writes r .deleted obj db clientId = .ok (L, action) ↔
      action = .canceled ∧
        (r.truthy (obj.get "id") = false ∧ L = [.status clientId .canceled, .revoke clientId] ∨
        r.truthy (obj.get "id") = true ∧ ∃ subId sub, r.bind (obj.get "id") = .ok subId ∧
          subscriptionOf r obj clientId
            ((db.getSubscriptionByProvider provider subId).bind (·.planId))
            (.ok (some "canceled")) = .ok sub ∧
          db.checkSubscription sub = .ok () ∧
          L = [.subscription sub, .status clientId .canceled, .revoke clientId]) := by
  unfold writes
  dsimp only
  cases htruthy : r.truthy (obj.get "id") with
  | false =>
    constructor
    · intro h
      cases h
      exact ⟨rfl, .inl ⟨rfl, rfl⟩⟩
    · rintro ⟨rfl, ⟨-, rfl⟩ | ⟨hf, -⟩⟩
      · rfl
      · cases hf
  | true =>
    constructor
    · intro h
      obtain ⟨subId, hid, h⟩ := except_bind_ok.mp h
      obtain ⟨w, hw, h⟩ := except_bind_ok.mp h
      obtain ⟨sub, hsub, hcheck, rfl⟩ := subscriptionWrite_ok_iff.mp hw
      cases h
      exact ⟨rfl, .inr ⟨rfl, subId, sub, hid, hsub, hcheck, rfl⟩⟩
    · rintro ⟨rfl, ⟨hf, -⟩ | ⟨-, subId, sub, hid, hsub, hcheck, rfl⟩⟩
      · cases hf
      · exact except_bind_ok.mpr ⟨subId, hid, except_bind_ok.mpr
          ⟨_, subscriptionWrite_ok_iff.mpr ⟨sub, hsub, hcheck, rfl⟩, rfl⟩⟩

/-! ## Whole runs -/

theorem made_concat (ws : List (Write × ℚ)) (w : Write) (now : ℚ) (db : Db) :
    made (ws ++ [(w, now)]) db = w.apply now (made ws db) := by
  unfold made
  rw [List.map_append, applyAll_append]
  rfl

theorem subscriptionChanged_ran (r : Render F) (uuid : String) (obj : Items F) (db : Db) :
    (subscriptionChanged r uuid obj).Leads StoreOp.exec db (Ran r uuid .subscription obj db) := by
  unfold subscriptionChanged
  dsimp only
  split
  · rename_i hif
    exact Prog.leads_ret (.ignored (by simp only [locate, hif, if_true]))
  · rename_i hif
    simp only [Bool.or_eq_true, Bool.not_eq_true', not_or, Bool.not_eq_false] at hif
    refine leads_ensureClient hif.1 hif.2 (fun v hv => .failed hv) fun clientId db₁ hloc => ?_
    unfold setSubscription
    have hfail : ∀ v, Failed v → Ran r uuid .subscription obj db db₁ v :=
        fun v hv => .located hloc hv
    refine leads_resolvePlanId hfail fun planId hplan => ?_
    refine Prog.leads_ofExcept (fun e => hfail _ (failed_error e)) fun active hactive => ?_
    refine leads_store hfail fun now _ db₂ hexec => ?_
    obtain ⟨w, hw, rfl⟩ := exec_upsertSubscription_ok hexec
    have hws : writes r .subscription obj db₁ clientId =
        if active then .ok ([w, .status clientId .active], .activated)
        else .ok ([w], .planChanged) := by
      simp only [writes, hplan, hactive, hw, bind, Except.bind, pure, Except.pure]
    cases active with
    | false => exact Prog.leads_ret (.finished [(w, now)] hloc hws)
    | true =>
      refine leads_store (fun v hv => .wrote [(w, now)] hloc hws hv) fun now' _ db₃ hset => ?_
      cases hset
      exact Prog.leads_ret (.finished [(w, now), (.status clientId .active, now')] hloc hws)

theorem paymentFailed_ran (r : Render F) (uuid : String) (obj : Items F) (db : Db) :
    (paymentFailed r obj).Leads StoreOp.exec db (Ran r uuid .paymentFailed obj db) := by
  unfold paymentFailed
  dsimp only
  split
  · rename_i hif
    exact Prog.leads_ret (.ignored (by simp only [locate, hif, if_true]))
  · rename_i hif
    refine leads_store (fun v hv => .failed hv) fun now found db' hget => ?_
    have hrun := StoreOp.statement_ok hget
    cases href : r.bind (obj.get "customer") with
    | error e => rw [href] at hrun; cases hrun
    | ok externalRef =>
      rw [href] at hrun
      cases hrun
      have hloc : locate r uuid .paymentFailed obj db =
          .ok ((db.getClientByExternalRef externalRef).map fun client => (client.id, db)) := by
        simp only [locate, hif, href]
        rfl
      cases hfind : db.getClientByExternalRef externalRef with
      | none =>
        rw [hfind] at hloc
        exact Prog.leads_ret (.ignored hloc)
      | some client =>
        rw [hfind] at hloc
        refine leads_store (fun v hv => .failed hv) fun now _ db₂ hset => ?_
        cases hset
        exact Prog.leads_ret (.finished [(.status client.id .suspended, now)] hloc rfl)

theorem made_frame {β : Type} (g : Db → β) (hg : ∀ (w : Write) now db, g (w.apply now db) = g db)
    (ws : List (Write × ℚ)) (db : Db) : g (made ws db) = g db := by
  induction ws generalizing db with
  | nil => rfl
  | cons w ws ih =>
    rw [show made (w :: ws) db = made ws (w.1.apply w.2 db) from rfl, ih, hg]

theorem cancelClient_ran {clientId : String} {db₁ : Db} (ws : List (Write × ℚ))
    (hloc : locate r uuid .deleted obj db = .ok (some (clientId, db₁)))
    (hws : writes r .deleted obj db₁ clientId =
      .ok (ws.map Prod.fst ++ [.status clientId .canceled, .revoke clientId], .canceled)) :
    (cancelClient clientId).Leads StoreOp.exec (made ws db₁) (Ran r uuid .deleted obj db) := by
  refine leads_store (fun v hv => .wrote ws hloc hws hv) fun now _ db₂ hset => ?_
  cases hset
  rw [← show made (ws ++ [(.status clientId .canceled, now)]) db₁ =
    (made ws db₁).setClientStatus clientId .canceled from made_concat ..]
  have hws₂ : writes r .deleted obj db₁ clientId =
      .ok ((ws ++ [(Write.status clientId .canceled, now)]).map Prod.fst ++ [.revoke clientId],
        .canceled) := by
    rw [hws, List.map_append, List.append_assoc]
    rfl
  refine leads_store (fun v hv => .wrote _ hloc hws₂ hv) fun now' _ db₃ hrevoke => ?_
  cases hrevoke
  rw [← show made (ws ++ [(.status clientId .canceled, now)] ++ [(.revoke clientId, now')]) db₁ =
    (made (ws ++ [(.status clientId .canceled, now)]) db₁).revokeClientKeys clientId now'
    from made_concat ..]
  refine Prog.leads_ret (.finished _ hloc ?_)
  rw [hws₂]
  simp only [List.map_append, List.map_cons, List.map_nil]

theorem subscriptionDeleted_ran (r : Render F) (uuid : String) (obj : Items F) (db : Db) :
    (subscriptionDeleted r obj).Leads StoreOp.exec db (Ran r uuid .deleted obj db) := by
  unfold subscriptionDeleted
  dsimp only
  split
  · rename_i hif
    exact Prog.leads_ret (.ignored (by simp only [locate, hif, if_true]))
  · rename_i hif
    refine leads_store (fun v hv => .failed hv) fun now found db' hget => ?_
    have hrun := StoreOp.statement_ok hget
    cases href : r.bind (obj.get "customer") with
    | error e => rw [href] at hrun; cases hrun
    | ok externalRef =>
      rw [href] at hrun
      cases hrun
      have hloc : locate r uuid .deleted obj db =
          .ok ((db.getClientByExternalRef externalRef).map fun client => (client.id, db)) := by
        simp only [locate, hif, href]
        rfl
      cases hfind : db.getClientByExternalRef externalRef with
      | none =>
        rw [hfind] at hloc
        exact Prog.leads_ret (.ignored hloc)
      | some client =>
        rw [hfind] at hloc
        dsimp only
        split
        · rename_i hsub
          refine leads_store (fun v hv => .failed hv) fun now existing db' hget => ?_
          have hrun := StoreOp.statement_ok hget
          cases hid : r.bind (obj.get "id") with
          | error e => rw [hid] at hrun; cases hrun
          | ok subId =>
            rw [hid] at hrun
            cases hrun
            rw [← hid]
            refine leads_store (fun v hv => .failed hv) fun now _ db₂ hexec => ?_
            obtain ⟨w, hw, rfl⟩ := exec_upsertSubscription_ok hexec
            refine cancelClient_ran [(w, now)] hloc ?_
            simp only [writes, hsub, hid, hw, if_true, bind, Except.bind, pure, Except.pure,
              List.map_cons, List.map_nil, List.cons_append, List.nil_append]
        · rename_i hsub
          refine cancelClient_ran [] hloc ?_
          simp only [writes, hsub]
          rfl

/-- Every run of `handle_event`, from the kind and the object of its event. -/
theorem handleEvent_ran (r : Render F) (uuid : String) (event : Items F) (db : Db) :
    (handleEvent r uuid event).Leads StoreOp.exec db fun db' v =>
      db' = db ∧ Failed v ∨
        ∃ kind obj, eventTarget r event = .ok (kind, obj) ∧ Ran r uuid kind obj db db' v := by
  refine Prog.leads_ofExcept (fun e => .inl ⟨rfl, failed_error e⟩) fun target htarget => ?_
  obtain ⟨kind, obj⟩ := target
  have hran {p : Billing LifecycleResult}
      (h : p.Leads StoreOp.exec db (Ran r uuid kind obj db)) :
      p.Leads StoreOp.exec db fun db' v => db' = db ∧ Failed v ∨
        ∃ kind obj, eventTarget r event = .ok (kind, obj) ∧ Ran r uuid kind obj db db' v :=
    h.mono fun db' v hv => .inr ⟨kind, obj, htarget, hv⟩
  cases kind with
  | subscription => exact hran (subscriptionChanged_ran r uuid obj db)
  | paymentFailed => exact hran (paymentFailed_ran r uuid obj db)
  | deleted => exact hran (subscriptionDeleted_ran r uuid obj db)
  | other => exact hran (Prog.leads_ret (.ignored rfl))

section

variable {event : StripeEvent F}

/-- A run of `handle_event`: what it leaves, and its value, if it got that far. -/
def runEvent (r : Render F) (event : StripeEvent F) (uuid : String)
    (fs : List (Fate ℚ Exc)) (db : Db) :
    Effect.Ended Db ℚ Exc LifecycleResult :=
  (handleEvent r uuid event.items).runOn StoreOp.exec fs db

/-- The run returns, and leaves `db'`. -/
def Handles (r : Render F) (event : StripeEvent F) (uuid : String) (fs : List (Fate ℚ Exc))
    (db : Db) (res : LifecycleResult) (db' : Db) : Prop :=
  (runEvent r event uuid fs db).value = some (.ok res) ∧ (runEvent r event uuid fs db).state = db'

theorem handles_cases {uuid : String} {fs : List (Fate ℚ Exc)} {res : LifecycleResult}
    (h : Handles r event uuid fs db res db') :
    ∃ kind obj, eventTarget r event.items = .ok (kind, obj) ∧
      (locate r uuid kind obj db = .ok none ∧ db' = db ∧ res = { action := .ignored } ∨
      ∃ clientId db₁ ws action, locate r uuid kind obj db = .ok (some (clientId, db₁)) ∧
        writes r kind obj db₁ clientId = .ok (ws.map Prod.fst, action) ∧ db' = made ws db₁ ∧
        res = { action := action, clientId := some clientId }) := by
  have hran := handleEvent_ran r uuid event.items db fs
  obtain ⟨hv, hs⟩ := h
  unfold runEvent at hv hs
  rw [hv, hs] at hran
  obtain ⟨-, hf⟩ | ⟨kind, obj, htarget, hran⟩ := hran
  · exact absurd rfl (hf res)
  · refine ⟨kind, obj, htarget, ?_⟩
    cases hran with
    | failed hf => exact absurd rfl (hf res)
    | ignored hloc => exact .inl ⟨hloc, rfl, rfl⟩
    | located hloc hf => exact absurd rfl (hf res)
    | wrote ws hloc hws hf => exact absurd rfl (hf res)
    | finished ws hloc hws => exact .inr ⟨_, _, ws, _, hloc, hws, rfl, rfl⟩

theorem runEvent_stage (r : Render F) (event : StripeEvent F) (uuid : String)
    (fs : List (Fate ℚ Exc)) (db : Db) :
    (runEvent r event uuid fs db).state = db ∨
      ∃ kind obj clientId db₁ ws, eventTarget r event.items = .ok (kind, obj) ∧
        locate r uuid kind obj db = .ok (some (clientId, db₁)) ∧
        (runEvent r event uuid fs db).state = made ws db₁ ∧
        (ws = [] ∨ ∃ rest action,
          writes r kind obj db₁ clientId = .ok (ws.map Prod.fst ++ rest, action)) := by
  have hran := handleEvent_ran r uuid event.items db fs
  unfold runEvent
  obtain ⟨hs, -⟩ | ⟨kind, obj, htarget, hran⟩ := hran
  · exact .inl hs
  · generalize ((handleEvent r uuid event.items).runOn StoreOp.exec fs db).state = m at hran ⊢
    generalize ((handleEvent r uuid event.items).runOn StoreOp.exec fs db).value = v at hran
    cases hran with
    | failed hf => exact .inl rfl
    | ignored hloc => exact .inl rfl
    | located hloc hf => exact .inr ⟨kind, obj, _, _, [], htarget, hloc, rfl, .inl rfl⟩
    | wrote ws hloc hws hf =>
      exact .inr ⟨kind, obj, _, _, ws, htarget, hloc, rfl, .inr ⟨_, _, hws⟩⟩
    | finished ws hloc hws =>
      exact .inr ⟨kind, obj, _, _, ws, htarget, hloc, rfl, .inr ⟨[], _, by simpa using hws⟩⟩

end

/-! ## Runs in which every call is carried out -/

section

variable {now : ℚ}

theorem cancelClient_returns (clientId : String) (db : Db) :
    (cancelClient clientId).Succeeds StoreOp.exec now db :=
  Prog.succeeds_call rfl (Prog.succeeds_call rfl (Prog.succeeds_ret _))

theorem exec_upsertSubscription_write {clientId : String} {planId : Option String} {status : Bound}
    {w : Write} (hw : subscriptionWrite r obj db clientId planId status = .ok w) :
    (StoreOp.upsertSubscription (r.bind (obj.get "id")) clientId (.ok planId) provider
      (r.bind (obj.get "id")) status (periodEnd r obj)).exec now db = (.ok (), w.apply now db) := by
  rw [exec_upsertSubscription, hw]
  rfl

theorem succeeds_resolvePlanId {α : Type} {f : Bound → Billing α} {planId : Option String}
    (h : chosenPlan r obj db = .ok planId) (hf : (f (.ok planId)).Succeeds StoreOp.exec now db) :
    ((resolvePlanId r obj).bind f).Succeeds StoreOp.exec now db := by
  unfold resolvePlanId
  rw [Prog.bind_eq, Prog.bind_assoc]
  unfold chosenPlan at h
  simp only [bind, Except.bind] at h
  cases hmeta : r.dictOrEmpty (obj.get "metadata") with
  | error e => rw [hmeta] at h; cases h
  | ok metadata =>
    rw [hmeta] at h
    refine Prog.succeeds_ofExcept rfl ?_
    dsimp only at h ⊢
    split at h
    · rename_i hfalse
      rw [if_pos hfalse]
      cases h
      exact hf
    · rename_i htrue
      rw [if_neg htrue]
      cases hb : r.bind (metadata.get "plan") with
      | error e => rw [hb] at h; cases h
      | ok candidate =>
        rw [hb] at h
        cases h
        rw [Prog.bind_eq, Prog.bind_assoc]
        have hget : (StoreOp.getPlan (.ok candidate)).exec now db =
            (.ok (db.getPlan candidate), db) :=
          rfl
        refine Prog.succeeds_call hget ?_
        show (f (if (db.getPlan candidate).isSome then .ok candidate else .ok none)).Succeeds
          StoreOp.exec now db
        rw [apply_ite Except.ok] at hf
        exact hf

/-- The rest of `handle_event` once the client of a subscription is located. -/
theorem setSubscription_returns {clientId : String} {ws : List Write} {action : LifecycleAction}
    (hws : writes r .subscription obj db clientId = .ok (ws, action)) :
    (setSubscription r obj clientId).Succeeds StoreOp.exec now db := by
  simp only [writes, bind, Except.bind] at hws
  cases hplan : chosenPlan r obj db with
  | error e => rw [hplan] at hws; cases hws
  | ok planId =>
    rw [hplan] at hws
    refine succeeds_resolvePlanId hplan ?_
    cases hactive : isActiveState (obj.get "status" (.str [])) with
    | error e => rw [hactive] at hws; cases hws
    | ok active =>
      rw [hactive] at hws
      dsimp only at hws
      refine Prog.succeeds_ofExcept rfl ?_
      cases hw : subscriptionWrite r obj db clientId planId
          (if active then .ok (some "active") else r.bind (obj.get "status" (.str []))) with
      | error e => rw [hw] at hws; cases hws
      | ok w =>
        refine Prog.succeeds_call (exec_upsertSubscription_write hw) ?_
        split
        · exact Prog.succeeds_call rfl (Prog.succeeds_ret _)
        · exact Prog.succeeds_ret _

theorem succeeds_ensureClient {α : Type} {f : String → Billing α} {clientId : String} {db₁ : Db}
    (hcustomer : r.truthy (obj.get "customer") = true) (hsub : r.truthy (obj.get "id") = true)
    (hloc : locate r uuid .subscription obj db = .ok (some (clientId, db₁)))
    (hf : (f clientId).Succeeds StoreOp.exec now db₁) :
    ((ensureClient uuid (r.bind (obj.get "customer")) (r.bind (obj.get "email"))).bind f).Succeeds
      StoreOp.exec now db := by
  unfold ensureClient
  rw [Prog.bind_eq, Prog.bind_assoc]
  simp only [locate, hcustomer, hsub, Bool.not_true, Bool.or_self, Bool.false_eq_true,
    if_false] at hloc
  cases href : r.bind (obj.get "customer") with
  | error e => rw [href] at hloc; cases hloc
  | ok externalRef =>
    rw [href] at hloc
    dsimp only at hloc
    have hget : (StoreOp.getClientByExternalRef (.ok externalRef)).exec now db =
        (.ok (db.getClientByExternalRef externalRef), db) := rfl
    refine Prog.succeeds_call hget ?_
    cases hfind : db.getClientByExternalRef externalRef with
    | some client =>
      rw [hfind] at hloc
      cases hloc
      exact hf
    | none =>
      rw [hfind] at hloc
      dsimp only at hloc ⊢
      cases hemail : r.bind (obj.get "email") with
      | error e => rw [hemail] at hloc; cases hloc
      | ok email =>
        rw [hemail] at hloc
        dsimp only at hloc
        cases hcreate : db.createClient uuid externalRef email with
        | error e => rw [hcreate] at hloc; cases hloc
        | ok created =>
          rw [hcreate] at hloc
          cases hloc
          rw [Prog.bind_eq, Prog.bind_assoc]
          have hexec : (StoreOp.createClient uuid (.ok externalRef) (.ok email)).exec now db =
              (.ok created.1, created.2) := by
            show StoreOp.statement db (db.createClient uuid externalRef email) = _
            rw [hcreate]
            rfl
          exact Prog.succeeds_call hexec hf

theorem exec_getClientByExternalRef {b : Bound} {externalRef : Option String} {client : Client}
    (hb : b = .ok externalRef) (h : db.getClientByExternalRef externalRef = some client) :
    (StoreOp.getClientByExternalRef b).exec now db = (.ok (some client), db) := by
  subst hb
  rw [← h]
  rfl

theorem paymentFailed_returns {clientId : String} {db₁ : Db}
    (hloc : locate r uuid .paymentFailed obj db = .ok (some (clientId, db₁))) :
    (paymentFailed r obj).Succeeds StoreOp.exec now db := by
  obtain ⟨hcustomer, rfl, externalRef, client, href, hfind, rfl⟩ := locate_found (.inl rfl) hloc
  simp only [paymentFailed, hcustomer, Bool.not_true, Bool.false_eq_true, if_false]
  exact Prog.succeeds_call (exec_getClientByExternalRef href hfind)
    (Prog.succeeds_call rfl (Prog.succeeds_ret _))

theorem subscriptionDeleted_returns {clientId : String} {db₁ : Db} {ws : List Write}
    {action : LifecycleAction}
    (hloc : locate r uuid .deleted obj db = .ok (some (clientId, db₁)))
    (hws : writes r .deleted obj db₁ clientId = .ok (ws, action)) :
    (subscriptionDeleted r obj).Succeeds StoreOp.exec now db := by
  obtain ⟨hcustomer, rfl, externalRef, client, href, hfind, rfl⟩ := locate_found (.inr rfl) hloc
  simp only [subscriptionDeleted, hcustomer, Bool.not_true, Bool.false_eq_true, if_false]
  refine Prog.succeeds_call (exec_getClientByExternalRef href hfind) ?_
  dsimp only
  split
  · rename_i hsub
    simp only [writes, hsub, if_true, bind, Except.bind] at hws
    cases hid : r.bind (obj.get "id") with
    | error e => rw [hid] at hws; cases hws
    | ok subId =>
      rw [hid] at hws
      dsimp only at hws
      cases hw : subscriptionWrite r obj db₁ client.id
          ((db₁.getSubscriptionByProvider provider subId).bind (·.planId))
          (.ok (some "canceled")) with
      | error e => rw [hw] at hws; cases hws
      | ok w =>
        have hget : (StoreOp.getSubscriptionByProvider provider (.ok subId)).exec now db₁ =
            (.ok (db₁.getSubscriptionByProvider provider subId), db₁) := rfl
        refine Prog.succeeds_call hget ?_
        rw [← hid]
        exact Prog.succeeds_call (exec_upsertSubscription_write hw) (cancelClient_returns _ _)
  · exact cancelClient_returns _ _

theorem exec_getClientByExternalRef_none {b : Bound} {externalRef : Option String}
    (hb : b = .ok externalRef) (h : db.getClientByExternalRef externalRef = none) :
    (StoreOp.getClientByExternalRef b).exec now db = (.ok none, db) := by
  subst hb
  rw [← h]
  rfl

theorem handleEvent_ignored {event : Items F} {kind : EventKind}
    (htarget : eventTarget r event = .ok (kind, obj))
      (hloc : locate r uuid kind obj db = .ok none) :
    (handleEvent r uuid event).Succeeds StoreOp.exec now db := by
  refine Prog.succeeds_ofExcept htarget ?_
  obtain rfl | ⟨rfl, hif⟩ | ⟨hkind, hnone⟩ := locate_none hloc
  · exact Prog.succeeds_ret _
  · dsimp only
    unfold subscriptionChanged
    dsimp only
    rw [if_pos hif]
    exact Prog.succeeds_ret _
  · obtain rfl | rfl := hkind
    · dsimp only
      unfold paymentFailed
      dsimp only
      split
      · exact Prog.succeeds_ret _
      · rename_i htrue
        obtain hfalse | ⟨externalRef, href, hget⟩ := hnone
        · exact absurd (by simpa using hfalse) htrue
        · exact Prog.succeeds_call (exec_getClientByExternalRef_none href hget)
            (Prog.succeeds_ret _)
    · dsimp only
      unfold subscriptionDeleted
      dsimp only
      split
      · exact Prog.succeeds_ret _
      · rename_i htrue
        obtain hfalse | ⟨externalRef, href, hget⟩ := hnone
        · exact absurd (by simpa using hfalse) htrue
        · exact Prog.succeeds_call (exec_getClientByExternalRef_none href hget)
            (Prog.succeeds_ret _)

/-- An event that names a client and whose writes meet their constraints is handled. -/
theorem handleEvent_returns {event : Items F} {kind : EventKind} {clientId : String} {db₁ : Db}
    {ws : List Write} {action : LifecycleAction} (htarget : eventTarget r event = .ok (kind, obj))
    (hloc : locate r uuid kind obj db = .ok (some (clientId, db₁)))
    (hws : writes r kind obj db₁ clientId = .ok (ws, action)) :
    (handleEvent r uuid event).Succeeds StoreOp.exec now db := by
  refine Prog.succeeds_ofExcept htarget ?_
  cases kind with
  | subscription =>
    unfold subscriptionChanged
    dsimp only
    split
    · rename_i hif
      simp only [locate, hif, if_true] at hloc
      cases hloc
    · rename_i hif
      simp only [Bool.or_eq_true, Bool.not_eq_true', not_or, Bool.not_eq_false] at hif
      exact succeeds_ensureClient hif.1 hif.2 hloc (setSubscription_returns hws)
  | paymentFailed => exact paymentFailed_returns hloc
  | deleted => exact subscriptionDeleted_returns hloc hws
  | other => cases hloc

end

end InferenceEngine
