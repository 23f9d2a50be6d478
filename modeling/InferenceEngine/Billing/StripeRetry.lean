import Mathlib.Logic.Equiv.Basic
import InferenceEngine.Billing.StripeRuns

/-!
# Billing.StripeRetry

`handle_event` may be started over. Its writes go to different tables and may be repeated, so a run
that takes up where another one stopped comes to the same store as a run in one go, but for the
times and for the id of a client that the event created (`Same`).
-/

namespace InferenceEngine

open Effect Json

/-! ## Up to times -/

/-- The store without its times: a key is revoked, or it is not. -/
def Db.forget (db : Db) : Db :=
  { db with
    subscriptions := db.subscriptions.map fun s => { s with updatedAt := 0 }
    keys := db.keys.map fun k => { k with revokedAt := k.revokedAt.map fun _ => 0 } }

namespace Write

inductive Target where
  | subscriptions
  | clients
  | keys
  deriving DecidableEq

def target : Write → Target
  | subscription _ => .subscriptions
  | status .. => .clients
  | revoke _ => .keys

variable {w v : Write} {db : Db}

theorem forget_apply (w : Write) (now : ℚ) (db : Db) :
    (w.apply now db).forget = w.apply 0 db.forget := by
  cases w with
  | subscription sub =>
    have hsubs : (db.putSubscription sub now).forget.subscriptions =
        (db.forget.putSubscription sub 0).subscriptions :=
      Table.map_upsert_comm (fun _ => rfl) (fun _ => rfl) rfl
    exact congrArg (fun subs => { db.forget with subscriptions := subs }) hsubs
  | status clientId st => rfl
  | revoke clientId =>
    have hkeys : (db.revokeClientKeys clientId now).forget.keys =
        (db.forget.revokeClientKeys clientId 0).keys :=
      Table.map_update_comm (fun k => by simp) (fun _ => rfl)
    exact congrArg (fun keys => { db.forget with keys := keys }) hkeys

theorem apply_comm (h : w.target ≠ v.target) (now now' : ℚ) (db : Db) :
    w.apply now (v.apply now' db) = v.apply now' (w.apply now db) := by
  cases w <;> cases v <;> first | exact absurd rfl h | rfl

theorem apply_apply (w : Write) (now : ℚ) (db : Db) :
    w.apply now (w.apply now db) = w.apply now db := by
  cases w with
  | subscription sub =>
    have hsubs : ((db.putSubscription sub now).putSubscription sub now).subscriptions =
        (db.putSubscription sub now).subscriptions :=
      Table.upsert_upsert (by simp [Db.sameProviderSub]) (fun _ h => h) (fun _ => rfl) rfl
    exact congrArg (fun subs => { db with subscriptions := subs }) hsubs
  | status clientId st =>
    have hclients : ((db.setClientStatus clientId st).setClientStatus clientId st).clients =
        (db.setClientStatus clientId st).clients := Table.update_update fun _ => rfl
    exact congrArg (fun clients => { db with clients := clients }) hclients
  | revoke clientId =>
    have hkeys : ((db.revokeClientKeys clientId now).revokeClientKeys clientId now).keys =
        (db.revokeClientKeys clientId now).keys := Table.update_update fun _ => rfl
    exact congrArg (fun keys => { db with keys := keys }) hkeys

end Write

section

variable {F : Type} {r : Render F} {obj : Items F} {db : Db} {kind : EventKind} {clientId : String}
  {L : List Write} {action : LifecycleAction} {w : Write}

theorem writes_targets (h : writes r kind obj db clientId = .ok (L, action)) :
    (L.map Write.target).Nodup := by
  cases kind with
  | subscription =>
    obtain ⟨-, active, -, -, -, -, -, rfl, -⟩ := writes_subscription_iff.mp h
    cases active <;> simp [Write.target]
  | paymentFailed =>
    cases h
    simp
  | deleted =>
    obtain ⟨-, ⟨-, rfl⟩ | ⟨-, -, -, -, -, -, rfl⟩⟩ := writes_deleted_iff.mp h
    · simp [Write.target]
    · simp [Write.target]
  | other =>
    cases h
    simp

theorem writes_subscription_mem {sub : Subscription}
    (h : writes r kind obj db clientId = .ok (L, action)) (hmem : .subscription sub ∈ L) :
    r.bind (obj.get "id") = .ok (some sub.providerSubId) ∧ sub.provider = provider ∧
      sub.clientId = clientId ∧ db.checkSubscription sub = .ok () ∧
      (kind = .deleted → sub.planId =
        (db.getSubscriptionByProvider provider (some sub.providerSubId)).bind (·.planId)) := by
  cases kind with
  | subscription =>
    obtain ⟨planId, active, sub', -, -, hsub, hcheck, rfl, -⟩ := writes_subscription_iff.mp h
    obtain rfl : sub = sub' := by
      cases active <;> simpa using hmem
    obtain ⟨hid, -, hclient, -, hprov⟩ := subscriptionOf_ok hsub
    exact ⟨hid, hprov, hclient, hcheck, fun hk => by cases hk⟩
  | paymentFailed =>
    cases h
    simp at hmem
  | deleted =>
    obtain ⟨-, ⟨-, rfl⟩ | ⟨-, subId, sub', hid', hsub, hcheck, rfl⟩⟩ := writes_deleted_iff.mp h
    · simp at hmem
    · obtain rfl : sub = sub' := by simpa using hmem
      obtain ⟨hid, -, hclient, hplan, hprov⟩ := subscriptionOf_ok hsub
      rw [hid', Except.ok.injEq] at hid
      exact ⟨by rw [hid', hid], hprov, hclient, hcheck, fun _ => by rw [hplan, hid]⟩
  | other =>
    cases h
    cases hmem

theorem writes_congr {db' : Db} (h : writes r kind obj db clientId = .ok (L, action))
    (hplans : db'.plans = db.plans)
    (hexisting : kind = .deleted → ∀ subId, r.bind (obj.get "id") = .ok subId →
      (db'.getSubscriptionByProvider provider subId).bind (·.planId) =
        (db.getSubscriptionByProvider provider subId).bind (·.planId))
    (hcheck : ∀ sub, .subscription sub ∈ L → db'.checkSubscription sub = .ok ()) :
    writes r kind obj db' clientId = .ok (L, action) := by
  cases kind with
  | subscription =>
    obtain ⟨planId, active, sub, hplan, hactive, hsub, -, rfl, rfl⟩ := writes_subscription_iff.mp h
    refine writes_subscription_iff.mpr
      ⟨planId, active, sub, ?_, hactive, hsub, hcheck sub (List.mem_cons_self ..), rfl, rfl⟩
    rw [← hplan]
    unfold chosenPlan Db.getPlan
    rw [hplans]
  | paymentFailed => exact h
  | deleted =>
    obtain ⟨rfl, ⟨hf, rfl⟩ | ⟨ht, subId, sub, hid, hsub, -, rfl⟩⟩ := writes_deleted_iff.mp h
    · exact writes_deleted_iff.mpr ⟨rfl, .inl ⟨hf, rfl⟩⟩
    · refine writes_deleted_iff.mpr ⟨rfl, .inr ⟨ht, subId, sub, hid, ?_,
        hcheck sub (List.mem_cons_self ..), rfl⟩⟩
      rw [hexisting rfl subId hid]
      exact hsub
  | other => exact h

theorem checkSubscription_put {sub : Subscription} (h : db.checkSubscription sub = .ok ())
    (now : ℚ) : (db.putSubscription sub now).checkSubscription sub = .ok () := by
  have hany : (db.putSubscription sub now).subscriptions.any (Db.sameProviderSub sub) = true :=
    Table.any_upsert (by simp [Db.sameProviderSub]) fun _ hp => hp
  unfold Db.checkSubscription at h ⊢
  rw [hany]
  split at h
  · cases h
  · split at h
    · cases h
    · rename_i hfk
      simp only [Bool.or_eq_true, not_or] at hfk
      simpa [Db.putSubscription] using hfk.2

/-- The subscription that a put leaves has the plan it was put with. -/
theorem getSubscriptionByProvider_put (sub : Subscription) (now : ℚ) :
    ((db.putSubscription sub now).getSubscriptionByProvider sub.provider
      (some sub.providerSubId)).bind (·.planId) = sub.planId := by
  have hp : (fun s : SubscriptionRow => (decide (s.provider = sub.provider) &&
      decide (some sub.providerSubId = some s.providerSubId))) = Db.sameProviderSub sub := by
    funext s
    simp [Db.sameProviderSub, eq_comm]
  unfold Db.getSubscriptionByProvider
  rw [hp]
  have hfound : (db.putSubscription sub now).subscriptions.find? (Db.sameProviderSub sub) =
      some { sub with updatedAt := now } ∨ ∃ r₀ ∈ db.subscriptions,
        (db.putSubscription sub now).subscriptions.find? (Db.sameProviderSub sub) =
          some (Db.renew sub now r₀) :=
    Table.find?_upsert (by simp [Db.sameProviderSub]) fun _ hp => hp
  obtain hfind | ⟨r₀, -, hfind⟩ := hfound
  · rw [hfind]
    rfl
  · rw [hfind]
    rfl

/-- A write of an event leaves the same writes to be made. -/
theorem writes_apply (h : writes r kind obj db clientId = .ok (L, action)) (hw : w ∈ L) (now : ℚ) :
    writes r kind obj (w.apply now db) clientId = .ok (L, action) := by
  cases w with
  | subscription sub =>
    obtain ⟨hid, hprov, -, hcheck, hplan⟩ := writes_subscription_mem h hw
    refine writes_congr h rfl (fun hk subId hsub => ?_) fun sub' hsub' => ?_
    · rw [hid, Except.ok.injEq] at hsub
      subst hsub
      rw [← hplan hk, ← hprov]
      exact getSubscriptionByProvider_put sub now
    · cases List.inj_on_of_nodup_map (writes_targets h) hsub' hw rfl
      exact checkSubscription_put hcheck now
  | status id st =>
    refine writes_congr h rfl (fun _ _ _ => rfl) fun sub hsub => ?_
    rw [← (writes_subscription_mem h hsub).2.2.2.1]
    have hany : (Table.update (fun c : Client => c.id = id) (fun c => { c with status := st })
        db.clients).any (·.id = sub.clientId) = db.clients.any (·.id = sub.clientId) :=
      Table.any_update fun _ _ => rfl
    simp only [Write.apply, Db.setClientStatus, Db.checkSubscription, hany]
  | revoke id =>
    refine writes_congr h rfl (fun _ _ _ => rfl) fun sub hsub => ?_
    exact (writes_subscription_mem h hsub).2.2.2.1

theorem writes_made {ws : List (Write × ℚ)} (h : writes r kind obj db clientId = .ok (L, action))
    (hws : ∀ w ∈ ws, w.1 ∈ L) : writes r kind obj (made ws db) clientId = .ok (L, action) := by
  induction ws generalizing db with
  | nil => exact h
  | cons w ws ih =>
    exact ih (writes_apply h (hws w (List.mem_cons_self ..)) w.2)
      fun v hv => hws v (List.mem_cons_of_mem w hv)

/-- The writes, times apart. -/
def settled (L : List Write) (db : Db) : Db := applyAll (L.map fun w => w.apply 0) db

theorem forget_made (ws : List (Write × ℚ)) (db : Db) :
    (made ws db).forget = settled (ws.map Prod.fst) db.forget := by
  induction ws generalizing db with
  | nil => rfl
  | cons w ws ih =>
    show (made ws (w.1.apply w.2 db)).forget = settled (ws.map Prod.fst) (w.1.apply 0 db.forget)
    rw [ih, Write.forget_apply]

theorem settled_idem : ∀ f ∈ L.map (fun w : Write => w.apply 0), ∀ d, f (f d) = f d := by
  intro f hf d
  obtain ⟨w, -, rfl⟩ := List.mem_map.mp hf
  exact w.apply_apply 0 d

theorem settled_comm (h : writes r kind obj db clientId = .ok (L, action)) :
    (L.map fun w : Write => w.apply 0).Pairwise fun f g => ∀ d, f (g d) = g (f d) := by
  rw [List.pairwise_map]
  exact (List.pairwise_map.mp (writes_targets h)).imp fun hne d => Write.apply_comm hne 0 0 d

theorem settled_redo {done rest : List Write}
    (h : writes r kind obj db clientId = .ok (done ++ rest, action)) (d : Db) :
    settled (done ++ rest) (settled done d) = settled (done ++ rest) d := by
  have hcomm := settled_comm h
  unfold settled
  rw [List.map_append] at hcomm ⊢
  exact applyAll_redo settled_idem (List.pairwise_append.mp hcomm).1 d

/-- Once all of them are made, making some of them again changes nothing. -/
theorem settled_absorb (h : writes r kind obj db clientId = .ok (L, action)) {L' : List Write}
    (hL : ∀ w ∈ L', w ∈ L) (d : Db) : settled L' (settled L d) = settled L d := by
  induction L' with
  | nil => rfl
  | cons w L' ih =>
    have hw : w.apply 0 (settled L d) = settled L d :=
      applyAll_absorb settled_idem (settled_comm h)
        (List.mem_map_of_mem (hL w (List.mem_cons_self ..))) d
    show settled L' (w.apply 0 (settled L d)) = settled L d
    rw [hw]
    exact ih fun v hv => hL v (List.mem_cons_of_mem w hv)

theorem Located.apply {client : Client} (h : Located r kind obj db client) (w : Write) (now : ℚ) :
    ∃ client', Located r kind obj (w.apply now db) client' ∧ client'.id = client.id := by
  obtain ⟨hkind, hcustomer, hsub, externalRef, href, hfind⟩ := h
  cases w with
  | subscription sub => exact ⟨client, ⟨hkind, hcustomer, hsub, externalRef, href, hfind⟩, rfl⟩
  | revoke id => exact ⟨client, ⟨hkind, hcustomer, hsub, externalRef, href, hfind⟩, rfl⟩
  | status id st =>
    have hget : (db.setClientStatus id st).getClientByExternalRef externalRef =
        (db.getClientByExternalRef externalRef).map fun c =>
          if decide (c.id = id) then { c with status := st } else c :=
      Table.find?_update fun _ _ => rfl
    rw [hfind] at hget
    refine ⟨_, ⟨hkind, hcustomer, hsub, externalRef, href, hget⟩, ?_⟩
    dsimp only
    split
    · rfl
    · rfl

theorem Located.made {client : Client} (h : Located r kind obj db client) (ws : List (Write × ℚ)) :
    ∃ client', Located r kind obj (made ws db) client' ∧ client'.id = client.id := by
  induction ws generalizing db client with
  | nil => exact ⟨client, h, rfl⟩
  | cons w ws ih =>
    obtain ⟨client₁, h₁, hid₁⟩ := h.apply w.1 w.2
    obtain ⟨client₂, h₂, hid₂⟩ := ih h₁
    exact ⟨client₂, h₂, hid₂.trans hid₁⟩

theorem getClientByExternalRef_created {ref : String} {c : Client} (href : c.externalRef = some ref)
    (hnone : db.getClientByExternalRef (some ref) = none) :
    Db.getClientByExternalRef { db with clients := db.clients ++ [c] } (some ref) = some c := by
  unfold Db.getClientByExternalRef at hnone ⊢
  rw [List.find?_append, hnone]
  simp [href]

/-- The client that a run has located is there for the next one. -/
theorem locate_located {uuid : String} {db₁ : Db} (hobj : ∀ p ∈ obj, p.2.Standard)
    (h : locate r uuid kind obj db = .ok (some (clientId, db₁))) :
    ∃ client, Located r kind obj db₁ client ∧ client.id = clientId := by
  obtain ⟨client, hl, hid, rfl⟩ | ⟨rfl, hcustomer, hsub, rfl, externalRef, email, client, href, -,
    hnone, hcreate⟩ := locate_cases h
  · exact ⟨client, hl, hid⟩
  · obtain ⟨-, -, rfl, rfl⟩ := Db.createClient_ok hcreate
    cases externalRef with
    | none => exact absurd href (bind_ne_null (Items.get_standard hobj "customer" .null) hcustomer)
    | some ref =>
      exact ⟨_, ⟨by simp, hcustomer, fun _ => hsub, some ref, href,
        getClientByExternalRef_created rfl hnone⟩, rfl⟩

end

/-! ## Up to the ids of clients -/

/-- The store with other ids for its clients. -/
def Db.rename (σ : Equiv.Perm String) (db : Db) : Db :=
  { db with
    clients := db.clients.map fun c => { c with id := σ c.id }
    subscriptions := db.subscriptions.map fun s => { s with clientId := σ s.clientId }
    keys := db.keys.map fun k => { k with clientId := k.clientId.map σ } }

def Write.rename (σ : Equiv.Perm String) : Write → Write
  | subscription sub => subscription { sub with clientId := σ sub.clientId }
  | status clientId st => status (σ clientId) st
  | revoke clientId => revoke (σ clientId)

section

variable {F : Type} {r : Render F} {obj : Items F} {db : Db} {kind : EventKind} {clientId : String}
  {L : List Write} {action : LifecycleAction} {σ : Equiv.Perm String}

theorem rename_apply (w : Write) (now : ℚ) (db : Db) :
    (w.apply now db).rename σ = (w.rename σ).apply now (db.rename σ) := by
  cases w with
  | subscription sub =>
    have hsubs : ((db.putSubscription sub now).rename σ).subscriptions =
        ((db.rename σ).putSubscription { sub with clientId := σ sub.clientId } now).subscriptions :=
      Table.map_upsert_comm (fun _ => rfl) (fun _ => rfl) rfl
    exact congrArg (fun subs => { db.rename σ with subscriptions := subs }) hsubs
  | status id st =>
    have hclients : ((db.setClientStatus id st).rename σ).clients =
        ((db.rename σ).setClientStatus (σ id) st).clients :=
      Table.map_update_comm (fun c => by simp) (fun _ => rfl)
    exact congrArg (fun clients => { db.rename σ with clients := clients }) hclients
  | revoke id =>
    have hkeys : ((db.revokeClientKeys id now).rename σ).keys =
        ((db.rename σ).revokeClientKeys (σ id) now).keys :=
      Table.map_update_comm (fun k => by cases k.clientId <;> simp) (fun _ => rfl)
    exact congrArg (fun keys => { db.rename σ with keys := keys }) hkeys

theorem rename_settled (L : List Write) (db : Db) :
    (settled L db).rename σ = settled (L.map (Write.rename σ)) (db.rename σ) := by
  induction L generalizing db with
  | nil => rfl
  | cons w L ih =>
    show (settled L (w.apply 0 db)).rename σ =
      settled (L.map (Write.rename σ)) ((w.rename σ).apply 0 (db.rename σ))
    rw [ih, rename_apply]

/-- A store is not changed by names for clients that it does not have. -/
theorem rename_of_fixed (hdb : db.Valid) (hσ : ∀ id ∈ db.clients.map (·.id), σ id = id) :
    db.rename σ = db := by
  have hclients : db.clients.map (fun c => { c with id := σ c.id }) = db.clients := by
    refine (List.map_congr_left fun c hc => ?_).trans (List.map_id _)
    simp [hσ c.id (List.mem_map_of_mem hc)]
  have hsubs : db.subscriptions.map (fun s => { s with clientId := σ s.clientId }) =
      db.subscriptions := by
    refine (List.map_congr_left fun s hs => ?_).trans (List.map_id _)
    simp [hσ s.clientId (hdb.subClients _ (List.mem_map_of_mem hs))]
  have hkeys : db.keys.map (fun k => { k with clientId := k.clientId.map σ }) = db.keys := by
    refine (List.map_congr_left fun k hk => ?_).trans (List.map_id _)
    have hk' : k.clientId.map σ = k.clientId := by
      cases hc : k.clientId with
      | none => rfl
      | some id =>
        simp [hσ id (hdb.keyClients _ (List.mem_map_of_mem hk) id hc)]
    simp [hk']
  unfold Db.rename
  rw [hclients, hsubs, hkeys]

theorem subscriptionOf_client {planId : Option String} {status : Bound} {sub : Subscription}
    (h : subscriptionOf r obj clientId planId status = .ok sub) (clientId' : String) :
    subscriptionOf r obj clientId' planId status = .ok { sub with clientId := clientId' } := by
  obtain ⟨subId, hid, h⟩ := except_bind_ok.mp h
  obtain ⟨st, hst, h⟩ := except_bind_ok.mp h
  obtain ⟨currentPeriodEnd, hend, h⟩ := except_bind_ok.mp h
  refine except_bind_ok.mpr ⟨subId, hid, except_bind_ok.mpr ⟨st, hst, except_bind_ok.mpr
    ⟨currentPeriodEnd, hend, ?_⟩⟩⟩
  split at h
  · cases h
    rfl
  · cases h

theorem checkSubscription_rename (sub : Subscription) :
    (db.rename σ).checkSubscription { sub with clientId := σ sub.clientId } =
      db.checkSubscription sub := by
  have hsame : (db.rename σ).subscriptions.any
      (Db.sameProviderSub { sub with clientId := σ sub.clientId }) =
      db.subscriptions.any (Db.sameProviderSub sub) := List.any_map
  have hid : (db.rename σ).subscriptions.any (fun s => s.id = sub.id) =
      db.subscriptions.any (fun s => s.id = sub.id) := List.any_map
  have hclient : (db.rename σ).clients.any (fun c => c.id = σ sub.clientId) =
      db.clients.any (fun c => c.id = sub.clientId) := by
    simp [Db.rename, List.any_map, Function.comp_def]
  unfold Db.checkSubscription
  rw [hsame, hid, hclient]
  rfl

theorem getSubscriptionByProvider_rename (subId : Option String) :
    ((db.rename σ).getSubscriptionByProvider provider subId).bind (·.planId) =
      (db.getSubscriptionByProvider provider subId).bind (·.planId) := by
  unfold Db.getSubscriptionByProvider Db.rename
  rw [List.find?_map, Option.map_map, Option.bind_map, Option.bind_map]
  rfl

theorem writes_rename (h : writes r kind obj db clientId = .ok (L, action)) :
    writes r kind obj (db.rename σ) (σ clientId) = .ok (L.map (Write.rename σ), action) := by
  cases kind with
  | subscription =>
    obtain ⟨planId, active, sub, hplan, hactive, hsub, hcheck, rfl, rfl⟩ :=
      writes_subscription_iff.mp h
    have hclient := (subscriptionOf_ok hsub).2.2.1
    refine writes_subscription_iff.mpr ⟨planId, active, { sub with clientId := σ sub.clientId },
      hplan, hactive, ?_, ?_, ?_, rfl⟩
    · rw [hclient]
      exact subscriptionOf_client hsub _
    · rw [checkSubscription_rename]
      exact hcheck
    · cases active <;> rfl
  | paymentFailed =>
    cases h
    rfl
  | deleted =>
    obtain ⟨rfl, ⟨hf, rfl⟩ | ⟨ht, subId, sub, hid, hsub, hcheck, rfl⟩⟩ := writes_deleted_iff.mp h
    · exact writes_deleted_iff.mpr ⟨rfl, .inl ⟨hf, rfl⟩⟩
    · have hclient := (subscriptionOf_ok hsub).2.2.1
      refine writes_deleted_iff.mpr ⟨rfl, .inr ⟨ht, subId, { sub with clientId := σ sub.clientId },
        hid, ?_, ?_, rfl⟩⟩
      · rw [hclient, getSubscriptionByProvider_rename]
        exact subscriptionOf_client hsub _
      · rw [checkSubscription_rename]
        exact hcheck
  | other =>
    cases h
    rfl

/-- Two runs from the same store locate the same client, but for the id of a new one. -/
theorem locate_unique {uuid uuid' clientId' : String} {db₁ db₁' : Db} (hdb : db.Valid)
    (h : locate r uuid kind obj db = .ok (some (clientId, db₁)))
    (h' : locate r uuid' kind obj db = .ok (some (clientId', db₁'))) :
    ∃ σ : Equiv.Perm String, (∀ id ∈ db.clients.map (·.id), σ id = id) ∧ σ clientId = clientId' ∧
      db₁.rename σ = db₁' := by
  obtain ⟨client, hl, rfl, rfl⟩ | ⟨rfl, hcustomer, hsub, rfl, externalRef, email, client, href,
      hemail, hnone, hcreate⟩ := locate_cases h
  · -- it was there: the second run has found the same one
    rw [hl.locate] at h'
    cases h'
    exact ⟨Equiv.refl _, fun _ _ => rfl, rfl, rename_of_fixed hdb fun _ _ => rfl⟩
  · obtain ⟨hnew, -, rfl, rfl⟩ := Db.createClient_ok hcreate
    obtain ⟨client', hl, -, -⟩ | ⟨-, -, -, rfl, externalRef', email', client', href', hemail', -,
      hcreate'⟩ := locate_cases h'
    · obtain ⟨externalRef', href', hfind⟩ := hl.found
      rw [href, Except.ok.injEq] at href'
      rw [← href', hnone] at hfind
      cases hfind
    · rw [href, Except.ok.injEq] at href'
      rw [hemail, Except.ok.injEq] at hemail'
      subst href' hemail'
      obtain ⟨hnew', -, rfl, rfl⟩ := Db.createClient_ok hcreate'
      have hfix : ∀ id ∈ db.clients.map (·.id), Equiv.swap clientId clientId' id = id := by
        intro id hid
        refine Equiv.swap_apply_of_ne_of_ne ?_ ?_
        · rintro rfl
          exact hnew hid
        · rintro rfl
          exact hnew' hid
      refine ⟨Equiv.swap clientId clientId', hfix, Equiv.swap_apply_left _ _, ?_⟩
      have hsame := rename_of_fixed hdb hfix
      have hclients : (db.rename (Equiv.swap clientId clientId')).clients = db.clients := by
        rw [hsame]
      have hsubs : (db.rename (Equiv.swap clientId clientId')).subscriptions =
          db.subscriptions := by
        rw [hsame]
      have hkeys : (db.rename (Equiv.swap clientId clientId')).keys = db.keys := by rw [hsame]
      unfold Db.rename at hclients hsubs hkeys ⊢
      dsimp only at hclients hsubs hkeys ⊢
      rw [List.map_append, hclients, hsubs, hkeys, List.map_singleton, Equiv.swap_apply_left]

end

/-! ## Runs -/

section

variable {F : Type} {r : Render F} {event : StripeEvent F} {db db' : Db}

/-- The stores are the same, but for times and for the ids of clients that `db` does not have. -/
def Same (db x y : Db) : Prop :=
  ∃ σ : Equiv.Perm String, (∀ c ∈ db.clients, σ c.id = c.id) ∧ x.forget.rename σ = y.forget

theorem forget_rename (σ : Equiv.Perm String) (db : Db) :
    (db.rename σ).forget = db.forget.rename σ := by
  unfold Db.rename Db.forget
  simp only [List.map_map]
  rfl

theorem handles_unique (hdb : db.Valid) {uuid uuid' : String} {fs fs' : List (Fate ℚ Exc)}
    {res res' : LifecycleResult} {x y : Db} (hx : Handles r event uuid fs db res x)
    (hy : Handles r event uuid' fs' db res' y) : Same db x y ∧ res.action = res'.action := by
  obtain ⟨kind, obj, htarget, hx⟩ := handles_cases hx
  obtain ⟨kind', obj', htarget', hy⟩ := handles_cases hy
  rw [htarget] at htarget'
  cases htarget'
  obtain ⟨hloc, rfl, rfl⟩ | ⟨clientId, db₁, ws, action, hloc, hws, rfl, rfl⟩ := hx
  · obtain ⟨-, rfl, rfl⟩ | ⟨_, _, _, _, hloc', -⟩ := hy
    · refine ⟨⟨Equiv.refl _, fun _ _ => rfl, ?_⟩, rfl⟩
      simp [Db.rename]
    · rw [locate_none_uuid hloc] at hloc'
      cases hloc'
  · obtain ⟨hloc', -⟩ | ⟨clientId', db₁', ws', action', hloc', hws', rfl, rfl⟩ := hy
    · rw [locate_none_uuid hloc'] at hloc
      cases hloc
    · obtain ⟨σ, hσ, rfl, rfl⟩ := locate_unique hdb hloc hloc'
      rw [writes_rename hws, Except.ok.injEq, Prod.mk.injEq] at hws'
      refine ⟨⟨σ, fun c hc => hσ c.id (List.mem_map_of_mem hc), ?_⟩, hws'.2⟩
      rw [forget_made, forget_made, rename_settled, hws'.1, forget_rename]

theorem handles_of_succeeds {uuid : String} {now : ℚ}
    (h : (handleEvent r uuid event.items).Succeeds StoreOp.exec now db) :
    ∃ n res db', Handles r event uuid (List.replicate n (.ok now)) db res db' := by
  obtain ⟨n, hn⟩ := h
  obtain ⟨res, hres⟩ := hn n (Nat.le_refl n)
  exact ⟨n, res, _, hres, rfl⟩

/-- A run that returns after one that stopped: there is a run in one go that comes to the same. -/
theorem handles_after {uuid uuid₂ : String} {fs fs₂ : List (Fate ℚ Exc)} {res : LifecycleResult}
    {db₂ : Db} (h : Handles r event uuid₂ fs₂ (runEvent r event uuid fs db).state res db₂) :
    ∃ uuid₁ fs₁ res₁ db₁, Handles r event uuid₁ fs₁ db res₁ db₁ ∧ db₁.forget = db₂.forget ∧
      res₁ = res := by
  obtain hstate | ⟨kind, obj, clientId, db₁, ws, htarget, hloc, hstate, hws⟩ :=
    runEvent_stage r event uuid fs db
  · rw [hstate] at h
    exact ⟨uuid₂, fs₂, res, db₂, h, rfl, rfl⟩
  · rw [hstate] at h
    obtain ⟨kind', obj', htarget', hcases⟩ := handles_cases h
    rw [htarget] at htarget'
    cases htarget'
    obtain ⟨client, hlocated, rfl⟩ := locate_located (eventTarget_standard htarget) hloc
    obtain ⟨client', hlocated', hid⟩ := hlocated.made ws
    have hloc₂ := hlocated'.locate uuid₂
    rw [hid] at hloc₂
    obtain ⟨hnone, -⟩ | ⟨clientId₂, m, ws₂, action, hloc', hws₂, rfl, rfl⟩ := hcases
    · rw [hloc₂] at hnone
      cases hnone
    · rw [hloc₂] at hloc'
      cases hloc'
      -- the first run was to make the same writes
      have hall : ∃ rest, ws₂.map Prod.fst = ws.map Prod.fst ++ rest ∧
          writes r kind obj db₁ client.id = .ok (ws₂.map Prod.fst, action) := by
        obtain rfl | ⟨rest, action', hfirst⟩ := hws
        · exact ⟨ws₂.map Prod.fst, rfl, hws₂⟩
        · have hagain := writes_made hfirst fun w hw =>
            List.mem_append_left rest (List.mem_map_of_mem (f := Prod.fst) hw)
          rw [hws₂, Except.ok.injEq, Prod.mk.injEq] at hagain
          exact ⟨rest, hagain.1, by rw [hfirst, hagain.1, hagain.2]⟩
      obtain ⟨rest, hrest, hwrites⟩ := hall
      have hsucceeds : (handleEvent r uuid event.items).Succeeds StoreOp.exec (0 : ℚ) db :=
        handleEvent_returns htarget hloc hwrites
      obtain ⟨n, res₁, db', hdone⟩ := handles_of_succeeds hsucceeds
      refine ⟨uuid, _, res₁, db', hdone, ?_⟩
      obtain ⟨kind', obj', htarget', hcases⟩ := handles_cases hdone
      rw [htarget] at htarget'
      cases htarget'
      obtain ⟨hnone, -⟩ | ⟨clientId', m', ws', action', hloc', hws', rfl, rfl⟩ := hcases
      · rw [hloc] at hnone
        cases hnone
      · rw [hloc] at hloc'
        cases hloc'
        rw [hwrites, Except.ok.injEq, Prod.mk.injEq] at hws'
        refine ⟨?_, by rw [hws'.2]⟩
        rw [forget_made, forget_made, forget_made, ← hws'.1, hrest]
        rw [hrest] at hwrites
        exact (settled_redo hwrites _).symm

theorem locate_fresh {uuid uuid' clientId : String} {kind : EventKind} {obj : Items F} {db₁ : Db}
    (h : locate r uuid kind obj db = .ok (some (clientId, db₁)))
    (hnew : uuid' ∉ db.clients.map (·.id)) :
    ∃ clientId' db₁', locate r uuid' kind obj db = .ok (some (clientId', db₁')) := by
  obtain ⟨client, hl, -, -⟩ | ⟨rfl, hcustomer, hsub, -, externalRef, email, client, href, hemail,
    hnone, hcreate⟩ := locate_cases h
  · exact ⟨_, _, hl.locate uuid'⟩
  · obtain ⟨-, hrefs, -, -⟩ := Db.createClient_ok hcreate
    obtain ⟨⟨client', db₁'⟩, hcreate'⟩ := Db.createClient_of_new hnew hrefs email
    refine ⟨client'.id, db₁', ?_⟩
    simp [locate, hcustomer, hsub, href, hnone, hemail, hcreate', Except.map]

/-- If the event can be handled in one go, a run that stopped can be taken up, with any new id. -/
theorem handles_again (hdb : db.Valid) {uuid uuid₁ uuid₂ : String} {fs fs₁ : List (Fate ℚ Exc)}
    {res : LifecycleResult} {db' : Db} (h : Handles r event uuid₁ fs₁ db res db') (now : ℚ)
    (hnew : uuid₂ ∉ (runEvent r event uuid fs db).state.clients.map (·.id)) :
    ∃ n res₂ db₂, Handles r event uuid₂ (List.replicate n (.ok now))
      (runEvent r event uuid fs db).state res₂ db₂ := by
  obtain ⟨kind, obj, htarget, hcases⟩ := handles_cases h
  obtain hstate | ⟨kind', obj', clientId, db₁, ws, htarget', hloc, hstate, hws⟩ :=
    runEvent_stage r event uuid fs db
  · rw [hstate] at hnew ⊢
    obtain ⟨hnone, -⟩ | ⟨clientId, db₁, ws, action, hloc, hws, -, -⟩ := hcases
    · exact handles_of_succeeds (handleEvent_ignored htarget (locate_none_uuid hnone uuid₂))
    · obtain ⟨clientId', db₁', hloc'⟩ := locate_fresh hloc hnew
      obtain ⟨σ, -, rfl, rfl⟩ := locate_unique hdb hloc hloc'
      exact handles_of_succeeds (handleEvent_returns htarget hloc' (writes_rename hws))
  · rw [htarget] at htarget'
    cases htarget'
    obtain ⟨hnone, -⟩ | ⟨clientId', db₁', ws', action, hloc', hws', -, -⟩ := hcases
    · rw [locate_none_uuid hnone] at hloc
      cases hloc
    · obtain ⟨σ, -, rfl, rfl⟩ := locate_unique hdb hloc' hloc
      obtain ⟨client, hlocated, hid⟩ := locate_located (eventTarget_standard htarget) hloc
      obtain ⟨client', hlocated', hid'⟩ := hlocated.made ws
      have hwrites : writes r kind obj (db₁'.rename σ) (σ clientId') =
          .ok ((ws'.map Prod.fst).map (Write.rename σ), action) := writes_rename hws'
      have hagain : writes r kind obj (made ws (db₁'.rename σ)) client'.id =
          .ok ((ws'.map Prod.fst).map (Write.rename σ), action) := by
        rw [hid', hid]
        obtain rfl | ⟨rest, action', hfirst⟩ := hws
        · exact hwrites
        · rw [hwrites, Except.ok.injEq, Prod.mk.injEq] at hfirst
          refine writes_made hwrites fun w hw => ?_
          rw [hfirst.1]
          exact List.mem_append_left rest (List.mem_map_of_mem (f := Prod.fst) hw)
      rw [hstate]
      exact handles_of_succeeds (handleEvent_returns htarget (hlocated'.locate uuid₂) hagain)

/-- After a run that returned, no run changes anything but times. -/
theorem runEvent_after {uuid uuid₂ : String} {fs fs₂ : List (Fate ℚ Exc)} {res : LifecycleResult}
    {m : Db} (h : Handles r event uuid fs db res m) :
    (runEvent r event uuid₂ fs₂ m).state.forget = m.forget := by
  obtain ⟨kind, obj, htarget, hcases⟩ := handles_cases h
  obtain hstate | ⟨kind', obj', clientId₂, m₁, ws₂, htarget', hloc₂, hstate, hws₂⟩ :=
    runEvent_stage r event uuid₂ fs₂ m
  · rw [hstate]
  · rw [htarget] at htarget'
    cases htarget'
    obtain ⟨hnone, rfl, -⟩ | ⟨clientId, db₁, ws, action, hloc, hws, rfl, -⟩ := hcases
    · rw [locate_none_uuid hnone] at hloc₂
      cases hloc₂
    · obtain ⟨client, hlocated, hid⟩ := locate_located (eventTarget_standard htarget) hloc
      obtain ⟨client', hlocated', hid'⟩ := hlocated.made ws
      rw [hlocated'.locate uuid₂] at hloc₂
      cases hloc₂
      rw [hstate]
      obtain rfl | ⟨rest, action₂, hagain⟩ := hws₂
      · rfl
      · rw [hid', hid, writes_made hws fun w hw => List.mem_map_of_mem (f := Prod.fst) hw,
          Except.ok.injEq, Prod.mk.injEq] at hagain
        rw [forget_made, forget_made]
        refine settled_absorb hws (fun w hw => ?_) _
        rw [hagain.1]
        exact List.mem_append_left rest hw

/-- A run of `handle_event` that is cut off or fails anywhere, and then another one that returns:
the event can be handled in one go, and every run that does so leaves the same store, but for times
and the id of a new client. The second run does return, if its calls are carried out and its new id
is not taken. After a run that returned, another one, whatever becomes of it, changes nothing but
times. -/
theorem handleEvent_retry (r : Render F) (event : StripeEvent F) (db : Db) (hdb : db.Valid)
    (uuid : String) (fs : List (Fate ℚ Exc)) :
    (∀ uuid₂ fs₂ res₂ db₂, Handles r event uuid₂ fs₂ (runEvent r event uuid fs db).state res₂ db₂ →
      (∃ uuid₁ fs₁ res₁ db₁, Handles r event uuid₁ fs₁ db res₁ db₁) ∧
      ∀ uuid₁ fs₁ res₁ db₁, Handles r event uuid₁ fs₁ db res₁ db₁ →
        Same db db₂ db₁ ∧ res₂.action = res₁.action) ∧
    ((∃ uuid₁ fs₁ res₁ db₁, Handles r event uuid₁ fs₁ db res₁ db₁) →
      ∀ now uuid₂, uuid₂ ∉ (runEvent r event uuid fs db).state.clients.map (·.id) →
        ∃ n res₂ db₂, Handles r event uuid₂ (List.replicate n (.ok now))
          (runEvent r event uuid fs db).state res₂ db₂) ∧
    (∀ res, (runEvent r event uuid fs db).value = some (.ok res) →
      ∀ uuid₂ fs₂, (runEvent r event uuid₂ fs₂ (runEvent r event uuid fs db).state).state.forget =
        (runEvent r event uuid fs db).state.forget) := by
  refine ⟨fun uuid₂ fs₂ res₂ db₂ h => ?_, ?_, ?_⟩
  · obtain ⟨uuid₁, fs₁, res₁, db₁, h₁, hforget, rfl⟩ := handles_after h
    refine ⟨⟨uuid₁, fs₁, res₁, db₁, h₁⟩, fun uuid' fs' res' db' h' => ?_⟩
    obtain ⟨⟨σ, hσ, hsame⟩, haction⟩ := handles_unique hdb h₁ h'
    exact ⟨⟨σ, hσ, by rw [← hforget, hsame]⟩, haction⟩
  · rintro ⟨uuid₁, fs₁, res₁, db₁, h₁⟩ now uuid₂ hnew
    exact handles_again hdb h₁ now hnew
  · intro res hres uuid₂ fs₂
    exact runEvent_after ⟨hres, rfl⟩

/-- A plan, and the event of a first subscription to it. -/
def proStore : Db := { plans := [{ id := "pro", name := "Pro" }] }

def firstSubscription : StripeEvent Empty :=
  .ofTexts "evt_1" "customer.subscription.created"
    [("customer", "cus_1"), ("id", "sub_1"), ("status", "active")]

theorem proStore_valid : proStore.Valid := by constructor <;> simp [proStore]

/-- The process is cut off when the client is there and nothing else. -/
theorem handleEvent_retry_client :
    (runEvent .plain firstSubscription "c1" [.ok 1, .ok 2] proStore).value = none ∧
      (runEvent .plain firstSubscription "c1" [.ok 1, .ok 2] proStore).state.clients.length = 1 ∧
      ∃ n res db', Handles .plain firstSubscription "c2" (List.replicate n (.ok 3))
        (runEvent .plain firstSubscription "c1" [.ok 1, .ok 2] proStore).state res db' := by
  refine ⟨by decide +kernel, by decide +kernel, ?_⟩
  refine (handleEvent_retry .plain firstSubscription proStore proStore_valid "c1" [.ok 1,
    .ok 2]).2.1
    ⟨"c3", List.replicate 4 (.ok 5), { action := .activated, clientId := some "c3" }, _,
      by decide +kernel, rfl⟩ 3 "c2" (by decide +kernel)

end

end InferenceEngine
