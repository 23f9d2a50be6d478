import InferenceEngine.Lib.Run
import InferenceEngine.Billing.StripeRetry

/-!
# Billing.StripeFrame

What a Stripe event cannot do, in every history of events, whole or in part and in any order, in
which a subscription always comes with the same customer (`Consistent`): it leaves the plans alone,
revokes keys only of the client whose subscription was deleted, and touches no other client than its
customer's (`Frame`). So every entitlement is the one of a plan that the operator defined.
-/

namespace InferenceEngine

open Effect Json Lts

variable {F : Type} {r : Render F}

/-- The subscription and the customer of an event always belong together. -/
def Consistent (r : Render F) (custOf : String → String) (event : StripeEvent F) : Prop :=
  ∀ kind obj subId ref, eventTarget r event.items = .ok (kind, obj) →
    kind = .subscription ∨ kind = .deleted → r.truthy (obj.get "id") = true →
    r.bind (obj.get "id") = .ok (some subId) → r.truthy (obj.get "customer") = true →
    r.bind (obj.get "customer") = .ok (some ref) → custOf subId = ref

/-- Every Stripe subscription is one of the client of its customer, as such events create them. -/
def Linked (custOf : String → String) (db : Db) : Prop :=
  ∀ s ∈ db.subscriptions, s.provider = provider → ∀ c ∈ db.clients, c.id = s.clientId →
    c.externalRef = some (custOf s.providerSubId)

/-- A key is as it was, or it was a live one of the client and is revoked. -/
def KeyKept (revokes : Prop) (clientId : String) (k k' : KeyRow) : Prop :=
  k' = k ∨ revokes ∧ k.clientId = some clientId ∧ k.revokedAt = none ∧
    ∃ now, k' = { k with status := .revoked, revokedAt := some now }

/-- Only the client `clientId`, of the customer `ref`, and its rows may have changed: a client keeps
all but its status. -/
structure Framed (revokes : Prop) (ref clientId : String) (db db' : Db) : Prop where
  plans : db'.plans = db.plans
  keys : List.Forall₂ (KeyKept revokes clientId) db.keys db'.keys
  others : db'.clients.filter (fun c => c.externalRef ≠ some ref) =
    db.clients.filter fun c => c.externalRef ≠ some ref
  names : db.clients.map (fun c => (c.id, c.externalRef, c.email)) <+:
    db'.clients.map fun c => (c.id, c.externalRef, c.email)
  subscriptions : db'.subscriptions.filter (fun s => s.clientId ≠ clientId) =
    db.subscriptions.filter fun s => s.clientId ≠ clientId

/-- What an event may do to the store. -/
def Frame (r : Render F) (event : StripeEvent F) (db db' : Db) : Prop :=
  db' = db ∨ ∃ kind obj ref client, eventTarget r event.items = .ok (kind, obj) ∧
    r.bind (obj.get "customer") = .ok (some ref) ∧ client ∈ db'.clients ∧
    client.externalRef = some ref ∧ Framed (kind = .deleted) ref client.id db db'

/-! ## One write after the other -/

structure Writing (custOf : String → String) (revokes : Prop) (ref clientId : String) (db m : Db) :
    Prop extends Framed revokes ref clientId db m where
  valid : m.Valid
  linked : Linked custOf m
  client : ∃ c ∈ m.clients, c.id = clientId ∧ c.externalRef = some ref

namespace Writing

variable {custOf : String → String} {revokes : Prop} {ref clientId : String} {db m : Db}

/-- Ids are unique, so this is about one client. -/
theorem externalRef_eq (h : Writing custOf revokes ref clientId db m) {c : Client}
    (hc : c ∈ m.clients) (hid : c.id = clientId) : c.externalRef = some ref := by
  obtain ⟨c₀, hc₀, hid₀, href⟩ := h.client
  have hsame : c = c₀ := List.inj_on_of_nodup_map h.valid.clientIds hc hc₀ (hid.trans hid₀.symm)
  rw [hsame]
  exact href

theorem status (h : Writing custOf revokes ref clientId db m) (st : ClientStatus) :
    Writing custOf revokes ref clientId db (m.setClientStatus clientId st) := by
  refine
    { h with
      others := ?_
      names := ?_
      valid := h.valid.setClientStatus clientId st
      linked := ?_
      client := ?_ }
  · rw [← h.others]
    refine Table.filter_update fun c hc hid => ?_
    have href := h.externalRef_eq hc (of_decide_eq_true hid)
    simp [href]
  · have hnames : (m.setClientStatus clientId st).clients.map
        (fun c => (c.id, c.externalRef, c.email)) =
        m.clients.map fun c => (c.id, c.externalRef, c.email) := Table.map_update _ fun _ _ _ => rfl
    rw [hnames]
    exact h.names
  · intro s hs hprov c hc hid
    obtain ⟨c₀, hc₀, ⟨-, rfl⟩ | ⟨-, rfl⟩⟩ := Table.mem_update hc
    · exact h.linked s hs hprov c₀ hc₀ hid
    · exact h.linked s hs hprov c hc₀ hid
  · obtain ⟨c₀, hc₀, hid, href⟩ := h.client
    exact ⟨{ c₀ with status := st }, List.mem_map.mpr ⟨c₀, hc₀, by simp [hid]⟩, hid, href⟩

theorem revoke (h : Writing custOf revokes ref clientId db m) (hrevokes : revokes) (now : ℚ) :
    Writing custOf revokes ref clientId db (m.revokeClientKeys clientId now) := by
  refine { h with keys := ?_, valid := h.valid.revokeClientKeys clientId now }
  refine List.forall₂_map_right_iff.mpr (h.keys.imp fun k k' hk => ?_)
  split
  · rename_i hlive
    simp only [Bool.and_eq_true, decide_eq_true_eq, Option.isNone_iff_eq_none] at hlive
    obtain rfl | ⟨-, -, -, t, rfl⟩ := hk
    · exact .inr ⟨hrevokes, hlive.1, hlive.2, now, rfl⟩
    · cases hlive.2
  · exact hk

theorem subscription (h : Writing custOf revokes ref clientId db m) {sub : Subscription}
    (hprov : sub.provider = provider) (hclient : sub.clientId = clientId)
    (hcheck : m.checkSubscription sub = .ok ()) (hcust : custOf sub.providerSubId = ref) (now : ℚ) :
    Writing custOf revokes ref clientId db (m.putSubscription sub now) := by
  -- the row of this subscription, if there is one, is the client's
  have howner : ∀ s ∈ m.subscriptions, Db.sameProviderSub sub s = true → s.clientId = clientId := by
    intro s hs hsame
    simp only [Db.sameProviderSub, Bool.and_eq_true, decide_eq_true_eq] at hsame
    obtain ⟨c, hc, hid⟩ := List.mem_map.mp (h.valid.subClients _ (List.mem_map_of_mem hs))
    have href := h.linked s hs (hsame.1.trans hprov) c hc hid
    rw [hsame.2, hcust] at href
    obtain ⟨c₀, hc₀, hid₀, href₀⟩ := h.client
    have heq : c = c₀ := h.valid.client_of_externalRef hc hc₀ href href₀
    rw [← hid, heq, hid₀]
  refine { h with subscriptions := ?_, valid := h.valid.putSubscription hcheck now, linked := ?_ }
  · rw [← h.subscriptions]
    refine Table.filter_upsert (fun s hs hsame => ?_) (by simp [hclient])
    simp [Db.renew, howner s hs hsame]
  · intro s hs hs' c hc hid
    obtain ⟨s₀, hs₀, ⟨-, rfl⟩ | ⟨-, rfl⟩⟩ | ⟨-, rfl⟩ := Table.mem_upsert hs
    · exact h.linked s₀ hs₀ hs' c hc hid
    · exact h.linked s hs₀ hs' c hc hid
    · rw [h.externalRef_eq hc (hid.trans hclient), ← hcust]

theorem refl (hdb : db.Valid) (hlinked : Linked custOf db) {c : Client} (hc : c ∈ db.clients)
    (href : c.externalRef = some ref) : Writing custOf revokes ref c.id db db where
  plans := rfl
  keys := List.forall₂_same.mpr fun _ _ => .inl rfl
  others := rfl
  names := List.prefix_rfl
  subscriptions := rfl
  valid := hdb
  linked := hlinked
  client := ⟨c, hc, rfl, href⟩

theorem created (hdb : db.Valid) (hlinked : Linked custOf db) {email : Option String} {c : Client}
    (hcreate : db.createClient clientId (some ref) email = .ok (c, m)) :
    Writing custOf revokes ref clientId db m := by
  have hvalid := hdb.createClient hcreate
  obtain ⟨hnew, -, rfl, rfl⟩ := Db.createClient_ok hcreate
  refine
    { plans := rfl
      keys := List.forall₂_same.mpr fun _ _ => .inl rfl
      others := by simp
      names := by simp
      subscriptions := rfl
      valid := hvalid
      linked := ?_
      client := ⟨_, List.mem_append_right _ (List.mem_singleton_self _), rfl, rfl⟩ }
  intro s hs hprov c hc hid
  rcases List.mem_append.mp hc with hc | hc
  · exact hlinked s hs hprov c hc hid
  · rw [List.mem_singleton.mp hc] at hid
    have hmem := hdb.subClients _ (List.mem_map_of_mem hs)
    rw [← hid] at hmem
    exact absurd hmem hnew

end Writing

/-! ## Whole runs -/

variable {custOf : String → String} {kind : EventKind} {obj : Items F} {clientId : String}
  {L : List Write} {action : LifecycleAction} {db : Db}

theorem getClientByExternalRef_some {ref : Option String} {c : Client}
    (h : db.getClientByExternalRef ref = some c) : c ∈ db.clients ∧ c.externalRef = ref := by
  have hp := List.find?_some h
  simp only [Bool.and_eq_true, decide_eq_true_eq] at hp
  exact ⟨List.mem_of_find?_eq_some h, hp.2⟩

theorem writes_client (h : writes r kind obj db clientId = .ok (L, action)) :
    (∀ id st, .status id st ∈ L → id = clientId) ∧
      ∀ id, .revoke id ∈ L → id = clientId ∧ kind = .deleted := by
  cases kind with
  | subscription =>
    obtain ⟨-, active, sub, -, -, -, -, rfl, -⟩ := writes_subscription_iff.mp h
    cases active <;> simp
  | paymentFailed =>
    cases h
    simp
  | deleted =>
    obtain ⟨-, ⟨-, rfl⟩ | ⟨-, -, sub, -, -, -, rfl⟩⟩ := writes_deleted_iff.mp h <;> simp
  | other =>
    cases h
    simp

/-- Only the events of a subscription write one. -/
theorem writes_subscription_kind {sub : Subscription}
    (h : writes r kind obj db clientId = .ok (L, action)) (hmem : .subscription sub ∈ L)
    (hsub : kind = .subscription → r.truthy (obj.get "id") = true) :
    (kind = .subscription ∨ kind = .deleted) ∧ r.truthy (obj.get "id") = true := by
  cases kind with
  | subscription => exact ⟨.inl rfl, hsub rfl⟩
  | paymentFailed =>
    cases h
    simp at hmem
  | deleted =>
    obtain ⟨-, ⟨-, rfl⟩ | ⟨htrue, -⟩⟩ := writes_deleted_iff.mp h
    · simp at hmem
    · exact ⟨.inr rfl, htrue⟩
  | other =>
    cases h
    cases hmem

theorem writing_of_locate {uuid : String} {db₁ : Db} (hdb : db.Valid) (hlinked : Linked custOf db)
    (hobj : ∀ p ∈ obj, p.2.Standard) (revokes : Prop)
    (h : locate r uuid kind obj db = .ok (some (clientId, db₁))) :
    r.truthy (obj.get "customer") = true ∧ (kind = .subscription → r.truthy (obj.get "id") = true) ∧
      ∃ ref, r.bind (obj.get "customer") = .ok (some ref) ∧
        Writing custOf revokes ref clientId db db₁ := by
  obtain ⟨client, hl, rfl, rfl⟩ | ⟨rfl, hcustomer, hsub, rfl, externalRef, email, client, href, -,
    -, hcreate⟩ := locate_cases h
  · obtain ⟨externalRef, href, hfind⟩ := hl.found
    obtain ⟨hmem, hmine⟩ := getClientByExternalRef_some hfind
    cases externalRef with
    | none =>
      exact absurd href (bind_ne_null (Items.get_standard hobj "customer" .null) hl.customer)
    | some ref => exact ⟨hl.customer, hl.subId, ref, href, .refl hdb hlinked hmem hmine⟩
  · cases externalRef with
    | none => exact absurd href (bind_ne_null (Items.get_standard hobj "customer" .null) hcustomer)
    | some ref => exact ⟨hcustomer, fun _ => hsub, ref, href, .created hdb hlinked hcreate⟩

/-- The writes of an event keep the frame. -/
theorem Writing.made {ref : String} {m : Db} {ws : List (Write × ℚ)}
    (h : Writing custOf (kind = .deleted) ref clientId db m)
    (hwrites : writes r kind obj m clientId = .ok (L, action)) (hws : ∀ w ∈ ws, w.1 ∈ L)
    (hcust : ∀ sub, .subscription sub ∈ L → custOf sub.providerSubId = ref) :
    Writing custOf (kind = .deleted) ref clientId db (made ws m) := by
  induction ws generalizing m with
  | nil => exact h
  | cons w ws ih =>
    have hw := hws w (List.mem_cons_self ..)
    obtain ⟨hstatus, hrevoke⟩ := writes_client hwrites
    refine ih ?_ (writes_apply hwrites hw w.2) fun v hv => hws v (List.mem_cons_of_mem w hv)
    obtain ⟨w, now⟩ := w
    cases w with
    | subscription sub =>
      obtain ⟨-, hprov, hclient, hcheck, -⟩ := writes_subscription_mem hwrites hw
      exact h.subscription hprov hclient hcheck (hcust sub hw) now
    | status id st =>
      rw [hstatus id st hw]
      exact h.status st
    | revoke id =>
      obtain ⟨rfl, hdeleted⟩ := hrevoke id hw
      exact h.revoke hdeleted now

theorem Writing.frame {event : StripeEvent F} {ref : String} {m : Db}
    (h : Writing custOf (kind = .deleted) ref clientId db m)
    (htarget : eventTarget r event.items = .ok (kind, obj))
    (href : r.bind (obj.get "customer") = .ok (some ref)) : Frame r event db m := by
  obtain ⟨c, hc, rfl, hcref⟩ := h.client
  exact .inr ⟨kind, obj, ref, c, htarget, href, hc, hcref, h.toFramed⟩

/-- A run of `handle_event`, wherever it ends, stays within the frame, and the links with it. -/
theorem runEvent_frame {event : StripeEvent F} (hdb : db.Valid) (hlinked : Linked custOf db)
    (hconsistent : Consistent r custOf event) (uuid : String) (fs : List (Fate ℚ Exc)) :
    Frame r event db (runEvent r event uuid fs db).state ∧
      (runEvent r event uuid fs db).state.Valid ∧
      Linked custOf (runEvent r event uuid fs db).state := by
  obtain hstate | ⟨kind, obj, clientId, db₁, ws, htarget, hloc, hstate, hws⟩ :=
    runEvent_stage r event uuid fs db
  · rw [hstate]
    exact ⟨.inl rfl, hdb, hlinked⟩
  · obtain ⟨hcustomer, hsub, ref, href, hwriting⟩ :=
      writing_of_locate hdb hlinked (eventTarget_standard htarget) (kind = .deleted) hloc
    rw [hstate]
    have hmade : Writing custOf (kind = .deleted) ref clientId db (made ws db₁) := by
      obtain rfl | ⟨rest, action, hwrites⟩ := hws
      · exact hwriting
      · refine hwriting.made hwrites
          (fun w hw => List.mem_append_left rest (List.mem_map_of_mem hw))
          fun sub hmem => ?_
        obtain ⟨hid, -⟩ := writes_subscription_mem hwrites hmem
        obtain ⟨hkind, hidTrue⟩ := writes_subscription_kind hwrites hmem hsub
        exact hconsistent kind obj _ ref htarget hkind hidTrue hid hcustomer href
    exact ⟨hmade.frame htarget href, hmade.valid, hmade.linked⟩

theorem Frame.plans_eq {event : StripeEvent F} {m : Db} (h : Frame r event db m) :
    m.plans = db.plans := by
  obtain rfl | ⟨_, _, _, _, -, -, -, -, hframed⟩ := h
  · rfl
  · exact hframed.plans

/-- An entitlement is the one of a plan in the store. -/
theorem keyAccess_entitlement {defaultPlanId : Option String} {keyId : String} {e : Entitlement}
    (h : (db.keyAccess defaultPlanId keyId).entitlement = some e) :
    ∃ p ∈ db.plans, e = p.entitlement := by
  have hplan {clientId : String} (he : db.entitlementForClient defaultPlanId clientId = some e) :
      ∃ p ∈ db.plans, e = p.entitlement := by
    obtain ⟨p, hp, rfl⟩ := Option.map_eq_some_iff.mp he
    exact ⟨p, List.mem_of_find?_eq_some hp, rfl⟩
  unfold Db.keyAccess at h
  split at h
  · cases h
  · split at h
    · cases h
    · split at h
      · cases h
      · dsimp only at h
        split at h
        · cases h
        · split at h
          · cases h
          · exact hplan h

structure EventRun (F : Type) where
  event : StripeEvent F
  uuid : String
  fates : List (Fate ℚ Exc)

def eventStep (r : Render F) (db : Db) (l : EventRun F) : Option Db :=
  some (runEvent r l.event l.uuid l.fates db).state

/-- Every event of a history stays within its frame, so that all of them together leave the plans as
the operator has defined them, and every entitlement is the one of such a plan. -/
theorem events_frame (r : Render F) (custOf : String → String) {db db' : Db}
    {ls : List (EventRun F)} (hdb : db.Valid) (hlinked : Linked custOf db)
    (hls : ∀ l ∈ ls, Consistent r custOf l.event) (hrun : Run (eventStep r) db ls db') :
    Along (eventStep r) (fun db l db' => Frame r l.event db db') db ls ∧ db'.plans = db.plans ∧
      ∀ defaultPlanId keyId e, (db'.keyAccess defaultPlanId keyId).entitlement = some e →
        ∃ p ∈ db.plans, e = p.entitlement := by
  have hstep : ∀ (s : Db) (l : EventRun F) (s' : Db), s.Valid ∧ Linked custOf s →
      Consistent r custOf l.event → eventStep r s l = some s' →
      Frame r l.event s s' ∧ s'.Valid ∧ Linked custOf s' := by
    rintro s l s' ⟨hs, hl⟩ hc hst
    cases hst
    exact runEvent_frame hs hl hc l.uuid l.fates
  have hplans : db'.plans = db.plans := by
    induction hrun with
    | refl => rfl
    | @cons s s' t l ls hst _ ih =>
      obtain ⟨hframe, hs', hl'⟩ := hstep s l s' ⟨hdb, hlinked⟩ (hls l (List.mem_cons_self ..)) hst
      rw [ih hs' hl' fun l' hl' => hls l' (List.mem_cons_of_mem l hl')]
      exact hframe.plans_eq
  refine ⟨along_of_invariant hstep ⟨hdb, hlinked⟩ hls, hplans, fun defaultPlanId keyId e he => ?_⟩
  rw [← hplans]
  exact keyAccess_entitlement he

theorem firstSubscription_consistent : Consistent .plain (fun _ => "cus_1") firstSubscription := by
  intro kind obj subId ref htarget hkind hid hsub hcustomer href
  have hobj : eventTarget .plain firstSubscription.items = .ok (.subscription,
      [(Text.ofString "customer", .str (Text.ofString "cus_1")),
        (Text.ofString "id", .str (Text.ofString "sub_1")),
        (Text.ofString "status", .str (Text.ofString "active"))]) := rfl
  rw [hobj] at htarget
  cases htarget
  cases href
  rfl

/-- A first subscription that arrives twice. -/
def arrivesTwice : List (EventRun Empty) :=
  List.replicate 2 ⟨firstSubscription, "c1", List.replicate 4 (.ok 1)⟩

theorem events_frame_twice :
    Along (eventStep .plain) (fun db l db' => Frame .plain l.event db db') proStore arrivesTwice ∧
      ∃ db', Run (eventStep .plain) proStore arrivesTwice db' := by
  obtain ⟨db', hrun⟩ : ∃ db', Run (eventStep .plain) proStore arrivesTwice db' :=
    ⟨_, .cons rfl (.cons rfl .refl)⟩
  refine ⟨(events_frame .plain (fun _ => "cus_1") proStore_valid ?_ (fun l hl => ?_) hrun).1, db',
    hrun⟩
  · intro s hs
    cases hs
  · rw [(List.mem_replicate.mp hl).2]
    exact firstSubscription_consistent

end InferenceEngine
