import InferenceEngine.Billing.Portal
import InferenceEngine.Billing.StripeFrame

/-!
# Billing.PortalRuns

The account of a client while the engine works for others: keys are created, attached, revoked and
purged, usage is recorded, clients come, are suspended and canceled, Stripe sends events, whole or
in part, and events are emitted.

* `Foreign`: what is done for others than the client.
* `own_step`: it leaves the rows of the client as they are.
* `portal_isolated`: and so every answer the client gets, after any run of it.
-/

namespace InferenceEngine

namespace Portal

open Effect Json Lts

inductive PortalLabel (F : Type) where
  | store (a : StoreAction F)
  | emit (e : ClientEventLog.NewEvent)

section

variable {F : Type} (r : Render F) (retention : Retention)

def PortalState.step (s : PortalState) : PortalLabel F → Option PortalState
  | .store a => some { s with db := a.apply r s.db }
  | .emit e => some { s with log := (s.log.append retention e).2 }

/-- The event is of another customer than the client. -/
def OtherCustomer (event : Items F) (clientId : String) (db : Db) : Prop :=
  ∀ kind obj ref, eventTarget r event = .ok (kind, obj) →
    r.bind (obj.get "customer") = .ok (some ref) →
    ∀ c ∈ db.clients, c.id = clientId → c.externalRef ≠ some ref

/-- What is done for others: to other clients, to keys that are not the client's, and for other
customers of Stripe, whose subscriptions are their own. A plan can be everyone's. -/
def Foreign (custOf : String → String) (clientId : String) (s : PortalState) : PortalLabel F → Prop
  | .store (.createKey _ _) | .store (.createClient _ _ _) => True
  | .store (.attachKey keyId other) => other ≠ clientId ∧ ∀ k ∈ (s.own clientId).keys, k.id ≠ keyId
  | .store (.revokeKey keyId _) | .store (.purge keyId) => ∀ k ∈ (s.own clientId).keys, k.id ≠ keyId
  | .store (.revokeClientKeys other _) | .store (.setClientStatus other _) => other ≠ clientId
  | .store (.upsertPlan _) => False
  | .store (.recordUsage u) => usedBy (s.own clientId).keys u = false
  | .store (.stripeEvent items _ _) =>
    OtherCustomer r items clientId s.db ∧ ∃ event : StripeEvent F, event.items = items ∧
      Consistent r custOf event
  | .emit e => e.clientId ≠ clientId

end

variable {F : Type} {r : Render F} {retention : Retention} {custOf : String →
  String} {clientId : String}
  {s s' : PortalState} {db db' : Db}

/-! ## One statement -/

theorem own_eq (hclients : db'.clients.filter (·.id = clientId) = db.clients.filter
    (·.id = clientId)) (hkeys : db'.keys.filter (·.clientId = some clientId) =
      db.keys.filter (·.clientId = some clientId)) (hsubs :
      db'.subscriptions.filter (·.clientId = clientId) = db.subscriptions.filter
      (·.clientId = clientId)) (husage : db'.usage = db.usage) (log : ClientEventLog) :
      (⟨db', log⟩ : PortalState).own clientId = (⟨db, log⟩ : PortalState).own clientId := by
  unfold PortalState.own
  dsimp only
  rw [hclients, hkeys, hsubs, husage]

/-- A statement on keys that are not the client's, and do not become it. -/
theorem own_updateKeys {p : KeyRow → Bool} {f : KeyRow → KeyRow}
    (h : ∀ k ∈ db.keys, p k = true → k.clientId ≠ some clientId ∧ (f k).clientId ≠ some clientId)
    (log : ClientEventLog) :
    (⟨{ db with keys := Table.update p f db.keys }, log⟩ : PortalState).own clientId =
      (⟨db, log⟩ : PortalState).own clientId := by
  have hkeys : (Table.update p f db.keys).filter (·.clientId = some clientId) =
      db.keys.filter (·.clientId = some clientId) := by
    refine Table.filter_update fun k hk hp => ?_
    rw [decide_eq_false_iff_not, decide_eq_false_iff_not]
    exact h k hk hp
  refine own_eq ?_ ?_ ?_ ?_ log
  · rfl
  · exact hkeys
  · rfl
  · rfl

theorem own_append (h : e.clientId ≠ clientId) (db : Db) (log : ClientEventLog) :
    (⟨db, (log.append retention e).2⟩ : PortalState).own clientId =
      (⟨db, log⟩ : PortalState).own clientId := by
  have hrows : (log.append retention e).2.rows.filter (·.clientId = clientId) =
      log.rows.filter (·.clientId = clientId) := by
    rcases ClientEventLog.append_cases log retention e with ⟨-, heq⟩ | ⟨-, -, -, heq⟩
    · rw [heq]
    · have hkept : ∀ (p : ClientEvent → Bool) (rows : List ClientEvent),
          (rows.filter fun row => !(row.clientId = e.clientId && p row)).filter
            (·.clientId = clientId) =
            rows.filter (·.clientId = clientId) := by
        intro p rows
        rw [List.filter_filter]
        refine List.filter_congr fun row _ => ?_
        by_cases hrow : row.clientId = clientId
        · simp [hrow, h.symm]
        · simp [hrow]
      rw [heq]
      unfold ClientEventLog.prune ClientEventLog.pruneCount ClientEventLog.pruneAge
      have hnew : (log.rows ++ [log.newRow e]).filter (·.clientId = clientId) =
          log.rows.filter (·.clientId = clientId) := by
        rw [List.filter_append, List.filter_cons_of_neg (by rw [decide_eq_true_eq]; exact h),
          List.filter_nil, List.append_nil]
      split
      · rw [hkept]
        split
        · rw [hkept, hnew]
        · exact hnew
      · split
        · rw [hkept, hnew]
        · exact hnew
  unfold PortalState.own
  dsimp only
  rw [hrows]

/-! ## An event of another customer -/

theorem externalRef_of_names (hdb' : db'.Valid) {c : Client} (hc : c ∈ db.clients)
    (hnames : db.clients.map (fun c => (c.id, c.externalRef, c.email)) <+:
      db'.clients.map fun c => (c.id, c.externalRef, c.email)) :
    ∀ c' ∈ db'.clients, c'.id = c.id → c'.externalRef = c.externalRef := by
  intro c' hc' hid
  obtain ⟨c'', hc'', heq⟩ := List.mem_map.mp (hnames.subset (List.mem_map_of_mem hc))
  simp only [Prod.mk.injEq] at heq
  obtain ⟨hid', href, -⟩ := heq
  have hsame : c' = c'' := List.inj_on_of_nodup_map hdb'.clientIds hc' hc'' (hid.trans hid'.symm)
  rw [hsame]
  exact href

theorem own_framed {revokes : Prop} {ref other : String} (h : Framed revokes ref other db db')
    (hdb' : db'.Valid) (hpresent : clientId ∈ db.clients.map (·.id))
      (hother : ∃ c ∈ db'.clients, c.id = other ∧ c.externalRef = some ref)
      (href : ∀ c ∈ db.clients, c.id = clientId → c.externalRef ≠ some ref)
      (husage : db'.usage = db.usage) (log : ClientEventLog) :
    (⟨db', log⟩ : PortalState).own clientId = (⟨db, log⟩ : PortalState).own clientId := by
  obtain ⟨c, hc, rfl⟩ := List.mem_map.mp hpresent
  have href' : ∀ c' ∈ db'.clients, c'.id = c.id → c'.externalRef ≠ some ref := by
    intro c' hc' hid
    rw [externalRef_of_names hdb' hc h.names c' hc' hid]
    exact href c hc rfl
  have hne : other ≠ c.id := by
    obtain ⟨o, ho, rfl, horef⟩ := hother
    exact fun hid => href' o ho hid horef
  refine own_eq ?_ ?_ ?_ husage log
  · have hsub : ∀ rows : List Client, (∀ c' ∈ rows, c'.id = c.id → c'.externalRef ≠ some ref) →
        rows.filter (·.id = c.id) = (rows.filter fun c' => c'.externalRef ≠ some ref).filter
          (·.id = c.id) := by
      intro rows hrows
      rw [List.filter_filter]
      refine List.filter_congr fun c' hc' => ?_
      by_cases hid : c'.id = c.id
      · simp [hid, hrows c' hc' hid]
      · simp [hid]
    rw [hsub _ href', hsub _ href, h.others]
  · refine Table.filter_of_forall₂ h.keys fun k k' hk => ?_
    obtain rfl | ⟨-, hother, -, now, rfl⟩ := hk
    · exact .inl rfl
    · refine .inr ⟨?_, ?_⟩ <;> simpa [hother] using hne
  · have hsub : ∀ rows : List SubscriptionRow, rows.filter (·.clientId = c.id) =
        (rows.filter fun sub => sub.clientId ≠ other).filter (·.clientId = c.id) := by
      intro rows
      rw [List.filter_filter]
      refine List.filter_congr fun sub _ => ?_
      by_cases hid : sub.clientId = c.id
      · simp [hid, hne.symm]
      · simp [hid]
    rw [hsub, hsub db.subscriptions, h.subscriptions]

theorem runEvent_usage (event : StripeEvent F) (uuid : String) (fates : List (Fate ℚ Exc))
    (db : Db) : (runEvent r event uuid fates db).state.usage = db.usage := by
  have hleads : (handleEvent r uuid event.items).Leads StoreOp.exec db fun db' _ => db'.usage =
      db.usage := by
    refine Prog.leads_of_invariant (P := fun d : Db => d.usage = db.usage)
      (fun now db' op hdb' => ?_) _ rfl
    obtain ⟨-, heq⟩ | ⟨other, heq⟩ := exec_keys now db' op
    · exact heq.trans hdb'
    · rw [heq]
      exact hdb'
  exact hleads fates

/-! ## Any operation -/

/-- What the operations for others rely on and keep. -/
structure Inv (custOf : String → String) (clientId : String) (s : PortalState) : Prop where
  valid : s.db.Valid
  linked : Linked custOf s.db
  present : clientId ∈ s.db.clients.map (·.id)

/-- What the operations for others leave as it is. -/
def Same (clientId : String) (s s' : PortalState) : Prop :=
  s'.own clientId = s.own clientId ∧ s'.db.plans = s.db.plans

theorem linked_createClient {id : String} {externalRef email : Option String} {c : Client}
    (hdb : db.Valid) (h : Linked custOf db)
      (hc : db.createClient id externalRef email = .ok (c, db')) : Linked custOf db' := by
  obtain ⟨hid, -, rfl, rfl⟩ := Db.createClient_ok hc
  intro sub hsub hprov c hc hcid
  rcases List.mem_append.mp hc with hc | hc
  · exact h sub hsub hprov c hc hcid
  · -- No subscription is of a client that was not there.
    obtain rfl := List.mem_singleton.mp hc
    have hcid : id = sub.clientId := hcid
    rw [hcid] at hid
    exact absurd (hdb.subClients _ (List.mem_map_of_mem hsub)) hid

theorem linked_setClientStatus (h : Linked custOf db) (other : String) (status : ClientStatus) :
    Linked custOf (db.setClientStatus other status) := by
  intro sub hsub hprov c hc hcid
  obtain ⟨c₀, hc₀, ⟨-, rfl⟩ | ⟨-, rfl⟩⟩ := Table.mem_update hc
  · exact h sub hsub hprov c₀ hc₀ hcid
  · exact h sub hsub hprov c hc₀ hcid

section Step

variable {log : ClientEventLog} (h : Inv custOf clientId ⟨db, log⟩)
include h

theorem updateKeys_step {p : KeyRow → Bool} {f : KeyRow → KeyRow}
    (hkeys : ∀ k ∈ db.keys, p k = true → k.clientId ≠ some clientId ∧
      (f k).clientId ≠ some clientId) (hvalid :
    Db.Valid { db with keys := Table.update p f db.keys }) :
    Same clientId ⟨db, log⟩ ⟨{ db with keys := Table.update p f db.keys }, log⟩ ∧
      Inv custOf clientId ⟨{ db with keys := Table.update p f db.keys }, log⟩ :=
  ⟨⟨own_updateKeys hkeys log, rfl⟩, ⟨hvalid, h.linked, h.present⟩⟩

theorem createKey_step {id keyHash : String} (hc : db.createKey id keyHash = .ok db') :
    Same clientId ⟨db, log⟩ ⟨db', log⟩ ∧ Inv custOf clientId ⟨db', log⟩ := by
  have hvalid := h.valid.createKey hc
  obtain ⟨-, -, rfl⟩ := Db.createKey_ok hc
  refine ⟨⟨own_eq ?_ ?_ ?_ ?_ log, rfl⟩, ⟨hvalid, h.linked, h.present⟩⟩
  · rfl
  · dsimp only
    rw [List.filter_append, List.filter_cons_of_neg (by simp), List.filter_nil, List.append_nil]
  · rfl
  · rfl

theorem createClient_step {id : String} {externalRef email : Option String} {c : Client}
    (hc : db.createClient id externalRef email = .ok (c, db')) :
    Same clientId ⟨db, log⟩ ⟨db', log⟩ ∧ Inv custOf clientId ⟨db', log⟩ := by
  have hvalid := h.valid.createClient hc
  have hlinked := linked_createClient h.valid h.linked hc
  obtain ⟨hid, -, rfl, rfl⟩ := Db.createClient_ok hc
  have hne : id ≠ clientId := fun heq => hid (heq ▸ h.present)
  refine ⟨⟨own_eq ?_ ?_ ?_ ?_ log, rfl⟩, ⟨hvalid, hlinked, ?_⟩⟩
  · dsimp only
    rw [List.filter_append, List.filter_cons_of_neg (by simpa using hne), List.filter_nil,
      List.append_nil]
  · rfl
  · rfl
  · rfl
  · dsimp only
    rw [List.map_append]
    exact List.mem_append_left _ h.present

theorem setClientStatus_step {other : String} (hother : other ≠ clientId) (status : ClientStatus) :
    Same clientId ⟨db, log⟩ ⟨db.setClientStatus other status, log⟩ ∧
      Inv custOf clientId ⟨db.setClientStatus other status, log⟩ := by
  have hids : (db.setClientStatus other status).clients.map (·.id) = db.clients.map (·.id) :=
    Table.map_update _ fun _ _ _ => rfl
  have hclients : (db.setClientStatus other status).clients.filter (·.id = clientId) =
      db.clients.filter (·.id = clientId) := by
    refine Table.filter_update fun c _ hc => ?_
    have hid : c.id = other := of_decide_eq_true hc
    simp [hid, hother]
  refine ⟨⟨own_eq hclients ?_ ?_ ?_ log, rfl⟩, ⟨h.valid.setClientStatus other status,
    linked_setClientStatus h.linked other status, hids ▸ h.present⟩⟩ <;> rfl

theorem deleteKey_step {keyId : String}
    (hkey : ∀ k ∈ ((⟨db, log⟩ : PortalState).own clientId).keys, k.id ≠ keyId) :
    Same clientId ⟨db, log⟩ ⟨db.deleteKey keyId, log⟩ ∧
      Inv custOf clientId ⟨db.deleteKey keyId, log⟩ := by
  have hkeys : (db.deleteKey keyId).keys.filter (·.clientId = some clientId) =
      db.keys.filter (·.clientId = some clientId) := by
    unfold Db.deleteKey
    rw [List.filter_filter]
    refine List.filter_congr fun k hk => ?_
    by_cases howner : k.clientId = some clientId
    · simp [howner, hkey k (mem_own_keys.mpr ⟨hk, howner⟩)]
    · simp [howner]
  refine ⟨⟨own_eq ?_ hkeys ?_ ?_ log, rfl⟩, ⟨h.valid.deleteKey keyId, h.linked, h.present⟩⟩ <;> rfl

theorem recordUsage_step {u : UsageEvent}
    (hu : usedBy ((⟨db, log⟩ : PortalState).own clientId).keys u = false) :
    Same clientId ⟨db, log⟩ ⟨{ db with usage := db.usage ++ [u] }, log⟩ ∧
      Inv custOf clientId ⟨{ db with usage := db.usage ++ [u] }, log⟩ := by
  refine ⟨⟨?_, rfl⟩, ⟨{ h.valid with }, h.linked, h.present⟩⟩
  have husage : (db.usage ++ [u]).filter (usedBy (db.keys.filter (·.clientId = some clientId))) =
      db.usage.filter (usedBy (db.keys.filter (·.clientId = some clientId))) := by
    have hneg : ¬usedBy (db.keys.filter (·.clientId = some clientId)) u = true :=
      Bool.not_eq_true _ ▸ hu
    rw [List.filter_append, List.filter_cons_of_neg hneg, List.filter_nil, List.append_nil]
  exact Own.ext rfl rfl rfl husage rfl

theorem stripeEvent_step {event : StripeEvent F} (hother : OtherCustomer r event.items clientId db)
    (hconsistent : Consistent r custOf event) (uuid : String) (fates : List (Fate ℚ Exc)) :
    Same clientId ⟨db, log⟩ ⟨(runEvent r event uuid fates db).state, log⟩ ∧
      Inv custOf clientId ⟨(runEvent r event uuid fates db).state, log⟩ := by
  obtain ⟨hframe, hvalid, hlinked⟩ := runEvent_frame h.valid h.linked hconsistent uuid fates
  have husage := runEvent_usage (r := r) event uuid fates db
  refine ⟨⟨?_, hframe.plans_eq⟩, ⟨hvalid, hlinked, ?_⟩⟩
  · obtain heq | ⟨kind, obj, ref, client, htarget, href, hclient, hcref, hframed⟩ := hframe
    · rw [heq]
    · exact own_framed hframed hvalid h.present ⟨client, hclient, rfl,
        hcref⟩ (hother kind obj ref htarget href) husage
        log
  · obtain heq | ⟨kind, obj, ref, client, -, -, -, -, hframed⟩ := hframe
    · rw [heq]
      exact h.present
    · obtain ⟨c, hc, hcid⟩ := List.mem_map.mp h.present
      obtain ⟨c', hc', heq⟩ := List.mem_map.mp (hframed.names.subset (List.mem_map_of_mem hc))
      exact List.mem_map.mpr ⟨c', hc', (congrArg Prod.fst heq).trans hcid⟩

end Step

/-- What is done for others leaves the rows of the client and the plans as they are. -/
theorem own_step (h : Inv custOf clientId s) {l : PortalLabel F}
    (hl : Foreign r custOf clientId s l) (hstep : s.step r retention l = some s') :
    Same clientId s s' ∧ Inv custOf clientId s' := by
  obtain ⟨db, log⟩ := s
  have hself : Same clientId ⟨db, log⟩ ⟨db, log⟩ ∧ Inv custOf clientId ⟨db, log⟩ := ⟨⟨rfl, rfl⟩, h⟩
  cases l with
  | emit e =>
    cases hstep
    exact ⟨⟨own_append hl db log, rfl⟩, ⟨h.valid, h.linked, h.present⟩⟩
  | store a =>
    cases hstep
    cases a with
    | createKey id keyHash =>
      simp only [StoreAction.apply]
      split
      · next hc => exact createKey_step h hc
      · exact hself
    | attachKey keyId other =>
      simp only [StoreAction.apply]
      split
      · next hc =>
        have hvalid := h.valid.attachKey hc
        obtain ⟨-, rfl⟩ | ⟨-, -, rfl⟩ := Db.attachKey_ok hc
        · exact hself
        · refine updateKeys_step h (fun k hk hid => ⟨fun howner => ?_, fun heq => ?_⟩) hvalid
          · exact hl.2 k (mem_own_keys.mpr ⟨hk, howner⟩) (of_decide_eq_true hid)
          · exact hl.1 (Option.some.inj heq)
      · exact hself
    | revokeKey keyId now =>
      refine updateKeys_step h (fun k hk hid => ?_) (h.valid.revoke keyId now)
      have howner : k.clientId ≠ some clientId := fun howner =>
        hl k (mem_own_keys.mpr ⟨hk, howner⟩) (of_decide_eq_true (Bool.and_eq_true_iff.mp hid).1)
      exact ⟨howner, howner⟩
    | purge keyId =>
      simp only [StoreAction.apply]
      split
      · exact deleteKey_step h hl
      · exact hself
    | revokeClientKeys other now =>
      refine updateKeys_step h (fun k hk hid => ?_) (h.valid.revokeClientKeys other now)
      have howner : k.clientId ≠ some clientId := by
        rw [of_decide_eq_true (Bool.and_eq_true_iff.mp hid).1]
        exact fun heq => hl (Option.some.inj heq)
      exact ⟨howner, howner⟩
    | setClientStatus other status => exact setClientStatus_step h hl status
    | createClient id externalRef email =>
      simp only [StoreAction.apply]
      split
      · next hc => exact createClient_step h hc
      · exact hself
    | upsertPlan p => cases hl
    | recordUsage u => exact recordUsage_step h hl
    | stripeEvent items uuid fates =>
      obtain ⟨hother, event, rfl, hconsistent⟩ := hl
      exact stripeEvent_step h hother hconsistent uuid fates

/-- Whatever is done for others, and however much of it, the client is given the answers it was
given before: to every request with one of its keys. -/
theorem portal_isolated {settings : PortalSettings} {hashToken : String → String}
    {s t : PortalState} {ls : List (PortalLabel F)} (hs : s.db.Valid)
      (hlinked : Linked custOf s.db) (hrun : Run (PortalState.step r retention) s ls t)
      (hls : Guarded (PortalState.step r retention) (Foreign r custOf clientId) s ls) {k : KeyRow}
      (hk : k ∈ (s.own clientId).keys) {c : Credentials} {request : PortalRequest}
    (htoken : ∀ token ∈ request.token c, hashToken token = k.keyHash) (now : ℚ) :
    respond settings hashToken t c now request = respond settings hashToken s c now request := by
  obtain ⟨hmem, howner⟩ := mem_own_keys.mp hk
  have hpresent : clientId ∈ s.db.clients.map (·.id) :=
    hs.keyClients _ (List.mem_map_of_mem hmem) clientId (by rw [howner]; rfl)
  have hend : Same clientId s t ∧ Inv custOf clientId t := by
    refine hrun.invariant_of_guarded (P := fun m => Same clientId s m ∧
      Inv custOf clientId m) ?_ hls
      ⟨⟨rfl, rfl⟩, ⟨hs, hlinked, hpresent⟩⟩
    rintro m l m' ⟨⟨hown, hplans⟩, hinv⟩ hl hstep
    obtain ⟨⟨hown', hplans'⟩, hinv'⟩ := own_step hinv hl hstep
    exact ⟨⟨hown'.trans hown, hplans'.trans hplans⟩, hinv'⟩
  exact (answers_own hs hend.2.valid hend.1.1.symm hend.1.2.symm hk htoken now).symm

/-! ## Two clients -/

/-- Both have a key; the second one's usage and events come while the first one looks. -/
def twoClients : PortalState where
  db :=
    { plans := [{ id := "pro", name := "Pro", quota5hCu := 100 }]
      clients := [⟨"c1", some "cus_9", none, .active⟩, ⟨"c2", none, none, .active⟩]
      keys := [{ id := "k1", keyHash := "#1", clientId := some "c1" },
        { id := "k2", keyHash := "#2", clientId := some "c2" }]
      usage := [⟨10, "k1", "r1", "/v1/completions", none, 3, 4, 7, 200⟩] }
  log := .empty

def forTheSecond : List (PortalLabel Empty) :=
  [.store (.recordUsage ⟨20, "k2", "r2", "/v1/completions", none, 5, 5, 10, 200⟩),
    .emit ⟨"c2", "e1", "usage.threshold", "\x7b\x7d", 20⟩,
    .store (.stripeEvent firstSubscription.items "c3" (List.replicate 4 (.ok 6))),
    .store (.revokeClientKeys "c2" 30)]

theorem firstSubscription_other {db : Db} (hclients : db.clients = twoClients.db.clients) :
    OtherCustomer .plain firstSubscription.items "c1" db := by
  intro kind obj ref htarget href c hc hid hcref
  have hobj : eventTarget .plain firstSubscription.items = .ok (.subscription,
      [(Text.ofString "customer", .str (Text.ofString "cus_1")),
        (Text.ofString "id", .str (Text.ofString "sub_1")),
        (Text.ofString "status", .str (Text.ofString "active"))]) := rfl
  rw [hobj] at htarget
  obtain ⟨-, hitems⟩ := Prod.mk.inj (Except.ok.inj htarget)
  have hcust : Render.plain.bind (obj.get "customer") = .ok (some "cus_1") := by
    rw [← hitems]
    rfl
  have hname : "cus_1" = ref := Option.some.inj (Except.ok.inj (hcust.symm.trans href))
  subst hname
  rw [hclients] at hc
  simp only [twoClients, List.mem_cons, List.not_mem_nil, or_false] at hc
  rcases hc with rfl | rfl
  · exact absurd hcref (by decide)
  · exact absurd hid (by decide)

theorem portal_isolated_forTheSecond :
    ∃ t, Run (PortalState.step .plain {}) twoClients forTheSecond t ∧
      respond ⟨0, 0, none, true, true, []⟩ ("#" ++ ·) t { xApiKey := some "1" } 25 .usage =
        respond ⟨0, 0, none, true, true, []⟩ ("#" ++ ·) twoClients
          { xApiKey := some "1" } 25 .usage := by
  obtain ⟨t, hrun⟩ : ∃ t, Run (PortalState.step .plain {}) twoClients forTheSecond t :=
    ⟨_, .cons rfl (.cons rfl (.cons rfl (.single rfl)))⟩
  have hvalid : twoClients.db.Valid := by constructor <;> simp [twoClients]
  have hlinked : Linked (fun _ => "cus_1") twoClients.db := by
    intro sub hsub
    cases hsub
  have hforeign : Guarded (PortalState.step .plain {})
      (Foreign .plain (fun _ => "cus_1") "c1") twoClients
      forTheSecond := by
    have hne : "c2" ≠ "c1" := by decide
    refine ⟨rfl, fun s₁ h₁ => ?_⟩
    cases h₁
    refine ⟨hne, fun s₂ h₂ => ?_⟩
    cases h₂
    refine ⟨⟨firstSubscription_other rfl, firstSubscription, rfl, firstSubscription_consistent⟩,
      fun s₃ h₃ => ?_⟩
    cases h₃
    exact ⟨hne, fun _ _ => trivial⟩
  refine ⟨t, hrun, portal_isolated hvalid hlinked hrun hforeign
    (k := { id := "k1", keyHash := "#1", clientId := some "c1" }) ?_ ?_ 25⟩
  · simp [mem_own_keys, twoClients]
  · intro token htoken
    have hone : (PortalRequest.usage).token { xApiKey := some "1" } = some "1" := by decide +kernel
    rw [hone] at htoken
    cases htoken
    decide +kernel

end Portal

end InferenceEngine
