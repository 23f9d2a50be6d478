import InferenceEngine.Lib.Run
import InferenceEngine.Billing.StripeRetry

/-!
# Billing.Keys

Keys over their whole life. Two stores write `api_keys`: `KeyStore` creates keys, revokes and purges
them, `BillingStore` attaches them to clients and revokes those of a client, also for a Stripe
event. The gateway and the operator gate (`operator_access` of `gateway.py`) accept a token when its
row has no `revoked_at`; its role follows from `client_id`.

* `valid_run`: every run of every operation keeps the constraints of the schema.
* `KeyLaw.run`: what no statement takes from a row is kept by every run of every operation.
* `keys_final`: a revoked key is refused for good, and an attached one is never an operator's again.
-/

namespace InferenceEngine

open Effect Json Lts

/-! ## The gates -/

inductive Role where
  | operator
  | client
  deriving DecidableEq, Repr

/-- `KeyRecord.role`. -/
def KeyRow.role (k : KeyRow) : Role := if k.clientId.isSome then .client else .operator

/-- `KeyStore.verify`. -/
def verifyToken (hashToken : String → String) (db : Db) (token : String) : Option KeyRow :=
  if token.isEmpty then none else db.verify (hashToken token)

inductive OperatorAccess where
  | allowed
  | unauthenticated
  | forbiddenRole
  deriving DecidableEq, Repr

structure OperatorDecision where
  access : OperatorAccess
  key : Option KeyRow := none
  deriving DecidableEq, Repr

/-- `operator_access`; `loopback` is `is_loopback_client(client_host)`. -/
def operatorAccess (settings : GatewaySettings) (hashToken : String → String) (db : Db)
    (loopback : Bool) (token : Option String) : OperatorDecision :=
  if token.any fun t => !t.isEmpty then
    match verifyToken hashToken db (token.getD "") with
    | none => { access := .unauthenticated }
    | some record =>
      if record.role ≠ .operator then { access := .forbiddenRole, key := some record }
      else { access := .allowed, key := some record }
  else if !settings.requireAuth && loopback then { access := .allowed }
  else { access := .unauthenticated }

/-! ## Operations -/

inductive StoreAction (F : Type) where
  | createKey (id keyHash : String)
  | attachKey (keyId clientId : String)
  | revokeKey (keyId : String) (now : ℚ)
  /-- `DELETE /keys/...?purge=true` -/
  | purge (keyId : String)
  | revokeClientKeys (clientId : String) (now : ℚ)
  | setClientStatus (clientId : String) (status : ClientStatus)
  | createClient (id : String) (externalRef email : Option String)
  | upsertPlan (p : Plan)
  | recordUsage (u : UsageEvent)
  /-- `handle_event`, as far as it gets -/
  | stripeEvent (event : Items F) (uuid : String) (fates : List (Fate ℚ Exc))

namespace StoreAction

variable {F : Type}

/-- An operation that raises changes nothing; a purge is refused unless the key is revoked. -/
def apply (r : Render F) (db : Db) : StoreAction F → Db
  | createKey id keyHash =>
    match db.createKey id keyHash with
    | .ok db' => db'
    | .error _ => db
  | attachKey keyId clientId =>
    match db.attachKey keyId clientId with
    | .ok (_, db') => db'
    | .error _ => db
  | revokeKey keyId now => db.revoke keyId now
  | purge keyId =>
    if (db.getKey keyId).any fun k => k.revokedAt.isSome then db.deleteKey keyId else db
  | revokeClientKeys clientId now => db.revokeClientKeys clientId now
  | setClientStatus clientId status => db.setClientStatus clientId status
  | createClient id externalRef email =>
    match db.createClient id externalRef email with
    | .ok (_, db') => db'
    | .error _ => db
  | upsertPlan p => db.upsertPlan p
  | recordUsage u => { db with usage := db.usage ++ [u] }
  | stripeEvent event uuid fates => ((handleEvent r uuid event).runOn StoreOp.exec fates db).state

def step (r : Render F) (db : Db) (a : StoreAction F) : Option Db := some (a.apply r db)

end StoreAction

variable {F : Type} {r : Render F} {Q : KeyRow → Prop} {keyHash : String} {db db' : Db}

/-! ## The calls of `handle_event` -/

theorem statement_cases {α : Type} (db : Db) (run : Except Exc (α × Db)) :
    (StoreOp.statement db run).2 = db ∨ ∃ a, run = .ok (a, (StoreOp.statement db run).2) := by
  unfold StoreOp.statement
  split
  · exact .inr ⟨_, rfl⟩
  · exact .inl rfl

theorem exec_cases (now : ℚ) (db : Db) (op : StoreOp) :
    (op.exec now db).2 = db ∨
    (∃ id externalRef email c, db.createClient id externalRef email = .ok (c, (op.exec now db).2)) ∨
    (∃ sub, db.checkSubscription sub = .ok () ∧ (op.exec now db).2 = db.putSubscription sub now) ∨
    (∃ clientId status, (op.exec now db).2 = db.setClientStatus clientId status) ∨
    ∃ clientId, (op.exec now db).2 = db.revokeClientKeys clientId now := by
  cases op with
  | setClientStatus clientId status => exact .inr (.inr (.inr (.inl ⟨clientId, status, rfl⟩)))
  | revokeClientKeys clientId => exact .inr (.inr (.inr (.inr ⟨clientId, rfl⟩)))
  | getClientByExternalRef b | getPlan b | getSubscriptionByProvider prov b =>
    left
    obtain hsame | ⟨a, h⟩ := statement_cases db _
    · exact hsame
    · obtain ⟨_, -, h⟩ := except_bind_ok.mp h
      exact (Prod.mk.inj (Except.ok.inj h)).2.symm
  | createClient id externalRef email =>
    obtain hsame | ⟨c, h⟩ := statement_cases db _
    · exact .inl hsame
    · obtain ⟨ref, -, h⟩ := except_bind_ok.mp h
      obtain ⟨mail, -, h⟩ := except_bind_ok.mp h
      exact .inr (.inl ⟨id, ref, mail, c, h⟩)
  | upsertSubscription id clientId planId prov subId status periodEnd =>
    obtain hsame | ⟨a, h⟩ := statement_cases db _
    · exact .inl hsame
    · obtain ⟨_, -, h⟩ := except_bind_ok.mp h
      obtain ⟨_, -, h⟩ := except_bind_ok.mp h
      obtain ⟨_, -, h⟩ := except_bind_ok.mp h
      obtain ⟨_, -, h⟩ := except_bind_ok.mp h
      obtain ⟨_, -, h⟩ := except_bind_ok.mp h
      obtain ⟨db₁, hput, h⟩ := except_bind_ok.mp h
      have heq := (Prod.mk.inj (Except.ok.inj h)).2
      unfold Db.upsertSubscription at hput
      split at hput
      · dsimp only at hput
        split at hput
        · rename_i hcheck
          cases hput
          exact .inr (.inr (.inl ⟨_, hcheck, heq.symm⟩))
        · cases hput
      · cases hput

/-- The calls of `handle_event` write `api_keys` only to revoke, and `usage_events` never. -/
theorem exec_keys (now : ℚ) (db : Db) (op : StoreOp) :
    ((op.exec now db).2.keys = db.keys ∧ (op.exec now db).2.usage = db.usage) ∨
      ∃ clientId, (op.exec now db).2 = db.revokeClientKeys clientId now := by
  obtain heq | ⟨id, externalRef, email, c, h⟩ | ⟨sub, -, heq⟩ | ⟨clientId, status, heq⟩ | h :=
    exec_cases now db op
  · rw [heq]
    exact .inl ⟨rfl, rfl⟩
  · rw [(Db.createClient_ok h).2.2.2]
    exact .inl ⟨rfl, rfl⟩
  · rw [heq]
    exact .inl ⟨rfl, rfl⟩
  · rw [heq]
    exact .inl ⟨rfl, rfl⟩
  · exact .inr h

/-! ## Runs keep the constraints -/

theorem Db.Valid.exec (h : db.Valid) (now : ℚ) (op : StoreOp) : (op.exec now db).2.Valid := by
  obtain heq | ⟨id, externalRef, email, c, hc⟩ | ⟨sub, hcheck, heq⟩ | ⟨clientId, status, heq⟩ |
    ⟨clientId, heq⟩ := exec_cases now db op
  · rw [heq]
    exact h
  · exact h.createClient hc
  · rw [heq]
    exact h.putSubscription hcheck now
  · rw [heq]
    exact h.setClientStatus clientId status
  · rw [heq]
    exact h.revokeClientKeys clientId now

theorem Db.Valid.apply (h : db.Valid) (a : StoreAction F) : (a.apply r db).Valid := by
  cases a with
  | createKey id keyHash =>
    simp only [StoreAction.apply]
    split
    · rename_i db' hcreate
      exact h.createKey hcreate
    · exact h
  | attachKey keyId clientId =>
    simp only [StoreAction.apply]
    split
    · rename_i attached db' hattach
      exact h.attachKey hattach
    · exact h
  | revokeKey keyId now => exact h.revoke keyId now
  | purge keyId =>
    simp only [StoreAction.apply]
    split
    · exact h.deleteKey keyId
    · exact h
  | revokeClientKeys clientId now => exact h.revokeClientKeys clientId now
  | setClientStatus clientId status => exact h.setClientStatus clientId status
  | createClient id externalRef email =>
    simp only [StoreAction.apply]
    split
    · rename_i client db' hcreate
      exact h.createClient hcreate
    · exact h
  | upsertPlan p => exact h.upsertPlan p
  | recordUsage u => exact { h with }
  | stripeEvent event uuid fates =>
    have hleads : (handleEvent r uuid event).Leads StoreOp.exec db fun db' _ => db'.Valid :=
      Prog.leads_of_invariant (P := Db.Valid) (fun now db op hdb => hdb.exec now op) _ h
    exact hleads fates

/-- Every store that operations lead to from an empty one meets the constraints of the schema. -/
theorem valid_run {ls : List (StoreAction F)} (hrun : Run (StoreAction.step r) {} ls db) :
    db.Valid :=
  hrun.invariant (P := Db.Valid) (fun s a s' hs hst => by cases hst; exact hs.apply a) .empty

/-! ## What no statement takes from a row -/

/-- A property of key rows that revoking and attaching keep. -/
structure KeyLaw (Q : KeyRow → Prop) : Prop where
  revoke : ∀ k now, Q k → Q { k with revokedAt := some now }
  revokeClient : ∀ k now, Q k → Q { k with status := .revoked, revokedAt := some now }
  attach : ∀ k clientId, Q k → Q { k with clientId := some clientId }

/-- Every row of the hash has the property. -/
def HasLaw (Q : KeyRow → Prop) (keyHash : String) (db : Db) : Prop :=
  ∀ k ∈ db.keys, k.keyHash = keyHash → Q k

theorem HasLaw.update {p : KeyRow → Bool} {f : KeyRow → KeyRow} (h : HasLaw Q keyHash db)
    (hhash : ∀ k, (f k).keyHash = k.keyHash) (hf : ∀ k, Q k → Q (f k)) :
    HasLaw Q keyHash { db with keys := Table.update p f db.keys } := by
  intro k hk hkh
  obtain ⟨k₀, hk₀, ⟨-, rfl⟩ | ⟨-, rfl⟩⟩ := Table.mem_update hk
  · rw [hhash] at hkh
    exact hf k₀ (h k₀ hk₀ hkh)
  · exact h k hk₀ hkh

namespace KeyLaw

theorem exec (hQ : KeyLaw Q) (h : HasLaw Q keyHash db) (now : ℚ) (op : StoreOp) :
    HasLaw Q keyHash (op.exec now db).2 := by
  obtain ⟨heq, -⟩ | ⟨clientId, heq⟩ := exec_keys now db op
  · intro k hk
    rw [heq] at hk
    exact h k hk
  · rw [heq]
    exact h.update (fun _ => rfl) fun k => hQ.revokeClient k now

theorem apply (hQ : KeyLaw Q) (h : HasLaw Q keyHash db) {a : StoreAction F}
    (ha : ∀ id, a ≠ .createKey id keyHash) : HasLaw Q keyHash (a.apply r db) := by
  cases a with
  | createKey id newHash =>
    simp only [StoreAction.apply]
    split
    · rename_i db' hcreate
      obtain ⟨-, -, rfl⟩ := Db.createKey_ok hcreate
      intro k hk hkh
      rcases List.mem_append.mp hk with hk | hk
      · exact h k hk hkh
      · rw [List.mem_singleton.mp hk] at hkh
        exact absurd (congrArg (StoreAction.createKey id) hkh) (ha id)
    · exact h
  | attachKey keyId clientId =>
    simp only [StoreAction.apply]
    split
    · rename_i attached db' hattach
      obtain ⟨-, rfl⟩ | ⟨-, -, rfl⟩ := Db.attachKey_ok hattach
      · exact h
      · exact h.update (fun _ => rfl) fun k => hQ.attach k clientId
    · exact h
  | revokeKey keyId now => exact h.update (fun _ => rfl) fun k => hQ.revoke k now
  | purge keyId =>
    simp only [StoreAction.apply]
    split
    · intro k hk
      exact h k (List.mem_of_mem_filter hk)
    · exact h
  | revokeClientKeys clientId now => exact h.update (fun _ => rfl) fun k => hQ.revokeClient k now
  | setClientStatus clientId status => exact h
  | createClient id externalRef email =>
    simp only [StoreAction.apply]
    split
    · rename_i client db' hcreate
      rw [(Db.createClient_ok hcreate).2.2.2]
      exact h
    · exact h
  | upsertPlan p => exact h
  | recordUsage u => exact h
  | stripeEvent event uuid fates =>
    have hleads : (handleEvent r uuid event).Leads StoreOp.exec db
        fun db' _ => HasLaw Q keyHash db' :=
      Prog.leads_of_invariant (P := HasLaw Q keyHash) (fun now db op hdb => hQ.exec hdb now op) _ h
    exact hleads fates

theorem run (hQ : KeyLaw Q) {ls : List (StoreAction F)}
    (hrun : Run (StoreAction.step r) db ls db') (hls : ∀ id, .createKey id keyHash ∉ ls)
    (h : HasLaw Q keyHash db) : HasLaw Q keyHash db' := by
  induction hrun with
  | refl => exact h
  | @cons s s' t a ls hst _ ih =>
    cases hst
    refine ih (fun id hmem => hls id (List.mem_cons_of_mem a hmem)) (hQ.apply h fun id heq => ?_)
    exact hls id (heq ▸ List.mem_cons_self ..)

end KeyLaw

/-! ## Revoked and attached -/

theorem revoked_law : KeyLaw fun k => k.revokedAt.isSome = true where
  revoke _ _ _ := rfl
  revokeClient _ _ _ := rfl
  attach _ _ h := h

theorem owned_law : KeyLaw fun k => k.clientId.isSome = true where
  revoke _ _ h := h
  revokeClient _ _ h := h
  attach _ _ _ := rfl

/-- A statement that gives one row a property gives it to every row of its hash. -/
theorem hasLaw_of_update {p : KeyRow → Bool} {f : KeyRow → KeyRow} {k : KeyRow} (hdb : db.Valid)
    (hk : k ∈ db.keys) (hhash : ∀ k, (f k).keyHash = k.keyHash)
    (hQ : Q (if p k then f k else k)) :
    HasLaw Q k.keyHash { db with keys := Table.update p f db.keys } := by
  intro k' hk' hkh
  obtain ⟨k₀, hk₀, rfl⟩ := List.mem_map.mp hk'
  have hsame : k₀.keyHash = k.keyHash := by
    split at hkh
    · rw [← hhash k₀]
      exact hkh
    · exact hkh
  rw [List.inj_on_of_nodup_map hdb.keyHashes hk₀ hk hsame]
  exact hQ

theorem verify_revoked (h : HasLaw (fun k => k.revokedAt.isSome = true) keyHash db) :
    db.verify keyHash = none := by
  unfold Db.verify
  split
  · rfl
  · rename_i row hfind
    have hrow := h row (List.mem_of_find?_eq_some hfind) (by simpa using List.find?_some hfind)
    rw [if_pos hrow]

theorem verify_mem {row : KeyRow} (h : db.verify keyHash = some row) :
    row ∈ db.keys ∧ row.keyHash = keyHash := by
  unfold Db.verify at h
  split at h
  · cases h
  · rename_i row' hfind
    split at h
    · cases h
    · cases h
      exact ⟨List.mem_of_find?_eq_some hfind, by simpa using List.find?_some hfind⟩

/-- `db'` is the store after the key was revoked, by either of the two statements. -/
def Revokes (db : Db) (k : KeyRow) (db' : Db) : Prop :=
  (∃ now, db' = db.revoke k.id now) ∨
    ∃ clientId now, k.clientId = some clientId ∧ db' = db.revokeClientKeys clientId now

theorem Revokes.hasLaw {k : KeyRow} (h : Revokes db k db') (hdb : db.Valid) (hk : k ∈ db.keys) :
    HasLaw (fun k => k.revokedAt.isSome = true) k.keyHash db' := by
  obtain ⟨now, rfl⟩ | ⟨clientId, now, hclient, rfl⟩ := h
  · refine hasLaw_of_update hdb hk (fun _ => rfl) ?_
    cases hrev : k.revokedAt with
    | none => simp
    | some t => simp [hrev]
  · refine hasLaw_of_update hdb hk (fun _ => rfl) ?_
    cases hrev : k.revokedAt with
    | none => simp [hclient]
    | some t => simp [hrev]

theorem attachKey_hasLaw {k : KeyRow} {clientId : String} (hdb : db.Valid) (hk : k ∈ db.keys)
    (h : db.attachKey k.id clientId = .ok (true, db')) :
    HasLaw (fun k => k.clientId.isSome = true) k.keyHash db' := by
  obtain ⟨hfalse, -⟩ | ⟨-, -, rfl⟩ := Db.attachKey_ok h
  · cases hfalse
  · exact hasLaw_of_update hdb hk (fun _ => rfl) (by simp)

theorem authorizeToken_refused {g : Gateway} {req : AuthRequest} {ans : AuthAnswers}
    (hauth : g.settings.requireAuth = true) (hverified : ans.verified = .ok none) :
    ∃ e, (g.authorizeToken req ans).1 = .error e := by
  unfold Gateway.authorizeToken Gateway.authenticateToken
  rw [hverified, hauth]
  dsimp only
  split
  · exact ⟨_, rfl⟩
  · rename_i keyId hok
    exfalso
    split at hok
    · cases hok
    · cases hok

/-- The operator gate lets through only a token whose record is an operator's. -/
theorem operatorAccess_refused {settings : GatewaySettings} {hashToken : String → String}
    {token : String} (hauth : settings.requireAuth = true)
    (h : ∀ row, db.verify (hashToken token) = some row → row.role = .client) (loopback : Bool) :
    (operatorAccess settings hashToken db loopback (some token)).access ≠ .allowed := by
  unfold operatorAccess verifyToken
  simp only [Option.any_some, Option.getD_some, hauth]
  by_cases hempty : token.isEmpty
  · simp [hempty]
  · simp only [hempty, Bool.not_false, Bool.false_eq_true, ite_true, ite_false]
    cases hverify : db.verify (hashToken token) with
    | none => simp
    | some row => simp [h row hverify]

theorem verifyToken_revoked {hashToken : String → String} {token : String}
    (h : HasLaw (fun k => k.revokedAt.isSome = true) (hashToken token) db) :
    verifyToken hashToken db token = none := by
  unfold verifyToken
  rw [verify_revoked h, ite_self]

/-- With authentication required, and after any later operations that create no key of the same
hash: the token of a revoked key is refused, and an attached key is a client's. -/
theorem keys_final {F : Type} (r : Render F) (hashToken : String → String) (token : String)
    {db : Db} {k : KeyRow} (hdb : db.Valid) (hk : k ∈ db.keys) (hhash : k.keyHash = hashToken token)
    {g : Gateway} (hauth : g.settings.requireAuth = true) {ls : List (StoreAction F)}
    (hls : ∀ id, .createKey id (hashToken token) ∉ ls) :
    (∀ db₁ db₂, Revokes db k db₁ → Run (StoreAction.step r) db₁ ls db₂ →
      (∀ req ans, req.token = some token →
        ans.verified = .ok ((verifyToken hashToken db₂ token).map (·.id)) →
        ∃ e, (g.authorizeToken req ans).1 = .error e) ∧
      ∀ loopback,
        (operatorAccess g.settings hashToken db₂ loopback (some token)).access ≠ .allowed) ∧
    ∀ clientId db₁ db₂, db.attachKey k.id clientId = .ok (true, db₁) →
      Run (StoreAction.step r) db₁ ls db₂ →
      (∀ k' ∈ db₂.keys, k'.keyHash = k.keyHash → k'.role = .client) ∧
      ∀ loopback,
        (operatorAccess g.settings hashToken db₂ loopback (some token)).access ≠ .allowed := by
  constructor
  · intro db₁ db₂ hrev hrun
    have hlaw : HasLaw (fun k => k.revokedAt.isSome = true) (hashToken token) db₂ := by
      apply revoked_law.run hrun hls
      rw [← hhash]
      exact hrev.hasLaw hdb hk
    constructor
    · intro req ans _ hverified
      rw [verifyToken_revoked hlaw] at hverified
      exact authorizeToken_refused hauth hverified
    · apply operatorAccess_refused hauth
      intro row hrow
      rw [verify_revoked hlaw] at hrow
      cases hrow
  · intro clientId db₁ db₂ hattach hrun
    have hlaw : HasLaw (fun k => k.clientId.isSome = true) (hashToken token) db₂ := by
      apply owned_law.run hrun hls
      rw [← hhash]
      exact attachKey_hasLaw hdb hk hattach
    have hrole : ∀ k' ∈ db₂.keys, k'.keyHash = hashToken token → k'.role = .client := by
      intro k' hk' hkh
      unfold KeyRow.role
      rw [if_pos (hlaw k' hk' hkh)]
    constructor
    · rw [hhash]
      exact hrole
    · apply operatorAccess_refused hauth
      intro row hrow
      obtain ⟨hmem, hkh⟩ := verify_mem hrow
      exact hrole row hmem hkh

/-- A canceled client with one key. -/
def keyStore : Db where
  clients := [{ id := "c1", externalRef := some "cus_1", email := none, status := .canceled }]
  keys := [{ id := "k1", keyHash := "token-1", clientId := some "c1" }]

theorem keyStore_valid : keyStore.Valid := by constructor <;> simp [keyStore]

def authRequired : GatewaySettings where
  requireAuth := true
  quota5hCu := 0
  quotaWeeklyCu := 0
  rateLimitPerMin := 0
  maxConcurrentPerKey := 0

/-- A late subscription makes the client of a revoked key active again. -/
theorem keys_final_late :
    (StoreAction.apply .plain (keyStore.revokeClientKeys "c1" 5)
        (.stripeEvent firstSubscription.items "c2" (List.replicate 4 (.ok 6)))).clients.map
        (·.status) =
      [.active] ∧
    (operatorAccess authRequired id (StoreAction.apply .plain (keyStore.revokeClientKeys "c1" 5)
        (.stripeEvent firstSubscription.items "c2" (List.replicate 4 (.ok 6)))) true
      (some "token-1")).access ≠ .allowed := by
  refine ⟨by decide +kernel, ?_⟩
  have hmem : { id := "k1", keyHash := "token-1", clientId := some "c1" } ∈ keyStore.keys :=
    List.mem_singleton_self _
  refine ((keys_final .plain id "token-1"
    (g := .init authRequired) keyStore_valid hmem rfl rfl ?_).1 _ _ (.inr ⟨"c1", 5, rfl, rfl⟩)
    (.single rfl)).2 true
  intro id hid
  rw [List.mem_singleton] at hid
  cases hid

end InferenceEngine
