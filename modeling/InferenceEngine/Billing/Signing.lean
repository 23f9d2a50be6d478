import Mathlib.Data.Bool.AllAny
import InferenceEngine.Lib.Base64
import InferenceEngine.Lib.PyStr
import InferenceEngine.Billing.DeliveryLoop

/-!
# Billing.Signing

The signatures of outbound webhooks (`billing/webhooks/signing.py`) and the secrets they are made
with. An endpoint has one secret without an expiry; `rotate_secret` lets it expire after a grace
period and adds the next one. A delivery is signed with every secret that is active, and a receiver
that verifies with one of them accepts it. HMAC-SHA256 is a parameter.

* `verify_signatureHeader`: the parser of the header undoes its builder.
* `rows_history`: the secrets of an endpoint after any operations on the store.
* `rotated_secrets`: which of them are active, and which of them verify.
-/

namespace InferenceEngine

section

variable (hmac : List UInt8 → List UInt8 → List UInt8)

def secretPrefix : List Char := ['w', 'h', 's', 'e', 'c', '_']

def utf8 (cs : List Char) : List UInt8 := cs.flatMap String.utf8EncodeChar

def secretBytes (secret : String) : List UInt8 :=
  let body := if secretPrefix.isPrefixOf secret.toList then secret.toList.drop secretPrefix.length
    else secret.toList
  (Base64.decode body).getD (utf8 body)

def sign (secret msgId : String) (timestamp : Int) (body : String) : String :=
  let signedContent := utf8 (msgId ++ "." ++ toString timestamp ++ "." ++ body).toList
  .ofList (Base64.encode (hmac (secretBytes secret) signedContent))

/-- `hmac.compare_digest` of two strings. -/
def compareDigest (a b : List Char) : Except Exc Bool :=
  if (a ++ b).all fun c => c.toNat < 128 then .ok (a == b)
  else .error (.other "comparing strings with non-ASCII characters is not supported")

/-- The loop of `verify` over the tokens of the header. -/
def verifyTokens (expected : List Char) (ok : Bool) : List (List Char) → Except Exc Bool
  | [] => .ok ok
  | token :: tokens =>
    let (version, value) := Py.partition ',' token
    if version = ['v', '1'] then
      match compareDigest value expected with
      | .error e => .error e
      | .ok equal => verifyTokens expected (if equal then true else ok) tokens
    else verifyTokens expected ok tokens

def verify (secret header msgId : String) (timestamp : Int) (body : String) : Except Exc Bool :=
  verifyTokens (sign hmac secret msgId timestamp body).toList false (Py.split header.toList)

/-! ## The header -/

variable {hmac}

theorem sign_clean {secret msgId body : String} {timestamp : Int} {c : Char}
    (hc : c ∈ (sign hmac secret msgId timestamp body).toList) :
    Py.isSpace c = false ∧ c.toNat < 128 := by
  unfold sign at hc
  rw [String.toList_ofList] at hc
  rcases Base64.mem_encode hc with rfl | ⟨n, hn, rfl⟩
  · decide
  · have hspace : ∀ n < 64, Py.isSpace (Base64.char n) = false := by decide
    exact ⟨hspace n hn, Base64.toNat_char_lt hn⟩

theorem verifyTokens_signed {expected : List Char} (hexpected : ∀ c ∈ expected, c.toNat < 128)
    {values : List (List Char)} (hvalues : ∀ value ∈ values, ∀ c ∈ value,
      c.toNat < 128) (ok : Bool) :
    verifyTokens expected ok (values.map (['v', '1', ','] ++ ·)) =
      .ok (ok || decide (expected ∈ values)) := by
  induction values generalizing ok with
  | nil => simp [verifyTokens]
  | cons value values ih =>
    have ih := ih (fun v hv => hvalues v (List.mem_cons_of_mem value hv))
        (if value == expected then true else ok)
    have hsplit : Py.partition ',' (['v', '1', ','] ++ value) = (['v', '1'], value) :=
      @Py.partition_append ',' ['v', '1'] (by decide) value
    have hdigest : compareDigest value expected = .ok (value == expected) := by
      refine if_pos ?_
      rw [List.all_eq_true]
      intro c hc
      rcases List.mem_append.mp hc with hc | hc
      · simpa using hvalues value (List.mem_cons_self ..) c hc
      · simpa using hexpected c hc
    rw [List.map_cons, verifyTokens, hsplit]
    simp only [if_true, hdigest, ih, List.mem_cons]
    by_cases heq : value = expected
    · simp [heq]
    · have hne : ¬ expected = value := fun h => heq h.symm
      simp [heq, hne]

/-- The header verifies with a secret exactly when it has a signature of it. -/
theorem verify_signatureHeader (secret : String) (secrets : List String) (msgId : String)
    (timestamp : Int) (body : String) :
    verify hmac secret (signatureHeader
      (sign hmac) secrets msgId timestamp body) msgId timestamp body =
      .ok (decide (∃ s ∈ secrets,
        sign hmac s msgId timestamp body = sign hmac secret msgId timestamp body)) := by
  have hheader : (signatureHeader (sign hmac) secrets msgId timestamp body).toList =
      [' '].intercalate (secrets.map fun s =>
        ['v', '1', ','] ++ (sign hmac s msgId timestamp body).toList) := by
    unfold signatureHeader
    rw [String.toList_intercalate, List.map_map]
    refine congrArg _ (List.map_congr_left fun s _ => ?_)
    rw [Function.comp_apply, String.toList_append]
    rfl
  have hwords : ∀ word ∈ secrets.map (fun s =>
      ['v', '1', ','] ++ (sign hmac s msgId timestamp body).toList),
      word ≠ [] ∧ ∀ c ∈ word, Py.isSpace c = false := by
    intro word hword
    obtain ⟨s, -, rfl⟩ := List.mem_map.mp hword
    refine ⟨List.cons_ne_nil _ _, fun c hc => ?_⟩
    rcases List.mem_append.mp hc with hc | hc
    · have hversion : ∀ c ∈ ['v', '1', ','], Py.isSpace c = false := List.all_iff_forall_prop.mp rfl
      exact hversion c hc
    · exact (sign_clean hc).1
  have htokens : (secrets.map fun s => ['v', '1', ','] ++
      (sign hmac s msgId timestamp body).toList) =
      (secrets.map fun s => (sign hmac s msgId timestamp body).toList).map
        (['v', '1', ','] ++ ·) := by
    rw [List.map_map]
    rfl
  unfold verify
  rw [hheader, Py.split_intercalate hwords, htokens,
    verifyTokens_signed fun c hc => (sign_clean hc).2]
  · rw [Bool.false_or]
    congr 2
    simp only [List.mem_map, String.toList_inj]
  · intro value hvalue c hc
    obtain ⟨s, -, rfl⟩ := List.mem_map.mp hvalue
    exact (sign_clean hc).2

end

/-! ## Rotations -/

/-- A call of `rotate_secret`, with the secret it generates. -/
structure Rotation where
  now : ℚ
  graceS : ℚ
  secret : String
  /-- an ISO time -/
  createdAt : String
  deriving DecidableEq, Repr

inductive WebhookOp where
  | createEndpoint (endpoint : Endpoint) (secret createdAt : String)
  | setDisabled (endpointId : String) (disabled : Bool)
  | deleteEndpoint (endpointId : String)
  | rotateSecret (endpointId : String) (r : Rotation)
  | insertDelivery (id endpointId payload : String) (now : ℚ)
  | update (deliveryId : String) (o : WebhookStore.Outcome) (now : ℚ)
  | replay (deliveryId : String) (now : ℚ)
  deriving DecidableEq, Repr

namespace WebhookOp

def apply (store : WebhookStore) : WebhookOp → WebhookStore
  | .createEndpoint endpoint secret createdAt => store.createEndpoint endpoint secret createdAt
  | .setDisabled endpointId disabled => store.setDisabled endpointId disabled
  | .deleteEndpoint endpointId => store.deleteEndpoint endpointId
  | .rotateSecret endpointId r => store.rotateSecret endpointId r.graceS r.now r.secret r.createdAt
  | .insertDelivery id endpointId payload now => store.insertDelivery id endpointId payload now
  | .update deliveryId o now => store.update deliveryId o now
  | .replay deliveryId now => (store.replay deliveryId now).2

/-- It does not delete the endpoint, and creates no other one with its id. -/
def keeps (endpointId : String) : WebhookOp → Bool
  | .createEndpoint endpoint _ _ => endpoint.id != endpointId
  | .deleteEndpoint id => id != endpointId
  | _ => true

/-- The rotation of the endpoint that it is. -/
def rotation? (endpointId : String) : WebhookOp → Option Rotation
  | .rotateSecret id r => if id = endpointId then some r else none
  | _ => none

end WebhookOp

/-- The rotations of one endpoint among all operations. -/
def rotations (endpointId : String) (ops : List WebhookOp) : List Rotation :=
  ops.filterMap (·.rotation? endpointId)

/-- The secrets that the rotations leave, the oldest first, each with its expiry. -/
def history (secret : String) : List Rotation → List (String × Option ℚ)
  | [] => [(secret, none)]
  | r :: rs => (secret, some (r.now + r.graceS)) :: history r.secret rs

/-- The secret of the last rotation. -/
def newest (first : String) (rs : List Rotation) : String := (rs.getLast?.map (·.secret)).getD first

/-- The row that a rotation makes of one without an expiry. -/
def lapse (r : Rotation) (k : String × Option ℚ) : String × Option ℚ :=
  if k.2.isNone then (k.1, some (r.now + r.graceS)) else k

theorem history_concat (secret : String) (rs : List Rotation) (r : Rotation) :
    history secret (rs ++ [r]) = (history secret rs).map (lapse r) ++ [(r.secret, none)] := by
  induction rs generalizing secret with
  | nil => rfl
  | cons r' rs ih =>
    rw [List.cons_append, history, ih, history, List.map_cons, List.cons_append]
    rfl

theorem history_fst (secret : String) (rs : List Rotation) :
    (history secret rs).map (·.1) = secret :: rs.map (·.secret) := by
  induction rs generalizing secret with
  | nil => rfl
  | cons r rs ih => rw [history, List.map_cons, ih, List.map_cons]

theorem history_current (secret : String) (rs : List Rotation) :
    (history secret rs).filter (·.2.isNone) = [(newest secret rs, none)] := by
  induction rs generalizing secret with
  | nil => rfl
  | cons r rs ih =>
    rw [history, List.filter_cons_of_neg (by simp), ih]
    unfold newest
    rw [List.getLast?_cons]
    cases rs.getLast? with
    | none => rfl
    | some r' => rfl

theorem mem_history {secret s : String} {rs : List Rotation} {i : Nat} {r : Rotation}
    (hr : rs[i]? = some r) (hs : (secret :: rs.map (·.secret))[i]? = some s) :
    (s, some (r.now + r.graceS)) ∈ history secret rs := by
  induction rs generalizing secret i with
  | nil => cases hr
  | cons r' rs ih =>
    cases i with
    | zero =>
      cases hr
      cases hs
      exact List.mem_cons_self ..
    | succ i =>
      refine List.mem_cons_of_mem _ (ih hr ?_)
      simpa using hs

namespace WebhookStore

variable (store : WebhookStore) (endpointId : String)

/-- The secrets of an endpoint with their expiries, the oldest first. -/
def keys : List (String × Option ℚ) :=
  (store.secrets.filter fun k => k.endpointId = endpointId).map fun k => (k.secret, k.expiresAt)

variable {store endpointId}

theorem mem_activeSecrets {now : ℚ} {s : String} :
    s ∈ store.activeSecrets endpointId now ↔
      ∃ x, (s, x) ∈ store.keys endpointId ∧ x.all (now < ·) = true := by
  unfold activeSecrets keys
  simp only [List.mem_map, List.mem_insertionSort, List.mem_filter, Bool.and_eq_true, Prod.mk.injEq,
    decide_eq_true_eq]
  constructor
  · rintro ⟨k, ⟨hk, hid, hx⟩, rfl⟩
    exact ⟨k.expiresAt, ⟨k, ⟨hk, hid⟩, rfl, rfl⟩, hx⟩
  · rintro ⟨x, ⟨k, ⟨hk, hid⟩, rfl, rfl⟩, hx⟩
    exact ⟨k, ⟨hk, hid, hx⟩, rfl⟩

theorem keys_rotateSecret (r : Rotation) :
    (store.rotateSecret endpointId r.graceS r.now r.secret r.createdAt).keys endpointId =
      (store.keys endpointId).map (lapse r) ++ [(r.secret, none)] := by
  unfold keys rotateSecret
  rw [List.filter_append, List.map_append, Table.filter_update_comm]
  congr 1
  · unfold Table.update
    rw [List.map_map, List.map_map]
    refine List.map_congr_left fun k hk => ?_
    have hid : k.endpointId = endpointId := by simpa using (List.mem_filter.mp hk).2
    cases hx : k.expiresAt with
    | none => simp [hid, hx, lapse]
    | some x => simp [hx, lapse]
  · simp
  · exact fun k _ => rfl

/-- Nothing but its own rotations changes the secrets of an endpoint that is kept. -/
theorem keys_apply_other {op : WebhookOp} (hkeeps : op.keeps endpointId = true)
    (hrotation : op.rotation? endpointId = none) :
    (op.apply store).keys endpointId = store.keys endpointId := by
  cases op with
  | createEndpoint endpoint secret createdAt =>
    have hne : endpoint.id ≠ endpointId := by simpa [WebhookOp.keeps] using hkeeps
    simp [WebhookOp.apply, WebhookStore.createEndpoint, keys, hne]
  | deleteEndpoint id =>
    have hne : id ≠ endpointId := by simpa [WebhookOp.keeps] using hkeeps
    unfold keys
    show List.map _ (List.filter _ (List.filter _ store.secrets)) = _
    rw [List.filter_filter]
    refine congrArg _ (List.filter_congr fun k _ => ?_)
    by_cases hid : k.endpointId = endpointId
    · simp [hid, hne.symm]
    · simp [hid]
  | rotateSecret id r =>
    have hne : id ≠ endpointId := by simpa [WebhookOp.rotation?] using hrotation
    unfold keys
    show List.map _ (List.filter _ (Table.update _ _ store.secrets ++ _)) = _
    rw [List.filter_append, Table.filter_update]
    · simp [hne]
    · intro k _ hk
      have hid : k.endpointId = id := by
        rw [Bool.and_eq_true, decide_eq_true_eq] at hk
        exact hk.1
      simp [hid, hne]
  | insertDelivery id endpointId payload now =>
    unfold keys
    show List.map _ (List.filter _ (store.insertDelivery id endpointId payload now).secrets) = _
    unfold WebhookStore.insertDelivery
    split
    · rfl
    · rfl
  | setDisabled id disabled => rfl
  | update deliveryId o now => rfl
  | replay deliveryId now => rfl

end WebhookStore

theorem rows_history {store : WebhookStore} {endpoint : Endpoint} {first createdAt : String}
    {ops : List WebhookOp} (hnew : ∀ k ∈ store.secrets, k.endpointId ≠ endpoint.id)
    (hkept : ∀ op ∈ ops, op.keeps endpoint.id = true) :
    (ops.foldl WebhookOp.apply (store.createEndpoint endpoint first createdAt)).keys endpoint.id =
      history first (rotations endpoint.id ops) := by
  induction ops using List.reverseRecOn with
  | nil =>
    have hnone : (store.secrets.filter fun k => k.endpointId = endpoint.id) = [] := by
      rw [List.filter_eq_nil_iff]
      intro k hk
      simpa using hnew k hk
    simp [WebhookStore.keys, WebhookStore.createEndpoint, hnone, rotations, history]
  | append_singleton ops op ih =>
    have ih := ih fun op' hop' => hkept op' (List.mem_append_left _ hop')
    have hop := hkept op (List.mem_append_right _ (List.mem_singleton_self op))
    rw [List.foldl_append, List.foldl_cons, List.foldl_nil]
    unfold rotations at ih ⊢
    rw [List.filterMap_append]
    cases hrotation : op.rotation? endpoint.id with
    | none => rw [WebhookStore.keys_apply_other hop hrotation, ih]; simp [hrotation]
    | some r =>
      have hop : op = .rotateSecret endpoint.id r := by
        cases op with
        | rotateSecret id r' =>
          simp only [WebhookOp.rotation?] at hrotation
          split at hrotation <;> cases hrotation
          rename_i hid
          rw [hid]
        | _ => cases hrotation
      have hlast : [op].filterMap (·.rotation? endpoint.id) = [r] := by simp [hrotation]
      rw [hlast, history_concat, ← ih, hop]
      exact WebhookStore.keys_rotateSecret r

/-- The secrets of an endpoint after rotations, and what verifies with them. -/
structure Rotated (hmac : List UInt8 → List UInt8 → List UInt8) (store : WebhookStore)
    (endpointId first : String) (rs : List Rotation) : Prop where
  /-- one has no expiry, the newest -/
  current : (store.secrets.filter fun k => k.endpointId = endpointId && k.expiresAt.isNone).map
    (·.secret) = [newest first rs]
  latest : ∀ now, newest first rs ∈ store.activeSecrets endpointId now
  /-- the i-th is active until the grace of the rotation that has followed it is over -/
  earlier : ∀ (now : ℚ) (i : Nat) (r : Rotation) (s : String), rs[i]? = some r →
    (first :: rs.map (·.secret))[i]? = some s →
    (s ∈ store.activeSecrets endpointId now ↔ now < r.now + r.graceS)
  only : ∀ now, ∀ s ∈ store.activeSecrets endpointId now, s ∈ first :: rs.map (·.secret)
  verifies : ∀ now s msgId timestamp body,
    (∀ s' ∈ store.activeSecrets endpointId now, s' ≠ s →
      sign hmac s' msgId timestamp body ≠ sign hmac s msgId timestamp body) →
    verify hmac s (signatureHeader (sign hmac)
      (store.activeSecrets endpointId now) msgId timestamp body)
      msgId timestamp body = .ok (decide (s ∈ store.activeSecrets endpointId now))

section

variable {hmac : List UInt8 → List UInt8 → List UInt8} {store : WebhookStore}
  {endpointId first : String} {rs : List Rotation}

theorem current_of_history (h : store.keys endpointId = history first rs) :
    (store.secrets.filter fun k => k.endpointId = endpointId && k.expiresAt.isNone).map (·.secret) =
      [newest first rs] := by
  have hcurrent := history_current first rs
  rw [← h] at hcurrent
  unfold WebhookStore.keys at hcurrent
  rw [List.filter_map, List.filter_filter] at hcurrent
  have hsecrets := congrArg (List.map (·.1)) hcurrent
  rw [List.map_map] at hsecrets
  rw [List.filter_congr fun k _ => Bool.and_comm ..]
  exact hsecrets

/-- With distinct secrets, one of them is active by its own expiry. -/
theorem active_iff_of_history (h : store.keys endpointId = history first rs)
    (hdistinct : (first :: rs.map (·.secret)).Nodup) {now : ℚ} {s : String} {x : Option ℚ}
    (hs : (s, x) ∈ history first rs) :
    s ∈ store.activeSecrets endpointId now ↔ x.all (now < ·) = true := by
  rw [WebhookStore.mem_activeSecrets, h]
  constructor
  · rintro ⟨y, hy, hactive⟩
    rw [← history_fst] at hdistinct
    have heq := List.inj_on_of_nodup_map hdistinct hs hy rfl
    rw [(Prod.mk.inj heq).2]
    exact hactive
  · exact fun hactive => ⟨x, hs, hactive⟩

theorem verifies_iff_active {active : List String} {s msgId body : String} {timestamp : Int}
    (hdiffer : ∀ s' ∈ active, s' ≠ s →
      sign hmac s' msgId timestamp body ≠ sign hmac s msgId timestamp body) :
    verify hmac s (signatureHeader (sign hmac) active msgId timestamp body) msgId timestamp body =
      .ok (decide (s ∈ active)) := by
  rw [verify_signatureHeader]
  congr 2
  rw [eq_iff_iff]
  constructor
  · rintro ⟨s', hs', heq⟩
    by_cases hne : s' = s
    · rwa [← hne]
    · exact absurd heq (hdiffer s' hs' hne)
  · exact fun hs => ⟨s, hs, rfl⟩

/-- For every endpoint and every sequence of operations on the store that does not delete it, its
rotations among them, in any order of their times and with any grace: exactly one of its secrets has
no expiry, the newest; every earlier one is active exactly until the time of its rotation plus the
grace; and the header of a delivery verifies with a secret exactly when that is active. -/
theorem rotated_secrets (hmac : List UInt8 → List UInt8 → List UInt8) (store : WebhookStore)
    (endpoint : Endpoint) (first createdAt : String) (ops : List WebhookOp)
    (hnew : ∀ k ∈ store.secrets, k.endpointId ≠ endpoint.id)
    (hkept : ∀ op ∈ ops, op.keeps endpoint.id = true)
    (hdistinct : (first :: (rotations endpoint.id ops).map (·.secret)).Nodup) :
    Rotated hmac (ops.foldl WebhookOp.apply
      (store.createEndpoint endpoint first createdAt)) endpoint.id
      first (rotations endpoint.id ops) := by
  have hkeys : (ops.foldl WebhookOp.apply (store.createEndpoint endpoint first createdAt)).keys
      endpoint.id = history first (rotations endpoint.id ops) := rows_history hnew hkept
  generalize ops.foldl WebhookOp.apply
    (store.createEndpoint endpoint first createdAt) = after at hkeys ⊢
  generalize rotations endpoint.id ops = rs at hkeys hdistinct ⊢
  have hnewest : (newest first rs, none) ∈ (history first rs).filter (·.2.isNone) := by
    rw [history_current]
    exact List.mem_singleton_self _
  constructor
  case current => exact current_of_history hkeys
  case latest =>
    intro now
    rw [active_iff_of_history hkeys hdistinct (List.mem_filter.mp hnewest).1]
    rfl
  case earlier =>
    intro now i r s hr hs
    rw [active_iff_of_history hkeys hdistinct (mem_history hr hs), Option.all_some,
      decide_eq_true_eq]
  case only =>
    intro now s hs
    obtain ⟨x, hx, -⟩ := WebhookStore.mem_activeSecrets.mp hs
    rw [hkeys] at hx
    rw [← history_fst]
    exact List.mem_map.mpr ⟨(s, x), hx, rfl⟩
  case verifies => exact fun now s msgId timestamp body hdiffer => verifies_iff_active hdiffer

end

/-- The secret that an endpoint begins with, and the one it is rotated to. -/
def firstSecret : String := "whsec_AQIDBAUGBwgJCgsMDQ4PEBESExQVFhcY"

def secondSecret : String := "whsec_HyAhIiMkJSYnKCkqKywtLi8wMTIzNDU2"

/-- HMAC-SHA256 with these two keys, of `d1.120.`. -/
def digests (key content : List UInt8) : List UInt8 :=
  if content ≠ utf8 "d1.120.".toList then []
  else if key = secretBytes firstSecret then
    [57, 43, 214, 238, 54, 100, 151, 179, 16, 28, 4, 165, 205, 253, 180, 193, 23, 11, 219, 250,
      176, 212, 216, 237, 110, 195, 219, 120, 68, 202, 120, 162]
  else if key = secretBytes secondSecret then
    [225, 231, 14, 133, 234, 57, 21, 104, 69, 152, 99, 193, 62, 93, 2, 60, 136, 149, 103, 77, 127,
      96, 14, 210, 202, 168, 187, 120, 25, 23, 115, 110]
  else []

/-- A rotation at 100 with a grace of 50 seconds, among operations on another endpoint. -/
def oneRotation : List WebhookOp :=
  [.createEndpoint { id := "e2", url := "https://b.example.com" } "whsec_AAAA" "2026-01-01",
    .rotateSecret "e1" ⟨100, 50, secondSecret, "2026-01-02"⟩,
    .rotateSecret "e2" ⟨110, 0, "whsec_BBBB", "2026-01-03"⟩]

theorem rotated_secrets_oneRotation :
    let store : WebhookStore := ⟨[], [], [], List.nodup_nil⟩
    let after := oneRotation.foldl WebhookOp.apply
      (store.createEndpoint { id := "e1", url := "https://a.example.com" } firstSecret "2026-01-01")
    (∀ now, firstSecret ∈ after.activeSecrets "e1" now ↔ now < 150) ∧
      verify digests firstSecret
        (signatureHeader (sign digests) (after.activeSecrets "e1" 120) "d1" 120 "")
        "d1" 120 "" = .ok true := by
  have h := rotated_secrets digests ⟨[], [], [], List.nodup_nil⟩
    { id := "e1", url := "https://a.example.com" } firstSecret "2026-01-01" oneRotation (by decide)
    (by decide +kernel) (by decide +kernel)
  constructor
  · intro now
    have hiff := h.earlier now 0 ⟨100, 50, secondSecret, "2026-01-02"⟩ firstSecret
        (by decide +kernel)
      (by decide +kernel)
    norm_num at hiff
    exact hiff
  · rw [h.verifies 120 firstSecret "d1" 120 "" (by decide +kernel)]
    decide +kernel

end InferenceEngine
