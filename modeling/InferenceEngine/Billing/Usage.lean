import InferenceEngine.Billing.Keys

/-!
# Billing.Usage

The usage of a client: `client_usage_cu` joins `usage_events` with `api_keys`, so it counts what the
keys that are there now have spent. A purge takes the row of a key and leaves its usage rows, which
then belong to nobody.

* `apply_cases`: what an operation does to the two tables of the join.
* `usage_kept_iff_guarded`: in a run the usage of a client never decreases, and revoking and purging
  do not touch it, exactly when no purge takes a key of the client that has spent anything in the
  window, and no usage that comes to the client is negative.
-/

namespace InferenceEngine

open Effect Json Lts

namespace Db

/-- Which client has which key. -/
def owners (db : Db) : List (String × Option String) := db.keys.map fun k => (k.id, k.clientId)

/-- How often the join finds a key of the client: at most once. -/
def attached (db : Db) (clientId keyId : String) : Nat := db.owners.count (keyId, some clientId)

/-- The guards of `_on_usage_recorded`. -/
def thresholdReached (db : Db) (clientId : String) (windowStart pct : ℚ) (quotaWeeklyCu : Quota) :
    Bool :=
  0 < quotaWeeklyCu && !(((db.clientUsageCu clientId windowStart : ℚ) : Quota) <
    quotaWeeklyCu.map (pct * ·))

/-- `PRIMARY KEY (id)`. -/
def KeyIds (db : Db) : Prop := (db.owners.map (·.1)).Nodup

variable {db db' : Db} {clientId keyId : String} {since : ℚ}

theorem owners_revoke (db : Db) (keyId : String) (now : ℚ) :
    (db.revoke keyId now).owners = db.owners := Table.map_update _ fun _ _ _ => rfl

theorem owners_revokeClientKeys (db : Db) (clientId : String) (now : ℚ) :
    (db.revokeClientKeys clientId now).owners = db.owners := Table.map_update _ fun _ _ _ => rfl

/-! ## The sum -/

theorem clientUsageCu_eq (db : Db) (clientId : String) (since : ℚ) :
    db.clientUsageCu clientId since =
      ((db.usage.filter fun u => since ≤ u.ts).map
        fun u => (db.attached clientId u.keyId : ℚ) * u.cu).sum := by
  unfold clientUsageCu clientUsage
  induction db.usage with
  | nil => rfl
  | cons u rows ih =>
    rw [List.flatMap_cons, List.map_append, List.sum_append, ih]
    have hcount : (db.keys.filter fun k =>
        u.keyId = k.id && k.clientId = some clientId && since ≤ u.ts).length =
        if since ≤ u.ts then db.attached clientId u.keyId else 0 := by
      unfold attached owners List.count
      rw [List.countP_map, ← List.countP_eq_length_filter]
      split
      · rename_i hts
        refine List.countP_congr fun k _ => ?_
        simp only [hts, decide_true, Bool.and_true, Bool.and_eq_true, decide_eq_true_eq,
          Function.comp_apply, beq_iff_eq, Prod.mk.injEq]
        exact and_congr_left' eq_comm
      · rename_i hts
        simp [hts]
    rw [List.map_const', List.map_replicate, List.sum_replicate, nsmul_eq_mul, hcount]
    by_cases hts : since ≤ u.ts
    · simp [hts]
    · simp [hts]

theorem clientUsageCu_congr (husage : db'.usage = db.usage)
    (hattached : ∀ i, db'.attached clientId i = db.attached clientId i) :
    db'.clientUsageCu clientId since = db.clientUsageCu clientId since := by
  rw [clientUsageCu_eq, clientUsageCu_eq, husage]
  simp only [hattached]

/-- The key `keyId` has come to the client or gone from it. -/
theorem clientUsageCu_of_others (husage : db'.usage = db.usage)
    (hothers : ∀ i, i ≠ keyId → db'.attached clientId i = db.attached clientId i) :
    db'.clientUsageCu clientId since = db.clientUsageCu clientId since +
      ((db'.attached clientId keyId : ℚ) - db.attached clientId keyId) * sumCu db.usage keyId since := by
  rw [clientUsageCu_eq, clientUsageCu_eq, husage]
  simp only [sumCu]
  induction db.usage with
  | nil => simp
  | cons u rows ih =>
    by_cases hts : since ≤ u.ts
    · by_cases hkey : u.keyId = keyId
      · simp only [List.filter_cons, hts, hkey, decide_true, and_self, if_true, List.map_cons,
          List.sum_cons, ih]
        ring
      · simp only [List.filter_cons, hts, hkey, decide_true, false_and, decide_false, if_true,
          Bool.false_eq_true, if_false, List.map_cons, List.sum_cons, ih, hothers _ hkey]
        ring
    · simpa [List.filter_cons, hts] using ih

theorem clientUsageCu_record (db : Db) (u : UsageEvent) :
    clientUsageCu { db with usage := db.usage ++ [u] } clientId since =
      db.clientUsageCu clientId since +
        if since ≤ u.ts then (db.attached clientId u.keyId : ℚ) * u.cu else 0 := by
  rw [clientUsageCu_eq, clientUsageCu_eq, List.filter_append, List.map_append, List.sum_append]
  congr 1
  split
  · rename_i hts
    simp [hts, attached, owners]
  · rename_i hts
    simp [hts]

theorem attached_deleteKey (db : Db) (clientId keyId i : String) :
    (db.deleteKey keyId).attached clientId i = if i = keyId then 0 else db.attached clientId i := by
  have howners : (db.deleteKey keyId).owners = db.owners.filter fun o => o.1 ≠ keyId := by
    unfold owners deleteKey
    rw [List.filter_map]
    rfl
  unfold attached
  rw [howners]
  split
  · rename_i hi
    rw [List.count_eq_zero]
    intro hmem
    simpa [hi] using List.of_mem_filter hmem
  · rename_i hi
    exact List.count_filter (by simpa using hi)

theorem attached_of_mem {owner : Option String} (hdb : db.KeyIds) (h : (keyId, owner) ∈ db.owners) :
    db.attached clientId keyId = if owner = some clientId then 1 else 0 := by
  unfold attached
  split
  · rename_i hclient
    rw [hclient] at h
    exact List.count_eq_one_of_mem (List.Nodup.of_map _ hdb) h
  · rename_i hclient
    rw [List.count_eq_zero]
    intro hmem
    have hsame := List.inj_on_of_nodup_map hdb h hmem rfl
    exact hclient (Prod.mk.inj hsame).2

theorem mem_owners {k : KeyRow} (hk : db.getKey keyId = some k) :
    (keyId, k.clientId) ∈ db.owners := by
  have hid : k.id = keyId := by simpa using List.find?_some hk
  exact List.mem_map.mpr ⟨k, List.mem_of_find?_eq_some hk, by rw [hid]⟩

theorem attached_getKey {k : KeyRow} (hdb : db.KeyIds) (hk : db.getKey keyId = some k) :
    db.attached clientId keyId = if k.clientId = some clientId then 1 else 0 :=
  attached_of_mem hdb (mem_owners hk)

theorem attached_getKey_none (hk : db.getKey keyId = none) : db.attached clientId keyId = 0 := by
  unfold attached
  rw [List.count_eq_zero]
  intro hmem
  obtain ⟨k, hk', heq⟩ := List.mem_map.mp hmem
  exact List.find?_eq_none.mp hk k hk' (by simp [(Prod.mk.inj heq).1])

theorem clientUsageCu_deleteKey {k : KeyRow} (hdb : db.KeyIds) (hk : db.getKey keyId = some k) :
    (db.deleteKey keyId).clientUsageCu clientId since = db.clientUsageCu clientId since -
      if k.clientId = some clientId then sumCu db.usage keyId since else 0 := by
  have hothers (i : String) (hi : i ≠ keyId) :
      (db.deleteKey keyId).attached clientId i = db.attached clientId i := by
    rw [attached_deleteKey, if_neg hi]
  have husage : (db.deleteKey keyId).usage = db.usage := rfl
  rw [clientUsageCu_of_others husage hothers,
    attached_deleteKey, if_pos rfl, attached_getKey hdb hk]
  split
  · push_cast
    ring
  · simp

theorem clientUsageCu_attach {k : KeyRow} (hdb : db.KeyIds) (hk : db.getKey keyId = some k)
    (husage : db'.usage = db.usage)
    (howners : db'.owners =
      Table.update (fun o => o.1 = keyId) (fun o => (o.1, some clientId)) db.owners) :
    db'.clientUsageCu clientId since = db.clientUsageCu clientId since +
      if k.clientId = some clientId then 0 else sumCu db.usage keyId since := by
  have hothers (i : String) (hi : i ≠ keyId) : db'.attached clientId i =
      db.attached clientId i := by
    unfold attached
    rw [howners, Table.update, List.count_eq_countP, List.count_eq_countP, List.countP_map]
    refine List.countP_congr fun o _ => ?_
    by_cases ho : o.1 = keyId
    · have hne : ¬ keyId = i := fun h => hi h.symm
      simp [Prod.ext_iff, ho, hne]
    · simp [ho]
  have hdb' : db'.KeyIds := by
    unfold KeyIds
    rw [howners, Table.map_update _ ?_]
    · exact hdb
    · exact fun _ _ _ => rfl
  have hmem : (keyId, some clientId) ∈ db'.owners := by
    rw [howners]
    exact List.mem_map.mpr ⟨_, mem_owners hk, by simp⟩
  rw [clientUsageCu_of_others husage hothers, attached_of_mem hdb' hmem, if_pos rfl,
    attached_getKey hdb hk]
  split
  · simp
  · simp

end Db

variable {F : Type} {r : Render F} {db db' : Db} {clientId : String} {since : ℚ} {a : StoreAction F}

/-! ## Operations -/

theorem apply_cases (r : Render F) (db : Db) (a : StoreAction F) :
    ((a.apply r db).usage = db.usage ∧ (a.apply r db).owners = db.owners) ∨
    (∃ id keyHash, a = .createKey id keyHash ∧ id ∉ db.owners.map (·.1) ∧
      (a.apply r db).usage = db.usage ∧ (a.apply r db).owners = db.owners ++ [(id, none)]) ∨
    (∃ keyId c, a = .attachKey keyId c ∧ (a.apply r db).usage = db.usage ∧
      (a.apply r db).owners =
        Table.update (fun o => o.1 = keyId) (fun o => (o.1, some c)) db.owners) ∨
    (∃ keyId k, a = .purge keyId ∧ db.getKey keyId = some k ∧ k.revokedAt.isSome = true ∧
      a.apply r db = db.deleteKey keyId) ∨
    ∃ u, a = .recordUsage u ∧ a.apply r db = { db with usage := db.usage ++ [u] } := by
  cases a with
  | createKey id keyHash =>
    simp only [StoreAction.apply]
    split
    · rename_i db' hcreate
      obtain ⟨hfresh, -, rfl⟩ := Db.createKey_ok hcreate
      refine .inr (.inl ⟨id, keyHash, rfl, ?_, rfl, List.map_append⟩)
      unfold Db.owners
      rw [List.map_map]
      exact hfresh
    · exact .inl ⟨rfl, rfl⟩
  | attachKey keyId c =>
    simp only [StoreAction.apply]
    split
    · rename_i attached db' hattach
      obtain ⟨-, rfl⟩ | ⟨-, -, rfl⟩ := Db.attachKey_ok hattach
      · exact .inl ⟨rfl, rfl⟩
      · exact .inr (.inr (.inl ⟨keyId, c, rfl, rfl,
          Table.map_update_comm (fun _ => rfl) fun _ => rfl⟩))
    · exact .inl ⟨rfl, rfl⟩
  | revokeKey keyId now => exact .inl ⟨rfl, Db.owners_revoke db keyId now⟩
  | purge keyId =>
    simp only [StoreAction.apply]
    split
    · rename_i hrevoked
      obtain ⟨k, hk, hrev⟩ := Option.any_eq_true _ _ |>.mp hrevoked
      exact .inr (.inr (.inr (.inl ⟨keyId, k, rfl, hk, hrev, rfl⟩)))
    · exact .inl ⟨rfl, rfl⟩
  | revokeClientKeys c now => exact .inl ⟨rfl, Db.owners_revokeClientKeys db c now⟩
  | setClientStatus c status => exact .inl ⟨rfl, rfl⟩
  | createClient id externalRef email =>
    simp only [StoreAction.apply]
    split
    · rename_i client db' hcreate
      rw [(Db.createClient_ok hcreate).2.2.2]
      exact .inl ⟨rfl, rfl⟩
    · exact .inl ⟨rfl, rfl⟩
  | upsertPlan p => exact .inl ⟨rfl, rfl⟩
  | recordUsage u => exact .inr (.inr (.inr (.inr ⟨u, rfl, rfl⟩)))
  | stripeEvent event uuid fates =>
    -- the calls of `handle_event` revoke keys at most, and revoking keeps the owners
    have hleads : (handleEvent r uuid event).Leads StoreOp.exec db
        fun db' _ => db'.usage = db.usage ∧ db'.owners = db.owners := by
      refine Prog.leads_of_invariant
        (P := fun db' : Db => db'.usage = db.usage ∧ db'.owners = db.owners) ?_ _ ⟨rfl, rfl⟩
      rintro now db₁ op ⟨husage, howners⟩
      obtain ⟨hkeys, hu⟩ | ⟨c, heq⟩ := exec_keys now db₁ op
      · refine ⟨hu.trans husage, ?_⟩
        unfold Db.owners at howners ⊢
        rw [hkeys, howners]
      · rw [heq]
        exact ⟨husage, (Db.owners_revokeClientKeys db₁ c now).trans howners⟩
    exact .inl (hleads fates)

/-- Keys are attached to this client. -/
def StoreAction.ForClient (clientId : String) : StoreAction F → Prop
  | attachKey _ c => c = clientId
  | _ => True

def StoreAction.Removes : StoreAction F → Prop
  | revokeKey _ _ | revokeClientKeys _ _ | purge _ => True
  | _ => False

structure UsageKept (clientId : String) (since : ℚ) (db : Db) (a : StoreAction F) (db' : Db) : Prop
    where
  mono : db.clientUsageCu clientId since ≤ db'.clientUsageCu clientId since
  /-- usage of a key of the client counts in full -/
  recorded : ∀ u k, a = .recordUsage u → db.getKey u.keyId = some k → k.clientId = some clientId →
    since ≤ u.ts → db'.clientUsageCu clientId since = db.clientUsageCu clientId since + u.cu
  removed : a.Removes → db'.clientUsageCu clientId since = db.clientUsageCu clientId since ∧
    ∀ pct quota, db'.thresholdReached clientId since pct quota =
      db.thresholdReached clientId since pct quota

/-- The step takes no CU from the account of the client. -/
structure TakesNone (clientId : String) (since : ℚ) (db : Db) (a : StoreAction F) : Prop where
  purged : ∀ keyId k, a = .purge keyId → db.getKey keyId = some k → k.revokedAt.isSome = true →
    k.clientId = some clientId → sumCu db.usage keyId since = 0
  recorded : ∀ u k, a = .recordUsage u → db.getKey u.keyId = some k → k.clientId = some clientId →
    since ≤ u.ts → 0 ≤ u.cu
  /-- a key can bring what it has spent before -/
  attached : ∀ keyId k, a = .attachKey keyId clientId → db.getKey keyId = some k →
    k.clientId ≠ some clientId → clientId ∈ db.clients.map (·.id) → 0 ≤ sumCu db.usage keyId since

theorem Db.KeyIds.apply (hdb : db.KeyIds) : (a.apply r db).KeyIds := by
  unfold KeyIds
  obtain ⟨-, howners⟩ | ⟨id, keyHash, -, hfresh, -, howners⟩ | ⟨keyId, c, -, -, howners⟩ |
    ⟨keyId, k, -, -, -, heq⟩ | ⟨u, rfl, heq⟩ := apply_cases r db a
  · rw [howners]
    exact hdb
  · rw [howners, List.map_append, List.nodup_append]
    refine ⟨hdb, by simp, fun i hi j hj => ?_⟩
    rw [List.map_singleton, List.mem_singleton] at hj
    intro hij
    rw [hij, hj] at hi
    exact hfresh hi
  · rw [howners, Table.map_update _ ?_]
    · exact hdb
    · exact fun _ _ _ => rfl
  · rw [heq]
    have hsub : (db.deleteKey keyId).owners.Sublist db.owners := List.filter_sublist.map _
    exact hdb.sublist (hsub.map _)
  · rw [heq]
    exact hdb

/-! ## Steps and runs -/

theorem usageKept_of_eq {a : StoreAction F} (hnot : ∀ u, a ≠ .recordUsage u)
    (h : db'.clientUsageCu clientId since = db.clientUsageCu clientId since) :
    UsageKept clientId since db a db' where
  mono := h.ge
  recorded u _ ha := absurd ha (hnot u)
  removed _ := by
    refine ⟨h, fun pct quota => ?_⟩
    unfold Db.thresholdReached
    rw [h]

theorem usageKept_attach_iff {keyId : String} (hdb : db.KeyIds) :
    UsageKept clientId since db (.attachKey keyId clientId : StoreAction F)
        ((.attachKey keyId clientId : StoreAction F).apply r db) ↔
      TakesNone clientId since db (.attachKey keyId clientId : StoreAction F) := by
  have hiff : TakesNone clientId since db (.attachKey keyId clientId : StoreAction F) ↔
      ∀ k, db.getKey keyId = some k → k.clientId ≠ some clientId →
        clientId ∈ db.clients.map (·.id) →
        0 ≤ sumCu db.usage keyId since := by
    constructor
    · exact fun h k => h.attached keyId k rfl
    · refine fun h => ⟨fun _ _ hno => (by cases hno), fun _ _ hno => (by cases hno), ?_⟩
      intro keyId' k heq
      cases heq
      exact h k
  have hnot : ∀ u, (.attachKey keyId clientId : StoreAction F) ≠ .recordUsage u :=
      fun _ h => by cases h
  rw [hiff]
  cases happ : db.attachKey keyId clientId with
  | error e =>
    simp only [StoreAction.apply, happ]
    refine iff_of_true (usageKept_of_eq hnot rfl) fun k hk _ hclient => absurd happ ?_
    unfold Db.attachKey
    rw [if_neg (by simpa using ⟨k, List.mem_of_find?_eq_some hk,
      by simpa using List.find?_some hk⟩), if_neg (by simpa using hclient)]
    exact fun h => by cases h
  | ok res =>
    obtain ⟨found, db'⟩ := res
    simp only [StoreAction.apply, happ]
    obtain ⟨hfound, rfl⟩ | ⟨hfound, hclient, rfl⟩ := Db.attachKey_ok happ
    · refine iff_of_true (usageKept_of_eq hnot rfl) fun k hk => absurd happ ?_
      unfold Db.attachKey
      rw [if_neg (by simpa using ⟨k, List.mem_of_find?_eq_some hk,
        by simpa using List.find?_some hk⟩), hfound]
      split <;> exact fun h => by cases h
    · cases hk : db.getKey keyId with
      | none =>
        refine absurd happ ?_
        unfold Db.attachKey
        rw [if_pos (by simpa [Db.getKey] using hk), hfound]
        exact fun h => by cases h
      | some k =>
        have hadds : Db.clientUsageCu { db with
            keys := Table.update (fun k => k.id = keyId)
              (fun k => { k with clientId := some clientId }) db.keys }
              clientId since =
            db.clientUsageCu clientId since +
              if k.clientId = some clientId then 0 else sumCu db.usage keyId since :=
          Db.clientUsageCu_attach hdb hk rfl (Table.map_update_comm (fun _ => rfl) fun _ => rfl)
        constructor
        · intro hkept k' hk' hother _
          cases hk'
          have hmono := hkept.mono
          rw [hadds, if_neg hother] at hmono
          linarith
        · intro hsum
          refine ⟨?_, fun u _ hu => absurd hu (hnot u), False.elim⟩
          rw [hadds]
          split
          · exact le_of_eq (add_zero _).symm
          · rename_i hother
            linarith [hsum k rfl hother hclient]

theorem usageKept_record_iff {u : UsageEvent} (hdb : db.KeyIds) :
    UsageKept clientId since db (.recordUsage u : StoreAction F) { db with
      usage := db.usage ++ [u] } ↔
      TakesNone clientId since db (.recordUsage u : StoreAction F) := by
  have hadds : Db.clientUsageCu { db with usage := db.usage ++ [u] } clientId since =
      db.clientUsageCu clientId since +
        if since ≤ u.ts then (db.attached clientId u.keyId : ℚ) * u.cu else 0 :=
          Db.clientUsageCu_record db u
  constructor
  · refine fun hkept => ⟨fun _ _ hno => (by cases hno), ?_, fun _ _ hno => (by cases hno)⟩
    intro v k hv hk hclient hts
    cases hv
    have hmono := hkept.mono
    rw [hkept.recorded u k rfl hk hclient hts] at hmono
    linarith
  · intro h
    refine ⟨?_, fun v k hv hk hclient hts => ?_, False.elim⟩
    · rw [hadds, le_add_iff_nonneg_right]
      split
      · rename_i hts
        cases hk : db.getKey u.keyId with
        | none => simp [Db.attached_getKey_none hk]
        | some k =>
          rw [Db.attached_getKey hdb hk]
          split
          · rename_i hclient
            simpa using h.recorded u k rfl hk hclient hts
          · simp
      · exact le_rfl
    · cases hv
      rw [hadds, if_pos hts, Db.attached_getKey hdb hk, if_pos hclient, Nat.cast_one, one_mul]

/-- A purge keeps the usage of a client exactly when the key has spent nothing on its account. -/
theorem usageKept_purge_iff {keyId : String} (hdb : db.KeyIds) :
    UsageKept clientId since db (.purge keyId : StoreAction F)
      ((.purge keyId : StoreAction F).apply r db) ↔
      TakesNone clientId since db (.purge keyId : StoreAction F) := by
  have hnot : ∀ u, (.purge keyId : StoreAction F) ≠ .recordUsage u := fun _ h => by cases h
  by_cases hrevoked : ((db.getKey keyId).any fun k => k.revokedAt.isSome) = true
  · obtain ⟨k, hk, hrev⟩ := Option.any_eq_true _ _ |>.mp hrevoked
    simp only [StoreAction.apply, hrevoked, if_true]
    have htakes : (db.deleteKey keyId).clientUsageCu clientId since =
        db.clientUsageCu clientId since -
        if k.clientId = some clientId then sumCu db.usage keyId since else 0 :=
      Db.clientUsageCu_deleteKey hdb hk
    constructor
    · refine fun hkept => ⟨?_, fun _ _ hno => (by cases hno), fun _ _ hno => (by cases hno)⟩
      intro keyId' k' hid hk' _ hclient
      cases hid
      cases hk.symm.trans hk'
      rw [if_pos hclient, (hkept.removed trivial).1] at htakes
      linarith
    · intro h
      refine usageKept_of_eq hnot ?_
      rw [htakes]
      split
      · rename_i hclient
        rw [h.purged keyId k rfl hk hrev hclient, sub_zero]
      · exact sub_zero _
  · -- refused: the key is not there or not revoked
    simp only [StoreAction.apply, hrevoked, Bool.false_eq_true, if_false]
    refine iff_of_true (usageKept_of_eq hnot rfl)
      ⟨?_, fun _ _ hno => (by cases hno), fun _ _ hno => (by cases hno)⟩
    intro keyId' k hid hk hrev
    cases hid
    exact absurd (Option.any_eq_true _ _ |>.mpr ⟨k, hk, hrev⟩) hrevoked

theorem usageKept_iff (hdb : db.KeyIds) (ha : a.ForClient clientId) :
    UsageKept clientId since db a (a.apply r db) ↔ TakesNone clientId since db a := by
  by_cases hrecord : ∃ u, a = .recordUsage u
  · obtain ⟨u, rfl⟩ := hrecord
    exact usageKept_record_iff hdb
  by_cases hpurge : ∃ keyId, a = .purge keyId
  · obtain ⟨keyId, rfl⟩ := hpurge
    exact usageKept_purge_iff hdb
  by_cases hattach : ∃ keyId c, a = .attachKey keyId c
  · obtain ⟨keyId, c, rfl⟩ := hattach
    cases ha
    exact usageKept_attach_iff hdb
  refine iff_of_true (usageKept_of_eq (fun u h => hrecord ⟨u, h⟩)
    (Db.clientUsageCu_congr ?_ fun i => ?_))
    ⟨fun keyId _ h => absurd ⟨keyId, h⟩ hpurge, fun u _ h => absurd ⟨u, h⟩ hrecord,
      fun keyId _ h => absurd ⟨keyId, _, h⟩ hattach⟩
  all_goals
    obtain ⟨husage, howners⟩ | ⟨id, keyHash, -, -, husage, howners⟩ | ⟨keyId, c, h, -⟩ |
      ⟨keyId, k, h, -⟩ | ⟨u, h, -⟩ := apply_cases r db a
  · exact husage
  · exact husage
  · exact absurd ⟨keyId, c, h⟩ hattach
  · exact absurd ⟨keyId, h⟩ hpurge
  · exact absurd ⟨u, h⟩ hrecord
  · unfold Db.attached
    rw [howners]
  · unfold Db.attached
    rw [howners, List.count_append]
    simp
  · exact absurd ⟨keyId, c, h⟩ hattach
  · exact absurd ⟨keyId, h⟩ hpurge
  · exact absurd ⟨u, h⟩ hrecord

/-- The CU that the run records for keys while they are attached to the client. -/
def recordedCu (r : Render F) (clientId : String) (since : ℚ) : Db → List (StoreAction F) → ℚ
  | _, [] => 0
  | db, a :: ls =>
    (match a with
      | .recordUsage u =>
        if ((db.getKey u.keyId).any fun k => k.clientId = some clientId) ∧
          since ≤ u.ts then u.cu else 0
      | _ => 0) + recordedCu r clientId since (a.apply r db) ls

theorem recordedCu_le {ls : List (StoreAction F)} (hrun : Run (StoreAction.step r) db ls db')
    (hkept : Along (StoreAction.step r) (UsageKept clientId since) db ls) :
    db.clientUsageCu clientId since + recordedCu r clientId since db ls ≤
      db'.clientUsageCu clientId since := by
  induction hrun with
  | refl => simp [recordedCu]
  | @cons db db₁ db' a ls hst hrun ih =>
    obtain ⟨hstep, hrest⟩ := hkept db₁ hst
    cases hst
    have hlater := ih hrest
    have hmono := hstep.mono
    unfold recordedCu
    cases a with
    | recordUsage u =>
      dsimp only
      split
      · rename_i hcounts
        obtain ⟨k, hk, hclient⟩ := Option.any_eq_true _ _ |>.mp hcounts.1
        have hadded := hstep.recorded u k rfl hk (by simpa using hclient) hcounts.2
        linarith
      · linarith
    | _ =>
      dsimp only
      linarith

/-- For a run of operations that attach keys to this client only, from any store: no step lowers the
usage of the client, what its keys spend counts in full and revoking and purging change nothing,
exactly when no purge takes a key of the client that has spent in the window, none of its keys
records a negative amount there, and no key is attached to it that has recorded one in sum; and then
all that was recorded for the client's keys is counted at the end. -/
theorem usage_kept_iff_guarded {F : Type} {r : Render F} {clientId : String} {since : ℚ}
    {db db' : Db} {ls : List (StoreAction F)} (hdb : db.KeyIds)
      (hls : ∀ a ∈ ls, a.ForClient clientId) (hrun : Run (StoreAction.step r) db ls db') :
    (Along (StoreAction.step r) (UsageKept clientId since) db ls ↔
      Guarded (StoreAction.step r) (TakesNone clientId since) db ls) ∧
    (Guarded (StoreAction.step r) (TakesNone clientId since) db ls →
      db.clientUsageCu clientId since + recordedCu r clientId since db ls ≤
        db'.clientUsageCu clientId since) := by
  have hiff : Along (StoreAction.step r) (UsageKept clientId since) db ls ↔
      Guarded (StoreAction.step r) (TakesNone clientId since) db ls := by
    refine Run.along_iff_guarded (I := Db.KeyIds)
      (p := fun a => a.ForClient clientId) ?_ ?_ hrun hdb hls
    · intro db a db' hdb ha hst
      cases hst
      exact usageKept_iff hdb ha
    · intro db a db' hdb _ hst _
      cases hst
      exact hdb.apply
  exact ⟨hiff, fun h => recordedCu_le hrun (hiff.mpr h)⟩

/-- 900 CU of the client's key. -/
def spent : UsageEvent where
  ts := 100
  keyId := "k1"
  requestId := "r1"
  endpoint := "chat"
  model := none
  promptTokens := 400
  completionTokens := 500
  cu := 900
  status := 200

theorem keyStore_keyIds : keyStore.KeyIds := by
  simp [Db.KeyIds, keyStore, Db.owners]

/-- A key of the client is used, revoked and purged. -/
def usedThenPurged : List (StoreAction Empty) :=
  [.recordUsage spent, .revokeKey "k1" 200, .purge "k1"]

/-- The client had reached nine tenths of a quota of 1000 and after the purge has spent nothing. -/
theorem purge_drops_usage :
    ∃ db₁ db₂ : Db, Run (StoreAction.step .plain) keyStore (usedThenPurged.take 2) db₁ ∧
      Run (StoreAction.step .plain) keyStore usedThenPurged db₂ ∧
      db₁.clientUsageCu "c1" 0 = 900 ∧ db₂.clientUsageCu "c1" 0 = 0 ∧
      db₁.thresholdReached "c1" 0 (9 / 10) 1000 = true ∧
      db₂.thresholdReached "c1" 0 (9 / 10) 1000 = false := by
  refine ⟨_, _, .cons rfl (.cons rfl .refl), .cons rfl (.cons rfl (.cons rfl .refl)), ?_⟩
  decide +kernel

/-- The client has two keys; one is used, and the other is purged. -/
def otherPurged : List (StoreAction Empty) :=
  [.createKey "k2" "h2", .attachKey "k2" "c1", .recordUsage spent, .revokeKey "k2" 200, .purge "k2"]

theorem otherPurged_takesNone :
    Guarded (StoreAction.step .plain) (TakesNone "c1" 0) keyStore otherPurged := by
  refine ⟨⟨fun _ _ h => (by cases h), fun _ _ h => (by cases h), fun _ _ h => (by cases h)⟩, ?_⟩
  rintro _ ⟨⟩
  refine ⟨⟨fun _ _ h => (by cases h), fun _ _ h => (by cases h), ?_⟩, ?_⟩
  · intro keyId k h _ _ _
    cases h
    decide
  rintro _ ⟨⟩
  refine ⟨⟨fun _ _ h => (by cases h), ?_, fun _ _ h => (by cases h)⟩, ?_⟩
  · intro u k h _ _ _
    cases h
    decide
  rintro _ ⟨⟩
  refine ⟨⟨fun _ _ h => (by cases h), fun _ _ h => (by cases h), fun _ _ h => (by cases h)⟩, ?_⟩
  rintro _ ⟨⟩
  refine ⟨⟨?_, fun _ _ h => (by cases h), fun _ _ h => (by cases h)⟩, fun _ _ => trivial⟩
  intro keyId k h _ _ _
  cases h
  decide +kernel

theorem usage_kept_iff_guarded_otherPurged :
    ∃ db', Run (StoreAction.step .plain) keyStore otherPurged db' ∧
      Along (StoreAction.step .plain) (UsageKept "c1" 0) keyStore otherPurged ∧
      900 ≤ db'.clientUsageCu "c1" 0 := by
  obtain ⟨db', hrun⟩ : ∃ db', Run (StoreAction.step .plain) keyStore otherPurged db' :=
    ⟨_, .cons rfl (.cons rfl (.cons rfl (.cons rfl (.cons rfl .refl))))⟩
  have hattached : ∀ a ∈ otherPurged, a.ForClient "c1" := by
    simp [otherPurged, StoreAction.ForClient]
  obtain ⟨hiff, hcounted⟩ := usage_kept_iff_guarded keyStore_keyIds hattached hrun
  have hrecorded : keyStore.clientUsageCu "c1" 0 + recordedCu .plain "c1" 0 keyStore otherPurged =
      900 := by
    decide +kernel
  exact ⟨db', hrun, hiff.mpr otherPurged_takesNone, hrecorded ▸ hcounted otherPurged_takesNone⟩

end InferenceEngine
