import Mathlib.Data.List.Sort
import InferenceEngine.Gateway.Quota
import InferenceEngine.Lib.GroupBy
import InferenceEngine.Billing.Portal
import InferenceEngine.Billing.Usage

/-!
# Billing.Attribution

What operators are shown of the usage (`attribution` of `quota/store.py`, `usage_attribution` of
`api/monitoring_router.py`). `usage_events` is the only source: of this view, of the windows that
quotas are enforced with and of the usage of a client.

* `attribution_reconciles`: so these three never disagree.
-/

namespace InferenceEngine

namespace Attribution

structure KeyAttribution where
  keyId : String
  requests : Nat
  promptTokens : Int
  completionTokens : Int
  cu : ℚ
  lastTs : Option ℚ
  errors : Nat
  deriving DecidableEq, Repr

/-- The columns that are selected of a group. -/
def rollup (keyId : String) (us : List UsageEvent) : KeyAttribution where
  keyId := keyId
  requests := us.length
  promptTokens := (us.map (·.promptTokens)).sum
  completionTokens := (us.map (·.completionTokens)).sum
  cu := (us.map (·.cu)).sum
  lastTs := (us.map (·.ts)).max?
  errors := (us.filter fun u => 400 ≤ u.status).length

/-- `attribution`; rows with the same sum may come in any order. -/
def attribution (usage : List UsageEvent) (since : ℚ) : List KeyAttribution :=
  ((GroupBy.groups (·.keyId) (usage.filter fun u => since ≤
    u.ts)).map fun g => rollup g.1 g.2).insertionSort
    fun a b => b.cu ≤ a.cu

/-- A row of the view; the prefix and the label of the key are only shown. -/
structure Row extends KeyAttribution where
  clientId : Option String
  deriving DecidableEq, Repr

/-- `billing.client_id_for_key(r.key_id) if r.key_id else None`. -/
def clientOf (db : Db) (keyId : String) : Option String :=
  if keyId.isEmpty then none else Portal.clientIdForKey db keyId

def usageAttribution (db : Db) (window : Window) (now : ℚ) : List Row :=
  (attribution db.usage (window.start now)).map fun row => ⟨row, clientOf db row.keyId⟩

variable {usage : List UsageEvent} {since now : ℚ} {window : Window} {db : Db}

/-! ## The rows -/

theorem attribution_perm (usage : List UsageEvent) (since : ℚ) :
    (attribution usage since).Perm
      ((GroupBy.groups (·.keyId)
      (usage.filter fun u => since ≤ u.ts)).map fun g => rollup g.1 g.2) :=
  List.perm_insertionSort _ _

theorem attribution_keys (usage : List UsageEvent) (since : ℚ) :
    ((attribution usage since).map (·.keyId)).Perm
      (GroupBy.keys (·.keyId) (usage.filter fun u => since ≤ u.ts)) := by
  have h := (attribution_perm usage since).map (·.keyId)
  rw [List.map_map] at h
  rw [← GroupBy.fst_groups]
  exact h

theorem mem_attribution {row : KeyAttribution} (h : row ∈ attribution usage since) :
    row = rollup row.keyId ((usage.filter fun u => since ≤
      u.ts).filter fun u => u.keyId = row.keyId) ∧
      ∃ u ∈ usage, u.keyId = row.keyId ∧ since ≤ u.ts := by
  obtain ⟨g, hg, rfl⟩ := List.mem_map.mp ((attribution_perm usage since).mem_iff.mp h)
  obtain ⟨hkey, hrows⟩ := GroupBy.mem_groups hg
  obtain ⟨u, hu, hid⟩ := GroupBy.mem_keys.mp hkey
  obtain ⟨hu, hts⟩ := List.mem_filter.mp hu
  refine ⟨?_, u, hu, hid, of_decide_eq_true hts⟩
  rw [hrows]
  rfl

/-- What a column adds up to over the rows of some of the keys. -/
theorem sum_attribution {β : Type} [AddCommMonoid β] {g : KeyAttribution → β} {f : UsageEvent → β}
    (hg : ∀ k us, g (rollup k us) = (us.map f).sum) (p : String → Bool) :
    (((attribution usage since).filter fun row => p row.keyId).map g).sum =
      (((usage.filter fun u => since ≤ u.ts).filter fun u => p u.keyId).map f).sum := by
  rw [(((attribution_perm usage since).filter _).map g).sum_eq, List.filter_map, List.map_map,
    ← GroupBy.sum_groups_where f p]
  refine congrArg List.sum (List.map_congr_left fun e _ => hg e.1 e.2)

theorem sum_attribution_all {β : Type} [AddCommMonoid β] {g : KeyAttribution → β}
    {f : UsageEvent → β} (hg : ∀ k us, g (rollup k us) = (us.map f).sum) :
    ((attribution usage since).map g).sum = ((usage.filter fun u => since ≤ u.ts).map f).sum := by
  have h : (((attribution usage since).filter fun _ => true).map g).sum = _ :=
    sum_attribution hg fun _ => true
  simpa using h

/-! ## Clients -/

theorem attached_eq (hdb : db.Valid) (hid : "" ∉ db.keys.map (·.id)) (clientId keyId : String) :
    db.attached clientId keyId = if clientOf db keyId = some clientId then 1 else 0 := by
  have hnodup : db.owners.Nodup := by
    refine List.Nodup.of_map Prod.fst ?_
    rw [Db.owners, List.map_map]
    exact hdb.keyIds
  have hmem : (keyId, some clientId) ∈ db.owners ↔ clientOf db keyId = some clientId := by
    unfold Db.owners clientOf Portal.clientIdForKey Db.getKey
    rw [List.mem_map]
    constructor
    · rintro ⟨k, hk, heq⟩
      obtain ⟨rfl, howner⟩ := Prod.mk.inj heq
      have hne : ¬k.id.isEmpty = true :=
          fun h => hid (List.mem_map.mpr ⟨k, hk, String.isEmpty_iff.mp h⟩)
      rw [if_neg hne, Table.find?_of_nodup (g := KeyRow.id) (r := k) hdb.keyIds hk]
      exact howner
    · intro h
      split at h
      · cases h
      · obtain ⟨k, hk, howner⟩ := Option.bind_eq_some_iff.mp h
        have hkid : k.id = keyId := by simpa using List.find?_some hk
        exact ⟨k, List.mem_of_find?_eq_some hk, by rw [hkid, howner]⟩
  unfold Db.attached
  split
  · next h => exact List.count_eq_one_of_mem hnodup (hmem.mpr h)
  · next h => exact List.count_eq_zero.mpr fun hin => h (hmem.mp hin)

theorem clientUsageCu_filter (hdb : db.Valid) (hid : "" ∉ db.keys.map (·.id))
    (clientId : String) (since : ℚ) :
    db.clientUsageCu clientId since =
      (((db.usage.filter fun u => since ≤ u.ts).filter fun u => clientOf db u.keyId =
      some clientId).map
        (·.cu)).sum := by
  rw [Db.clientUsageCu_eq]
  simp only [attached_eq hdb hid, Nat.cast_ite, Nat.cast_one, Nat.cast_zero, ite_mul,
    one_mul, zero_mul]
  rw [List.sum_map_ite]
  simp

/-! ## The view -/

/-- What the view says, against the events, the windows of the quotas and the usage of the
clients. -/
structure Reconciled (db : Db) (window : Window) (now : ℚ) (rows : List Row) : Prop where
  /-- A key has one row, if it has been used in the window. -/
  once : (rows.map (·.keyId)).Nodup
  listed : ∀ keyId, keyId ∈ rows.map (·.keyId) ↔ ∃ u ∈ db.usage, u.keyId = keyId ∧
    window.start now ≤ u.ts
  /-- It says what the quota of the key is compared with. -/
  enforced : ∀ row ∈ rows, row.cu = window.used db.usage row.keyId now
  newest : ∀ row ∈ rows, ∃ ts, row.lastTs = some ts ∧ ∀ u ∈ db.usage,
    u.keyId = row.keyId → u.ts ≤ ts
  /-- Every request is counted once. -/
  requests : (rows.map (·.requests)).sum = (db.usage.filter fun u => window.start now ≤ u.ts).length
  errors : (rows.map (·.errors)).sum = (db.usage.filter fun u => window.start now ≤ u.ts && 400 ≤
    u.status).length
  tokens : (rows.map fun row => row.promptTokens + row.completionTokens).sum =
    ((db.usage.filter fun u => window.start now ≤
      u.ts).map fun u => u.promptTokens + u.completionTokens).sum
  clients : ∀ clientId, ((rows.filter (·.clientId = some clientId)).map (·.cu)).sum =
    db.clientUsageCu clientId (window.start now)
  busiest : rows.Pairwise fun a b => b.cu ≤ a.cu

theorem used_eq (usage : List UsageEvent) (keyId : String) (since : ℚ) :
    (rollup keyId ((usage.filter fun u => since ≤ u.ts).filter fun u => u.keyId = keyId)).cu =
      sumCu usage keyId since := by
  unfold rollup sumCu
  rw [List.filter_filter]
  simp only [Bool.decide_and]

theorem listed_iff (usage : List UsageEvent) (since : ℚ) (keyId : String) :
    keyId ∈ (attribution usage since).map (·.keyId) ↔ ∃ u ∈ usage, u.keyId = keyId ∧
      since ≤ u.ts := by
  rw [(attribution_keys usage since).mem_iff, GroupBy.mem_keys]
  simp only [List.mem_filter, decide_eq_true_eq]
  constructor
  · rintro ⟨u, ⟨hu, hts⟩, hkey⟩
    exact ⟨u, hu, hkey, hts⟩
  · rintro ⟨u, hu, hkey, hts⟩
    exact ⟨u, ⟨hu, hts⟩, hkey⟩

/-- An event from before the window is older than any in it, and there is one in it. -/
theorem newest_of_mem {usage : List UsageEvent} {since : ℚ} {a : KeyAttribution}
    (ha : a ∈ attribution usage since) :
    ∃ ts, a.lastTs = some ts ∧ ∀ u ∈ usage, u.keyId = a.keyId → u.ts ≤ ts := by
  obtain ⟨heq, u₀, hu₀, hkey₀, hts₀⟩ := mem_attribution ha
  have hlast : a.lastTs =
      (((usage.filter fun u => since ≤ u.ts).filter fun u => u.keyId = a.keyId).map (·.ts)).max? :=
    congrArg KeyAttribution.lastTs heq
  have hin : ∀ u ∈ usage, u.keyId = a.keyId → since ≤ u.ts →
      u.ts ∈ ((usage.filter fun u => since ≤ u.ts).filter fun u => u.keyId = a.keyId).map (·.ts) :=
    fun u hu hkey hts => List.mem_map_of_mem
      (List.mem_filter.mpr ⟨List.mem_filter.mpr ⟨hu, decide_eq_true hts⟩, decide_eq_true hkey⟩)
  obtain ⟨ts, hmax⟩ := Option.isSome_iff_exists.mp (List.isSome_max?_of_mem (hin u₀ hu₀ hkey₀ hts₀))
  have hle := (List.max?_eq_some_iff.mp hmax).2
  refine ⟨ts, hlast.trans hmax, fun u hu hkey => ?_⟩
  by_cases hts : since ≤ u.ts
  · exact hle _ (hin u hu hkey hts)
  · exact (not_le.mp hts).le.trans (hts₀.trans (hle _ (hin u₀ hu₀ hkey₀ hts₀)))

theorem attribution_reconciles (hdb : db.Valid) (hid : "" ∉ db.keys.map (·.id))
    (window : Window) (now : ℚ) :
    Reconciled db window now (usageAttribution db window now) := by
  have hkeys : (usageAttribution db window now).map (·.keyId) =
      (attribution db.usage (window.start now)).map (·.keyId) := by
    rw [usageAttribution, List.map_map]
    rfl
  have hperm := attribution_keys db.usage (window.start now)
  have hrow : ∀ row ∈ usageAttribution db window now,
      row.toKeyAttribution ∈ attribution db.usage (window.start now) := by
    intro row hrow
    obtain ⟨a, ha, rfl⟩ := List.mem_map.mp hrow
    exact ha
  constructor
  case once =>
    rw [hkeys]
    exact hperm.nodup_iff.mpr (GroupBy.nodup_keys _ _)
  case listed =>
    intro keyId
    rw [hkeys]
    exact listed_iff db.usage (window.start now) keyId
  case enforced =>
    intro row h
    have heq := (mem_attribution (hrow row h)).1
    exact (congrArg KeyAttribution.cu heq).trans (used_eq _ _ _)
  case newest =>
    exact fun row h => newest_of_mem (hrow row h)
  case requests =>
    have h : ((attribution db.usage (window.start now)).map (·.requests)).sum = _ :=
      sum_attribution_all (f := fun _ => 1) fun _ us => by simp [rollup]
    rw [usageAttribution, List.map_map]
    refine h.trans ?_
    simp
  case errors =>
    have h : ((attribution db.usage (window.start now)).map (·.errors)).sum = _ :=
      sum_attribution_all (f := fun u => if 400 ≤ u.status then 1 else 0)
        fun _ us => by simp [rollup, List.sum_map_ite]
    rw [usageAttribution, List.map_map]
    refine h.trans ?_
    rw [List.sum_map_ite, List.filter_filter]
    simp [Bool.and_comm]
  case tokens =>
    have h : ((attribution db.usage (window.start now)).map
        fun row => row.promptTokens + row.completionTokens).sum = _ :=
      sum_attribution_all (f := fun u => u.promptTokens + u.completionTokens)
        fun _ us => by simp [rollup, List.sum_map_add]
    rw [usageAttribution, List.map_map]
    exact h
  case clients =>
    intro clientId
    rw [clientUsageCu_filter hdb hid, usageAttribution, List.filter_map, List.map_map]
    exact sum_attribution (fun _ _ => rfl) fun k => decide (clientOf db k = some clientId)
  case busiest =>
    rw [usageAttribution, List.pairwise_map]
    have htotal : Std.Total fun a b : KeyAttribution => b.cu ≤ a.cu :=
      ⟨fun a b => le_total b.cu a.cu⟩
    have htrans : IsTrans KeyAttribution fun a b => b.cu ≤ a.cu :=
      ⟨fun a b c hab hbc => hbc.trans hab⟩
    exact List.pairwise_insertionSort _ _

/-- Two keys of a client, and what they and a purged one have spent. -/
def threeKeys : Db where
  clients := [⟨"c1", none, none, .active⟩]
  keys := [{ id := "k1", keyHash := "#1", clientId := some "c1" },
    { id := "k2", keyHash := "#2", clientId := some "c1" }]
  usage := [⟨90000, "k1", "r1", "/v1/completions", none, 3, 4, 7, 200⟩,
    ⟨99000, "k1", "r2", "/v1/completions", none, 2, 0, 2, 503⟩,
    ⟨99500, "k2", "r3", "/v1/messages", none, 10, 10, 20, 200⟩,
    ⟨99600, "k3", "r4", "/v1/messages", none, 1, 1, 2, 200⟩,
    ⟨99700, "k1", "r5", "/v1/completions", none, 5, 5, 10, 200⟩]

theorem attribution_reconciles_threeKeys :
    Reconciled threeKeys .rolling5h 110000 (usageAttribution threeKeys .rolling5h 110000) :=
  attribution_reconciles (by constructor <;> simp [threeKeys]) (by decide) .rolling5h 110000

example : (usageAttribution threeKeys .rolling5h 110000).map
    (fun row => (row.keyId, row.requests, row.errors)) =
    [("k2", 1, 0), ("k1", 2, 1), ("k3", 1, 0)] := by
  decide +kernel

end Attribution

end InferenceEngine
