import InferenceEngine.Inference.Registry
import InferenceEngine.Lib.Count
import InferenceEngine.Lib.Run

/-!
# Inference.Placement

What `BackendRegistry.acquire` promises, for every registry and request.

* `acquires_iff_not_stuck`: it succeeds exactly when some entry can serve the request, and otherwise
  the error says what is missing, unless an entry with a prefix cache asks for the bytes of a prefix
  key that has none (`Stuck`).
* `follows_policy`: the entry it takes is the one the placement policy names, and the decision
  records the rule that applied.
* `RegistryDesk`: the registry and the leases it has given out. Along every run of acquires,
  releases and changes of the backends, the slots in flight on an entry are its unreleased leases.
-/

namespace InferenceEngine

open Lts

namespace BackendEntry

/-- In scope, ready, and serving the requested model live. -/
def ReadyFor (e : BackendEntry) (sc : Scope) : Prop :=
  sc.admits e = true ∧ e.isReady = true ∧ ∀ m, sc.model = some m → e.liveModel = some m

/-- The live capabilities cover every feature. -/
def Supports (e : BackendEntry) (required : List Feature) : Prop :=
  ∃ b, e.backend = some b ∧ ∀ f ∈ required, f.supported b.capabilities = true

def CanServe (e : BackendEntry) (sc : Scope) : Prop :=
  e.ReadyFor sc ∧ e.Supports sc.required ∧ e.inFlight < e.maxInFlight

theorem backend_of_ready {e : BackendEntry} (h : e.isReady = true) : ∃ b, e.backend = some b := by
  unfold isReady isLoaded at h
  cases hb : e.backend with
  | none => simp [hb] at h
  | some b => exact ⟨b, rfl⟩

theorem eligible_iff {e : BackendEntry} {sc : Scope} (hready : e.isReady = true) :
    e.eligible sc.model sc.required = true ↔
      (∀ m, sc.model = some m → e.liveModel = some m) ∧ e.Supports sc.required := by
  obtain ⟨b, hb⟩ := backend_of_ready hready
  have hmodel : (sc.model.isNone || e.liveModel == sc.model) = true ↔
      ∀ m, sc.model = some m → e.liveModel = some m := by
    cases sc.model with
    | none => simp
    | some m => simp
  have hfeat : (sc.required.isEmpty || sc.required.all fun f => f.supported b.capabilities) = true ↔
      e.Supports sc.required := by
    unfold Supports
    simp only [hb, Option.some.injEq, exists_eq_left']
    cases sc.required with
    | nil => simp
    | cons f fs => simp only [List.isEmpty_cons, Bool.false_or, List.all_eq_true]
  unfold eligible
  rw [Bool.and_eq_true, hmodel, ← hfeat]
  simp [hready, hb]

/-- The entries `_pick` may choose from, seen from outside. -/
theorem canServe_iff {e : BackendEntry} {sc : Scope} :
    e.CanServe sc ↔ (sc.admits e && e.eligible sc.model sc.required) = true ∧
      (e.isReady && e.hasCapacity) = true := by
  unfold CanServe ReadyFor
  rw [Bool.and_eq_true, Bool.and_eq_true]
  constructor
  · rintro ⟨⟨hin, hready, hlive⟩, hsup, hcap⟩
    refine ⟨⟨hin, (eligible_iff hready).mpr ⟨hlive, hsup⟩⟩, hready, ?_⟩
    simpa [hasCapacity] using hcap
  · rintro ⟨⟨hin, helig⟩, hready, hcap⟩
    obtain ⟨hlive, hsup⟩ := (eligible_iff hready).mp helig
    exact ⟨⟨hin, hready, hlive⟩, hsup, by simpa [hasCapacity] using hcap⟩

/-- Ready for the request, and with a prefix cache. -/
def Caches (e : BackendEntry) (sc : Scope) : Prop :=
  e.ReadyFor sc ∧ e.Supports sc.required ∧ e.prefixCache = true

theorem caches_iff {e : BackendEntry} {sc : Scope} :
    e.Caches sc ↔ (sc.admits e && e.eligible sc.model sc.required) = true ∧
      (e.isReady && e.prefixCache) = true := by
  unfold Caches ReadyFor
  rw [Bool.and_eq_true, Bool.and_eq_true]
  constructor
  · rintro ⟨⟨hin, hready, hlive⟩, hsup, hcache⟩
    exact ⟨⟨hin, (eligible_iff hready).mpr ⟨hlive, hsup⟩⟩, hready, hcache⟩
  · rintro ⟨⟨hin, helig⟩, hready, hcache⟩
    obtain ⟨hlive, hsup⟩ := (eligible_iff hready).mp helig
    exact ⟨⟨hin, hready, hlive⟩, hsup, hcache⟩

end BackendEntry

namespace BackendRegistry

/-- The entries of a pool that can take one more request. -/
def candidates (pool : List BackendEntry) : List BackendEntry :=
  pool.filter fun e => e.isReady && e.hasCapacity

/-- The ready entries of a pool that have a prefix cache. -/
def capable (pool : List BackendEntry) : List BackendEntry :=
  pool.filter fun e => e.isReady && e.prefixCache

/-- The eligible entries of one tier in scope, in order. -/
def tierPool (r : BackendRegistry) (sc : Scope) (tier : Tier) : List BackendEntry :=
  (r.entries.filter fun e => sc.admits e && e.eligible sc.model sc.required).filter fun e =>
    match tier with
    | .primary => !e.spillover
    | .spillover => e.spillover

/-- `e` has the least `(in_flight, order)` among the candidates. -/
def LeastBusy (pool : List BackendEntry) (e : BackendEntry) : Prop :=
  e ∈ candidates pool ∧ ∀ e' ∈ candidates pool, e.load ≤ e'.load

/-- The entry of the prefix key: one of the capable entries, by the hash of the key. There is none
without a key; the empty string is no key. -/
def affinityTarget (digest : List UInt8 → Nat) (pool : List BackendEntry)
    (prefixKey : Option Utf8.Text) : Option BackendEntry :=
  match prefixKey with
  | none => none
  | some key =>
    if key = [] then none
    else
      (Utf8.encode? key).bind fun bytes => (capable pool)[digest bytes % (capable pool).length]?

/-- The key has no encoding. -/
def Surrogates (prefixKey : Option Utf8.Text) : Prop :=
  ∃ key, prefixKey = some key ∧ Utf8.encode? key = none

/-- The rule that each reason names; `named` says that the request is for a physical model. -/
def ChosenBy (digest : List UInt8 → Nat) (pool : List BackendEntry) (prefixKey : Option Utf8.Text)
    (named : Bool) (e : BackendEntry) : RouteReason → Prop
  | .prefixAffinity => affinityTarget digest pool prefixKey = some e ∧ e.hasCapacity = true
  | .affinityFallback =>
    (∃ target, affinityTarget digest pool prefixKey = some target ∧ target.hasCapacity = false) ∧
      LeastBusy pool e
  | .leastBusy =>
    affinityTarget digest pool prefixKey = none ∧ LeastBusy pool e ∧
      ¬ (named = true ∧ (candidates pool).length = 1)
  | .modelMap =>
    affinityTarget digest pool prefixKey = none ∧ LeastBusy pool e ∧
      named = true ∧ (candidates pool).length = 1

variable {digest : List UInt8 → Nat} {r r' : BackendRegistry}

theorem pairwise_order (r : BackendRegistry) :
    r.entries.Pairwise fun a b => a.order ≤ b.order := by
  rw [List.pairwise_iff_getElem]
  intro i j hi hj hij
  rw [r.order_eq i _ (List.getElem?_eq_getElem hi), r.order_eq j _ (List.getElem?_eq_getElem hj)]
  omega

/-- The tiers keep the order of the registry, so `sorted` finds the capable entries in place. -/
theorem insertionSort_capable (r : BackendRegistry) (sc : Scope) (tier : Tier) :
    ((r.tierPool sc tier).filter fun e => e.isReady && e.prefixCache).insertionSort
      (fun a b => a.order ≤ b.order) = capable (r.tierPool sc tier) := by
  apply List.Pairwise.insertionSort_eq
  unfold tierPool
  exact ((r.pairwise_order.filter _).filter _).filter _

/-- A capable entry needs the bytes of the key. -/
theorem pick_unencodable (digest : List UInt8 → Nat) {r : BackendRegistry} {sc : Scope}
    {tier : Tier} {prefixKey : Option Utf8.Text} (hkey : Surrogates prefixKey)
      (hcapable : capable (r.tierPool sc tier) ≠ []) :
    pick digest (r.tierPool sc tier) prefixKey = .error .unicodeEncode := by
  obtain ⟨key, rfl, hnone⟩ := hkey
  have hne : key ≠ [] := by
    rintro rfl
    cases hnone
  unfold pick
  simp only [insertionSort_capable]
  rw [if_neg hne, if_neg hcapable, hnone]

/-- What `_pick` does otherwise, rule by rule. -/
theorem pick_tierPool {r : BackendRegistry} {sc : Scope} {tier : Tier}
    {prefixKey : Option Utf8.Text}
      (h : ¬ (Surrogates prefixKey ∧ capable (r.tierPool sc tier) ≠ [])) :
    pick digest (r.tierPool sc tier) prefixKey =
      .ok (match affinityTarget digest (r.tierPool sc tier) prefixKey with
      | none => ((candidates (r.tierPool sc tier)).argmin BackendEntry.load).map (·, .leastBusy)
      | some target =>
        if target.hasCapacity then some (target, .prefixAffinity)
        else
          ((candidates (r.tierPool sc tier)).argmin BackendEntry.load).map (·,
          .affinityFallback)) := by
  unfold pick affinityTarget
  cases prefixKey with
  | none => rfl
  | some key =>
    simp only [insertionSort_capable]
    by_cases hkey : key = []
    · rw [if_pos hkey, if_pos hkey]
      rfl
    · rw [if_neg hkey, if_neg hkey]
      by_cases hcapable : capable (r.tierPool sc tier) = []
      · rw [if_pos hcapable, hcapable]
        cases Utf8.encode? key <;> rfl
      · rw [if_neg hcapable]
        cases hbytes : Utf8.encode? key with
        | none => exact absurd ⟨⟨key, rfl, hbytes⟩, hcapable⟩ h
        | some bytes =>
          simp only [Option.bind_some]
          cases (capable (r.tierPool sc tier))[digest bytes %
            (capable (r.tierPool sc tier)).length]? with
          | none => rfl
          | some target =>
            simp only
            split <;> rfl

theorem leastBusy_of_argmin {pool : List BackendEntry} {e : BackendEntry}
    (h : (candidates pool).argmin BackendEntry.load = some e) : LeastBusy pool e :=
  ⟨List.argmin_mem h, fun _ he' => List.le_of_mem_argmin he' h⟩

theorem affinityTarget_mem {pool : List BackendEntry} {prefixKey : Option Utf8.Text}
    {e : BackendEntry} (h : affinityTarget digest pool prefixKey = some e) : e ∈ capable pool := by
  unfold affinityTarget at h
  cases prefixKey with
  | none => cases h
  | some key =>
    simp only at h
    split at h
    · cases h
    · obtain ⟨bytes, -, hget⟩ := Option.bind_eq_some_iff.mp h
      exact List.mem_of_getElem? hget

theorem candidate_of_target {pool : List BackendEntry} {prefixKey : Option Utf8.Text}
    {e : BackendEntry} (h : affinityTarget digest pool prefixKey = some e)
    (hcap : e.hasCapacity = true) : e ∈ candidates pool := by
  have hmem := affinityTarget_mem h
  unfold capable at hmem
  unfold candidates
  simp only [List.mem_filter, Bool.and_eq_true] at hmem ⊢
  exact ⟨hmem.1, hmem.2.1, hcap⟩

/-- `_pick` raises exactly when a capable entry needs the bytes of a key that has none. -/
theorem pick_eq_error_iff (digest : List UInt8 → Nat) (r : BackendRegistry) (sc : Scope)
    (tier : Tier) (prefixKey : Option Utf8.Text) {e : AcquireError} :
    pick digest (r.tierPool sc tier) prefixKey = .error e ↔
      e = .unicodeEncode ∧ Surrogates prefixKey ∧ capable (r.tierPool sc tier) ≠ [] := by
  by_cases h : Surrogates prefixKey ∧ capable (r.tierPool sc tier) ≠ []
  · rw [pick_unencodable digest h.1 h.2, Except.error.injEq, eq_comm]
    simp only [h, and_true, ne_eq, not_false_eq_true]
  · rw [pick_tierPool h]
    simp only [reduceCtorEq, false_iff]
    exact fun hc => h hc.2

/-- Otherwise it finds an entry exactly when there is a candidate. -/
theorem pick_eq_none_iff (digest : List UInt8 → Nat) (r : BackendRegistry) (sc : Scope)
    (tier : Tier) (prefixKey : Option Utf8.Text) :
    pick digest (r.tierPool sc tier) prefixKey = .ok none ↔
      ¬ (Surrogates prefixKey ∧ capable (r.tierPool sc tier) ≠ []) ∧
        candidates (r.tierPool sc tier) = [] := by
  by_cases h : Surrogates prefixKey ∧ capable (r.tierPool sc tier) ≠ []
  · rw [pick_unencodable digest h.1 h.2]
    simp [h]
  rw [pick_tierPool h, Except.ok.injEq]
  simp only [h, not_false_eq_true, true_and]
  cases htarget : affinityTarget digest (r.tierPool sc tier) prefixKey with
  | none => simp only [Option.map_eq_none_iff, List.argmin_eq_none]
  | some target =>
    simp only
    by_cases hcap : target.hasCapacity = true
    · have hmem := candidate_of_target htarget hcap
      simp only [hcap, if_true, reduceCtorEq, false_iff]
      exact List.ne_nil_of_mem hmem
    · simp only [hcap, Bool.false_eq_true, if_false, Option.map_eq_none_iff, List.argmin_eq_none]

theorem pick_cases {sc : Scope} {tier : Tier} {prefixKey : Option Utf8.Text} {e : BackendEntry}
    {reason : RouteReason} (h : pick digest (r.tierPool sc tier) prefixKey =
      .ok (some (e, reason))) : (reason = .prefixAffinity ∧
      affinityTarget digest (r.tierPool sc tier) prefixKey = some e ∧
        e.hasCapacity = true) ∨
      LeastBusy (r.tierPool sc tier) e ∧
        ((reason = .leastBusy ∧ affinityTarget digest (r.tierPool sc tier) prefixKey = none) ∨
          (reason = .affinityFallback ∧ ∃ target,
            affinityTarget digest (r.tierPool sc tier) prefixKey = some target ∧
              target.hasCapacity = false)) := by
  have hencodes : ¬ (Surrogates prefixKey ∧ capable (r.tierPool sc tier) ≠ []) := fun hc => by
    rw [pick_unencodable digest hc.1 hc.2] at h
    cases h
  rw [pick_tierPool hencodes, Except.ok.injEq] at h
  cases htarget : affinityTarget digest (r.tierPool sc tier) prefixKey with
  | none =>
    simp only [htarget, Option.map_eq_some_iff, Prod.mk.injEq] at h
    obtain ⟨e', hmin, rfl, rfl⟩ := h
    exact .inr ⟨leastBusy_of_argmin hmin, .inl ⟨rfl, rfl⟩⟩
  | some target =>
    simp only [htarget] at h
    by_cases hcap : target.hasCapacity = true
    · simp only [hcap, if_true, Option.some.injEq, Prod.mk.injEq] at h
      obtain ⟨rfl, rfl⟩ := h
      exact .inl ⟨rfl, rfl, hcap⟩
    · simp only [hcap, Bool.false_eq_true, if_false, Option.map_eq_some_iff, Prod.mk.injEq] at h
      obtain ⟨e', hmin, rfl, rfl⟩ := h
      exact .inr ⟨leastBusy_of_argmin hmin, .inr ⟨rfl, target, rfl, by simpa using hcap⟩⟩

/-- The label a choice gets: a least-busy choice of one for a physical model is a map. -/
def named (sc : Scope) (pool : List BackendEntry) (reason : RouteReason) : RouteReason :=
  if reason = .leastBusy ∧ sc.model.isSome = true ∧ (candidates pool).length = 1 then .modelMap
  else reason

theorem selectDetailed_eq (r : BackendRegistry) (prefixKey : Option Utf8.Text) (sc : Scope) :
    r.selectDetailed digest prefixKey sc =
      match pick digest (r.tierPool sc .primary) prefixKey with
      | .error err => .error err
      | .ok (some (e, reason)) => .ok (some (e, named sc (r.tierPool sc .primary) reason, .primary))
      | .ok none =>
        match pick digest (r.tierPool sc .spillover) prefixKey with
        | .error err => .error err
        | .ok (some (e, reason)) =>
          .ok (some (e, named sc (r.tierPool sc .spillover) reason, .spillover))
        | .ok none => .ok none := by
  unfold selectDetailed named candidates
  simp only [List.countP_eq_length_filter]
  rfl

theorem chosenBy_of_pick {sc : Scope} {tier : Tier} {prefixKey : Option Utf8.Text}
    {e : BackendEntry} {reason : RouteReason} (h : pick digest (r.tierPool sc tier) prefixKey =
      .ok (some (e, reason))) :
    ChosenBy digest (r.tierPool sc tier) prefixKey sc.model.isSome e
      (named sc (r.tierPool sc tier) reason) := by
  unfold named
  rcases pick_cases h with ⟨rfl, htarget, hcap⟩ | ⟨hleast, ⟨rfl, hno⟩ | ⟨rfl, hfull⟩⟩
  · exact ⟨htarget, hcap⟩
  · by_cases hone : sc.model.isSome = true ∧ (candidates (r.tierPool sc tier)).length = 1
    · rw [if_pos ⟨rfl, hone⟩]
      exact ⟨hno, hleast, hone⟩
    · rw [if_neg fun hc => hone hc.2]
      exact ⟨hno, hleast, hone⟩
  · exact ⟨hfull, hleast⟩

theorem candidate_of_pick {sc : Scope} {tier : Tier} {prefixKey : Option Utf8.Text}
    {e : BackendEntry} {reason : RouteReason} (h : pick digest (r.tierPool sc tier) prefixKey =
      .ok (some (e, reason))) :
    e ∈ candidates (r.tierPool sc tier) := by
  rcases pick_cases h with ⟨-, htarget, hcap⟩ | ⟨hleast, -⟩
  · exact candidate_of_target htarget hcap
  · exact hleast.1

theorem selectDetailed_cases {prefixKey : Option Utf8.Text} {sc : Scope} {e : BackendEntry}
    {reason : RouteReason} {tier : Tier}
    (h : r.selectDetailed digest prefixKey sc = .ok (some (e, reason, tier))) :
    e ∈ candidates (r.tierPool sc tier) ∧
      ChosenBy digest (r.tierPool sc tier) prefixKey sc.model.isSome e reason ∧
      (tier = .spillover → candidates (r.tierPool sc .primary) = []) := by
  rw [selectDetailed_eq] at h
  cases hprimary : pick digest (r.tierPool sc .primary) prefixKey with
  | error err => simp [hprimary] at h
  | ok chosen =>
    cases chosen with
    | some p =>
      simp only [hprimary, Except.ok.injEq, Option.some.injEq, Prod.mk.injEq] at h
      obtain ⟨rfl, rfl, rfl⟩ := h
      exact ⟨candidate_of_pick hprimary, chosenBy_of_pick hprimary, by simp⟩
    | none =>
      simp only [hprimary] at h
      have hnone := ((pick_eq_none_iff digest r sc .primary prefixKey).mp hprimary).2
      cases hspill : pick digest (r.tierPool sc .spillover) prefixKey with
      | error err => simp [hspill] at h
      | ok chosen =>
        cases chosen with
        | none => simp [hspill] at h
        | some p =>
          simp only [hspill, Except.ok.injEq, Option.some.injEq, Prod.mk.injEq] at h
          obtain ⟨rfl, rfl, rfl⟩ := h
          exact ⟨candidate_of_pick hspill, chosenBy_of_pick hspill, fun _ => hnone⟩

theorem mem_candidates_iff {sc : Scope} {tier : Tier} {e : BackendEntry} :
    e ∈ candidates (r.tierPool sc tier) ↔
      e ∈ r.entries ∧ e.CanServe sc ∧ (e.spillover = true ↔ tier = .spillover) := by
  rw [BackendEntry.canServe_iff]
  unfold candidates tierPool
  simp only [List.mem_filter]
  cases tier with
  | primary => cases e.spillover <;> simp [and_assoc]
  | spillover => cases e.spillover <;> simp [and_assoc]

theorem mem_capable_iff {sc : Scope} {tier : Tier} {e : BackendEntry} :
    e ∈ capable (r.tierPool sc tier) ↔
      e ∈ r.entries ∧ e.Caches sc ∧ (e.spillover = true ↔ tier = .spillover) := by
  rw [BackendEntry.caches_iff]
  unfold capable tierPool
  simp only [List.mem_filter]
  cases tier with
  | primary => cases e.spillover <;> simp [and_assoc]
  | spillover => cases e.spillover <;> simp [and_assoc]

/-- The prefix key has no bytes and an entry with a prefix cache asks for them: one of the primary
tier, or one of the spillover tier when no entry of the primary tier can serve. -/
def Stuck (r : BackendRegistry) (prefixKey : Option Utf8.Text) (sc : Scope) : Prop :=
  Surrogates prefixKey ∧
    ((∃ e ∈ r.entries, e.spillover = false ∧ e.Caches sc) ∨
      (∀ e ∈ r.entries, e.spillover = false → ¬ e.CanServe sc) ∧
        ∃ e ∈ r.entries, e.spillover = true ∧ e.Caches sc)

theorem capable_ne_nil_iff {sc : Scope} {tier : Tier} :
    capable (r.tierPool sc tier) ≠ [] ↔
      ∃ e ∈ r.entries, e.spillover = decide (tier = .spillover) ∧ e.Caches sc := by
  constructor
  · intro h
    obtain ⟨e, he⟩ := List.exists_mem_of_ne_nil _ h
    obtain ⟨hmem, hcaches, htier⟩ := mem_capable_iff.mp he
    exact ⟨e, hmem, Bool.eq_iff_iff.mpr (htier.trans decide_eq_true_iff.symm), hcaches⟩
  · rintro ⟨e, hmem, htier, hcaches⟩
    exact List.ne_nil_of_mem
      (mem_capable_iff.mpr ⟨hmem, hcaches, by rw [htier, decide_eq_true_iff]⟩)

theorem candidates_primary_eq_nil_iff {sc : Scope} :
    candidates (r.tierPool sc .primary) = [] ↔
      ∀ e ∈ r.entries, e.spillover = false → ¬ e.CanServe sc := by
  rw [List.eq_nil_iff_forall_not_mem]
  simp only [mem_candidates_iff, reduceCtorEq, iff_false, Bool.not_eq_true]
  exact ⟨fun h e he hsp hserve => h e ⟨he, hserve, hsp⟩, fun h e he => h e he.1 he.2.2 he.2.1⟩

/-- A selection raises exactly when it is stuck on the key. -/
theorem selectDetailed_eq_error_iff (digest : List UInt8 → Nat) (r : BackendRegistry)
    (prefixKey : Option Utf8.Text) (sc : Scope) {err : AcquireError} :
    r.selectDetailed digest prefixKey sc = .error err ↔ err = .unicodeEncode ∧
      r.Stuck prefixKey sc := by
  have hprimary := pick_eq_error_iff digest r sc .primary prefixKey (e := err)
  have hspill := pick_eq_error_iff digest r sc .spillover prefixKey (e := err)
  have hnone := pick_eq_none_iff digest r sc .primary prefixKey
  simp only [capable_ne_nil_iff, reduceCtorEq, decide_false, decide_true,
    candidates_primary_eq_nil_iff] at *
  rw [selectDetailed_eq]
  unfold Stuck
  cases hp : pick digest (r.tierPool sc .primary) prefixKey with
  | error err' => grind
  | ok chosen =>
    cases chosen with
    | some p => grind
    | none =>
      cases hs : pick digest (r.tierPool sc .spillover) prefixKey with
      | error err' => grind
      | ok chosen => cases chosen <;> grind

theorem selectDetailed_eq_none_iff (digest : List UInt8 → Nat) (r : BackendRegistry)
    (prefixKey : Option Utf8.Text) (sc : Scope) :
    r.selectDetailed digest prefixKey sc = .ok none ↔
      ¬ r.Stuck prefixKey sc ∧ ∀ e ∈ r.entries, ¬ e.CanServe sc := by
  by_cases hstuck : r.Stuck prefixKey sc
  · rw [(selectDetailed_eq_error_iff digest r prefixKey sc).mpr ⟨rfl, hstuck⟩]
    simp [hstuck]
  have hboth : r.selectDetailed digest prefixKey sc = .ok none ↔
      candidates (r.tierPool sc .primary) = [] ∧ candidates (r.tierPool sc .spillover) = [] := by
    have herr {err} : r.selectDetailed digest prefixKey sc ≠ .error err := fun h =>
      hstuck ((selectDetailed_eq_error_iff digest r prefixKey sc).mp h).2
    have hprimary := pick_eq_none_iff digest r sc .primary prefixKey
    have hspill := pick_eq_none_iff digest r sc .spillover prefixKey
    have hfail {tier} := (pick_eq_error_iff digest r sc tier prefixKey (e := .unicodeEncode)).mpr
    rw [selectDetailed_eq] at herr ⊢
    cases hp : pick digest (r.tierPool sc .primary) prefixKey with
    | error err => simp [hp] at herr
    | ok chosen =>
      cases chosen with
      | some p => grind
      | none =>
        cases hs : pick digest (r.tierPool sc .spillover) prefixKey with
        | error err => simp [hp, hs] at herr
        | ok chosen => cases chosen <;> grind
  rw [hboth, List.eq_nil_iff_forall_not_mem, List.eq_nil_iff_forall_not_mem]
  simp only [mem_candidates_iff, reduceCtorEq, iff_false, iff_true, hstuck,
    not_false_eq_true, true_and]
  constructor
  · rintro ⟨hprimary, hspill⟩ e he hserve
    cases hsp : e.spillover with
    | false => exact hprimary e ⟨he, hserve, by simp [hsp]⟩
    | true => exact hspill e ⟨he, hserve, hsp⟩
  · intro h
    exact ⟨fun e he => h e he.1 he.2.1, fun e he => h e he.1 he.2.1⟩

structure Acquires (digest : List UInt8 → Nat) (r : BackendRegistry) (prefixKey : Option Utf8.Text)
    (sc : Scope) : Prop where
  succeeds : (∃ l r', r.acquire digest prefixKey sc = .ok (l, r')) ↔
    ∃ e ∈ r.entries, e.CanServe sc
  taken : ∀ l r', r.acquire digest prefixKey sc = .ok (l, r') →
    ∃ e, r.entries[l.entry]? = some e ∧ e.CanServe sc ∧ l.released = false ∧
      r'.entries = r.entries.set l.entry { e with inFlight := e.inFlight + 1 }
  unloaded : r.acquire digest prefixKey sc = .error (.noBackend .unloaded) ↔
    ∀ e ∈ r.entries, ¬ e.ReadyFor sc
  featureUnsupported :
    r.acquire digest prefixKey sc = .error (.featureUnsupported sc.required sc.model) ↔
      (∃ e ∈ r.entries, e.ReadyFor sc) ∧
        ∀ e ∈ r.entries, e.ReadyFor sc → ¬ e.Supports sc.required
  busy : r.acquire digest prefixKey sc = .error (.noBackend .busy) ↔
    (∃ e ∈ r.entries, e.ReadyFor sc ∧ e.Supports sc.required) ∧
      ∀ e ∈ r.entries, e.ReadyFor sc → e.Supports sc.required → ¬ e.inFlight < e.maxInFlight

section Diagnosis

variable (r) (sc : Scope)

theorem modelReady_isEmpty_iff :
    (r.entries.filter fun e =>
      sc.admits e && e.isReady && (sc.model.isNone || e.liveModel == sc.model)).isEmpty = true ↔
      ∀ e ∈ r.entries, ¬ e.ReadyFor sc := by
  rw [List.isEmpty_iff, List.filter_eq_nil_iff]
  have hready (e : BackendEntry) : e.ReadyFor sc ↔
      (sc.admits e && e.isReady && (sc.model.isNone || e.liveModel == sc.model)) = true := by
    unfold BackendEntry.ReadyFor
    cases sc.model with
    | none => simp
    | some m => simp [and_assoc]
  simp only [hready]

theorem featureReady_isEmpty_iff :
    ((r.entries.filter fun e =>
        sc.admits e && e.isReady && (sc.model.isNone || e.liveModel == sc.model)).filter
          fun e => e.eligible sc.model sc.required).isEmpty = true ↔
      ∀ e ∈ r.entries, e.ReadyFor sc → ¬ e.Supports sc.required := by
  rw [List.isEmpty_iff, List.filter_eq_nil_iff]
  simp only [List.mem_filter, Bool.and_eq_true]
  constructor
  · intro h e he hready hsup
    refine h e ⟨he, ⟨hready.1, hready.2.1⟩, ?_⟩
      ((BackendEntry.eligible_iff hready.2.1).mpr ⟨hready.2.2, hsup⟩)
    cases hm : sc.model with
    | none => simp
    | some m => simpa using hready.2.2 m hm
  · rintro h e ⟨he, ⟨hin, hready⟩, -⟩ helig
    obtain ⟨hlive, hsup⟩ := (BackendEntry.eligible_iff hready).mp helig
    exact h e he ⟨hin, hready, hlive⟩ hsup

end Diagnosis

/-- What the entries lack when `acquire` finds none and raises `err`. -/
def Lacks (r : BackendRegistry) (sc : Scope) : AcquireError → Prop
  | .noBackend .unloaded => ∀ e ∈ r.entries, ¬ e.ReadyFor sc
  | .featureUnsupported features model =>
    features = sc.required ∧ model = sc.model ∧ (∃ e ∈ r.entries, e.ReadyFor sc) ∧
      ∀ e ∈ r.entries, e.ReadyFor sc → ¬ e.Supports sc.required
  | .noBackend .busy =>
    (∃ e ∈ r.entries, e.ReadyFor sc ∧ e.Supports sc.required) ∧
      ∀ e ∈ r.entries, e.ReadyFor sc → e.Supports sc.required → ¬ e.inFlight < e.maxInFlight
  | .unicodeEncode => False

/-- No error is raised while an entry can serve. -/
theorem Lacks.not_canServe {sc : Scope} {err : AcquireError} (h : r.Lacks sc err) :
    ∀ e ∈ r.entries, ¬ e.CanServe sc := by
  rintro e he ⟨hready, hsup, hroom⟩
  unfold Lacks at h
  split at h
  · exact h e he hready
  · exact h.2.2.2 e he hready hsup
  · exact h.2 e he hready hsup hroom
  · exact h

theorem Lacks.unique {sc : Scope} {err err' : AcquireError} (h : r.Lacks sc err)
    (h' : r.Lacks sc err') : err = err' := by
  unfold Lacks at h h'
  split at h <;> split at h'
  all_goals grind

/-- A call that finds no entry raises the error that says what the entries lack. -/
theorem acquire_error {prefixKey : Option Utf8.Text} {sc : Scope}
    (h : r.selectDetailed digest prefixKey sc = .ok none) :
    ∃ err, r.acquire digest prefixKey sc = .error err ∧ r.Lacks sc err := by
  have hfull := ((selectDetailed_eq_none_iff digest r prefixKey sc).mp h).2
  unfold acquire
  simp only [h]
  by_cases hready : ∀ e ∈ r.entries, ¬ e.ReadyFor sc
  · rw [if_pos ((modelReady_isEmpty_iff r sc).mpr hready)]
    exact ⟨_, rfl, hready⟩
  · rw [if_neg fun hc => hready ((modelReady_isEmpty_iff r sc).mp hc)]
    simp only [not_forall, not_not] at hready
    by_cases hfeat : ∀ e ∈ r.entries, e.ReadyFor sc → ¬ e.Supports sc.required
    · rw [if_pos ((featureReady_isEmpty_iff r sc).mpr hfeat)]
      obtain ⟨e, he, hr⟩ := hready
      exact ⟨_, rfl, rfl, rfl, ⟨e, he, hr⟩, hfeat⟩
    · rw [if_neg fun hc => hfeat ((featureReady_isEmpty_iff r sc).mp hc)]
      simp only [not_forall, not_not] at hfeat
      obtain ⟨e, he, hr, hsup⟩ := hfeat
      refine ⟨_, rfl, ⟨e, he, hr, hsup⟩, ?_⟩
      intro e' he' hr' hsup' hroom
      exact hfull e' he' ⟨hr', hsup', hroom⟩

theorem acquire_eq_ok {prefixKey : Option Utf8.Text} {sc : Scope} {l : RegistryLease}
    (h : r.acquire digest prefixKey sc = .ok (l, r')) :
    ∃ e, r.selectDetailed digest prefixKey sc = .ok (some (e, l.decision.reason, l.decision.tier)) ∧
      l.entry = e.order ∧ l.released = false ∧ r' = r.modifyInFlight e.order (· + 1) ∧
      l.decision.backend = e.name ∧ l.decision.engine = e.kind ∧
      l.decision.fallbacks = (if l.decision.tier = .spillover then [.spillover] else []) := by
  unfold acquire at h
  cases hsel : r.selectDetailed digest prefixKey sc with
  | error err => simp [hsel] at h
  | ok chosen =>
    cases chosen with
    | none =>
      obtain ⟨err, he, -⟩ := acquire_error hsel
      unfold acquire at he
      rw [he] at h
      cases h
    | some p =>
      obtain ⟨e, reason, tier⟩ := p
      simp only [hsel, Except.ok.injEq, Prod.mk.injEq] at h
      obtain ⟨rfl, rfl⟩ := h
      refine ⟨e, rfl, rfl, rfl, rfl, rfl, rfl, ?_⟩
      cases tier <;> rfl

theorem modifyInFlight_entries {i : Nat} {e : BackendEntry} (h : r.entries[i]? = some e)
    (f : Nat → Nat) :
    (r.modifyInFlight i f).entries = r.entries.set i { e with inFlight := f e.inFlight } := by
  unfold modifyInFlight modifyEntry
  simp only [List.modify_eq_set_getElem?, h, Option.map_eq_map, Option.map_some, Option.getD_some]

theorem canServe_of_acquire {prefixKey : Option Utf8.Text} {sc : Scope} {l : RegistryLease}
    (h : r.acquire digest prefixKey sc = .ok (l, r')) : ∃ e ∈ r.entries, e.CanServe sc := by
  obtain ⟨e, hsel, -⟩ := acquire_eq_ok h
  obtain ⟨he, hserve, -⟩ := mem_candidates_iff.mp (selectDetailed_cases hsel).1
  exact ⟨e, he, hserve⟩

theorem acquire_stuck (digest : List UInt8 → Nat) {prefixKey : Option Utf8.Text} {sc : Scope}
    (h : r.Stuck prefixKey sc) : r.acquire digest prefixKey sc = .error .unicodeEncode := by
  unfold acquire
  rw [(selectDetailed_eq_error_iff digest r prefixKey sc).mpr ⟨rfl, h⟩]

theorem acquire_succeeds_iff {prefixKey : Option Utf8.Text} {sc : Scope}
    (h : ¬ r.Stuck prefixKey sc) :
    (∃ l r', r.acquire digest prefixKey sc = .ok (l, r')) ↔ ∃ e ∈ r.entries, e.CanServe sc := by
  constructor
  · rintro ⟨l, r', hacq⟩
    exact canServe_of_acquire hacq
  · rintro ⟨e, he, hserve⟩
    cases hsel : r.selectDetailed digest prefixKey sc with
    | error err => exact absurd ((selectDetailed_eq_error_iff digest r prefixKey sc).mp hsel).2 h
    | ok chosen =>
      cases chosen with
      | none =>
        exact absurd hserve (((selectDetailed_eq_none_iff digest r prefixKey sc).mp hsel).2 e he)
      | some p =>
        simp only [acquire, hsel, Except.ok.injEq, Prod.mk.injEq]
        exact ⟨_, _, rfl, rfl⟩

theorem acquire_taken {prefixKey : Option Utf8.Text} {sc : Scope} {l : RegistryLease}
    (h : r.acquire digest prefixKey sc = .ok (l, r')) :
    ∃ e, r.entries[l.entry]? = some e ∧ e.CanServe sc ∧ l.released = false ∧
      r'.entries = r.entries.set l.entry { e with inFlight := e.inFlight + 1 } := by
  obtain ⟨e, hsel, hentry, hrel, hr', -⟩ := acquire_eq_ok h
  obtain ⟨he, hserve, -⟩ := mem_candidates_iff.mp (selectDetailed_cases hsel).1
  have hget := getElem?_order he
  rw [hentry, hr']
  exact ⟨e, hget, hserve, hrel, modifyInFlight_entries hget (· + 1)⟩

/-- A call that is not stuck and fails has found no entry that can serve. -/
theorem selectDetailed_of_error {prefixKey : Option Utf8.Text} {sc : Scope} {err : AcquireError}
    (hstuck : ¬ r.Stuck prefixKey sc) (h : r.acquire digest prefixKey sc = .error err) :
    r.selectDetailed digest prefixKey sc = .ok none := by
  cases hsel : r.selectDetailed digest prefixKey sc with
  | error err' =>
    exact absurd ((selectDetailed_eq_error_iff digest r prefixKey sc).mp hsel).2 hstuck
  | ok chosen =>
    cases chosen with
    | none => rfl
    | some p => simp [acquire, hsel] at h

/-- It raises an error exactly when the entries lack what it says. -/
theorem acquire_error_iff {prefixKey : Option Utf8.Text} {sc : Scope} {err : AcquireError}
    (hstuck : ¬ r.Stuck prefixKey sc) :
    r.acquire digest prefixKey sc = .error err ↔ r.Lacks sc err := by
  constructor
  · intro h
    obtain ⟨err', h', hlacks⟩ := acquire_error (selectDetailed_of_error hstuck h)
    rw [h] at h'
    cases h'
    exact hlacks
  · intro hlacks
    have hnone := (selectDetailed_eq_none_iff digest r prefixKey sc).mpr ⟨hstuck,
        hlacks.not_canServe⟩
    obtain ⟨err', h', hlacks'⟩ := acquire_error hnone
    rwa [hlacks.unique hlacks']

theorem acquires_of_not_stuck (digest : List UInt8 → Nat) {prefixKey : Option Utf8.Text}
    {sc : Scope} (h : ¬ r.Stuck prefixKey sc) : Acquires digest r prefixKey sc where
  succeeds := acquire_succeeds_iff h
  taken _ _ hacq := acquire_taken hacq
  unloaded := acquire_error_iff h
  featureUnsupported := (acquire_error_iff h).trans (by simp [Lacks])
  busy := acquire_error_iff h

/-- An entry with a prefix cache is there, ready and capable: the call should succeed, or say that
all are busy. -/
theorem not_acquires_of_stuck (digest : List UInt8 → Nat) {prefixKey : Option Utf8.Text}
    {sc : Scope} (h : r.Stuck prefixKey sc) : ¬ Acquires digest r prefixKey sc := by
  intro hacq
  have hraises := acquire_stuck digest h
  have hserve : ∀ e ∈ r.entries, ¬ e.CanServe sc := fun e he hserve => by
    obtain ⟨l, r', hok⟩ := hacq.succeeds.mpr ⟨e, he, hserve⟩
    rw [hraises] at hok
    cases hok
  obtain ⟨e, he, hready, hsup, -⟩ : ∃ e ∈ r.entries, e.Caches sc := by
    obtain ⟨-, ⟨e, he, -, hcaches⟩ | ⟨-, e, he, -, hcaches⟩⟩ := h <;> exact ⟨e, he, hcaches⟩
  have hbusy := hacq.busy.mpr
    ⟨⟨e, he, hready, hsup⟩, fun e' he' hready' hsup' hroom => hserve e' he' ⟨hready', hsup', hroom⟩⟩
  rw [hraises] at hbusy
  cases hbusy

theorem acquires_iff_not_stuck (digest : List UInt8 → Nat) (r : BackendRegistry)
    (prefixKey : Option Utf8.Text) (sc : Scope) :
    Acquires digest r prefixKey sc ↔ ¬ r.Stuck prefixKey sc :=
  ⟨fun h hstuck => not_acquires_of_stuck digest hstuck h, acquires_of_not_stuck digest⟩

/-- One idle worker with a prefix cache. -/
def cachingWorker : BackendRegistry :=
  .ofEntries
    [{ name := "a", kind := "remote_vllm", backend := some ⟨.ready,
      ⟨"m", false⟩⟩, prefixCache := true }]

theorem cachingWorker_stuck : cachingWorker.Stuck (some [.surrogate 0]) { model := some "m" } := by
  refine ⟨⟨_, rfl, by decide⟩, .inl ⟨_, List.mem_cons_self .., rfl, ?_⟩⟩
  rw [BackendEntry.caches_iff]
  decide

/-- The worker can serve, and the prefix key "\ud800" of a request has no bytes. -/
theorem surrogate_raises :
    cachingWorker.acquire List.length (some [.surrogate 0])
      { model := some "m" } = .error .unicodeEncode ∧
      ¬ Acquires List.length cachingWorker (some [.surrogate 0]) { model := some "m" } :=
  ⟨acquire_stuck _ cachingWorker_stuck, not_acquires_of_stuck _ cachingWorker_stuck⟩

/-- Where `acquire` puts a request, and what it records. -/
structure FollowsPolicy (digest : List UInt8 → Nat) (r : BackendRegistry)
    (prefixKey : Option Utf8.Text) (sc : Scope) (l : RegistryLease) (e : BackendEntry) : Prop where
  serves : e.CanServe sc
  tier : l.decision.tier = if e.spillover then .spillover else .primary
  spillover : e.spillover = true → ∀ e' ∈ r.entries, e'.spillover = false → ¬ e'.CanServe sc
  rule : ChosenBy digest (r.tierPool sc l.decision.tier) prefixKey sc.model.isSome e
    l.decision.reason
  onlyRule : ∀ reason, ChosenBy digest (r.tierPool sc l.decision.tier) prefixKey sc.model.isSome e
    reason → reason = l.decision.reason
  fallbacks : l.decision.fallbacks = if e.spillover then [.spillover] else []
  backend : l.decision.backend = e.name
  engine : l.decision.engine = e.kind

theorem chosenBy_unique {pool : List BackendEntry} {prefixKey : Option Utf8.Text} {byName : Bool}
    {e : BackendEntry} {reason reason' : RouteReason}
    (h : ChosenBy digest pool prefixKey byName e reason)
    (h' : ChosenBy digest pool prefixKey byName e reason') : reason' = reason := by
  cases htarget : affinityTarget digest pool prefixKey with
  | none =>
    cases reason <;> cases reason' <;> simp_all [ChosenBy]
  | some target =>
    cases reason <;> cases reason' <;> simp_all [ChosenBy]

/-- An entry without its load. -/
def withoutLoad (e : BackendEntry) : BackendEntry := { e with inFlight := 0 }

theorem map_filter_withoutLoad {p : BackendEntry → Bool} (hp : ∀ e, p (withoutLoad e) = p e)
    (l : List BackendEntry) : (l.filter p).map withoutLoad = (l.map withoutLoad).filter p := by
  rw [List.filter_map]
  congr 1
  apply List.filter_congr
  intro e _
  exact (hp e).symm

theorem capable_withoutLoad (r : BackendRegistry) (sc : Scope) (tier : Tier) :
    (capable (r.tierPool sc tier)).map withoutLoad =
      (((r.entries.map withoutLoad).filter fun e =>
        sc.admits e && e.eligible sc.model sc.required).filter fun e =>
          match tier with
          | .primary => !e.spillover
          | .spillover => e.spillover).filter fun e => e.isReady && e.prefixCache := by
  unfold capable tierPool
  rw [map_filter_withoutLoad (fun e => rfl),
    map_filter_withoutLoad (fun e => by cases tier <;> rfl), map_filter_withoutLoad (fun e => rfl)]

/-- The affinity target is a matter of the key and of who is ready and capable, not of the loads. -/
theorem affinityTarget_withoutLoad {r₁ r₂ : BackendRegistry}
    (h : r₁.entries.map withoutLoad = r₂.entries.map withoutLoad) (sc : Scope) (tier : Tier)
    (prefixKey : Option Utf8.Text) :
    (affinityTarget digest (r₁.tierPool sc tier) prefixKey).map withoutLoad =
      (affinityTarget digest (r₂.tierPool sc tier) prefixKey).map withoutLoad := by
  have hcapable : (capable (r₁.tierPool sc tier)).map withoutLoad =
      (capable (r₂.tierPool sc tier)).map withoutLoad := by
    rw [capable_withoutLoad, capable_withoutLoad, h]
  have hlen := congrArg List.length hcapable
  simp only [List.length_map] at hlen
  unfold affinityTarget
  cases prefixKey with
  | none => rfl
  | some key =>
    simp only
    split
    · rfl
    · simp only [Option.map_bind, Function.comp_def, ← List.getElem?_map, hcapable, hlen]

/-- **The placement policy.** The entry of every lease is the one the policy names: of the spillover
tier only when no other entry can serve; within the tier the target of the prefix key, whatever the
loads, or else the least busy entry; and the decision records the rule that applied, and no
other. -/
theorem follows_policy {prefixKey : Option Utf8.Text} {sc : Scope} {l : RegistryLease}
    (h : r.acquire digest prefixKey sc = .ok (l, r')) :
    (∃ e, r.entries[l.entry]? = some e ∧ FollowsPolicy digest r prefixKey sc l e) ∧
      ∀ r₂ : BackendRegistry, r₂.entries.map withoutLoad = r.entries.map withoutLoad →
        ∀ tier, (affinityTarget digest (r₂.tierPool sc tier) prefixKey).map withoutLoad =
          (affinityTarget digest (r.tierPool sc tier) prefixKey).map withoutLoad := by
  obtain ⟨e, hsel, hentry, -, -, hname, hkind, hfall⟩ := acquire_eq_ok h
  obtain ⟨hcand, hrule, hspill⟩ := selectDetailed_cases hsel
  obtain ⟨hmem, hserve, htier⟩ := mem_candidates_iff.mp hcand
  refine ⟨⟨e, ?_, ?_⟩, fun r₂ hr₂ tier => affinityTarget_withoutLoad hr₂ sc tier prefixKey⟩
  · rw [hentry]
    exact getElem?_order hmem
  · refine ⟨hserve, ?_, ?_, hrule, fun reason hr => chosenBy_unique hrule hr, ?_, hname, hkind⟩
    · cases hsp : e.spillover with
      | false =>
        cases ht : l.decision.tier with
        | primary => rfl
        | spillover => simp [hsp, ht] at htier
      | true => exact htier.mp hsp
    · intro hsp e' he' hprimary hserve'
      have hnil := hspill (htier.mp hsp)
      have : e' ∈ candidates (r.tierPool sc .primary) :=
        mem_candidates_iff.mpr ⟨he', hserve', by simp [hprimary]⟩
      rw [hnil] at this
      cases this
    · rw [hfall]
      cases hsp : e.spillover with
      | false => simp [← htier, hsp]
      | true => simp [htier.mp hsp]

/-- Two workers with a prefix cache; the first is full. -/
def twoWorkers : BackendRegistry :=
  .ofEntries
    [{ name := "a", kind := "remote_vllm", backend := some ⟨.ready, ⟨"m", false⟩⟩,
       prefixCache := true, inFlight := 1 },
     { name := "b", kind := "remote_vllm", backend := some ⟨.ready, ⟨"m", false⟩⟩,
       prefixCache := true }]

/-- A key of two bytes, which belongs to the first worker. -/
def hi : Utf8.Text := Utf8.Text.ofString "hi"

theorem follows_policy_twoWorkers :
    ∃ l r', twoWorkers.acquire List.length (some hi) { model := some "m" } = .ok (l, r') ∧
      l.decision.reason = .affinityFallback ∧
      ∃ e, twoWorkers.entries[l.entry]? = some e ∧ e.name = "b" ∧
        FollowsPolicy List.length twoWorkers (some hi) { model := some "m" } l e := by
  obtain ⟨l, r', h⟩ : ∃ l r', twoWorkers.acquire List.length (some hi) { model := some "m" } =
      .ok (l, r') := ⟨_, _, rfl⟩
  obtain ⟨⟨e, he, hpol⟩, -⟩ := follows_policy h
  have hl : (twoWorkers.acquire List.length (some hi) { model := some "m" }).map
      (fun p => (p.1.entry, p.1.decision.reason)) = .ok (1, .affinityFallback) := by decide +kernel
  rw [h] at hl
  simp only [Except.map, Except.ok.injEq, Prod.mk.injEq] at hl
  have hb : e.name = "b" := by
    rw [hl.1] at he
    cases he
    rfl
  exact ⟨l, r', h, hl.2, e, he, hb, hpol⟩

end BackendRegistry

/-- The registry and every lease it has given out. -/
structure RegistryDesk where
  registry : BackendRegistry
  leases : List RegistryLease

namespace RegistryDesk

open BackendRegistry

inductive Ev where
  | acquire (prefixKey : Option Utf8.Text) (sc : Scope)
  /-- `release` of the lease given out as number `k`, for the first time or again -/
  | release (k : Nat)
  /-- a load, an unload, a swap, a crash, or a health probe -/
  | refresh (i : Nat) (backend : Option BackendView) (available : Bool)
  deriving DecidableEq, Repr

def init (entries : List BackendEntry) : RegistryDesk where
  registry := .ofEntries entries
  leases := []

def step (digest : List UInt8 → Nat) (s : RegistryDesk) : Ev → Option RegistryDesk
  | .acquire prefixKey sc =>
    match s.registry.acquire digest prefixKey sc with
    | .ok (l, r) => some ⟨r, s.leases ++ [l]⟩
    | .error _ => some s
  | .release k =>
    match s.leases[k]? with
    | none => none
    | some l => some ⟨(l.release s.registry).2, s.leases.set k (l.release s.registry).1⟩
  | .refresh i backend available =>
    some { s with registry := s.registry.refresh i backend available }

/-- The unreleased leases on entry `i`. -/
def unreleased (s : RegistryDesk) (i : Nat) : Nat :=
  s.leases.countP fun l => !l.released && l.entry == i

/-- The slots in flight on each entry are its unreleased leases, within its bound; every lease is of
an entry of the registry. -/
structure Accounts (s : RegistryDesk) : Prop where
  inFlight : ∀ i e, s.registry.entries[i]? = some e →
    e.inFlight = s.unreleased i ∧ e.inFlight ≤ e.maxInFlight
  entry : ∀ l ∈ s.leases, l.entry < s.registry.entries.length

variable {digest : List UInt8 → Nat} {s s' : RegistryDesk}

theorem init_accounts {entries : List BackendEntry} (h : ∀ e ∈ entries, e.inFlight = 0) :
    (init entries).Accounts := by
  refine ⟨fun i e he => ?_, by simp [init]⟩
  have hzero : e.inFlight = 0 := by
    unfold init ofEntries at he
    rw [List.getElem?_mapIdx, Option.map_eq_some_iff] at he
    obtain ⟨e', he', rfl⟩ := he
    exact h e' (List.mem_of_getElem? he')
  simp [hzero, unreleased, init]

/-- The books after a change of the slots of one entry, with the leases to match. -/
theorem accounts_set {i n : Nat} {e : BackendEntry} {r : BackendRegistry}
    {leases : List RegistryLease} (hs : s.Accounts) (he : s.registry.entries[i]? = some e)
    (hr : r.entries = s.registry.entries.set i { e with inFlight := n }) (hn : n ≤ e.maxInFlight)
    (hcount : ∀ j, (RegistryDesk.mk r leases).unreleased j = if i = j then n else s.unreleased j)
    (hentry : ∀ l ∈ leases, l.entry < s.registry.entries.length) :
    (RegistryDesk.mk r leases).Accounts := by
  refine ⟨fun j e' he' => ?_, by simpa only [hr, List.length_set] using hentry⟩
  simp only [hr, List.getElem?_set] at he'
  rw [hcount]
  by_cases hij : i = j
  · subst hij
    have hlt := (List.getElem?_eq_some_iff.mp he).1
    simp only [hlt, if_true, Option.some.injEq] at he'
    subst he'
    simpa using hn
  · simp only [hij, if_false] at he' ⊢
    exact hs.inFlight j e' he'

theorem acquire_accounts {prefixKey : Option Utf8.Text} {sc : Scope} (hs : s.Accounts)
    (h : step digest s (.acquire prefixKey sc) = some s') : s'.Accounts := by
  unfold step at h
  cases hacq : s.registry.acquire digest prefixKey sc with
  | error err =>
    simp only [hacq, Option.some.injEq] at h
    subst h
    exact hs
  | ok p =>
    obtain ⟨l, r⟩ := p
    simp only [hacq, Option.some.injEq] at h
    subst h
    obtain ⟨e, he, hserve, hrel, hr⟩ := acquire_taken hacq
    have hlt := (List.getElem?_eq_some_iff.mp he).1
    refine accounts_set hs he hr hserve.2.2 (fun j => ?_) fun l' hl' => ?_
    · have hcount : (RegistryDesk.mk r (s.leases ++ [l])).unreleased j =
          s.unreleased j + if l.entry = j then 1 else 0 := by
        simp [unreleased, List.countP_append, List.countP_singleton, hrel]
      rw [hcount, (hs.inFlight _ e he).1]
      split
      · rename_i hj
        rw [hj]
      · rfl
    · rw [List.mem_append, List.mem_singleton] at hl'
      rcases hl' with hl' | rfl
      · exact hs.entry l' hl'
      · exact hlt

theorem release_accounts {k : Nat} (hs : s.Accounts)
    (h : step digest s (.release k) = some s') : s'.Accounts := by
  unfold step at h
  cases hk : s.leases[k]? with
  | none => simp [hk] at h
  | some l =>
    simp only [hk, Option.some.injEq] at h
    subst h
    have hmem := List.mem_of_getElem? hk
    obtain ⟨hlt, hget⟩ := List.getElem?_eq_some_iff.mp hk
    cases hrel : l.released with
    | true =>
      have hsame : s.leases.set k l = s.leases := by rw [← hget, List.set_getElem_self]
      simpa only [RegistryLease.release, hrel, if_true, hsame] using hs
    | false =>
      simp only [RegistryLease.release, hrel, Bool.false_eq_true, if_false]
      have he := List.getElem?_eq_getElem (hs.entry l hmem)
      obtain ⟨hin, hmax⟩ := hs.inFlight _ _ he
      refine accounts_set hs he (modifyInFlight_entries he _) (by omega)
        (fun j => ?_) fun l' hl' => ?_
      · have := Count.countP_set_add (p := fun l : RegistryLease => !l.released && l.entry == j)
          (b := { l with released := true }) hk
        simp only [hrel, Bool.not_false, Bool.true_and, beq_iff_eq, Bool.not_true, Bool.false_and,
          Bool.false_eq_true, if_false, Nat.add_zero] at this
        simp only [unreleased] at hin ⊢
        by_cases hj : l.entry = j
        · subst hj
          simp only [if_true] at this ⊢
          omega
        · simp only [hj, if_false] at this ⊢
          exact this
      · rcases List.mem_or_eq_of_mem_set hl' with hl' | rfl
        · exact hs.entry l' hl'
        · exact hs.entry l hmem

theorem refresh_accounts {i : Nat} {backend : Option BackendView} {available : Bool}
    (hs : s.Accounts) (h : step digest s (.refresh i backend available) = some s') :
    s'.Accounts := by
  unfold step at h
  cases h
  refine ⟨fun j e he => ?_, ?_⟩
  · simp only [refresh, modifyEntry, List.getElem?_modify, Option.map_eq_map,
      Option.map_eq_some_iff] at he
    obtain ⟨e', he', rfl⟩ := he
    have := hs.inFlight j e' he'
    split <;> exact this
  · simpa only [refresh, modifyEntry_length] using hs.entry

theorem step_accounts {ev : Ev} (hs : s.Accounts) (h : step digest s ev = some s') :
    s'.Accounts := by
  cases ev with
  | acquire prefixKey sc => exact acquire_accounts hs h
  | release k => exact release_accounts hs h
  | refresh i backend available => exact refresh_accounts hs h

/-- **Selection and diagnosis agree, and every slot is accounted for.** In every state a call of
`acquire` does what `Acquires` says, unless it is stuck on a prefix key without bytes; and along
every run of acquires, releases (repeated ones included) and changes of the backends, the slots in
flight on an entry are its unreleased leases, at most `max_in_flight`. -/
theorem acquire_accounted {entries : List BackendEntry} (hfresh : ∀ e ∈ entries, e.inFlight = 0)
    {ls : List Ev} (h : Run (step digest) (init entries) ls s) :
    (∀ (r : BackendRegistry) (prefixKey : Option Utf8.Text) (sc : Scope),
        Acquires digest r prefixKey sc ↔ ¬ r.Stuck prefixKey sc) ∧
      ∀ i e, s.registry.entries[i]? = some e →
        e.inFlight = s.unreleased i ∧ e.inFlight ≤ e.maxInFlight := by
  refine ⟨acquires_iff_not_stuck digest, ?_⟩
  exact (h.invariant (fun _ _ _ hs hst => step_accounts hs hst) (init_accounts hfresh)).inFlight

/-- A lease, a refusal, and a release that is repeated. -/
def acquiredAndReleased : List Ev :=
  [.acquire none { model := some "m" }, .acquire none { model := some "m" }, .release 0, .release 0]

/-- One backend that takes one request at a time. -/
def oneBackend : RegistryDesk :=
  init [{ name := "a", kind := "llama_cpp", backend := some ⟨.ready, ⟨"m", false⟩⟩ }]

theorem acquire_accounted_acquiredAndReleased :
    ∃ s, Run (step List.length) oneBackend acquiredAndReleased s ∧
      s.leases.map (·.released) = [true] ∧
      ∀ i e, s.registry.entries[i]? = some e →
        e.inFlight = s.unreleased i ∧ e.inFlight ≤ e.maxInFlight := by
  obtain ⟨s, hs⟩ : ∃ s, exec (step List.length) oneBackend acquiredAndReleased = some s := ⟨_, rfl⟩
  have hrun := run_of_exec hs
  have hleases : (exec (step List.length) oneBackend acquiredAndReleased).map
      (fun s => s.leases.map (·.released)) = some [true] := by decide +kernel
  rw [hs, Option.map_some, Option.some.injEq] at hleases
  exact ⟨s, hrun, hleases, (acquire_accounted (by simp) hrun).2⟩

end RegistryDesk
end InferenceEngine
