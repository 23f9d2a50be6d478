import InferenceEngine.Inference.Types
import InferenceEngine.Lib.Utf8
import Mathlib.Data.List.MinMax
import Mathlib.Data.List.Sort
import Mathlib.Data.Prod.Lex

/-!
# Inference.Registry

The backend registry (`inference/registry.py`): several backends, each with a bound on its requests
in flight, and the choice of one of them for a request.

An entry carries what its provider's backend shows at the moment (`backend`): its lifecycle state
and its live capabilities. `capabilities()` is asked of ready backends only, where it does not
raise. The SHA-256 digest of the bytes of a prefix key, read as a number, is a parameter (`digest`).
A key is any Python string; one with a surrogate has no bytes, and `pick` raises where it asks for
them.

* `selectDetailed`, `pick`: tiers, prefix affinity, least-busy.
* `acquire_ok`: a lease is one more request in flight on a ready entry that had room.
* `RegistryLease.release`: only the first release gives it back.
-/

namespace InferenceEngine

/-- The request features that placement knows (`_FEATURE_ATTR`). -/
inductive Feature where
  | structuredOutput
  deriving DecidableEq, Repr

def Feature.name : Feature → String
  | .structuredOutput => "structured_output"

/-- What placement reads of a backend's capabilities. -/
structure Capabilities where
  modelId : String
  supportsStructuredOutput : Bool
  deriving DecidableEq, Repr

/-- The capability that gates a feature. -/
def Feature.supported : Feature → Capabilities → Bool
  | .structuredOutput, caps => caps.supportsStructuredOutput

structure BackendView where
  state : BackendState
  capabilities : Capabilities
  deriving DecidableEq, Repr

structure BackendEntry where
  name : String
  kind : String
  backend : Option BackendView
  maxInFlight : Nat := 1
  prefixCache : Bool := false
  order : Nat := 0
  inFlight : Nat := 0
  available : Bool := true
  costPer1kInput : ℚ := 0
  costPer1kOutput : ℚ := 0
  spillover : Bool := false
  /-- the configured model id, while the backend is not ready -/
  servedModel : Option String := none
  deriving DecidableEq, Repr

inductive Tier where
  | primary
  | spillover
  deriving DecidableEq, Repr

inductive RouteReason where
  | modelMap
  | leastBusy
  | prefixAffinity
  | affinityFallback
  deriving DecidableEq, Repr

inductive Fallback where
  | cascadeEscalation
  | spillover
  deriving DecidableEq, Repr

inductive Policy where
  | base
  | route
  | cascade
  deriving DecidableEq, Repr

structure RouteDecision where
  backend : String
  engine : String
  tier : Tier
  reason : RouteReason
  fallbacks : List Fallback := []
  policy : Policy := .base
  step : Option Nat := none
  workloadRule : Option String := none
  deriving DecidableEq, Repr

/-- One slot in flight on the entry at index `entry`. -/
structure RegistryLease where
  entry : Nat
  decision : RouteDecision
  released : Bool := false
  deriving DecidableEq, Repr

inductive NoBackendReason where
  | unloaded
  | busy
  deriving DecidableEq, Repr

/-- Why `acquire` raises: `NoBackendAvailable`, `FeatureUnsupportedError`, or the
`UnicodeEncodeError` of the prefix key. -/
inductive AcquireError where
  | noBackend (reason : NoBackendReason)
  | featureUnsupported (features : List Feature) (model : Option String)
  | unicodeEncode
  deriving DecidableEq, Repr

namespace BackendEntry

def isLoaded (e : BackendEntry) : Bool :=
  match e.backend with
  | some b => b.state = .ready ∨ b.state = .generating
  | none => false

def isReady (e : BackendEntry) : Bool := e.available && e.isLoaded

def hasCapacity (e : BackendEntry) : Bool := e.inFlight < e.maxInFlight

def liveModel (e : BackendEntry) : Option String :=
  if e.isReady then e.backend.map (·.capabilities.modelId) else none

def currentModel (e : BackendEntry) : Option String := e.liveModel <|> e.servedModel

/-- `BackendRegistry.eligible`. -/
def eligible (e : BackendEntry) (model : Option String) (required : List Feature) : Bool :=
  (model.isNone || e.liveModel == model) &&
    (required.isEmpty ||
      match (if e.isReady then e.backend else none) with
      | some b => required.all fun f => f.supported b.capabilities
      | none => false)

/-- The key of the least-busy choice. -/
def load (e : BackendEntry) : ℕ ×ₗ ℕ := toLex (e.inFlight, e.order)

end BackendEntry

/-- A registry numbers its entries. -/
structure BackendRegistry where
  entries : List BackendEntry
  order_eq : ∀ (i : Nat) (e : BackendEntry), entries[i]? = some e → e.order = i

/-- The scope of a placement: the names a route step allows, the model, the features. -/
structure Scope where
  allowed : Option (List String) := none
  model : Option String := none
  required : List Feature := []
  deriving DecidableEq, Repr

def Scope.admits (sc : Scope) (e : BackendEntry) : Bool :=
  match sc.allowed with
  | none => true
  | some names => names.contains e.name

namespace BackendRegistry

/-- `BackendRegistry.__init__`. -/
def ofEntries (entries : List BackendEntry) : BackendRegistry where
  entries := entries.mapIdx fun i e => { e with order := i }
  order_eq := by
    intro i e h
    rw [List.getElem?_mapIdx, Option.map_eq_some_iff] at h
    obtain ⟨e', -, rfl⟩ := h
    rfl

/-- Change entry `i`, but not its number. -/
def modifyEntry (r : BackendRegistry) (i : Nat) (f : BackendEntry → BackendEntry)
    (hf : ∀ e, (f e).order = e.order) : BackendRegistry where
  entries := r.entries.modify i f
  order_eq := by
    intro j e h
    rw [List.getElem?_modify, Option.map_eq_map, Option.map_eq_some_iff] at h
    obtain ⟨e', he', rfl⟩ := h
    split
    · rw [hf]; exact r.order_eq j e' he'
    · exact r.order_eq j e' he'

/-- Change the number of requests in flight on entry `i`. -/
def modifyInFlight (r : BackendRegistry) (i : Nat) (f : Nat → Nat) : BackendRegistry :=
  r.modifyEntry i (fun e => { e with inFlight := f e.inFlight }) fun _ => rfl

/-- The backend of entry `i` has changed (a load, an unload, a swap, a crash), or its health flag
has. -/
def refresh (r : BackendRegistry) (i : Nat) (backend : Option BackendView) (available : Bool) :
    BackendRegistry :=
  r.modifyEntry i (fun e => { e with backend := backend, available := available }) fun _ => rfl

/-- `known_models`: is the model served, or configured to be? -/
def knowsModel (r : BackendRegistry) (name : String) : Bool :=
  r.entries.any fun e => e.currentModel == some name

def inFlight (r : BackendRegistry) (i : Nat) : Nat := (r.entries[i]?.map (·.inFlight)).getD 0

section Select

variable (digest : List UInt8 → Nat)

/-- `_pick`. -/
def pick (pool : List BackendEntry) (prefixKey : Option Utf8.Text) :
    Except AcquireError (Option (BackendEntry × RouteReason)) :=
  let candidates := pool.filter fun e => e.isReady && e.hasCapacity
  let leastBusy (reason : RouteReason) := (candidates.argmin BackendEntry.load).map (·, reason)
  match prefixKey with
  | none => .ok (leastBusy .leastBusy)
  | some key =>
    if key = [] then .ok (leastBusy .leastBusy)
    else
      let capable := (pool.filter fun e => e.isReady && e.prefixCache).insertionSort
        fun a b => a.order ≤ b.order
      if capable = [] then .ok (leastBusy .leastBusy)
      else
        match Utf8.encode? key with
        | none => .error .unicodeEncode
        | some bytes =>
          match capable[digest bytes % capable.length]? with
          | none => .ok (leastBusy .leastBusy)
          | some target =>
            if target.hasCapacity then .ok (some (target, .prefixAffinity))
            -- the target is full: least-busy placement
            else .ok (leastBusy .affinityFallback)

/-- `_select_detailed`. -/
def selectDetailed (r : BackendRegistry) (prefixKey : Option Utf8.Text) (sc : Scope) :
    Except AcquireError (Option (BackendEntry × RouteReason × Tier)) :=
  let pool := r.entries.filter fun e => sc.admits e && e.eligible sc.model sc.required
  let inTier : Tier → List BackendEntry
    | .primary => pool.filter fun e => !e.spillover
    | .spillover => pool.filter fun e => e.spillover
  -- a single candidate for a physical model is a map, not a choice
  let named (tier : Tier) (reason : RouteReason) : RouteReason :=
    if reason = .leastBusy ∧ sc.model.isSome ∧
        (inTier tier).countP (fun e => e.isReady && e.hasCapacity) = 1 then .modelMap
    else reason
  match pick digest (inTier .primary) prefixKey with
  | .error err => .error err
  | .ok (some (e, reason)) => .ok (some (e, named .primary reason, .primary))
  | .ok none =>
    match pick digest (inTier .spillover) prefixKey with
    | .error err => .error err
    | .ok (some (e, reason)) => .ok (some (e, named .spillover reason, .spillover))
    | .ok none => .ok none

/-- `acquire`. -/
def acquire (r : BackendRegistry) (prefixKey : Option Utf8.Text) (sc : Scope) :
    Except AcquireError (RegistryLease × BackendRegistry) :=
  match r.selectDetailed digest prefixKey sc with
  | .error err => .error err
  | .ok none =>
    let modelReady := r.entries.filter fun e =>
      sc.admits e && e.isReady && (sc.model.isNone || e.liveModel == sc.model)
    if modelReady.isEmpty then .error (.noBackend .unloaded)
    else if (modelReady.filter fun e => e.eligible sc.model sc.required).isEmpty then
      .error (.featureUnsupported sc.required sc.model)
    else .error (.noBackend .busy)
  | .ok (some (e, reason, tier)) =>
    .ok
      ({ entry := e.order
         decision :=
          { backend := e.name
            engine := e.kind
            tier := tier
            reason := reason
            fallbacks := match tier with
              | .spillover => [.spillover]
              | .primary => [] } },
        r.modifyInFlight e.order (· + 1))

end Select

variable {digest : List UInt8 → Nat} {r r' : BackendRegistry}

theorem getElem?_order {e : BackendEntry} (h : e ∈ r.entries) : r.entries[e.order]? = some e := by
  obtain ⟨i, hi⟩ := List.getElem?_of_mem h
  rw [r.order_eq i e hi]
  exact hi

theorem pick_spec {pool : List BackendEntry} {prefixKey : Option Utf8.Text} {e : BackendEntry}
    {reason : RouteReason} (h : pick digest pool prefixKey = .ok (some (e, reason))) :
    e ∈ pool ∧ e.isReady = true ∧ e.hasCapacity = true := by
  have hleast {reason'} (h : (.ok (((pool.filter fun e => e.isReady && e.hasCapacity).argmin
      BackendEntry.load).map (·, reason')) : Except AcquireError _) = .ok (some (e, reason))) :
      e ∈ pool ∧ e.isReady = true ∧ e.hasCapacity = true := by
    rw [Except.ok.injEq, Option.map_eq_some_iff] at h
    obtain ⟨e', he', heq⟩ := h
    cases heq
    simpa using List.argmin_mem he'
  simp only [pick] at h
  split at h
  · exact hleast h
  · split at h
    · exact hleast h
    · split at h
      · exact hleast h
      · split at h
        · cases h
        · split at h
          · exact hleast h
          · rename_i target ht
            split at h
            · rename_i hcap
              cases h
              have hmem := List.mem_of_getElem? ht
              rw [List.mem_insertionSort] at hmem
              simp only [List.mem_filter, Bool.and_eq_true] at hmem
              exact ⟨hmem.1, hmem.2.1, hcap⟩
            · exact hleast h

theorem selectDetailed_spec {prefixKey : Option Utf8.Text} {sc : Scope} {e : BackendEntry}
    {reason : RouteReason} {tier : Tier}
    (h : r.selectDetailed digest prefixKey sc = .ok (some (e, reason, tier))) :
    e ∈ r.entries ∧ e.isReady = true ∧ e.hasCapacity = true := by
  simp only [selectDetailed] at h
  split at h
  · cases h
  · rename_i hp
    cases h
    obtain ⟨hmem, hrest⟩ := pick_spec hp
    exact ⟨List.mem_of_mem_filter (List.mem_of_mem_filter hmem), hrest⟩
  · split at h
    · cases h
    · rename_i hp
      cases h
      obtain ⟨hmem, hrest⟩ := pick_spec hp
      exact ⟨List.mem_of_mem_filter (List.mem_of_mem_filter hmem), hrest⟩
    · cases h

theorem acquire_ok {prefixKey : Option Utf8.Text} {sc : Scope} {l : RegistryLease}
    (h : r.acquire digest prefixKey sc = .ok (l, r')) :
    l.released = false ∧ r' = r.modifyInFlight l.entry (· + 1) ∧
      ∃ e, r.entries[l.entry]? = some e ∧ e.isReady = true ∧ e.inFlight < e.maxInFlight := by
  simp only [acquire] at h
  split at h
  · cases h
  · split at h
    · cases h
    · split at h <;> cases h
  · rename_i e reason tier hsel
    cases h
    obtain ⟨hmem, hready, hcap⟩ := selectDetailed_spec hsel
    exact ⟨rfl, rfl, e, getElem?_order hmem, hready, by simpa [BackendEntry.hasCapacity] using hcap⟩

@[simp] theorem modifyEntry_length (r : BackendRegistry) (i : Nat)
    (f : BackendEntry → BackendEntry) (hf : ∀ e, (f e).order = e.order) :
    (r.modifyEntry i f hf).entries.length = r.entries.length := by
  simp [modifyEntry]

@[simp] theorem modifyInFlight_length (r : BackendRegistry) (i : Nat) (f : Nat → Nat) :
    (r.modifyInFlight i f).entries.length = r.entries.length :=
  modifyEntry_length ..

/-- A slot taken and given back leaves no trace. -/
theorem modifyInFlight_undo (r : BackendRegistry) (i : Nat) :
    (r.modifyInFlight i (· + 1)).modifyInFlight i (· - 1) = r := by
  cases r
  simp only [modifyInFlight, modifyEntry, List.modify_modify_eq, Function.comp_def,
    Nat.add_sub_cancel, mk.injEq]
  exact List.modify_id _ _

theorem refresh_inFlight (r : BackendRegistry) (i : Nat) (backend : Option BackendView)
    (available : Bool) (j : Nat) : (r.refresh i backend available).inFlight j = r.inFlight j := by
  simp only [inFlight, refresh, modifyEntry, List.getElem?_modify]
  cases r.entries[j]? with
  | none => rfl
  | some e => by_cases hij : i = j <;> simp [hij]

theorem ofEntries_inFlight {entries : List BackendEntry} (h : ∀ e ∈ entries, e.inFlight = 0)
    (j : Nat) : (ofEntries entries).inFlight j = 0 := by
  simp only [inFlight, ofEntries, List.getElem?_mapIdx]
  cases hj : entries[j]? with
  | none => rfl
  | some e => simpa using h e (List.mem_of_getElem? hj)

theorem modifyInFlight_inFlight (r : BackendRegistry) {i : Nat} (hi : i < r.entries.length)
    (f : Nat → Nat) (j : Nat) :
    (r.modifyInFlight i f).inFlight j = if i = j then f (r.inFlight j) else r.inFlight j := by
  simp only [inFlight, modifyInFlight, modifyEntry, List.getElem?_modify]
  split
  · rename_i hij
    subst hij
    simp [List.getElem?_eq_getElem hi]
  · cases r.entries[j]? <;> rfl

end BackendRegistry

/-- `RegistryLease.release`. The guard `if entry.in_flight > 0` is the truncated subtraction. -/
def RegistryLease.release (l : RegistryLease) (r : BackendRegistry) :
    RegistryLease × BackendRegistry :=
  if l.released then (l, r)
  else ({ l with released := true }, r.modifyInFlight l.entry (· - 1))

end InferenceEngine
