import InferenceEngine.Inference.Routing
import InferenceEngine.Lib.PyStr
import InferenceEngine.Lib.Run

/-!
# Inference.Pool

The pool that a configuration describes: the validators of `Settings` that speak of backends
(`config.py`), and the registry and the router that `create_app` builds of them (`main.py`).
Requests are placed through the router, leases released, and backends loaded, lost and probed, in
any order.

* `egress_contained`: a prompt leaves the premises only for a provider whose host is allowed, and
  only when nothing on the premises could take it.
* `routed_as_configured`: a virtual model is served by one of its steps, any other name by a backend
  that serves it, and a workload rule never leads off the premises.
-/

namespace InferenceEngine

open Lts

/-- What `config.py` takes from Python: `repr` of a text, `str.lower`, and `urlparse(url).hostname`,
which raises for what is no URL. -/
structure ConfigPy where
  repr : String → String
  lower : List Char → List Char
  hostname : String → Except Unit (Option String)

inductive RemoteKind where
  | vllm
  | sglang
  deriving DecidableEq, Repr

def RemoteKind.name : RemoteKind → String
  | .vllm => "remote_vllm"
  | .sglang => "remote_sglang"

inductive BackendKind where
  | llamacpp
  | remote (kind : RemoteKind)
  deriving DecidableEq, Repr

def BackendKind.name : BackendKind → String
  | .llamacpp => "llamacpp"
  | .remote kind => kind.name

structure RemoteWorkerSpec where
  name : String
  kind : RemoteKind := .vllm
  baseUrl : String
  modelId : Option String := none
  maxInFlight : Nat := 8
  prefixCache : Bool := true
  costPer1kInput : ℚ := 0
  costPer1kOutput : ℚ := 0
  deriving DecidableEq, Repr

inductive VirtualPolicy where
  | route
  | cascade
  deriving DecidableEq, Repr

structure VirtualModelSpec where
  name : String
  policy : VirtualPolicy := .route
  backends : List String := []
  steps : List (List String) := []
  deriving DecidableEq, Repr

/-- The fields of `Settings` that the pool is made of. A workload rule has one kind, and is kept as
it is declared. -/
structure PoolSettings where
  modelId : String := "local-model"
  backendKind : BackendKind := .llamacpp
  remoteBaseUrl : Option String := none
  remoteModel : Option String := none
  remotePrefixCache : Bool := true
  primaryMaxInFlight : Nat := 1
  primaryCostPer1kInput : ℚ := 0
  primaryCostPer1kOutput : ℚ := 0
  remoteWorkers : List RemoteWorkerSpec := []
  virtualModels : List VirtualModelSpec := []
  workloadRoutingEnabled : Bool := false
  workloadRoutingRules : List WorkloadRoutingRule := []
  allowExternalProviders : Bool := false
  egressAllowlist : List String := []
  externalProviders : List RemoteWorkerSpec := []
  deriving DecidableEq, Repr

/-- `sorted` of a set of names. -/
def sortedNames (names : List String) : List String := names.dedup.insertionSort (· ≤ ·)

/-- `effective_model_id`. -/
def RemoteWorkerSpec.effectiveModelId (w : RemoteWorkerSpec) : String :=
  match w.modelId with
  | none => "local-model"
  | some "" => "local-model"
  | some id => id

/-- `normalized_steps`. -/
def VirtualModelSpec.normalizedSteps (vm : VirtualModelSpec) : List (List String) :=
  match vm.policy with
  | .route => [vm.backends]
  | .cascade => vm.steps

def VirtualPolicy.policy : VirtualPolicy → Policy
  | .route => .route
  | .cascade => .cascade

namespace ConfigPy

variable (py : ConfigPy)

/-- `_url_host`. -/
def urlHost (url : String) : Option String :=
  match py.hostname url with
  | .ok host => host
  | .error _ => none

/-- An entry of the allowlist, as it is compared. -/
def entry (raw : String) : List Char := (py.lower raw.toList).dropWhile (· = '.')

/-- `_host_allowed`. -/
def hostAllowed (host : String) (allowlist : List String) : Bool :=
  allowlist.any fun raw =>
    py.lower host.toList = py.entry raw || ('.' :: py.entry raw).isSuffixOf (py.lower host.toList)

/-- `_check_policy`. -/
def checkPolicy (vm : VirtualModelSpec) : Except String VirtualModelSpec :=
  match vm.policy with
  | .route =>
    if vm.backends.isEmpty then
      .error ("virtual model " ++ py.repr vm.name ++ " (route) needs non-empty 'backends'")
    else if !vm.steps.isEmpty then
      .error ("virtual model " ++ py.repr vm.name ++ " (route) must not set 'steps'")
    else .ok vm
  | .cascade =>
    if vm.steps.isEmpty || vm.steps.any List.isEmpty then
      .error ("virtual model " ++ py.repr vm.name ++ " (cascade) needs 'steps' as non-empty groups")
    else if !vm.backends.isEmpty then
      .error ("virtual model " ++ py.repr vm.name ++ " (cascade) must not set 'backends'")
    else .ok vm

/-- `_validate_shape`. -/
def validateShape (rule : WorkloadRoutingRule) : Except String WorkloadRoutingRule :=
  if Py.strip rule.name.toList = [] ∨ Py.strip rule.model.toList = [] then
    .error "workload routing rule name and model must be non-empty"
  else if rule.preferredBackends.isEmpty || rule.preferredBackends.any fun n => Py.strip n.toList = [] then
    .error ("workload routing rule " ++ py.repr rule.name ++ " needs preferred_backends")
  else if rule.preferredBackends.dedup.length ≠ rule.preferredBackends.length then
    .error ("workload routing rule " ++ py.repr rule.name ++ " has duplicate preferred_backends")
  else .ok rule

end ConfigPy

namespace PoolSettings

/-- The names of the backends on the premises. -/
def primaryBackends (s : PoolSettings) : List String := "primary" :: s.remoteWorkers.map (·.name)

def backendNames (s : PoolSettings) : List String :=
  s.primaryBackends ++ s.externalProviders.map (·.name)

/-- The configured physical model ids. -/
def physicalModels (s : PoolSettings) : List String :=
  s.modelId :: s.remoteWorkers.map (·.effectiveModelId) ++ s.externalProviders.map
    (·.effectiveModelId)

section Validators

variable (py : ConfigPy) (s : PoolSettings)

/-- `_validate_remote_backend`. -/
def validateRemoteBackend : Except String PoolSettings :=
  match s.backendKind with
  | .llamacpp => .ok s
  | .remote kind =>
    let missing := (if s.remoteBaseUrl.getD "" = "" then ["remote_base_url"] else []) ++
      if s.remoteModel.getD "" = "" then ["remote_model"] else []
    if missing.isEmpty then .ok s
    else .error ("backend_kind=" ++ py.repr kind.name ++ " requires " ++
      " and ".intercalate missing ++
      " (set IE_REMOTE_BASE_URL / IE_REMOTE_MODEL); see docs/backends.md")

/-- What is wrong with the host of an external provider. -/
def providerError (p : RemoteWorkerSpec) : Option String :=
  let host := py.urlHost p.baseUrl
  if host.any (py.hostAllowed · s.egressAllowlist) then none
  else some ("external provider " ++ py.repr p.name ++ " base_url host " ++
    (match host with
      | some h => py.repr h
      | none => "None") ++
    " is not in egress_allowlist [" ++ ", ".intercalate (s.egressAllowlist.map py.repr) ++ "]")

/-- `_validate_external_providers`. -/
def validateExternalProviders : Except String PoolSettings :=
  if s.externalProviders.isEmpty then .ok s
  else if !s.allowExternalProviders then
    .error ("external_providers are configured but allow_external_providers is false; " ++
      "external egress is off by default — set allow_external_providers=true to " ++
      "acknowledge sending prompts off-premise (see docs/backends.md)")
  else if s.egressAllowlist.isEmpty then
    .error ("external_providers require a non-empty egress_allowlist (the hosts they " ++
      "may reach); refusing to allow unrestricted outbound inference")
  else
    match s.externalProviders.findSome? (s.providerError py) with
    | some msg => .error msg
    | none => .ok s

/-- `_validate_pool_names`. -/
def validatePoolNames : Except String PoolSettings :=
  let dupes := sortedNames (s.backendNames.filter fun n => 1 < s.backendNames.count n)
  if !dupes.isEmpty then .error ("duplicate backend name(s): " ++ ", ".intercalate dupes)
  else
    let collisions := ((s.virtualModels.map
      (·.name)).filter s.physicalModels.contains).insertionSort (· ≤ ·)
    if !collisions.isEmpty then
      .error ("virtual model name(s) collide with a configured physical model id: " ++
        ", ".intercalate collisions ++
        "; rename the virtual model so it does not shadow a physical model")
    else .ok s

/-- What is wrong with an enabled rule. -/
def ruleError (rule : WorkloadRoutingRule) : Option String :=
  if !rule.enabled then none
  else if (s.virtualModels.map
    (·.name)).contains rule.model || !s.physicalModels.contains rule.model then
    some ("enabled workload routing rule " ++ py.repr rule.name ++ " references non-physical " ++
      "or unknown model " ++ py.repr rule.model)
  else
    let unknown := sortedNames
      (rule.preferredBackends.filter fun n => !s.primaryBackends.contains n)
    if unknown.isEmpty then none
    else some ("enabled workload routing rule " ++ py.repr rule.name ++ " references unknown or " ++
      "non-primary backend(s): " ++ ", ".intercalate unknown)

/-- `_validate_workload_routing_rules`. -/
def validateWorkloadRoutingRules : Except String PoolSettings :=
  let names := s.workloadRoutingRules.map (·.name)
  let duplicates := sortedNames (names.filter fun n => 1 < names.count n)
  if !duplicates.isEmpty then .error ("duplicate workload routing rule name(s): " ++
    ", ".intercalate duplicates)
  else
    match s.workloadRoutingRules.findSome? (s.ruleError py) with
    | some msg => .error msg
    | none => .ok s

/-- The validators in the order in which `Settings` runs them, those of the tables first; of the
errors of several tables only the first is reported. -/
def validate : Except String PoolSettings := do
  let _ ← s.virtualModels.mapM py.checkPolicy
  let _ ← s.workloadRoutingRules.mapM py.validateShape
  let _ ← s.validateRemoteBackend py
  let _ ← s.validateExternalProviders py
  let _ ← s.validatePoolNames
  s.validateWorkloadRoutingRules py

end Validators

section Build

-- `view`: what the providers show at first
variable (py : ConfigPy) (view : String → Option BackendView) (s : PoolSettings)

/-- `_primary_entry`. -/
def primaryEntry : BackendEntry where
  name := "primary"
  kind := s.backendKind.name
  backend := view "primary"
  maxInFlight := s.primaryMaxInFlight
  prefixCache := s.backendKind ≠ .llamacpp ∧ s.remotePrefixCache
  costPer1kInput := s.primaryCostPer1kInput
  costPer1kOutput := s.primaryCostPer1kOutput
  servedModel := some s.modelId

/-- The entry of a remote worker, or of an external provider, which is spillover. -/
def workerEntry (external : Bool) (w : RemoteWorkerSpec) : BackendEntry where
  name := w.name
  kind := w.kind.name
  backend := view w.name
  maxInFlight := w.maxInFlight
  prefixCache := w.prefixCache
  costPer1kInput := w.costPer1kInput
  costPer1kOutput := w.costPer1kOutput
  spillover := external
  servedModel := some w.effectiveModelId

def entries : List BackendEntry :=
  s.primaryEntry view :: s.remoteWorkers.map (workerEntry view false) ++
    s.externalProviders.map (workerEntry view true)

/-- The error of a virtual model that refers to a backend that does not exist. -/
def unknownError (vm : VirtualModelSpec) : Option String :=
  let unknown := sortedNames (vm.normalizedSteps.flatten.filter fun n => !s.backendNames.contains n)
  if unknown.isEmpty then none
  else some ("virtual model " ++ py.repr vm.name ++ " references unknown backend(s): " ++
    ", ".intercalate unknown ++ "; known backends: " ++ ", ".intercalate
    (sortedNames s.backendNames))

def router : Router where
  virtualModels := s.virtualModels.map fun vm => ⟨vm.name, vm.policy.policy, vm.normalizedSteps⟩
  workloadRules := s.workloadRoutingRules
  workloadRoutingEnabled := s.workloadRoutingEnabled

/-- The part of `create_app` that builds the registry and the router. -/
def createPool : Except String (Router × BackendRegistry) :=
  match s.virtualModels.findSome? (s.unknownError py) with
  | some msg => .error msg
  | none => .ok (s.router, .ofEntries (s.entries view))

end Build

/-! ## What an accepted configuration is -/

variable {py : ConfigPy} {s s' : PoolSettings}

theorem bind_eq_ok {ε α β : Type} {x : Except ε α} {f : α → Except ε β} {b : β}
    (h : x >>= f = .ok b) :
    ∃ a, x = .ok a ∧ f a = .ok b := by
  cases x with
  | error e => cases h
  | ok a => exact ⟨a, rfl, h⟩

theorem sortedNames_isEmpty {names : List String} (h : (sortedNames names).isEmpty = true) :
    names = [] := by
  refine List.eq_nil_iff_forall_not_mem.mpr fun n hn => ?_
  have hmem : n ∈ sortedNames names := List.mem_insertionSort (· ≤ ·) |>.mpr (List.mem_dedup.mpr hn)
  rw [List.isEmpty_iff.mp h] at hmem
  cases hmem

/-- A host is allowed when its last labels are those of an entry. -/
theorem hostAllowed_iff {host : String} {allowlist : List String} :
    py.hostAllowed host allowlist = true ↔
      ∃ raw ∈ allowlist, (py.entry raw).splitOn '.' <:+ (py.lower host.toList).splitOn '.' := by
  unfold ConfigPy.hostAllowed
  rw [List.any_eq_true]
  refine exists_congr fun raw => and_congr_right fun _ => ?_
  rw [Py.splitOn_suffix_iff, Bool.or_eq_true, decide_eq_true_eq, List.isSuffixOf_iff_suffix]

/-- What the validators have made sure of. -/
structure Accepted (py : ConfigPy) (s : PoolSettings) : Prop where
  provider : ∀ p ∈ s.externalProviders, s.allowExternalProviders = true ∧
    ∃ host, py.urlHost p.baseUrl = some host ∧ py.hostAllowed host s.egressAllowlist = true
  names : s.backendNames.Nodup
  virtual : ∀ vm ∈ s.virtualModels, vm.name ∉ s.physicalModels
  rule : ∀ rule ∈ s.workloadRoutingRules, rule.enabled = true → ∀ n ∈ rule.preferredBackends,
    n ∈ s.primaryBackends

/-- No external provider has the name of a backend on the premises. -/
theorem Accepted.external_apart (h : s.Accepted py) :
    ∀ p ∈ s.externalProviders, p.name ∉ s.primaryBackends := by
  intro p hp hin
  exact (List.nodup_append.mp h.names).2.2 _ hin _ (List.mem_map_of_mem hp) rfl

theorem validateExternalProviders_ok (h : s.validateExternalProviders py = .ok s') :
    ∀ p ∈ s.externalProviders, s.allowExternalProviders = true ∧
      ∃ host, py.urlHost p.baseUrl = some host ∧ py.hostAllowed host s.egressAllowlist = true := by
  intro p hp
  unfold validateExternalProviders at h
  split at h
  · rename_i hnone
    rw [List.isEmpty_iff.mp hnone] at hp
    cases hp
  · split at h
    · cases h
    · rename_i hallow
      split at h
      · cases h
      · split at h
        · cases h
        · rename_i herr
          refine ⟨by simpa using hallow, ?_⟩
          have hok := List.findSome?_eq_none_iff.mp herr p hp
          simp only [providerError] at hok
          split at hok
          · rename_i hany
            simpa [Option.any_eq_true] using hany
          · cases hok

theorem validatePoolNames_ok (h : s.validatePoolNames = .ok s') :
    s.backendNames.Nodup ∧ ∀ vm ∈ s.virtualModels, vm.name ∉ s.physicalModels := by
  unfold validatePoolNames at h
  simp only at h
  split at h
  · cases h
  · rename_i hdupes
    split at h
    · cases h
    · rename_i hcoll
      constructor
      · have hnone := sortedNames_isEmpty (by simpa using hdupes)
        refine List.nodup_iff_count_le_one.mpr fun n => ?_
        by_contra hn
        have hmem : n ∈ s.backendNames := List.count_pos_iff.mp (by omega)
        have hd := List.filter_eq_nil_iff.mp hnone n hmem
        simp only [decide_eq_true_eq] at hd
        omega
      · intro vm hvm hphys
        have hmem : vm.name ∈ (s.virtualModels.map (·.name)).filter s.physicalModels.contains :=
          List.mem_filter.mpr ⟨List.mem_map_of_mem hvm, by simpa using hphys⟩
        simp only [Bool.not_eq_true', Bool.not_eq_false, List.isEmpty_iff] at hcoll
        rw [← List.mem_insertionSort (· ≤ ·), hcoll] at hmem
        cases hmem

theorem validateWorkloadRoutingRules_ok (h : s.validateWorkloadRoutingRules py = .ok s') :
    ∀ rule ∈ s.workloadRoutingRules, rule.enabled = true →
      ∀ n ∈ rule.preferredBackends, n ∈ s.primaryBackends := by
  intro rule hrule hon n hn
  unfold validateWorkloadRoutingRules at h
  simp only at h
  split at h
  · cases h
  · split at h
    · cases h
    · rename_i herr
      have hok := List.findSome?_eq_none_iff.mp herr rule hrule
      unfold ruleError at hok
      simp only [hon, Bool.not_true, Bool.false_eq_true, if_false] at hok
      split at hok
      · cases hok
      · split at hok
        · rename_i hunknown
          have hnone := List.filter_eq_nil_iff.mp (sortedNames_isEmpty hunknown) n hn
          simpa using hnone
        · cases hok

theorem accepted_of_validate (h : s.validate py = .ok s') : s.Accepted py := by
  unfold validate at h
  obtain ⟨-, -, h⟩ := bind_eq_ok h
  obtain ⟨-, -, h⟩ := bind_eq_ok h
  obtain ⟨-, -, h⟩ := bind_eq_ok h
  obtain ⟨_, hproviders, h⟩ := bind_eq_ok h
  obtain ⟨_, hnames, hrules⟩ := bind_eq_ok h
  obtain ⟨hnodup, hvirtual⟩ := validatePoolNames_ok hnames
  exact ⟨validateExternalProviders_ok hproviders, hnodup, hvirtual,
    validateWorkloadRoutingRules_ok hrules⟩

end PoolSettings

/-! ## The pool at work -/

namespace Pool

inductive Ev where
  | acquire (name : String) (prefixKey : Option Utf8.Text) (required : List Feature)
  /-- `release` of the lease given out as number `k`, for the first time or again -/
  | release (k : Nat)
  /-- a load, an unload, a swap, a crash, or a health probe -/
  | refresh (i : Nat) (backend : Option BackendView) (available : Bool)
  deriving DecidableEq, Repr

def step (digest : List UInt8 → Nat) (rt : Router) (s : RegistryDesk) : Ev → Option RegistryDesk
  | .acquire name prefixKey required =>
    match rt.acquire digest s.registry name prefixKey required with
    | .ok (l, r) => some ⟨r, s.leases ++ [l]⟩
    | .error _ => some s
  | .release k =>
    s.leases[k]?.map fun l => ⟨(l.release s.registry).2, s.leases.set k (l.release s.registry).1⟩
  | .refresh i backend available =>
    some { s with registry := s.registry.refresh i backend available }

/-- What no request and no backend changes of an entry. -/
def sign (e : BackendEntry) : String × Bool := (e.name, e.spillover)

/-- The registry has the entries of the configuration. -/
def Configured (cfg : PoolSettings) (r : BackendRegistry) : Prop :=
  r.entries.map sign =
    cfg.primaryBackends.map (·, false) ++ (cfg.externalProviders.map (·.name)).map (·, true)

variable {py : ConfigPy} {view : String → Option BackendView} {digest : List UInt8 →
  Nat} {cfg : PoolSettings}
  {rt : Router} {r r' : BackendRegistry} {s s' t : RegistryDesk} {ev : Ev}
    {l : RegistryLease} {name : String}
  {prefixKey : Option Utf8.Text} {required : List Feature}

theorem modifyEntry_sign {i : Nat} {f : BackendEntry → BackendEntry}
    (hf : ∀ e, (f e).order = e.order) (hsign : ∀ e, sign (f e) = sign e) :
    (r.modifyEntry i f hf).entries.map sign = r.entries.map sign := by
  apply List.ext_getElem?
  intro j
  simp only [BackendRegistry.modifyEntry, List.getElem?_map, List.getElem?_modify]
  split <;> cases r.entries[j]? <;> simp [hsign]

theorem ofEntries_sign (entries : List BackendEntry) :
    (BackendRegistry.ofEntries entries).entries.map sign = entries.map sign := by
  apply List.ext_getElem?
  intro j
  simp only [BackendRegistry.ofEntries, List.getElem?_map, List.getElem?_mapIdx]
  cases entries[j]? <;> rfl

namespace Configured

theorem modifyInFlight (h : Configured cfg r) (i : Nat) (f : Nat → Nat) :
    Configured cfg (r.modifyInFlight i f) := by
  unfold Configured BackendRegistry.modifyInFlight
  rw [modifyEntry_sign]
  · exact h
  · exact fun _ => rfl

theorem refresh (h : Configured cfg r) (i : Nat) (backend : Option BackendView) (available : Bool) :
    Configured cfg (r.refresh i backend available) := by
  unfold Configured BackendRegistry.refresh
  rw [modifyEntry_sign]
  · exact h
  · exact fun _ => rfl

theorem step (hs : Configured cfg s.registry) (h : step digest rt s ev = some s') :
    Configured cfg s'.registry := by
  cases ev with
  | acquire name prefixKey required =>
    simp only [Pool.step] at h
    split at h
    · rename_i l r hacq
      cases h
      rw [(Router.acquire_ok hacq).registry]
      exact hs.modifyInFlight _ _
    · cases h
      exact hs
  | release k =>
    obtain ⟨l, -, rfl⟩ := Option.map_eq_some_iff.mp h
    unfold RegistryLease.release
    split
    · exact hs
    · exact hs.modifyInFlight _ _
  | refresh i backend available =>
    cases h
    exact hs.refresh i backend available

theorem origin (h : Configured cfg r) {i : Nat} {e : BackendEntry} (he : r.entries[i]? = some e) :
    e.spillover = false ∧ e.name ∈ cfg.primaryBackends ∨
      e.spillover = true ∧ ∃ p ∈ cfg.externalProviders, p.name = e.name := by
  have hmem : sign e ∈ r.entries.map sign := List.mem_map_of_mem (List.mem_of_getElem? he)
  rw [h] at hmem
  rcases List.mem_append.mp hmem with hmem | hmem
  · obtain ⟨n, hn, heq⟩ := List.mem_map.mp hmem
    obtain ⟨rfl, hspill⟩ := Prod.mk.inj heq
    exact .inl ⟨hspill.symm, hn⟩
  · obtain ⟨n, hn, heq⟩ := List.mem_map.mp hmem
    obtain ⟨rfl, hspill⟩ := Prod.mk.inj heq
    exact .inr ⟨hspill.symm, List.mem_map.mp hn⟩

theorem names (h : Configured cfg r) : r.entries.map (·.name) = cfg.backendNames := by
  have hnames := congrArg (List.map Prod.fst) h
  simpa [sign, Function.comp_def, PoolSettings.backendNames] using hnames

end Configured

theorem createPool_ok (h : cfg.createPool py view = .ok (rt, r)) :
    rt = cfg.router ∧ Configured cfg r := by
  unfold PoolSettings.createPool at h
  split at h
  · cases h
  · cases h
    refine ⟨rfl, (ofEntries_sign _).trans ?_⟩
    simp only [PoolSettings.entries, PoolSettings.primaryBackends, List.cons_append, List.map_cons,
      List.map_append, List.map_map]
    rfl

/-! ### How a request is routed -/

/-- The placement behind a lease of the router: the scope of a workload rule, that of the physical
model, or that of a step of the virtual model. -/
inductive Routed (digest : List UInt8 → Nat) (rt : Router) (r : BackendRegistry) (name : String)
    (prefixKey : Option Utf8.Text) (required : List Feature) (l : RegistryLease)
      (r' : BackendRegistry) : Prop where
  | rule (rule : WorkloadRoutingRule) (l₀ : RegistryLease)
      (hrule : rt.matchingWorkloadRule name required = some rule)
      (hacq : r.acquire digest prefixKey ⟨some rule.preferredBackends, some name,
        required⟩ = .ok (l₀, r'))
      (hl : l = (l₀.withPolicy .base none).withWorkloadRule rule.name)
  | base (l₀ : RegistryLease) (hvm : rt.vmodel name = none)
      (hacq : r.acquire digest prefixKey ⟨none, some name, required⟩ = .ok (l₀, r'))
      (hl : l = l₀.withPolicy .base none)
  | step (vm : VirtualModel) (i : Nat) (group : List String) (l₀ : RegistryLease)
      (hvm : rt.vmodel name = some vm)
      (hget : vm.steps[i]? = some group)
      (hacq : r.acquire digest prefixKey ⟨some group, none, required⟩ = .ok (l₀, r'))
      (hl : l = l₀.withPolicy vm.policy (some i) (0 < i))

theorem acquireSteps_routed {vm : VirtualModel} {steps : List (List String)} :
    ∀ {i : Nat} {sawBusy sawFeature : Bool},
      Router.acquireSteps digest r vm prefixKey required i sawBusy sawFeature steps = .ok (l, r') →
        ∃ j group l₀, steps[j]? = some group ∧
        r.acquire digest prefixKey ⟨some group, none, required⟩ = .ok (l₀, r') ∧
          l = l₀.withPolicy vm.policy (some (i + j)) (0 < i + j) := by
  induction steps with
  | nil =>
    intro i sawBusy sawFeature h
    simp only [Router.acquireSteps] at h
    split at h
    · cases h
    · split at h <;> cases h
  | cons scope rest ih =>
    intro i sawBusy sawFeature h
    have hlater {sawBusy sawFeature : Bool}
        (h : Router.acquireSteps digest r vm prefixKey required
          (i + 1) sawBusy sawFeature rest = .ok (l, r')) :
        ∃ j group l₀, (scope :: rest)[j]? = some group ∧
          r.acquire digest prefixKey ⟨some group, none, required⟩ = .ok (l₀, r') ∧
          l = l₀.withPolicy vm.policy (some (i + j)) (0 < i + j) := by
      obtain ⟨j, group, l₀, hget, hacq, hl⟩ := ih h
      refine ⟨j + 1, group, l₀, hget, hacq, ?_⟩
      rw [hl, Nat.add_right_comm i 1 j, Nat.add_assoc]
    simp only [Router.acquireSteps] at h
    split at h
    · exact hlater h
    · exact hlater h
    · cases h
    · rename_i l₀ r₀ hacq
      cases h
      exact ⟨0, scope, l₀, rfl, hacq, rfl⟩

theorem routed_of_acquire (h : rt.acquire digest r name prefixKey required = .ok (l, r')) :
    Routed digest rt r name prefixKey required l r' := by
  have hbaseline (h : rt.acquireBaseline digest r name prefixKey required = .ok (l, r')) :
      Routed digest rt r name prefixKey required l r' := by
    unfold Router.acquireBaseline at h
    split at h
    · rename_i hvm
      split at h
      · rename_i l₀ r₀ hacq
        cases h
        exact .base l₀ hvm hacq rfl
      · cases h
    · rename_i vm hvm
      obtain ⟨j, group, l₀, hget, hacq, hl⟩ := acquireSteps_routed h
      rw [Nat.zero_add] at hl
      exact .step vm j group l₀ hvm hget hacq hl
  unfold Router.acquire at h
  split at h
  · exact hbaseline h
  · rename_i rule hrule
    split at h
    · rename_i l₀ r₀ hacq
      cases h
      exact .rule rule l₀ hrule hacq rfl
    · cases h
    · exact hbaseline h

/-- What a lease of the registry says of its entry. -/
structure Placement (digest : List UInt8 → Nat) (r : BackendRegistry)
    (prefixKey : Option Utf8.Text) (sc : Scope) (l : RegistryLease) (e : BackendEntry) : Prop where
  selected : ∃ reason, r.selectDetailed digest prefixKey sc =
    .ok (some (e, reason, l.decision.tier))
  entry : r.entries[l.entry]? = some e
  backend : l.decision.backend = e.name
  serves : e.CanServe sc
  tier : e.spillover = true ↔ l.decision.tier = .spillover

theorem placement_of_acquire {sc : Scope} (h : r.acquire digest prefixKey sc = .ok (l, r')) :
    ∃ e, Placement digest r prefixKey sc l e := by
  obtain ⟨e, hsel, hentry, -, -, hname, -⟩ := BackendRegistry.acquire_eq_ok h
  obtain ⟨hmem, hserve, htier⟩ :=
    BackendRegistry.mem_candidates_iff.mp (BackendRegistry.selectDetailed_cases hsel).1
  exact ⟨e, ⟨_, hsel⟩, hentry ▸ BackendRegistry.getElem?_order hmem, hname, hserve, htier⟩

/-- Rules are the business of the router. -/
theorem workloadRule_of_acquire {sc : Scope} (h : r.acquire digest prefixKey sc = .ok (l, r')) :
    l.decision.workloadRule = none := by
  unfold BackendRegistry.acquire at h
  split at h
  · cases h
  · simp only at h
    split at h
    · cases h
    · split at h <;> cases h
  · cases h
    rfl

/-- A scope that is passed over has no entry that can serve. -/
theorem not_canServe_of_error {sc : Scope} {err : AcquireError}
    (h : r.acquire digest prefixKey sc = .error err) (herr : err ≠ .unicodeEncode) :
    ∀ e ∈ r.entries, ¬ e.CanServe sc := by
  have hstuck : ¬ r.Stuck prefixKey sc := fun hstuck => by
    rw [BackendRegistry.acquire_stuck digest hstuck] at h
    cases h
    exact herr rfl
  exact ((BackendRegistry.acquire_error_iff hstuck).mp h).not_canServe

/-- The placement behind a lease, without the policy that the router records: it is of one of the
scopes that are tried for the name, and none of those before it has an entry that can serve. -/
structure FirstOf (digest : List UInt8 → Nat) (r : BackendRegistry) (prefixKey : Option Utf8.Text)
    (scopes : List Scope) (l : RegistryLease) (sc : Scope) (e : BackendEntry) : Prop where
  first : ∃ before after, scopes = before ++ sc :: after ∧
    ∀ sc' ∈ before, ∀ e ∈ r.entries, ¬ e.CanServe sc'
  placed : Placement digest r prefixKey sc l e

theorem firstOf_cons {scopes : List Scope} {sc sc' : Scope} {e : BackendEntry}
    (h : FirstOf digest r prefixKey scopes l sc e) (hnone : ∀ e ∈ r.entries, ¬ e.CanServe sc') :
    FirstOf digest r prefixKey (sc' :: scopes) l sc e := by
  obtain ⟨⟨before, after, rfl, hbefore⟩, hplaced⟩ := h
  refine ⟨⟨sc' :: before, after, rfl, fun sc'' hmem => ?_⟩, hplaced⟩
  rcases List.mem_cons.mp hmem with rfl | hmem
  · exact hnone
  · exact hbefore sc'' hmem

theorem firstOf_of_acquire {sc : Scope} {l₀ : RegistryLease} (after : List Scope)
    (h : r.acquire digest prefixKey sc = .ok (l₀, r')) (hentry : l.entry = l₀.entry)
    (hbackend : l.decision.backend = l₀.decision.backend)
      (htier : l.decision.tier = l₀.decision.tier) :
    ∃ e, FirstOf digest r prefixKey (sc :: after) l sc e := by
  obtain ⟨e, hsel, hget, hname, hserve, hspill⟩ := placement_of_acquire h
  exact ⟨e, ⟨[], after, rfl, fun _ hmem => (by cases hmem)⟩, htier ▸ hsel, hentry ▸ hget,
    hbackend ▸ hname, hserve, htier ▸ hspill⟩

theorem acquireSteps_first {vm : VirtualModel} {steps : List (List String)} :
    ∀ {i : Nat} {sawBusy sawFeature : Bool},
      Router.acquireSteps digest r vm prefixKey required i sawBusy sawFeature steps = .ok (l, r') →
        ∃ sc e, FirstOf digest r prefixKey (steps.map (Router.stepScope · required)) l sc e := by
  induction steps with
  | nil =>
    intro i sawBusy sawFeature h
    simp only [Router.acquireSteps] at h
    split at h
    · cases h
    · split at h <;> cases h
  | cons scope rest ih =>
    intro i sawBusy sawFeature h
    simp only [Router.acquireSteps] at h
    split at h
    · next hacq =>
      obtain ⟨sc, e, hfirst⟩ := ih h
      exact ⟨sc, e, firstOf_cons hfirst (not_canServe_of_error hacq (by simp))⟩
    · next hacq =>
      obtain ⟨sc, e, hfirst⟩ := ih h
      exact ⟨sc, e, firstOf_cons hfirst (not_canServe_of_error hacq (by simp))⟩
    · cases h
    · next hacq =>
      cases h
      exact ⟨_, firstOf_of_acquire _ hacq rfl rfl rfl⟩

theorem acquireBaseline_first
    (h : rt.acquireBaseline digest r name prefixKey required = .ok (l, r')) :
    ∃ sc e, FirstOf digest r prefixKey
      (match rt.vmodel name with
      | none => [⟨none, some name, required⟩]
      | some vm => vm.steps.map (Router.stepScope · required)) l sc e := by
  unfold Router.acquireBaseline at h
  cases hvm : rt.vmodel name with
  | none =>
    simp only [hvm] at h
    split at h
    · next hacq =>
      cases h
      exact ⟨_, firstOf_of_acquire _ hacq rfl rfl rfl⟩
    · cases h
  | some vm =>
    simp only [hvm] at h
    exact acquireSteps_first h

theorem first_of_acquire (h : rt.acquire digest r name prefixKey required = .ok (l, r')) :
    ∃ sc e, FirstOf digest r prefixKey (rt.scopes name required) l sc e := by
  unfold Router.acquire at h
  unfold Router.scopes
  split at h
  · next hrule =>
    rw [hrule]
    have hfirst := acquireBaseline_first h
    cases hvm : rt.vmodel name with
    | none => simpa only [hvm] using hfirst
    | some vm => simpa only [hvm] using hfirst
  · next rule hrule =>
    rw [hrule]
    split at h
    · next hacq =>
      cases h
      exact ⟨_, firstOf_of_acquire _ hacq rfl rfl rfl⟩
    · cases h
    · next herr hacq =>
      have hfirst := acquireBaseline_first h
      rw [Router.not_virtual_of_rule hrule] at hfirst
      obtain ⟨sc, e, hfirst⟩ := hfirst
      exact ⟨sc, e, firstOf_cons hfirst (not_canServe_of_error hacq fun heq => herr heq)⟩

/-! ### What holds of every placement -/

theorem mem_of_vmodel {vm : VirtualModel} (h : cfg.router.vmodel name = some vm) :
    ∃ spec ∈ cfg.virtualModels,
      (⟨spec.name, spec.policy.policy, spec.normalizedSteps⟩ : VirtualModel) = vm := by
  have hmem := List.mem_reverse.mp (List.mem_of_find?_eq_some h)
  exact List.mem_map.mp hmem

theorem not_virtual (h : cfg.router.vmodel name = none) :
    ∀ vm ∈ cfg.virtualModels, vm.name ≠ name := by
  intro vm hvm hname
  have hnone := List.find?_eq_none.mp h ⟨vm.name, vm.policy.policy, vm.normalizedSteps⟩
    (List.mem_reverse.mpr (List.mem_map_of_mem hvm))
  simp [hname] at hnone

theorem matchingWorkloadRule_some {rule : WorkloadRoutingRule}
    (h : cfg.router.matchingWorkloadRule name required = some rule) :
    cfg.workloadRoutingEnabled = true ∧ rule ∈ cfg.workloadRoutingRules ∧
      rule.enabled = true ∧ rule.model = name ∧ .structuredOutput ∈ required := by
  unfold Router.matchingWorkloadRule at h
  split at h
  · cases h
  · rename_i hon
    have hfound := List.find?_some h
    simp only [Bool.or_eq_true, not_or, Bool.not_eq_true', Bool.not_eq_false] at hon
    simp only [Bool.and_eq_true, beq_iff_eq, List.contains_iff_mem] at hfound
    exact ⟨hon.1, List.mem_of_find?_eq_some h, hfound.1.1, hfound.1.2, hfound.2⟩

theorem run_configured (hpool : cfg.createPool py view = .ok (rt, r)) {ls : List Ev}
    (h : Run (step digest rt) ⟨r, []⟩ ls t) : Configured cfg t.registry :=
  h.invariant (fun _ _ _ hs hst => Configured.step hs hst) (createPool_ok hpool).2

/-- The backend is an external provider, which is allowed to be asked. -/
def EgressAllowed (py : ConfigPy) (cfg : PoolSettings) (name : String) : Prop :=
  cfg.allowExternalProviders = true ∧ ∃ p ∈ cfg.externalProviders, p.name = name ∧
    ∃ host, py.urlHost p.baseUrl = some host ∧
      ∃ raw ∈ cfg.egressAllowlist, (py.entry raw).splitOn '.' <:+ (py.lower host.toList).splitOn '.'

/-- **Prompts leave the premises only for allowed hosts, and only as overflow.** At any time, a
lease is of the one backend that has the name in its record. That is the primary backend or a remote
worker, or else an external provider: then external egress is allowed, the labels of its host end
with those of an entry of the allowlist, and no backend on the premises could have taken the request
in the scope of the lease, or in one tried before it. -/
theorem egress_contained (hcfg : cfg.validate py = .ok cfg)
    (hpool : cfg.createPool py view = .ok (rt, r)) {ls : List Ev}
      (hrun : Run (step digest rt) ⟨r, []⟩ ls t)
      (hacq : rt.acquire digest t.registry name prefixKey required = .ok (l, r')) :
    (∀ i e, t.registry.entries[i]? = some e → (e.name = l.decision.backend ↔ i = l.entry)) ∧
      (l.decision.tier = .primary ∧ l.decision.backend ∈ cfg.primaryBackends ∨
        l.decision.tier = .spillover ∧ l.decision.backend ∉ cfg.primaryBackends ∧
          EgressAllowed py cfg l.decision.backend ∧
          ∃ before sc after, rt.scopes name required = before ++ sc :: after ∧
            (∃ e, t.registry.entries[l.entry]? = some e ∧ e.CanServe sc) ∧
            ∀ sc' ∈ before ++ [sc], ∀ e ∈ t.registry.entries, e.name ∈ cfg.primaryBackends →
            ¬ e.CanServe sc') := by
  have hok := PoolSettings.accepted_of_validate hcfg
  have hconf := run_configured hpool hrun
  obtain ⟨sc, e, ⟨before, after, hscopes, hbefore⟩, ⟨reason, hsel⟩, hget, hname, hserve, htier⟩ :=
    first_of_acquire hacq
  have hnodup : (t.registry.entries.map (·.name)).Nodup := hconf.names ▸ hok.names
  refine ⟨fun i e' he' => ⟨fun hn => ?_, fun hi => ?_⟩, ?_⟩
  · have hi : (t.registry.entries.map (·.name))[i]? = some l.decision.backend := by simp [he', hn]
    have hl : (t.registry.entries.map (·.name))[l.entry]? = some l.decision.backend := by
      simp [hget, hname]
    exact (List.getElem?_inj (List.getElem?_eq_some_iff.mp hi).1 hnodup).mp (hi.trans hl.symm)
  · subst hi
    rw [hname, Option.some.inj (he'.symm.trans hget)]
  · rcases hconf.origin hget with ⟨hspill, hin⟩ | ⟨hspill, p, hp, hpn⟩
    · refine .inl ⟨?_, hname ▸ hin⟩
      cases ht : l.decision.tier with
      | primary => rfl
      | spillover => cases hspill.symm.trans (htier.mpr ht)
    · have ht := htier.mp hspill
      obtain ⟨hallow, host, hhost, hlabels⟩ := hok.provider p hp
      refine .inr ⟨ht, ?_, ⟨hallow, p, hp, hpn.trans hname.symm, host, hhost,
        PoolSettings.hostAllowed_iff.mp hlabels⟩, before, sc, after, hscopes, ⟨e, hget, hserve⟩,
        fun sc' hmem e' he' hin hs' => ?_⟩
      · rw [hname, ← hpn]
        exact hok.external_apart p hp
      · rcases List.mem_append.mp hmem with hmem | hmem
        · exact hbefore sc' hmem e' he' hs'
        obtain rfl := List.mem_singleton.mp hmem
        have hnone := (BackendRegistry.selectDetailed_cases hsel).2.2 ht
        have hmem : e' ∈ BackendRegistry.candidates (t.registry.tierPool sc' .primary) := by
          refine BackendRegistry.mem_candidates_iff.mpr ⟨he', hs', ?_⟩
          obtain ⟨i, hi⟩ := List.getElem?_of_mem he'
          rcases hconf.origin hi with ⟨hspill', -⟩ | ⟨-, p', hp', hpn'⟩
          · simp [hspill']
          · exact absurd (hpn' ▸ hin) (hok.external_apart p' hp')
        rw [hnone] at hmem
        cases hmem

/-- Python, as far as the examples go. -/
def examplePy : ConfigPy where
  repr := Py.repr
  lower := List.map Char.toLower
  hostname url := if url = "https://api.example.com/v1" then .ok (some "api.example.com")
    else .error ()

/-- A local backend, a worker that is preferred for structured output, and a provider to overflow
to. -/
def threeBackends : PoolSettings where
  remoteWorkers := [{ name := "gpu", baseUrl := "http://gpu:8000" }]
  workloadRoutingEnabled := true
  workloadRoutingRules := [⟨"json", "local-model", ["gpu"], true⟩]
  allowExternalProviders := true
  egressAllowlist := [".Example.com"]
  externalProviders := [{ name := "cloud", baseUrl := "https://api.example.com/v1", maxInFlight := 2 }]

/-- Everything is loaded. -/
def allReady (_ : String) : Option BackendView := some ⟨.ready, ⟨"local-model", true⟩⟩

def threeRegistry : BackendRegistry := .ofEntries (threeBackends.entries allReady)

theorem threeBackends_valid : threeBackends.validate examplePy = .ok threeBackends := by
  decide +kernel

theorem threeBackends_pool :
    threeBackends.createPool examplePy allReady = .ok (threeBackends.router, threeRegistry) := rfl

/-- What a request for the model of `threeBackends` would be told. -/
def answer (required : List Feature) (t : RegistryDesk) : Option RouteDecision :=
  (threeBackends.router.acquire List.length t.registry "local-model" none required).toOption.map
    (·.1.decision)

theorem lease_of_answer {t : RegistryDesk} {d : RouteDecision} (h : answer required t = some d) :
    ∃ l r', threeBackends.router.acquire List.length t.registry "local-model" none required =
      .ok (l, r') ∧
      l.decision = d := by
  obtain ⟨⟨l, r'⟩, hok, hd⟩ := Option.map_eq_some_iff.mp h
  cases hacq : threeBackends.router.acquire List.length t.registry "local-model" none required with
  | error e =>
    rw [hacq] at hok
    cases hok
  | ok p =>
    rw [hacq] at hok
    cases hok
    exact ⟨l, r', rfl, hd⟩

/-- The worker is lost; the first request takes the slot of the primary backend. -/
def workerLost : List Ev := [.refresh 1 none false, .acquire "local-model" none []]

theorem egress_contained_workerLost :
    ∃ t, Run (step List.length threeBackends.router) ⟨threeRegistry, []⟩ workerLost t ∧
      (answer [] t).map (·.tier) = some .spillover ∧
      EgressAllowed examplePy threeBackends "cloud" := by
  obtain ⟨t, hrun, ht⟩ : ∃ t, Run (step List.length threeBackends.router) ⟨threeRegistry,
      []⟩ workerLost t ∧
      answer [] t = some ⟨"cloud", "remote_vllm", .spillover, .modelMap, [.spillover],
        .base, none, none⟩ :=
    run_of_exec_map (by decide +kernel)
  obtain ⟨l, r', hacq, hl⟩ := lease_of_answer ht
  refine ⟨t, hrun, by rw [ht]; rfl, ?_⟩
  rcases (egress_contained threeBackends_valid threeBackends_pool hrun hacq).2 with ⟨htier,
      -⟩ | ⟨-, -, hallowed, -⟩
  · rw [hl] at htier
    cases htier
  · rwa [hl] at hallowed

/-- **Requests go where the configuration says.** A virtual model is none of the physical ones and
is served by a backend of one of its steps; any other name by a backend that serves it, and then a
workload rule that is recorded is an enabled one for the name and for structured output, and the
backend is one it prefers, on the premises. -/
theorem routed_as_configured (hcfg : cfg.validate py = .ok cfg)
    (hpool : cfg.createPool py view = .ok (rt, r)) {ls : List Ev}
      (hrun : Run (step digest rt) ⟨r, []⟩ ls t)
      (hacq : rt.acquire digest t.registry name prefixKey required = .ok (l, r')) :
    (∃ vm ∈ cfg.virtualModels, vm.name = name ∧ name ∉ cfg.physicalModels ∧
        l.decision.policy = vm.policy.policy ∧ l.decision.workloadRule = none ∧
        ∃ i group, vm.normalizedSteps[i]? = some group ∧ l.decision.step = some i ∧
        l.decision.backend ∈ group) ∨
      (∀ vm ∈ cfg.virtualModels, vm.name ≠ name) ∧ l.decision.policy = .base ∧
      l.decision.step = none ∧
        (∃ e, t.registry.entries[l.entry]? = some e ∧ e.liveModel = some name ∧
        e.Supports required) ∧
        ∀ n, l.decision.workloadRule = some n → ∃ rule ∈ cfg.workloadRoutingRules, rule.name = n ∧
          cfg.workloadRoutingEnabled = true ∧ rule.enabled = true ∧ rule.model = name ∧
          .structuredOutput ∈ required ∧ l.decision.backend ∈ rule.preferredBackends ∧
          l.decision.tier = .primary := by
  have hok := PoolSettings.accepted_of_validate hcfg
  obtain ⟨rfl, -⟩ := createPool_ok hpool
  have hconf := run_configured hpool hrun
  cases routed_of_acquire hacq with
  | rule rule l₀ hrule hreg hl =>
    subst hl
    obtain ⟨e, -, hget, hname, hserve, htier⟩ := placement_of_acquire hreg
    have hvm := Router.not_virtual_of_rule hrule
    obtain ⟨hon, hmem, hrule⟩ := matchingWorkloadRule_some hrule
    have hpref : e.name ∈ rule.preferredBackends := by simpa [Scope.admits] using hserve.1.1
    refine .inr ⟨not_virtual hvm, rfl, rfl,
      ⟨e, hget, hserve.1.2.2 _ rfl, hserve.2.1⟩, fun n hn => ?_⟩
    cases hn
    refine ⟨rule, hmem, rfl, hon, hrule.1, hrule.2.1, hrule.2.2, hname ▸ hpref, ?_⟩
    rcases hconf.origin hget with ⟨hspill, -⟩ | ⟨-, p, hp, hpn⟩
    · cases ht : l₀.decision.tier with
      | primary => exact ht
      | spillover => cases hspill.symm.trans (htier.mpr ht)
    · exact absurd (hpn ▸ hok.rule rule hmem hrule.1 _ hpref) (hok.external_apart p hp)
  | base l₀ hvm hreg hl =>
    subst hl
    obtain ⟨e, -, hget, -, hserve, -⟩ := placement_of_acquire hreg
    refine .inr ⟨not_virtual hvm, rfl, rfl,
      ⟨e, hget, hserve.1.2.2 _ rfl, hserve.2.1⟩, fun n hn => ?_⟩
    cases (workloadRule_of_acquire hreg).symm.trans hn
  | step vm i group l₀ hvm hgroup hreg hl =>
    subst hl
    obtain ⟨e, -, hget, hname, hserve, -⟩ := placement_of_acquire hreg
    obtain ⟨spec, hspec, rfl⟩ := mem_of_vmodel hvm
    obtain rfl := Router.vmodel_name hvm
    have hnone := workloadRule_of_acquire hreg
    refine .inl ⟨spec, hspec, rfl, hok.virtual spec hspec, rfl, hnone, i, group, hgroup, rfl, ?_⟩
    have hin : e.name ∈ group := by simpa [Scope.admits] using hserve.1.1
    exact hname ▸ hin

/-- With everything loaded, a request for structured output takes the worker that the rule
prefers. -/
theorem routed_as_configured_json :
    ∃ t, Run (step List.length threeBackends.router) ⟨threeRegistry,
      []⟩ [.acquire "local-model" none []] t ∧
      ∃ rule ∈ threeBackends.workloadRoutingRules, rule.name = "json" ∧
      "gpu" ∈ rule.preferredBackends := by
  obtain ⟨t, hrun, ht⟩ : ∃ t, Run (step List.length threeBackends.router) ⟨threeRegistry, []⟩
      [.acquire "local-model" none []] t ∧ answer [.structuredOutput] t =
        some ⟨"gpu", "remote_vllm", .primary, .modelMap, [], .base, none, some "json"⟩ :=
    run_of_exec_map (by decide +kernel)
  obtain ⟨l, r', hacq, hl⟩ := lease_of_answer ht
  refine ⟨t, hrun, ?_⟩
  rcases routed_as_configured threeBackends_valid threeBackends_pool hrun hacq with
    ⟨vm, hvm, -⟩ | ⟨-, -, -, -, hrule⟩
  · cases hvm
  · obtain ⟨rule, hmem, hname, -, -, -, -, hpref, -⟩ := hrule "json" (by rw [hl])
    exact ⟨rule, hmem, hname, by rwa [hl] at hpref⟩

end Pool
end InferenceEngine
