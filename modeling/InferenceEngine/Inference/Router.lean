import InferenceEngine.Inference.Registry

/-!
# Inference.Router

The router (`inference/router.py`): it resolves the model name of a request to one or more placement
scopes of the registry. A physical model has one scope; a virtual model has one for each of its
steps, tried in order; an enabled workload rule for structured output is tried before the scope of
its physical model.

`acquire_ok`: whatever the route, the lease is one request more in flight on a ready entry that had
room, and nothing else of the registry has changed.
-/

namespace InferenceEngine

structure VirtualModel where
  name : String
  policy : Policy
  steps : List (List String)
  deriving DecidableEq, Repr

structure WorkloadRoutingRule where
  name : String
  model : String
  preferredBackends : List String
  enabled : Bool := false
  deriving DecidableEq, Repr

structure Router where
  virtualModels : List VirtualModel := []
  workloadRules : List WorkloadRoutingRule := []
  workloadRoutingEnabled : Bool := false
  deriving DecidableEq, Repr

/-- `_with_policy`. -/
def RegistryLease.withPolicy (l : RegistryLease) (policy : Policy) (step : Option Nat)
    (escalated : Bool := false) : RegistryLease :=
  { l with
    decision := { l.decision with
      policy := policy
      step := step
      fallbacks :=
        if escalated then .cascadeEscalation :: l.decision.fallbacks else l.decision.fallbacks } }

/-- `_with_workload_rule`. -/
def RegistryLease.withWorkloadRule (l : RegistryLease) (rule : String) : RegistryLease :=
  { l with decision := { l.decision with workloadRule := some rule } }

namespace Router

/-- `_vmodels`: of two virtual models of one name the later one counts. -/
def vmodel (rt : Router) (name : String) : Option VirtualModel :=
  rt.virtualModels.reverse.find? fun vm => vm.name == name

def knownModel (rt : Router) (r : BackendRegistry) (name : String) : Bool :=
  (rt.vmodel name).isSome || r.knowsModel name

/-- `_matching_workload_rule`. -/
def matchingWorkloadRule (rt : Router) (name : String) (required : List Feature) :
    Option WorkloadRoutingRule :=
  if !rt.workloadRoutingEnabled || (rt.vmodel name).isSome then none
  else rt.workloadRules.find? fun rule =>
    rule.enabled && rule.model == name && required.contains .structuredOutput

section Acquire

variable (digest : List UInt8 → Nat)

/-- The loop of `acquire` over the steps of a virtual model, from step `i` on. -/
def acquireSteps (r : BackendRegistry) (vm : VirtualModel) (prefixKey : Option Utf8.Text)
    (required : List Feature) (i : Nat) (sawBusy sawFeature : Bool) :
    List (List String) → Except AcquireError (RegistryLease × BackendRegistry)
  | [] =>
    if sawBusy then .error (.noBackend .busy)
    else if sawFeature then .error (.featureUnsupported required (some vm.name))
    else .error (.noBackend .unloaded)
  | scope :: rest =>
    match r.acquire digest prefixKey { allowed := some scope, required := required } with
    | .error (.noBackend reason) =>
      acquireSteps r vm prefixKey required (i + 1) (sawBusy || reason = .busy) sawFeature rest
    | .error (.featureUnsupported _ _) =>
      acquireSteps r vm prefixKey required (i + 1) sawBusy true rest
    | .error .unicodeEncode => .error .unicodeEncode
    | .ok (l, r') => .ok (l.withPolicy vm.policy (some i) (0 < i), r')

/-- `acquire` without workload rules. -/
def acquireBaseline (rt : Router) (r : BackendRegistry) (name : String)
    (prefixKey : Option Utf8.Text) (required : List Feature) :
    Except AcquireError (RegistryLease × BackendRegistry) :=
  match rt.vmodel name with
  | none =>
    match r.acquire digest prefixKey { model := some name, required := required } with
    | .ok (l, r') => .ok (l.withPolicy .base none, r')
    | .error e => .error e
  | some vm => acquireSteps digest r vm prefixKey required 0 false false vm.steps

/-- `acquire`. -/
def acquire (rt : Router) (r : BackendRegistry) (name : String) (prefixKey : Option Utf8.Text)
    (required : List Feature) : Except AcquireError (RegistryLease × BackendRegistry) :=
  match rt.matchingWorkloadRule name required with
  | none => rt.acquireBaseline digest r name prefixKey required
  | some rule =>
    match r.acquire digest prefixKey
      { allowed := some rule.preferredBackends, model := some name, required := required } with
    | .ok (l, r') => .ok ((l.withPolicy .base none).withWorkloadRule rule.name, r')
    | .error .unicodeEncode => .error .unicodeEncode
    -- a preference cannot replace the baseline
    | .error _ => rt.acquireBaseline digest r name prefixKey required

end Acquire

variable {digest : List UInt8 → Nat} {r r' : BackendRegistry} {l : RegistryLease}

/-- What every successful placement does to the registry. -/
structure Placed (r : BackendRegistry) (l : RegistryLease) (r' : BackendRegistry) : Prop where
  held : l.released = false
  registry : r' = r.modifyInFlight l.entry (· + 1)
  room : ∃ e, r.entries[l.entry]? = some e ∧ e.isReady = true ∧ e.inFlight < e.maxInFlight

theorem placed_of_acquire {prefixKey : Option Utf8.Text} {sc : Scope}
    (h : r.acquire digest prefixKey sc = .ok (l, r')) : Placed r l r' :=
  let ⟨held, registry, room⟩ := BackendRegistry.acquire_ok h
  ⟨held, registry, room⟩

theorem Placed.congr {l' : RegistryLease} (h : Placed r l r') (he : l'.entry = l.entry)
    (hr : l'.released = l.released) : Placed r l' r' :=
  ⟨hr.trans h.held, by rw [he]; exact h.registry, by rw [he]; exact h.room⟩

theorem acquireSteps_ok {vm : VirtualModel} {prefixKey : Option Utf8.Text} {required : List Feature}
    {steps : List (List String)} :
    ∀ {i : Nat} {sawBusy sawFeature : Bool},
      acquireSteps digest r vm prefixKey required i sawBusy sawFeature steps = .ok (l, r') →
        Placed r l r' := by
  induction steps with
  | nil =>
    intro i sawBusy sawFeature h
    simp only [acquireSteps] at h
    split at h
    · cases h
    · split at h <;> cases h
  | cons scope rest ih =>
    intro i sawBusy sawFeature h
    simp only [acquireSteps] at h
    split at h
    · exact ih h
    · exact ih h
    · cases h
    · rename_i hacq
      cases h
      exact (placed_of_acquire hacq).congr rfl rfl

theorem acquireBaseline_ok {rt : Router} {name : String} {prefixKey : Option Utf8.Text}
    {required : List Feature}
    (h : rt.acquireBaseline digest r name prefixKey required = .ok (l, r')) : Placed r l r' := by
  simp only [acquireBaseline] at h
  split at h
  · split at h
    · rename_i hacq
      cases h
      exact (placed_of_acquire hacq).congr rfl rfl
    · cases h
  · exact acquireSteps_ok h

theorem acquire_ok {rt : Router} {name : String} {prefixKey : Option Utf8.Text}
    {required : List Feature} (h : rt.acquire digest r name prefixKey required = .ok (l, r')) :
    Placed r l r' := by
  simp only [acquire] at h
  split at h
  · exact acquireBaseline_ok h
  · split at h
    · rename_i hacq
      cases h
      exact (placed_of_acquire hacq).congr rfl rfl
    · cases h
    · exact acquireBaseline_ok h

end Router
end InferenceEngine
