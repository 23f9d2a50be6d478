import InferenceEngine.Inference.Placement
import InferenceEngine.Inference.Router

/-!
# Inference.Routing

What the router promises over the registry.

* `Router.plan`: the dry run of `acquire`, with all that it reports. It goes through the registry as
  `acquire` does, so it is written over its state.
* `plan_agrees_iff`: it leaves the registry alone and chooses the backend that `acquire` would
  lease.
* `cascade_lands_iff`: a virtual model is served by the first of its steps that can serve, and an
  error says what the steps lack, the most actionable reason first.

Both are so exactly as far as the prefix key has the bytes that the scopes ask for (`Encodes`).
-/

namespace InferenceEngine

structure CandidateRow where
  name : String
  state : String
  available : Bool
  inFlight : Nat
  hasCapacity : Bool
  deriving DecidableEq, Repr

def BackendEntry.candidateRow (e : BackendEntry) : CandidateRow where
  name := e.name
  state := (e.backend.map (·.state.value)).getD "unloaded"
  available := e.isReady
  inFlight := e.inFlight
  hasCapacity := e.hasCapacity

/-- One placement attempt of a plan. -/
structure PlanStep where
  targets : List String
  chosen : Option String
  candidates : List CandidateRow
  deriving DecidableEq, Repr

structure RoutePlan where
  model : String
  policy : Policy
  known : Bool
  chosen : Option String
  chosenStep : Option Nat
  steps : List PlanStep
  workloadRule : Option String
  workloadRulePreferredTargets : Option (List String)
  deriving DecidableEq, Repr

/-- `sorted(scope)` of a set of names; `*all*` for the whole pool. -/
def scopeTargets : Option (List String) → List String
  | none => ["*all*"]
  | some names => names.dedup.insertionSort (· ≤ ·)

namespace Router

section Plan

variable (digest : List UInt8 → Nat)

/-- `BackendRegistry.select`. -/
def select (prefixKey : Option Utf8.Text) (sc : Scope) :
    EStateM AcquireError BackendRegistry (Option BackendEntry) := do
  match (← get).selectDetailed digest prefixKey sc with
  | .error err => throw err
  | .ok chosen => return chosen.map (·.1)

/-- The loop of `plan` over the scopes, from scope `i` on, with what was chosen so far. -/
def planScopes (prefixKey : Option Utf8.Text) (model : Option String) (required : List Feature) :
    Nat → Option (String × Nat) → List (Option (List String)) →
      EStateM AcquireError BackendRegistry (Option (String × Nat) × List PlanStep)
  | _, chosen, [] => return (chosen, [])
  | i, chosen, scope :: rest => do
    let sc : Scope := ⟨scope, model, required⟩
    let entry ← if chosen.isNone then select digest prefixKey sc else pure none
    let r ← get
    let candidates := r.entries.filter fun e => sc.admits e && e.eligible model required
    let stepChoice := entry.map (·.name)
    let (chosen, steps) ← planScopes prefixKey model required (i + 1)
      (chosen <|> stepChoice.map (·, i)) rest
    return (chosen, ⟨scopeTargets scope, stepChoice, candidates.map (·.candidateRow)⟩ :: steps)

/-- `plan`. -/
def plan (rt : Router) (name : String) (prefixKey : Option Utf8.Text) (required : List Feature) :
    EStateM AcquireError BackendRegistry RoutePlan := do
  let rule := rt.matchingWorkloadRule name required
  let vm := rt.vmodel name
  let model := if vm.isSome then none else some name
  let scopes : List (Option (List String)) :=
    match rule, vm with
    | some rule, _ => [some rule.preferredBackends, none]
    | none, some vm => vm.steps.map some
    | none, none => [none]
  let (chosen, steps) ← planScopes digest prefixKey model required 0 none scopes
  let r ← get
  return {
    model := name
    policy := (vm.map (·.policy)).getD .base
    known := rt.knownModel r name
    chosen := chosen.map (·.1)
    chosenStep := chosen.map (·.2)
    steps := steps
    workloadRule := rule.map (·.name)
    workloadRulePreferredTargets := rule.map (·.preferredBackends) }

end Plan

variable {digest : List UInt8 → Nat} {r : BackendRegistry}

theorem not_virtual_of_rule {rt : Router} {name : String} {required : List Feature}
    {rule : WorkloadRoutingRule} (h : rt.matchingWorkloadRule name required = some rule) :
    rt.vmodel name = none := by
  unfold matchingWorkloadRule at h
  split at h
  · cases h
  · rename_i hoff
    simp only [Bool.or_eq_true, not_or] at hoff
    simpa using hoff.2

/-- The scope of one step of a virtual model. -/
def stepScope (names : List String) (required : List Feature) : Scope :=
  ⟨some names, none, required⟩

/-- The scopes that are tried for a name, in order. -/
def scopes (rt : Router) (name : String) (required : List Feature) : List Scope :=
  match rt.matchingWorkloadRule name required, rt.vmodel name with
  | some rule, _ =>
    [⟨some rule.preferredBackends, some name, required⟩, ⟨none, some name, required⟩]
  | none, some vm => vm.steps.map (stepScope · required)
  | none, none => [⟨none, some name, required⟩]

/-- No scope is stuck on the prefix key as far as they are tried: up to the first that can serve. -/
def Encodes (r : BackendRegistry) (prefixKey : Option Utf8.Text) : List Scope → Prop
  | [] => True
  | sc :: rest =>
    ¬ r.Stuck prefixKey sc ∧ ((∃ e ∈ r.entries, e.CanServe sc) ∨ Encodes r prefixKey rest)

/-- The name of the entry a placement has leased, if any. -/
def leasedName (r : BackendRegistry) :
    Except AcquireError (RegistryLease × BackendRegistry) → Except AcquireError (Option String)
  | .ok (l, _) => .ok ((r.entries[l.entry]?).map (·.name))
  | .error .unicodeEncode => .error .unicodeEncode
  | .error _ => .ok none

/-- The name of the entry a scope would give. -/
def selectedName (digest : List UInt8 → Nat) (r : BackendRegistry) (prefixKey : Option Utf8.Text)
    (sc : Scope) : Except AcquireError (Option String) :=
  (r.selectDetailed digest prefixKey sc).map fun chosen => chosen.map (·.1.name)

/-- The name of the entry that the first of several scopes gives. -/
def firstName (digest : List UInt8 → Nat) (r : BackendRegistry) (prefixKey : Option Utf8.Text) :
    List Scope → Except AcquireError (Option String)
  | [] => .ok none
  | sc :: rest =>
    match selectedName digest r prefixKey sc with
    | .error err => .error err
    | .ok (some name) => .ok (some name)
    | .ok none => firstName digest r prefixKey rest

theorem selectedName_eq_error_iff (digest : List UInt8 → Nat) (r : BackendRegistry)
    (prefixKey : Option Utf8.Text) (sc : Scope) {e : AcquireError} :
    selectedName digest r prefixKey sc = .error e ↔ e = .unicodeEncode ∧
      r.Stuck prefixKey sc := by
  rw [← BackendRegistry.selectDetailed_eq_error_iff digest r prefixKey sc]
  unfold selectedName
  cases r.selectDetailed digest prefixKey sc with
  | error err' => simp [Except.map]
  | ok chosen => simp [Except.map]

theorem selectedName_eq_none_iff (digest : List UInt8 → Nat) (r : BackendRegistry)
    (prefixKey : Option Utf8.Text) (sc : Scope) :
    selectedName digest r prefixKey sc = .ok none ↔
      ¬ r.Stuck prefixKey sc ∧ ∀ e ∈ r.entries, ¬ e.CanServe sc := by
  rw [← BackendRegistry.selectDetailed_eq_none_iff digest r prefixKey sc]
  unfold selectedName
  cases r.selectDetailed digest prefixKey sc with
  | error err => simp [Except.map]
  | ok chosen => cases chosen <;> simp [Except.map]

/-- A walk over the scopes raises exactly when it comes to one that is stuck. -/
theorem firstName_eq_error_iff (digest : List UInt8 → Nat) (r : BackendRegistry)
    (prefixKey : Option Utf8.Text) (scopes : List Scope) {err : AcquireError} :
    firstName digest r prefixKey scopes = .error err ↔
      err = .unicodeEncode ∧ ¬ Encodes r prefixKey scopes := by
  induction scopes with
  | nil => simp [firstName, Encodes]
  | cons sc rest ih =>
    have herror := selectedName_eq_error_iff digest r prefixKey sc (e := err)
    have hstuck := selectedName_eq_error_iff digest r prefixKey sc (e := .unicodeEncode)
    have hnone := selectedName_eq_none_iff digest r prefixKey sc
    unfold firstName Encodes
    cases hsel : selectedName digest r prefixKey sc with
    | error err' => grind
    | ok chosen =>
      cases chosen with
      | none => grind
      | some name => grind

theorem leasedName_acquire (digest : List UInt8 → Nat) (r : BackendRegistry)
    (prefixKey : Option Utf8.Text) (sc : Scope) :
    leasedName r (r.acquire digest prefixKey sc) = selectedName digest r prefixKey sc := by
  by_cases hstuck : r.Stuck prefixKey sc
  · rw [BackendRegistry.acquire_stuck digest hstuck,
      (selectedName_eq_error_iff digest r prefixKey sc).mpr ⟨rfl, hstuck⟩]
    rfl
  unfold selectedName
  cases hacq : r.acquire digest prefixKey sc with
  | error err =>
    have hlacks := (BackendRegistry.acquire_error_iff hstuck).mp hacq
    rw [BackendRegistry.selectDetailed_of_error hstuck hacq]
    cases err with
    | unicodeEncode => exact hlacks.elim
    | noBackend reason => rfl
    | featureUnsupported features model => rfl
  | ok p =>
    obtain ⟨l, r'⟩ := p
    obtain ⟨e, hsel, hentry, -⟩ := BackendRegistry.acquire_eq_ok hacq
    obtain ⟨hmem, -⟩ := BackendRegistry.selectDetailed_spec hsel
    simp only [leasedName, hentry, BackendRegistry.getElem?_order hmem, hsel,
      Option.map_some, Except.map]

theorem select_run (digest : List UInt8 → Nat) (r : BackendRegistry) (prefixKey : Option Utf8.Text)
    (sc : Scope) :
    (select digest prefixKey sc).run r =
      match r.selectDetailed digest prefixKey sc with
      | .error err => .error err r
      | .ok chosen => .ok (chosen.map (·.1)) r := by
  change (match r.selectDetailed digest prefixKey sc with
    | .error err => throw err
    | .ok chosen => return chosen.map (·.1) : EStateM AcquireError BackendRegistry _) r = _
  cases r.selectDetailed digest prefixKey sc <;> rfl

/-- Once an entry is chosen the loop of the plan only lists the candidates of the other scopes. -/
theorem planScopes_chosen (digest : List UInt8 → Nat) (r : BackendRegistry)
    (prefixKey : Option Utf8.Text) (model : Option String) (required : List Feature)
      (c : String × Nat) (scopes : List (Option (List String))) :
    ∀ i : Nat, ∃ steps, (planScopes digest prefixKey model required i (some c) scopes).run r =
      .ok (some c, steps) r := by
  induction scopes with
  | nil => exact fun i => ⟨[], rfl⟩
  | cons scope rest ih =>
    intro i
    obtain ⟨steps, h⟩ := ih (i + 1)
    have hkept (x : Option (String × Nat)) : (some c <|> x) = some c := rfl
    simp only [planScopes, EStateM.run_bind, Option.isNone_some, Bool.false_eq_true, if_false,
      EStateM.run_pure, EStateM.run_get, hkept, h]
    exact ⟨_, rfl⟩

theorem planScopes_run (digest : List UInt8 → Nat) (r : BackendRegistry)
    (prefixKey : Option Utf8.Text) (model : Option String) (required : List Feature)
      (scopes : List (Option (List String))) :
    ∀ i : Nat,
      match firstName digest r prefixKey (scopes.map (⟨·, model, required⟩)) with
      | .error err => (planScopes digest prefixKey model required i none scopes).run r = .error err r
      | .ok name => ∃ chosen steps, (planScopes digest prefixKey model required i none scopes).run r =
          .ok (chosen, steps) r ∧ chosen.map (·.1) = name := by
  induction scopes with
  | nil => exact fun i => ⟨none, [], rfl, rfl⟩
  | cons scope rest ih =>
    intro i
    have hsel := select_run digest r prefixKey ⟨scope, model, required⟩
    simp only [planScopes, List.map_cons, firstName, selectedName, EStateM.run_bind,
      Option.isNone_none, if_true, hsel, EStateM.run_get]
    cases r.selectDetailed digest prefixKey ⟨scope, model, required⟩ with
    | error err => rfl
    | ok chosen =>
      cases chosen with
      | some p =>
        obtain ⟨steps, h⟩ := planScopes_chosen digest r prefixKey model required
            (p.1.name, i) rest (i + 1)
        simp [Except.map, h]
      | none =>
        have hrest := ih (i + 1)
        simp only [Except.map, Option.map_none]
        cases hfirst : firstName digest r prefixKey (rest.map (⟨·, model, required⟩)) with
        | error err =>
          rw [hfirst] at hrest
          simp [hrest]
        | ok name =>
          rw [hfirst] at hrest
          obtain ⟨chosen, steps, hrun, hname⟩ := hrest
          simp [hrun, hname]

theorem leasedName_acquireSteps (vm : VirtualModel) (prefixKey : Option Utf8.Text)
    (required : List Feature) (steps : List (List String)) :
    ∀ (i : Nat) (sawBusy sawFeature : Bool),
      leasedName r (acquireSteps digest r vm prefixKey required i sawBusy sawFeature steps) =
        firstName digest r prefixKey (steps.map (stepScope · required)) := by
  induction steps with
  | nil =>
    intro i sawBusy sawFeature
    unfold acquireSteps
    cases sawBusy <;> cases sawFeature <;> rfl
  | cons names rest ih =>
    intro i sawBusy sawFeature
    have hname := leasedName_acquire digest r prefixKey (stepScope names required)
    unfold acquireSteps
    rw [List.map_cons, firstName, ← hname]
    unfold stepScope
    cases hacq : r.acquire digest prefixKey ⟨some names, none, required⟩ with
    | error err =>
      cases err with
      | noBackend reason => exact ih ..
      | featureUnsupported features model => exact ih ..
      | unicodeEncode => rfl
    | ok p =>
      obtain ⟨l, r'⟩ := p
      obtain ⟨e, he, -⟩ := BackendRegistry.acquire_taken hacq
      simp only [leasedName, RegistryLease.withPolicy, he, Option.map_some]

theorem leasedName_acquireBaseline (rt : Router) (name : String) (prefixKey : Option Utf8.Text)
    (required : List Feature) :
    leasedName r (rt.acquireBaseline digest r name prefixKey required) =
      match rt.vmodel name with
      | none => firstName digest r prefixKey [⟨none, some name, required⟩]
      | some vm => firstName digest r prefixKey (vm.steps.map (stepScope · required)) := by
  unfold acquireBaseline
  cases rt.vmodel name with
  | some vm => exact leasedName_acquireSteps vm prefixKey required vm.steps 0 false false
  | none =>
    simp only [firstName, ← leasedName_acquire]
    cases hacq : r.acquire digest prefixKey ⟨none, some name, required⟩ with
    | error err => cases err <;> rfl
    | ok p =>
      obtain ⟨l, r'⟩ := p
      obtain ⟨e, he, -⟩ := BackendRegistry.acquire_taken hacq
      simp only [leasedName, RegistryLease.withPolicy, he, Option.map_some]

theorem leasedName_router (digest : List UInt8 → Nat) (r : BackendRegistry) (rt : Router)
    (name : String) (prefixKey : Option Utf8.Text) (required : List Feature) :
    leasedName r (rt.acquire digest r name prefixKey required) =
      firstName digest r prefixKey (rt.scopes name required) := by
  unfold acquire scopes
  cases hrule : rt.matchingWorkloadRule name required with
  | none =>
    simp only [leasedName_acquireBaseline]
    cases rt.vmodel name <;> rfl
  | some rule =>
    simp only
    rw [firstName, ← leasedName_acquire]
    cases hacq : r.acquire digest prefixKey ⟨some rule.preferredBackends, some name, required⟩ with
    | error err =>
      have hbaseline : leasedName r (rt.acquireBaseline digest r name prefixKey required) = _ :=
        leasedName_acquireBaseline rt name prefixKey required
      rw [not_virtual_of_rule hrule] at hbaseline
      cases err with
      | noBackend reason => exact hbaseline
      | featureUnsupported features model => exact hbaseline
      | unicodeEncode => rfl
    | ok p =>
      obtain ⟨l, r'⟩ := p
      obtain ⟨e, he, -⟩ := BackendRegistry.acquire_taken hacq
      simp only [leasedName, RegistryLease.withPolicy, RegistryLease.withWorkloadRule, he,
        Option.map_some]

/-- Both walks go over the same scopes in the same order. -/
theorem plan_run (digest : List UInt8 → Nat) (r : BackendRegistry) (rt : Router) (name : String)
    (prefixKey : Option Utf8.Text) (required : List Feature) :
    match leasedName r (rt.acquire digest r name prefixKey required) with
    | .error err => (rt.plan digest name prefixKey required).run r = .error err r
    | .ok leased => ∃ p, (rt.plan digest name prefixKey required).run r = .ok p r ∧ p.chosen = leased := by
  have hscopes : ∃ (model : Option String) (allowed : List (Option (List String))),
      rt.scopes name required = allowed.map (⟨·, model, required⟩) ∧
      model = (if (rt.vmodel name).isSome then none else some name) ∧
      allowed = (match rt.matchingWorkloadRule name required, rt.vmodel name with
        | some rule, _ => [some rule.preferredBackends, none]
        | none, some vm => vm.steps.map some
        | none, none => [none]) := by
    refine ⟨_, _, ?_, rfl, rfl⟩
    unfold scopes
    cases hrule : rt.matchingWorkloadRule name required with
    | some rule => rw [not_virtual_of_rule hrule]; rfl
    | none =>
      cases rt.vmodel name with
      | none => rfl
      | some vm => simp [stepScope, Function.comp_def]
  obtain ⟨model, allowed, heq, hmodel, hallowed⟩ := hscopes
  have hrun := planScopes_run digest r prefixKey model required allowed 0
  rw [leasedName_router, heq]
  unfold plan
  simp only [← hmodel, ← hallowed, EStateM.run_bind]
  cases hfirst : firstName digest r prefixKey (allowed.map (⟨·, model, required⟩)) with
  | error err =>
    rw [hfirst] at hrun
    simp only [hrun]
  | ok leased =>
    rw [hfirst] at hrun
    obtain ⟨chosen, steps, hplan, hchosen⟩ := hrun
    simp only [hplan]
    exact ⟨_, rfl, hchosen⟩

theorem plan_stuck (digest : List UInt8 → Nat) {r : BackendRegistry} {rt : Router} {name : String}
    {prefixKey : Option Utf8.Text} {required : List Feature}
    (h : ¬ Encodes r prefixKey (rt.scopes name required)) :
    (rt.plan digest name prefixKey required).run r = .error .unicodeEncode r ∧
      rt.acquire digest r name prefixKey required = .error .unicodeEncode := by
  have hfirst := (firstName_eq_error_iff digest r prefixKey (rt.scopes name required)).mpr ⟨rfl, h⟩
  rw [← leasedName_router] at hfirst
  have hrun := plan_run digest r rt name prefixKey required
  rw [hfirst] at hrun
  refine ⟨hrun, ?_⟩
  cases hacq : rt.acquire digest r name prefixKey required with
  | ok p => simp [hacq, leasedName] at hfirst
  | error err =>
    rw [hacq] at hfirst
    cases err with
    | unicodeEncode => rfl
    | noBackend reason => cases hfirst
    | featureUnsupported features model => cases hfirst

/-- Otherwise neither raises for the key. -/
theorem acquire_ne_unicodeEncode (digest : List UInt8 → Nat) {r : BackendRegistry} {rt : Router}
    {name : String} {prefixKey : Option Utf8.Text} {required : List Feature}
    (h : Encodes r prefixKey (rt.scopes name required)) :
    rt.acquire digest r name prefixKey required ≠ .error .unicodeEncode := by
  intro hacq
  have hfirst := leasedName_router digest r rt name prefixKey required
  rw [hacq] at hfirst
  exact ((firstName_eq_error_iff digest r prefixKey _).mp hfirst.symm).2 h

theorem encodes_iff_acquire (digest : List UInt8 → Nat) (rt : Router) (r : BackendRegistry)
    (name : String) (prefixKey : Option Utf8.Text) (required : List Feature) :
    Encodes r prefixKey (rt.scopes name required) ↔
      rt.acquire digest r name prefixKey required ≠ .error .unicodeEncode :=
  ⟨acquire_ne_unicodeEncode digest, fun h => by_contra fun hno => h (plan_stuck digest hno).2⟩

instance (rt : Router) (r : BackendRegistry) (name : String) (prefixKey : Option Utf8.Text)
    (required : List Feature) : Decidable (Encodes r prefixKey (rt.scopes name required)) :=
  match h : rt.acquire List.length r name prefixKey required with
  | .error .unicodeEncode =>
    .isFalse fun he => (encodes_iff_acquire List.length rt r name prefixKey required).mp he h
  | .ok _ | .error (.noBackend _) | .error (.featureUnsupported _ _) =>
    .isTrue ((encodes_iff_acquire List.length rt r name prefixKey required).mpr (by simp [h]))

/-- What the dry run promises: `plan` leaves the registry as it was, and names the backend of the
lease that `acquire` would return in the same state, or none exactly when `acquire` would raise. -/
def PlanAgrees (digest : List UInt8 → Nat) (rt : Router) (r : BackendRegistry) (name : String)
    (prefixKey : Option Utf8.Text) (required : List Feature) : Prop :=
  ∃ p, (rt.plan digest name prefixKey required).run r = .ok p r ∧
    (∀ l r', rt.acquire digest r name prefixKey required = .ok (l, r') →
      ∃ e, r.entries[l.entry]? = some e ∧ p.chosen = some e.name) ∧
    (p.chosen = none ↔ ∃ err, rt.acquire digest r name prefixKey required = .error err)

theorem plan_agrees_of_encodes (digest : List UInt8 → Nat) {rt : Router} {r : BackendRegistry}
    {name : String} {prefixKey : Option Utf8.Text} {required : List Feature}
    (h : Encodes r prefixKey (rt.scopes name required)) :
    PlanAgrees digest rt r name prefixKey required := by
  have hrun := plan_run digest r rt name prefixKey required
  have hne := acquire_ne_unicodeEncode digest h
  unfold PlanAgrees
  cases hacq : rt.acquire digest r name prefixKey required with
  | ok p =>
    obtain ⟨l, r'⟩ := p
    obtain ⟨e, he, -⟩ := (acquire_ok hacq).room
    rw [hacq] at hrun
    simp only [leasedName, he, Option.map_some] at hrun
    obtain ⟨p, hplan, hchosen⟩ := hrun
    refine ⟨p, hplan, fun l' r'' heq => ?_, by simp [hchosen]⟩
    cases heq
    exact ⟨e, he, hchosen⟩
  | error err =>
    rw [hacq] at hrun hne
    have hnone : leasedName r (.error err) = .ok none := by
      cases err with
      | unicodeEncode => exact absurd rfl hne
      | noBackend reason => rfl
      | featureUnsupported features model => rfl
    rw [hnone] at hrun
    obtain ⟨p, hplan, hchosen⟩ := hrun
    exact ⟨p, hplan, fun l' r'' heq => (by cases heq), by simp [hchosen]⟩

/-- **The dry run agrees with the placement**, exactly as far as the prefix key has the bytes that
the scopes of the name ask for. -/
theorem plan_agrees_iff (digest : List UInt8 → Nat) (rt : Router) (r : BackendRegistry)
    (name : String) (prefixKey : Option Utf8.Text) (required : List Feature) :
    PlanAgrees digest rt r name prefixKey required ↔
      Encodes r prefixKey (rt.scopes name required) := by
  refine ⟨fun ⟨p, hrun, _⟩ => ?_, plan_agrees_of_encodes digest⟩
  by_contra h
  rw [(plan_stuck digest h).1] at hrun
  cases hrun

/-- The prefix key "\ud800": the placement raises, and the dry run raises too instead of reporting
that nothing is chosen. -/
theorem plan_raises_surrogate :
    Router.acquire List.length {} BackendRegistry.cachingWorker "m" (some [.surrogate 0]) [] =
        .error .unicodeEncode ∧
      ¬ PlanAgrees List.length {} BackendRegistry.cachingWorker "m" (some [.surrogate 0]) [] := by
  have hstuck : ¬ Encodes BackendRegistry.cachingWorker (some [.surrogate 0])
      (Router.scopes {} "m" []) := fun h => h.1 BackendRegistry.cachingWorker_stuck
  obtain ⟨hplan, hacq⟩ := plan_stuck List.length hstuck
  refine ⟨hacq, fun ⟨p, hrun, _⟩ => ?_⟩
  rw [hplan] at hrun
  cases hrun

/-- The step has a ready, feature-capable entry with room. -/
def StepServes (r : BackendRegistry) (required : List Feature) (names : List String) : Prop :=
  ∃ e ∈ r.entries, e.CanServe (stepScope names required)

/-- The step has ready, feature-capable entries, and all of them are full. -/
def StepBusy (r : BackendRegistry) (required : List Feature) (names : List String) : Prop :=
  (∃ e ∈ r.entries, e.ReadyFor (stepScope names required) ∧ e.Supports required) ∧
    ∀ e ∈ r.entries, e.ReadyFor (stepScope names required) → e.Supports required →
      ¬ e.inFlight < e.maxInFlight

/-- The step has ready entries, and none of them has the features. -/
def StepLacksFeature (r : BackendRegistry) (required : List Feature) (names : List String) : Prop :=
  (∃ e ∈ r.entries, e.ReadyFor (stepScope names required)) ∧
    ∀ e ∈ r.entries, e.ReadyFor (stepScope names required) → ¬ e.Supports required

variable {vm : VirtualModel} {prefixKey : Option Utf8.Text} {required : List Feature}

/-- What a step that cannot serve raises, and what it says of the step. -/
theorem acquire_step_error (digest : List UInt8 → Nat) {names : List String}
    (hstuck : ¬ r.Stuck prefixKey (stepScope names required)) (h : ¬ StepServes r required names) :
    (r.acquire digest prefixKey (stepScope names required) = .error (.noBackend .busy) ∧
        StepBusy r required names) ∨
    (r.acquire digest prefixKey (stepScope names required) =
        .error (.featureUnsupported required none) ∧
        StepLacksFeature r required names ∧ ¬ StepBusy r required names) ∨
    (r.acquire digest prefixKey (stepScope names required) = .error (.noBackend .unloaded) ∧
        ¬ StepLacksFeature r required names ∧ ¬ StepBusy r required names) := by
  have hspec := BackendRegistry.acquires_of_not_stuck digest hstuck
  by_cases hbusy : StepBusy r required names
  · exact .inl ⟨hspec.busy.mpr hbusy, hbusy⟩
  · by_cases hfeat : StepLacksFeature r required names
    · exact .inr (.inl ⟨hspec.featureUnsupported.mpr hfeat, hfeat, hbusy⟩)
    · refine .inr (.inr ⟨hspec.unloaded.mpr fun e he hready => ?_, hfeat, hbusy⟩)
      by_cases hsup : ∃ e ∈ r.entries, e.ReadyFor (stepScope names required) ∧ e.Supports required
      · exact hbusy ⟨hsup, fun e he hready hsup hfree => h ⟨e, he, hready, hsup, hfree⟩⟩
      · exact hfeat ⟨⟨e, he, hready⟩, fun e he hready hs => hsup ⟨e, he, hready, hs⟩⟩

theorem acquireSteps_lands (digest : List UInt8 → Nat) (vm : VirtualModel)
    (prefixKey : Option Utf8.Text) {names : List String} (post : List (List String))
      (hserve : StepServes r required names) :
    ∀ (pre : List (List String)), (∀ n ∈ pre, ¬ StepServes r required n) →
      Encodes r prefixKey ((pre ++ names :: post).map (stepScope · required)) →
      ∀ (i : Nat) (sawBusy sawFeature : Bool), ∃ l r',
        r.acquire digest prefixKey (stepScope names required) = .ok (l, r') ∧
        acquireSteps digest r vm prefixKey required i sawBusy sawFeature (pre ++ names :: post) =
          .ok (l.withPolicy vm.policy (some (i + pre.length)) (0 < i + pre.length), r') := by
  intro pre
  induction pre with
  | nil =>
    intro _ hencodes i sawBusy sawFeature
    have hspec := BackendRegistry.acquires_of_not_stuck digest hencodes.1
    obtain ⟨l, r', hacq⟩ := hspec.succeeds.mpr hserve
    refine ⟨l, r', hacq, ?_⟩
    rw [List.nil_append, acquireSteps]
    unfold stepScope at hacq
    simp only [hacq, List.length_nil, Nat.add_zero]
  | cons n pre ih =>
    intro hpre hencodes i sawBusy sawFeature
    have hn := hpre n (List.mem_cons_self ..)
    have hlen : i + (n :: pre).length = i + 1 + pre.length := by
      rw [List.length_cons]
      omega
    rw [hlen, List.cons_append, acquireSteps]
    have hrest := ih (fun n' hn' => hpre n' (List.mem_cons_of_mem _ hn'))
        (hencodes.2.resolve_left hn)
    rcases acquire_step_error digest hencodes.1 hn with ⟨he, -⟩ | ⟨he, -⟩ | ⟨he, -⟩ <;>
    · unfold stepScope at he
      simp only [he]
      exact hrest ..

/-- When no step can serve, the loop raises the most actionable of what the steps raised. -/
theorem acquireSteps_raises (digest : List UInt8 → Nat) (vm : VirtualModel)
    (prefixKey : Option Utf8.Text) :
    ∀ (steps : List (List String)), (∀ n ∈ steps, ¬ StepServes r required n) →
      Encodes r prefixKey (steps.map (stepScope · required)) →
      ∀ (i : Nat) (sawBusy sawFeature : Bool), ∃ err,
        acquireSteps digest r vm prefixKey required i sawBusy sawFeature steps = .error err ∧
        (err = .noBackend .busy ↔ sawBusy = true ∨ ∃ n ∈ steps, StepBusy r required n) ∧
        (err = .featureUnsupported required (some vm.name) ↔
          ¬ (sawBusy = true ∨ ∃ n ∈ steps, StepBusy r required n) ∧
            (sawFeature = true ∨ ∃ n ∈ steps, StepLacksFeature r required n)) ∧
        (err = .noBackend .unloaded ↔
          ¬ (sawBusy = true ∨ ∃ n ∈ steps, StepBusy r required n) ∧
            ¬ (sawFeature = true ∨ ∃ n ∈ steps, StepLacksFeature r required n)) := by
  intro steps
  induction steps with
  | nil =>
    intro _ _ i sawBusy sawFeature
    unfold acquireSteps
    cases sawBusy <;> cases sawFeature <;> simp
  | cons n rest ih =>
    intro h hencodes i sawBusy sawFeature
    have hn := h n (List.mem_cons_self ..)
    have hrest := ih (fun n' hn' => h n' (List.mem_cons_of_mem _ hn')) (hencodes.2.resolve_left hn)
    rw [acquireSteps]
    rcases acquire_step_error digest hencodes.1 hn with ⟨he, hb⟩ | ⟨he, hf, hb⟩ | ⟨he, hf, hb⟩
    · unfold stepScope at he
      simp only [he, decide_true, Bool.or_true]
      obtain ⟨err, heq, hspec⟩ := hrest (i + 1) true sawFeature
      refine ⟨err, heq, ?_⟩
      simpa [hb] using hspec
    · unfold stepScope at he
      simp only [he]
      obtain ⟨err, heq, hspec⟩ := hrest (i + 1) sawBusy true
      refine ⟨err, heq, ?_⟩
      simpa [hb, hf] using hspec
    · unfold stepScope at he
      simp only [he, reduceCtorEq, decide_false, Bool.or_false]
      obtain ⟨err, heq, hspec⟩ := hrest (i + 1) sawBusy sawFeature
      refine ⟨err, heq, ?_⟩
      simpa [hb, hf] using hspec

theorem acquire_virtual {rt : Router} {name : String} (h : rt.vmodel name = some vm) :
    rt.acquire digest r name prefixKey required =
      acquireSteps digest r vm prefixKey required 0 false false vm.steps := by
  have hrule : rt.matchingWorkloadRule name required = none := by
    unfold matchingWorkloadRule
    simp [h]
  unfold acquire acquireBaseline
  simp only [hrule, h]

theorem vmodel_name {rt : Router} {name : String} (h : rt.vmodel name = some vm) :
    vm.name = name := by
  unfold vmodel at h
  simpa using List.find?_some h

theorem scopes_virtual {rt : Router} {name : String} (h : rt.vmodel name = some vm) :
    rt.scopes name required = vm.steps.map (stepScope · required) := by
  have hrule : rt.matchingWorkloadRule name required = none := by
    unfold matchingWorkloadRule
    simp [h]
  unfold scopes
  rw [hrule, h]

/-- What a cascade promises. The lease is of an entry of the first step that can serve, with the
features, and records the step and, behind an escalation past earlier steps, the tier; when no step
can serve, nothing is reserved and the error is the most actionable one. -/
structure CascadeLands (digest : List UInt8 → Nat) (rt : Router) (name : String) (vm : VirtualModel)
    (r : BackendRegistry) (prefixKey : Option Utf8.Text) (required : List Feature) : Prop where
  lands : ∀ i names, vm.steps[i]? = some names → StepServes r required names →
    (∀ j names', j < i → vm.steps[j]? = some names' → ¬ StepServes r required names') →
    ∃ l r' e, rt.acquire digest r name prefixKey required = .ok (l, r') ∧
      r.entries[l.entry]? = some e ∧ e.name ∈ names ∧ e.Supports required ∧
      e.CanServe (stepScope names required) ∧
      r'.entries = r.entries.set l.entry { e with inFlight := e.inFlight + 1 } ∧
      l.decision.step = some i ∧ l.decision.policy = vm.policy ∧
      l.decision.fallbacks = (if 0 < i then [.cascadeEscalation] else []) ++
        (if e.spillover then [.spillover] else [])
  raises : (∀ names ∈ vm.steps, ¬ StepServes r required names) →
    ∃ err, rt.acquire digest r name prefixKey required = .error err ∧
      (err = .noBackend .busy ↔ ∃ names ∈ vm.steps, StepBusy r required names) ∧
      (err = .featureUnsupported required (some name) ↔
        (¬ ∃ names ∈ vm.steps, StepBusy r required names) ∧
          ∃ names ∈ vm.steps, StepLacksFeature r required names) ∧
      (err = .noBackend .unloaded ↔
        (¬ ∃ names ∈ vm.steps, StepBusy r required names) ∧
          ¬ ∃ names ∈ vm.steps, StepLacksFeature r required names)

theorem cascade_lands_of_encodes (digest : List UInt8 → Nat) {rt : Router} {name : String}
    (hvm : rt.vmodel name = some vm)
    (hencodes : Encodes r prefixKey (vm.steps.map (stepScope · required))) :
    CascadeLands digest rt name vm r prefixKey required := by
  constructor
  · intro i names hi hserve hleast
    rw [acquire_virtual hvm]
    obtain ⟨hlt, hget⟩ := List.getElem?_eq_some_iff.mp hi
    have hsplit : vm.steps = vm.steps.take i ++ names :: vm.steps.drop (i + 1) := by
      rw [← hget, ← List.drop_eq_getElem_cons hlt, List.take_append_drop]
    have hpre : ∀ n ∈ vm.steps.take i, ¬ StepServes r required n := by
      intro n hn
      obtain ⟨j, hj, hjn⟩ := List.mem_take_iff_getElem.mp hn
      exact hleast j n (by omega) (List.getElem?_eq_some_iff.mpr ⟨by omega, hjn⟩)
    obtain ⟨l, r', hacq, hsteps⟩ := acquireSteps_lands digest vm prefixKey
      (vm.steps.drop (i + 1)) hserve _ hpre (hsplit ▸ hencodes) 0 false false
    rw [← hsplit, List.length_take, Nat.min_eq_left (by omega), Nat.zero_add] at hsteps
    obtain ⟨e, he, hcan, -, hr'⟩ := BackendRegistry.acquire_taken hacq
    obtain ⟨⟨e', he', hpol⟩, -⟩ := BackendRegistry.follows_policy hacq
    obtain rfl : e = e' := Option.some.inj (he.symm.trans he')
    refine ⟨_, r', e, hsteps, he, ?_, hcan.2.1, hcan, hr', rfl, rfl, ?_⟩
    · simpa [Scope.admits, stepScope] using hcan.1.1
    · simp only [RegistryLease.withPolicy, hpol.fallbacks]
      by_cases hi0 : 0 < i
      · simp [hi0]
      · simp [hi0]
  · intro h
    rw [acquire_virtual hvm]
    obtain ⟨err, heq, hspec⟩ :=
        acquireSteps_raises digest vm prefixKey vm.steps h hencodes 0 false false
    refine ⟨err, heq, ?_⟩
    simpa [vmodel_name hvm] using hspec

theorem exists_first_step (r : BackendRegistry) (required : List Feature)
    (steps : List (List String)) (h : ∃ names ∈ steps, StepServes r required names) :
    ∃ (i : Nat) (names : List String), steps[i]? = some names ∧ StepServes r required names ∧
      ∀ (j : Nat) (names' : List String), j < i → steps[j]? = some names' →
      ¬ StepServes r required names' := by
  classical
  have hex : ∃ i : Nat, ∃ names, steps[i]? = some names ∧ StepServes r required names := by
    obtain ⟨names, hmem, hserve⟩ := h
    obtain ⟨i, hi⟩ := List.getElem?_of_mem hmem
    exact ⟨i, names, hi, hserve⟩
  obtain ⟨names, hi, hserve⟩ := Nat.find_spec hex
  exact ⟨_, names, hi, hserve,
    fun j names' hj hget hserve' => Nat.find_min hex hj ⟨names', hget, hserve'⟩⟩

theorem not_cascadeLands_of_stuck (digest : List UInt8 → Nat) {rt : Router} {name : String}
    (hvm : rt.vmodel name = some vm)
    (hstuck : ¬ Encodes r prefixKey (vm.steps.map (stepScope · required))) :
    ¬ CascadeLands digest rt name vm r prefixKey required := by
  rintro ⟨hlands, hraises⟩
  have hacq := (plan_stuck digest (scopes_virtual hvm ▸ hstuck)).2
  by_cases hserve : ∃ names ∈ vm.steps, StepServes r required names
  · obtain ⟨i, names, hi, hserve, hleast⟩ := exists_first_step r required vm.steps hserve
    obtain ⟨l, r', e, hok, -⟩ := hlands i names hi hserve hleast
    rw [hacq] at hok
    cases hok
  · obtain ⟨err, herr, hbusy, hfeature, hunloaded⟩ :=
      hraises fun names hmem hs => hserve ⟨names, hmem, hs⟩
    rw [hacq, Except.error.injEq] at herr
    subst herr
    simp only [reduceCtorEq, false_iff] at hbusy hfeature hunloaded
    by_cases hlacks : ∃ names ∈ vm.steps, StepLacksFeature r required names
    · exact hfeature ⟨hbusy, hlacks⟩
    · exact hunloaded ⟨hbusy, hlacks⟩

/-- **A virtual model is served by its first step that can serve**, exactly as far as the prefix key
has the bytes that the steps ask for. -/
theorem cascade_lands_iff (digest : List UInt8 → Nat) {rt : Router} {name : String}
    (hvm : rt.vmodel name = some vm) (r : BackendRegistry) (prefixKey : Option Utf8.Text)
    (required : List Feature) :
    CascadeLands digest rt name vm r prefixKey required ↔
      Encodes r prefixKey (vm.steps.map (stepScope · required)) :=
  ⟨fun h => by_contra fun hstuck => not_cascadeLands_of_stuck digest hvm hstuck h,
    cascade_lands_of_encodes digest hvm⟩

/-- A cascade over the two workers, of which the first is full. -/
def cascadeRouter : Router :=
  { virtualModels := [{ name := "auto", policy := .cascade, steps := [["a"], ["b"]] }] }

theorem cascade_lands_secondStep :
    ∃ l r', cascadeRouter.acquire List.length BackendRegistry.twoWorkers "auto" none [] =
        .ok (l, r') ∧
      l.decision.step = some 1 ∧ l.decision.fallbacks = [.cascadeEscalation] := by
  have hkey : Encodes BackendRegistry.twoWorkers none ([["a"], ["b"]].map (stepScope · [])) := by
    have hnone (sc : Scope) : ¬ BackendRegistry.twoWorkers.Stuck none sc := fun h => by
      obtain ⟨key, hkey, -⟩ := h.1
      cases hkey
    exact ⟨hnone _, .inr ⟨hnone _, .inr trivial⟩⟩
  have hland := ((cascade_lands_iff List.length
    (show cascadeRouter.vmodel "auto" =
      some _ from rfl) BackendRegistry.twoWorkers none []).mpr hkey).lands
  have hb : StepServes BackendRegistry.twoWorkers [] ["b"] := by
    refine ⟨BackendRegistry.twoWorkers.entries[1], by simp, ?_⟩
    rw [BackendEntry.canServe_iff]
    decide +kernel
  have ha : ¬ StepServes BackendRegistry.twoWorkers [] ["a"] := by
    rintro ⟨e, he, hserve⟩
    rw [BackendEntry.canServe_iff] at hserve
    revert e
    decide +kernel
  obtain ⟨l, r', e, hacq, he, hname, -, -, -, hstep, -, hfall⟩ := hland 1 ["b"] rfl hb (by
    intro j names' hj hnames'
    obtain rfl : j = 0 := by omega
    cases hnames'
    exact ha)
  have hprimary : ∀ e ∈ BackendRegistry.twoWorkers.entries, e.spillover = false := by decide +kernel
  have hsp := hprimary e (List.mem_of_getElem? he)
  exact ⟨l, r', hacq, hstep, by simpa [hsp] using hfall⟩

/-- The only step has an idle worker with a prefix cache, and the prefix key is "\ud800". -/
theorem cascade_raises_surrogate :
    ∃ vm, Router.vmodel { virtualModels := [⟨"auto", .cascade, [["a"]]⟩] } "auto" = some vm ∧
      ¬ CascadeLands List.length { virtualModels := [⟨"auto", .cascade, [["a"]]⟩] } "auto" vm
        BackendRegistry.cachingWorker (some [.surrogate 0]) [] := by
  refine ⟨_, rfl, not_cascadeLands_of_stuck List.length rfl fun h => h.1 ?_⟩
  refine ⟨⟨_, rfl, by decide⟩, .inl ⟨_, List.mem_cons_self .., rfl, ?_⟩⟩
  rw [BackendEntry.caches_iff]
  decide

end Router
end InferenceEngine
