import Mathlib.Data.String.Basic
import InferenceEngine.Lib.Dict
import InferenceEngine.Serving.Core

/-!
# Telemetry.RouteMetrics

The measurements of each (model, backend) route and the sheds of each model
(`telemetry/route_metrics.py`). `tell` is one call of `record` or `record_shed`; the latencies of a
result and its upstream attempts, which the serving model leaves out, are given with it (`Timings`).

`tallied`: whatever was told, in whatever order, each row and each total of `snapshot` is the number
of calls with its name, and the reasons and the policies of a row add up to its requests.

Times and costs are rationals; `snapshot` is without the rounding of the costs and the averages.
-/

namespace InferenceEngine

structure Timings where
  totalMs : Option ℚ := none
  ttftMs : Option ℚ := none
  upstreamAttempts : Nat := 0
  deriving DecidableEq, Repr

def outputTpsSample (completionTokens : Int) (totalMs : Option ℚ) (error cancelled : Bool) :
    Option ℚ :=
  match totalMs with
  | none => none
  | some ms =>
    if error || cancelled || completionTokens ≤ 0 || ms ≤ 0 then none
    else some (completionTokens / (ms / 1000))

structure Samples where
  sum : ℚ := 0
  n : Nat := 0
  deriving DecidableEq, Repr

namespace Samples

/-- A value that is `None` is not measured. -/
def add (x : Samples) : Option ℚ → Samples
  | some v => ⟨x.sum + v, x.n + 1⟩
  | none => x

end Samples

/-- `d[k] = d.get(k, 0) + 1`. -/
def bump {κ : Type} [DecidableEq κ] (d : Dict κ Nat) (k : κ) : Dict κ Nat := d.alter k 0 (· + 1)

structure RouteStat where
  requests : Nat := 0
  errors : Nat := 0
  cancelled : Nat := 0
  promptTokens : Int := 0
  completionTokens : Int := 0
  cost : ℚ := 0
  upstreamAttempts : Nat := 0
  tier : Option Tier := none
  totalMs : Samples := {}
  ttftMs : Samples := {}
  queueMs : Samples := {}
  outputTps : Samples := {}
  reasons : Dict RouteReason Nat := []
  fallbacks : Dict Fallback Nat := []
  policies : Dict Policy Nat := []
  workloadRules : Dict String Nat := []
  deriving DecidableEq, Repr

/-- What `record` does to the row of its route. -/
def RouteStat.record (stat : RouteStat) (r : RouteOutcome) (tm : Timings) : RouteStat :=
  let error := r.outcome == .error
  let cancelled := r.outcome == .cancelled
  -- latency is only meaningful for a request that produced tokens
  let measured (v : Option ℚ) : Option ℚ := if !error && !cancelled then v else none
  { requests := stat.requests + 1
    errors := if error then stat.errors + 1 else stat.errors
    cancelled := if cancelled then stat.cancelled + 1 else stat.cancelled
    promptTokens := stat.promptTokens + r.promptTokens
    completionTokens := stat.completionTokens + r.completionTokens
    cost := stat.cost + r.cost
    upstreamAttempts := stat.upstreamAttempts + tm.upstreamAttempts
    tier := some r.decision.tier
    totalMs := stat.totalMs.add (measured tm.totalMs)
    ttftMs := stat.ttftMs.add (measured tm.ttftMs)
    queueMs := stat.queueMs.add (some r.queueWaitMs)
    outputTps := stat.outputTps.add (outputTpsSample r.completionTokens tm.totalMs error cancelled)
    reasons := bump stat.reasons r.decision.reason
    fallbacks := r.decision.fallbacks.foldl bump stat.fallbacks
    policies := bump stat.policies r.decision.policy
    workloadRules := match r.decision.workloadRule with
      | some rule => bump stat.workloadRules rule
      | none => stat.workloadRules }

structure RouteMetrics where
  routes : Dict (String × String) RouteStat := []
  sheds : Dict String Nat := []
  deriving DecidableEq, Repr

structure Totals where
  requests : Nat
  errors : Nat
  cancelled : Nat
  cost : ℚ
  sheds : Nat
  deriving DecidableEq, Repr

/-- What `snapshot` returns; the averages of a row are the quotients of its `Samples`. -/
structure Snapshot where
  routes : List ((String × String) × RouteStat)
  sheds : List (String × Nat)
  totals : Totals
  deriving DecidableEq, Repr

namespace RouteMetrics

def record (m : RouteMetrics) (r : RouteOutcome) (tm : Timings) : RouteMetrics :=
  { m with routes := m.routes.alter (r.model, r.backend) {} (·.record r tm) }

def recordShed (m : RouteMetrics) (model : String) : RouteMetrics :=
  { m with sheds := bump m.sheds model }

/-- One call of `record` or `record_shed`. -/
def tell (m : RouteMetrics) : RouteEvent × Timings → RouteMetrics
  | (.shed model, _) => m.recordShed model
  | (.record r, tm) => m.record r tm

/-- The calls `evs`, the `n`-th of them with the timings `tm n`. -/
def replay (tm : Nat → Timings) (evs : List RouteEvent) : RouteMetrics :=
  (evs.mapIdx fun n e => (e, tm n)).foldl tell {}

/-- A total over the rows. -/
def total (m : RouteMetrics) (f : RouteStat → Nat) : Nat := (m.routes.values.map f).sum

def totals (m : RouteMetrics) : Totals where
  requests := m.total (·.requests)
  errors := m.total (·.errors)
  cancelled := m.total (·.cancelled)
  cost := (m.routes.values.map (·.cost)).sum
  sheds := m.sheds.values.sum

def snapshot (m : RouteMetrics) : Snapshot where
  routes := m.routes.insertionSort fun a b =>
    a.1.1.toList < b.1.1.toList ∨ a.1.1 = b.1.1 ∧ a.1.2.toList ≤ b.1.2.toList
  sheds := m.sheds.insertionSort fun a b => a.1.toList ≤ b.1.toList
  totals := m.totals

end RouteMetrics

/-! ## The accounts of a request -/

/-- Where a request that was authorized ends. -/
inductive Account where
  /-- saturation, or no backend available -/
  | shed (model : String)
  | routed (model backend : String) (outcome : Outcome)
  | featureRejected
  | cancelledInQueue
  deriving DecidableEq, Repr

namespace Account

/-- `RouteMetrics` is told of it. -/
def measured : Account → Bool
  | .shed _ | .routed .. => true
  | .featureRejected | .cancelledInQueue => false

def isShed : Account → Bool
  | .shed _ => true
  | _ => false

def isRouted : Account → Bool
  | .routed .. => true
  | _ => false

def hasOutcome (o : Outcome) : Account → Bool
  | .routed _ _ o' => o' == o
  | _ => false

end Account

/-- The account that a call of `RouteMetrics` is for. -/
def RouteEvent.account : RouteEvent → Account
  | .shed model => .shed model
  | .record r => .routed r.model r.backend r.outcome

/-- A row is what the accounts on its route say. -/
structure RouteStat.Tallied (accounts : List Account) (model backend : String) (stat : RouteStat) :
    Prop where
  requests : stat.requests =
    accounts.count (.routed model backend .ok) + stat.errors + stat.cancelled
  errors : stat.errors = accounts.count (.routed model backend .error)
  cancelled : stat.cancelled = accounts.count (.routed model backend .cancelled)
  reasons : stat.reasons.values.sum = stat.requests
  policies : stat.policies.values.sum = stat.requests

namespace RouteMetrics

/-- The row of a route; a route that was never recorded has an empty one. -/
def row (m : RouteMetrics) (model backend : String) : RouteStat :=
  (m.routes.get (model, backend)).getD {}

/-- The sheds, the rows and the totals are what the accounts say. -/
structure Tallied (accounts : List Account) (m : RouteMetrics) : Prop where
  sheds : ∀ model, (m.sheds.get model).getD 0 = accounts.count (.shed model)
  rows : ∀ model backend, (m.row model backend).Tallied accounts model backend
  requests : m.totals.requests = accounts.countP Account.isRouted
  errors : m.totals.errors = accounts.countP (Account.hasOutcome .error)
  cancelled : m.totals.cancelled = accounts.countP (Account.hasOutcome .cancelled)
  totalSheds : m.totals.sheds = accounts.countP Account.isShed

/-- No key stands twice, in the rows too. -/
structure Keyed (m : RouteMetrics) : Prop where
  routes : m.routes.keys.Nodup
  sheds : m.sheds.keys.Nodup
  reasons : ∀ model backend, (m.row model backend).reasons.keys.Nodup
  policies : ∀ model backend, (m.row model backend).policies.keys.Nodup

variable {accounts : List Account} {m : RouteMetrics}

theorem sum_bump {κ : Type} [DecidableEq κ] {d : Dict κ Nat} (hd : d.keys.Nodup) (k : κ) :
    (bump d k).values.sum = d.values.sum + 1 := by
  have h := Dict.sum_values_alter (g := id) hd rfl k (· + 1)
  simp only [List.map_id, id] at h
  rw [bump]
  omega

theorem record_errors (stat : RouteStat) (r : RouteOutcome) (tm : Timings) :
    (stat.record r tm).errors = stat.errors + if r.outcome = .error then 1 else 0 := by
  simp only [RouteStat.record, beq_iff_eq]
  split <;> rfl

theorem record_cancelled (stat : RouteStat) (r : RouteOutcome) (tm : Timings) :
    (stat.record r tm).cancelled = stat.cancelled + if r.outcome = .cancelled then 1 else 0 := by
  simp only [RouteStat.record, beq_iff_eq]
  split <;> rfl

theorem row_record (m : RouteMetrics) (r : RouteOutcome) (tm : Timings) (model backend : String) :
    (m.record r tm).row model backend =
      if model = r.model ∧ backend = r.backend then (m.row model backend).record r tm
      else m.row model backend := by
  rw [row, record, Dict.getD_alter]
  simp only [Prod.mk.injEq, row]

theorem total_record (hm : m.Keyed) {f : RouteStat → Nat} (h₀ : f {} = 0) (r : RouteOutcome)
    (tm : Timings) : (m.record r tm).total f + f (m.row r.model r.backend) =
      m.total f + f ((m.row r.model r.backend).record r tm) :=
  Dict.sum_values_alter hm.routes h₀ (r.model, r.backend) (·.record r tm)

theorem keyed_record (hm : m.Keyed) (r : RouteOutcome) (tm : Timings) : (m.record r tm).Keyed where
  routes := Dict.nodup_keys_set hm.routes _ _
  sheds := hm.sheds
  reasons := by
    intro model backend
    rw [row_record]
    split
    · exact Dict.nodup_keys_set (hm.reasons model backend) _ _
    · exact hm.reasons model backend
  policies := by
    intro model backend
    rw [row_record]
    split
    · exact Dict.nodup_keys_set (hm.policies model backend) _ _
    · exact hm.policies model backend

theorem keyed_recordShed (hm : m.Keyed) (model : String) : (m.recordShed model).Keyed :=
  ⟨hm.routes, Dict.nodup_keys_set hm.sheds _ _, hm.reasons, hm.policies⟩

theorem rowTallied_other {model backend : String} {stat : RouteStat}
    (h : stat.Tallied accounts model backend) {a : Account} (ha : ∀ o,
      a ≠ .routed model backend o) :
    stat.Tallied (accounts ++ [a]) model backend := by
  have hcount (o : Outcome) : (accounts ++ [a]).count (.routed model backend o) =
      accounts.count (.routed model backend o) := by
    rw [List.count_append, List.count_singleton, if_neg (by simpa using ha o), Nat.add_zero]
  exact {
    requests := by rw [hcount]; exact h.requests
    errors := by rw [hcount]; exact h.errors
    cancelled := by rw [hcount]; exact h.cancelled
    reasons := h.reasons
    policies := h.policies }

theorem rowTallied_record {r : RouteOutcome} {stat : RouteStat}
    (h : stat.Tallied accounts r.model r.backend) (hreasons : stat.reasons.keys.Nodup)
      (hpolicies : stat.policies.keys.Nodup) (tm : Timings) :
      (stat.record r tm).Tallied
      (accounts ++ [.routed r.model r.backend r.outcome]) r.model r.backend := by
  have hcount (o : Outcome) : (accounts ++ [Account.routed r.model r.backend r.outcome]).count
      (Account.routed r.model r.backend o) =
        accounts.count (Account.routed r.model r.backend o) + if r.outcome = o then 1 else 0 := by
    rw [List.count_append, List.count_singleton]
    simp
  obtain ⟨hrequests, herrors, hcancelled, hr, hp⟩ := h
  have hboth : (stat.record r tm).reasons.values.sum = stat.requests + 1 ∧
      (stat.record r tm).policies.values.sum = stat.requests + 1 := by
    rw [← hr]
    refine ⟨sum_bump hreasons _, ?_⟩
    rw [hr, ← hp]
    exact sum_bump hpolicies _
  refine ⟨?_, ?_, ?_, hboth.1, hboth.2⟩
  · rw [hcount, record_errors, record_cancelled]
    have hone : (stat.record r tm).requests = stat.requests + 1 := rfl
    cases r.outcome <;> simp <;> omega
  · rw [hcount, record_errors, herrors]
  · rw [hcount, record_cancelled, hcancelled]

theorem tell_tallied (hm : m.Keyed) (h : m.Tallied accounts) (e : RouteEvent) (tm : Timings) :
    (m.tell (e, tm)).Tallied (accounts ++ [e.account]) := by
  cases e with
  | shed model =>
    exact {
      sheds := by
        intro model'
        rw [tell, recordShed, bump, Dict.getD_alter, h.sheds, RouteEvent.account, List.count_append,
          List.count_singleton]
        by_cases hk : model' = model
        · simp [hk]
        · simp [hk, Ne.symm hk]
      rows := fun model' backend => rowTallied_other (h.rows model' backend)
        (by simp [RouteEvent.account])
      requests := by rw [List.countP_append]; exact h.requests
      errors := by rw [List.countP_append]; exact h.errors
      cancelled := by rw [List.countP_append]; exact h.cancelled
      totalSheds := by
        rw [List.countP_append, ← h.totalSheds]
        exact sum_bump hm.sheds model }
  | record r =>
    have htotal {f : RouteStat → Nat} (h₀ : f {} = 0) := total_record hm h₀ r tm
    exact {
      sheds := by
        intro model
        rw [List.count_append]
        exact h.sheds model
      rows := by
        intro model backend
        rw [tell, row_record]
        by_cases hk : model = r.model ∧ backend = r.backend
        · rw [if_pos hk]
          obtain ⟨rfl, rfl⟩ := hk
          exact rowTallied_record (h.rows _ _) (hm.reasons _ _) (hm.policies _ _) tm
        · rw [if_neg hk]
          refine rowTallied_other (h.rows model backend) fun o heq => hk ?_
          cases heq
          exact ⟨rfl, rfl⟩
      requests := by
        rw [List.countP_append, ← h.requests]
        have hreq := htotal (f := (·.requests)) rfl
        simp only [RouteStat.record] at hreq
        simp only [totals, tell, RouteEvent.account, List.countP_singleton,
          Account.isRouted, if_true]
        omega
      errors := by
        rw [List.countP_append, ← h.errors]
        have herr := htotal (f := (·.errors)) rfl
        rw [record_errors] at herr
        simp only [totals, tell, RouteEvent.account, List.countP_singleton,
          Account.hasOutcome, beq_iff_eq]
        omega
      cancelled := by
        rw [List.countP_append, ← h.cancelled]
        have hcan := htotal (f := (·.cancelled)) rfl
        rw [record_cancelled] at hcan
        simp only [totals, tell, RouteEvent.account, List.countP_singleton,
          Account.hasOutcome, beq_iff_eq]
        omega
      totalSheds := by
        rw [List.countP_append]
        exact h.totalSheds }

theorem keyed_tell (hm : m.Keyed) (x : RouteEvent × Timings) : (m.tell x).Keyed := by
  obtain ⟨e, tm⟩ := x
  cases e with
  | shed model => exact keyed_recordShed hm model
  | record r => exact keyed_record hm r tm

theorem foldl_tallied (evs : List (RouteEvent × Timings)) :
    ∀ {m : RouteMetrics} {accounts : List Account}, m.Keyed → m.Tallied accounts →
      (evs.foldl tell m).Tallied (accounts ++ evs.map (·.1.account)) := by
  induction evs with
  | nil =>
    intro m accounts _ h
    simpa using h
  | cons x evs ih =>
    intro m accounts hm h
    have hnext := ih (keyed_tell hm x) (tell_tallied hm h x.1 x.2)
    rw [List.append_assoc] at hnext
    exact hnext

theorem keyed_empty : Keyed {} :=
  ⟨List.nodup_nil, List.nodup_nil, fun _ _ => List.nodup_nil, fun _ _ => List.nodup_nil⟩

theorem tallied_empty : Tallied [] {} where
  sheds := fun _ => rfl
  rows := fun _ _ => ⟨rfl, rfl, rfl, rfl, rfl⟩
  requests := rfl
  errors := rfl
  cancelled := rfl
  totalSheds := rfl

theorem tallied (tm : Nat → Timings) (evs : List RouteEvent) :
    (replay tm evs).Tallied (evs.map RouteEvent.account) := by
  have h := foldl_tallied (evs.mapIdx fun n e => (e, tm n)) keyed_empty tallied_empty
  have hmap : (evs.mapIdx fun n e => (e, tm n)).map (·.1.account) = evs.map RouteEvent.account := by
    refine List.ext_getElem? fun n => ?_
    simp [Function.comp_def]
  rw [List.nil_append, hmap] at h
  exact h

/-- The counts of measured accounts are those of all accounts. -/
theorem Tallied.of_filter (h : m.Tallied (accounts.filter Account.measured)) :
    m.Tallied accounts := by
  have hcount {a : Account} (ha : a.measured = true) :
      (accounts.filter Account.measured).count a = accounts.count a := List.count_filter ha
  have hcountP {p : Account → Bool} (hp : ∀ a, p a = true → a.measured = true) :
      (accounts.filter Account.measured).countP p = accounts.countP p := by
    rw [List.countP_filter]
    refine List.countP_congr fun a _ => ?_
    simpa using hp a
  have hrouted (o : Outcome) (a : Account) : Account.hasOutcome o a = true → a.measured = true := by
    cases a <;> simp [Account.hasOutcome, Account.measured]
  exact {
    sheds := fun model => (h.sheds model).trans (hcount rfl)
    rows := by
      intro model backend
      obtain ⟨hrequests, herrors, hcancelled, hr, hp⟩ := h.rows model backend
      refine ⟨?_, herrors.trans (hcount rfl), hcancelled.trans (hcount rfl), hr, hp⟩
      rw [hrequests, hcount rfl]
    requests := h.requests.trans (hcountP fun a => by cases a <;> simp [Account.isRouted,
      Account.measured])
    errors := h.errors.trans (hcountP (hrouted .error))
    cancelled := h.cancelled.trans (hcountP (hrouted .cancelled))
    totalSheds := h.totalSheds.trans (hcountP fun a => by cases a <;> simp [Account.isShed,
      Account.measured]) }

end RouteMetrics
end InferenceEngine
