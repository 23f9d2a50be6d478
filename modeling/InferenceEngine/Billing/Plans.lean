import InferenceEngine.Lib.Run
import InferenceEngine.Billing.Store

/-!
# Billing.Plans

Plans across restarts. Operators define plans by `upsert_plan`; when the engine starts it writes the
default plan of its settings with the same statement (`_serve` in `main.py`), whose omitted
arguments clear the rate limit and the models.

* `plans_kept_iff_guarded`: in a run of upserts and restarts the rows are the operator's, and a
  restart changes none that is there, exactly when no restart finds a default plan that differs from
  its seed.
-/

namespace InferenceEngine

open Lts

namespace Db

theorem getPlan_upsertPlan (db : Db) (p : Plan) (id : String) :
    (db.upsertPlan p).getPlan (some id) = if id = p.id then some p else db.getPlan (some id) := by
  have hq : ∀ r : Plan, decide (r.id = p.id) = true →
      decide (some id = some p.id) = decide (some id = some r.id) := by
    intro r hr
    rw [of_decide_eq_true hr]
  unfold upsertPlan getPlan Table.upsert
  dsimp only
  split
  · rename_i hany
    rw [Table.find?_update hq]
    by_cases hid : id = p.id
    · -- the row that is found is the one that was written
      subst hid
      obtain ⟨r, hr, hrid⟩ := List.any_eq_true.mp hany
      have hsome : (db.plans.find? fun q => decide (some p.id = some q.id)).isSome = true := by
        rw [List.find?_isSome]
        exact ⟨r, hr, by simpa [eq_comm] using hrid⟩
      obtain ⟨q, hfind⟩ := Option.isSome_iff_exists.mp hsome
      have hqid := List.find?_some hfind
      simp only [Option.some.injEq, decide_eq_true_eq] at hqid
      rw [hfind]
      simp [hqid]
    · rw [if_neg hid]
      cases hfind : db.plans.find? fun q => decide (some id = some q.id) with
      | none => rfl
      | some q =>
        have hqid := List.find?_some hfind
        simp only [Option.some.injEq, decide_eq_true_eq] at hqid
        have hne : ¬ q.id = p.id := fun h => hid (hqid.trans h)
        simp [hne]
  · rename_i hany
    rw [List.find?_append]
    by_cases hid : id = p.id
    · subst hid
      have hnone : (db.plans.find? fun q => decide (some p.id = some q.id)) = none := by
        rw [List.find?_eq_none]
        intro q hq
        rw [Bool.not_eq_true, List.any_eq_false] at hany
        simpa [eq_comm] using hany q hq
      rw [hnone]
      simp
    · rw [if_neg hid]
      cases db.plans.find? fun q => decide (some id = some q.id) with
      | none => simp [hid]
      | some q => rfl

end Db

structure SeedSettings where
  defaultPlan : Option String
  quota5hCu : Quota
  quotaWeeklyCu : Quota
  deriving DecidableEq, Repr

/-- The plan that is written at startup; none without a name, or with an empty one. -/
def SeedSettings.seed (settings : SeedSettings) : Option Plan :=
  match settings.defaultPlan with
  | none => none
  | some id =>
    if id.isEmpty then none
    else
      some
        { id := id, name := id, quota5hCu := settings.quota5hCu,
          quotaWeeklyCu := settings.quotaWeeklyCu }

inductive PlanLabel where
  /-- `POST /admin/billing/plans` -/
  | upsert (p : Plan)
  | restart (settings : SeedSettings)
  deriving DecidableEq, Repr

structure PlanState where
  db : Db
  /-- the operator's last upsert of an id -/
  last : String → Option Plan := fun _ => none

namespace PlanState

def step (s : PlanState) : PlanLabel → Option PlanState
  | .upsert p =>
    some { db := s.db.upsertPlan p, last := fun id => if id = p.id then some p else s.last id }
  | .restart settings =>
    match settings.seed with
    | none => some s
    | some p => some { s with db := s.db.upsertPlan p }

/-- The rows that the operator has upserted are as the operator has upserted them last. -/
def Kept (s : PlanState) : Prop := ∀ id p, s.last id = some p → s.db.getPlan (some id) = some p

/-- What a step has to respect: the operator's rows, and, for a restart, every row that is there. -/
def Respects (s : PlanState) (l : PlanLabel) (s' : PlanState) : Prop :=
  s'.Kept ∧ ∀ settings, l = .restart settings →
    ∀ id p, s.db.getPlan (some id) = some p → s'.db.getPlan (some id) = some p

/-- A restart does not find a row of its default plan that differs from the seed. -/
def Seeds (s : PlanState) (l : PlanLabel) : Prop :=
  ∀ settings seed, l = .restart settings → settings.seed = some seed →
    ∀ p, s.db.getPlan (some seed.id) = some p → p = seed

variable {s s' : PlanState} {l : PlanLabel}

theorem kept_upsert (h : s.Kept) (p : Plan) : Kept
    { db := s.db.upsertPlan p, last := fun id => if id = p.id then some p else s.last id } := by
  intro id q hq
  dsimp only at hq ⊢
  rw [Db.getPlan_upsertPlan]
  split at hq
  · rename_i hid
    rw [if_pos hid]
    exact hq
  · rename_i hid
    rw [if_neg hid]
    exact h id q hq

/-- A restart respects the rows exactly when its seed changes none of them. -/
theorem step_respects_iff (h : s.Kept) (hstep : s.step l = some s') :
    s.Respects l s' ↔ s.Seeds l := by
  cases l with
  | upsert p =>
    cases hstep
    constructor
    · intro _ settings seed hl
      cases hl
    · refine fun _ => ⟨kept_upsert h p, fun settings hl => ?_⟩
      cases hl
  | restart settings =>
    simp only [step] at hstep
    cases hseed : settings.seed with
    | none =>
      rw [hseed] at hstep
      cases hstep
      refine ⟨fun _ settings' seed hl hs => ?_, fun _ => ⟨h, fun _ _ id p hp => hp⟩⟩
      cases hl
      rw [hseed] at hs
      cases hs
    | some seed =>
      rw [hseed] at hstep
      cases hstep
      constructor
      · rintro ⟨-, hrows⟩ settings' seed' hl hs p hp
        cases hl
        rw [hseed] at hs
        cases hs
        have hnew := hrows settings rfl seed.id p hp
        rw [Db.getPlan_upsertPlan, if_pos rfl] at hnew
        exact (Option.some.inj hnew).symm
      · intro hseeds
        have hrows : ∀ id p, s.db.getPlan (some id) = some p →
            (s.db.upsertPlan seed).getPlan (some id) = some p := by
          intro id p hp
          rw [Db.getPlan_upsertPlan]
          split
          · rename_i hid
            subst hid
            rw [hseeds settings seed rfl hseed p hp]
          · exact hp
        exact ⟨fun id p hp => hrows id p (h id p hp), fun _ _ => hrows⟩

/-- In a run of upserts and restarts from any store, the rows that the operator has upserted stay as
upserted, and restarts create rows but change none, exactly when no restart finds its default plan
there and different from the seed. -/
theorem plans_kept_iff_guarded {db : Db} {t : PlanState} {ls : List PlanLabel}
    (hrun : Run step { db := db } ls t) :
    Along step Respects { db := db } ls ↔ Guarded step Seeds { db := db } ls := by
  have hstart : Kept { db := db } := fun id p hp => by cases hp
  refine Run.along_iff_guarded (I := Kept) (p := fun _ => True) ?_ ?_ hrun hstart fun _ _ => trivial
  · intro s l s' hs _ hst
    exact step_respects_iff hs hst
  · intro s l s' _ _ _ hR
    exact hR.1

/-- The operator's default plan with a model and a rate limit, and a restart. -/
def refinedThenRestarted : List PlanLabel :=
  [.upsert
      { id := "free", name := "Free", quota5hCu := 10, quotaWeeklyCu := 50, rateLimitPerMin := some 5,
        allowedModels := some ["small"] },
    .restart { defaultPlan := some "free", quota5hCu := 1000000, quotaWeeklyCu := 5000000 }]

/-- The restart has cleared the limits. -/
theorem restart_clears_limits :
    ∃ t, Run step { db := {} } refinedThenRestarted t ∧ ¬ t.Kept ∧
      t.db.plans.map (fun p => (p.rateLimitPerMin, p.allowedModels)) = [(none, none)] := by
  refine ⟨_, .cons rfl (.cons rfl .refl), fun h => ?_, by decide +kernel⟩
  have hfree := h "free" _ rfl
  revert hfree
  decide +kernel

/-- With the seed's own values there is nothing to clear. -/
theorem plans_kept_iff_guarded_same :
    Along step Respects { db := {} }
      [.upsert { id := "free", name := "free", quota5hCu := 10, quotaWeeklyCu := 50 },
        .restart { defaultPlan := some "free", quota5hCu := 10, quotaWeeklyCu := 50 }] := by
  obtain ⟨t, hrun⟩ : ∃ t, Run step { db := {} }
      [.upsert { id := "free", name := "free", quota5hCu := 10, quotaWeeklyCu := 50 },
        .restart { defaultPlan := some "free", quota5hCu := 10, quotaWeeklyCu := 50 }] t :=
    ⟨_, .cons rfl (.cons rfl .refl)⟩
  refine (plans_kept_iff_guarded hrun).mpr ⟨?_, fun s hs => ⟨?_, fun _ _ => trivial⟩⟩
  · intro settings seed hl
    cases hl
  · cases hs
    intro settings seed hl hseed p hp
    cases hl
    cases hseed
    cases hp
    rfl

end PlanState

end InferenceEngine
