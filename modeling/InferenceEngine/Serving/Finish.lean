import InferenceEngine.Serving.Calls

/-!
# Serving.Finish

`finish_generation` for every `Served` of every run. The scheduler lease and the registry slot go
back first (`ReleasesLeases`). The cost comes after them and raises for a count that has no float,
before the `finalize` that gives the limiter slot back, in a `finally`; and the gauge comes after
the record, so it goes down only when the record does not raise either.

* `finish_releases_iff`: what one `finish_generation` gives back, and when the gauge counts the
  unfinished `Served` objects throughout a run.
* `lockedStore_leaks`: the store raises, and the gauge stays one too high.
-/

namespace InferenceEngine
namespace App

open Lts

/-- From `s` to `s'` the scheduler lease and the registry slot of `v`, which are marked as given
back in `v'`, went back once, and no others. -/
structure ReleasesLeases (s : App) (v : Served) (s' : App) (v' : Served) : Prop where
  lease : v.lease.released = false ∧ v'.lease.released = true
  inUse : s.scheduler.inUse = s'.scheduler.inUse + 1
  registryLease : v.registryLease.released = false ∧ v'.registryLease.released = true
  inFlight : ∀ i, s.registry.inFlight i =
    s'.registry.inFlight i + if v.registryLease.entry = i then 1 else 0

/-- So did its limiter slot. -/
structure ReleasesSlot (s : App) (v : Served) (s' : App) (v' : Served) : Prop where
  access : v'.access.slotHeld = false ∧ v'.access.finalized = true
  limiter : ∀ k, s.gateway.limiter.inflight k = s'.gateway.limiter.inflight k +
    if v.access.keyId ≠ localKeyId ∧ v.access.keyId = k then 1 else 0

/-- The gauge counts the `Served` objects whose `finish_generation` has not been called. -/
def GaugeExact (s : App) : Prop := s.counters.requestsActive = s.unfinished

/-- The cost of the generation can be computed, and its usage record does not raise. -/
def FinishCall.recorded (f : FinishCall) : Bool := f.priced && f.recordExc.isNone

/-- Every `finish_generation` gets to its end. -/
def RecordsUsage (_ : App) : Ev → Prop
  | .finish _ f => f.recorded = true
  | _ => True

variable {digest : List UInt8 → Nat} {s s' t : App}

theorem finish_releasesLeases (hb : s.Books 0) {i : Nat} {v v' : Served} {f : FinishCall}
    (hi : s.served[i]? = some v) (hv : v.finished = false) (hfin : Finished s v f v' s') :
    ReleasesLeases s v s' v' := by
  have hheld := hb.held v (List.mem_of_getElem? hi) hv
  -- each count is positive: `v` is among what it counts
  have hun := Count.countP_pos_of_getElem? (p := fun v : Served => !v.finished) hi (by simp [hv])
  have hon := Count.countP_pos_of_getElem?
    (p := fun x : Served => !x.finished && x.registryLease.entry == v.registryLease.entry) hi
    (by simp [hv])
  exact {
    lease := ⟨hheld.lease, hfin.lease⟩
    inUse := by
      have := hb.inUse
      rw [hfin.inUse]
      simp only [unfinished] at this
      omega
    registryLease := ⟨hheld.registryLease, by rw [hfin.registryLease]⟩
    inFlight := by
      intro j
      have hj := hb.inFlight j
      rw [hfin.registry, BackendRegistry.modifyInFlight_inFlight _ hheld.entry]
      split
      · rename_i heq
        rw [heq] at hon
        omega
      · rfl }

/-- The limiter slot goes back exactly when the cost can be computed. -/
theorem finish_releasesSlot_iff (hb : s.Books 0) {lost : String → Nat} (hs : s.Slots lost) {i : Nat}
    {v v' : Served} {f : FinishCall} (hi : s.served[i]? = some v) (hv : v.finished = false)
    (hfin : Finished s v f v' s') : ReleasesSlot s v s' v' ↔ f.priced = true := by
  have hheld := hb.held v (List.mem_of_getElem? hi) hv
  have hslots (k : String) : v.access.slots k =
      if v.access.keyId ≠ localKeyId ∧ v.access.keyId = k then 1 else 0 := by
    simp [ApiAccess.slots, ApiAccess.holds, hheld.access.slotHeld]
  constructor
  · intro h
    by_contra hno
    have hdone := h.access.2
    rw [hfin.kept (by simpa using hno), hheld.access.finalized] at hdone
    cases hdone
  · intro hp
    refine ⟨hfin.access hp, fun k => ?_⟩
    have hk := hs k
    have hle : v.access.slots k ≤ s.served.countP (·.access.holds k) := by
      rw [ApiAccess.slots]
      split
      · rename_i hh
        exact Count.countP_pos_of_getElem? (p := fun v : Served => v.access.holds k) hi hh
      · exact Nat.zero_le _
    rw [hfin.inflight k, if_pos hp, ← hslots]
    omega

theorem gaugeExact_iff (hb : s.Books 0) : s.GaugeExact ↔ s.served.countP Served.failed = 0 := by
  rw [GaugeExact, hb.active]
  omega

theorem afterAdmit_failed (p : Pending) (gen : Nat → Except Exc Nat) (a : Admission) :
    (s.afterAdmit digest p gen a).served.countP Served.failed = s.served.countP Served.failed := by
  cases a with
  | suspended => rfl
  | saturated exc => rfl
  | cancelled => rfl
  | lease w =>
    simp only [afterAdmit, place]
    split
    · rfl
    · rfl
    · rfl
    · rename_i rl registry _
      cases hgen : gen rl.entry with
      | error exc => rfl
      | ok stream => simp [ended, Served.failed]

theorem step_gauge_iff (hb : s.Books 0) (h : s.GaugeExact) {e : Ev}
    (hst : step digest s e = some s') : s'.GaugeExact ↔ RecordsUsage s e := by
  rw [gaugeExact_iff (step_books hb hst)]
  rw [gaugeExact_iff hb] at h
  cases e with
  | start c ans now gen =>
    cases hst
    refine iff_of_true ?_ trivial
    simp only [startGenerationCore]
    split
    · exact h
    · exact (afterAdmit_failed ..).trans h
  | resume k now gen =>
    refine iff_of_true ?_ trivial
    simp only [step] at hst
    split at hst <;> cases hst
    exact (afterAdmit_failed ..).trans h
  | interrupt k i =>
    simp only [step, Option.map_eq_some_iff] at hst
    obtain ⟨sched, -, rfl⟩ := hst
    exact iff_of_true h trivial
  | finish i f =>
    simp only [step] at hst
    split at hst
    · rename_i v hi
      split at hst
      · cases hst
      · rename_i hv
        cases hst
        have hheld := hb.held v (List.mem_of_getElem? hi) (by simpa using hv)
        have hfin := (finishGeneration_finished hheld f).1
        have hset := Count.countP_set_add (p := Served.failed)
            (b := (s.finishGeneration v f).2.1) hi
        simp only [h, hheld.failed, hfin.failed, Bool.false_eq_true, if_false] at hset
        simp only [RecordsUsage, FinishCall.recorded]
        cases hx : f.priced && f.recordExc.isNone with
        | true => simpa [hx] using hset
        | false =>
          simp only [hx, Bool.not_false, if_true] at hset
          refine iff_of_false ?_ (by simp)
          intro hzero
          omega
    · cases hst
  | refresh i backend available => cases hst; exact iff_of_true h trivial
  | beginDrain => cases hst; exact iff_of_true h trivial

/-- **`finish_generation` gives back what its `Served` holds, as far as it gets.** For every
`Served` of every run and every result, error and answer of the usage store: the scheduler lease and
the registry slot have gone back once; the limiter slot has if and only if the counts of the result
have floats; and the gauge has gone down by one if and only if moreover the usage store did not
raise. And over every run the gauge equals the number of `Served` objects whose `finish_generation`
has not been called, in every state, if and only if each call got so far. -/
theorem finish_releases_iff {cfg : AppConfig} {ls : List Ev}
    (h : Run (step digest) (init cfg) ls t) :
    (∀ (i : Nat) v f, t.served[i]? = some v → v.finished = false →
      (t.finishGeneration v f).1 = f.exc ∧
      ReleasesLeases t v (t.finishGeneration v f).2.2 (t.finishGeneration v f).2.1 ∧
      (ReleasesSlot t v (t.finishGeneration v f).2.2 (t.finishGeneration v f).2.1 ↔
      f.priced = true) ∧
      (t.counters.requestsActive = (t.finishGeneration v f).2.2.counters.requestsActive + 1 ↔
        f.recorded = true)) ∧
    (Always (step digest) GaugeExact (init cfg) ls ↔
      Guarded (step digest) RecordsUsage (init cfg) ls) := by
  obtain ⟨hb, lost, hs⟩ := run_books h
  constructor
  · intro i v f hi hv
    obtain ⟨hfin, hexc⟩ := finishGeneration_finished (hb.held v (List.mem_of_getElem? hi) hv) f
    refine ⟨hexc, finish_releasesLeases hb hi hv hfin, finish_releasesSlot_iff hb hs hi hv hfin, ?_⟩
    have hun := Count.countP_pos_of_getElem? (p := fun v : Served => !v.finished) hi (by simp [hv])
    have hact := hb.active
    simp only [unfinished] at hact
    rw [hfin.active, FinishCall.recorded]
    cases f.priced && f.recordExc.isNone with
    | true => simp; omega
    | false => simp
  · exact h.always_iff_guarded_of_invariant (I := Books 0) (fun _ _ _ hb hst => step_books hb hst)
      (fun _ _ _ hb hg hst => step_gauge_iff hb hg hst) (books_init cfg) rfl

instance (s : App) : (e : Ev) → Decidable (RecordsUsage s e)
  | .finish _ f => inferInstanceAs (Decidable (f.recorded = true))
  | .start .. | .resume .. | .interrupt .. | .refresh .. | .beginDrain => .isTrue trivial

def servedOnceHandle : Served := servedOnce.served.head (by decide +kernel)

theorem finish_releases_iff_servedOnce :
    Run (step List.length) (init oneSlot) [request "a" fun _ => .ok 0] servedOnce ∧
      servedOnceHandle.finished = false ∧ servedOnce.counters.requestsActive = 1 ∧
      (servedOnce.finishGeneration servedOnceHandle
        ⟨none, 0, none, none, 0⟩).2.2.counters.requestsActive = 0 ∧
      Always (step List.length) GaugeExact (init oneSlot) [request "a" fun _ => .ok 0] := by
  have hrun : Run (step List.length) (init oneSlot) [request "a" fun _ => .ok 0] servedOnce :=
    run_of_exec (by simp [servedOnce])
  obtain ⟨hfinish, hgauge⟩ := finish_releases_iff hrun
  have hv : servedOnceHandle.finished = false := by decide +kernel
  have hact : servedOnce.counters.requestsActive = 1 := by decide +kernel
  obtain ⟨-, -, -, hdown⟩ := hfinish 0 servedOnceHandle ⟨none, 0, none, none, 0⟩
    (by decide +kernel) hv
  have hone := hdown.mpr rfl
  refine ⟨hrun, hv, hact, by omega, hgauge.mpr (by decide +kernel)⟩

/-- The usage store is locked when the only request finishes. -/
def lockedStore : List Ev :=
  [request "a" fun _ => .ok 0, .finish 0 ⟨none, 0, none, some (.other "database is locked"), 0⟩]

def lockedStoreEnd : App :=
  (exec (step List.length) (init oneSlot) lockedStore).get (by decide +kernel)

theorem lockedStore_leaks :
    ∃ s, Run (step List.length) (init oneSlot) lockedStore s ∧
      s.unfinished = 0 ∧ s.counters.requestsActive = 1 :=
  ⟨lockedStoreEnd, run_of_exec (by simp [lockedStoreEnd]), by decide +kernel, by decide +kernel⟩

end App
end InferenceEngine
