import InferenceEngine.Inference.Routing
import InferenceEngine.Serving.Core
import InferenceEngine.Lib.Count

/-!
# Serving.Balance

Who holds what: the four counts a request takes part in (scheduler slots, registry slots in flight,
the active gauge, per-key limiter slots) against the `Served` objects that are not finished.

`Books n` are the books on the first three, with `n` scheduler leases in the hands of the call that
is running, and one with nobody for each call that the router's exception has ended (`stranded`);
`Slots lost` are the books on the limiter, with the slots that nobody holds any more. Every step
keeps `Books` (`step_books`). A step strands a lease or loses a limiter slot unless it satisfies
`KeepsCounts` (`step_slots`): a suspended call is cancelled, the quota pre-check raises, or a prefix
key cannot be encoded.
-/

namespace InferenceEngine

/-- An access that has not been finalized or aborted holds a slot, unless its key is the local
one. -/
structure ApiAccess.Open (a : ApiAccess) : Prop where
  finalized : a.finalized = false
  slotHeld : a.slotHeld = (a.keyId != localKeyId)

/-- Its `finish_generation` raised, before the gauge went down. -/
def Served.failed (v : Served) : Bool := v.costFailed || v.recordFailed

/-- The call ended without giving back the scheduler lease it had. -/
def CallEnd.stranded : CallEnd → Bool
  | .acquireRaised _ => true
  | _ => false

/-- What a `Served` holds until it is finished: a scheduler lease, a slot in flight on an entry of
the registry, and an open access. -/
structure Served.Held (r : BackendRegistry) (v : Served) : Prop where
  lease : v.lease.released = false
  registryLease : v.registryLease.released = false
  entry : v.registryLease.entry < r.entries.length
  access : v.access.Open
  failed : v.failed = false

namespace App

open Lts

/-- The `Served` objects whose `finish_generation` has not been called. -/
def unfinished (s : App) : Nat := s.served.countP fun v => !v.finished

/-- The calls that have ended with a scheduler lease that nobody gives back. -/
def stranded (s : App) : Nat := s.ends.countP CallEnd.stranded

structure Books (n : Nat) (s : App) : Prop where
  sched : s.scheduler.Sound
  inUse : s.scheduler.inUse = s.unfinished + s.stranded + n
  inFlight : ∀ i, s.registry.inFlight i =
    s.served.countP fun v => !v.finished && v.registryLease.entry == i
  active : s.counters.requestsActive = s.unfinished + s.served.countP Served.failed
  held : ∀ v ∈ s.served, v.finished = false → v.Held s.registry
  settled : ∀ v ∈ s.served, v.finished = true → v.costFailed = false → v.access.slotHeld = false
  pending : ∀ p ∈ s.scheduler.suspendedTasks, p.access.Open

/-- The limiter slots of each key are those of the suspended calls, those of the `Served` objects,
and `extra` more: of the call that is running, or lost. -/
def Slots (extra : String → Nat) (s : App) : Prop :=
  ∀ k, s.gateway.limiter.inflight k =
    s.scheduler.suspendedTasks.countP (·.access.holds k) +
      s.served.countP (·.access.holds k) + extra k

variable {digest : List UInt8 → Nat} {s s' : App} {n : Nat} {extra lost : String → Nat}

theorem Slots.unique {lost' : String → Nat} (h : s.Slots lost) (h' : s.Slots lost') :
    lost = lost' := by
  funext k
  have h₁ := h k
  have h₂ := h' k
  omega

theorem books_init (cfg : AppConfig) : (init cfg).Books 0 where
  sched := Scheduler.init_sound _
  inUse := rfl
  inFlight := fun i => BackendRegistry.ofEntries_inFlight cfg.idle i
  active := rfl
  held := by simp [init]
  settled := by simp [init]
  pending := by simp [init, Scheduler.suspendedTasks, Scheduler.init]

theorem slots_init (cfg : AppConfig) : (init cfg).Slots fun _ => 0 := by
  intro k
  simp [init, Gateway.init, Limiter.init, Scheduler.suspendedTasks, Scheduler.init]

/-- The books do not look at the gateway or the route metrics, and at the log for stranded calls
only. -/
theorem Books.congr (h : s.Books n) (hsch : s'.scheduler = s.scheduler)
    (hreg : s'.registry = s.registry)
    (hact : s'.counters.requestsActive = s.counters.requestsActive)
    (hserved : s'.served = s.served) (hstranded : s'.stranded = s.stranded) : s'.Books n where
  sched := by rw [hsch]; exact h.sched
  inUse := by rw [hsch, unfinished, hserved, hstranded]; exact h.inUse
  inFlight := by rw [hreg, hserved]; exact h.inFlight
  active := by rw [hact, unfinished, hserved]; exact h.active
  held := by rw [hreg, hserved]; exact h.held
  settled := by rw [hserved]; exact h.settled
  pending := by rw [hsch]; exact h.pending

theorem Slots.congr (h : s.Slots extra) (hg : s'.gateway.limiter = s.gateway.limiter)
    (hsch : s'.scheduler.suspendedTasks = s.scheduler.suspendedTasks)
    (hserved : s'.served = s.served) : s'.Slots extra := by
  intro k
  rw [hg, hsch, hserved]
  exact h k

theorem releaseLease_books (h : s.Books (n + 1)) (w : ℚ) : (s.releaseLease ⟨w, false⟩).Books n := by
  have hpos : 0 < s.scheduler.inUse := by rw [h.inUse]; omega
  have hin := h.inUse
  exact {
    sched := Scheduler.release_sound h.sched hpos false
    inUse := by
      show s.scheduler.inUse - 1 = s.unfinished + s.stranded + n
      omega
    inFlight := h.inFlight
    active := h.active
    held := h.held
    settled := h.settled
    pending := by
      intro p hp
      refine h.pending p ?_
      simpa [releaseLease, SchedulerLease.release] using hp }

theorem ended_stranded (s : App) (e : CallEnd) :
    (s.ended e).stranded = s.stranded + if e.stranded then 1 else 0 := by
  simp [stranded, ended, List.countP_append, List.countP_singleton]

theorem Books.ended (h : s.Books n) {e : CallEnd} (hsch : s'.scheduler = s.scheduler)
    (hreg : s'.registry = s.registry)
      (hact : s'.counters.requestsActive = s.counters.requestsActive)
      (hserved : s'.served = s.served) (hends : s'.ends = s.ends ++ [e]) (he : e.stranded = false) :
    s'.Books n := by
  refine h.congr hsch hreg hact hserved ?_
  rw [stranded, hends, List.countP_append, List.countP_singleton, he]
  rfl

theorem releaseLease_slots (h : s.Slots extra) (w : ℚ) :
    (s.releaseLease ⟨w, false⟩).Slots extra :=
  h.congr rfl (by simp [releaseLease, SchedulerLease.release]) rfl

theorem abort_slots {a : ApiAccess} (ha : a.Open) (h : s.Slots fun k => lost k + a.slots k) :
    (s.abort a).Slots lost := by
  intro k
  have hk := h k
  simp only at hk
  show (a.abort s.gateway).2.limiter.inflight k = _
  rw [abort_inflight ha.finalized]
  simp only [abort]
  omega

/-- The lease, the slot in flight and the gauge of the running call pass to its `Served`. -/
theorem returned_books (h : s.Books 1) {v : Served} (hserved : s'.served = s.served ++ [v])
    (hstranded : s'.stranded = s.stranded) (hsch : s'.scheduler = s.scheduler)
    (hreg : s'.registry = s.registry.modifyInFlight v.registryLease.entry (· + 1))
    (hact : s'.counters.requestsActive = s.counters.requestsActive + 1)
    (hv : v.finished = false) (hheld : v.Held s.registry) : s'.Books 0 := by
  have hun : s'.unfinished = s.unfinished + 1 := by
    rw [unfinished, hserved, List.countP_append]
    simp [hv, unfinished]
  have hmem : ∀ x ∈ s'.served, x ∈ s.served ∨ x = v := by
    intro x hx
    rw [hserved, List.mem_append, List.mem_singleton] at hx
    exact hx
  have hkeep : ∀ x : Served, x.Held s.registry → x.Held s'.registry := by
    rintro x ⟨h₁, h₂, h₃, h₄, h₅⟩
    exact ⟨h₁, h₂, by rw [hreg, BackendRegistry.modifyInFlight_length]; exact h₃, h₄, h₅⟩
  exact {
    sched := by rw [hsch]; exact h.sched
    inUse := by
      have := h.inUse
      rw [hun, hsch, hstranded]
      omega
    inFlight := by
      intro i
      rw [hserved, hreg, List.countP_append, BackendRegistry.modifyInFlight_inFlight _ hheld.entry,
        h.inFlight i]
      by_cases hi : v.registryLease.entry = i
      · simp [hi, hv]
      · simp [hi]
    active := by
      have := h.active
      rw [hun, hserved, hact, List.countP_append, List.countP_singleton, hheld.failed]
      simp only [Bool.false_eq_true, if_false]
      omega
    held := by
      intro x hx hf
      rcases hmem x hx with hx | rfl
      · exact hkeep x (h.held x hx hf)
      · exact hkeep x hheld
    settled := by
      intro x hx hf
      rcases hmem x hx with hx | rfl
      · exact h.settled x hx hf
      · rw [hv] at hf; cases hf
    pending := by rw [hsch]; exact h.pending }

theorem place_books (h : s.Books 1) {p : Pending} (hp : p.access.Open) (w : ℚ)
    (gen : Nat → Except Exc Nat) : (s.place digest p w gen).Books 0 := by
  have hrel := releaseLease_books h w
  simp only [place]
  split
  · exact hrel.ended rfl rfl rfl rfl rfl rfl
  · rename_i reason _
    cases reason <;> exact hrel.ended rfl rfl rfl rfl rfl rfl
  · -- the lease of the call is one more that is stranded
    exact { h with
      inUse := by
        have := h.inUse
        rw [ended_stranded]
        show s.scheduler.inUse = s.unfinished + (s.stranded + 1) + 0
        omega }
  · rename_i rl registry hacq
    obtain ⟨hheld, rfl, e, he, -, -⟩ := Router.acquire_ok hacq
    have hlt : rl.entry < s.registry.entries.length := (List.getElem?_eq_some_iff.mp he).1
    cases hgen : gen rl.entry with
    | error exc =>
      simp only
      refine hrel.ended rfl ?_ ?_ rfl rfl rfl
      · show (rl.release _).2 = s.registry
        simp only [RegistryLease.release, hheld, Bool.false_eq_true, if_false]
        exact BackendRegistry.modifyInFlight_undo ..
      · show s.counters.requestsActive + 1 - 1 = s.counters.requestsActive
        omega
    | ok stream =>
      simp only
      exact returned_books h rfl (ended_stranded ..) rfl rfl rfl rfl ⟨rfl, hheld, hlt, hp, rfl⟩

/-- The prefix key of a call has the bytes that its placement asks for. -/
def Encodable (s : App) (c : GenerationCall) : Prop :=
  Router.Encodes s.registry (s.prefixKey c) (s.router.scopes c.routeModel c.required)

instance (s : App) (c : GenerationCall) : Decidable (s.Encodable c) :=
  inferInstanceAs (Decidable (Router.Encodes ..))

/-- A call that is placed leaves nothing with nobody, exactly when its prefix key can be encoded. -/
theorem place_slots (digest : List UInt8 → Nat) {p : Pending} (hp : p.access.Open)
    (h : s.Slots fun k => lost k + p.access.slots k) (w : ℚ) (gen : Nat → Except Exc Nat) :
    ∃ lost', (s.place digest p w gen).Slots lost' ∧
      (lost' = lost ∧ (s.place digest p w gen).stranded = s.stranded ↔ s.Encodable p.call) := by
  have hrel := abort_slots hp (releaseLease_slots h w)
  have henc := Router.encodes_iff_acquire digest s.router s.registry p.call.routeModel
    (s.prefixKey p.call) p.call.required
  simp only [place, Encodable, henc]
  split
  · rename_i hacq
    exact ⟨lost, hrel.congr rfl rfl rfl, by simp [hacq, ended_stranded]; rfl⟩
  · rename_i reason hacq
    cases reason <;> exact ⟨lost, hrel.congr rfl rfl rfl, by simp [hacq, ended_stranded]; rfl⟩
  · rename_i hacq
    exact ⟨_, h.congr rfl rfl rfl, by simp [hacq, ended_stranded, CallEnd.stranded]⟩
  · rename_i rl registry hacq
    cases hgen : gen rl.entry with
    | error exc => exact ⟨lost, hrel.congr rfl rfl rfl, by simp [hacq, ended_stranded]; rfl⟩
    | ok stream =>
      refine ⟨lost, fun k => ?_, by simp [hacq, ended_stranded]; rfl⟩
      have hk := h k
      simp only [ApiAccess.slots] at hk
      simp only [ended, List.countP_append, List.countP_singleton]
      omega

theorem afterAdmit_books {a : Admission} (h : s.Books a.leases) {p : Pending} (hp : p.access.Open)
    (gen : Nat → Except Exc Nat) : (s.afterAdmit digest p gen a).Books 0 := by
  cases a with
  | lease w => exact place_books h hp w gen
  | saturated exc => exact h.ended rfl rfl rfl rfl rfl rfl
  | cancelled => exact h.ended rfl rfl rfl rfl rfl rfl
  | suspended => exact h

/-- What a call leaves with nobody once `admit` is over: the slot of one that is cancelled, and all
that one has whose prefix key cannot be encoded. -/
theorem afterAdmit_slots (digest : List UInt8 → Nat) {a : Admission} (ha : a ≠ .suspended)
    {p : Pending} (hp : p.access.Open) (h : s.Slots fun k => lost k + p.access.slots k)
      (gen : Nat → Except Exc Nat) :
    ∃ lost', (s.afterAdmit digest p gen a).Slots lost' ∧
      (lost' = lost ∧ (s.afterAdmit digest p gen a).stranded = s.stranded ↔
        (a = .cancelled → p.access.slotHeld = false) ∧ ∀ w, a = .lease w → s.Encodable p.call) := by
  cases a with
  | lease w =>
    obtain ⟨lost', hslots, hiff⟩ := place_slots digest hp h w gen
    exact ⟨lost', hslots, hiff.trans (by simp)⟩
  | saturated exc =>
    exact ⟨lost, (abort_slots hp h).congr rfl rfl rfl, by simp [afterAdmit, ended_stranded]; rfl⟩
  | suspended => exact absurd rfl ha
  | cancelled =>
    refine ⟨_, h.congr rfl rfl rfl, ?_⟩
    simp only [afterAdmit, ended_stranded, CallEnd.stranded, Bool.false_eq_true, if_false,
      Nat.add_zero, and_true, true_imp_iff, reduceCtorEq, false_imp_iff, implies_true]
    constructor
    · intro heq
      have hkey := congrFun heq p.access.keyId
      by_contra hne
      simp [ApiAccess.slots, ApiAccess.holds, hne] at hkey
    · intro hno
      funext k
      simp [ApiAccess.slots, ApiAccess.holds, hno]

theorem admitted_books (h : s.Books 0) {sched : Scheduler Pending} {a : Admission}
    {g : Gateway} (hsound : sched.Sound) (hin : sched.inUse = s.scheduler.inUse + a.leases)
    (hp : ∀ p ∈ sched.suspendedTasks, p.access.Open) :
    Books a.leases { s with
      gateway := g
      scheduler := sched } where
  sched := hsound
  inUse := by
    have := h.inUse
    show sched.inUse = s.unfinished + s.stranded + a.leases
    omega
  inFlight := h.inFlight
  active := h.active
  held := h.held
  settled := h.settled
  pending := hp

theorem start_books (h : s.Books 0) (c : GenerationCall) (ans : AuthAnswers) (now : ℚ)
    (gen : Nat → Except Exc Nat) : (s.startGenerationCore digest c ans now gen).Books 0 := by
  simp only [startGenerationCore]
  rcases Gateway.authorizeToken_cases s.gateway c.auth ans with
    ⟨a, ha, hf, hs, -, -⟩ | ⟨e, he, -⟩ | ⟨e, he, -⟩
  · rcases hadm : s.scheduler.admitStart ⟨a, c⟩ now with ⟨adm, sched⟩
    simp only [ha, hadm]
    have hopen : a.Open := ⟨hf, hs⟩
    obtain ⟨-, hin, -⟩ := Scheduler.admit_books hadm
    have htasks := Scheduler.admit_suspendedTasks hadm
    refine afterAdmit_books (admitted_books h (Scheduler.admit_sound h.sched hadm) hin ?_) hopen gen
    intro p hp
    rw [htasks] at hp
    split at hp
    · rcases List.mem_append.mp hp with hp | hp
      · exact h.pending p hp
      · rw [List.mem_singleton.mp hp]; exact hopen
    · exact h.pending p hp
  · simp only [he]; exact h.ended rfl rfl rfl rfl rfl rfl
  · simp only [he]; exact h.ended rfl rfl rfl rfl rfl rfl

/-- The call is authorized and its admission does not wait: it goes on to its placement. -/
def placedAtOnce (s : App) (c : GenerationCall) (ans : AuthAnswers) : Bool :=
  (s.gateway.authorizeToken c.auth ans).1.toOption.isSome && s.scheduler.free

theorem start_slots (digest : List UInt8 → Nat) (h : s.Slots lost) (c : GenerationCall)
    (ans : AuthAnswers) (now : ℚ) (gen : Nat → Except Exc Nat) :
    ∃ lost', (s.startGenerationCore digest c ans now gen).Slots lost' ∧
      (lost' = lost ∧ (s.startGenerationCore digest c ans now gen).stranded = s.stranded ↔
        s.gateway.quotaRaises c.auth ans = false ∧
        (s.placedAtOnce c ans = true → s.Encodable c)) := by
  simp only [startGenerationCore, placedAtOnce]
  rcases Gateway.authorizeToken_cases s.gateway c.auth ans with
    ⟨a, ha, hf, hs, hno, hg⟩ | ⟨e, he, hno, hg⟩ | ⟨e, he, hraise, key, -, hg⟩
  · have hfree := Scheduler.admit_lease_iff s.scheduler (⟨a, c⟩ : Pending) now
    rcases hadm : s.scheduler.admitStart ⟨a, c⟩ now with ⟨adm, sched⟩
    rw [hadm] at hfree
    simp only [ha, hadm, Except.toOption, Option.isSome_some, Bool.true_and, hno, true_and, ← hfree]
    have hopen : a.Open := ⟨hf, hs⟩
    have htasks := Scheduler.admit_suspendedTasks hadm
    by_cases hsus : adm = .suspended
    · -- the call is queued, and its slot with it
      rw [if_pos hsus] at htasks
      subst hsus
      refine ⟨lost, fun k => ?_, iff_of_true ⟨rfl, rfl⟩ (by simp)⟩
      have := h k
      simp only [afterAdmit, hg k, htasks, List.countP_append, List.countP_singleton]
      rw [ApiAccess.slots]
      omega
    · rw [if_neg hsus] at htasks
      have hcan : adm ≠ .cancelled := by
        rcases Scheduler.admit_cases hadm with ⟨exc, rfl, -⟩ | ⟨rfl, -⟩ | ⟨rfl, -⟩ <;> simp
      have hslots : Slots (fun k => lost k + a.slots k) { s with
          gateway := (s.gateway.authorizeToken c.auth ans).2
          scheduler := sched } := by
        intro k
        have := h k
        simp only [hg k, htasks]
        omega
      obtain ⟨lost', hslots, hiff⟩ := afterAdmit_slots digest (p := ⟨a, c⟩) (s := { s with
          gateway := (s.gateway.authorizeToken c.auth ans).2
          scheduler := sched }) hsus hopen hslots gen
      refine ⟨lost', hslots, hiff.trans ?_⟩
      simp only [hcan, false_imp_iff, true_and, forall_exists_index]
      rfl
  · simp only [he]
    refine ⟨lost, fun k => (hg k).trans (h k),
      iff_of_true ⟨rfl, ?_⟩ ⟨hno, by simp [Except.toOption]⟩⟩
    rw [ended_stranded]
    rfl
  · -- the slot that was taken for the call is nobody's
    simp only [he]
    refine ⟨fun k => lost k + if key = k then 1 else 0, fun k => ?_, ?_⟩
    · have := h k
      simp only [ended, hg k]
      omega
    · refine iff_of_false (fun heq => ?_) (by simp [hraise])
      have := congrFun heq.1 key
      simp at this

theorem resume_books (h : s.Books 0) {k : Nat} {now : ℚ} {p : Pending} {a : Admission}
    {sched : Scheduler Pending} (hr : s.scheduler.admitResume k now = some (p, a, sched))
    (gen : Nat → Except Exc Nat) :
    ({ s with scheduler := sched }.afterAdmit digest p gen a : App).Books 0 := by
  obtain ⟨-, hin, -⟩ := Scheduler.admitResume_books hr
  obtain ⟨hk, htasks⟩ := Scheduler.admitResume_suspendedTasks hr
  refine afterAdmit_books
    (admitted_books (g := s.gateway) h (Scheduler.admitResume_sound h.sched hr) hin ?_)
    (h.pending p (List.mem_of_getElem? hk)) gen
  intro q hq
  rw [htasks] at hq
  exact h.pending q (List.mem_of_mem_eraseIdx hq)

theorem resume_slots (digest : List UInt8 → Nat) (hb : s.Books 0) (h : s.Slots lost) {k : Nat}
    {now : ℚ} {p : Pending} {a : Admission} {sched : Scheduler Pending}
      (hr : s.scheduler.admitResume k now = some (p, a, sched)) (gen : Nat → Except Exc Nat) :
    ∃ lost', ({ s with scheduler := sched }.afterAdmit digest p gen a : App).Slots lost' ∧
      (lost' = lost ∧ ({ s with scheduler := sched }.afterAdmit digest p gen a : App).stranded =
        s.stranded ↔
        (a = .cancelled → p.access.slotHeld = false) ∧ ∀ w, a = .lease w → s.Encodable p.call) := by
  obtain ⟨hk, htasks⟩ := Scheduler.admitResume_suspendedTasks hr
  have hne : a ≠ .suspended := by
    obtain ⟨w, -, -, ⟨-, -, waited, ha, -⟩ | ⟨-, ⟨exc, ha⟩, -⟩ | ⟨-, ha, -⟩⟩ :=
      Scheduler.admitResume_cases hr <;> rw [ha] <;> simp
  refine afterAdmit_slots digest (s := { s with scheduler := sched }) hne
    (hb.pending p (List.mem_of_getElem? hk)) ?_ gen
  -- the slot of the call passes from the queue to its own hands
  intro key
  have hcount := Count.countP_eraseIdx_add (p := fun q : Pending => q.access.holds key) hk
  have := h key
  simp only [htasks]
  rw [ApiAccess.slots]
  omega

structure Finished (s : App) (v : Served) (f : FinishCall) (v' : Served) (s' : App) : Prop where
  finished : v'.finished = true
  costFailed : v'.costFailed = !f.priced
  failed : v'.failed = !(f.priced && f.recordExc.isNone)
  access : f.priced = true → v'.access.slotHeld = false ∧ v'.access.finalized = true
  kept : f.priced = false → v'.access = v.access
  lease : v'.lease.released = true
  registryLease : v'.registryLease = { v.registryLease with released := true }
  sched : s.scheduler.Sound → 0 < s.scheduler.inUse → s'.scheduler.Sound
  inUse : s'.scheduler.inUse = s.scheduler.inUse - 1
  suspended : s'.scheduler.suspendedTasks = s.scheduler.suspendedTasks
  registry : s'.registry = s.registry.modifyInFlight v.registryLease.entry (· - 1)
  inflight : ∀ k, s'.gateway.limiter.inflight k =
    s.gateway.limiter.inflight k - if f.priced then v.access.slots k else 0
  active : s'.counters.requestsActive =
    if f.priced && f.recordExc.isNone then s.counters.requestsActive - 1
      else s.counters.requestsActive
  served : s'.served = s.served
  ends : s'.ends = s.ends

/-- The exception of a `finish_generation`. -/
def FinishCall.exc (f : FinishCall) : Option Exc :=
  if f.priced then f.recordExc else some (.other "int too large to convert to float")

theorem finishGeneration_finished {v : Served} (hv : v.Held s.registry) (f : FinishCall) :
    Finished s v f (s.finishGeneration v f).2.1 (s.finishGeneration v f).2.2 ∧
      (s.finishGeneration v f).1 = f.exc := by
  have hfin := hv.access.finalized
  have hcost : v.costFailed = false := (Bool.or_eq_false_iff.mp hv.failed).1
  have hexc (u : UsageReport) : (v.access.finalize s.gateway u f.recordExc).1 = f.recordExc := by
    simp [ApiAccess.finalize, hfin]
  have hslot (u : UsageReport) :
      (v.access.finalize s.gateway u f.recordExc).2.1.slotHeld = false := by
    simp [ApiAccess.finalize, hfin]
  have hdone (u : UsageReport) :
      (v.access.finalize s.gateway u f.recordExc).2.1.finalized = true := by
    simp [ApiAccess.finalize, hfin]
  have hlease (sched : Scheduler Pending) : v.lease.release sched f.cancelled =
      ({ v.lease with released := true }, sched.release f.cancelled) := by
    simp [SchedulerLease.release, hv.lease]
  have hrlease : v.registryLease.release s.registry =
      ({ v.registryLease with released := true },
        s.registry.modifyInFlight v.registryLease.entry (· - 1)) := by
    simp [RegistryLease.release, hv.registryLease]
  -- the slow-consumer note is not seen by the books
  have hnoted : (if 0 < f.backpressureWaits then
      s.scheduler.noteSlowConsumer f.backpressureWaits else s.scheduler) =
        s.scheduler.noteSlowConsumer f.backpressureWaits := by
    simp only [Scheduler.noteSlowConsumer]
    split <;> simp_all
  have hsched : s.scheduler.Sound → 0 < s.scheduler.inUse →
      ((s.scheduler.noteSlowConsumer f.backpressureWaits).release f.cancelled).Sound :=
    fun hs hpos => Scheduler.release_sound (Scheduler.noteSlowConsumer_sound hs _) (by simpa) _
  have hin : ((s.scheduler.noteSlowConsumer f.backpressureWaits).release f.cancelled).inUse =
      s.scheduler.inUse - 1 := by
    simp [Scheduler.release]
  have hsus : ((s.scheduler.noteSlowConsumer f.backpressureWaits).release f.cancelled).suspendedTasks =
      s.scheduler.suspendedTasks := by
    simp
  simp only [finishGeneration, FinishCall.exc, hnoted, hlease, hrlease, hexc]
  cases hp : f.priced with
  | false =>
    exact ⟨⟨rfl, by rw [hp]; rfl, by rw [hp]; rfl, by simp [hp], fun _ => rfl, rfl, rfl, hsched, hin, hsus,
      rfl, fun k => by rw [hp]; rfl, by rw [hp]; rfl, rfl, rfl⟩, rfl⟩
  | true =>
    simp only [Bool.not_true, Bool.false_eq_true, if_false, if_true]
    cases hx : f.recordExc with
    | some exc =>
      rw [hx] at hslot hdone
      exact ⟨⟨rfl, by rw [hp]; exact hcost, by rw [hp, hx]; exact Bool.or_true _,
        fun _ => ⟨hslot _, hdone _⟩, by simp [hp], rfl, rfl, hsched, hin, hsus, rfl,
        fun k => by rw [hp]; exact finalize_inflight hfin _ _ k, by rw [hp, hx]; rfl, rfl, rfl⟩, rfl⟩
    | none =>
      rw [hx] at hslot hdone
      exact ⟨⟨rfl, by rw [hp]; exact hcost, by rw [hp, hx]; exact Bool.or_eq_false_iff.mpr ⟨hcost, rfl⟩,
        fun _ => ⟨hslot _, hdone _⟩, by simp [hp], rfl, rfl, hsched, hin, hsus, rfl,
        fun k => by rw [hp]; exact finalize_inflight hfin _ _ k, by rw [hp, hx]; rfl, rfl, rfl⟩, rfl⟩

theorem finish_books (h : s.Books 0) {i : Nat} {v v' : Served} {f : FinishCall}
    (hi : s.served[i]? = some v) (hv : v.finished = false) (hfin : Finished s v f v' s') :
    Books 0 { s' with served := s.served.set i v' } := by
  have hheld := h.held v (List.mem_of_getElem? hi) hv
  have hun := Count.countP_set_add (p := fun v : Served => !v.finished) (b := v') hi
  have hfail := Count.countP_set_add (p := Served.failed) (b := v') hi
  simp only [hv, hfin.finished, Bool.not_false, Bool.not_true, if_true,
    Bool.false_eq_true, if_false]
    at hun
  simp only [hheld.failed, hfin.failed, Bool.false_eq_true, if_false] at hfail
  have hstranded : s'.stranded = s.stranded := by rw [stranded, hfin.ends]; rfl
  have hin := h.inUse
  have hact := h.active
  have hpos : 0 < s.scheduler.inUse := by
    rw [hin]
    have := Count.countP_pos_of_getElem? (p := fun v : Served => !v.finished) hi (by simp [hv])
    simp only [unfinished]
    omega
  simp only [unfinished] at hin hact
  have hkeep : ∀ x : Served, x.Held s.registry → x.Held s'.registry := by
    rintro x ⟨h₁, h₂, h₃, h₄, h₅⟩
    exact ⟨h₁, h₂, by rw [hfin.registry, BackendRegistry.modifyInFlight_length]; exact h₃, h₄, h₅⟩
  exact {
    sched := hfin.sched h.sched hpos
    inUse := by
      show s'.scheduler.inUse = (s.served.set i v').countP (fun v => !v.finished) + s'.stranded + 0
      rw [hfin.inUse, hstranded]
      omega
    inFlight := by
      intro j
      have hset := Count.countP_set_add
        (p := fun v : Served => !v.finished && v.registryLease.entry == j) (b := v') hi
      have hj := h.inFlight j
      simp only [hfin.registry, BackendRegistry.modifyInFlight_inFlight _ hheld.entry]
      simp only [hv, hfin.finished, Bool.not_false, Bool.not_true, Bool.true_and, Bool.false_and,
        Bool.false_eq_true, if_false, beq_iff_eq] at hset
      split
      · rename_i hij
        rw [if_pos hij] at hset
        omega
      · rename_i hij
        rw [if_neg hij] at hset
        omega
    active := by
      show s'.counters.requestsActive =
        (s.served.set i v').countP (fun v => !v.finished) + (s.served.set i v').countP Served.failed
      rw [hfin.active]
      cases hx : f.priced && f.recordExc.isNone with
      | true =>
        simp only [hx, Bool.not_true, Bool.false_eq_true, if_false] at hfail
        simp only [if_true]
        omega
      | false =>
        simp only [hx, Bool.not_false, if_true] at hfail
        simp only [Bool.false_eq_true, if_false]
        omega
    held := by
      intro x hx hf
      rcases List.mem_or_eq_of_mem_set hx with hx | rfl
      · exact hkeep x (h.held x hx hf)
      · rw [hfin.finished] at hf; cases hf
    settled := by
      intro x hx hf hc
      rcases List.mem_or_eq_of_mem_set hx with hx | rfl
      · exact h.settled x hx hf hc
      · rw [hfin.costFailed] at hc
        exact (hfin.access (by simpa using hc)).1
    pending := by
      intro p hp
      exact h.pending p (by simpa only [hfin.suspended] using hp) }

theorem finish_slots (h : s.Slots lost) {i : Nat} {v v' : Served} {f : FinishCall}
    (hi : s.served[i]? = some v) (hfin : Finished s v f v' s') :
    Slots lost { s' with served := s.served.set i v' } := by
  intro k
  have hset := Count.countP_set_add (p := fun v : Served => v.access.holds k) (b := v') hi
  have hk := h k
  simp only [hfin.inflight k, hfin.suspended]
  cases hp : f.priced with
  | true =>
    have hno : v'.access.holds k = false := by simp [ApiAccess.holds, (hfin.access hp).1]
    simp only [hno, Bool.false_eq_true, if_false] at hset
    rw [if_pos rfl, ApiAccess.slots]
    omega
  | false =>
    -- the slot stays with a `Served` that is finished
    rw [hfin.kept hp] at hset
    simp only [Bool.false_eq_true, if_false]
    omega

theorem step_books (h : s.Books 0) {e : Ev} (hst : step digest s e = some s') : s'.Books 0 := by
  cases e with
  | start c ans now gen => cases hst; exact start_books h c ans now gen
  | resume k now gen =>
    simp only [step] at hst
    cases hr : s.scheduler.admitResume k now with
    | none => rw [hr] at hst; cases hst
    | some r =>
      obtain ⟨p, a, sched⟩ := r
      rw [hr] at hst
      cases hst
      exact resume_books h hr gen
  | interrupt k i =>
    simp only [step, Option.map_eq_some_iff] at hst
    obtain ⟨sched, hi, rfl⟩ := hst
    have hin : sched.inUse = s.scheduler.inUse := by rw [Scheduler.interrupt_eq hi]
    refine admitted_books (a := .suspended) (g := s.gateway) h
      (Scheduler.interrupt_sound h.sched hi) hin ?_
    rw [Scheduler.interrupt_suspendedTasks hi]
    exact h.pending
  | finish i f =>
    simp only [step] at hst
    split at hst
    · rename_i v hi
      split at hst
      · cases hst
      · rename_i hv
        cases hst
        have hv : v.finished = false := by simpa using hv
        have hheld := h.held v (List.mem_of_getElem? hi) hv
        exact finish_books h hi hv (finishGeneration_finished hheld f).1
    · cases hst
  | refresh i backend available =>
    cases hst
    refine { h with inFlight := ?_, held := ?_ }
    · intro j
      exact (BackendRegistry.refresh_inFlight ..).trans (h.inFlight j)
    · intro v hv hf
      obtain ⟨h₁, h₂, h₃, h₄, h₅⟩ := h.held v hv hf
      exact ⟨h₁, h₂, by simpa [BackendRegistry.refresh] using h₃, h₄, h₅⟩
  | beginDrain =>
    cases hst
    exact { h with sched := Scheduler.beginDrain_sound h.sched }

/-- The steps that let no count go astray: a suspended call is cancelled only when it holds no
limiter slot, the quota pre-check of a call does not raise, and the prefix key of a call that is
placed can be encoded. -/
def KeepsCounts (s : App) : Ev → Prop
  | .start c ans _ _ => s.gateway.quotaRaises c.auth ans = false ∧
      (s.placedAtOnce c ans = true → s.Encodable c)
  | .resume k _ _ => ∀ w, s.scheduler.sem.waiters[k]? = some w →
      (w.task.interrupt = some .cancel → w.task.task.access.slotHeld = false) ∧
      (w.task.interrupt = none → s.Encodable w.task.task.call)
  | _ => True

instance (s : App) : (e : Ev) → Decidable (KeepsCounts s e)
  | .start c ans _ _ => inferInstanceAs (Decidable (s.gateway.quotaRaises c.auth ans = false ∧
      (s.placedAtOnce c ans = true → s.Encodable c)))
  | .resume k _ _ =>
    match h : s.scheduler.sem.waiters[k]? with
    | none => .isTrue (by simp [KeepsCounts, h])
    | some w =>
      decidable_of_iff ((w.task.interrupt = some .cancel → w.task.task.access.slotHeld = false) ∧
        (w.task.interrupt = none → s.Encodable w.task.task.call)) (by simp [KeepsCounts, h])
  | .interrupt .. | .finish .. | .refresh .. | .beginDrain => .isTrue trivial

theorem step_slots (hb : s.Books 0) (h : s.Slots lost) {e : Ev} (hst : step digest s e = some s') :
    ∃ lost', s'.Slots lost' ∧ (lost' = lost ∧ s'.stranded = s.stranded ↔ KeepsCounts s e) := by
  cases e with
  | start c ans now gen => cases hst; exact start_slots digest h c ans now gen
  | resume k now gen =>
    simp only [step] at hst
    cases hr : s.scheduler.admitResume k now with
    | none => rw [hr] at hst; cases hst
    | some r =>
      obtain ⟨p, a, sched⟩ := r
      rw [hr] at hst
      cases hst
      obtain ⟨lost', hslots, hiff⟩ := resume_slots digest hb h hr gen
      refine ⟨lost', hslots, hiff.trans ?_⟩
      obtain ⟨w, hw, rfl, hcase⟩ := Scheduler.admitResume_cases hr
      simp only [KeepsCounts, hw, Option.some.injEq, forall_eq']
      rcases hcase with ⟨hi, -, waited, rfl, -⟩ | ⟨hi, ⟨exc, rfl⟩, -⟩ | ⟨hi, rfl, -⟩ <;> simp [hi]
  | interrupt k i =>
    simp only [step, Option.map_eq_some_iff] at hst
    obtain ⟨sched, hi, rfl⟩ := hst
    exact ⟨lost, h.congr rfl (Scheduler.interrupt_suspendedTasks hi) rfl,
      iff_of_true ⟨rfl, rfl⟩ trivial⟩
  | finish i f =>
    simp only [step] at hst
    split at hst
    · rename_i v hi
      split at hst
      · cases hst
      · rename_i hv
        cases hst
        have hheld := hb.held v (List.mem_of_getElem? hi) (by simpa using hv)
        have hfin := (finishGeneration_finished hheld f).1
        refine ⟨lost, finish_slots h hi hfin, iff_of_true ⟨rfl, ?_⟩ trivial⟩
        rw [stranded, stranded, hfin.ends]
    · cases hst
  | refresh i backend available =>
    cases hst
    exact ⟨lost, h.congr rfl rfl rfl, iff_of_true ⟨rfl, rfl⟩ trivial⟩
  | beginDrain =>
    cases hst
    exact ⟨lost, h.congr rfl rfl rfl, iff_of_true ⟨rfl, rfl⟩ trivial⟩

theorem step_slots_iff (hb : s.Books 0) (h : s.Slots lost) {e : Ev}
    (hst : step digest s e = some s') :
    s'.Slots lost ∧ s'.stranded = s.stranded ↔ KeepsCounts s e := by
  obtain ⟨lost', hslots, hiff⟩ := step_slots hb h hst
  rw [← hiff]
  exact ⟨fun h' => ⟨hslots.unique h'.1, h'.2⟩, fun heq => ⟨heq.1 ▸ hslots, heq.2⟩⟩

theorem run_books {cfg : AppConfig} {ls : List Ev} (h : Run (step digest) (init cfg) ls s) :
    s.Books 0 ∧ ∃ lost, s.Slots lost := by
  refine h.invariant (P := fun s => s.Books 0 ∧ ∃ lost, s.Slots lost) ?_
    ⟨books_init cfg, _, slots_init cfg⟩
  rintro s e s' ⟨hb, lost, hs⟩ hst
  obtain ⟨lost', hslots, -⟩ := step_slots hb hs hst
  exact ⟨step_books hb hst, lost', hslots⟩

end App
end InferenceEngine
