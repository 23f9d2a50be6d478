import InferenceEngine.Lib.Count
import Mathlib.Data.List.InsertIdx

/-!
# Lib.Semaphore

A FIFO counting semaphore in the manner of `asyncio.Semaphore`. A task that finds the semaphore
locked appends a future to a deque and suspends; `release` adds a permit and hands it to the
first future that is still pending, which takes the permit out of the count before the task it
belongs to runs again. A task that resumes takes its future out of the deque, gives the permit
back if it was handed one and is being cancelled, and then hands on whatever permits are free.

The deque also carries what the suspended task is (`task`), so the suspended tasks are exactly
the waiters. `permits` counts the free permits together with those handed out and not yet
picked up; every operation is specified by what it does to `permits` and to `tasks`.
-/

namespace Semaphore

universe u

inductive Fut where
  | pending
  | granted
  | cancelled
  deriving DecidableEq, Repr

structure Waiter (δ : Type u) where
  task : δ
  fut : Fut
  deriving Repr

structure Sem (δ : Type u) where
  value : Nat
  waiters : List (Waiter δ)
  deriving Repr

variable {δ : Type u}

namespace Sem

def init (n : Nat) : Sem δ := ⟨n, []⟩

/-- Would `acquire` have to wait: no permit is free, or an uncancelled waiter is queued. -/
def locked (s : Sem δ) : Bool := s.value == 0 || s.waiters.any (·.fut != .cancelled)

/-- Complete the first pending future; `none` when there is none. -/
def grantFirst : List (Waiter δ) → Option (List (Waiter δ))
  | [] => none
  | w :: ws =>
    if w.fut = .pending then some ({ w with fut := .granted } :: ws)
    else (grantFirst ws).map (w :: ·)

/-- `while value > 0: if not wake_up_next(): break`. -/
def wakeAll : Nat → List (Waiter δ) → Sem δ
  | 0, ws => ⟨0, ws⟩
  | v + 1, ws =>
    match grantFirst ws with
    | some ws' => wakeAll v ws'
    | none => ⟨v + 1, ws⟩

/-- Take a free permit without suspending; the caller has seen `locked = false`. -/
def acquireNow (s : Sem δ) : Sem δ := { s with value := s.value - 1 }

def enqueue (s : Sem δ) (d : δ) : Sem δ := { s with waiters := s.waiters ++ [⟨d, .pending⟩] }

/-- Add a permit and wake the next waiter. -/
def release (s : Sem δ) : Sem δ :=
  match grantFirst s.waiters with
  | some ws => { s with waiters := ws }
  | none => { s with value := s.value + 1 }

/-- Cancel the future of waiter `k`, which only works while it is pending, and mark its task. -/
def interrupt (s : Sem δ) (k : Nat) (f : δ → δ) : Sem δ :=
  { s with waiters := s.waiters.modify k fun w =>
      ⟨f w.task, if w.fut = .pending then .cancelled else w.fut⟩ }

/-- Waiter `k` runs again and leaves the deque, giving its permit back if `back`. -/
def leave (s : Sem δ) (k : Nat) (back : Bool) : Sem δ :=
  wakeAll (s.value + back.toNat) (s.waiters.eraseIdx k)

def granted (s : Sem δ) : Nat := s.waiters.countP (·.fut == .granted)

/-- Free permits, with those handed to a waiter that has not run yet. -/
def permits (s : Sem δ) : Nat := s.value + s.granted

/-- The suspended tasks, in the order they queued. -/
def tasks (s : Sem δ) : List δ := s.waiters.map (·.task)

/-- No wake-up is lost: if a permit is free while a waiter is pending, some other waiter has been
granted one and will wake the next when it leaves. -/
def NoLost (s : Sem δ) : Prop :=
  (∃ w ∈ s.waiters, w.fut = .pending) → 0 < s.value → 0 < s.granted

end Sem

open Sem

theorem grantFirst_some : ∀ {ws ws' : List (Waiter δ)}, grantFirst ws = some ws' →
    ws'.map (·.task) = ws.map (·.task) ∧
      ws'.countP (·.fut == .granted) = ws.countP (·.fut == .granted) + 1 := by
  intro ws
  induction ws with
  | nil => intro ws' h; simp [grantFirst] at h
  | cons w ws ih =>
    intro ws' h
    simp only [grantFirst] at h
    split at h
    · rename_i hp
      cases h
      simp [hp]
    · cases hg : grantFirst ws with
      | none => rw [hg] at h; simp at h
      | some vs =>
        rw [hg] at h
        simp only [Option.map_some, Option.some.injEq] at h
        subst h
        obtain ⟨ht, hc⟩ := ih hg
        simp only [List.map_cons, ht, List.countP_cons, hc, true_and]
        omega

theorem grantFirst_none_iff : ∀ {ws : List (Waiter δ)},
    grantFirst ws = none ↔ ∀ w ∈ ws, w.fut ≠ .pending := by
  intro ws
  induction ws with
  | nil => simp [grantFirst]
  | cons w ws ih =>
    simp only [grantFirst, List.mem_cons, forall_eq_or_imp]
    by_cases hp : w.fut = .pending
    · simp [hp]
    · simp [hp, ih]

theorem wakeAll_tasks : ∀ (v : Nat) (ws : List (Waiter δ)),
    (wakeAll v ws).tasks = ws.map (·.task) := by
  intro v
  induction v with
  | zero => intro ws; rfl
  | succ v ih =>
    intro ws
    simp only [wakeAll]
    split
    · rename_i ws' h
      rw [ih, (grantFirst_some h).1]
    · rfl

theorem wakeAll_permits : ∀ (v : Nat) (ws : List (Waiter δ)),
    (wakeAll v ws).permits = v + ws.countP (·.fut == .granted) := by
  intro v
  induction v with
  | zero => intro ws; rfl
  | succ v ih =>
    intro ws
    simp only [wakeAll]
    split
    · rename_i ws' h
      rw [ih, (grantFirst_some h).2]
      omega
    · rfl

theorem wakeAll_no_pending : ∀ (v : Nat) (ws : List (Waiter δ)), 0 < (wakeAll v ws).value →
    ∀ w ∈ (wakeAll v ws).waiters, w.fut ≠ .pending := by
  intro v
  induction v with
  | zero => intro ws h; exact absurd h (Nat.lt_irrefl 0)
  | succ v ih =>
    intro ws
    simp only [wakeAll]
    split
    · exact ih _
    · rename_i h
      intro _
      exact grantFirst_none_iff.mp h

theorem ungranted_of_grantFirst : ∀ {ws ws' : List (Waiter δ)}, grantFirst ws = some ws' →
    ∀ w ∈ ws', w.fut ≠ .granted → w ∈ ws := by
  intro ws
  induction ws with
  | nil => intro ws' h; simp [grantFirst] at h
  | cons v vs ih =>
    intro ws' h w hw hp
    simp only [grantFirst] at h
    split at h
    · cases h
      rcases List.mem_cons.mp hw with rfl | hw
      · exact absurd rfl hp
      · exact List.mem_cons_of_mem _ hw
    · cases hg : grantFirst vs with
      | none => rw [hg] at h; cases h
      | some us =>
        rw [hg] at h
        simp only [Option.map_some, Option.some.injEq] at h
        subst h
        rcases List.mem_cons.mp hw with rfl | hw
        · exact List.mem_cons_self
        · exact List.mem_cons_of_mem _ (ih hg w hw hp)

theorem ungranted_of_wakeAll : ∀ (v : Nat) (ws : List (Waiter δ)),
    ∀ w ∈ (wakeAll v ws).waiters, w.fut ≠ .granted → w ∈ ws := by
  intro v
  induction v with
  | zero => intro ws w hw _; exact hw
  | succ v ih =>
    intro ws w hw hp
    simp only [wakeAll] at hw
    split at hw
    · rename_i ws' hg
      exact ungranted_of_grantFirst hg w (ih ws' w hw hp) hp
    · exact hw

theorem granted_of_grantFirst : ∀ {ws ws' : List (Waiter δ)}, grantFirst ws = some ws' →
    (∀ w ∈ ws, w.fut ≠ .pending → w ∈ ws') ∧
      ∃ w ∈ ws, w.fut = .pending ∧ (⟨w.task, .granted⟩ : Waiter δ) ∈ ws' := by
  intro ws
  induction ws with
  | nil => intro ws' h; simp [grantFirst] at h
  | cons v vs ih =>
    intro ws' h
    simp only [grantFirst] at h
    split at h
    · rename_i hp
      cases h
      refine ⟨fun w hw hn => ?_, v, List.mem_cons_self, hp, List.mem_cons_self⟩
      rcases List.mem_cons.mp hw with rfl | hw
      · exact absurd hp hn
      · exact List.mem_cons_of_mem _ hw
    · cases hg : grantFirst vs with
      | none => rw [hg] at h; cases h
      | some us =>
        rw [hg] at h
        simp only [Option.map_some, Option.some.injEq] at h
        subst h
        obtain ⟨hkeep, w, hw, hp, hm⟩ := ih hg
        refine ⟨fun u hu hn => ?_, w, List.mem_cons_of_mem _ hw, hp, List.mem_cons_of_mem _ hm⟩
        rcases List.mem_cons.mp hu with rfl | hu
        · exact List.mem_cons_self
        · exact List.mem_cons_of_mem _ (hkeep u hu hn)

theorem granted_mem_wakeAll : ∀ (v : Nat) (ws : List (Waiter δ)),
    ∀ w ∈ ws, w.fut = .granted → w ∈ (wakeAll v ws).waiters := by
  intro v
  induction v with
  | zero => intro ws w hw _; exact hw
  | succ v ih =>
    intro ws w hw hg
    simp only [wakeAll]
    split
    · rename_i ws' h
      exact ih ws' w ((granted_of_grantFirst h).1 w hw (by simp [hg])) hg
    · exact hw

section Specs

variable (s : Sem δ)

@[simp] theorem init_permits (n : Nat) : (init n : Sem δ).permits = n := rfl

@[simp] theorem init_tasks (n : Nat) : (init n : Sem δ).tasks = [] := rfl

theorem init_noLost (n : Nat) : (init n : Sem δ).NoLost := by
  rintro ⟨w, hw, _⟩
  simp [init] at hw

theorem locked_eq_false_iff :
    s.locked = false ↔ 0 < s.value ∧ ∀ w ∈ s.waiters, w.fut = .cancelled := by
  simp [Sem.locked, Nat.pos_iff_ne_zero]

theorem acquireNow_permits (h : s.locked = false) : s.acquireNow.permits + 1 = s.permits := by
  have := (locked_eq_false_iff s).mp h
  simp only [Sem.acquireNow, Sem.permits, Sem.granted]
  omega

@[simp] theorem acquireNow_tasks : s.acquireNow.tasks = s.tasks := rfl

theorem acquireNow_noLost (h : s.locked = false) : s.acquireNow.NoLost := by
  rintro ⟨w, hw, hp⟩
  have hc := ((locked_eq_false_iff s).mp h).2 w hw
  rw [hp] at hc
  cases hc

@[simp] theorem enqueue_permits (d : δ) : (s.enqueue d).permits = s.permits := by
  simp [Sem.enqueue, Sem.permits, Sem.granted, List.countP_append]

@[simp] theorem enqueue_tasks (d : δ) : (s.enqueue d).tasks = s.tasks ++ [d] := by
  simp [Sem.enqueue, Sem.tasks]

theorem granted_pos_iff : 0 < s.granted ↔ ∃ w ∈ s.waiters, w.fut = .granted := by
  simp [Sem.granted, List.countP_pos_iff]

/-- A task queues only when the semaphore is locked: either no permit is free, or an earlier
waiter is still there to wake it. -/
theorem enqueue_noLost (d : δ) (hl : s.locked = true) (h : s.NoLost) : (s.enqueue d).NoLost := by
  rintro - hv
  have hg : (s.enqueue d).granted = s.granted := by
    simp [Sem.enqueue, Sem.granted, List.countP_append]
  rw [hg]
  have hv' : 0 < s.value := hv
  have hne : ¬ ∀ w ∈ s.waiters, w.fut = .cancelled := by
    intro hall
    rw [(locked_eq_false_iff s).mpr ⟨hv', hall⟩] at hl
    cases hl
  push Not at hne
  obtain ⟨w, hw, hf⟩ := hne
  cases hfut : w.fut with
  | pending => exact h ⟨w, hw, hfut⟩ hv'
  | granted => exact (granted_pos_iff s).mpr ⟨w, hw, hfut⟩
  | cancelled => exact absurd hfut hf

@[simp] theorem release_permits : s.release.permits = s.permits + 1 := by
  simp only [Sem.release]
  split
  · rename_i ws h
    simp only [Sem.permits, Sem.granted, (grantFirst_some h).2]
    omega
  · simp only [Sem.permits, Sem.granted]
    omega

@[simp] theorem release_tasks : s.release.tasks = s.tasks := by
  simp only [Sem.release]
  split
  · rename_i ws h
    exact (grantFirst_some h).1
  · rfl

theorem release_noLost : s.release.NoLost := by
  simp only [Sem.release]
  split
  · rename_i ws h
    intro _ _
    simp only [Sem.granted, (grantFirst_some h).2]
    omega
  · rename_i h
    rintro ⟨w, hw, hp⟩
    exact absurd hp (grantFirst_none_iff.mp h w hw)

theorem ungranted_of_release {w : Waiter δ} (hw : w ∈ s.release.waiters)
    (hp : w.fut ≠ .granted) : w ∈ s.waiters := by
  simp only [Sem.release] at hw
  split at hw
  · rename_i hg
    exact ungranted_of_grantFirst hg w hw hp
  · exact hw

@[simp] theorem interrupt_value (k : Nat) (f : δ → δ) : (s.interrupt k f).value = s.value := rfl

theorem countP_granted_modify (f : δ → δ) : ∀ (ws : List (Waiter δ)) (k : Nat),
    (ws.modify k fun w => ⟨f w.task, if w.fut = .pending then .cancelled else w.fut⟩).countP
      (·.fut == .granted) = ws.countP (·.fut == .granted) := by
  intro ws
  induction ws with
  | nil => intro k; simp
  | cons w ws ih =>
    intro k
    cases k with
    | zero => cases hf : w.fut <;> simp [hf]
    | succ k => simp [List.countP_cons, ih k]

@[simp] theorem interrupt_granted (k : Nat) (f : δ → δ) :
    (s.interrupt k f).granted = s.granted := countP_granted_modify f s.waiters k

@[simp] theorem interrupt_permits (k : Nat) (f : δ → δ) :
    (s.interrupt k f).permits = s.permits := by
  simp only [Sem.permits, interrupt_granted, interrupt_value]

theorem interrupt_tasks (k : Nat) (f : δ → δ) :
    (s.interrupt k f).tasks = s.tasks.modify k f := by
  simp only [Sem.interrupt, Sem.tasks]
  apply List.ext_getElem?
  intro i
  simp only [List.getElem?_map, List.getElem?_modify]
  split <;> cases s.waiters[i]? <;> simp

theorem mem_interrupt {k : Nat} {f : δ → δ} {w : Waiter δ} (h : w ∈ (s.interrupt k f).waiters) :
    w ∈ s.waiters ∨ w.fut ≠ .pending ∧ ∃ w₀ ∈ s.waiters, w.task = f w₀.task := by
  obtain ⟨i, hi⟩ := List.getElem?_of_mem h
  simp only [Sem.interrupt, List.getElem?_modify] at hi
  cases hw : s.waiters[i]? with
  | none => rw [hw] at hi; simp at hi
  | some w₀ =>
    rw [hw] at hi
    have hm := List.mem_of_getElem? hw
    split at hi
    · cases hi
      refine .inr ⟨?_, w₀, hm, rfl⟩
      by_cases hp : w₀.fut = .pending <;> simp [hp]
    · cases hi
      exact .inl hm

theorem interrupt_noLost (k : Nat) (f : δ → δ) (h : s.NoLost) : (s.interrupt k f).NoLost := by
  rintro ⟨w, hw, hp⟩ hv
  rw [interrupt_granted]
  rcases mem_interrupt s hw with hw | ⟨hn, _⟩
  · exact h ⟨w, hw, hp⟩ hv
  · exact absurd hp hn

/-- The permits after waiter `k` leaves: what it was handed goes with it unless it gives it
back. -/
theorem leave_permits {k : Nat} {w : Waiter δ} (h : s.waiters[k]? = some w) (back : Bool) :
    (s.leave k back).permits + (if w.fut = .granted then 1 else 0) = s.permits + back.toNat := by
  have hc := Count.countP_eraseIdx_add (p := fun w : Waiter δ => w.fut == .granted) h
  simp only [beq_iff_eq] at hc
  have hw := wakeAll_permits (s.value + back.toNat) (s.waiters.eraseIdx k)
  have hl : (s.leave k back).permits =
      s.value + back.toNat + (s.waiters.eraseIdx k).countP (·.fut == .granted) := hw
  rw [hl]
  simp only [Sem.permits, Sem.granted]
  omega

theorem leave_tasks (k : Nat) (back : Bool) : (s.leave k back).tasks = s.tasks.eraseIdx k := by
  change (wakeAll (s.value + back.toNat) (s.waiters.eraseIdx k)).tasks = _
  rw [wakeAll_tasks, Sem.tasks, List.eraseIdx_map]

theorem leave_length {k : Nat} {w : Waiter δ} (h : s.waiters[k]? = some w) (back : Bool) :
    (s.leave k back).tasks.length + 1 = s.tasks.length := by
  have hk : k < s.waiters.length := (List.getElem?_eq_some_iff.mp h).1
  have hk' : k < s.tasks.length := by simpa [Sem.tasks] using hk
  rw [leave_tasks, List.length_eraseIdx_of_lt hk']
  omega

theorem ungranted_of_leave {k : Nat} {back : Bool} {w : Waiter δ}
    (hw : w ∈ (s.leave k back).waiters) (hp : w.fut ≠ .granted) : w ∈ s.waiters :=
  List.mem_of_mem_eraseIdx (ungranted_of_wakeAll _ _ w hw hp)

theorem leave_hands_on {k : Nat} {v : Waiter δ} (hk : s.waiters[k]? = some v)
    (hv : v.fut = .granted) (hp : ∃ w ∈ s.waiters, w.fut = .pending) :
    ∃ w ∈ s.waiters, w.fut = .pending ∧
      (⟨w.task, .granted⟩ : Waiter δ) ∈ (s.leave k true).waiters := by
  obtain ⟨w, hw, hwp⟩ := hp
  have hw' : w ∈ s.waiters.eraseIdx k := by
    obtain ⟨j, hj⟩ := List.getElem?_of_mem hw
    refine List.mem_eraseIdx_iff_getElem?.mpr ⟨j, ?_, hj⟩
    rintro rfl
    rw [hk] at hj
    cases hj
    rw [hv] at hwp
    cases hwp
  cases hg : grantFirst (s.waiters.eraseIdx k) with
  | none => exact absurd hwp (grantFirst_none_iff.mp hg w hw')
  | some ws' =>
    obtain ⟨-, u, hu, hup, hm⟩ := granted_of_grantFirst hg
    refine ⟨u, List.mem_of_mem_eraseIdx hu, hup, ?_⟩
    have hl : s.leave k true = wakeAll s.value ws' := by
      simp [Sem.leave, wakeAll, hg]
    rw [hl]
    exact granted_mem_wakeAll _ _ _ hm rfl

theorem leave_noLost (k : Nat) (back : Bool) : (s.leave k back).NoLost := by
  rintro ⟨w, hw, hp⟩ hv
  exact absurd hp (wakeAll_no_pending _ _ hv w hw)

end Specs

end Semaphore
