import InferenceEngine.Lib.Semaphore

/-!
# Lib.SemaphoreFifo

The order in which the semaphore serves. Its tasks have keys that grow as they queue.

* `Fifo`: the deque is in the order of the keys, and nobody behind a pending waiter has been granted
  a permit. Every operation keeps it.
* `ahead`: how many wait before a key. No operation makes it more, and a permit that is given back
  makes it one less, for whoever still waits afterwards (`ahead_release`).
-/

namespace Semaphore

universe u

variable {δ : Type u} {key : δ → Nat} {ws ws' : List (Waiter δ)} {s : Sem δ}
  {a : Nat} {w : Waiter δ}

def Fifo (key : δ → Nat) (ws : List (Waiter δ)) : Prop :=
  ws.Pairwise fun w v => key w.task < key v.task ∧ (w.fut = .pending → v.fut ≠ .granted)

/-- The waiters before the key `a`. -/
def ahead (key : δ → Nat) (a : Nat) (ws : List (Waiter δ)) : Nat :=
  ws.countP fun w => w.fut == .pending && decide (key w.task < a)

theorem ahead_cons (w : Waiter δ) (ws : List (Waiter δ)) :
    ahead key a (w :: ws) = ahead key a ws + if w.fut = .pending ∧
      key w.task < a then 1 else 0 := by
  simp [ahead, List.countP_cons]

open Sem

theorem grantFirst_split : ∀ {ws ws' : List (Waiter δ)}, grantFirst ws = some ws' →
    ∃ l v r, ws = l ++ v :: r ∧ ws' = l ++ ⟨v.task, .granted⟩ :: r ∧ v.fut = .pending ∧
      ∀ w ∈ l, w.fut ≠ .pending := by
  intro ws
  induction ws with
  | nil => intro ws' h; simp [grantFirst] at h
  | cons v vs ih =>
    intro ws' h
    simp only [grantFirst] at h
    split at h
    · rename_i hp
      cases h
      exact ⟨[], v, vs, rfl, rfl, hp, List.forall_mem_nil _⟩
    · rename_i hp
      obtain ⟨us, hg, rfl⟩ := Option.map_eq_some_iff.mp h
      obtain ⟨l, u, r, rfl, rfl, hu, hl⟩ := ih hg
      exact ⟨v :: l, u, r, rfl, rfl, hu, List.forall_mem_cons.mpr ⟨hp, hl⟩⟩

namespace Fifo

theorem grantFirst (h : Fifo key ws) (hg : grantFirst ws = some ws') : Fifo key ws' := by
  obtain ⟨l, v, r, rfl, rfl, hv, hl⟩ := grantFirst_split hg
  obtain ⟨hleft, hright, hacross⟩ := List.pairwise_append.mp h
  obtain ⟨hfirst, hrest⟩ := List.pairwise_cons.mp hright
  refine List.pairwise_append.mpr ⟨hleft, List.pairwise_cons.mpr ⟨fun u hu => ?_, hrest⟩,
    fun w hw u hu => ?_⟩
  · exact ⟨(hfirst u hu).1, fun hp => by cases hp⟩
  · rcases List.mem_cons.mp hu with rfl | hu
    · exact ⟨(hacross w hw v (List.mem_cons_self ..)).1, fun hp => absurd hp (hl w hw)⟩
    · exact hacross w hw u (List.mem_cons_of_mem _ hu)

theorem wakeAll (h : Fifo key ws) : ∀ v, Fifo key (wakeAll v ws).waiters := by
  intro v
  induction v generalizing ws with
  | zero => exact h
  | succ v ih =>
    simp only [Sem.wakeAll]
    split
    · rename_i ws' hg
      exact ih (h.grantFirst hg)
    · exact h

theorem release (h : Fifo key s.waiters) : Fifo key s.release.waiters := by
  unfold Sem.release
  split
  · rename_i ws hg
    exact h.grantFirst hg
  · exact h

theorem leave (h : Fifo key s.waiters) (k : Nat) (back : Bool) :
    Fifo key (s.leave k back).waiters :=
  wakeAll (h.sublist (List.eraseIdx_sublist ..)) _

theorem enqueue (h : Fifo key s.waiters) {d : δ} (hlast : ∀ w ∈ s.waiters, key w.task < key d) :
    Fifo key (s.enqueue d).waiters := by
  refine List.pairwise_append.mpr ⟨h, List.pairwise_singleton .., fun w hw v hv => ?_⟩
  rw [List.mem_singleton.mp hv]
  exact ⟨hlast w hw, fun _ => by simp⟩

/-- A waiter that keeps its key and does not come to wait, nor is granted, is no worse. -/
theorem modify {g : Waiter δ → Waiter δ} (hkey : ∀ w, key (g w).task = key w.task)
    (hpending : ∀ w, (g w).fut = .pending → w.fut = .pending)
    (hgranted : ∀ w, (g w).fut = .granted → w.fut = .granted) (h : Fifo key ws) (k : Nat) :
    Fifo key (ws.modify k g) := by
  induction ws generalizing k with
  | nil => simpa using h
  | cons w ws ih =>
    obtain ⟨hfirst, hrest⟩ := List.pairwise_cons.mp h
    cases k with
    | zero =>
      refine List.pairwise_cons.mpr ⟨fun v hv => ⟨?_, fun hp => ?_⟩, hrest⟩
      · rw [hkey]
        exact (hfirst v hv).1
      · exact (hfirst v hv).2 (hpending w hp)
    | succ k =>
      rw [List.modify_succ_cons]
      refine List.pairwise_cons.mpr ⟨fun v hv => ?_, ih hrest k⟩
      obtain ⟨i, hi⟩ := List.getElem?_of_mem hv
      rw [List.getElem?_modify] at hi
      obtain ⟨v₀, hv₀, rfl⟩ := Option.map_eq_some_iff.mp hi
      obtain ⟨hlt, hnot⟩ := hfirst v₀ (List.mem_of_getElem? hv₀)
      split
      · exact ⟨by rwa [hkey], fun hp hg => hnot hp (hgranted v₀ hg)⟩
      · exact ⟨hlt, hnot⟩

theorem interrupt (h : Fifo key s.waiters) (k : Nat) {f : δ → δ} (hf : ∀ d, key (f d) = key d) :
    Fifo key (s.interrupt k f).waiters := by
  refine modify (fun w => hf w.task) (fun w hp => ?_) (fun w hg => ?_) h k
  · by_cases hw : w.fut = .pending
    · exact hw
    · simp [hw] at hp
  · by_cases hw : w.fut = .pending
    · simp [hw] at hg
    · simpa [hw] using hg

/-- Whoever still waits came after all that have been granted. -/
theorem granted_lt (h : Fifo key ws) {w v : Waiter δ} (hw : w ∈ ws) (hp : w.fut = .pending)
    (hv : v ∈ ws) (hg : v.fut = .granted) : key v.task < key w.task := by
  obtain ⟨i, hi, rfl⟩ := List.getElem_of_mem hw
  obtain ⟨j, hj, rfl⟩ := List.getElem_of_mem hv
  have hpair := List.pairwise_iff_getElem.mp h
  rcases Nat.lt_trichotomy i j with hij | rfl | hij
  · exact absurd hg ((hpair i j hi hj hij).2 hp)
  · cases hp.symm.trans hg
  · exact (hpair j i hj hi hij).1

end Fifo

/-! ## How many wait before a key -/

theorem ahead_grantFirst_le (h : grantFirst ws = some ws') : ahead key a ws' ≤ ahead key a ws := by
  obtain ⟨l, v, r, rfl, rfl, -, -⟩ := grantFirst_split h
  simp only [ahead, List.countP_append, List.countP_cons]
  simp

theorem ahead_wakeAll_le (v : Nat) : ahead key a (wakeAll v ws).waiters ≤ ahead key a ws := by
  induction v generalizing ws with
  | zero => exact Nat.le_refl _
  | succ v ih =>
    simp only [wakeAll]
    split
    · rename_i ws' hg
      exact Nat.le_trans ih (ahead_grantFirst_le hg)
    · exact Nat.le_refl _

theorem ahead_leave_le (k : Nat) (back : Bool) :
    ahead key a (s.leave k back).waiters ≤ ahead key a s.waiters :=
  Nat.le_trans (ahead_wakeAll_le _) ((List.eraseIdx_sublist ..).countP_le)

theorem ahead_interrupt_le (k : Nat) {f : δ → δ} (hf : ∀ d, key (f d) = key d) :
    ahead key a (s.interrupt k f).waiters ≤ ahead key a s.waiters := by
  unfold Sem.interrupt
  simp only
  induction s.waiters generalizing k with
  | nil => simp
  | cons w ws ih =>
    cases k with
    | zero =>
      rw [List.modify_zero_cons, ahead_cons, ahead_cons]
      by_cases hp : w.fut = .pending <;> simp [hp, hf]
    | succ k =>
      rw [List.modify_succ_cons, ahead_cons, ahead_cons]
      exact Nat.add_le_add_right (ih k) _

theorem ahead_enqueue {d : δ} (hlast : a ≤ key d) :
    ahead key a (s.enqueue d).waiters = ahead key a s.waiters := by
  simp [ahead, Sem.enqueue, List.countP_append, Nat.not_lt.mpr hlast]

theorem ahead_release (h : Fifo key s.waiters) (hw : w ∈ s.release.waiters)
    (hp : w.fut = .pending) :
    ahead key (key w.task) s.release.waiters + 1 = ahead key (key w.task) s.waiters := by
  unfold Sem.release at hw ⊢
  split at hw
  · rename_i ws hg
    obtain ⟨l, v, r, hws, rfl, hv, hl⟩ := grantFirst_split hg
    have hlt : key v.task < key w.task := by
      have hfifo := h.grantFirst hg
      have hserved : (⟨v.task, .granted⟩ : Waiter δ) ∈ l ++ ⟨v.task, .granted⟩ :: r :=
        List.mem_append_right _ (List.mem_cons_self ..)
      exact hfifo.granted_lt (v := ⟨v.task, .granted⟩) hw hp hserved rfl
    simp only [hws, ahead, List.countP_append, List.countP_cons]
    simp [hv, hlt]
    omega
  · rename_i hg
    exact absurd hp (grantFirst_none_iff.mp hg w hw)

end Semaphore
