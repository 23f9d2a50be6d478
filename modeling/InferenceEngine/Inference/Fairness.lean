import InferenceEngine.Inference.Admission
import InferenceEngine.Lib.Run
import InferenceEngine.Lib.SemaphoreFifo

/-!
# Inference.Fairness

In which order the scheduler serves. The calls of `admit` are numbered as they come, and a suspended
call carries its number; `admitted` keeps the numbers of those that were issued a lease. Calls come,
run again, time out and are cancelled, and leases are released, in any order.

* `no_overtaking`: nobody who still waits has been overtaken.
* `served_within`: how many slots are given back while somebody waits.
-/

namespace InferenceEngine
namespace Fairness

open Semaphore Lts

structure Sys where
  sched : Scheduler Nat
  next : Nat
  admitted : List Nat
  leases : List SchedulerLease
  /-- the slots that leases have given back -/
  returned : Nat

inductive Ev where
  | start (now : ℚ)
  | resume (k : Nat) (now : ℚ)
  | interrupt (k : Nat) (i : Interrupt)
  | release (i : Nat) (wasCancelled : Bool)
  | beginDrain
  deriving DecidableEq

def Sys.init (cfg : SchedulerConfig) : Sys := ⟨Scheduler.init cfg, 0, [], [], 0⟩

/-- The `admit` of `task` has suspended or ended with `a`, leaving `sc`. -/
def Sys.note (s : Sys) (task : Nat) (a : Admission) (sc : Scheduler Nat) : Sys :=
  match a with
  | .lease waited =>
    { s with sched := sc, admitted := task :: s.admitted, leases := s.leases ++ [⟨waited, false⟩] }
  | _ => { s with sched := sc }

def step (s : Sys) : Ev → Option Sys
  | .start now =>
    let r := s.sched.admitStart s.next now
    some { s.note s.next r.1 r.2 with next := s.next + 1 }
  | .resume k now => (s.sched.admitResume k now).map fun r => s.note r.1 r.2.1 r.2.2
  | .interrupt k i => (s.sched.interrupt k i).map fun sc => { s with sched := sc }
  | .release i c =>
    s.leases[i]?.map fun l =>
      let r := l.release s.sched c
      { s with
        sched := r.2
        leases := s.leases.set i r.1
        returned := if l.released then s.returned else s.returned + 1 }
  | .beginDrain => some { s with sched := s.sched.beginDrain }

def number (c : Suspended Nat) : Nat := c.task

def Sys.waiters (s : Sys) : List (Waiter (Suspended Nat)) := s.sched.sem.waiters

/-- Waiting for a slot: suspended, and neither granted one nor cancelled. -/
def Sys.Waits (s : Sys) (a : Nat) : Prop := ∃ w ∈ s.waiters, w.fut = .pending ∧ number w.task = a

/-- Has been given a slot: issued a lease, or about to be. -/
def Sys.Served (s : Sys) (a : Nat) : Prop :=
  a ∈ s.admitted ∨ ∃ w ∈ s.waiters, w.fut = .granted ∧ number w.task = a

def Sys.ahead (s : Sys) (a : Nat) : Nat := Semaphore.ahead number a s.waiters

structure Inv (cfg : SchedulerConfig) (s : Sys) : Prop where
  fifo : Fifo number s.waiters
  lt_next : ∀ w ∈ s.waiters, number w.task < s.next
  admitted : ∀ a ∈ s.admitted, a < s.next ∧ ∀ w ∈ s.waiters, w.fut = .pending → a < number w.task
  cfg_eq : s.sched.cfg = cfg
  length_eq : s.sched.waiters = s.waiters.length
  length_le : s.waiters.length ≤ cfg.maxQueueDepth

variable {cfg : SchedulerConfig} {s s' t : Sys} {e : Ev} {a b : Nat}

theorem init_inv (cfg : SchedulerConfig) : Inv cfg (Sys.init cfg) where
  fifo := .nil
  lt_next := List.forall_mem_nil _
  admitted := List.forall_mem_nil _
  cfg_eq := rfl
  length_eq := rfl
  length_le := Nat.zero_le _

inductive Moves (s : Sys) : Sys → Prop where
  /-- refused, or nothing to do with the queue -/
  | same {s' : Sys} (hwaiters : s'.waiters = s.waiters) (hadmitted : s'.admitted = s.admitted)
      (hnext : s.next ≤ s'.next) (hreturned : s'.returned = s.returned)
        (hcfg : s'.sched.cfg = s.sched.cfg)
      (hlength : s'.sched.waiters = s.sched.waiters) : Moves s s'
  | queued {s' : Sys} (now : ℚ) (hroom : s.sched.waiters < s.sched.cfg.maxQueueDepth)
      (hwaiters : s'.waiters = (s.sched.sem.enqueue ⟨s.next, now, none⟩).waiters)
        (hadmitted : s'.admitted = s.admitted)
      (hnext : s'.next = s.next + 1) (hreturned : s'.returned = s.returned)
        (hcfg : s'.sched.cfg = s.sched.cfg)
      (hlength : s'.sched.waiters = s.sched.waiters + 1) : Moves s s'
  | admitted {s' : Sys} (hfree : s.sched.sem.locked = false) (hwaiters : s'.waiters = s.waiters)
      (hadmitted : s'.admitted = s.next :: s.admitted) (hnext : s'.next = s.next + 1)
      (hreturned : s'.returned = s.returned) (hcfg : s'.sched.cfg = s.sched.cfg)
      (hlength : s'.sched.waiters = s.sched.waiters) : Moves s s'
  | left {s' : Sys} (k : Nat) (back : Bool) (w : Waiter (Suspended Nat))
      (hw : s.waiters[k]? = some w)
      (hwaiters : s'.waiters = (s.sched.sem.leave k back).waiters)
      (hadmitted : s'.admitted = s.admitted ∨ w.fut = .granted ∧
        s'.admitted = number w.task :: s.admitted)
      (hnext : s'.next = s.next) (hreturned : s'.returned = s.returned)
        (hcfg : s'.sched.cfg = s.sched.cfg)
      (hlength : s'.sched.waiters = s.sched.waiters - 1) : Moves s s'
  | interrupted {s' : Sys} (k : Nat) (f : Suspended Nat → Suspended Nat)
      (hf : ∀ c, number (f c) = number c)
      (hwaiters : s'.waiters = (s.sched.sem.interrupt k f).waiters)
        (hadmitted : s'.admitted = s.admitted)
      (hnext : s'.next = s.next) (hreturned : s'.returned = s.returned)
        (hcfg : s'.sched.cfg = s.sched.cfg)
      (hlength : s'.sched.waiters = s.sched.waiters) : Moves s s'
  | released {s' : Sys} (hwaiters : s'.waiters = s.sched.sem.release.waiters)
      (hadmitted : s'.admitted = s.admitted)
      (hnext : s'.next = s.next) (hreturned : s'.returned = s.returned + 1)
        (hcfg : s'.sched.cfg = s.sched.cfg)
      (hlength : s'.sched.waiters = s.sched.waiters) : Moves s s'

theorem step_moves (hst : step s e = some s') : Moves s s' := by
  cases e with
  | start now =>
    cases hr : s.sched.admitStart s.next now with
    | mk adm sc =>
      simp only [step, hr, Option.some.injEq] at hst
      subst hst
      rcases Scheduler.admit_cases hr with ⟨exc, rfl, rfl⟩ | ⟨rfl, -, -, hroom,
          rfl⟩ | ⟨rfl, -, hfree, rfl⟩
      · exact .same rfl rfl (Nat.le_succ _) rfl rfl rfl
      · exact .queued now hroom rfl rfl rfl rfl rfl rfl
      · exact .admitted hfree rfl rfl rfl rfl rfl rfl
  | resume k now =>
    obtain ⟨⟨d, a, sc⟩, hr, rfl⟩ := Option.map_eq_some_iff.mp hst
    obtain ⟨w, hw, rfl, ⟨-, hg, waited, rfl, rfl⟩ | ⟨-, ⟨exc, rfl⟩, rfl⟩ | ⟨-, rfl, rfl⟩⟩ :=
      Scheduler.admitResume_cases hr
    · exact .left k false w hw rfl (.inr ⟨hg, rfl⟩) rfl rfl rfl rfl
    · exact .left k (w.fut = .granted) w hw rfl (.inl rfl) rfl rfl rfl rfl
    · exact .left k (w.fut = .granted) w hw rfl (.inl rfl) rfl rfl rfl rfl
  | interrupt k i =>
    obtain ⟨sc, hr, rfl⟩ := Option.map_eq_some_iff.mp hst
    have hsc := Scheduler.interrupt_eq hr
    subst hsc
    exact .interrupted k (fun c => { c with
      interrupt := some (Interrupt.join c.interrupt i) }) (fun _ => rfl)
      rfl rfl rfl rfl rfl rfl
  | release i c =>
    obtain ⟨⟨waited, released⟩, -, rfl⟩ := Option.map_eq_some_iff.mp hst
    cases released with
    | true => exact .same rfl rfl (Nat.le_refl _) rfl rfl rfl
    | false => exact .released rfl rfl rfl rfl rfl rfl
  | beginDrain =>
    cases hst
    exact .same rfl rfl (Nat.le_refl _) rfl rfl rfl

namespace Moves

/-- Whoever waits after a move waited before, or has just come. -/
theorem pending (h : Moves s s') {w : Waiter (Suspended Nat)} (hw : w ∈ s'.waiters)
    (hp : w.fut = .pending) :
    w ∈ s.waiters ∨ number w.task = s.next := by
  cases h with
  | same hwaiters | admitted _ hwaiters => exact .inl (hwaiters ▸ hw)
  | queued now _ hwaiters =>
    rw [hwaiters] at hw
    rcases List.mem_append.mp hw with hw | hw
    · exact .inl hw
    · rw [List.mem_singleton.mp hw]
      exact .inr rfl
  | left k back _ _ hwaiters =>
    rw [hwaiters] at hw
    exact .inl (ungranted_of_leave _ hw (by simp [hp]))
  | interrupted k f _ hwaiters =>
    rw [hwaiters] at hw
    rcases mem_interrupt _ hw with hw | ⟨hn, -⟩
    · exact .inl hw
    · exact absurd hp hn
  | released hwaiters =>
    rw [hwaiters] at hw
    exact .inl (ungranted_of_release _ hw (by simp [hp]))

theorem next_le (h : Moves s s') : s.next ≤ s'.next := by
  cases h <;> omega

theorem cfg_eq (h : Moves s s') : s'.sched.cfg = s.sched.cfg := by
  cases h <;> assumption

theorem lt_next (h : Moves s s') (hlt : ∀ w ∈ s.waiters, number w.task < s.next) :
    ∀ w ∈ s'.waiters, number w.task < s'.next := by
  have htasks {ws : List (Waiter (Suspended Nat))} {w : Waiter (Suspended Nat)} (hw : w ∈ ws)
      (hsub : ∀ d ∈ ws.map (·.task), d ∈ s.waiters.map (·.task)) : number w.task < s.next := by
    obtain ⟨u, hu, heq⟩ := List.mem_map.mp (hsub _ (List.mem_map_of_mem hw))
    exact heq ▸ hlt u hu
  intro w hw
  cases h with
  | same hwaiters _ hnext => exact Nat.lt_of_lt_of_le (hlt w (hwaiters ▸ hw)) hnext
  | admitted _ hwaiters _ hnext => exact hnext ▸ Nat.lt_succ_of_lt (hlt w (hwaiters ▸ hw))
  | queued now _ hwaiters _ hnext =>
    rw [hwaiters] at hw
    rw [hnext]
    rcases List.mem_append.mp hw with hw | hw
    · exact Nat.lt_succ_of_lt (hlt w hw)
    · rw [List.mem_singleton.mp hw]
      exact Nat.lt_succ_self _
  | left k back _ _ hwaiters _ hnext =>
    rw [hwaiters] at hw
    refine hnext ▸ htasks hw fun d hd => ?_
    change d ∈ (s.sched.sem.leave k back).tasks at hd
    rw [leave_tasks] at hd
    exact List.mem_of_mem_eraseIdx hd
  | interrupted k f hf hwaiters _ hnext =>
    rw [hwaiters] at hw
    rw [hnext]
    rcases mem_interrupt _ hw with hw | ⟨-, w₀, hw₀, heq⟩
    · exact hlt w hw
    · rw [heq, hf]
      exact hlt w₀ hw₀
  | released hwaiters _ hnext =>
    rw [hwaiters] at hw
    refine hnext ▸ htasks hw fun d hd => ?_
    change d ∈ s.sched.sem.release.tasks at hd
    rwa [release_tasks] at hd

theorem fifo (h : Moves s s') (hlt : ∀ w ∈ s.waiters, number w.task < s.next)
    (hs : Fifo number s.waiters) :
    Fifo number s'.waiters := by
  cases h with
  | same hwaiters | admitted _ hwaiters => exact hwaiters ▸ hs
  | queued now _ hwaiters => exact hwaiters ▸ hs.enqueue hlt
  | left k back _ _ hwaiters => exact hwaiters ▸ hs.leave k back
  | interrupted k f hf hwaiters => exact hwaiters ▸ hs.interrupt k hf
  | released hwaiters => exact hwaiters ▸ hs.release

theorem length (h : Moves s s') (hs : s.sched.waiters = s.waiters.length) :
    s'.sched.waiters = s'.waiters.length ∧
      (s'.waiters.length ≤ s.waiters.length ∨ s'.waiters.length ≤ s.sched.cfg.maxQueueDepth) := by
  cases h with
  | same hwaiters _ _ _ _ hlength | admitted _ hwaiters _ _ _ _ hlength =>
    rw [hlength, hs, hwaiters]
    exact ⟨rfl, .inl (Nat.le_refl _)⟩
  | queued now hroom hwaiters _ _ _ _ hlength =>
    have hnew : s'.waiters.length = s.waiters.length + 1 := by
      rw [hwaiters]
      simp [Sem.enqueue, Sys.waiters]
    omega
  | left k back w hw hwaiters _ _ _ _ hlength =>
    have hnew := leave_length s.sched.sem hw back
    simp only [Sem.tasks, List.length_map, ← hwaiters] at hnew
    change _ = s.waiters.length at hnew
    omega
  | interrupted k f _ hwaiters _ _ _ _ hlength =>
    have hnew : s'.waiters.length = s.waiters.length := by
      rw [hwaiters]
      simp [Sem.interrupt, Sys.waiters]
    omega
  | released hwaiters _ _ _ _ hlength =>
    have hnew := congrArg List.length (release_tasks s.sched.sem)
    simp only [Sem.tasks, List.length_map, ← hwaiters] at hnew
    change _ = s.waiters.length at hnew
    omega

/-- Who is admitted has come before all that still wait. -/
theorem admitted_lt (h : Moves s s') (hs : Inv cfg s) (ha : a ∈ s'.admitted) :
    a < s'.next ∧ ∀ w ∈ s'.waiters, w.fut = .pending → a < number w.task := by
  have hnext := h.next_le
  have hold (ha : a ∈ s.admitted) : a < s'.next ∧ ∀ w ∈ s'.waiters, w.fut = .pending →
      a < number w.task := by
    obtain ⟨hlast, hbefore⟩ := hs.admitted a ha
    refine ⟨by omega, fun w hw hp => ?_⟩
    rcases h.pending hw hp with hw | hw
    · exact hbefore w hw hp
    · omega
  cases h with
  | same _ hadmitted | queued _ _ _ hadmitted | interrupted _ _ _ _ hadmitted | released _ hadmitted =>
    exact hold (hadmitted ▸ ha)
  | admitted hfree hwaiters hadmitted hnext' =>
    rcases List.mem_cons.mp (hadmitted ▸ ha) with rfl | ha
    · -- a slot is free and nobody waits for it: the newcomer overtakes nobody
      refine ⟨by omega, fun w hw hp => ?_⟩
      rw [hwaiters] at hw
      have hc := ((locked_eq_false_iff _).mp hfree).2 w hw
      cases hp.symm.trans hc
    · exact hold ha
  | left k back w hw hwaiters hadmitted hnext' =>
    rcases hadmitted with hadmitted | ⟨hg, hadmitted⟩
    · exact hold (hadmitted ▸ ha)
    · rcases List.mem_cons.mp (hadmitted ▸ ha) with rfl | ha
      · have hmem := List.mem_of_getElem? hw
        refine ⟨Nat.lt_of_lt_of_le (hs.lt_next w hmem) hnext, fun v hv hp => ?_⟩
        rw [hwaiters] at hv
        exact hs.fifo.granted_lt (ungranted_of_leave _ hv (by simp [hp])) hp hmem hg
      · exact hold ha

end Moves

theorem step_inv (hs : Inv cfg s) (hst : step s e = some s') : Inv cfg s' := by
  have h := step_moves hst
  obtain ⟨hlen, hle⟩ := h.length hs.length_eq
  refine ⟨h.fifo hs.lt_next hs.fifo, h.lt_next hs.lt_next, fun a ha => h.admitted_lt hs ha,
    h.cfg_eq.trans hs.cfg_eq, hlen, ?_⟩
  have := hs.length_le
  rw [hs.cfg_eq] at hle
  omega

theorem run_inv {ls : List Ev} (hs : Inv cfg s) (h : Run step s ls t) : Inv cfg t :=
  h.invariant (fun _ _ _ hs hst => step_inv hs hst) hs

/-- Whoever has been given a slot came before everybody who still waits. -/
theorem no_overtaking {ls : List Ev} (h : Run step (Sys.init cfg) ls s) (ha : s.Waits a)
    (hb : s.Served b) :
    b < a := by
  have hs := run_inv (init_inv cfg) h
  obtain ⟨w, hw, hp, rfl⟩ := ha
  rcases hb with hb | ⟨v, hv, hg, rfl⟩
  · exact (hs.admitted b hb).2 w hw hp
  · exact hs.fifo.granted_lt hw hp hv hg

/-- The deque, as the futures and the numbers of the calls. -/
def Sys.queue (s : Sys) : List (Fut × Nat) := s.waiters.map fun w => (w.fut, number w.task)

theorem waits_iff : s.Waits a ↔ (.pending, a) ∈ s.queue := by
  simp [Sys.Waits, Sys.queue]

theorem served_of_granted (h : (.granted, a) ∈ s.queue) : s.Served a := by
  obtain ⟨w, hw, heq⟩ := List.mem_map.mp h
  obtain ⟨hf, hn⟩ := Prod.mk.inj heq
  exact .inr ⟨w, hw, hf, hn⟩

/-- One call holds the slot, two wait. -/
def threeCalls : List Ev := [.start 0, .start 0, .start 0]

theorem no_overtaking_three :
    ∃ s, Run step (Sys.init .default) (threeCalls ++ [.release 0 false]) s ∧ s.Waits 2 ∧
      s.Served 1 ∧ 1 < 2 := by
  obtain ⟨s, hrun, hs⟩ : ∃ s, Run step (Sys.init .default) (threeCalls ++ [.release 0 false]) s ∧
      s.queue = [(.granted, 1), (.pending, 2)] := run_of_exec_map rfl
  have hw : s.Waits 2 := waits_iff.mpr (by simp [hs])
  have hg : s.Served 1 := served_of_granted (by simp [hs])
  exact ⟨s, hrun, hw, hg, no_overtaking hrun hw hg⟩

/-! ## How long it takes -/

/-- Who waits after a step has come before, and waited, unless it has come with the step. -/
theorem Waits.back (hst : step s e = some s') (ha : s'.Waits a) (hlt : a < s.next) : s.Waits a := by
  obtain ⟨w, hw, hp, rfl⟩ := ha
  rcases (step_moves hst).pending hw hp with hw | hw
  · exact ⟨w, hw, hp, rfl⟩
  · omega

/-- A step that gives a slot back has served somebody ahead; no step puts anybody ahead. -/
theorem step_ahead (hs : Inv cfg s) (hst : step s e = some s') (ha : s'.Waits a)
    (hlt : a < s.next) :
    s'.returned + s'.ahead a ≤ s.returned + s.ahead a := by
  have h := step_moves hst
  unfold Sys.ahead
  cases h with
  | same hwaiters _ _ hreturned | admitted _ hwaiters _ _ hreturned => rw [hwaiters, hreturned]
  | queued now _ hwaiters _ _ hreturned =>
    have hsame : Semaphore.ahead number a (s.sched.sem.enqueue ⟨s.next, now, none⟩).waiters =
        Semaphore.ahead number a s.sched.sem.waiters := ahead_enqueue (Nat.le_of_lt hlt)
    rw [hwaiters, hreturned, hsame]
    exact Nat.le_refl _
  | left k back _ _ hwaiters _ _ hreturned =>
    rw [hwaiters, hreturned]
    exact Nat.add_le_add_left (ahead_leave_le k back) _
  | interrupted k f hf hwaiters _ _ hreturned =>
    rw [hwaiters, hreturned]
    exact Nat.add_le_add_left (ahead_interrupt_le k hf) _
  | released hwaiters _ _ hreturned =>
    obtain ⟨w, hw, hp, rfl⟩ := ha
    rw [hwaiters] at hw
    have hone := ahead_release hs.fifo hw hp
    rw [hwaiters, hreturned]
    change _ ≤ s.returned + ahead number (number w.task) s.sched.sem.waiters
    omega

theorem ahead_lt (hs : Inv cfg s) (ha : s.Waits a) : s.ahead a < cfg.maxQueueDepth := by
  obtain ⟨w, hw, hp, rfl⟩ := ha
  have hlt : s.ahead (number w.task) < s.waiters.length := by
    rw [Sys.ahead, ahead, List.countP_eq_length_filter]
    exact List.length_filter_lt_length_iff_exists.mpr ⟨w, hw, by simp⟩
  exact Nat.lt_of_lt_of_le hlt hs.length_le

/-- While somebody waits, every slot given back goes to one of those ahead, and nobody comes ahead:
so many slots are given back in the meantime as there are fewer ahead, and these were less than
`max_queue_depth`. -/
theorem served_within {ls ms : List Ev} (h : Run step (Sys.init cfg) ls s) (hrun : Run step s ms t)
    (hs : s.Waits a) (ht : t.Waits a) :
    t.returned + t.ahead a ≤ s.returned + s.ahead a ∧ s.ahead a < cfg.maxQueueDepth := by
  have hinv := run_inv (init_inv cfg) h
  refine ⟨?_, ahead_lt hinv hs⟩
  have hlt : a < s.next := by
    obtain ⟨w, hw, -, rfl⟩ := hs
    exact hinv.lt_next w hw
  clear h hs
  suffices hkey : t.returned + t.ahead a ≤ s.returned + s.ahead a ∧ s.Waits a from hkey.1
  induction hrun with
  | refl => exact ⟨Nat.le_refl _, ht⟩
  | cons hst _ ih =>
    obtain ⟨hle, hw⟩ := ih ht (step_inv hinv hst) (Nat.lt_of_lt_of_le hlt (step_moves hst).next_le)
    exact ⟨Nat.le_trans hle (step_ahead hinv hst hw hlt), Waits.back hst hw hlt⟩

theorem served_within_three :
    ∃ s t, Run step (Sys.init .default) threeCalls s ∧ Run step s [.release 0 false] t ∧
      t.returned + t.ahead 2 ≤ s.returned + s.ahead 2 ∧ s.ahead 2 < 32 := by
  obtain ⟨s, hrun, hs⟩ : ∃ s, Run step (Sys.init .default) threeCalls s ∧
      (s.queue, exec step s [.release 0 false] |>.map Sys.queue) =
        ([(.pending, 1), (.pending, 2)], some [(.granted, 1), (.pending, 2)]) := run_of_exec_map rfl
  obtain ⟨hqueue, hafter⟩ := Prod.mk.inj hs
  obtain ⟨t, hmore, ht⟩ := run_of_exec_map hafter
  exact ⟨s, t, hrun, hmore, served_within hrun hmore (waits_iff.mpr (by simp [hqueue]))
    (waits_iff.mpr (by simp [ht]))⟩

end Fairness
end InferenceEngine
