import Mathlib.Data.List.Nodup
import Mathlib.Data.List.Perm.Basic
import InferenceEngine.Lib.Run

/-!
# Dashboard.OneTimeSecret

A value that the engine returns once, held for one owner and for the operator who has asked for it
(`useOneTimeSecret` in `hooks/useOneTimeSecret.ts`). A step is a render with an owner, the effects
that follow it, a call of any `run` there has been, the outcome of any call in flight, another saved
key, `clear`, or the unmounting. Between a render and its effects anything may come but a render or
the unmounting. What is set after that is lost.

A value that is shown keeps the run that has asked for it, and the key that was saved when it came.

* `shown_for_owner`: what is shown is the value of the last run, for the owner of the last render.
* `shown_once`: a value that was hidden, or whose call was aborted, is never shown.
* `returned_ok_iff`: a run returns its value exactly if it is shown.
* `busy_exact`: busy means one call in flight that is not aborted; there is no other.
-/

namespace InferenceEngine
namespace OneTimeSecret

open Lts

variable {τ ε : Type}

/-- `Pending`; the `AbortController` is with the call. -/
structure Pending where
  number : Nat
  key : Option String
  owner : String

structure Flight where
  mine : Pending
  aborted : Bool

structure Shown (τ : Type) where
  mine : Pending
  value : τ
  key : Option String

structure St (τ : Type) where
  mounted : Bool
  /-- of the last render -/
  owner : String
  /-- that the effect last ran with -/
  ran : Option String
  /-- the effects of the last render are still to run -/
  pending : Bool
  shown : Option (Shown τ)
  busy : Bool
  current : Option Nat
  flights : List Flight
  apiKey : Option String
  next : Nat

inductive Outcome (τ ε : Type) where
  | ok (value : τ)
  | failed (error : ε)

inductive OneTimeOutcome (τ ε : Type) where
  | ok (value : τ)
  | error (error : ε)
  | stale

inductive Event (τ ε : Type) where
  | render (owner : String)
  | effects
  /-- a call of the `run` of a render with this owner -/
  | run (owner : String)
  | settle (i : Nat) (outcome : Outcome τ ε)
  | saveKey (key : Option String)
  | clear
  | unmount

namespace St

/-- After the first render. -/
def mount (owner : String) (apiKey : Option String) : St τ where
  mounted := true
  owner := owner
  ran := none
  pending := true
  shown := none
  busy := false
  current := none
  flights := []
  apiKey := apiKey
  next := 0

/-- `setShown`. -/
def setShown (s : St τ) (shown : Option (Shown τ)) : St τ :=
  if s.mounted then { s with shown } else s

/-- `setBusy`. -/
def setBusy (s : St τ) (busy : Bool) : St τ := if s.mounted then { s with busy } else s

def invalidate (s : St τ) : St τ :=
  { s with
    current := none
    flights := s.flights.map fun f => if s.current = some f.mine.number then { f with
      aborted := true } else f }

/-- The effect of `[owner]`. -/
def effects (s : St τ) : St τ :=
  let s' := if s.ran = some s.owner then s else (s.invalidate.setShown none).setBusy false
  { s' with ran := some s.owner, pending := false }

def issue (s : St τ) (owner : String) : St τ :=
  { s with
    current := some s.next
    flights := s.flights ++ [⟨⟨s.next, s.apiKey, owner⟩, false⟩]
    next := s.next + 1 }

/-- `run`, up to the answer. -/
def run (s : St τ) (owner : String) : St τ :=
  ((s.invalidate.issue owner).setShown none).setBusy true

def stale (s : St τ) (f : Flight) : Bool :=
  s.current ≠ some f.mine.number || f.aborted || s.apiKey ≠ f.mine.key

/-- The `finally` of `run`. -/
def finish (s : St τ) (f : Flight) : St τ :=
  if s.current = some f.mine.number then { s with current := none }.setBusy false else s

/-- `run`, from the answer on. -/
def settle (s : St τ) (f : Flight) (outcome : Outcome τ ε) : St τ :=
  match outcome with
  | .ok value => (if s.stale f then s else s.setShown (some ⟨f.mine, value, s.apiKey⟩)).finish f
  | .failed _ => s.finish f

/-- What `run` returns then. -/
def returned (s : St τ) (f : Flight) (outcome : Outcome τ ε) : OneTimeOutcome τ ε :=
  if s.stale f then .stale
  else
    match outcome with
    | .ok value => .ok value
    | .failed error => .error error

def answered (s : St τ) (i : Nat) : St τ := { s with flights := s.flights.eraseIdx i }

/-- What `value` is returned from. -/
def visible (s : St τ) : Option (Shown τ) :=
  if s.mounted then s.shown.filter (·.mine.owner = s.owner) else none

end St

def step (s : St τ) : Event τ ε → Option (St τ)
  | .render owner =>
    if s.mounted && !s.pending then some { s with owner, pending := true } else none
  | .effects => if s.mounted && s.pending then some s.effects else none
  | .run owner => some (s.run owner)
  | .settle i outcome => s.flights[i]?.map fun f => (s.answered i).settle f outcome
  | .saveKey key => some { s with apiKey := key }
  | .clear => some (s.setShown none)
  | .unmount =>
    if s.mounted && !s.pending then some { s.invalidate with mounted := false } else none

variable {s s' t : St τ} {e : Event τ ε} {f : Flight} {n : Nat}

/-- The calls in flight: each has its number, and the one that is not aborted is the current one. -/
structure Flights (s : St τ) : Prop where
  nodup : (s.flights.map (·.mine.number)).Nodup
  lt_next : ∀ f ∈ s.flights, f.mine.number < s.next
  aborted : ∀ f ∈ s.flights, f.aborted = false ↔ s.current = some f.mine.number
  current : ∀ n, s.current = some n → n + 1 = s.next ∧ ∃ f ∈ s.flights, f.mine.number = n

/-- What is held while the view is mounted. -/
structure Held (s : St τ) : Prop where
  busy : s.busy = true ↔ s.current.isSome = true
  shown : ∀ x, s.shown = some x → x.mine.number + 1 = s.next ∧ s.current = none ∧
    x.key = x.mine.key ∧
    ∀ f ∈ s.flights, f.mine.number ≠ x.mine.number
  ran : s.pending = false → s.ran = some s.owner

structure Inv (s : St τ) : Prop where
  flights : Flights s
  held : s.mounted = true → Held s

theorem mount_inv (owner : String) (apiKey : Option String) :
    Inv (St.mount owner apiKey : St τ) where
  flights := ⟨List.nodup_nil, fun _ h => (by cases h), fun _ h => (by cases h),
    fun _ h => (by cases h)⟩
  held _ := ⟨by simp [St.mount], fun _ h => (by cases h), fun h => (by cases h)⟩

section Fields

theorem setShown_of_mounted (h : s.mounted = true) (x : Option (Shown τ)) :
    s.setShown x = { s with shown := x } :=
  if_pos h

theorem setBusy_of_mounted (h : s.mounted = true) (b : Bool) :
    s.setBusy b = { s with busy := b } := if_pos h

/-- What `setShown` and `setBusy` leave alone. -/
structure SameCalls (s s' : St τ) : Prop where
  mounted : s'.mounted = s.mounted
  flights : s'.flights = s.flights
  current : s'.current = s.current
  next : s'.next = s.next

theorem setShown_calls (s : St τ) (x : Option (Shown τ)) : SameCalls s (s.setShown x) := by
  unfold St.setShown
  split <;> exact ⟨rfl, rfl, rfl, rfl⟩

theorem setBusy_calls (s : St τ) (b : Bool) : SameCalls s (s.setBusy b) := by
  unfold St.setBusy
  split <;> exact ⟨rfl, rfl, rfl, rfl⟩

theorem SameCalls.trans {s s' t : St τ} (h : SameCalls s s') (h' : SameCalls s' t) :
    SameCalls s t :=
  ⟨h'.mounted.trans h.mounted, h'.flights.trans h.flights, h'.current.trans h.current,
    h'.next.trans h.next⟩

end Fields

namespace Flights

theorem congr (h : Flights s) (hsame : SameCalls s s') : Flights s' := by
  obtain ⟨-, hflights, hcurrent, hnext⟩ := hsame
  exact ⟨hflights ▸ h.nodup, by rw [hflights, hnext]; exact h.lt_next,
    by rw [hflights, hcurrent]; exact h.aborted,
    by rw [hflights, hcurrent, hnext]; exact h.current⟩

theorem numbers_invalidate (s : St τ) :
    s.invalidate.flights.map (·.mine.number) = s.flights.map (·.mine.number) := by
  rw [St.invalidate, List.map_map]
  refine List.map_congr_left fun f _ => ?_
  rw [Function.comp_apply]
  split <;> rfl

/-- Nothing that is in flight is current, and all of it is aborted. -/
theorem invalidate (h : Flights s) : Flights s.invalidate where
  nodup := by
    rw [numbers_invalidate]
    exact h.nodup
  lt_next f hf := by
    have hmem : f.mine.number ∈ s.invalidate.flights.map (·.mine.number) := List.mem_map_of_mem hf
    rw [numbers_invalidate] at hmem
    obtain ⟨f', hf', hnumber⟩ := List.mem_map.mp hmem
    exact hnumber ▸ h.lt_next f' hf'
  aborted f hf := by
    obtain ⟨f', hf', rfl⟩ := List.mem_map.mp hf
    have haborted := h.aborted f' hf'
    split
    · simp [St.invalidate]
    · next hne =>
      have hgoes : f'.aborted = true := eq_true_of_ne_false (mt haborted.mp hne)
      simp [St.invalidate, hgoes]
  current n hn := by cases hn

theorem issue (h : Flights s) (hcur : s.current = none) (owner : String) :
    Flights (s.issue owner) where
  nodup := by
    rw [St.issue, List.map_append, List.nodup_append]
    refine ⟨h.nodup, by simp, fun a ha b hb heq => ?_⟩
    obtain ⟨f, hf, rfl⟩ := List.mem_map.mp ha
    obtain rfl : b = s.next := by simpa using hb
    exact absurd heq (Nat.ne_of_lt (h.lt_next f hf))
  lt_next f hf := by
    rcases List.mem_append.mp hf with hf | hf
    · exact Nat.lt_succ_of_lt (h.lt_next f hf)
    · rw [List.mem_singleton.mp hf]
      exact Nat.lt_succ_self _
  aborted f hf := by
    rcases List.mem_append.mp hf with hf | hf
    · have hlt := h.lt_next f hf
      have hold := h.aborted f hf
      rw [hcur] at hold
      simp only [St.issue, Option.some.injEq]
      constructor
      · exact fun hf => absurd (hold.mp hf) (by simp)
      · exact fun heq => absurd heq (by omega)
    · rw [List.mem_singleton.mp hf]
      simp [St.issue]
  current n hn := by
    obtain rfl : s.next = n := by simpa [St.issue] using hn
    exact ⟨rfl, _, List.mem_append_right _ (List.mem_singleton_self _), rfl⟩

theorem answered_perm {i : Nat} (hi : s.flights[i]? = some f) :
    (f :: (s.answered i).flights).Perm s.flights := by
  obtain ⟨hlt, rfl⟩ := List.getElem?_eq_some_iff.mp hi
  exact List.getElem_cons_eraseIdx_perm hlt

theorem ne_of_answered (h : Flights s) {i : Nat} (hi : s.flights[i]? = some f) :
    ∀ f' ∈ (s.answered i).flights, f'.mine.number ≠ f.mine.number := by
  have hnodup := ((answered_perm hi).map (·.mine.number)).nodup_iff.mpr h.nodup
  intro f' hf' heq
  have hmem : f'.mine.number ∈ (s.answered i).flights.map (·.mine.number) := List.mem_map_of_mem hf'
  rw [heq] at hmem
  exact (List.nodup_cons.mp hnodup).1 hmem

theorem settled (h : Flights s) {i : Nat} (hi : s.flights[i]? = some f)
    (hflights : s'.flights = (s.answered i).flights) (hnext : s'.next = s.next)
    (hcurrent : s'.current = if s.current = some f.mine.number then none else s.current) :
    Flights s' := by
  have hperm := answered_perm hi
  have hother := h.ne_of_answered hi
  have hmem : ∀ f' ∈ s'.flights, f' ∈ s.flights := fun f' hf' =>
    hperm.subset (List.mem_cons_of_mem f (hflights ▸ hf'))
  refine ⟨?_, fun f' hf' => hnext ▸ h.lt_next f' (hmem f' hf'), fun f' hf' => ?_, fun n hn => ?_⟩
  · rw [hflights]
    exact (List.nodup_cons.mp ((hperm.map (·.mine.number)).nodup_iff.mpr h.nodup)).2
  · have hne := hother f' (hflights ▸ hf')
    rw [hcurrent, h.aborted f' (hmem f' hf')]
    split
    · next hcur =>
      rw [hcur]
      simp [Ne.symm hne]
    · rfl
  · rw [hcurrent] at hn
    split at hn
    · cases hn
    · next hcur =>
      obtain ⟨hlast, f', hf', hnumber⟩ := h.current n hn
      refine ⟨hnext ▸ hlast, f', ?_, hnumber⟩
      rw [hflights]
      rcases List.mem_cons.mp (hperm.symm.subset hf') with rfl | hrest
      · exact absurd (hnumber ▸ hn) hcur
      · exact hrest

end Flights

section Settle

theorem finish_calls (s : St τ) (f : Flight) :
    (s.finish f).mounted = s.mounted ∧ (s.finish f).flights = s.flights ∧
      (s.finish f).next = s.next ∧
      (s.finish f).current = if s.current = some f.mine.number then none else s.current := by
  unfold St.finish
  split
  · have hsame := setBusy_calls { s with current := none } false
    exact ⟨hsame.mounted, hsame.flights, hsame.next, hsame.current⟩
  · exact ⟨rfl, rfl, rfl, rfl⟩

theorem finish_shown (s : St τ) (f : Flight) : (s.finish f).shown = s.shown := by
  unfold St.finish
  split
  · unfold St.setBusy
    split <;> rfl
  · rfl

theorem settle_calls (s : St τ) (f : Flight) (outcome : Outcome τ ε) :
    (s.settle f outcome).mounted = s.mounted ∧ (s.settle f outcome).flights = s.flights ∧
      (s.settle f outcome).next = s.next ∧
      (s.settle f outcome).current = if s.current = some f.mine.number then none
      else s.current := by
  cases outcome with
  | failed error => exact finish_calls s f
  | ok value =>
    unfold St.settle
    dsimp only
    split
    · exact finish_calls s f
    · have hsame := setShown_calls s (some ⟨f.mine, value, s.apiKey⟩)
      obtain ⟨hmounted, hflights, hnext, hcurrent⟩ :=
        finish_calls (s.setShown (some ⟨f.mine, value, s.apiKey⟩)) f
      rw [hsame.mounted] at hmounted
      rw [hsame.flights] at hflights
      rw [hsame.next] at hnext
      rw [hsame.current] at hcurrent
      exact ⟨hmounted, hflights, hnext, hcurrent⟩

/-- While the view is mounted: the call was the current one, and its value is shown or nothing
changes but that it is not awaited any more; or it was not, and nothing changes. -/
theorem settle_cases (hm : s.mounted = true) (f : Flight) (outcome : Outcome τ ε) :
    (s.current = some f.mine.number ∧ s.apiKey = f.mine.key ∧
        ∃ value, s.settle f outcome =
          { s with shown := some ⟨f.mine, value, s.apiKey⟩, current := none, busy := false }) ∨
      (s.current = some f.mine.number ∧
        s.settle f outcome = { s with current := none, busy := false }) ∨
      (s.current ≠ some f.mine.number ∧ s.settle f outcome = s) := by
  have hfinish : ∀ u : St τ, u.mounted = true → u.finish f =
      if u.current = some f.mine.number then { u with current := none, busy := false } else u := by
    intro u hu
    unfold St.finish
    rw [setBusy_of_mounted (s := { u with current := none }) hu]
  have hrefused : s.finish f = s.settle f outcome →
      (s.current = some f.mine.number ∧
        s.settle f outcome = { s with current := none, busy := false }) ∨
      (s.current ≠ some f.mine.number ∧ s.settle f outcome = s) := by
    intro heq
    rw [← heq, hfinish s hm]
    by_cases hcur : s.current = some f.mine.number
    · exact .inl ⟨hcur, if_pos hcur⟩
    · exact .inr ⟨hcur, if_neg hcur⟩
  cases outcome with
  | failed error => exact .inr (hrefused rfl)
  | ok value =>
    by_cases hstale : s.stale f = true
    · refine .inr (hrefused ?_)
      unfold St.settle
      dsimp only
      rw [if_pos hstale]
    · have hfresh := hstale
      simp only [St.stale, Bool.or_eq_true, decide_eq_true_eq, not_or, ne_eq, not_not] at hfresh
      obtain ⟨⟨hcur, -⟩, hkey⟩ := hfresh
      refine .inl ⟨hcur, hkey, value, ?_⟩
      unfold St.settle
      dsimp only
      rw [if_neg hstale, setShown_of_mounted hm,
        hfinish { s with shown := some ⟨f.mine, value, s.apiKey⟩ } hm]
      exact if_pos hcur

end Settle

section Steps

theorem run_calls (s : St τ) (owner : String) :
    SameCalls (s.invalidate.issue owner) (s.run owner) :=
  (setShown_calls _ _).trans (setBusy_calls _ _)

theorem run_of_mounted (hm : s.mounted = true) (owner : String) :
    s.run owner = { s.invalidate.issue owner with shown := none, busy := true } := by
  unfold St.run
  rw [setShown_of_mounted (s := s.invalidate.issue owner) hm]
  exact setBusy_of_mounted (s := { s.invalidate.issue owner with shown := none }) hm true

theorem effects_of_same (h : s.ran = some s.owner) :
    s.effects = { s with ran := some s.owner, pending := false } := by
  unfold St.effects
  rw [if_pos h]

theorem effects_of_other (hm : s.mounted = true) (h : s.ran ≠ some s.owner) :
    s.effects =
      { s.invalidate with
        shown := none, busy := false, ran := some s.owner, pending := false } := by
  unfold St.effects
  rw [if_neg h, setShown_of_mounted (s := s.invalidate) hm,
    setBusy_of_mounted (s := { s.invalidate with shown := none }) hm]

theorem Inv.step (h : Inv s) (hst : step s e = some s') : Inv s' := by
  cases e with
  | render owner =>
    simp only [OneTimeSecret.step] at hst
    split at hst
    · cases hst
      refine ⟨⟨h.flights.nodup, h.flights.lt_next, h.flights.aborted,
        h.flights.current⟩, fun hm => ?_⟩
      exact ⟨(h.held hm).busy, (h.held hm).shown, fun hp => by cases hp⟩
    · cases hst
  | effects =>
    simp only [OneTimeSecret.step] at hst
    split at hst
    · next hcond =>
      have hm := (Bool.and_eq_true_iff.mp hcond).1
      cases hst
      by_cases hran : s.ran = some s.owner
      · rw [effects_of_same hran]
        exact ⟨⟨h.flights.nodup, h.flights.lt_next, h.flights.aborted, h.flights.current⟩,
          fun hm => ⟨(h.held hm).busy, (h.held hm).shown, fun _ => rfl⟩⟩
      · rw [effects_of_other hm hran]
        have hinv := h.flights.invalidate
        exact ⟨⟨hinv.nodup, hinv.lt_next, hinv.aborted, hinv.current⟩,
          fun _ => ⟨by simp [St.invalidate], fun _ hx => (by cases hx), fun _ => rfl⟩⟩
    · cases hst
  | run owner =>
    cases hst
    have hflights := (h.flights.invalidate.issue rfl owner).congr (run_calls s owner)
    refine ⟨hflights, fun hm => ?_⟩
    have hm : s.mounted = true := (run_calls s owner).mounted.symm.trans hm
    rw [run_of_mounted hm]
    exact ⟨by simp [St.issue], fun _ hx => (by cases hx), (h.held hm).ran⟩
  | settle i outcome =>
    obtain ⟨f, hi, rfl⟩ := Option.map_eq_some_iff.mp hst
    obtain ⟨hmounted, hflights, hnext, hcurrent⟩ := settle_calls (s.answered i) f outcome
    refine ⟨h.flights.settled hi hflights hnext hcurrent, fun hm => ?_⟩
    have hm : s.mounted = true := hmounted.symm.trans hm
    have hheld := h.held hm
    have hsub : ∀ f' ∈ (s.answered i).flights, f' ∈ s.flights := fun f' hf' =>
      (Flights.answered_perm hi).subset (List.mem_cons_of_mem f hf')
    rcases settle_cases (s := s.answered i) hm f outcome with
      ⟨hcur, hkey, value, heq⟩ | ⟨hcur, heq⟩ | ⟨hcur, heq⟩
    · rw [heq]
      refine ⟨by simp, fun x hx => ?_, hheld.ran⟩
      cases hx
      exact ⟨(h.flights.current _ hcur).1, rfl, hkey, h.flights.ne_of_answered hi⟩
    · rw [heq]
      refine ⟨by simp, fun x hx => ?_, hheld.ran⟩
      have hnone := (hheld.shown x hx).2.1
      exact absurd (hnone.symm.trans hcur) (by simp)
    · rw [heq]
      refine ⟨hheld.busy, fun x hx => ?_, hheld.ran⟩
      obtain ⟨hlast, hnone, hkey, hother⟩ := hheld.shown x hx
      exact ⟨hlast, hnone, hkey, fun f' hf' => hother f' (hsub f' hf')⟩
  | saveKey key =>
    cases hst
    exact ⟨⟨h.flights.nodup, h.flights.lt_next, h.flights.aborted, h.flights.current⟩,
      fun hm => ⟨(h.held hm).busy, (h.held hm).shown, (h.held hm).ran⟩⟩
  | clear =>
    cases hst
    refine ⟨h.flights.congr (setShown_calls s none), fun hm => ?_⟩
    have hm : s.mounted = true := (setShown_calls s none).mounted.symm.trans hm
    rw [setShown_of_mounted hm]
    exact ⟨(h.held hm).busy, fun _ hx => (by cases hx), (h.held hm).ran⟩
  | unmount =>
    simp only [OneTimeSecret.step] at hst
    split at hst
    · cases hst
      have hinv := h.flights.invalidate
      exact ⟨⟨hinv.nodup, hinv.lt_next, hinv.aborted, hinv.current⟩, fun hm => by cases hm⟩
    · cases hst

end Steps

theorem run_inv {owner : String} {apiKey : Option String} {es : List (Event τ ε)}
    (hrun : Run step (St.mount owner apiKey) es t) : Inv t :=
  hrun.invariant (fun _ _ _ h hst => h.step hst) (mount_inv owner apiKey)

theorem visible_iff {x : Shown τ} :
    s.visible = some x ↔ s.mounted = true ∧ s.shown = some x ∧ x.mine.owner = s.owner := by
  unfold St.visible
  split
  · next hm => simp [hm, Option.filter_eq_some_iff]
  · next hm => simp [hm]

/-- What is shown is the value of the last run there was, for the owner of the last render, and the
key that was saved when it came is the one that asked for it; nothing is awaited then. -/
theorem shown_for_owner {owner : String} {apiKey : Option String} {es : List (Event τ ε)}
    (hrun : Run step (St.mount owner apiKey) es t) {x : Shown τ} (hx : t.visible = some x) :
    x.mine.owner = t.owner ∧ x.mine.number + 1 = t.next ∧ x.key = x.mine.key ∧ t.busy = false := by
  obtain ⟨hm, hshown, howner⟩ := visible_iff.mp hx
  have hheld := (run_inv hrun).held hm
  obtain ⟨hlast, hnone, hkey, -⟩ := hheld.shown x hshown
  refine ⟨howner, hlast, hkey, Bool.eq_false_iff.mpr fun hbusy => ?_⟩
  have hsome := hheld.busy.mp hbusy
  rw [hnone] at hsome
  cases hsome

/-- There is one call in flight at most that is not aborted, and the view is busy while there is
one. -/
theorem busy_exact {owner : String} {apiKey : Option String} {es : List (Event τ ε)}
    (hrun : Run step (St.mount owner apiKey) es t) :
    (∀ f ∈ t.flights, ∀ f' ∈ t.flights, f.aborted = false → f'.aborted = false →
      f.mine.number = f'.mine.number) ∧
      (t.mounted = true → (t.busy = true ↔ ∃ f ∈ t.flights, f.aborted = false)) := by
  obtain ⟨hflights, hheld⟩ := run_inv hrun
  refine ⟨fun f hf f' hf' hgoes hgoes' => ?_, fun hm => ?_⟩
  · have hcur := (hflights.aborted f hf).mp hgoes
    have hcur' := (hflights.aborted f' hf').mp hgoes'
    exact Option.some.inj (hcur.symm.trans hcur')
  · rw [(hheld hm).busy, Option.isSome_iff_exists]
    constructor
    · rintro ⟨n, hn⟩
      obtain ⟨-, f, hf, rfl⟩ := hflights.current n hn
      exact ⟨f, hf, (hflights.aborted f hf).mpr hn⟩
    · rintro ⟨f, hf, hgoes⟩
      exact ⟨_, (hflights.aborted f hf).mp hgoes⟩

/-- While the view is mounted, a run returns a value as `ok` exactly if that value is shown from
then on. -/
theorem returned_ok_iff (h : Inv s) (hm : s.mounted = true) {i : Nat} (hi : s.flights[i]? = some f)
    (outcome : Outcome τ ε) (value : τ) :
    (s.answered i).returned f outcome = .ok value ↔
      ((s.answered i).settle f outcome).shown = some ⟨f.mine, value, s.apiKey⟩ := by
  have hnot : (s.answered i).shown ≠ some ⟨f.mine, value, s.apiKey⟩ := fun heq =>
    ((h.held hm).shown _ heq).2.2.2 f (List.mem_of_getElem? hi) rfl
  unfold St.returned St.settle
  by_cases hstale : (s.answered i).stale f = true
  · rw [if_pos hstale]
    cases outcome with
    | ok v =>
      dsimp only
      rw [if_pos hstale, finish_shown]
      simpa using hnot
    | failed error =>
      dsimp only
      rw [finish_shown]
      simpa using hnot
  · rw [if_neg hstale]
    cases outcome with
    | ok v =>
      dsimp only
      rw [if_neg hstale, finish_shown, setShown_of_mounted (s := s.answered i) hm]
      simp [St.answered]
    | failed error =>
      dsimp only
      rw [finish_shown]
      simpa using hnot

/-- The value of run `n` is not to be shown any more: if it is held, then for another owner, and
until the effects have run. -/
structure Gone (n : Nat) (s : St τ) : Prop where
  lt_next : n < s.next
  current : s.current ≠ some n
  held : s.mounted = true → ∀ x, s.shown = some x → x.mine.number = n →
    s.pending = true ∧ s.ran ≠ some s.owner ∧ x.mine.owner ≠ s.owner

theorem Gone.not_visible (h : Gone n s) {x : Shown τ} (hx : s.visible = some x) :
    x.mine.number ≠ n := by
  obtain ⟨hm, hshown, howner⟩ := visible_iff.mp hx
  exact fun hn => (h.held hm x hshown hn).2.2 howner

theorem Gone.step (h : Gone n s) (hst : step s e = some s') : Gone n s' := by
  obtain ⟨hlt, hcur, hheld⟩ := h
  cases e with
  | render owner =>
    simp only [OneTimeSecret.step] at hst
    split at hst
    · next hcond =>
      obtain ⟨-, hpending⟩ := Bool.and_eq_true_iff.mp hcond
      cases hst
      refine ⟨hlt, hcur, fun hm x hx hn => ?_⟩
      rw [(hheld hm x hx hn).1] at hpending
      cases hpending
    · cases hst
  | effects =>
    simp only [OneTimeSecret.step] at hst
    split at hst
    · next hcond =>
      have hm := (Bool.and_eq_true_iff.mp hcond).1
      cases hst
      by_cases hran : s.ran = some s.owner
      · rw [effects_of_same hran]
        exact ⟨hlt, hcur, fun hm x hx hn => absurd hran (hheld hm x hx hn).2.1⟩
      · rw [effects_of_other hm hran]
        exact ⟨hlt, by simp [St.invalidate], fun _ _ hx => by cases hx⟩
    · cases hst
  | run owner =>
    cases hst
    have hsame := run_calls s owner
    refine ⟨by rw [hsame.next]; exact Nat.lt_succ_of_lt hlt, ?_, fun hm x hx => ?_⟩
    · rw [hsame.current]
      exact fun heq => absurd (Option.some.inj heq) (Nat.ne_of_gt hlt)
    · have hm : s.mounted = true := hsame.mounted.symm.trans hm
      rw [run_of_mounted hm] at hx
      cases hx
  | settle i outcome =>
    obtain ⟨f, hi, rfl⟩ := Option.map_eq_some_iff.mp hst
    obtain ⟨hmounted, -, hnext, hcurrent⟩ := settle_calls (s.answered i) f outcome
    refine ⟨hnext ▸ hlt, ?_, fun hm x hx hn => ?_⟩
    · rw [hcurrent]
      split
      · simp
      · exact hcur
    · have hm : s.mounted = true := hmounted.symm.trans hm
      rcases settle_cases (s := s.answered i) hm f outcome with
        ⟨hfcur, -, value, heq⟩ | ⟨-, heq⟩ | ⟨-, heq⟩
      · rw [heq] at hx
        cases hx
        exact absurd (hn ▸ hfcur) hcur
      · rw [heq] at hx ⊢
        exact hheld hm x hx hn
      · rw [heq] at hx ⊢
        exact hheld hm x hx hn
  | saveKey key =>
    cases hst
    exact ⟨hlt, hcur, hheld⟩
  | clear =>
    cases hst
    have hsame := setShown_calls s none
    refine ⟨hsame.next ▸ hlt, hsame.current ▸ hcur, fun hm x hx => ?_⟩
    rw [setShown_of_mounted (hsame.mounted.symm.trans hm)] at hx
    cases hx
  | unmount =>
    simp only [OneTimeSecret.step] at hst
    split at hst
    · cases hst
      exact ⟨hlt, by simp [St.invalidate], fun hm => by cases hm⟩
    · cases hst

theorem Gone.run (h : Gone n s) {es : List (Event τ ε)} (hrun : Run OneTimeSecret.step s es t) :
    Gone n t :=
  hrun.invariant (fun _ _ _ h hst => h.step hst) h

theorem gone_of_hidden (h : Inv s) {x : Shown τ} (hx : s.visible = some x)
    (hst : step s e = some s') (hhidden : ∀ y, s'.visible = some y →
      y.mine.number ≠ x.mine.number) : Gone x.mine.number s' := by
  obtain ⟨hm, hshown, howner⟩ := visible_iff.mp hx
  obtain ⟨hlast, hnone, -, -⟩ := (h.held hm).shown x hshown
  have hlt : x.mine.number < s.next := by omega
  have hcur : s.current ≠ some x.mine.number := by simp [hnone]
  have hstays : s'.visible ≠ some x := fun hy => hhidden x hy rfl
  cases e with
  | render owner =>
    simp only [OneTimeSecret.step] at hst
    split at hst
    · next hcond =>
      obtain ⟨-, hpending⟩ := Bool.and_eq_true_iff.mp hcond
      have hran := (h.held hm).ran (by simpa using hpending)
      cases hst
      have hother : s.owner ≠ owner :=
          fun heq => hstays (visible_iff.mpr ⟨hm, hshown, howner.trans heq⟩)
      refine ⟨hlt, hcur, fun _ y hy _ => ?_⟩
      obtain rfl : x = y := Option.some.inj (hshown.symm.trans hy)
      exact ⟨rfl, fun heq => hother (Option.some.inj (hran.symm.trans heq)),
        fun heq => hother (howner.symm.trans heq)⟩
    · cases hst
  | effects =>
    simp only [OneTimeSecret.step] at hst
    split at hst
    · cases hst
      by_cases hran : s.ran = some s.owner
      · rw [effects_of_same hran] at hstays
        exact absurd (visible_iff.mpr ⟨hm, hshown, howner⟩) hstays
      · rw [effects_of_other hm hran]
        exact ⟨hlt, by simp [St.invalidate], fun _ _ hy => by cases hy⟩
    · cases hst
  | run owner =>
    cases hst
    have hsame := run_calls s owner
    refine ⟨by rw [hsame.next]; exact Nat.lt_succ_of_lt hlt, ?_, fun _ y hy => ?_⟩
    · rw [hsame.current]
      exact fun heq => absurd (Option.some.inj heq) (Nat.ne_of_gt hlt)
    · rw [run_of_mounted hm] at hy
      cases hy
  | settle i outcome =>
    obtain ⟨f, hi, rfl⟩ := Option.map_eq_some_iff.mp hst
    have hawaited : (s.answered i).current ≠ some f.mine.number := by simp [St.answered, hnone]
    rcases settle_cases (s := s.answered i) hm f outcome with
      ⟨hfcur, -⟩ | ⟨hfcur, -⟩ | ⟨-, heq⟩
    · exact absurd hfcur hawaited
    · exact absurd hfcur hawaited
    · rw [heq] at hstays
      exact absurd (visible_iff.mpr ⟨hm, hshown, howner⟩) hstays
  | saveKey key =>
    cases hst
    exact absurd (visible_iff.mpr ⟨hm, hshown, howner⟩) hstays
  | clear =>
    cases hst
    rw [setShown_of_mounted hm]
    exact ⟨hlt, hcur, fun _ _ hy => by cases hy⟩
  | unmount =>
    simp only [OneTimeSecret.step] at hst
    split at hst
    · cases hst
      exact ⟨hlt, by simp [St.invalidate], fun hm => by cases hm⟩
    · cases hst

theorem gone_of_aborted (h : Inv s) (hf : f ∈ s.flights) (haborted : f.aborted = true) :
    Gone f.mine.number s := by
  refine ⟨h.flights.lt_next f hf, fun hcur => ?_, fun hm x hx hn => ?_⟩
  · have hgoes := (h.flights.aborted f hf).mpr hcur
    rw [haborted] at hgoes
    cases hgoes
  · exact absurd hn.symm (((h.held hm).shown x hx).2.2.2 f hf)

/-- A value that was shown and is hidden, by `clear`, another run, another owner or the end of the
view, is never shown again; and what a call answers that was aborted is never shown. -/
theorem shown_once {owner : String} {apiKey : Option String} {es : List (Event τ ε)}
    (hrun : Run step (St.mount owner apiKey) es s) :
    (∀ x (e : Event τ ε) m, s.visible = some x → step s e = some m →
      (∀ y, m.visible = some y → y.mine.number ≠ x.mine.number) →
        ∀ (es' : List (Event τ ε)) t, Run step m es' t → ∀ y, t.visible = some y →
        y.mine.number ≠ x.mine.number) ∧
    ∀ f ∈ s.flights, f.aborted = true →
      ∀ (es' : List (Event τ ε)) t, Run step s es' t →
        ∀ y, t.visible = some y → y.mine.number ≠ f.mine.number := by
  have hinv := run_inv hrun
  refine ⟨fun x e m hx hst hhidden es' t hrest y hy => ?_, fun f hf haborted es' t hrest y hy => ?_⟩
  · exact ((gone_of_hidden hinv hx hst hhidden).run hrest).not_visible hy
  · exact ((gone_of_aborted hinv hf haborted).run hrest).not_visible hy

/-! ## Two clients -/

/-- A key is asked for one client; the operator turns to another, asks for its key, and gets both
answers. -/
def twoClients : List (Event Nat String) :=
  [.effects, .run "first", .render "second", .effects, .run "second", .settle 0 (.ok 1),
    .settle 0 (.ok 2)]

theorem shown_for_owner_twoClients : ∃ t : St Nat, Run step (St.mount "first" none) twoClients t ∧
    ∃ x, t.visible = some x ∧ x.value = 2 ∧ x.mine.owner = t.owner ∧ t.busy = false := by
  obtain ⟨t, hrun, hvalue⟩ : ∃ t : St Nat, Run step (St.mount "first" none) twoClients t ∧
      t.visible.map (·.value) = some 2 := run_of_exec_map rfl
  obtain ⟨x, hx, hvalue⟩ := Option.map_eq_some_iff.mp hvalue
  obtain ⟨howner, -, -, hbusy⟩ := shown_for_owner hrun hx
  exact ⟨t, hrun, x, hx, hvalue, howner, hbusy⟩

theorem busy_exact_twoClients :
    ∃ t : St Nat, Run step (St.mount "first" none) (twoClients.take 5) t ∧
    t.flights.length = 2 ∧ (t.mounted =
      true → (t.busy = true ↔ ∃ f ∈ t.flights, f.aborted = false)) := by
  obtain ⟨t, hrun, hflights⟩ : ∃ t : St Nat,
      Run step (St.mount "first" none) (twoClients.take 5) t ∧
      t.flights.length = 2 := run_of_exec_map rfl
  exact ⟨t, hrun, hflights, (busy_exact hrun).2⟩

theorem shown_once_twoClients :
    ∃ s : St Nat, Run step (St.mount "first" none) (twoClients.take 5) s ∧
    s.flights.map (·.aborted) = [true, false] ∧ ∀ f ∈ s.flights, f.aborted = true →
      ∀ (es' : List (Event Nat String)) t, Run step s es' t → ∀ y, t.visible = some y →
      y.mine.number ≠ f.mine.number := by
  obtain ⟨s, hrun, haborted⟩ : ∃ s : St Nat,
      Run step (St.mount "first" none) (twoClients.take 5) s ∧
      s.flights.map (·.aborted) = [true, false] := run_of_exec_map rfl
  exact ⟨s, hrun, haborted, (shown_once hrun).2⟩

end OneTimeSecret
end InferenceEngine
