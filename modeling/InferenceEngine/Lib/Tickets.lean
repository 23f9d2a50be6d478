import Mathlib.Data.List.Basic

/-!
# Lib.Tickets

Requests in flight that carry the number of a counter, by which their answers are told apart. An
answer may come at any time and in any order; what its number says is when the request was issued.

`Ordered number time count now requests` says that the requests in flight are numbered as they were
issued, up to the counter. An answer takes its request away (`Ordered.sublist`), a request takes the
next number (`Ordered.issue`). Whoever drops the answers below a number he has seen therefore drops
what was issued before (`Ordered.later`), and no two requests have one number
(`Ordered.ne_of_answered`).
-/

namespace Tickets

universe u

variable {ρ : Type u} {number time : ρ → Nat} {count now : Nat}
  {requests requests' : List ρ} {r r' : ρ}

structure Ordered (number time : ρ → Nat) (count now : Nat) (requests : List ρ) : Prop where
  number_le : ∀ r ∈ requests, number r ≤ count
  time_lt : ∀ r ∈ requests, time r < now
  sorted : requests.Pairwise fun r r' => number r < number r' ∧ time r < time r'

namespace Ordered

theorem nil : Ordered number time count now [] :=
  ⟨List.forall_mem_nil _, List.forall_mem_nil _, .nil⟩

theorem sublist (h : Ordered number time count now requests) (hsub : requests'.Sublist requests) :
    Ordered number time count now requests' where
  number_le r hr := h.number_le r (hsub.subset hr)
  time_lt r hr := h.time_lt r (hsub.subset hr)
  sorted := h.sorted.sublist hsub

theorem answered (h : Ordered number time count now requests) (i : Nat) :
    Ordered number time count now (requests.eraseIdx i) := h.sublist (List.eraseIdx_sublist ..)

theorem wait (h : Ordered number time count now requests) :
    Ordered number time count (now + 1) requests :=
  ⟨h.number_le, fun r hr => Nat.lt_succ_of_lt (h.time_lt r hr), h.sorted⟩

theorem skip (h : Ordered number time count now requests) :
    Ordered number time (count + 1) now requests :=
  ⟨fun r hr => Nat.le_succ_of_le (h.number_le r hr), h.time_lt, h.sorted⟩

theorem issue (h : Ordered number time count now requests) (hnumber : number r = count + 1)
    (htime : time r = now) : Ordered number time (count + 1) (now + 1) (requests ++ [r]) where
  number_le r' hr' := by
    rcases List.mem_append.mp hr' with hr' | hr'
    · exact Nat.le_succ_of_le (h.number_le r' hr')
    · exact Nat.le_of_eq (List.mem_singleton.mp hr' ▸ hnumber)
  time_lt r' hr' := by
    rcases List.mem_append.mp hr' with hr' | hr'
    · exact Nat.lt_succ_of_lt (h.time_lt r' hr')
    · rw [List.mem_singleton.mp hr', htime]
      exact Nat.lt_succ_self now
  sorted := by
    refine List.pairwise_append.mpr ⟨h.sorted, List.pairwise_singleton .., fun r₁ h₁ r₂ h₂ => ?_⟩
    rw [List.mem_singleton.mp h₂, hnumber, htime]
    exact ⟨Nat.lt_succ_of_le (h.number_le r₁ h₁), h.time_lt r₁ h₁⟩

theorem later (h : Ordered number time count now requests) (hr : r ∈ requests) (hr' : r' ∈ requests)
    (hlt : number r < number r') : time r < time r' := by
  obtain ⟨i, hi, rfl⟩ := List.getElem_of_mem hr
  obtain ⟨j, hj, rfl⟩ := List.getElem_of_mem hr'
  have hsorted := List.pairwise_iff_getElem.mp h.sorted
  rcases Nat.lt_trichotomy i j with hij | rfl | hij
  · exact (hsorted i j hi hj hij).2
  · exact absurd hlt (Nat.lt_irrefl _)
  · exact absurd hlt (Nat.lt_asymm (hsorted j i hj hi hij).1)

theorem eq_of_number (h : Ordered number time count now requests) (hr : r ∈ requests)
    (hr' : r' ∈ requests) (heq : number r = number r') : r = r' := by
  obtain ⟨i, hi, rfl⟩ := List.getElem_of_mem hr
  obtain ⟨j, hj, rfl⟩ := List.getElem_of_mem hr'
  have hsorted := List.pairwise_iff_getElem.mp h.sorted
  rcases Nat.lt_trichotomy i j with hij | rfl | hij
  · exact absurd heq (Nat.ne_of_lt (hsorted i j hi hj hij).1)
  · rfl
  · exact absurd heq (Nat.ne_of_gt (hsorted j i hj hi hij).1)

theorem ne_of_answered (h : Ordered number time count now requests) {i : Nat}
    (hr : requests[i]? = some r) (hr' : r' ∈ requests.eraseIdx i) : number r' ≠ number r := by
  obtain ⟨hi, rfl⟩ := List.getElem?_eq_some_iff.mp hr
  obtain ⟨j, hne, hj⟩ := List.mem_eraseIdx_iff_getElem?.mp hr'
  obtain ⟨hlt, rfl⟩ := List.getElem?_eq_some_iff.mp hj
  have hsorted := List.pairwise_iff_getElem.mp h.sorted
  rcases Nat.lt_or_gt_of_ne hne with hij | hij
  · exact Nat.ne_of_lt (hsorted j i hlt hi hij).1
  · exact Nat.ne_of_gt (hsorted i j hi hlt hij).1

end Ordered

end Tickets
