import Mathlib.Algebra.BigOperators.Group.List.Basic
import Mathlib.Data.List.Basic

/-!
# Lib.Count

How a count or a sum over a list changes when one place of the list is replaced or removed. The
equations add on both sides instead of subtracting, so that `omega` can use them.
-/

namespace Count

universe u

variable {α : Type u} {p : α → Bool} {l : List α} {i : Nat} {a b : α}

theorem countP_set_add (h : l[i]? = some a) :
    (l.set i b).countP p + (if p a then 1 else 0) = l.countP p + (if p b then 1 else 0) := by
  induction l generalizing i with
  | nil => simp at h
  | cons x xs ih =>
    cases i with
    | zero =>
      simp only [List.getElem?_cons_zero, Option.some.injEq] at h
      subst h
      simp only [List.set_cons_zero, List.countP_cons]
      omega
    | succ i =>
      simp only [List.getElem?_cons_succ] at h
      have := ih h
      simp only [List.set_cons_succ, List.countP_cons]
      omega

theorem sum_map_set_add {M : Type u} [AddCommMonoid M] {f : α → M} (h : l[i]? = some a) :
    ((l.set i b).map f).sum + f a = (l.map f).sum + f b := by
  induction l generalizing i with
  | nil => simp at h
  | cons x xs ih =>
    cases i with
    | zero =>
      simp only [List.getElem?_cons_zero, Option.some.injEq] at h
      subst h
      simp only [List.set_cons_zero, List.map_cons, List.sum_cons]
      rw [add_assoc, add_comm _ (f x), add_comm]
    | succ i =>
      simp only [List.getElem?_cons_succ] at h
      simp only [List.set_cons_succ, List.map_cons, List.sum_cons, add_assoc, ih h]

theorem countP_eraseIdx_add (h : l[i]? = some a) :
    (l.eraseIdx i).countP p + (if p a then 1 else 0) = l.countP p := by
  induction l generalizing i with
  | nil => simp at h
  | cons x xs ih =>
    cases i with
    | zero =>
      simp only [List.getElem?_cons_zero, Option.some.injEq] at h
      subst h
      simp only [List.eraseIdx_zero, List.tail_cons, List.countP_cons]
    | succ i =>
      simp only [List.getElem?_cons_succ] at h
      have := ih h
      simp only [List.eraseIdx_cons_succ, List.countP_cons]
      omega

theorem countP_pos_of_getElem? (h : l[i]? = some a) (ha : p a = true) : 0 < l.countP p :=
  List.countP_pos_iff.mpr ⟨a, List.mem_of_getElem? h, ha⟩

/-- A place that no longer satisfies `p` is gone from those that do. -/
theorem perm_filter_set (h : l[i]? = some a) (ha : p a = true) (hb : p b = false) :
    (l.filter p).Perm (a :: (l.set i b).filter p) := by
  induction l generalizing i with
  | nil => simp at h
  | cons x xs ih =>
    cases i with
    | zero =>
      simp only [List.getElem?_cons_zero, Option.some.injEq] at h
      subst h
      rw [List.set_cons_zero, List.filter_cons_of_pos ha, List.filter_cons_of_neg (by simp [hb])]
    | succ i =>
      simp only [List.getElem?_cons_succ] at h
      rw [List.set_cons_succ, List.filter_cons, List.filter_cons]
      split
      · exact ((ih h).cons x).trans (List.Perm.swap a x _)
      · exact ih h

theorem zip_set {β : Type u} {ks : List β} {k : β} (hk : ks[i]? = some k) :
    ks.zip (l.set i b) = (ks.zip l).set i (k, b) := by
  induction ks generalizing l i with
  | nil => simp at hk
  | cons k' ks ih =>
    cases l with
    | nil => simp
    | cons x xs =>
      cases i with
      | zero =>
        simp only [List.getElem?_cons_zero, Option.some.injEq] at hk
        subst hk
        rfl
      | succ i =>
        simp only [List.getElem?_cons_succ] at hk
        simp only [List.set_cons_succ, List.zip_cons_cons, ih hk]

end Count
