import Mathlib.Data.List.Basic
import Mathlib.Data.List.Induction
import Mathlib.Data.List.Pairwise

/-!
# Lib.Feed

Rows in the order of a number that only grows, as of an autoincremented id, and readers that go
through them page by page with the number of the last row they have seen.

* `Ascending key l`: the keys of `l` strictly increase.
* `last key l`: the key of the last row; 0 when there is none.
* `Ascending.mem_take`: a page has every row below its last.
* `Ascending.mem_newest`: a row is among the `n` newest if fewer than `n` come after it.
-/

namespace Feed

variable {α : Type} {key : α → Nat} {l m : List α} {a b : α} {n : Nat}

def Ascending (key : α → Nat) (l : List α) : Prop := l.Pairwise fun a b => key a < key b

def last (key : α → Nat) (l : List α) : Nat := (l.getLast?.map key).getD 0

@[simp] theorem last_append_singleton : last key (l ++ [a]) = key a := by
  unfold last
  rw [List.getLast?_append_of_ne_nil _ (List.cons_ne_nil a []), List.getLast?_singleton]
  rfl

namespace Ascending

theorem nil : Ascending key [] := List.Pairwise.nil

theorem sublist (h : Ascending key l) (hs : m.Sublist l) : Ascending key m :=
  List.Pairwise.sublist hs h

theorem append_singleton (h : Ascending key l) (hb : ∀ a ∈ l, key a < key b) :
    Ascending key (l ++ [b]) := by
  refine List.pairwise_append.mpr ⟨h, List.pairwise_singleton _ _, fun a ha c hc => ?_⟩
  rw [List.mem_singleton.mp hc]
  exact hb a ha

theorem key_le_last (h : Ascending key l) (ha : a ∈ l) : key a ≤ last key l := by
  induction l using List.reverseRecOn with
  | nil => cases ha
  | append_singleton xs x _ =>
    rw [last_append_singleton]
    rcases List.mem_append.mp ha with ha | ha
    · exact Nat.le_of_lt ((List.pairwise_append.mp h).2.2 a ha x (List.mem_singleton_self x))
    · exact Nat.le_of_eq (congrArg key (List.mem_singleton.mp ha))

theorem append_of_last_lt (h : Ascending key l) (hb : last key l < key b) :
    Ascending key (l ++ [b]) :=
  h.append_singleton fun _ ha => Nat.lt_of_le_of_lt (h.key_le_last ha) hb

theorem mem_take (h : Ascending key l) (ha : a ∈ l) (hb : b ∈ l.take n) (hle : key a ≤ key b) :
    a ∈ l.take n := by
  by_contra hnot
  have hdrop : a ∈ l.drop n := by
    have hsplit : a ∈ l.take n ++ l.drop n := by rwa [List.take_append_drop]
    exact (List.mem_append.mp hsplit).resolve_left hnot
  have hlt : key b < key a := by
    have hpair := h
    unfold Ascending at hpair
    rw [← List.take_append_drop n l] at hpair
    exact (List.pairwise_append.mp hpair).2.2 b hb a hdrop
  omega

/-- A row is among the `n` newest if fewer than `n` come after it. -/
theorem mem_newest (h : Ascending key l) (ha : a ∈ l)
    (hlater : (l.filter fun b => key a < key b).length < n) :
    key a ∈ (l.map key).reverse.take n := by
  obtain ⟨xs, ys, rfl⟩ := List.append_of_mem ha
  have hys : ∀ y ∈ ys, key a < key y :=
    (List.pairwise_cons.mp (List.pairwise_append.mp h).2.1).1
  have hlen : ys.length < n := by
    have hfilter : (ys.filter fun b => key a < key b) = ys := by
      refine List.filter_eq_self.mpr fun y hy => ?_
      simpa using hys y hy
    rw [List.filter_append, List.length_append, List.filter_cons_of_neg (by simp),
      hfilter] at hlater
    omega
  rw [List.map_append, List.map_cons, List.reverse_append, List.reverse_cons, List.append_assoc,
    List.take_append]
  refine List.mem_append_right _ ?_
  have hn : n - (ys.map key).reverse.length = n - ys.length - 1 + 1 := by
    rw [List.length_reverse, List.length_map]
    omega
  rw [hn]
  exact List.mem_cons_self

end Ascending

end Feed
