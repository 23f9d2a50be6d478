import Mathlib.Algebra.BigOperators.Group.List.Basic
import Mathlib.Data.List.Dedup

/-!
# Lib.GroupBy

`GROUP BY` over the rows of a table, and what sums over the groups have to do with sums over the
rows.

* `groups`: the keys that occur, each with its rows.
* `sum_groups_where`: of the groups whose key is looked for, the sums add up to the one over their
  rows.
-/

namespace GroupBy

variable {α κ : Type} [DecidableEq κ] {key : α → κ} {rows : List α} {k : κ}

def keys (key : α → κ) (rows : List α) : List κ := (rows.map key).dedup

def group (key : α → κ) (rows : List α) (k : κ) : List α := rows.filter fun row => key row = k

def groups (key : α → κ) (rows : List α) : List (κ × List α) :=
  (keys key rows).map fun k => (k, group key rows k)

theorem nodup_keys (key : α → κ) (rows : List α) : (keys key rows).Nodup := List.nodup_dedup _

theorem mem_keys : k ∈ keys key rows ↔ ∃ row ∈ rows, key row = k := by
  rw [keys, List.mem_dedup, List.mem_map]

theorem fst_groups (key : α → κ) (rows : List α) : (groups key rows).map (·.1) = keys key rows := by
  rw [groups, List.map_map]
  exact List.map_id _

theorem mem_groups {g : κ × List α} (h : g ∈ groups key rows) :
    g.1 ∈ keys key rows ∧ g.2 = group key rows g.1 := by
  obtain ⟨k, hk, rfl⟩ := List.mem_map.mp h
  exact ⟨hk, rfl⟩

variable {β : Type} [AddCommMonoid β] (f : α → β)

/-- A row is in the group of its key and in no other one. -/
theorem sum_group_of {ks : List κ} (hnodup : ks.Nodup) (row : α) :
    (ks.map fun k => if key row = k then f row else 0).sum = if key row ∈ ks then f row else 0 := by
  induction ks with
  | nil => rfl
  | cons k ks ih =>
    obtain ⟨hk, hks⟩ := List.nodup_cons.mp hnodup
    rw [List.map_cons, List.sum_cons, ih hks]
    by_cases hrow : key row = k
    · rw [if_pos hrow, if_neg (hrow ▸ hk), add_zero, if_pos (hrow ▸ List.mem_cons_self)]
    · rw [if_neg hrow, zero_add]
      simp [hrow]

theorem sum_groups_of {ks : List κ} (hnodup : ks.Nodup) (rows : List α) :
    (ks.map fun k => ((group key rows k).map f).sum).sum =
      ((rows.filter fun row => key row ∈ ks).map f).sum := by
  induction rows with
  | nil => simp [group]
  | cons row rows ih =>
    have hsplit : ∀ k, ((group key (row :: rows) k).map f).sum =
        (if key row = k then f row else 0) + ((group key rows k).map f).sum := by
      intro k
      unfold group
      by_cases hrow : key row = k
      · rw [List.filter_cons_of_pos (by simpa using hrow), List.map_cons,
          List.sum_cons, if_pos hrow]
      · rw [List.filter_cons_of_neg (by simpa using hrow), if_neg hrow, zero_add]
    simp only [hsplit, List.sum_map_add]
    rw [sum_group_of f hnodup, ih]
    by_cases hmem : key row ∈ ks
    · rw [List.filter_cons_of_pos (by simpa using hmem), List.map_cons, List.sum_cons, if_pos hmem]
    · rw [List.filter_cons_of_neg (by simpa using hmem), if_neg hmem, zero_add]

theorem sum_groups_where (p : κ → Bool) (rows : List α) :
    (((groups key rows).filter fun g => p g.1).map fun g => (g.2.map f).sum).sum =
      ((rows.filter fun row => p (key row)).map f).sum := by
  have hfilter : ((groups key rows).filter fun g => p g.1) =
      ((keys key rows).filter p).map fun k => (k, group key rows k) := by
    rw [groups, List.filter_map]
    rfl
  rw [hfilter, List.map_map]
  refine (sum_groups_of f ((nodup_keys key rows).filter p) rows).trans ?_
  refine congrArg (fun rows => (List.map f rows).sum) (List.filter_congr fun row hrow => ?_)
  have hkey : key row ∈ keys key rows := mem_keys.mpr ⟨row, hrow, rfl⟩
  simp [List.mem_filter, hkey]

end GroupBy
