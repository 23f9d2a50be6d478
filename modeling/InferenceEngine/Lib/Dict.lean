import Mathlib.Algebra.BigOperators.Group.List.Basic
import Mathlib.Algebra.Ring.Nat
import Mathlib.Data.List.Nodup

/-!
# Lib.Dict

Dictionaries as lists of entries, in the order in which their keys were first set. A key is expected
to be there once; `Dict.set` keeps it so.

* `set`, `pop`: `d[k] = v` and `d.pop(k, None)`; `alter` is a `setdefault` whose value is then
  changed.
* `get_set`, `get_pop`: what is found after them.
* `keys_set_of_mem`, `keys_set`, `keys_pop`: what they do to the keys.
* `sum_values_alter`: what a sum over the values becomes.
-/

/-- A dictionary. -/
abbrev Dict (κ α : Type) := List (κ × α)

namespace Dict

variable {κ α : Type} {d : Dict κ α} {k k' : κ} {v v' : α}

def keys (d : Dict κ α) : List κ := d.map (·.1)

def values (d : Dict κ α) : List α := d.map (·.2)

theorem mem_keys_of_mem (h : (k, v) ∈ d) : k ∈ d.keys := List.mem_map.mpr ⟨(k, v), h, rfl⟩

theorem mem_of_mem_keys (h : k ∈ d.keys) : ∃ v, (k, v) ∈ d := by
  obtain ⟨⟨k', v⟩, hmem, rfl⟩ := List.mem_map.mp h
  exact ⟨v, hmem⟩

theorem unique (hd : d.keys.Nodup) (h : (k, v) ∈ d) (h' : (k, v') ∈ d) : v = v' := by
  have heq : (k, v) = (k, v') := List.inj_on_of_nodup_map hd h h' rfl
  exact (Prod.mk.inj heq).2

variable [DecidableEq κ]

def get (d : Dict κ α) (k : κ) : Option α := d.lookup k

def set (d : Dict κ α) (k : κ) (v : α) : Dict κ α :=
  if k ∈ d.keys then d.map fun e => if e.1 = k then (k, v) else e else d ++ [(k, v)]

def pop (d : Dict κ α) (k : κ) : Dict κ α := d.filter fun e => e.1 ≠ k

theorem mem_of_get (h : d.get k = some v) : (k, v) ∈ d := by
  induction d with
  | nil => cases h
  | cons e d ih =>
    obtain ⟨k', v'⟩ := e
    by_cases hk : k = k'
    · subst hk
      simp only [get, List.lookup_cons_self, Option.some.injEq] at h
      subst h
      exact List.mem_cons_self ..
    · have hne : (k == k') = false := beq_eq_false_iff_ne.mpr hk
      simp only [get, List.lookup_cons, hne] at h
      exact List.mem_cons_of_mem _ (ih h)

theorem get_eq_none (h : k ∉ d.keys) : d.get k = none := by
  cases hget : d.get k with
  | none => rfl
  | some v => exact absurd (mem_keys_of_mem (mem_of_get hget)) h

theorem get_cons (e : κ × α) : get (e :: d) k = if k = e.1 then some e.2 else d.get k := by
  by_cases hk : k = e.1
  · rw [if_pos hk, get, List.lookup_cons, beq_iff_eq.mpr hk]
  · rw [if_neg hk, get, List.lookup_cons, beq_eq_false_iff_ne.mpr hk]
    rfl

theorem get_of_mem (hd : d.keys.Nodup) (h : (k, v) ∈ d) : d.get k = some v := by
  induction d with
  | nil => cases h
  | cons e d ih =>
    obtain ⟨hfirst, hd⟩ := List.nodup_cons.mp hd
    rw [get_cons]
    rcases List.mem_cons.mp h with rfl | hmem
    · exact if_pos rfl
    · rw [if_neg, ih hd hmem]
      rintro rfl
      exact hfirst (mem_keys_of_mem hmem)

theorem get_reverse (hd : d.keys.Nodup) (k : κ) : get d.reverse k = d.get k := by
  have hrev : (keys d.reverse).Nodup := by
    rw [keys, List.map_reverse]
    exact List.nodup_reverse.mpr hd
  cases hget : d.get k with
  | some v => exact get_of_mem hrev (List.mem_reverse.mpr (mem_of_get hget))
  | none =>
    cases hget' : get d.reverse k with
    | none => rfl
    | some v =>
      rw [get_of_mem hd (List.mem_reverse.mp (mem_of_get hget'))] at hget
      cases hget

theorem get_pop (d : Dict κ α) (k k' : κ) :
    (d.pop k).get k' = if k' = k then none else d.get k' := by
  induction d with
  | nil => exact (ite_self none).symm
  | cons e d ih =>
    by_cases he : e.1 = k
    · have hpop : pop (e :: d) k = pop d k := List.filter_cons_of_neg (by simp [he])
      rw [hpop, ih, get_cons, he]
      split <;> rfl
    · have hpop : pop (e :: d) k = e :: pop d k := List.filter_cons_of_pos (by simp [he])
      rw [hpop, get_cons, get_cons, ih]
      by_cases hk : k' = k
      · rw [if_pos hk, if_pos hk, if_neg (fun h => he (h.symm.trans hk))]
      · rw [if_neg hk, if_neg hk]

theorem get_map_ne (hk : k' ≠ k) (v : α) :
    get (d.map fun e => if e.1 = k then (k, v) else e) k' = d.get k' := by
  induction d with
  | nil => rfl
  | cons e d ih =>
    rw [List.map_cons, get_cons, get_cons, ih]
    by_cases he : e.1 = k
    · rw [if_pos he, he, if_neg hk, if_neg hk]
    · rw [if_neg he]

theorem get_map_self (h : k ∈ d.keys) (v : α) :
    get (d.map fun e => if e.1 = k then (k, v) else e) k = some v := by
  induction d with
  | nil => cases h
  | cons e d ih =>
    rw [List.map_cons, get_cons]
    by_cases he : e.1 = k
    · rw [if_pos he, if_pos rfl]
    · have hmem : k ∈ keys d := (List.mem_cons.mp h).resolve_left (fun heq => he heq.symm)
      rw [if_neg he, if_neg (fun heq => he heq.symm), ih hmem]

theorem get_set (d : Dict κ α) (k k' : κ) (v : α) :
    (d.set k v).get k' = if k' = k then some v else d.get k' := by
  unfold set
  by_cases hk : k' = k
  · subst hk
    rw [if_pos rfl]
    split
    · exact get_map_self ‹_› v
    · have hnone : d.get k' = none := get_eq_none ‹_›
      rw [get, List.lookup_append, ← get, hnone]
      exact List.lookup_cons_self
  · rw [if_neg hk]
    split
    · exact get_map_ne hk v
    · have hnone : get [(k, v)] k' = none := (get_cons _).trans (if_neg hk)
      rw [get, List.lookup_append, ← get, ← get, hnone, Option.or_none]

theorem keys_set_of_mem (h : k ∈ d.keys) (v : α) : (d.set k v).keys = d.keys := by
  unfold set
  rw [if_pos h]
  unfold keys
  rw [List.map_map]
  refine List.map_congr_left fun e _ => ?_
  by_cases he : e.1 = k
  · simp [he]
  · simp [he]

theorem set_of_not_mem (h : k ∉ d.keys) (v : α) : d.set k v = d ++ [(k, v)] := if_neg h

theorem keys_set (h : k ∉ d.keys) (v : α) : (d.set k v).keys = d.keys ++ [k] := by
  rw [set_of_not_mem h, keys, List.map_append]
  rfl

theorem nodup_keys_set (h : d.keys.Nodup) (k : κ) (v : α) : (d.set k v).keys.Nodup := by
  by_cases hk : k ∈ d.keys
  · rw [keys_set_of_mem hk]
    exact h
  · rw [keys_set hk]
    exact List.nodup_append.mpr ⟨h, List.nodup_singleton k, fun a ha b hb hab =>
      hk (List.mem_singleton.mp hb ▸ hab ▸ ha)⟩

theorem mem_set (h : (k', v') ∈ d.set k v) : k' = k ∧ v' = v ∨ k' ≠ k ∧ (k', v') ∈ d := by
  unfold set at h
  split at h
  · obtain ⟨e, he, heq⟩ := List.mem_map.mp h
    by_cases hk : e.1 = k
    · rw [if_pos hk] at heq
      cases heq
      exact .inl ⟨rfl, rfl⟩
    · rw [if_neg hk] at heq
      subst heq
      exact .inr ⟨hk, he⟩
  · rename_i hnew
    rcases List.mem_append.mp h with h | h
    · exact .inr ⟨fun hk => hnew (hk ▸ mem_keys_of_mem h), h⟩
    · cases List.mem_singleton.mp h
      exact .inl ⟨rfl, rfl⟩

theorem mem_pop : (k', v') ∈ d.pop k ↔ (k', v') ∈ d ∧ k' ≠ k := by
  simp only [pop, List.mem_filter, decide_eq_true_eq]

theorem keys_pop : (d.pop k).keys = d.keys.filter (· ≠ k) := by
  unfold pop keys
  rw [List.filter_map]
  rfl

theorem mem_keys_pop : k' ∈ (d.pop k).keys ↔ k' ∈ d.keys ∧ k' ≠ k := by
  simp only [keys_pop, List.mem_filter, decide_eq_true_eq]

/-! ## Values that are changed -/

/-- The value of `k`, or `v₀` when it has none, is changed by `f`. -/
def alter (d : Dict κ α) (k : κ) (v₀ : α) (f : α → α) : Dict κ α := d.set k (f ((d.get k).getD v₀))

theorem getD_alter (d : Dict κ α) (k k' : κ) (v₀ : α) (f : α → α) :
    ((d.alter k v₀ f).get k').getD v₀ =
      if k' = k then f ((d.get k').getD v₀) else (d.get k').getD v₀ := by
  rw [alter, get_set]
  by_cases hk : k' = k
  · rw [if_pos hk, if_pos hk, hk]
    rfl
  · rw [if_neg hk, if_neg hk]

theorem sum_map_replace {g : α → Nat} (hd : d.keys.Nodup) (h : d.get k = some v) (v' : α) :
    ((d.map fun e => if e.1 = k then (k, v') else e).map fun e => g e.2).sum + g v =
      (d.map fun e => g e.2).sum + g v' := by
  induction d with
  | nil => cases h
  | cons e d ih =>
    obtain ⟨hnew, hnodup⟩ := List.nodup_cons.mp hd
    rw [get_cons] at h
    by_cases he : k = e.1
    · rw [if_pos he] at h
      cases h
      -- the key is nowhere else
      have hrest : (d.map fun e' => if e'.1 = k then (k, v') else e') = d := by
        refine (List.map_congr_left fun e' he' => ?_).trans (List.map_id d)
        exact if_neg fun hk => hnew (List.mem_map.mpr ⟨e', he', hk.trans he⟩)
      rw [List.map_cons, List.map_cons, List.map_cons, hrest, if_pos he.symm,
        List.sum_cons, List.sum_cons]
      simp only
      omega
    · rw [if_neg he] at h
      have htail := ih hnodup h
      rw [List.map_cons, List.map_cons, List.map_cons, if_neg fun hk => he hk.symm, List.sum_cons,
        List.sum_cons]
      omega

/-- One term of the sum is changed; a value that is not there counts for nothing. -/
theorem sum_values_alter {g : α → Nat} (hd : d.keys.Nodup) {v₀ : α} (h₀ : g v₀ = 0) (k : κ)
    (f : α → α) : ((d.alter k v₀ f).values.map g).sum + g ((d.get k).getD v₀) =
      (d.values.map g).sum + g (f ((d.get k).getD v₀)) := by
  have hvalues (d : Dict κ α) : (d.values.map g).sum = (d.map fun e => g e.2).sum := by
    rw [values, List.map_map]
    rfl
  rw [hvalues, hvalues, alter, set]
  by_cases hk : k ∈ d.keys
  · rw [if_pos hk]
    obtain ⟨v, hmem⟩ := mem_of_mem_keys hk
    have hsome : (d.get k).isSome = true :=
      List.lookup_isSome_iff.mpr ⟨(k, v), hmem, beq_self_eq_true k⟩
    obtain ⟨v, hget⟩ := Option.isSome_iff_exists.mp hsome
    rw [hget]
    exact sum_map_replace hd hget _
  · rw [if_neg hk, get_eq_none hk, Option.getD_none, h₀, List.map_append, List.sum_append]
    rfl

end Dict
