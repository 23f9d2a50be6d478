import Mathlib.Data.List.Forall2

/-!
# Lib.Results

A list comprehension over a function that may raise: `mapM` in `Except`.

* `mapM_ok`, `mapM_of_ok`: when none raises, the results stand in the order of the items.
* `exists_item`, `exists_result`: every result is an item's, and every item has one.
-/

namespace Results

variable {α β ε : Type} {f : α → Except ε β} {R : α → β → Prop} {l : List α} {rs : List β}

theorem mapM_ok (h : l.mapM f = .ok rs) : List.Forall₂ (fun a r => f a = .ok r) l rs := by
  induction l generalizing rs with
  | nil =>
    cases h
    exact .nil
  | cons a l ih =>
    rw [List.mapM_cons] at h
    cases ha : f a with
    | error e =>
      rw [ha] at h
      cases h
    | ok r =>
      cases hl : l.mapM f with
      | error e =>
        rw [ha, hl] at h
        cases h
      | ok rs' =>
        rw [ha, hl] at h
        cases h
        exact .cons ha (ih hl)

theorem mapM_of_ok (h : ∀ a ∈ l, ∃ r, f a = .ok r) : ∃ rs, l.mapM f = .ok rs := by
  induction l with
  | nil => exact ⟨[], rfl⟩
  | cons a l ih =>
    obtain ⟨r, hr⟩ := h a (List.mem_cons_self ..)
    obtain ⟨rs, hrs⟩ := ih fun b hb => h b (List.mem_cons_of_mem a hb)
    refine ⟨r :: rs, ?_⟩
    rw [List.mapM_cons, hr, hrs]
    rfl

theorem exists_item {r : β} (h : List.Forall₂ R l rs) (hr : r ∈ rs) : ∃ a ∈ l, R a r := by
  induction h with
  | nil => cases hr
  | @cons a r' l rs ha _ ih =>
    rcases List.mem_cons.mp hr with rfl | hr
    · exact ⟨a, List.mem_cons_self, ha⟩
    · obtain ⟨b, hb, hrel⟩ := ih hr
      exact ⟨b, List.mem_cons_of_mem a hb, hrel⟩

theorem exists_result {a : α} (h : List.Forall₂ R l rs) (ha : a ∈ l) : ∃ r ∈ rs, R a r := by
  obtain ⟨r, hr, hrel⟩ := exists_item (R := fun r a => R a r) h.flip ha
  exact ⟨r, hr, hrel⟩

end Results
