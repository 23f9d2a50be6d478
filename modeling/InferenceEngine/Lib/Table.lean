import Mathlib.Data.List.Forall2
import Mathlib.Data.List.Nodup

/-!
# Lib.Table

Tables of a relational store as lists of rows, in the order in which the rows were inserted.

* `update p f`: `UPDATE ... SET f WHERE p`.
* `upsert p f row`: `INSERT row ON CONFLICT DO UPDATE SET f`, where `p` says which rows the new one
  conflicts with.

What a statement leaves alone is said for a column `g` that it does not write.
-/

namespace Table

variable {α β : Type} {p q : α → Bool} {f : α → α} {rows : List α} {row : α}

def update (p : α → Bool) (f : α → α) (rows : List α) : List α :=
  rows.map fun r => if p r then f r else r

def upsert (p : α → Bool) (f : α → α) (row : α) (rows : List α) : List α :=
  if rows.any p then update p f rows else rows ++ [row]

theorem mem_update {r : α} (h : r ∈ update p f rows) :
    ∃ r₀ ∈ rows, p r₀ = true ∧ r = f r₀ ∨ p r₀ = false ∧ r = r₀ := by
  obtain ⟨r₀, hr₀, rfl⟩ := List.mem_map.mp h
  by_cases hp : p r₀ = true
  · exact ⟨r₀, hr₀, .inl ⟨hp, if_pos hp⟩⟩
  · exact ⟨r₀, hr₀, .inr ⟨Bool.eq_false_iff.mpr hp, if_neg hp⟩⟩

theorem mem_update_of_mem {r : α} (h : r ∈ rows) (hp : p r = false) : r ∈ update p f rows :=
  List.mem_map.mpr ⟨r, h, by simp [hp]⟩

theorem map_update (g : α → β) (hg : ∀ r ∈ rows, p r = true → g (f r) = g r) :
    (update p f rows).map g = rows.map g := by
  unfold update
  rw [List.map_map]
  refine List.map_congr_left fun r hr => ?_
  by_cases hp : p r = true
  · simp [hp, hg r hr hp]
  · simp [hp]

theorem update_eq_self (h : ∀ r ∈ rows, p r = true → f r = r) : update p f rows = rows := by
  have hmap : (update p f rows).map id = rows.map id := map_update id h
  rwa [List.map_id, List.map_id] at hmap

theorem update_update (hf : ∀ r, f (f r) = f r) :
    update p f (update p f rows) = update p f rows := by
  refine update_eq_self fun r hr hpr => ?_
  obtain ⟨r₀, -, ⟨h₀, rfl⟩ | ⟨h₀, rfl⟩⟩ := mem_update hr
  · exact hf r₀
  · rw [hpr] at h₀
    cases h₀

theorem find?_update (hq : ∀ r, p r = true → q (f r) = q r) :
    (update p f rows).find? q = (rows.find? q).map fun r => if p r then f r else r := by
  induction rows with
  | nil => rfl
  | cons r rows ih =>
    have hqr : q (if p r then f r else r) = q r := by
      by_cases hp : p r = true
      · simp [hp, hq r hp]
      · simp [hp]
    simp only [update, List.map_cons, List.find?_cons, hqr] at ih ⊢
    cases q r with
    | true => rfl
    | false => exact ih

theorem any_update (hq : ∀ r, p r = true → q (f r) = q r) :
    (update p f rows).any q = rows.any q := by
  induction rows with
  | nil => rfl
  | cons r rows ih =>
    have hqr : q (if p r then f r else r) = q r := by
      by_cases hp : p r = true
      · simp [hp, hq r hp]
      · simp [hp]
    simp only [update, List.map_cons, List.any_cons, hqr] at ih ⊢
    rw [ih]

/-- A selection that the statement does not touch may be made before it. -/
theorem filter_update_comm (hq : ∀ r, p r = true → q (f r) = q r) :
    (update p f rows).filter q = update p f (rows.filter q) := by
  unfold update
  rw [List.filter_map]
  refine congrArg _ (List.filter_congr fun r _ => ?_)
  rw [Function.comp_apply]
  split
  · rename_i hp
    exact hq r hp
  · rfl

theorem filter_update (h : ∀ r ∈ rows, p r = true → q r = false ∧ q (f r) = false) :
    (update p f rows).filter q = rows.filter q := by
  induction rows with
  | nil => rfl
  | cons r rows ih =>
    have ih := ih fun r' hr' => h r' (List.mem_cons_of_mem r hr')
    unfold update at ih ⊢
    by_cases hp : p r = true
    · obtain ⟨hq, hqf⟩ := h r (List.mem_cons_self ..) hp
      simp [hp, hq, hqf, ih]
    · simp [hp, List.filter_cons, ih]

/-- Each row is as it was, or was not looked for and is not now. -/
theorem filter_of_forall₂ {R : α → α → Prop} {rows' : List α} (h : List.Forall₂ R rows rows')
    (hR : ∀ a b, R a b → b = a ∨ q a = false ∧ q b = false) : rows'.filter q = rows.filter q := by
  induction h with
  | nil => rfl
  | @cons a b rows rows' hab _ ih =>
    obtain rfl | ⟨ha, hb⟩ := hR a b hab
    · rw [List.filter_cons, List.filter_cons, ih]
    · rw [List.filter_cons_of_neg (by simp [hb]), List.filter_cons_of_neg (by simp [ha]), ih]

/-- A value of a column without duplicates finds its row. -/
theorem find?_of_nodup [DecidableEq β] {g : α → β} (h : (rows.map g).Nodup) {r : α}
    (hr : r ∈ rows) :
    rows.find? (fun x => g x = g r) = some r := by
  cases hfind : rows.find? (fun x => g x = g r) with
  | none =>
    have hnot := List.find?_eq_none.mp hfind r hr
    simp at hnot
  | some x =>
    have hx : g x = g r := by simpa using List.find?_some hfind
    rw [List.inj_on_of_nodup_map h (List.mem_of_find?_eq_some hfind) hr hx]

theorem upsert_of_any (h : rows.any p = true) : upsert p f row rows = update p f rows := if_pos h

theorem mem_upsert {r : α} (h : r ∈ upsert p f row rows) :
    (∃ r₀ ∈ rows, p r₀ = true ∧ r = f r₀ ∨ p r₀ = false ∧ r = r₀) ∨
      rows.any p = false ∧ r = row := by
  unfold upsert at h
  split at h
  · exact .inl (mem_update h)
  · rename_i hany
    rcases List.mem_append.mp h with h | h
    · refine .inl ⟨r, h, .inr ⟨?_, rfl⟩⟩
      rw [Bool.not_eq_true, List.any_eq_false] at hany
      simpa using hany r h
    · exact .inr ⟨by simpa using hany, List.mem_singleton.mp h⟩

theorem filter_upsert (h : ∀ r ∈ rows, p r = true → q r = false ∧ q (f r) = false)
    (hrow : q row = false) : (upsert p f row rows).filter q = rows.filter q := by
  unfold upsert
  split
  · exact filter_update h
  · rw [List.filter_append, List.filter_cons_of_neg (by simp [hrow])]
    simp

theorem any_upsert (hrow : p row = true) (hp : ∀ r, p r = true → p (f r) = true) :
    (upsert p f row rows).any p = true := by
  unfold upsert
  split
  · rename_i hany
    obtain ⟨r, hr, hpr⟩ := List.any_eq_true.mp hany
    refine List.any_eq_true.mpr ⟨f r, List.mem_map.mpr ⟨r, hr, by simp [hpr]⟩, hp r hpr⟩
  · exact List.any_eq_true.mpr ⟨row, by simp, hrow⟩

/-- Both statements read and write the same after the columns `g` were changed. -/
theorem map_update_comm {g : α → β} {p' : β → Bool} {f' : β → β} (hp : ∀ r, p' (g r) = p r)
    (hf : ∀ r, g (f r) = f' (g r)) : (update p f rows).map g = update p' f' (rows.map g) := by
  unfold update
  rw [List.map_map, List.map_map]
  refine List.map_congr_left fun r _ => ?_
  simp only [Function.comp_apply, hp]
  split
  · exact hf r
  · rfl

theorem map_upsert_comm {g : α → β} {p' : β → Bool} {f' : β → β} {row' : β}
    (hp : ∀ r, p' (g r) = p r) (hf : ∀ r, g (f r) = f' (g r)) (hrow : g row = row') :
    (upsert p f row rows).map g = upsert p' f' row' (rows.map g) := by
  have hany : (rows.map g).any p' = rows.any p := by
    rw [List.any_map]
    exact congrArg rows.any (funext hp)
  unfold upsert
  rw [hany]
  split
  · exact map_update_comm hp hf
  · rw [List.map_append, List.map_singleton, hrow]

theorem upsert_upsert (hrow : p row = true) (hp : ∀ r, p r = true → p (f r) = true)
    (hf : ∀ r, f (f r) = f r) (hfrow : f row = row) :
    upsert p f row (upsert p f row rows) = upsert p f row rows := by
  rw [upsert_of_any (any_upsert hrow hp)]
  refine update_eq_self fun r hr hpr => ?_
  obtain ⟨r₀, -, ⟨-, rfl⟩ | ⟨h₀, rfl⟩⟩ | ⟨-, rfl⟩ := mem_upsert hr
  · exact hf r₀
  · rw [hpr] at h₀
    cases h₀
  · exact hfrow

theorem find?_upsert (hrow : p row = true) (hp : ∀ r, p r = true → p (f r) = true) :
    (upsert p f row rows).find? p = some row ∨
      ∃ r₀ ∈ rows, (upsert p f row rows).find? p = some (f r₀) := by
  have hsome : ((upsert p f row rows).find? p).isSome = true := by
    rw [List.find?_isSome, ← List.any_eq_true]
    exact any_upsert hrow hp
  obtain ⟨r, hr⟩ := Option.isSome_iff_exists.mp hsome
  have hpr : p r = true := List.find?_some hr
  obtain ⟨r₀, hr₀, ⟨-, rfl⟩ | ⟨h₀, rfl⟩⟩ | ⟨-, rfl⟩ := mem_upsert (List.mem_of_find?_eq_some hr)
  · exact .inr ⟨r₀, hr₀, hr⟩
  · rw [hpr] at h₀
    cases h₀
  · exact .inl hr

end Table
