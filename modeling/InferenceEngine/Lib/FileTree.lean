import InferenceEngine.Lib.Dict

/-!
# Lib.FileTree

Directory entries: files, and links to other entries. A path is followed from its entry over the
links.

* `chain`: the entries a path leads over, the one it ends at included. `resolve` is that last one.
* `unlink`, `write`, `rename`: what the calls of these names do. Only `write` follows links.
* `isFile_congr`, `chain_congr`: a path is not affected by what happens to the entries it does not
  lead over.
* `chain_rename`: a renamed entry leads over no other entries than before.
-/

/-- What an entry is. -/
inductive FileTree.Node (κ : Type) where
  | file
  | link (target : κ)
  deriving DecidableEq

abbrev FileTree (κ : Type) := Dict κ (FileTree.Node κ)

namespace FileTree

variable {κ : Type} [DecidableEq κ] {t t' : FileTree κ} {e e' x : κ} {n m : Nat}

/-- The entries met from `e` on, over at most `n` links. -/
def follow (t : FileTree κ) : Nat → κ → List κ
  | 0, e => [e]
  | n + 1, e =>
    match t.get e with
    | some (.link target) => e :: follow t n target
    | _ => [e]

def last (t : FileTree κ) : Nat → κ → κ
  | 0, e => e
  | n + 1, e =>
    match t.get e with
    | some (.link target) => last t n target
    | _ => e

/-- A path that leads over more links is not followed to its end. -/
def maxLinks : Nat := 40

def chain (t : FileTree κ) (e : κ) : List κ := follow t maxLinks e

def resolve (t : FileTree κ) (e : κ) : κ := last t maxLinks e

def isFile (t : FileTree κ) (e : κ) : Bool := decide (t.get (t.resolve e) = some .file)

def unlink (t : FileTree κ) (e : κ) : FileTree κ := t.pop e

/-- The file at the end of the path is written, and created if there is none. -/
def write (t : FileTree κ) (e : κ) : FileTree κ :=
  match t.get (t.resolve e) with
  | none => t.set (t.resolve e) .file
  | some _ => t

def rename (t : FileTree κ) (e e' : κ) : FileTree κ :=
  match t.get e with
  | some node => (t.pop e).set e' node
  | none => t

/-! ## Paths -/

theorem mem_follow_self (t : FileTree κ) (n : Nat) (e : κ) : e ∈ follow t n e := by
  cases n with
  | zero => exact List.mem_singleton_self e
  | succ n =>
    unfold follow
    split
    · exact List.mem_cons_self ..
    · exact List.mem_singleton_self e

theorem last_mem_follow (t : FileTree κ) (n : Nat) (e : κ) : last t n e ∈ follow t n e := by
  induction n generalizing e with
  | zero => exact List.mem_singleton_self e
  | succ n ih =>
    unfold last follow
    split
    · exact List.mem_cons_of_mem _ (ih _)
    · exact List.mem_singleton_self e

theorem mem_chain_self (t : FileTree κ) (e : κ) : e ∈ t.chain e := mem_follow_self t maxLinks e

theorem resolve_mem_chain (t : FileTree κ) (e : κ) : t.resolve e ∈ t.chain e :=
  last_mem_follow t maxLinks e

theorem follow_congr (h : ∀ x ∈ follow t n e, t'.get x = t.get x) :
    follow t' n e = follow t n e ∧ last t' n e = last t n e := by
  induction n generalizing e with
  | zero => exact ⟨rfl, rfl⟩
  | succ n ih =>
    have hget : t'.get e = t.get e := h e (mem_follow_self t (n + 1) e)
    simp only [follow, last, hget] at h ⊢
    split at h
    · obtain ⟨hfollow, hlast⟩ := ih fun x hx => h x (List.mem_cons_of_mem e hx)
      exact ⟨congrArg (e :: ·) hfollow, hlast⟩
    · exact ⟨rfl, rfl⟩

theorem chain_congr (h : ∀ x ∈ t.chain e, t'.get x = t.get x) : t'.chain e = t.chain e :=
  (follow_congr h).1

theorem resolve_congr (h : ∀ x ∈ t.chain e, t'.get x = t.get x) : t'.resolve e = t.resolve e :=
  (follow_congr h).2

theorem isFile_congr (h : ∀ x ∈ t.chain e, t'.get x = t.get x) : t'.isFile e = t.isFile e := by
  unfold isFile
  rw [resolve_congr h, h _ (resolve_mem_chain t e)]

theorem follow_mono (h : m ≤ n) : follow t m e ⊆ follow t n e := by
  induction m generalizing e n with
  | zero =>
    intro x hx
    rw [List.mem_singleton.mp hx]
    exact mem_follow_self t n e
  | succ m ih =>
    obtain ⟨n, rfl⟩ : ∃ k, n = k + 1 := ⟨n - 1, by omega⟩
    unfold follow
    split
    · exact List.cons_subset_cons _ (ih (by omega))
    · exact List.Subset.refl _

/-! ## What the calls leave as it is -/

theorem get_unlink_of_ne (h : x ≠ e) : (t.unlink e).get x = t.get x :=
  (Dict.get_pop t e x).trans (if_neg h)

theorem get_rename_of_ne (h : x ≠ e) (h' : x ≠ e') : (t.rename e e').get x = t.get x := by
  unfold rename
  split
  · rw [Dict.get_set, if_neg h', Dict.get_pop, if_neg h]
  · rfl

theorem get_write (hx : t.get x ≠ none) : (t.write e).get x = t.get x := by
  unfold write
  split
  · rename_i hnone
    rw [Dict.get_set, if_neg]
    rintro rfl
    exact hx hnone
  · rfl

theorem follow_write (n : Nat) (e x : κ) :
    follow (t.write e) n x = follow t n x ∧ last (t.write e) n x = last t n x := by
  induction n generalizing x with
  | zero => exact ⟨rfl, rfl⟩
  | succ n ih =>
    by_cases hx : t.get x = none
    · have hlink : ∀ target, (t.write e).get x ≠ some (.link target) := by
        intro target
        unfold write
        split
        · rw [Dict.get_set]
          split
          · exact fun h => by cases h
          · rw [hx]
            exact fun h => by cases h
        · rw [hx]
          exact fun h => by cases h
      unfold follow last
      rw [hx]
      split
      · rename_i target htarget
        exact absurd htarget (hlink target)
      · exact ⟨rfl, rfl⟩
    · unfold follow last
      rw [get_write hx]
      split
      · obtain ⟨hfollow, hlast⟩ := ih ‹κ›
        exact ⟨congrArg (x :: ·) hfollow, hlast⟩
      · exact ⟨rfl, rfl⟩

theorem chain_write (e x : κ) : (t.write e).chain x = t.chain x := (follow_write maxLinks e x).1

theorem isFile_write (h : t.isFile x = true) : (t.write e).isFile x = true := by
  unfold isFile resolve at h ⊢
  rw [(follow_write maxLinks e x).2, get_write]
  · exact h
  · rw [of_decide_eq_true h]
    exact fun h => by cases h

/-! ## What they do to the path they are given -/

/-- A path that `unlink` cuts leads over no new entries. -/
theorem chain_unlink_subset (t : FileTree κ) (e x : κ) : (t.unlink e).chain x ⊆ t.chain x := by
  suffices h : ∀ n x, follow (t.unlink e) n x ⊆ follow t n x from h maxLinks x
  intro n
  induction n with
  | zero => exact fun x => List.Subset.refl _
  | succ n ih =>
    intro x
    by_cases hx : x = e
    · have hget : (t.unlink e).get x = none := (Dict.get_pop t e x).trans (if_pos hx)
      rw [follow, hget]
      exact List.cons_subset.mpr ⟨mem_follow_self t (n + 1) x, List.nil_subset _⟩
    · rw [follow, follow, get_unlink_of_ne hx]
      split
      · exact List.cons_subset_cons _ (ih _)
      · exact List.Subset.refl _

theorem chain_of_link {target : κ} (h : t.get e = some (.link target)) :
    t.chain e = e :: follow t (maxLinks - 1) target := by
  show follow t (maxLinks - 1 + 1) e = _
  rw [follow, h]

/-- After the rename, what is met from the new name on, or from the entries of the old path. The
path may come to `e'` again; there it goes on as the old one did from `e`. -/
theorem follow_rename {node : Node κ} (hget : t.get e = some node) :
    ∀ k x, k ≤ maxLinks → x = e' ∨ follow t k x ⊆ t.chain e →
      follow (t.rename e e') k x ⊆ e' :: t.chain e := by
  have hnew : (t.rename e e').get e' = some node := by rw [rename, hget, Dict.get_set, if_pos rfl]
  intro k
  induction k with
  | zero =>
    intro x _ hx
    rcases hx with rfl | hx
    · exact List.cons_subset.mpr ⟨List.mem_cons_self .., List.nil_subset _⟩
    · exact fun y hy => List.mem_cons_of_mem _ (hx hy)
  | succ k ih =>
    intro x hk hx
    by_cases hx' : x = e'
    · subst hx'
      rw [follow, hnew]
      split
      · rename_i target htarget
        cases htarget
        refine List.cons_subset.mpr ⟨List.mem_cons_self ..,
          ih target (by omega) (.inr fun y hy => ?_)⟩
        rw [chain_of_link hget]
        exact List.mem_cons_of_mem _ (follow_mono (by omega) hy)
      · exact List.cons_subset.mpr ⟨List.mem_cons_self .., List.nil_subset _⟩
    · have hx := hx.resolve_left hx'
      have hmem : x ∈ e' :: t.chain e := List.mem_cons_of_mem _ (hx (mem_follow_self t (k + 1) x))
      by_cases hxe : x = e
      · have hold : (t.rename e e').get x = none := by
          rw [rename, hget, Dict.get_set, if_neg hx', Dict.get_pop, if_pos hxe]
        rw [follow, hold]
        exact List.cons_subset.mpr ⟨hmem, List.nil_subset _⟩
      · rw [follow, get_rename_of_ne hxe hx']
        rw [follow] at hx
        cases hnode : t.get x with
        | none => exact List.cons_subset.mpr ⟨hmem, List.nil_subset _⟩
        | some node' =>
          cases node' with
          | file => exact List.cons_subset.mpr ⟨hmem, List.nil_subset _⟩
          | link target =>
            rw [hnode] at hx
            have htail := (List.cons_subset.mp hx).2
            exact List.cons_subset.mpr ⟨hmem, ih target (by omega) (.inr htail)⟩

theorem chain_rename (hget : t.get e ≠ none) : (t.rename e e').chain e' ⊆ e' :: t.chain e := by
  obtain ⟨node, hnode⟩ := Option.ne_none_iff_exists'.mp hget
  exact follow_rename hnode maxLinks e' (Nat.le_refl _) (.inl rfl)

theorem chain_rename_old (hget : t.get e ≠ none) : (t.rename e e').chain e ⊆ e' :: t.chain e := by
  obtain ⟨node, hnode⟩ := Option.ne_none_iff_exists'.mp hget
  exact follow_rename hnode maxLinks e (Nat.le_refl _) (.inr (List.Subset.refl _))

end FileTree
