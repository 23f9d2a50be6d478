import Mathlib.Logic.Function.Basic

/-!
# Lib.FileLock

Exclusive advisory locks on files, as `flock` has them: a lock belongs to the open file that asked
for it, is given at once or not at all, and is gone when that file is closed.

`Claimed claims locks` says that the table of the locks is what their holders believe it to be.
`take` and `free` keep it for the claims they change (`Claimed.take`, `Claimed.free`), and a file
has one holder (`Claimed.unique`).
-/

namespace FileLock

universe u v

variable {F : Type u} {H : Type v}

/-- The open file that has the lock, for each file. -/
abbrev Locks (F : Type u) (H : Type v) := F → Option H

def Claimed (claims : H → F → Prop) (locks : Locks F H) : Prop :=
  ∀ h f, claims h f ↔ locks f = some h

def take [DecidableEq F] (locks : Locks F H) (f : F) (h : H) : Locks F H :=
  Function.update locks f (some h)

/-- `h` gives up its lock on `f`, if it has it. -/
def free [DecidableEq F] [DecidableEq H] (locks : Locks F H) (f : F) (h : H) : Locks F H :=
  if locks f = some h then Function.update locks f none else locks

namespace Claimed

variable {locks : Locks F H} {claims claims' : H → F → Prop} {f : F} {h h' : H}

theorem unique (hc : Claimed claims locks) (h₁ : claims h f) (h₂ : claims h' f) : h = h' :=
  Option.some.inj (((hc h f).mp h₁).symm.trans ((hc h' f).mp h₂))

theorem congr (hc : Claimed claims locks) (hsame : ∀ g e, claims' g e ↔ claims g e) :
    Claimed claims' locks :=
  fun g e => (hsame g e).trans (hc g e)

theorem take [DecidableEq F] (hc : Claimed claims locks) (hfree : locks f = none)
    (hmore : ∀ g e, claims' g e ↔ claims g e ∨ g = h ∧ e = f) :
    Claimed claims' (take locks f h) := by
  intro g e
  rw [hmore]
  by_cases he : e = f
  · subst he
    have hnone : ¬ claims g e := fun hg => by
      rw [hc g e, hfree] at hg
      cases hg
    simp [FileLock.take, hnone, eq_comm]
  · simp [FileLock.take, he, hc g e]

theorem free [DecidableEq F] [DecidableEq H] (hc : Claimed claims locks)
    (hless : ∀ g e, claims' g e ↔ claims g e ∧ ¬ (g = h ∧ e = f)) :
    Claimed claims' (free locks f h) := by
  intro g e
  rw [hless, hc g e]
  unfold FileLock.free
  split
  · rename_i hheld
    by_cases he : e = f
    · subst he
      simp [hheld, eq_comm]
    · simp [he]
  · rename_i hnot
    refine and_iff_left_of_imp fun hg ⟨hgh, hef⟩ => ?_
    rw [hgh, hef] at hg
    exact hnot hg

end Claimed

end FileLock
