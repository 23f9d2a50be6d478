import Mathlib.Algebra.Ring.Nat
import Mathlib.Data.List.Basic

/-!
# Lib.Run

Runs of a labelled transition system given by a partial step function `step : σ → ℓ → Option σ`. The
label carries every choice of the environment (which party moves, what it is given), so a state and
a label fix the next state, and `none` says that the label is not enabled.

* `Run step s ls t` — the labels `ls`, taken in order from `s`, lead to `t`.
* `exec`            — the executable form, used to evaluate concrete runs.
* `Always P s ls`   — `P` holds in every state the run passes through, both ends included.
* `Guarded ok s ls` — every step of the run is taken in a state where `ok` allows its label.
* `Along R s ls`    — `R` relates the states before and after every step.

`Run.invariant` is the invariance rule. `Run.always_iff_guarded` is its exact form for a property
that some steps break: when `ok` says of each step whether it keeps the property, the property holds
along a run exactly when every step of it is allowed; `Run.guarded_or` is for a property of the end
that a step may lose for good. `Run.length_add_le` bounds the length of every run by a measure;
`Run.restrict` leaves out the labels a run does not take.
-/

namespace Lts

universe u v

variable {σ : Type u} {ℓ : Type v} {step : σ → ℓ → Option σ}

inductive Run (step : σ → ℓ → Option σ) : σ → List ℓ → σ → Prop where
  | refl {s : σ} : Run step s [] s
  | cons {s s' t : σ} {l : ℓ} {ls : List ℓ} :
      step s l = some s' → Run step s' ls t → Run step s (l :: ls) t

/-- Take the labels in order; `none` when one of them is not enabled. -/
def exec (step : σ → ℓ → Option σ) : σ → List ℓ → Option σ
  | s, [] => some s
  | s, l :: ls =>
    match step s l with
    | some s' => exec step s' ls
    | none => none

theorem run_of_exec : ∀ {ls : List ℓ} {s t : σ}, exec step s ls = some t → Run step s ls t := by
  intro ls
  induction ls with
  | nil => intro s t h; simp only [exec, Option.some.injEq] at h; subst h; exact .refl
  | cons l ls ih =>
    intro s t h
    simp only [exec] at h
    cases hs : step s l with
    | none => rw [hs] at h; cases h
    | some s' => rw [hs] at h; exact .cons hs (ih h)

/-- A run whose end is known by what `f` says of it. -/
theorem run_of_exec_map {β : Type*} {f : σ → β} {s : σ} {ls : List ℓ} {b : β}
    (h : (exec step s ls).map f = some b) : ∃ t, Run step s ls t ∧ f t = b := by
  obtain ⟨t, ht, hf⟩ := Option.map_eq_some_iff.mp h
  exact ⟨t, run_of_exec ht, hf⟩

namespace Run

theorem single {s t : σ} {l : ℓ} (h : step s l = some t) : Run step s [l] t := .cons h .refl

theorem trans {s t r : σ} {ls ms : List ℓ} (h₁ : Run step s ls t) (h₂ : Run step t ms r) :
    Run step s (ls ++ ms) r := by
  induction h₁ with
  | refl => exact h₂
  | cons hs _ ih => exact .cons hs (ih h₂)

theorem exec_eq {s t : σ} {ls : List ℓ} (h : Run step s ls t) : exec step s ls = some t := by
  induction h with
  | refl => rfl
  | cons hst _ ih => simp only [exec, hst, ih]

theorem unique {s t t' : σ} {ls : List ℓ} (h : Run step s ls t) (h' : Run step s ls t') :
    t = t' := by
  induction h with
  | refl => cases h'; rfl
  | cons hst _ ih =>
    cases h' with
    | cons hst' hrest =>
      obtain rfl := Option.some.inj (hst.symm.trans hst')
      exact ih hrest

/-- What holds initially and is kept by every step holds at the end of every run. -/
theorem invariant {P : σ → Prop} (hstep : ∀ s l s', P s → step s l = some s' → P s')
    {s t : σ} {ls : List ℓ} (h : Run step s ls t) (hs : P s) : P t := by
  induction h with
  | refl => exact hs
  | cons hst _ ih => exact ih (hstep _ _ _ hs hst)

/-- If every step from an `I`-state lowers `μ`, but for the weight `w` of its label, no run is
longer than `μ` of its first state and the weights of its labels. -/
theorem length_add_le {I : σ → Prop} (μ : σ → Nat) (w : ℓ → Nat)
    (hI : ∀ s l s', I s → step s l = some s' → I s')
    (hμ : ∀ s l s', I s → step s l = some s' → μ s' < μ s + w l)
    {s t : σ} {ls : List ℓ} (h : Run step s ls t) (hs : I s) :
    ls.length + μ t ≤ μ s + (ls.map w).sum := by
  induction h with
  | refl => simp
  | cons hst _ ih =>
    have h₁ := hμ _ _ _ hs hst
    have h₂ := ih (hI _ _ _ hs hst)
    simp only [List.length_cons, List.map_cons, List.sum_cons]
    omega

theorem restrict {p : ℓ → Prop} [DecidablePred p] {s t : σ} {ls : List ℓ} (h : Run step s ls t)
    (hp : ∀ l ∈ ls, p l) : Run (fun s l => if p l then step s l else none) s ls t := by
  induction h with
  | refl => exact .refl
  | @cons s s' t l ls hst _ ih =>
    have hl : p l := hp l (List.mem_cons_self ..)
    exact .cons (by simpa only [hl, if_true] using hst)
      (ih fun l' hl' => hp l' (List.mem_cons_of_mem _ hl'))

end Run

def Always (step : σ → ℓ → Option σ) (P : σ → Prop) : σ → List ℓ → Prop
  | s, [] => P s
  | s, l :: ls => P s ∧ ∀ s', step s l = some s' → Always step P s' ls

def Guarded (step : σ → ℓ → Option σ) (ok : σ → ℓ → Prop) : σ → List ℓ → Prop
  | _, [] => True
  | s, l :: ls => ok s l ∧ ∀ s', step s l = some s' → Guarded step ok s' ls

/-- Every step of the run is related as `R` says. -/
def Along (step : σ → ℓ → Option σ) (R : σ → ℓ → σ → Prop) : σ → List ℓ → Prop
  | _, [] => True
  | s, l :: ls => ∀ s', step s l = some s' → R s l s' ∧ Along step R s' ls

theorem along_of_invariant {I : σ → Prop} {p : ℓ → Prop} {R : σ → ℓ → σ → Prop}
    (hstep : ∀ s l s', I s → p l → step s l = some s' → R s l s' ∧ I s') :
    ∀ {s : σ} {ls : List ℓ}, I s → (∀ l ∈ ls, p l) → Along step R s ls
  | _, [], _, _ => trivial
  | s, l :: _, hs, hls => fun s' hst => by
    obtain ⟨hR, hs'⟩ := hstep s l s' hs (hls l (List.mem_cons_self ..)) hst
    exact ⟨hR, along_of_invariant hstep hs' fun l' hl' => hls l' (List.mem_cons_of_mem l hl')⟩

theorem Guarded.along {I : σ → Prop} {ok : σ → ℓ → Prop} {R : σ → ℓ → σ → Prop}
    (hstep : ∀ s l s', I s → ok s l → step s l = some s' → R s l s' ∧ I s') :
    ∀ {s : σ} {ls : List ℓ}, I s → Guarded step ok s ls → Along step R s ls
  | _, [], _, _ => trivial
  | s, l :: _, hs, hg => fun s' hst => by
    obtain ⟨hR, hs'⟩ := hstep s l s' hs hg.1 hst
    exact ⟨hR, Guarded.along hstep hs' (hg.2 s' hst)⟩

theorem Guarded.of_forall {ok : σ → ℓ → Prop} (h : ∀ s l, ok s l) :
    ∀ (s : σ) (ls : List ℓ), Guarded step ok s ls
  | _, [] => trivial
  | s, l :: ls => ⟨h s l, fun s' _ => Guarded.of_forall h s' ls⟩

theorem Guarded.mono {ok ok' : σ → ℓ → Prop} (himp : ∀ s l, ok s l → ok' s l) :
    ∀ {s : σ} {ls : List ℓ}, Guarded step ok s ls → Guarded step ok' s ls
  | _, [], _ => trivial
  | _, _ :: _, h => ⟨himp _ _ h.1, fun s' hs => Guarded.mono himp (h.2 s' hs)⟩

theorem Guarded.and {ok ok' : σ → ℓ → Prop} :
    ∀ {s : σ} {ls : List ℓ}, Guarded step ok s ls → Guarded step ok' s ls →
      Guarded step (fun s l => ok s l ∧ ok' s l) s ls
  | _, [], _, _ => trivial
  | _, _ :: _, h, h' => ⟨⟨h.1, h'.1⟩, fun s' hst => Guarded.and (h.2 s' hst) (h'.2 s' hst)⟩

theorem Guarded.mono_of_invariant {I : σ → Prop} {ok ok' : σ → ℓ → Prop}
    (hI : ∀ s l s', I s → step s l = some s' → I s') (himp : ∀ s l, I s → ok s l → ok' s l) :
    ∀ {s : σ} {ls : List ℓ}, I s → Guarded step ok s ls → Guarded step ok' s ls
  | _, [], _, _ => trivial
  | _, _ :: _, hs, h =>
    ⟨himp _ _ hs h.1, fun s' hst => Guarded.mono_of_invariant hI himp
      (hI _ _ _ hs hst) (h.2 s' hst)⟩

/-- Concrete runs are checked by evaluation. -/
instance Guarded.decidable {ok : σ → ℓ → Prop} [∀ s l, Decidable (ok s l)] :
    ∀ s ls, Decidable (Guarded step ok s ls)
  | _, [] => .isTrue trivial
  | s, l :: ls =>
    match h : step s l with
    | none => decidable_of_iff (ok s l) (by simp [Guarded, h])
    | some s' =>
      have : Decidable (Guarded step ok s' ls) := Guarded.decidable s' ls
      decidable_of_iff (ok s l ∧ Guarded step ok s' ls) (by simp [Guarded, h])

/-- What gives `P` and is kept by the allowed steps: `P` holds throughout a guarded run. -/
theorem Guarded.always {I P : σ → Prop} {ok : σ → ℓ → Prop}
    (hkeep : ∀ s l s', I s → ok s l → step s l = some s' → I s') (hI : ∀ s, I s → P s) :
    ∀ {s : σ} {ls : List ℓ}, I s → Guarded step ok s ls → Always step P s ls
  | s, [], hs, _ => hI s hs
  | s, _ :: _, hs, hg =>
    ⟨hI s hs, fun s' hst => Guarded.always hkeep hI (hkeep _ _ _ hs hg.1 hst) (hg.2 s' hst)⟩

theorem Always.head {P : σ → Prop} {s : σ} {ls : List ℓ} (h : Always step P s ls) : P s := by
  cases ls with
  | nil => exact h
  | cons l ls => exact h.1

namespace Run

/-- A property kept by every allowed step holds at the end of every guarded run. -/
theorem invariant_of_guarded {P : σ → Prop} {ok : σ → ℓ → Prop}
    (hstep : ∀ s l s', P s → ok s l → step s l = some s' → P s')
    {s t : σ} {ls : List ℓ} (h : Run step s ls t) (hg : Guarded step ok s ls) (hs : P s) : P t := by
  induction h with
  | refl => exact hs
  | cons hst _ ih => exact ih (hg.2 _ hst) (hstep _ _ _ hs hg.1 hst)

/-- If the allowed steps keep `P`, and every other step leads from a `P`-state to a `Q`-state for
good, a run is guarded and ends in `P`, or it is not and ends in `Q`. -/
theorem guarded_or {P Q : σ → Prop} {ok : σ → ℓ → Prop}
    (hkeep : ∀ s l s', P s → ok s l → step s l = some s' → P s')
    (hbreak : ∀ s l s', P s → ¬ ok s l → step s l = some s' → Q s')
    (hstay : ∀ s l s', Q s → step s l = some s' → Q s')
    {s t : σ} {ls : List ℓ} (h : Run step s ls t) (hs : P s) :
    Guarded step ok s ls ∧ P t ∨ ¬ Guarded step ok s ls ∧ Q t := by
  induction h with
  | refl => exact .inl ⟨trivial, hs⟩
  | @cons s s' t l ls hst hrun ih =>
    simp only [Guarded, hst, Option.some.injEq, forall_eq']
    by_cases hok : ok s l
    · simpa [hok] using ih (hkeep _ _ _ hs hok hst)
    · exact .inr ⟨fun hg => hok hg.1, hrun.invariant hstay (hbreak _ _ _ hs hok hst)⟩

/-- `P` holds throughout a run exactly when every step of it is allowed, if the allowed steps keep
some `I` that gives `P`, and every other step from an `I`-state loses `P`. -/
theorem always_iff_guarded_of_strengthening {I P : σ → Prop} {ok : σ → ℓ → Prop}
    (hkeep : ∀ s l s', I s → ok s l → step s l = some s' → I s') (hI : ∀ s, I s → P s)
    (hneed : ∀ s l s', I s → step s l = some s' → P s' → ok s l)
    {s t : σ} {ls : List ℓ} (h : Run step s ls t) (hs : I s) :
    Always step P s ls ↔ Guarded step ok s ls := by
  induction h with
  | refl => simp [Always, Guarded, hI _ hs]
  | @cons s s' t l ls hst _ ih =>
    simp only [Always, Guarded, hI _ hs, hst, true_and, Option.some.injEq, forall_eq']
    constructor
    · intro ha
      have hok := hneed _ _ _ hs hst ha.head
      exact ⟨hok, (ih (hkeep _ _ _ hs hok hst)).mp ha⟩
    · rintro ⟨hok, hg⟩
      exact (ih (hkeep _ _ _ hs hok hst)).mpr hg

/-- Relative to an invariant `I`: a property that the allowed steps keep and no other step does. -/
theorem always_iff_guarded_of_invariant {I P : σ → Prop} {ok : σ → ℓ → Prop}
    (hI : ∀ s l s', I s → step s l = some s' → I s')
    (hstep : ∀ s l s', I s → P s → step s l = some s' → (P s' ↔ ok s l))
    {s t : σ} {ls : List ℓ} (h : Run step s ls t) (hi : I s) (hs : P s) :
    Always step P s ls ↔ Guarded step ok s ls :=
  h.always_iff_guarded_of_strengthening (I := fun s => I s ∧ P s)
    (fun _ _ _ hs hok hst => ⟨hI _ _ _ hs.1 hst, (hstep _ _ _ hs.1 hs.2 hst).mpr hok⟩)
    (fun _ hs => hs.2) (fun _ _ _ hs hst hp => (hstep _ _ _ hs.1 hs.2 hst).mp hp) ⟨hi, hs⟩

theorem always_iff_guarded {P : σ → Prop} {ok : σ → ℓ → Prop}
    (hstep : ∀ s l s', P s → step s l = some s' → (P s' ↔ ok s l))
    {s t : σ} {ls : List ℓ} (h : Run step s ls t) (hs : P s) :
    Always step P s ls ↔ Guarded step ok s ls :=
  h.always_iff_guarded_of_strengthening (fun _ _ _ hs hok hst => (hstep _ _ _ hs hst).mpr hok)
    (fun _ hs => hs) (fun _ _ _ hs hst hp => (hstep _ _ _ hs hst).mp hp) hs

/-- A relation that a step from an `I`-state with a label of `p` has exactly when it is allowed, and
that keeps `I`. -/
theorem along_iff_guarded {I : σ → Prop} {p : ℓ → Prop} {R : σ → ℓ → σ → Prop} {ok : σ → ℓ → Prop}
    (hstep : ∀ s l s', I s → p l → step s l = some s' → (R s l s' ↔ ok s l))
    (hI : ∀ s l s', I s → p l → step s l = some s' → R s l s' → I s')
    {s t : σ} {ls : List ℓ} (h : Run step s ls t) (hs : I s) (hls : ∀ l ∈ ls, p l) :
    Along step R s ls ↔ Guarded step ok s ls := by
  induction h with
  | refl => simp [Along, Guarded]
  | @cons s s' t l ls hst _ ih =>
    have hl := hls l (List.mem_cons_self ..)
    have hrest : ∀ m ∈ ls, p m := fun m hm => hls m (List.mem_cons_of_mem l hm)
    simp only [Along, Guarded, hst, Option.some.injEq, forall_eq']
    constructor
    · rintro ⟨hR, ha⟩
      exact ⟨(hstep _ _ _ hs hl hst).mp hR, (ih (hI _ _ _ hs hl hst hR) hrest).mp ha⟩
    · rintro ⟨hok, hg⟩
      have hR := (hstep _ _ _ hs hl hst).mpr hok
      exact ⟨hR, (ih (hI _ _ _ hs hl hst hR) hrest).mpr hg⟩

end Run

end Lts
