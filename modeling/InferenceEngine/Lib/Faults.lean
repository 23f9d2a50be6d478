import InferenceEngine.Lib.Prog

/-!
# Lib.Faults

Programs that act on a state through operations that may fail. A run is given the fate of each of
its calls: the operation is carried out, with an input of its own (the time, say), or it raises and
has no effect. A run whose fates are used up at a call is cut off there: the process has crashed.

* `runOn`: the state a run leaves, the fates it has not used, and its value, if it got that far.
* `Leads p s Post`: `Post` holds of the state and the value of every run of `p` from `s`.
* `Succeeds i p s`: the run in which every call is carried out returns.
* `leads_of_invariant`: what every call keeps, every run keeps.
* `applyAll_redo`: writes that commute and may be repeated can be started over after some of them.
-/

namespace Effect

inductive Fate (ι ε : Type) where
  | ok (i : ι)
  | raises (e : ε)
  deriving DecidableEq, Repr

/-- How a run ends; there is no value when it was cut off. -/
structure Ended (σ ι ε α : Type) where
  state : σ
  rest : List (Fate ι ε)
  value : Option (Except ε α)

namespace Prog

variable {Op : Type} {Res : Op → Type} {ε α β ι σ : Type}

def runOn (exec : ι → σ → (op : Op) → Except ε (Res op) × σ) :
    Prog Op Res ε α → List (Fate ι ε) → σ → Ended σ ι ε α
  | ret a, fs, s => ⟨s, fs, some (.ok a)⟩
  | raise e, fs, s => ⟨s, fs, some (.error e)⟩
  | perform _ _, [], s => ⟨s, [], none⟩
  | perform op k, .ok i :: fs, s => (k (exec i s op).1).runOn exec fs (exec i s op).2
  | perform _ k, .raises e :: fs, s => (k (.error e)).runOn exec fs s

variable {exec : ι → σ → (op : Op) → Except ε (Res op) × σ} {s : σ}

/-- `Post` holds of what every run of `p` from `s` leaves. -/
def Leads (exec : ι → σ → (op : Op) → Except ε (Res op) × σ) (p : Prog Op Res ε α) (s : σ)
    (Post : σ → Option (Except ε α) → Prop) : Prop :=
  ∀ fs, Post (p.runOn exec fs s).state (p.runOn exec fs s).value

variable {Post : σ → Option (Except ε α) → Prop}

theorem leads_ret {a : α} (h : Post s (some (.ok a))) :
    (ret a : Prog Op Res ε α).Leads exec s Post :=
  fun _ => h

theorem leads_raise {e : ε} (h : Post s (some (.error e))) :
    (raise e : Prog Op Res ε α).Leads exec s Post := fun _ => h

theorem leads_call {op : Op} {f : Res op → Prog Op Res ε α} (hcut : Post s none)
    (hraise : ∀ e, Post s (some (.error e)))
    (hok : ∀ i a s', exec i s op = (.ok a, s') → (f a).Leads exec s' Post)
    (herr : ∀ i e s', exec i s op = (.error e, s') → Post s' (some (.error e))) :
    ((call op).bind f).Leads exec s Post := by
  intro fs
  cases fs with
  | nil => exact hcut
  | cons fate fs =>
    cases fate with
    | raises e => exact hraise e
    | ok i =>
      cases hx : exec i s op with
      | mk r s' =>
        cases r with
        | error e =>
          simp only [call, Prog.bind, runOn, hx]
          exact herr i e s' hx
        | ok a =>
          simp only [call, Prog.bind, runOn, hx]
          exact hok i a s' hx fs

theorem leads_ofExcept {x : Except ε β} {f : β → Prog Op Res ε α}
    (herr : ∀ e, Post s (some (.error e))) (hok : ∀ b, x = .ok b → (f b).Leads exec s Post) :
    ((ofExcept x).bind f).Leads exec s Post := by
  cases x with
  | error e => exact leads_raise (herr e)
  | ok b => exact hok b rfl

theorem Leads.mono {Post' : σ → Option (Except ε α) → Prop} {p : Prog Op Res ε α}
    (h : p.Leads exec s Post) (himp : ∀ s v, Post s v → Post' s v) : p.Leads exec s Post' :=
  fun fs => himp _ _ (h fs)

/-- The run in which every call is carried out, with the input `i`, returns. -/
def Succeeds (exec : ι → σ → (op : Op) → Except ε (Res op) × σ) (i : ι) (p : Prog Op Res ε α)
    (s : σ) : Prop :=
  ∃ n, ∀ m, n ≤ m → ∃ a, (p.runOn exec (List.replicate m (.ok i)) s).value = some (.ok a)

variable {i : ι}

theorem succeeds_ret (a : α) : (ret a : Prog Op Res ε α).Succeeds exec i s :=
  ⟨0, fun _ _ => ⟨a, rfl⟩⟩

theorem succeeds_call {op : Op} {f : Res op → Prog Op Res ε α} {x : Res op} {s' : σ}
    (h : exec i s op = (.ok x, s')) (hf : (f x).Succeeds exec i s') :
    ((call op).bind f).Succeeds exec i s := by
  obtain ⟨n, hn⟩ := hf
  refine ⟨n + 1, fun m hm => ?_⟩
  obtain ⟨m, rfl⟩ : ∃ k, m = k + 1 := ⟨m - 1, by omega⟩
  obtain ⟨a, ha⟩ := hn m (by omega)
  refine ⟨a, ?_⟩
  simp only [List.replicate_succ, call, Prog.bind, runOn, h]
  exact ha

theorem succeeds_ofExcept {x : Except ε β} {f : β → Prog Op Res ε α} {b : β} (h : x = .ok b)
    (hf : (f b).Succeeds exec i s) : ((ofExcept x).bind f).Succeeds exec i s := by
  subst h
  exact hf

theorem leads_of_invariant {P : σ → Prop} (hexec : ∀ i s op, P s → P (exec i s op).2)
    (p : Prog Op Res ε α) (hs : P s) : p.Leads exec s fun s' _ => P s' := by
  intro fs
  induction p generalizing s fs with
  | ret a => exact hs
  | raise e => exact hs
  | perform op k ih =>
    cases fs with
    | nil => exact hs
    | cons fate fs =>
      cases fate with
      | raises e => exact ih _ hs fs
      | ok i => exact ih _ (hexec i s op hs) fs

end Prog

/-! ## Redoing -/

/-- Carry out writes in their order. -/
def applyAll {σ : Type} (ws : List (σ → σ)) (s : σ) : σ := ws.foldl (fun s w => w s) s

section Redo

variable {σ : Type} {w : σ → σ} {ws : List (σ → σ)}

@[simp] theorem applyAll_cons (w : σ → σ) (ws : List (σ → σ)) (s : σ) :
    applyAll (w :: ws) s = applyAll ws (w s) := rfl

theorem applyAll_append (ws vs : List (σ → σ)) (s : σ) :
    applyAll (ws ++ vs) s = applyAll vs (applyAll ws s) := List.foldl_append ..

theorem applyAll_comm (h : ∀ v ∈ ws, ∀ s, w (v s) = v (w s)) (s : σ) :
    w (applyAll ws s) = applyAll ws (w s) := by
  induction ws generalizing s with
  | nil => rfl
  | cons v ws ih =>
    rw [applyAll_cons, applyAll_cons, ih (fun u hu => h u (List.mem_cons_of_mem v hu)),
      h v (List.mem_cons_self ..)]

/-- A write that is among those made changes nothing any more. -/
theorem applyAll_absorb (hidem : ∀ w ∈ ws, ∀ s, w (w s) = w s)
    (hcomm : ws.Pairwise fun w v => ∀ s, w (v s) = v (w s)) (hw : w ∈ ws) (s : σ) :
    w (applyAll ws s) = applyAll ws s := by
  induction ws generalizing s with
  | nil => cases hw
  | cons v ws ih =>
    have hc := List.pairwise_cons.mp hcomm
    rw [applyAll_cons]
    rcases List.mem_cons.mp hw with rfl | hw
    · rw [applyAll_comm hc.1, hidem w (List.mem_cons_self ..)]
    · exact ih (fun u hu => hidem u (List.mem_cons_of_mem v hu)) hc.2 hw (v s)

/-- Writes that commute and may be repeated: starting over after some of them comes to the same as
doing them all once. -/
theorem applyAll_redo {done rest : List (σ → σ)} (hidem : ∀ w ∈ done, ∀ s, w (w s) = w s)
    (hcomm : done.Pairwise fun w v => ∀ s, w (v s) = v (w s)) (s : σ) :
    applyAll (done ++ rest) (applyAll done s) = applyAll (done ++ rest) s := by
  induction done generalizing s with
  | nil => rfl
  | cons w done ih =>
    have hc := List.pairwise_cons.mp hcomm
    have hw : w (applyAll done (w s)) = applyAll done (w s) := by
      rw [applyAll_comm hc.1, hidem w (List.mem_cons_self ..)]
    rw [List.cons_append, applyAll_cons, applyAll_cons, applyAll_cons, hw]
    exact ih (fun v hv => hidem v (List.mem_cons_of_mem w hv)) hc.2 (w s)

end Redo

end Effect
