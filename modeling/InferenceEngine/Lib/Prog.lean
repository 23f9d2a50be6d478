import Mathlib.Algebra.BigOperators.Group.List.Basic
import Mathlib.Algebra.Ring.Int.Defs

/-!
# Lib.Prog

Programs with effects and exceptions, as trees of operations. The environment answers every
operation with a value or with an exception that is raised there, and may look at everything that
happened before, so a property of all its answers is one of all interleavings, failures and
cancellations.

* `attempt`, `tryFinally`: what `try` does, however the body ends.
* `relay`: a generator that hands the yields of another one on. An exception thrown in at its yield
  leaves the inner generator suspended there.
* `Weighs w p n`: on every path of `p` the weights of the events add up to `n`. Its rules follow the
  combinators, so that the sum is read off the text of a program; `Weighs.run` is what it says.
* `Safe ok Q R`: on every path with answers that `ok` allows, every operation satisfies `Q` and the
  value that is returned `R`, with the same kind of rules.
* `Returns`, `Performs`: what happens in one environment.
* `Path p tr r`: the events `tr` are a way through `p` that ends so. One inversion for each
  combinator splits it at the joints of the program.
* `Shows`: what can be seen of the paths with answers that `ok` allows, when that is always the
  same.
* `Obeys ok δ R E q p`: an automaton `δ` follows every path of `p` from the state `q`, as long as
  `ok` allows the answers, and the program returns in a state with `R` and raises in one with `E`.
-/

namespace Effect

inductive Prog (Op : Type) (Res : Op → Type) (ε α : Type) where
  | ret (a : α)
  | raise (e : ε)
  | perform (op : Op) (k : Except ε (Res op) → Prog Op Res ε α)

/-- An operation and its answer. -/
abbrev Event (Op : Type) (Res : Op → Type) (ε : Type) := (op : Op) × Except ε (Res op)

/-- The answer to an operation, after the events before it. -/
abbrev Env (Op : Type) (Res : Op → Type) (ε : Type) :=
  List (Event Op Res ε) → (op : Op) → Except ε (Res op)

namespace Prog

variable {Op : Type} {Res : Op → Type} {ε α β : Type}

def bind : Prog Op Res ε α → (α → Prog Op Res ε β) → Prog Op Res ε β
  | ret a, f => f a
  | raise e, _ => raise e
  | perform op k, f => perform op fun r => (k r).bind f

instance : Monad (Prog Op Res ε) where
  pure := ret
  bind := bind

/-- Perform an operation; its exception is raised. -/
def call (op : Op) : Prog Op Res ε (Res op) :=
  perform op fun
    | .ok a => ret a
    | .error e => raise e

def ofExcept : Except ε α → Prog Op Res ε α
  | .ok a => ret a
  | .error e => raise e

/-- Run to the end, however it ends. -/
def attempt : Prog Op Res ε α → Prog Op Res ε (Except ε α)
  | ret a => ret (.ok a)
  | raise e => ret (.error e)
  | perform op k => perform op fun r => (k r).attempt

/-- `try: p finally: f`. -/
def tryFinally (p : Prog Op Res ε α) (f : Prog Op Res ε β) : Prog Op Res ε α := do
  let r ← p.attempt
  let _ ← f
  ofExcept r

/-- How a generator that relays another one gets to the end of its loop: the inner one has ended, or
an exception was thrown in at a yield and has left the inner one suspended there. -/
inductive Relayed (Op : Type) (Res : Op → Type) (ε α : Type) where
  | ended (r : Except ε α)
  | thrown (e : ε) (rest : ε → Prog Op Res ε α)

/-- `async for x in inner: yield x`. -/
def relay (isYield : Op → Bool) : Prog Op Res ε α → Prog Op Res ε (Relayed Op Res ε α)
  | ret a => ret (.ended (.ok a))
  | raise e => ret (.ended (.error e))
  | perform op k => perform op fun r =>
    match r with
    | .ok a => (k (.ok a)).relay isYield
    | .error e =>
      if isYield op then ret (.thrown e fun e' => k (.error e')) else (k (.error e)).relay isYield

/-- The events of a run, and its end. -/
def run (env : Env Op Res ε) (past : List (Event Op Res ε)) :
    Prog Op Res ε α → List (Event Op Res ε) × Except ε α
  | ret a => ([], .ok a)
  | raise e => ([], .error e)
  | perform op k =>
    let ev : Event Op Res ε := ⟨op, env past op⟩
    let rest := (k ev.2).run env (past ++ [ev])
    (ev :: rest.1, rest.2)

@[simp] theorem bind_eq (p : Prog Op Res ε α) (f : α → Prog Op Res ε β) : p >>= f = p.bind f := rfl

theorem bind_assoc {γ : Type} (p : Prog Op Res ε α) (f : α → Prog Op Res ε β)
    (g : β → Prog Op Res ε γ) : (p.bind f).bind g = p.bind fun a => (f a).bind g := by
  induction p with
  | ret a => rfl
  | raise e => rfl
  | perform op k ih =>
    simp only [bind, perform.injEq, heq_eq_eq, true_and]
    funext r
    exact ih r

/-- On every path of `p` the weights of the events add up to `n`. -/
def Weighs (w : Event Op Res ε → ℤ) : Prog Op Res ε α → ℤ → Prop
  | ret _, n => n = 0
  | raise _, n => n = 0
  | perform op k, n => ∀ r, (k r).Weighs w (n - w ⟨op, r⟩)

variable {w : Event Op Res ε → ℤ} {n m : ℤ} {p : Prog Op Res ε α} {f : α → Prog Op Res ε β}

theorem Weighs.run (h : p.Weighs w n) (env : Env Op Res ε) (past : List (Event Op Res ε)) :
    ((p.run env past).1.map w).sum = n := by
  induction p generalizing n past with
  | ret a => exact h.symm
  | raise e => exact h.symm
  | perform op k ih =>
    simp only [Prog.run, List.map_cons, List.sum_cons, ih _ (h (env past op))]
    omega

theorem weighs_raise (e : ε) : (raise e : Prog Op Res ε α).Weighs w 0 := rfl

theorem weighs_ofExcept (r : Except ε α) : (ofExcept r : Prog Op Res ε α).Weighs w 0 := by
  cases r <;> rfl

theorem weighs_call {op : Op} (h : ∀ r, w ⟨op, r⟩ = n) :
    (call op : Prog Op Res ε (Res op)).Weighs w n := by
  intro r
  rw [h, Int.sub_self]
  cases r <;> rfl

theorem Weighs.bind (h : p.Weighs w n) (hf : ∀ a, (f a).Weighs w 0) : (p.bind f).Weighs w n := by
  induction p generalizing n with
  | ret a => cases h; exact hf a
  | raise e => exact h
  | perform op k ih => exact fun r => ih r (h r)

/-- What follows an `attempt` runs. -/
theorem Weighs.attempt_bind {g : Except ε α → Prog Op Res ε β} (h : p.Weighs w n)
    (hg : ∀ r, (g r).Weighs w m) : (p.attempt.bind g).Weighs w (n + m) := by
  induction p generalizing n with
  | ret a => cases h; rw [Int.zero_add]; exact hg (.ok a)
  | raise e => cases h; rw [Int.zero_add]; exact hg (.error e)
  | perform op k ih =>
    intro r
    have := ih r (h r)
    rwa [show n - w ⟨op, r⟩ + m = n + m - w ⟨op, r⟩ by omega] at this

theorem Weighs.tryFinally {f : Prog Op Res ε β} (h : p.Weighs w n) (hf : f.Weighs w m) :
    (p.tryFinally f).Weighs w (n + m) :=
  h.attempt_bind fun r => hf.bind fun _ => weighs_ofExcept r

/-- What is left of a relayed generator makes up the sum, if it is resumed with an exception. -/
theorem Weighs.relay_bind {isYield : Op → Bool} {g : Relayed Op Res ε α → Prog Op Res ε β}
    (hw : ∀ op r, isYield op = true → w ⟨op, r⟩ = 0) (hended : ∀ r, (g (.ended r)).Weighs w 0)
    (hthrown : ∀ e rest m, (∀ e', (rest e').Weighs w m) → (g (.thrown e rest)).Weighs w m)
    (h : p.Weighs w n) : ((p.relay isYield).bind g).Weighs w n := by
  induction p generalizing n with
  | ret a => cases h; exact hended _
  | raise e => cases h; exact hended _
  | perform op k ih =>
    simp only [relay, Prog.bind, Weighs]
    intro r
    cases r with
    | ok a => exact ih _ (h _)
    | error e =>
      simp only
      split
      · -- the inner generator is left suspended at its yield, and the exception it gets is another
        rename_i hy
        refine hthrown e _ _ fun e' => ?_
        have := h (.error e')
        rwa [hw op _ hy] at this ⊢
      · exact ih _ (h _)

/-! ## What a program does on every path -/

/-- On every path whose answers `ok` allows, the operations satisfy `Q` and the value returned
`R`. -/
def Safe (ok : Event Op Res ε → Prop) (Q : Op → Prop) (R : α → Prop) : Prog Op Res ε α → Prop
  | ret a => R a
  | raise _ => True
  | perform op k => Q op ∧ ∀ r, ok ⟨op, r⟩ → (k r).Safe ok Q R

variable {ok : Event Op Res ε → Prop} {Q : Op → Prop} {R : α → Prop} {R' : β → Prop}

theorem Safe.run (h : p.Safe ok Q R) {env : Env Op Res ε} (henv : ∀ past op, ok ⟨op, env past op⟩)
    (past : List (Event Op Res ε)) :
    (∀ ev ∈ (p.run env past).1, Q ev.1) ∧ ∀ a, (p.run env past).2 = .ok a → R a := by
  induction p generalizing past with
  | ret a =>
    refine ⟨by simp [Prog.run], fun b hb => ?_⟩
    cases hb
    exact h
  | raise e => exact ⟨by simp [Prog.run], fun b hb => by cases hb⟩
  | perform op k ih =>
    obtain ⟨hev, hret⟩ := ih _ (h.2 _ (henv past op)) (past ++ [⟨op, env past op⟩])
    exact ⟨List.forall_mem_cons.mpr ⟨h.1, hev⟩, hret⟩

theorem Safe.bind (h : p.Safe ok Q R) (hf : ∀ a, R a → (f a).Safe ok Q R') :
    (p.bind f).Safe ok Q R' := by
  induction p with
  | ret a => exact hf a h
  | raise e => trivial
  | perform op k ih => exact ⟨h.1, fun r hr => ih r (h.2 r hr)⟩

theorem Safe.attempt (h : p.Safe ok Q R) : p.attempt.Safe ok Q fun r => ∀ a, r = .ok a → R a := by
  induction p with
  | ret a =>
    intro b hb
    cases hb
    exact h
  | raise e =>
    intro b hb
    cases hb
  | perform op k ih => exact ⟨h.1, fun r hr => ih r (h.2 r hr)⟩

theorem safe_raise (e : ε) : (raise e : Prog Op Res ε α).Safe ok Q R := trivial

theorem safe_call {op : Op} {R : Res op → Prop} (hQ : Q op) (hR : ∀ a, ok ⟨op, .ok a⟩ → R a) :
    (call op : Prog Op Res ε (Res op)).Safe ok Q R := by
  refine ⟨hQ, fun r hr => ?_⟩
  cases r with
  | ok a => exact hR a hr
  | error e => trivial

theorem safe_ofExcept {r : Except ε α} (h : ∀ a, r = .ok a → R a) :
    (ofExcept r : Prog Op Res ε α).Safe ok Q R := by
  cases r with
  | ok a => exact h a rfl
  | error e => trivial

theorem Safe.tryFinally {f : Prog Op Res ε β} (h : p.Safe ok Q R) (hf : f.Safe ok Q fun _ => True) :
    (p.tryFinally f).Safe ok Q R :=
  h.attempt.bind fun _ hr => hf.bind fun _ _ => safe_ofExcept hr

/-- What is left of a relayed generator stays safe. -/
theorem Safe.relay {isYield : Op → Bool} (h : p.Safe ok Q R)
    (hok : ∀ op e, isYield op = true → ok ⟨op, .error e⟩) :
    (p.relay isYield).Safe ok Q fun
      | .ended r => ∀ a, r = .ok a → R a
      | .thrown _ rest => ∀ e, (rest e).Safe ok Q R := by
  induction p with
  | ret a =>
    intro b hb
    cases hb
    exact h
  | raise e =>
    intro b hb
    cases hb
  | perform op k ih =>
    simp only [Prog.relay, Safe]
    refine ⟨h.1, fun r hr => ?_⟩
    cases r with
    | ok a => exact ih _ (h.2 _ hr)
    | error e =>
      simp only
      split
      · rename_i hy
        exact fun e' => h.2 _ (hok op e' hy)
      · exact ih _ (h.2 _ hr)

/-! ## What a program does in one environment -/

theorem run_bind (env : Env Op Res ε) (past : List (Event Op Res ε)) :
    (p.bind f).run env past =
      match (p.run env past).2 with
      | .ok a =>
        let rest := (f a).run env (past ++ (p.run env past).1)
        ((p.run env past).1 ++ rest.1, rest.2)
      | .error e => ((p.run env past).1, .error e) := by
  induction p generalizing past with
  | ret a => simp [Prog.bind, Prog.run]
  | raise e => rfl
  | perform op k ih =>
    simp only [Prog.bind, Prog.run, ih]
    split <;> simp

theorem run_attempt (env : Env Op Res ε) (past : List (Event Op Res ε)) :
    p.attempt.run env past = ((p.run env past).1, .ok (p.run env past).2) := by
  induction p generalizing past with
  | ret a => rfl
  | raise e => rfl
  | perform op k ih => simp only [Prog.attempt, Prog.run, ih]

/-- In this environment the program returns `a`, whatever happened before. -/
def Returns (env : Env Op Res ε) (p : Prog Op Res ε α) (a : α) : Prop :=
  ∀ past, (p.run env past).2 = .ok a

/-- In this environment the program performs `op`, whatever happened before. -/
def Performs (env : Env Op Res ε) (p : Prog Op Res ε α) (op : Op) : Prop :=
  ∀ past, ∃ ev ∈ (p.run env past).1, ev.1 = op

variable {env : Env Op Res ε} {a : α} {b : β} {op : Op}

theorem returns_call {x : Res op} (h : ∀ past, env past op = .ok x) : (call op).Returns env x := by
  intro past
  simp [call, Prog.run, h]

theorem performs_call : (call op : Prog Op Res ε (Res op)).Performs env op := by
  intro past
  exact ⟨_, List.mem_cons_self .., rfl⟩

theorem Returns.bind (h : p.Returns env a) (hf : (f a).Returns env b) :
    (p.bind f).Returns env b := by
  intro past
  rw [run_bind, h past]
  exact hf _

theorem Returns.attempt (h : p.Returns env a) : p.attempt.Returns env (.ok a) := by
  intro past
  rw [run_attempt, h past]

theorem Performs.bind (h : p.Performs env op) : (p.bind f).Performs env op := by
  intro past
  obtain ⟨ev, hev, hop⟩ := h past
  rw [run_bind]
  split
  · exact ⟨ev, List.mem_append_left _ hev, hop⟩
  · exact ⟨ev, hev, hop⟩

theorem Performs.attempt (h : p.Performs env op) : p.attempt.Performs env op := by
  intro past
  rw [run_attempt]
  exact h past

theorem Returns.performs_bind (h : p.Returns env a) (hf : (f a).Performs env op) :
    (p.bind f).Performs env op := by
  intro past
  obtain ⟨ev, hev, hop⟩ := hf (past ++ (p.run env past).1)
  rw [run_bind, h past]
  exact ⟨ev, List.mem_append_right _ hev, hop⟩

/-! ## The ways through a program -/

inductive Path : Prog Op Res ε α → List (Event Op Res ε) → Except ε α → Prop where
  | ret (a : α) : Path (ret a) [] (.ok a)
  | raise (e : ε) : Path (raise e) [] (.error e)
  | perform {op : Op} {k : Except ε (Res op) → Prog Op Res ε α} (x : Except ε (Res op))
      {tr : List (Event Op Res ε)} {r : Except ε α} (h : Path (k x) tr r) :
      Path (perform op k) (⟨op, x⟩ :: tr) r

theorem run_path (env : Env Op Res ε) (past : List (Event Op Res ε)) (p : Prog Op Res ε α) :
    p.Path (p.run env past).1 (p.run env past).2 := by
  induction p generalizing past with
  | ret a => exact .ret a
  | raise e => exact .raise e
  | perform op k ih => exact .perform _ (ih _ _)

theorem run_append_cons {env : Env Op Res ε} {past a b : List (Event Op Res ε)}
    {p : Prog Op Res ε α} {ev : Event Op Res ε} (h : (p.run env past).1 = a ++ ev :: b) :
    ev.2 = env (past ++ a) ev.1 := by
  induction p generalizing past a with
  | ret x => cases a <;> cases h
  | raise e => cases a <;> cases h
  | perform op k ih =>
    cases a with
    | nil =>
      rw [List.append_nil, ← (List.cons.inj h).1]
    | cons ev' a =>
      obtain ⟨hev, hrest⟩ := List.cons.inj h
      have hev : ⟨op, env past op⟩ = ev' := hev
      rw [ih _ hrest, List.append_assoc, List.singleton_append, hev]

variable {tr : List (Event Op Res ε)} {r : Except ε α}

theorem Path.call_inv {r : Except ε (Res op)} (h : (call op : Prog Op Res ε (Res op)).Path tr r) :
    tr = [⟨op, r⟩] := by
  cases h with
  | perform x h =>
    cases x with
    | ok a =>
      cases h
      rfl
    | error e =>
      cases h
      rfl

theorem Path.bind_inv {r : Except ε β} (h : (p.bind f).Path tr r) :
    (∃ a tr₁ tr₂, tr = tr₁ ++ tr₂ ∧ p.Path tr₁ (.ok a) ∧ (f a).Path tr₂ r) ∨
      ∃ e, r = .error e ∧ p.Path tr (.error e) := by
  induction p generalizing tr with
  | ret a => exact .inl ⟨a, [], tr, rfl, .ret a, h⟩
  | raise e =>
    cases h
    exact .inr ⟨e, rfl, .raise e⟩
  | perform op k ih =>
    cases h with
    | perform x h =>
      rcases ih x h with ⟨a, tr₁, tr₂, rfl, hp, hf⟩ | ⟨e, rfl, hp⟩
      · exact .inl ⟨a, _, tr₂, rfl, .perform x hp, hf⟩
      · exact .inr ⟨e, rfl, .perform x hp⟩

theorem Path.attempt_inv {r : Except ε (Except ε α)} (h : p.attempt.Path tr r) :
    ∃ r', r = .ok r' ∧ p.Path tr r' := by
  induction p generalizing tr with
  | ret a =>
    cases h
    exact ⟨.ok a, rfl, .ret a⟩
  | raise e =>
    cases h
    exact ⟨.error e, rfl, .raise e⟩
  | perform op k ih =>
    cases h with
    | perform x h =>
      obtain ⟨r', rfl, hp⟩ := ih x h
      exact ⟨r', rfl, .perform x hp⟩

/-- What follows an `attempt` is run. -/
theorem Path.attempt_bind_inv {g : Except ε α → Prog Op Res ε β} {r : Except ε β}
    (h : (p.attempt.bind g).Path tr r) :
    ∃ r' tr₁ tr₂, tr = tr₁ ++ tr₂ ∧ p.Path tr₁ r' ∧ (g r').Path tr₂ r := by
  rcases h.bind_inv with ⟨a, tr₁, tr₂, htr, hp, hg⟩ | ⟨e, -, hp⟩
  · obtain ⟨r', hr', hp⟩ := hp.attempt_inv
    cases hr'
    exact ⟨_, tr₁, tr₂, htr, hp, hg⟩
  · obtain ⟨r', hr', -⟩ := hp.attempt_inv
    cases hr'

/-! ## What can be seen -/

section Shown

variable {γ : Type} {out : Event Op Res ε → Option γ} {cs cs' : List γ} {x : Except ε β}

/-- On every path whose answers `ok` allows, `out` shows `cs`, and the end is `r`. -/
def Shows (ok : Event Op Res ε → Prop) (out : Event Op Res ε → Option γ) (p : Prog Op Res ε α)
    (cs : List γ) (r : Except ε α) : Prop :=
  ∀ tr r', p.Path tr r' → (∀ ev ∈ tr, ok ev) → tr.filterMap out = cs ∧ r' = r

theorem Shows.run (h : p.Shows ok out cs r) {env : Env Op Res ε}
    (henv : ∀ past op, ok ⟨op, env past op⟩) (past : List (Event Op Res ε)) :
    (p.run env past).1.filterMap out = cs ∧ (p.run env past).2 = r := by
  refine h _ _ (run_path env past p) fun ev hev => ?_
  obtain ⟨a, b, hsplit⟩ := List.append_of_mem hev
  have hanswer := run_append_cons hsplit
  have hok := henv (past ++ a) ev.1
  rw [← hanswer] at hok
  exact hok

theorem shows_ret (a : α) : (ret a : Prog Op Res ε α).Shows ok out [] (.ok a) := by
  intro tr r' hpath _
  cases hpath
  exact ⟨rfl, rfl⟩

theorem shows_raise (e : ε) : (raise e : Prog Op Res ε α).Shows ok out [] (.error e) := by
  intro tr r' hpath _
  cases hpath
  exact ⟨rfl, rfl⟩

theorem shows_call {y : Except ε (Res op)} (h : ∀ r, ok ⟨op, r⟩ → (out ⟨op, r⟩).toList = cs ∧
    r = y) : (call op : Prog Op Res ε (Res op)).Shows ok out cs y := by
  intro tr r' hpath hok
  rw [hpath.call_inv] at hok ⊢
  obtain ⟨hcs, hy⟩ := h r' (hok _ (List.mem_singleton_self _))
  refine ⟨?_, hy⟩
  rw [← hcs]
  cases hout : out ⟨op, r'⟩ with
  | none => rw [List.filterMap_cons_none hout]; rfl
  | some c => rw [List.filterMap_cons_some hout]; rfl

theorem Shows.bind (h : p.Shows ok out cs (.ok a)) (hf : (f a).Shows ok out cs' x) :
    (p.bind f).Shows ok out (cs ++ cs') x := by
  intro tr r' hpath hok
  rcases hpath.bind_inv with ⟨a', tr₁, tr₂, rfl, hp, hrest⟩ | ⟨e, rfl, hp⟩
  · obtain ⟨hcs, ha⟩ := h tr₁ _ hp fun ev hev => hok ev (List.mem_append_left _ hev)
    cases ha
    obtain ⟨hcs', hr⟩ := hf tr₂ _ hrest fun ev hev => hok ev (List.mem_append_right _ hev)
    exact ⟨by rw [List.filterMap_append, hcs, hcs'], hr⟩
  · obtain ⟨-, ha⟩ := h tr _ hp hok
    cases ha

theorem Shows.attempt_bind {g : Except ε α → Prog Op Res ε β} (h : p.Shows ok out cs r)
    (hg : (g r).Shows ok out cs' x) : (p.attempt.bind g).Shows ok out (cs ++ cs') x := by
  intro tr r' hpath hok
  obtain ⟨r₁, tr₁, tr₂, rfl, hp, hrest⟩ := hpath.attempt_bind_inv
  obtain ⟨hcs, hr⟩ := h tr₁ _ hp fun ev hev => hok ev (List.mem_append_left _ hev)
  subst hr
  obtain ⟨hcs', hx⟩ := hg tr₂ _ hrest fun ev hev => hok ev (List.mem_append_right _ hev)
  exact ⟨by rw [List.filterMap_append, hcs, hcs'], hx⟩

theorem shows_ofExcept (r : Except ε α) : (ofExcept r : Prog Op Res ε α).Shows ok out [] r := by
  cases r with
  | ok a => exact shows_ret a
  | error e => exact shows_raise e

theorem Shows.tryFinally {g : Prog Op Res ε β} {b : β} (h : p.Shows ok out cs r)
    (hg : g.Shows ok out cs' (.ok b)) : (p.tryFinally g).Shows ok out (cs ++ cs') r := by
  refine h.attempt_bind ?_
  have hrest := hg.bind (f := fun _ => ofExcept r) (shows_ofExcept r)
  rwa [List.append_nil] at hrest

end Shown

/-! ## Programs that an automaton follows -/

section Automaton

variable {σ : Type} {δ : σ → Event Op Res ε → Option σ} {ok : σ → Event Op Res ε → Prop}

/-- From the state `q`, on every path whose answers `ok` allows. -/
def Obeys (ok : σ → Event Op Res ε → Prop) (δ : σ → Event Op Res ε → Option σ) (R : σ → α → Prop)
    (E : σ → ε → Prop) : σ → Prog Op Res ε α → Prop
  | q, ret a => R q a
  | q, raise e => E q e
  | q, perform op k => ∀ x, ok q ⟨op, x⟩ → ∃ q', δ q ⟨op, x⟩ = some q' ∧ (k x).Obeys ok δ R E q'

variable {q : σ} {R : σ → α → Prop} {R' : σ → β → Prop} {E E' : σ → ε → Prop}

theorem Obeys.run (h : p.Obeys ok δ R E q) {env : Env Op Res ε} {past : List (Event Op Res ε)}
    (hok : ∀ a ev b q', (p.run env past).1 = a ++ ev :: b → a.foldlM δ q = some q' → ok q' ev) :
    ∃ q', (p.run env past).1.foldlM δ q = some q' ∧
      match (p.run env past).2 with
      | .ok a => R q' a
      | .error e => E q' e := by
  induction p generalizing q past with
  | ret a => exact ⟨q, rfl, h⟩
  | raise e => exact ⟨q, rfl, h⟩
  | perform op k ih =>
    obtain ⟨q₁, hstep, hrest⟩ := h _ (hok [] ⟨op, env past op⟩ _ q rfl rfl)
    obtain ⟨q', hfold, hend⟩ := ih _ hrest fun a ev b q' hsplit hq' => by
      refine hok (⟨op, env past op⟩ :: a) ev b q' ?_ ?_
      · exact congrArg (List.cons _) hsplit
      · rw [List.foldlM_cons, hstep]
        exact hq'
    refine ⟨q', ?_, hend⟩
    rw [Prog.run, List.foldlM_cons, hstep]
    exact hfold

theorem Obeys.mono {R₁ : σ → α → Prop} (h : p.Obeys ok δ R E q) (hR : ∀ q a, R q a → R₁ q a)
    (hE : ∀ q e, E q e → E' q e) : p.Obeys ok δ R₁ E' q := by
  induction p generalizing q with
  | ret a => exact hR q a h
  | raise e => exact hE q e h
  | perform op k ih =>
    intro x hx
    obtain ⟨q', hstep, hrest⟩ := h x hx
    exact ⟨q', hstep, ih x hrest⟩

theorem obeys_call {R : σ → Res op → Prop}
    (h : ∀ x, ok q ⟨op, x⟩ → ∃ q', δ q ⟨op, x⟩ = some q' ∧
      match x with
      | .ok a => R q' a
      | .error e => E q' e) :
    (call op : Prog Op Res ε (Res op)).Obeys ok δ R E q := by
  intro x hx
  obtain ⟨q', hstep, hend⟩ := h x hx
  refine ⟨q', hstep, ?_⟩
  cases x with
  | ok a => exact hend
  | error e => exact hend

theorem Obeys.bind (h : p.Obeys ok δ R E q) (hf : ∀ q a, R q a → (f a).Obeys ok δ R' E q) :
    (p.bind f).Obeys ok δ R' E q := by
  induction p generalizing q with
  | ret a => exact hf q a h
  | raise e => exact h
  | perform op k ih =>
    intro x hx
    obtain ⟨q', hstep, hrest⟩ := h x hx
    exact ⟨q', hstep, ih x hrest⟩

theorem Obeys.attempt_bind {g : Except ε α → Prog Op Res ε β} (h : p.Obeys ok δ R E q)
    (hok : ∀ q a, R q a → (g (.ok a)).Obeys ok δ R' E' q)
    (herror : ∀ q e, E q e → (g (.error e)).Obeys ok δ R' E' q) :
    (p.attempt.bind g).Obeys ok δ R' E' q := by
  induction p generalizing q with
  | ret a => exact hok q a h
  | raise e => exact herror q e h
  | perform op k ih =>
    intro x hx
    obtain ⟨q', hstep, hrest⟩ := h x hx
    exact ⟨q', hstep, ih x hrest⟩

theorem Obeys.tryFinally {g : Prog Op Res ε β} {R₁ : σ → α → Prop} (h : p.Obeys ok δ R E q)
    (hok : ∀ q a, R q a → g.Obeys ok δ (fun q _ => R₁ q a) E' q)
    (herror : ∀ q e, E q e → g.Obeys ok δ (fun q _ => E' q e) E' q) :
    (p.tryFinally g).Obeys ok δ R₁ E' q :=
  h.attempt_bind (fun q a ha => (hok q a ha).bind fun _ _ h => h)
    fun q e he => (herror q e he).bind fun _ _ h => h

theorem Obeys.simulate {R₁ : σ → α → Prop} {sim : σ → σ → Prop}
    (hstep : ∀ q₁ q₂ ev, sim q₁ q₂ → ok q₂ ev → ok q₁ ev ∧
      ∀ q₁', δ q₁ ev = some q₁' → ∃ q₂', δ q₂ ev = some q₂' ∧ sim q₁' q₂')
    (hR : ∀ q₁ q₂ a, sim q₁ q₂ → R q₁ a → R₁ q₂ a) (hE : ∀ q₁ q₂ e, sim q₁ q₂ → E q₁ e → E' q₂ e)
    (h : p.Obeys ok δ R E q) {q₂ : σ} (hsim : sim q q₂) : p.Obeys ok δ R₁ E' q₂ := by
  induction p generalizing q q₂ with
  | ret a => exact hR q q₂ a hsim h
  | raise e => exact hE q q₂ e hsim h
  | perform op k ih =>
    intro x hx
    obtain ⟨hx₁, hnext⟩ := hstep q q₂ _ hsim hx
    obtain ⟨q', hq', hrest⟩ := h x hx₁
    obtain ⟨q₂', hq₂', hsim'⟩ := hnext q' hq'
    exact ⟨q₂', hq₂', ih x hrest hsim'⟩

/-- What is left of a relayed generator goes on from where it was suspended, with any exception that
may be thrown in. -/
theorem Obeys.relay_bind {isYield : Op → Bool} {g : Relayed Op Res ε α → Prog Op Res ε β}
    (h : p.Obeys ok δ R E q) (hok : ∀ q a, R q a → (g (.ended (.ok a))).Obeys ok δ R' E' q)
    (herror : ∀ q e, E q e → (g (.ended (.error e))).Obeys ok δ R' E' q)
    (hthrown : ∀ q₀ op e rest q, isYield op = true → ok q₀ ⟨op, .error e⟩ →
      δ q₀ ⟨op, .error e⟩ = some q →
      (∀ e', ok q₀ ⟨op, .error e'⟩ → ∃ q₁, δ q₀ ⟨op, .error e'⟩ = some q₁ ∧
      (rest e').Obeys ok δ R E q₁) →
      (g (.thrown e rest)).Obeys ok δ R' E' q) :
    ((p.relay isYield).bind g).Obeys ok δ R' E' q := by
  induction p generalizing q with
  | ret a => exact hok q a h
  | raise e => exact herror q e h
  | perform op k ih =>
    simp only [relay, Prog.bind, Obeys]
    intro x hx
    obtain ⟨q', hstep, hrest⟩ := h x hx
    refine ⟨q', hstep, ?_⟩
    cases x with
    | ok a => exact ih _ hrest
    | error e =>
      simp only
      split
      · rename_i hop
        exact hthrown q op e _ q' hop hx hstep fun e' he' => h (.error e') he'
      · exact ih _ hrest

end Automaton

end Prog
end Effect
