import Mathlib.Data.List.Basic
import Mathlib.Data.List.Infix

/-!
# Lib.PySub

`re.sub`: the matches of a pattern in a text, from the left and without overlaps, are replaced. A
pattern is what it matches at a place, given the text before the place (the last element first) and
the text from it on: the length of the match and what stands for it.

* `Barrier.sub_append`: a pattern that neither goes nor looks over an element is replaced on both
  sides of it.
* `sub_append_none`: a stretch where nothing matches is kept.
* `Forward.settled_sub`: when nothing is left to replace in a result.
* `Forward.sub_cross`: for a text with a tail, either no match goes over its end, or one does,
  whatever the tail.
* `forall_sub`, `count_sub_le`: what replacements do not bring in is not in the result.
-/

namespace Py

universe u

variable {α : Type u}

abbrev Pattern (α : Type u) := List α → List α → Option (Nat × List α)

/-- `re.sub`, with the text before and how much of the match is left. -/
def subFrom (m : Pattern α) (before : List α) (skip : Nat) : List α → List α
  | [] => []
  | c :: cs =>
    match skip with
    | k + 1 => subFrom m (c :: before) k cs
    | 0 =>
      match m before (c :: cs) with
      | some (n, r) => r ++ subFrom m (c :: before) (n - 1) cs
      | none => c :: subFrom m (c :: before) 0 cs

/-- `re.sub`. -/
def sub (m : Pattern α) (text : List α) : List α := subFrom m [] 0 text

/-- A match is a part of the text, and not empty. -/
def Bounded (m : Pattern α) : Prop :=
  ∀ before cs n r, m before cs = some (n, r) → 0 < n ∧ n ≤ cs.length

/-- The pattern does not look back. -/
def Forward (m : Pattern α) : Prop := ∀ before cs, m before cs = m [] cs

variable {m : Pattern α} {before cs a b : List α} {c : α} {k n : Nat} {r : List α}

theorem subFrom_none (h : m before (c :: cs) = none) :
    subFrom m before 0 (c :: cs) = c :: subFrom m (c :: before) 0 cs := by
  simp only [subFrom, h]

theorem subFrom_some (h : m before (c :: cs) = some (n, r)) :
    subFrom m before 0 (c :: cs) = r ++ subFrom m (c :: before) (n - 1) cs := by
  simp only [subFrom, h]

/-- The rest of a match is left out. -/
theorem subFrom_skip (hk : k ≤ cs.length) :
    subFrom m before k cs = subFrom m ((cs.take k).reverse ++ before) 0 (cs.drop k) := by
  induction cs generalizing before k with
  | nil =>
    obtain rfl : k = 0 := Nat.le_zero.mp hk
    rfl
  | cons c cs ih =>
    cases k with
    | zero => rfl
    | succ k =>
      rw [subFrom, ih (by simpa using hk)]
      simp

/-- Where the pattern matches, its match is replaced and the text goes on after it. -/
theorem subFrom_match (hm : Bounded m) (h : m before cs = some (n, r)) :
    subFrom m before 0 cs = r ++ subFrom m ((cs.take n).reverse ++ before) 0 (cs.drop n) := by
  obtain ⟨hpos, hlen⟩ := hm before cs n r h
  cases cs with
  | nil =>
    rw [List.length_nil] at hlen
    omega
  | cons c cs =>
    rw [List.length_cons] at hlen
    obtain ⟨n, rfl⟩ : ∃ n', n = n' + 1 := ⟨n - 1, by omega⟩
    rw [subFrom_some h, Nat.add_sub_cancel, subFrom_skip (by omega)]
    simp

theorem subFrom_append_none
    (h : ∀ a₁ a₂, a = a₁ ++ a₂ → a₂ ≠ [] → m (a₁.reverse ++ before) (a₂ ++ b) = none) :
    subFrom m before 0 (a ++ b) = a ++ subFrom m (a.reverse ++ before) 0 b := by
  induction a generalizing before with
  | nil => rfl
  | cons c a ih =>
    have hfirst := h [] (c :: a) rfl (by simp)
    have htail := @ih (c :: before) fun a₁ a₂ ha hne => by
      have hnone := h (c :: a₁) a₂ (by rw [ha, List.cons_append]) hne
      simpa using hnone
    rw [List.cons_append, subFrom_none (by simpa using hfirst), htail]
    simp

theorem sub_append_none (h : ∀ a₁ a₂, a = a₁ ++ a₂ → a₂ ≠ [] → m a₁.reverse (a₂ ++ b) = none) :
    sub m (a ++ b) = a ++ subFrom m a.reverse 0 b := by
  have hkept := @subFrom_append_none _ m [] a b fun a₁ a₂ ha hne => by
    rw [List.append_nil]
    exact h a₁ a₂ ha hne
  rwa [List.append_nil] at hkept

theorem sub_eq_self (h : ∀ a₁ a₂, a = a₁ ++ a₂ → a₂ ≠ [] → m a₁.reverse a₂ = none) :
    sub m a = a := by
  have hkept := sub_append_none (b := []) fun a₁ a₂ ha hne => by
    rw [List.append_nil]
    exact h a₁ a₂ ha hne
  simpa [subFrom] using hkept

/-- A match does not go from `a` over its end, before `b`. -/
theorem subFrom_append (hm : Bounded m)
    (h : ∀ before a', a' ≠ [] → m before (a' ++ b) = m before a') (hk : k ≤ a.length) :
    subFrom m before k (a ++ b) = subFrom m before k a ++ subFrom m (a.reverse ++ before) 0 b := by
  induction a generalizing before k with
  | nil =>
    obtain rfl : k = 0 := Nat.le_zero.mp hk
    rfl
  | cons c a ih =>
    have htail {k : Nat} (hk : k ≤ a.length) := @ih (c :: before) k hk
    cases k with
    | succ k =>
      rw [List.cons_append, subFrom, subFrom, htail (by simpa using hk)]
      simp
    | zero =>
      have heq := h before (c :: a) (by simp)
      cases hmatch : m before (c :: a) with
      | none =>
        rw [List.cons_append, subFrom_none (by rw [← List.cons_append, heq, hmatch]),
          subFrom_none hmatch, htail (Nat.zero_le _)]
        simp
      | some x =>
        obtain ⟨n, r⟩ := x
        have hn := (hm before (c :: a) n r hmatch).2
        rw [List.length_cons] at hn
        rw [List.cons_append, subFrom_some (by rw [← List.cons_append, heq, hmatch]),
          subFrom_some hmatch, htail (by omega)]
        simp

/-- The pattern does not look back over `c`: what stands after it is as at the start of a text. -/
def Behind (m : Pattern α) (c : α) : Prop := ∀ x before cs, m (x ++ c :: before) cs = m x cs

theorem Behind.subFrom_eq (h : Behind m c) (x before : List α) (k : Nat) (cs : List α) :
    subFrom m (x ++ c :: before) k cs = subFrom m x k cs := by
  induction cs generalizing x k with
  | nil => rfl
  | cons d cs ih =>
    have hnext (k : Nat) := ih (d :: x) k
    cases k with
    | succ k => exact hnext k
    | zero =>
      rw [subFrom, subFrom, h x before]
      cases m x (d :: cs) with
      | none => exact congrArg (d :: ·) (hnext 0)
      | some y => exact congrArg (y.2 ++ ·) (hnext _)

/-- Where `c` is not matched, the text after it is a text of its own. -/
theorem Behind.subFrom_cons (h : Behind m c) (hnone : m before (c :: b) = none) :
    subFrom m before 0 (c :: b) = c :: sub m b := by
  rw [subFrom_none hnone]
  exact congrArg (c :: ·) (h.subFrom_eq [] before 0 b)

/-- The pattern neither goes over `c` nor looks over it. -/
structure Barrier (m : Pattern α) (c : α) : Prop where
  ahead : ∀ before a b, a ≠ [] → m before (a ++ c :: b) = m before a
  here : ∀ before b, m before (c :: b) = none
  behind : Behind m c

theorem Barrier.sub_append (h : Barrier m c) (hm : Bounded m) :
    sub m (a ++ c :: b) = sub m a ++ c :: sub m b := by
  rw [sub, subFrom_append hm (fun before a' hne => h.ahead before a' b hne) (Nat.zero_le _),
    h.behind.subFrom_cons (h.here _ _)]
  rfl

section Forward

theorem Forward.behind (h : Forward m) (c : α) : Behind m c := fun x before cs => by
  rw [h (x ++ c :: before), h x]

theorem Forward.subFrom_eq (h : Forward m) (before : List α) (k : Nat) (cs : List α) :
    subFrom m before k cs = subFrom m [] k cs := by
  cases before with
  | nil => rfl
  | cons c before => exact (h.behind c).subFrom_eq [] before k cs

theorem Forward.sub_none (h : Forward m) (hnone : m [] (c :: cs) = none) :
    sub m (c :: cs) = c :: sub m cs :=
  (h.behind c).subFrom_cons hnone

theorem Forward.sub_match (h : Forward m) (hm : Bounded m) (hmatch : m [] cs = some (n, r)) :
    sub m cs = r ++ sub m (cs.drop n) := by
  rw [sub, subFrom_match hm hmatch, h.subFrom_eq]
  rfl

/-- Where no match of the text goes over its end, what follows is a text of its own. -/
theorem Forward.sub_append (h : Forward m) (hm : Bounded m)
    (hahead : ∀ a', a' ≠ [] → m [] (a' ++ b) = m [] a') :
    sub m (a ++ b) = sub m a ++ sub m b := by
  have hall (before a' : List α) (hne : a' ≠ []) : m before (a' ++ b) = m before a' := by
    rw [h before (a' ++ b), h before a', hahead a' hne]
  rw [sub, subFrom_append hm hall (Nat.zero_le _), h.subFrom_eq (a.reverse ++ [])]
  rfl

theorem Forward.sub_append_none (h : Forward m)
    (hnone : ∀ a', a' ≠ [] → a' <:+ a → m [] (a' ++ b) = none) :
    sub m (a ++ b) = a ++ sub m b := by
  rw [Py.sub_append_none fun a₁ a₂ ha hne => by rw [h]; exact hnone a₂ hne ⟨a₁,
    ha.symm⟩, h.subFrom_eq]
  rfl

/-- What stands in a result before anything that begins a match stands in the text. -/
theorem Forward.sub_prefix {P : α → Prop} (h : Forward m) (hm : Bounded m)
    (hhead : ∀ cs n r, m [] cs = some (n, r) → ∃ c r', r = c :: r' ∧ P c)
    {p : List α} (hp : ∀ c ∈ p, ¬P c) (hsub : sub m cs = p ++ b) :
    ∃ rest, cs = p ++ rest ∧ b = sub m rest := by
  induction p generalizing cs with
  | nil => exact ⟨cs, rfl, hsub.symm⟩
  | cons x p ih =>
    obtain ⟨hx, htailP⟩ := List.forall_mem_cons.mp hp
    cases cs with
    | nil => cases hsub
    | cons c cs =>
      cases hmatch : m [] (c :: cs) with
      | none =>
        rw [h.sub_none hmatch, List.cons_append] at hsub
        obtain ⟨rfl, htail⟩ := List.cons.inj hsub
        obtain ⟨rest, rfl, hrest⟩ := ih htailP htail
        exact ⟨rest, rfl, hrest⟩
      | some y =>
        obtain ⟨n, r⟩ := y
        obtain ⟨d, r', rfl, hd⟩ := hhead (c :: cs) n r hmatch
        rw [h.sub_match hm hmatch] at hsub
        obtain ⟨rfl, -⟩ := List.cons.inj hsub
        exact absurd hd hx

/-- Nothing is left to replace: a match is replaced by itself, wherever it is. -/
def Settled (m : Pattern α) (cs : List α) : Prop :=
  ∀ b n r, b <:+ cs → m [] b = some (n, r) → b.take n = r

theorem Forward.sub_settled (h : Forward m) (hm : Bounded m) (hs : Settled m cs) :
    sub m cs = cs := by
  induction hlen : cs.length using Nat.strong_induction_on generalizing cs with
  | _ len ih =>
    cases cs with
    | nil => rfl
    | cons c cs =>
      cases hmatch : m [] (c :: cs) with
      | none =>
        have hrest : Settled m cs := fun b n r hb => hs b n r (hb.trans (List.suffix_cons ..))
        have htail := ih cs.length (by rw [← hlen]; simp) hrest rfl
        rw [h.sub_none hmatch, htail]
      | some y =>
        obtain ⟨n, r⟩ := y
        obtain ⟨hpos, -⟩ := hm [] (c :: cs) n r hmatch
        have hshort : ((c :: cs).drop n).length < len := by
          rw [List.length_drop, ← hlen, List.length_cons]
          omega
        have htail := ih _ hshort (fun b n r hb => hs b n r (hb.trans (List.drop_suffix ..))) rfl
        rw [h.sub_match hm hmatch, htail, ← hs (c :: cs) n r (List.suffix_refl _) hmatch,
          List.take_append_drop]

/-- A result is settled: if nothing that is replaced begins where the text was kept, and what stands
for a match is settled before every result. -/
theorem Forward.settled_sub (h : Forward m) (hm : Bounded m)
    (hkept : ∀ c cs, m [] (c :: cs) = none → m [] (c :: sub m cs) = none)
    (hrep : ∀ cs n r, m [] cs = some (n, r) → ∀ x, x ≠ [] → x <:+ r → ∀ k y,
      m [] (x ++ sub m (cs.drop n)) =
      some (k, y) → (x ++ sub m (cs.drop n)).take k = y) (cs : List α) :
    Settled m (sub m cs) := by
  induction hlen : cs.length using Nat.strong_induction_on generalizing cs with
  | _ len ih =>
    intro b k y hb hfound
    cases cs with
    | nil =>
      obtain rfl := List.suffix_nil.mp hb
      obtain ⟨hpos, hk⟩ := hm [] [] k y hfound
      rw [List.length_nil] at hk
      omega
    | cons c cs =>
      cases hmatch : m [] (c :: cs) with
      | none =>
        rw [h.sub_none hmatch] at hb
        rcases List.suffix_cons_iff.mp hb with rfl | hb
        · rw [hkept c cs hmatch] at hfound
          cases hfound
        · exact ih cs.length (by rw [← hlen]; simp) cs rfl b k y hb hfound
      | some z =>
        obtain ⟨n, r⟩ := z
        obtain ⟨hpos, -⟩ := hm [] (c :: cs) n r hmatch
        have hshort : ((c :: cs).drop n).length < len := by
          rw [List.length_drop, ← hlen, List.length_cons]
          omega
        rw [h.sub_match hm hmatch] at hb
        obtain ⟨before, hbefore⟩ := hb
        rcases List.append_eq_append_iff.mp hbefore with ⟨x, rfl, rfl⟩ | ⟨x, -, htail⟩
        · by_cases hne : x = []
          · subst hne
            exact ih _ hshort _ rfl _ k y (List.suffix_refl _) hfound
          · exact hrep (c :: cs) n _ hmatch x hne (List.suffix_append ..) k y hfound
        · exact ih _ hshort _ rfl b k y ⟨x, htail.symm⟩ hfound

variable [DecidableEq α] {d e : α} {Crosses : List α → Prop}

/-- Before a tail that begins with `d`: either no match goes over the end of the text, or one does,
whatever the tail. It begins where `Crosses` says so, at the first such place, and what stands
before it is replaced in the same way for every tail. -/
theorem Forward.sub_cross {P : α → Prop} (h : Forward m) (hm : Bounded m) (hnil : ¬Crosses [])
    (hcross : ∀ a t, a ≠ [] → ¬Crosses a → m [] (a ++ d :: t) = m [] a)
    (hinner : ∀ a n r, m [] a = some (n, r) → ¬Crosses a →
      ∀ x, x ≠ [] → x <:+ a.take n → ¬Crosses (x ++ a.drop n))
    (hcount : ∀ cs n r, m [] cs = some (n, r) → r.count e ≤ (cs.take n).count e)
    (hrep : ∀ cs n r, m [] cs = some (n, r) → (∀ c ∈ cs.take n, P c) → ∀ c ∈ r, P c) (a : List α) :
    ((∀ x, x <:+ a → ¬Crosses x) ∧ ∀ t, sub m (a ++ d :: t) = sub m a ++ sub m (d :: t)) ∨
      ∃ a₁ a₂ z, a = a₁ ++ a₂ ∧ Crosses a₂ ∧ (∀ x, x <:+ a → Crosses x → x <:+ a₂) ∧
        z.count e ≤ a₁.count e ∧ ((∀ c ∈ a₁, P c) → ∀ c ∈ z, P c) ∧
          ∀ t, sub m (a ++ d :: t) = z ++ sub m (a₂ ++ d :: t) := by
  induction hlen : a.length using Nat.strong_induction_on generalizing a with
  | _ len ih =>
    cases a with
    | nil => exact .inl ⟨fun x hx => by rw [List.suffix_nil.mp hx]; exact hnil, fun t => rfl⟩
    | cons c a =>
      by_cases hc : Crosses (c :: a)
      · exact .inr ⟨[], c :: a, [], rfl, hc, fun x hx _ => hx, Nat.le_refl _, id, fun t => rfl⟩
      · have heq (t : List α) := hcross (c :: a) t (by simp) hc
        cases hmatch : m [] (c :: a) with
        | none =>
          have hstep (t : List α) : sub m (c :: a ++ d :: t) = c :: sub m (a ++ d :: t) :=
            h.sub_none ((heq t).trans hmatch)
          have hlater {x : List α} (hx : x <:+ c :: a) (hcx : Crosses x) : x <:+ a := by
            rcases List.suffix_cons_iff.mp hx with rfl | hx
            · exact absurd hcx hc
            · exact hx
          rcases ih a.length (by rw [← hlen]; simp) a rfl with
            ⟨hno, hsplit⟩ | ⟨a₁, a₂, z, rfl, hc₂, hfirst, hz, hall, hsub⟩
          · refine .inl ⟨fun x hx hcx => hno x (hlater hx hcx) hcx, fun t => ?_⟩
            rw [hstep, hsplit, h.sub_none hmatch]
            rfl
          · refine .inr ⟨c :: a₁, a₂, c :: z, rfl, hc₂,
              fun x hx hcx => hfirst x (hlater hx hcx) hcx, ?_, fun hP => ?_,
              fun t => by rw [hstep, hsub]; rfl⟩
            · rw [List.count_cons, List.count_cons]
              omega
            · obtain ⟨hhead, htail⟩ := List.forall_mem_cons.mp hP
              exact List.forall_mem_cons.mpr ⟨hhead, hall htail⟩
        | some x =>
          obtain ⟨n, r⟩ := x
          obtain ⟨hpos, hn⟩ := hm [] (c :: a) n r hmatch
          have hstep (t : List α) : sub m (c :: a ++ d :: t) =
              r ++ sub m ((c :: a).drop n ++ d :: t) := by
            rw [h.sub_match hm (by rw [heq, hmatch]), List.drop_append_of_le_length hn]
          have hshort : ((c :: a).drop n).length < len := by
            rw [List.length_drop]
            omega
          have hlater (x : List α) (hx : x <:+ c :: a) (hcx : Crosses x) : x <:+
              (c :: a).drop n := by
            obtain ⟨b, hb⟩ := hx
            rw [← List.take_append_drop n (c :: a)] at hb
            rcases List.append_eq_append_iff.mp hb with ⟨y, hy, rfl⟩ | ⟨y, -, hy⟩
            · by_cases hyne : y = []
              · rw [hyne]
                exact List.suffix_refl _
              · exact absurd hcx (hinner (c :: a) n r hmatch hc y hyne ⟨b, hy.symm⟩)
            · exact ⟨y, hy.symm⟩
          rcases ih _ hshort _ rfl with ⟨hno, hsplit⟩ | ⟨a₁, a₂, z, hdrop, hc₂,
              hfirst, hz, hall, hsub⟩
          · refine .inl ⟨fun x hx hcx => hno x (hlater x hx hcx) hcx, fun t => ?_⟩
            rw [hstep, hsplit, h.sub_match hm hmatch, List.append_assoc]
          · refine .inr ⟨(c :: a).take n ++ a₁, a₂, r ++ z, ?_, hc₂,
              fun x hx hcx => hfirst x (hlater x hx hcx) hcx, ?_, fun hP => ?_, fun t => ?_⟩
            · rw [List.append_assoc, ← hdrop, List.take_append_drop]
            · have hr := hcount (c :: a) n r hmatch
              rw [List.count_append, List.count_append]
              omega
            · obtain ⟨hhead, htail⟩ := List.forall_mem_append.mp hP
              exact List.forall_mem_append.mpr ⟨hrep (c :: a) n r hmatch hhead, hall htail⟩
            · rw [hstep, hsub, List.append_assoc]

end Forward

/-- What replacements do not bring in is no more often in the result. -/
theorem count_sub_le [DecidableEq α] {e : α} (hm : Bounded m)
    (hcount : ∀ before cs n r, m before cs = some (n, r) → r.count e ≤ (cs.take n).count e)
      (cs : List α) : (sub m cs).count e ≤ cs.count e := by
  have hall : ∀ (len : Nat) (before cs : List α), cs.length = len →
      (subFrom m before 0 cs).count e ≤ cs.count e := by
    intro len
    induction len using Nat.strong_induction_on with
    | _ len ih =>
      intro before cs hlen
      cases cs with
      | nil => exact Nat.le_refl _
      | cons c cs =>
        cases hmatch : m before (c :: cs) with
        | none =>
          have htail := ih cs.length (by rw [← hlen]; simp) (c :: before) cs rfl
          rw [subFrom_none hmatch, List.count_cons, List.count_cons]
          omega
        | some x =>
          obtain ⟨n, r⟩ := x
          obtain ⟨hpos, hn⟩ := hm before (c :: cs) n r hmatch
          have hshort : ((c :: cs).drop n).length < len := by
            rw [List.length_drop]
            omega
          have htail := ih _ hshort (((c :: cs).take n).reverse ++ before) _ rfl
          have hr := hcount before (c :: cs) n r hmatch
          have hsum : ((c :: cs).take n).count e + ((c :: cs).drop n).count e =
              (c :: cs).count e := by
            rw [← List.count_append, List.take_append_drop]
          rw [subFrom_match hm hmatch, List.count_append]
          omega
  exact hall cs.length [] cs rfl

theorem forall_sub {P : α → Prop}
    (hrep : ∀ before cs n r, m before cs = some (n, r) → (∀ c ∈ cs, P c) → ∀ c ∈ r, P c)
    {cs : List α} (hcs : ∀ c ∈ cs, P c) : ∀ c ∈ sub m cs, P c := by
  have hall : ∀ (cs before : List α) (k : Nat), (∀ c ∈ cs, P c) →
      ∀ c ∈ subFrom m before k cs, P c := by
    intro cs
    induction cs with
    | nil =>
      intro before k _ c hc
      cases hc
    | cons d cs ih =>
      intro before k hcs
      have htail (before : List α) (k : Nat) :=
        ih before k fun c hc => hcs c (List.mem_cons_of_mem d hc)
      cases k with
      | succ k => exact htail _ k
      | zero =>
        rw [subFrom]
        cases hm : m before (d :: cs) with
        | none =>
          intro c hc
          rcases List.mem_cons.mp hc with rfl | hc
          · exact hcs c (List.mem_cons_self ..)
          · exact htail _ 0 c hc
        | some x =>
          intro c hc
          rcases List.mem_append.mp hc with hc | hc
          · exact hrep before (d :: cs) x.1 x.2 hm hcs c hc
          · exact htail _ _ c hc
  exact hall cs [] 0 hcs

end Py
