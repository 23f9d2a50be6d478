import Mathlib
import InferenceEngine.Lib.JsonRoundTrip

/-!
# Lib.JsonLex

What a text that `json.loads` accepts looks like outside of its strings. `lex` follows a text
character by character: within a string everything may stand, outside of one only brackets, commas,
colons, spaces and the characters of numbers and literals.

* `lex_of_loads`: a text that is loaded starts and ends outside of its strings.
* `obj_of_unquoted`: without a quote there is no key.

The second part is about strings in which only quotes, backslashes and control characters are
escaped.
-/

namespace Json

variable {F : Type} {fl : Floats F}

/-- Where a character of a text stands. -/
inductive Lex where
  | bare
  | quoted
  /-- after a backslash within a string -/
  | escaped
  deriving DecidableEq, Repr

/-- The characters of literals and exponents. -/
def literalChars : List Char :=
  ['n', 'u', 'l', 't', 'r', 'e', 'f', 'a', 's', 'N', 'I', 'i', 'y', 'E']

/-- What may stand outside of strings. -/
def isBare (c : Char) : Bool :=
  isSpace c || c.isDigit || ['{', '}', '[', ']', ',', ':', '+', '-', '.'].contains c ||
    literalChars.contains c

def Lex.step : Lex → Char → Option Lex
  | .bare, c => if c = '"' then some .quoted else if isBare c then some .bare else none
  | .quoted, c => some (if c = '"' then .bare else if c = '\\' then .escaped else .quoted)
  | .escaped, _ => some .quoted

def lex : Lex → List Char → Option Lex
  | q, [] => some q
  | q, c :: cs => (q.step c).bind fun q => lex q cs

theorem lex_append (q : Lex) (cs cs' : List Char) :
    lex q (cs ++ cs') = (lex q cs).bind fun q => lex q cs' := by
  induction cs generalizing q with
  | nil => rfl
  | cons c cs ih =>
    rw [List.cons_append, lex, lex, Option.bind_assoc]
    exact congrArg _ (funext ih)

theorem isBare_ne_quote {c : Char} (h : isBare c = true) : c ≠ '"' := by
  rintro rfl
  revert h
  decide

theorem lex_bare {cs : List Char} (h : ∀ c ∈ cs, isBare c = true) : lex .bare cs = some .bare := by
  induction cs with
  | nil => rfl
  | cons c cs ih =>
    have hc := h c (List.mem_cons_self ..)
    rw [lex, Lex.step, if_neg (isBare_ne_quote hc), if_pos hc]
    exact ih fun c' hc' => h c' (List.mem_cons_of_mem c hc')

/-- Without a quote a text does not get into a string. -/
theorem lex_unquoted {cs : List Char} (h : '"' ∉ cs) :
    lex .bare cs = some .bare ∨ lex .bare cs = none := by
  by_cases hbare : ∀ c ∈ cs, isBare c = true
  · exact .inl (lex_bare hbare)
  · right
    induction cs with
    | nil => exact absurd (by simp) hbare
    | cons c cs ih =>
      rw [List.mem_cons, not_or] at h
      obtain ⟨hc, hcs⟩ := h
      rw [lex, Lex.step, if_neg (Ne.symm hc)]
      split
      · rename_i hisBare
        exact ih hcs fun hall => hbare (List.forall_mem_cons.mpr ⟨hisBare, hall⟩)
      · rfl

theorem isBare_of_lex {cs : List Char} (hcs : '"' ∉ cs) (h : lex .bare cs = some .bare) :
    ∀ c ∈ cs, isBare c = true := by
  induction cs with
  | nil => simp
  | cons c cs ih =>
    rw [List.mem_cons, not_or] at hcs
    rw [lex, Lex.step, if_neg (Ne.symm hcs.1)] at h
    split at h
    · rename_i hc
      exact List.forall_mem_cons.mpr ⟨hc, ih hcs.2 h⟩
    · cases h

/-! ## What the scanners read -/

/-- `rest` is left of a text when it has been read up to a place outside of strings. -/
def Leaves (q : Lex) (cs rest : List Char) : Prop :=
  ∃ used, cs = used ++ rest ∧ lex q used = some .bare

theorem leaves_refl (cs : List Char) : Leaves .bare cs cs := ⟨[], rfl, rfl⟩

theorem Leaves.trans {q : Lex} {cs cs' rest : List Char} (h : Leaves q cs cs')
    (h' : Leaves .bare cs' rest) : Leaves q cs rest := by
  obtain ⟨used, rfl, hused⟩ := h
  obtain ⟨used', rfl, hused'⟩ := h'
  refine ⟨used ++ used', (List.append_assoc ..).symm, ?_⟩
  rw [lex_append, hused]
  exact hused'

theorem Leaves.cons {q q' : Lex} {c : Char} {cs rest : List Char} (hc : q.step c = some q')
    (h : Leaves q' cs rest) : Leaves q (c :: cs) rest := by
  obtain ⟨used, rfl, hused⟩ := h
  refine ⟨c :: used, rfl, ?_⟩
  rw [lex, hc]
  exact hused

theorem leaves_append {cs rest : List Char} (h : ∀ c ∈ cs, isBare c = true) :
    Leaves .bare (cs ++ rest) rest := ⟨cs, rfl, lex_bare h⟩

theorem leaves_dropWhile {p : Char → Bool} (hp : ∀ c, p c = true → isBare c = true)
    (cs : List Char) :
    Leaves .bare cs (cs.dropWhile p) := by
  have h : Leaves .bare (cs.takeWhile p ++ cs.dropWhile p) (cs.dropWhile p) :=
    leaves_append fun c hc => hp c (List.mem_takeWhile_imp hc)
  rwa [List.takeWhile_append_dropWhile] at h

theorem isBare_of_isSpace (c : Char) (h : isSpace c = true) : isBare c = true := by
  unfold isBare
  rw [h]
  rfl

theorem isBare_of_isDigit (c : Char) (h : c.isDigit = true) : isBare c = true := by
  unfold isBare
  rw [h, Bool.or_true]
  rfl

theorem leaves_skip (cs : List Char) : Leaves .bare cs (skip cs) :=
  leaves_dropWhile isBare_of_isSpace cs

theorem leaves_of_skip {cs rest : List Char} {c : Char} (h : skip cs = c :: rest)
    (hc : Lex.bare.step c = some .bare) : Leaves .bare cs rest := by
  have hskip := leaves_skip cs
  rw [h] at hskip
  exact hskip.trans (.cons hc (leaves_refl rest))

theorem hexValue_ne {c : Char} {n : Nat} (h : hexValue c = some n) : c ≠ '"' ∧ c ≠ '\\' := by
  constructor
  · rintro rfl
    revert h
    simp [hexValue]
  · rintro rfl
    revert h
    simp [hexValue]

theorem quoted_step {c : Char} (h : c ≠ '"' ∧ c ≠ '\\') : Lex.quoted.step c = some .quoted := by
  rw [Lex.step, if_neg h.1, if_neg h.2]

theorem leaves_scanString {cs rest : List Char} {s : Text} (h : scanString cs = some (s, rest)) :
    Leaves .quoted cs rest := by
  fun_induction scanString cs generalizing s rest with
  | case1 => cases h
  | case2 cs =>
    rw [← (Prod.mk.inj (Option.some.inj h)).2]
    exact .cons rfl (leaves_refl cs)
  | case3 a b d e rest' hq ih =>
    simp only [Option.bind_eq_bind, Option.bind_eq_some_iff] at h
    obtain ⟨u, hu, ⟨s', rest''⟩, hs, h⟩ := h
    simp only [hex4, Option.bind_eq_bind, Option.bind_eq_some_iff] at hu
    obtain ⟨na, ha, nb, hb, nd, hd, ne, he, -⟩ := hu
    rw [← (Prod.mk.inj (Option.some.inj h)).2]
    refine .cons rfl (.cons rfl (.cons (quoted_step (hexValue_ne ha)) ?_))
    refine .cons (quoted_step (hexValue_ne hb)) (.cons (quoted_step (hexValue_ne hd)) ?_)
    exact .cons (quoted_step (hexValue_ne he)) (ih hs)
  | case4 x rest' hu hq ih =>
    simp only [Option.bind_eq_bind, Option.bind_eq_some_iff] at h
    obtain ⟨u, -, ⟨s', rest''⟩, hs, h⟩ := h
    rw [← (Prod.mk.inj (Option.some.inj h)).2]
    exact .cons rfl (.cons rfl (ih hs))
  | case5 => cases h
  | case6 => cases h
  | case7 c cs hq hb hc ih =>
    obtain ⟨⟨s', rest'⟩, hs, h⟩ := Option.map_eq_some_iff.mp h
    rw [← (Prod.mk.inj h).2]
    exact .cons (quoted_step ⟨hq, hb⟩) (ih hs)

theorem leaves_digits {cs : List Char} : Leaves .bare cs (cs.dropWhile Char.isDigit) :=
  leaves_dropWhile isBare_of_isDigit cs

theorem digit_step {c : Char} (h : c.isDigit = true) : Lex.bare.step c = some .bare := by
  rw [Lex.step, if_neg (digit_ne h).1, if_pos (isBare_of_isDigit c h)]

theorem leaves_scanWhole {cs rest : List Char} {n : Nat} (h : scanWhole cs = some (n, rest)) :
    Leaves .bare cs rest := by
  cases cs with
  | nil => cases h
  | cons c cs =>
    rw [scanWhole] at h
    split at h
    · rename_i hc
      rw [hc, ← (Prod.mk.inj (Option.some.inj h)).2]
      exact .cons rfl (leaves_refl cs)
    · split at h
      · rename_i hc
        rw [← (Prod.mk.inj (Option.some.inj h)).2]
        exact .cons (digit_step hc) leaves_digits
      · cases h

theorem leaves_scanMinus (cs : List Char) : Leaves .bare cs (scanMinus cs).2 := by
  unfold scanMinus
  split
  · exact .cons rfl (leaves_refl _)
  · exact leaves_refl _

theorem leaves_scanFraction (cs : List Char) : Leaves .bare cs (scanFraction cs).2 := by
  unfold scanFraction
  split
  · split
    · exact leaves_refl _
    · exact .cons rfl leaves_digits
  · exact leaves_refl _

theorem leaves_scanSign (cs : List Char) : Leaves .bare cs (scanSign cs).2 := by
  unfold scanSign
  split
  · exact .cons rfl (leaves_refl _)
  · exact .cons rfl (leaves_refl _)
  · exact leaves_refl _

theorem leaves_scanExponent (cs : List Char) : Leaves .bare cs (scanExponent cs).2 := by
  cases cs with
  | nil => exact leaves_refl _
  | cons c cs =>
    simp only [scanExponent]
    split
    · rename_i hc
      have hstep : Lex.bare.step c = some .bare := by
        rcases hc with rfl | rfl
        · rfl
        · rfl
      split
      · exact leaves_refl _
      · exact .cons hstep ((leaves_scanSign cs).trans leaves_digits)
    · exact leaves_refl _

theorem leaves_scanNumber {cs rest : List Char} {v : Value F}
    (h : scanNumber fl cs = some (v, rest)) :
    Leaves .bare cs rest := by
  simp only [scanNumber, Option.bind_eq_bind, Option.bind_eq_some_iff] at h
  obtain ⟨⟨n, cs'⟩, hwhole, h⟩ := h
  rw [← (Prod.mk.inj (Option.some.inj h)).2]
  refine (leaves_scanMinus cs).trans ((leaves_scanWhole hwhole).trans ?_)
  exact (leaves_scanFraction cs').trans (leaves_scanExponent _)

theorem leaves_scanLiteral {cs rest : List Char} {v : Value F}
    (h : scanLiteral cs = some (v, rest)) :
    Leaves .bare cs rest := by
  obtain ⟨p, hp, heq⟩ := List.exists_of_findSome?_eq_some h
  obtain ⟨rest', hliteral, hrest⟩ := Option.map_eq_some_iff.mp heq
  rw [← (Prod.mk.inj hrest).2, ← List.isPrefixOf?_eq_some_iff_append_eq.mp hliteral]
  apply leaves_append
  simp only [literals, List.mem_cons, List.not_mem_nil, or_false] at hp
  rcases hp with rfl | rfl | rfl | rfl | rfl | rfl <;>
  exact List.all_eq_true.mp rfl

/-- What a scanner reads ends outside of strings. -/
def Leaving {α : Type} (scan : Nat → List Char → Option (α × List Char)) (n : Nat) : Prop :=
  ∀ cs a rest, scan n cs = some (a, rest) → Leaves .bare cs rest

theorem leaving_value {n : Nat} (he : Leaving (scanElements fl) n) (hi : Leaving (scanItems fl) n) :
    Leaving (scanValue fl) (n + 1) := by
  intro cs v rest h
  cases cs with
  | nil => simp [scanValue] at h
  | cons c cs =>
    rw [scanValue] at h
    split at h
    · rename_i hc
      subst hc
      obtain ⟨⟨s, rest'⟩, hs, h⟩ := Option.map_eq_some_iff.mp h
      rw [← (Prod.mk.inj h).2]
      exact .cons rfl (leaves_scanString hs)
    · split at h
      · rename_i hc
        subst hc
        split at h
        · rename_i rest' heq
          rw [← (Prod.mk.inj (Option.some.inj h)).2]
          exact .cons rfl (leaves_of_skip heq rfl)
        · obtain ⟨⟨vs, rest'⟩, hvs, h⟩ := Option.map_eq_some_iff.mp h
          rw [← (Prod.mk.inj h).2]
          exact .cons rfl ((leaves_skip cs).trans (he _ _ _ hvs))
      · split at h
        · rename_i hc
          subst hc
          split at h
          · rename_i rest' heq
            rw [← (Prod.mk.inj (Option.some.inj h)).2]
            exact .cons rfl (leaves_of_skip heq rfl)
          · obtain ⟨⟨items, rest'⟩, hitems, h⟩ := Option.map_eq_some_iff.mp h
            rw [← (Prod.mk.inj h).2]
            exact .cons rfl ((leaves_skip cs).trans (hi _ _ _ hitems))
        · rcases Option.or_eq_some_iff.mp h with h | ⟨-, h⟩
          · exact leaves_scanLiteral h
          · exact leaves_scanNumber h

theorem leaving_elements {n : Nat} (hv : Leaving (scanValue fl) n)
    (he : Leaving (scanElements fl) n) :
    Leaving (scanElements fl) (n + 1) := by
  intro cs vs rest h
  rw [scanElements] at h
  simp only [Option.bind_eq_bind, Option.bind_eq_some_iff] at h
  obtain ⟨⟨w, cs'⟩, hw, h⟩ := h
  refine (hv _ _ _ hw).trans ?_
  simp only at h
  split at h
  · rename_i rest' heq
    rw [← (Prod.mk.inj (Option.some.inj h)).2]
    exact leaves_of_skip heq rfl
  · rename_i rest' heq
    obtain ⟨⟨ws, cs''⟩, hws, h⟩ := Option.bind_eq_some_iff.mp h
    rw [← (Prod.mk.inj (Option.some.inj h)).2]
    exact (leaves_of_skip heq rfl).trans ((leaves_skip rest').trans (he _ _ _ hws))
  · cases h

theorem leaving_items {n : Nat} (hv : Leaving (scanValue fl) n) (hi : Leaving (scanItems fl) n) :
    Leaving (scanItems fl) (n + 1) := by
  intro cs items rest h
  unfold scanItems at h
  split at h
  · cases h
  · rename_i m cs heq
    cases heq
    simp only [Option.bind_eq_bind, Option.bind_eq_some_iff] at h
    obtain ⟨⟨key, cs₁⟩, hkey, h⟩ := h
    refine .cons rfl ((leaves_scanString hkey).trans ?_)
    simp only at h
    split at h
    · rename_i cs₂ heq₁
      refine (leaves_of_skip heq₁ rfl).trans ((leaves_skip cs₂).trans ?_)
      obtain ⟨⟨w, cs₃⟩, hw, h⟩ := Option.bind_eq_some_iff.mp h
      refine (hv _ _ _ hw).trans ?_
      simp only at h
      split at h
      · rename_i rest' heq₃
        rw [← (Prod.mk.inj (Option.some.inj h)).2]
        exact leaves_of_skip heq₃ rfl
      · rename_i rest' heq₃
        obtain ⟨⟨ws, cs₄⟩, hws, h⟩ := Option.bind_eq_some_iff.mp h
        rw [← (Prod.mk.inj (Option.some.inj h)).2]
        exact (leaves_of_skip heq₃ rfl).trans ((leaves_skip rest').trans (hi _ _ _ hws))
      · cases h
    · cases h
  · cases h

theorem leaving (fl : Floats F) (n : Nat) : Leaving (scanValue fl) n ∧ Leaving (scanElements fl) n ∧
    Leaving (scanItems fl) n := by
  induction n with
  | zero => simp [Leaving, scanValue, scanElements, scanItems]
  | succ n ih =>
    exact ⟨leaving_value ih.2.1 ih.2.2, leaving_elements ih.1 ih.2.1, leaving_items ih.1 ih.2.2⟩

/-- A text that is loaded starts and ends outside of its strings. -/
theorem lex_of_loads {text : List Char} {v : Value F} (h : loads fl (.ofList text) = some v) :
    lex .bare text = some .bare := by
  unfold loads at h
  rw [String.toList_ofList] at h
  split at h
  · rename_i w rest hscan
    split at h
    · rename_i hrest
      have hleaves := (leaves_skip text).trans ((leaving fl _).1 _ _ _ hscan)
      have hend := leaves_skip rest
      rw [hrest] at hend
      obtain ⟨used, hused, hlex⟩ := hleaves.trans hend
      rw [List.append_nil] at hused
      rw [hused]
      exact hlex
    · cases h
  · cases h

/-- What stands before the first quote has no backslash. -/
theorem first_quote {text : List Char} {v : Value F} (h : loads fl (.ofList text) = some v)
    (hquote : '"' ∈ text) : ∃ before after, text = before ++ '"' :: after ∧
      '"' ∉ before ∧ '\\' ∉ before ∧
      lex .bare ('"' :: after) = some .bare := by
  obtain ⟨before, after, rfl, hbefore⟩ := List.eq_append_cons_of_mem hquote
  have hlex := lex_of_loads h
  rw [lex_append] at hlex
  rcases lex_unquoted hbefore with hbare | hnone
  · refine ⟨before, after, rfl, hbefore, fun hmem => ?_, ?_⟩
    · have hall := isBare_of_lex hbefore hbare _ hmem
      revert hall
      decide
    · rw [hbare] at hlex
      exact hlex
  · rw [hnone] at hlex
    cases hlex

theorem obj_of_unquoted {text : List Char} {items : List (Text × Value F)} (hquote : '"' ∉ text)
    (h : loads fl (.ofList text) = some (.obj items)) : items = [] := by
  unfold loads at h
  rw [String.toList_ofList] at h
  have hskip : ∀ cs, '"' ∉ cs → '"' ∉ skip cs := fun cs hcs hmem =>
    hcs ((List.dropWhile_sublist _).mem hmem)
  have htext := hskip text hquote
  split at h
  · rename_i w rest hscan
    split at h
    · obtain rfl := Option.some.inj h
      cases hcs : skip text with
      | nil =>
        rw [hcs] at hscan
        simp [scanValue] at hscan
      | cons c cs =>
        rw [hcs] at hscan htext
        rw [scanValue] at hscan
        split at hscan
        · obtain ⟨⟨s, rest'⟩, -, hs⟩ := Option.map_eq_some_iff.mp hscan
          cases (Prod.mk.inj hs).1
        · split at hscan
          · split at hscan
            · cases (Prod.mk.inj (Option.some.inj hscan)).1
            · obtain ⟨⟨vs, rest'⟩, -, hs⟩ := Option.map_eq_some_iff.mp hscan
              cases (Prod.mk.inj hs).1
          · split at hscan
            · split at hscan
              · cases (Prod.mk.inj (Option.some.inj hscan)).1
                rfl
              · -- an item starts with a quote
                obtain ⟨⟨pairs, rest'⟩, hpairs, -⟩ := Option.map_eq_some_iff.mp hscan
                have hcs' := hskip cs fun hmem => htext (List.mem_cons_of_mem c hmem)
                unfold scanItems at hpairs
                split at hpairs
                · cases hpairs
                · rename_i heq
                  rw [heq] at hcs'
                  exact absurd (List.mem_cons_self ..) hcs'
                · cases hpairs
            · rcases Option.or_eq_some_iff.mp hscan with hlit | ⟨-, hnum⟩
              · obtain ⟨p, hp, heq⟩ := List.exists_of_findSome?_eq_some hlit
                obtain ⟨r, -, hr⟩ := Option.map_eq_some_iff.mp heq
                have hv := (Prod.mk.inj hr).1
                simp only [literals, List.mem_cons, List.not_mem_nil, or_false] at hp
                rcases hp with rfl | rfl | rfl | rfl | rfl | rfl <;> cases hv
              · simp only [scanNumber, Option.bind_eq_bind, Option.bind_eq_some_iff] at hnum
                obtain ⟨p, -, hp⟩ := hnum
                have hv := (Prod.mk.inj (Option.some.inj hp)).1
                unfold NumLit.value at hv
                split at hv
                · split at hv
                  · cases hv
                  · cases hv
                · cases hv
    · cases h
  · cases h

/-! ## Where a text ends -/

/-- The same, whatever stands outside of strings. -/
def Lex.next : Lex → Char → Lex
  | .bare, c => if c = '"' then .quoted else .bare
  | .quoted, c => if c = '"' then .bare else if c = '\\' then .escaped else .quoted
  | .escaped, _ => .quoted

theorem next_of_step {q q' : Lex} {c : Char} (h : q.step c = some q') : q.next c = q' := by
  cases q with
  | bare =>
    rw [Lex.step] at h
    rw [Lex.next]
    split at h
    · rename_i hc
      rw [if_pos hc]
      exact Option.some.inj h
    · rename_i hc
      rw [if_neg hc]
      split at h
      · exact Option.some.inj h
      · cases h
  | quoted => exact Option.some.inj h
  | escaped => exact Option.some.inj h

theorem foldl_next_of_lex {q q' : Lex} {cs : List Char} (h : lex q cs = some q') :
    cs.foldl Lex.next q = q' := by
  induction cs generalizing q with
  | nil => exact Option.some.inj h
  | cons c cs ih =>
    rw [lex, Option.bind_eq_some_iff] at h
    obtain ⟨q₁, hstep, hrest⟩ := h
    rw [List.foldl_cons, next_of_step hstep]
    exact ih hrest

theorem foldl_next_unquoted {cs : List Char} (h : '"' ∉ cs) : cs.foldl Lex.next .bare = .bare := by
  induction cs with
  | nil => rfl
  | cons c cs ih =>
    rw [List.mem_cons, not_or] at h
    rw [List.foldl_cons, Lex.next, if_neg (Ne.symm h.1)]
    exact ih h.2

/-! ## Strings that are not turned into ASCII -/

/-- One character within the quotes, where only quotes, backslashes and control characters are
escaped. -/
def escapeChar (c : Char) : List Char :=
  match shortEscapes.find? fun e => e.2.val = c.toNat with
  | some e => ['\\', e.1]
  | none => if c.toNat < 0x20 then (Text.encode c.toNat).flatMap hexEscape else [c]

def escapeString (s : List Char) : List Char := s.flatMap escapeChar

theorem escapeString_append (s s' : List Char) :
    escapeString (s ++ s') = escapeString s ++ escapeString s' := List.flatMap_append

theorem encode_control {n : Nat} (h : n < 0x20) : Text.encode n = [Fin.ofNat 65536 n] :=
  if_pos (Nat.lt_trans h (by decide))

/-- A character that is not escaped. -/
theorem escapeChar_cases (c : Char) :
    escapeChar c = [c] ∧ c ≠ '"' ∧ c ≠ '\\' ∧ ¬ c.toNat < 0x20 ∨
      ∃ x cs, escapeChar c = '\\' :: x :: cs ∧ (∀ d ∈ x :: cs, 0x20 < d.toNat ∧ d.toNat < 0x7f) ∧
        ∀ d ∈ cs, d ≠ '"' ∧ d ≠ '\\' := by
  have hhex : ∀ d : Fin 16, (0x20 < (hexDigit d).toNat ∧ (hexDigit d).toNat < 0x7f) ∧
      hexDigit d ≠ '"' ∧ hexDigit d ≠ '\\' := by decide
  unfold escapeChar
  split
  · rename_i e he
    refine .inr ⟨e.1, [], rfl, ?_, by simp⟩
    have hall : ∀ e ∈ shortEscapes, 0x20 < e.1.toNat ∧ e.1.toNat < 0x7f := by decide
    intro d hd
    rw [List.mem_singleton.mp hd]
    exact hall e (List.mem_of_find?_eq_some he)
  · rename_i hnone
    split
    · rename_i hc
      rw [encode_control hc, List.flatMap_singleton]
      refine .inr ⟨'u', _, rfl, ?_, ?_⟩
      · simp only [List.mem_cons, List.not_mem_nil, or_false]
        rintro d (rfl | rfl | rfl | rfl | rfl)
        · decide
        · exact (hhex _).1
        · exact (hhex _).1
        · exact (hhex _).1
        · exact (hhex _).1
      · simp only [List.mem_cons, List.not_mem_nil, or_false]
        rintro d (rfl | rfl | rfl | rfl)
        · exact (hhex _).2
        · exact (hhex _).2
        · exact (hhex _).2
        · exact (hhex _).2
    · rename_i hc
      refine .inl ⟨rfl, ?_, ?_, hc⟩
      · rintro rfl
        revert hnone
        decide
      · rintro rfl
        revert hnone
        decide

theorem scanString_escapeChar (c : Char) (cs : List Char) :
    scanString (escapeChar c ++ cs) =
      (scanString cs).map fun (s, rest) => (Text.encode c.toNat ++ s, rest) := by
  unfold escapeChar
  split
  · rename_i e he
    have hval : e.2.val = c.toNat := by simpa using List.find?_some he
    rw [List.cons_append, List.singleton_append, scanString_short (List.mem_of_find?_eq_some he),
      ← hval, Text.encode_unit]
    rfl
  · rename_i hnone
    split
    · rename_i hc
      rw [encode_control hc, List.flatMap_singleton, scanString_hex]
      rfl
    · rename_i hc
      have hplain : c ≠ '"' ∧ c ≠ '\\' := by
        constructor
        · rintro rfl
          revert hnone
          decide
        · rintro rfl
          revert hnone
          decide
      exact scanString_plain hplain.1 hplain.2 hc cs

theorem quotes_escapeString (s : String) : Quotes (escapeString s.toList) (Text.ofString s) := by
  intro rest
  unfold escapeString Text.ofString
  induction s.toList with
  | nil => exact scanString_quote rest
  | cons c cs ih =>
    rw [List.flatMap_cons, List.append_assoc, scanString_escapeChar, ih, Option.map_some,
      List.flatMap_cons]

/-- Within its quotes a string does not end. -/
theorem foldl_next_escapeString (s : List Char) :
    (escapeString s).foldl Lex.next .quoted = .quoted := by
  have hplain : ∀ cs : List Char, (∀ d ∈ cs, d ≠ '"' ∧ d ≠ '\\') →
      cs.foldl Lex.next .quoted = .quoted := by
    intro cs hcs
    induction cs with
    | nil => rfl
    | cons d cs ih =>
      obtain ⟨hq, hb⟩ := hcs d (List.mem_cons_self ..)
      rw [List.foldl_cons, Lex.next, if_neg hq, if_neg hb]
      exact ih fun d' hd' => hcs d' (List.mem_cons_of_mem d hd')
  unfold escapeString
  induction s with
  | nil => rfl
  | cons c s ih =>
    rw [List.flatMap_cons, List.foldl_append]
    rcases escapeChar_cases c with ⟨heq, hq, hb, -⟩ | ⟨x, cs, heq, -, hcs⟩
    · rw [heq, List.foldl_cons, Lex.next, if_neg hq, if_neg hb]
      exact ih
    · rw [heq, List.foldl_cons, List.foldl_cons]
      show List.foldl Lex.next (cs.foldl Lex.next .quoted) _ = _
      rw [hplain cs hcs]
      exact ih

/-- Every quote stands after a backslash. -/
def Shielded (cs : List Char) : Prop := ∀ before after, cs = before ++ '"' :: after → '\\' ∈ before

theorem shielded_escapeString (s : List Char) : Shielded (escapeString s) := by
  unfold escapeString
  induction s with
  | nil =>
    intro before after h
    cases before <;> cases h
  | cons c s ih =>
    intro before after h
    rw [List.flatMap_cons] at h
    rcases escapeChar_cases c with ⟨heq, hq, -⟩ | ⟨x, cs, heq, -⟩
    · rw [heq, List.singleton_append] at h
      cases before with
      | nil => exact absurd (List.cons.inj h).1 hq
      | cons d before => exact List.mem_cons_of_mem d (ih before after (List.cons.inj h).2)
    · rw [heq, List.cons_append] at h
      cases before with
      | nil => exact absurd (List.cons.inj h).1 (by decide)
      | cons d before =>
        rw [← (List.cons.inj h).1]
        exact List.mem_cons_self ..

end Json
