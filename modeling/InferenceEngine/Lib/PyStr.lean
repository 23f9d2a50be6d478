import Mathlib.Data.List.DropRight

/-!
# Lib.PyStr

Python's string methods, on lists of characters: `split` and `strip` of whitespace, `partition` at a
character and `splitlines`; and `repr`, of strings. Whitespace and line boundaries are Unicode's, as
`str.isspace` and `str.splitlines` have them.

* `split_intercalate` undoes `" ".join`.
* `splitOn_suffix_iff`: a text ends with the parts of another.
* `splitlines_append`: what stands before a line feed is split on its own.
* `takeWhile_append_stop`, `dropWhile_append_stop`: a run of characters ends where one of another
  kind stands.
-/

namespace Py

/-- `str.isspace` of one character. -/
def isSpace (c : Char) : Bool :=
  let n := c.toNat
  (0x09 ≤ n && n ≤ 0x0D) || (0x1C ≤ n && n ≤ 0x20) || n == 0x85 || n == 0xA0 || n == 0x1680 ||
    (0x2000 ≤ n && n ≤ 0x200A) || n == 0x2028 || n == 0x2029 || n == 0x202F || n == 0x205F ||
    n == 0x3000

/-- `split`, with the characters of the word so far, the last one first. -/
def splitWords (word : List Char) : List Char → List (List Char)
  | [] => if word.isEmpty then [] else [word.reverse]
  | c :: cs =>
    if isSpace c then
      if word.isEmpty then splitWords [] cs else word.reverse :: splitWords [] cs
    else splitWords (c :: word) cs

/-- `s.split()`. -/
def split (cs : List Char) : List (List Char) := splitWords [] cs

/-- What stands before and after the first `sep`; all of it before when there is none. -/
def partition (sep : Char) (cs : List Char) : List Char × List Char :=
  (cs.takeWhile (· ≠ sep), (cs.dropWhile (· ≠ sep)).drop 1)

/-- `s.strip()`. -/
def strip (cs : List Char) : List Char := (cs.dropWhile isSpace).rdropWhile isSpace

/-- What `int` passes over at the ends of a text: of ASCII's whitespace not the four separators. -/
def isBlank (c : Char) : Bool := isSpace c && !(0x1C ≤ c.toNat && c.toNat ≤ 0x1F)

def stripBlank (cs : List Char) : List Char := (cs.dropWhile isBlank).rdropWhile isBlank

/-- A line boundary. -/
def isLineBreak (c : Char) : Bool :=
  let n := c.toNat
  (0x0A ≤ n && n ≤ 0x0D) || (0x1C ≤ n && n ≤ 0x1E) || n == 0x85 || n == 0x2028 || n == 0x2029

/-- `splitlines`, with the characters of the line so far, the last one first. -/
def splitlinesFrom (line : List Char) : List Char → List (List Char)
  | [] => if line.isEmpty then [] else [line.reverse]
  | '\r' :: '\n' :: cs => line.reverse :: splitlinesFrom [] cs
  | c :: cs =>
    if isLineBreak c then line.reverse :: splitlinesFrom [] cs else splitlinesFrom (c :: line) cs

/-- `s.splitlines()`. -/
def splitlines (cs : List Char) : List (List Char) := splitlinesFrom [] cs

/-- What `repr` writes for a character between its quotes. One outside ASCII is taken to be
printable. -/
def reprChar (quote c : Char) : List Char :=
  if c = quote ∨ c = '\\' then ['\\', c]
  else if c = '\t' then ['\\', 't']
  else if c = '\n' then ['\\', 'n']
  else if c = '\r' then ['\\', 'r']
  else if c.toNat < 0x20 ∨ c.toNat = 0x7f then
    ['\\', 'x', Nat.digitChar (c.toNat / 16), Nat.digitChar (c.toNat % 16)]
  else [c]

/-- `repr(s)`: in apostrophes, or in quotation marks when the text has apostrophes and no quotation
mark. -/
def repr (s : String) : String :=
  let apostrophe := Char.ofNat 0x27
  let quote := if s.toList.contains apostrophe && !s.toList.contains '"' then '"' else apostrophe
  String.ofList (quote :: s.toList.flatMap (reprChar quote) ++ [quote])

example : repr "it's" = "\"it's\"" ∧ repr "a\tb" = "'a\\tb'" := by decide

/-- Does a capital letter of a pattern match the character under `re.IGNORECASE`? An `I`, a `K` and
an `S` also match letters outside ASCII: the dotted capital and the dotless small one, the Kelvin
sign, the long s. -/
def eqIgnoreCase (upper c : Char) : Bool :=
  c = upper || c = upper.toLower || (upper = 'I' && (c.toNat = 0x130 || c.toNat = 0x131)) ||
    (upper = 'K' && c.toNat = 0x212A) || (upper = 'S' && c.toNat = 0x17F)

/-- Does a text begin with the capital letters and digits of a pattern under `re.IGNORECASE`? -/
def beginsIgnoreCase : List Char → List Char → Bool
  | [], _ => true
  | _ :: _, [] => false
  | u :: us, c :: cs => eqIgnoreCase u c && beginsIgnoreCase us cs

/-- A word without whitespace is read up to what comes after it. -/
theorem splitWords_append {cs : List Char} (hcs : ∀ c ∈ cs, isSpace c = false)
    (word rest : List Char) :
    splitWords word (cs ++ rest) = splitWords (cs.reverse ++ word) rest := by
  induction cs generalizing word with
  | nil => rfl
  | cons c cs ih =>
    have hc : isSpace c = false := hcs c (List.mem_cons_self ..)
    rw [List.cons_append, splitWords, hc, if_neg Bool.false_ne_true,
      ih (fun c' hc' => hcs c' (List.mem_cons_of_mem c hc')), List.reverse_cons, List.append_assoc,
      List.singleton_append]

theorem split_intercalate {words : List (List Char)}
    (h : ∀ word ∈ words, word ≠ [] ∧ ∀ c ∈ word, isSpace c = false) :
    split ([' '].intercalate words) = words := by
  induction words with
  | nil => rfl
  | cons word words ih =>
    obtain ⟨hne, hword⟩ := h word (List.mem_cons_self ..)
    have hrev : word.reverse.isEmpty = false := by simpa using hne
    have ih := ih fun w hw => h w (List.mem_cons_of_mem word hw)
    cases words with
    | nil =>
      rw [List.intercalate_singleton, split, ← List.append_nil word, splitWords_append hword,
        List.append_nil, List.append_nil, splitWords, hrev, if_neg Bool.false_ne_true,
        List.reverse_reverse]
    | cons word' words =>
      rw [List.intercalate_cons_cons, split, List.append_assoc, splitWords_append hword,
        List.append_nil, List.singleton_append, splitWords, if_pos (by decide), hrev,
        if_neg Bool.false_ne_true, List.reverse_reverse]
      exact congrArg (word :: ·) ih

theorem partition_append {sep : Char} {before : List Char} (hsep : sep ∉ before)
    (after : List Char) :
    partition sep (before ++ sep :: after) = (before, after) := by
  have hbefore : ∀ c ∈ before, (decide (c ≠ sep)) = true := by
    intro c hc
    rw [decide_eq_true_eq]
    rintro rfl
    exact hsep hc
  unfold partition
  rw [List.takeWhile_append_of_pos hbefore, List.dropWhile_append_of_pos hbefore]
  simp

theorem mem_intercalate {c sep : Char} {xs : List (List Char)} (h : c ∈ [sep].intercalate xs) :
    c = sep ∨ ∃ x ∈ xs, c ∈ x := by
  induction xs with
  | nil => cases h
  | cons x xs ih =>
    by_cases hxs : xs = []
    · subst hxs
      rw [List.intercalate_singleton] at h
      exact .inr ⟨x, List.mem_cons_self .., h⟩
    · rw [List.intercalate_cons_of_ne_nil hxs, List.append_assoc, List.singleton_append] at h
      rcases List.mem_append.mp h with h | h
      · exact .inr ⟨x, List.mem_cons_self .., h⟩
      · rcases List.mem_cons.mp h with rfl | h
        · exact .inl rfl
        · rcases ih h with rfl | ⟨y, hy, hc⟩
          · exact .inl rfl
          · exact .inr ⟨y, List.mem_cons_of_mem x hy, hc⟩

theorem intercalate_append {α : Type*} {sep : List α} {xs ys : List (List α)} (hxs : xs ≠ [])
    (hys : ys ≠ []) :
    sep.intercalate (xs ++ ys) = sep.intercalate xs ++ sep ++ sep.intercalate ys := by
  induction xs with
  | nil => exact absurd rfl hxs
  | cons x xs ih =>
    cases xs with
    | nil =>
      rw [List.singleton_append, List.intercalate_cons_of_ne_nil hys, List.intercalate_singleton]
    | cons x' xs =>
      have ih := ih (by simp)
      rw [List.cons_append, List.cons_append, List.intercalate_cons_cons, ← List.cons_append, ih,
        List.intercalate_cons_cons]
      simp only [List.append_assoc]

/-- The last parts of a text are the parts of what ends it, behind a separator or as a whole. -/
theorem splitOn_suffix_iff {α : Type*} [BEq α] [LawfulBEq α] {sep : α} {cs ds : List α} :
    cs.splitOn sep <:+ ds.splitOn sep ↔ ds = cs ∨ sep :: cs <:+ ds := by
  constructor
  · rintro ⟨before, h⟩
    have hds : [sep].intercalate (ds.splitOn sep) = ds := List.intercalate_splitOn ..
    rw [← h] at hds
    by_cases hb : before = []
    · subst hb
      rw [List.nil_append, List.intercalate_splitOn] at hds
      exact .inl hds.symm
    · rw [intercalate_append hb (List.splitOn_ne_nil _ _), List.intercalate_splitOn,
        List.append_assoc] at hds
      exact .inr ⟨_, hds⟩
  · rintro (rfl | ⟨before, rfl⟩)
    · exact List.suffix_refl _
    · rw [List.splitOn_append_cons_self]
      exact List.suffix_append ..

theorem splitlinesFrom_cons {c : Char} (hc : c ≠ '\r') (line cs : List Char) :
    splitlinesFrom line (c :: cs) =
      if isLineBreak c then line.reverse :: splitlinesFrom [] cs
      else splitlinesFrom (c :: line) cs := by
  rw [splitlinesFrom]
  intro cs' h
  exact absurd h hc

theorem splitlinesFrom_append {cs : List Char} (hcs : '\r' ∉ cs) (line rest : List Char) :
    splitlinesFrom line (cs ++ '\n' :: rest) =
      cs.splitOnPPrepend isLineBreak line ++ splitlinesFrom [] rest := by
  induction cs generalizing line with
  | nil => rfl
  | cons c cs ih =>
    rw [List.mem_cons, not_or] at hcs
    rw [List.cons_append, splitlinesFrom_cons (Ne.symm hcs.1)]
    cases hc : isLineBreak c with
    | true =>
      rw [if_pos rfl, ih hcs.2, List.splitOnPPrepend_cons_pos hc]
      rfl
    | false =>
      rw [if_neg Bool.false_ne_true, ih hcs.2, List.splitOnPPrepend_cons_neg hc]

theorem splitlines_append {cs : List Char} (hcs : '\r' ∉ cs) (rest : List Char) :
    splitlines (cs ++ '\n' :: rest) = cs.splitOnP isLineBreak ++ splitlines rest :=
  splitlinesFrom_append hcs [] rest

theorem strip_spec (cs : List Char) : ∃ before after, cs = before ++ (strip cs ++ after) ∧
    (∀ c ∈ before, isSpace c = true) ∧ ∀ c ∈ after, isSpace c = true := by
  refine ⟨cs.takeWhile isSpace, (cs.dropWhile isSpace).rtakeWhile isSpace, ?_, ?_, ?_⟩
  · rw [strip, List.rdropWhile_append_rtakeWhile, List.takeWhile_append_dropWhile]
  · exact fun c hc => List.mem_takeWhile_imp hc
  · exact fun c hc => List.mem_rtakeWhile_imp hc

theorem strip_eq_self {c d : Char} (hc : isSpace c = false) (hd : isSpace d = false)
    {cs : List Char} (hlast : (c :: cs).getLast? = some d) : strip (c :: cs) = c :: cs := by
  have hdrop : (c :: cs).dropWhile isSpace = c :: cs := by simp [hc]
  rw [strip, hdrop, List.rdropWhile_eq_self_iff]
  intro hne
  rw [List.getLast?_eq_some_getLast hne, Option.some.injEq] at hlast
  rw [hlast, hd]
  exact Bool.false_ne_true

theorem strip_clean {cs : List Char} (h : ∀ c ∈ cs, isSpace c = false) : strip cs = cs := by
  cases cs with
  | nil => rfl
  | cons c cs =>
    exact strip_eq_self (h c List.mem_cons_self) (h _ (List.getLast_mem (List.cons_ne_nil c cs)))
      (List.getLast?_eq_some_getLast _)

theorem stripBlank_clean {cs : List Char} (h : ∀ c ∈ cs, isSpace c = false) :
    stripBlank cs = cs := by
  have hblank : ∀ c ∈ cs, isBlank c = false := by
    intro c hc
    rw [isBlank, h c hc, Bool.false_and]
  have hdrop : cs.dropWhile isBlank = cs := by
    rw [List.dropWhile_eq_self_iff]
    intro hpos
    rw [hblank _ (List.getElem_mem hpos)]
    exact Bool.false_ne_true
  rw [stripBlank, hdrop, List.rdropWhile_eq_self_iff]
  intro hne
  rw [hblank _ (List.getLast_mem hne)]
  exact Bool.false_ne_true

theorem isDigit_toNat {c : Char} (h : c.isDigit = true) : 48 ≤ c.toNat ∧ c.toNat ≤ 57 := by
  simp only [Char.isDigit, Bool.and_eq_true, decide_eq_true_eq, UInt32.le_iff_toNat_le] at h
  exact h

theorem isSpace_of_isDigit {c : Char} (h : c.isDigit = true) : isSpace c = false := by
  obtain ⟨hlow, hhigh⟩ := isDigit_toNat h
  simp only [isSpace, Bool.or_eq_false_iff, Bool.and_eq_false_iff, decide_eq_false_iff_not,
    beq_eq_false_iff_ne]
  omega

section Runs

variable {α : Type} {p : α → Bool} {c : α} {l : List α}

theorem takeWhile_append_stop (hc : p c = false) (a b : List α) :
    (a ++ c :: b).takeWhile p = a.takeWhile p := by
  induction a with
  | nil => simp [hc]
  | cons d a ih => simp only [List.cons_append, List.takeWhile_cons, ih]

theorem dropWhile_append_stop (hc : p c = false) (a b : List α) :
    (a ++ c :: b).dropWhile p = a.dropWhile p ++ c :: b := by
  induction a with
  | nil => simp [hc]
  | cons d a ih =>
    rw [List.cons_append, List.dropWhile_cons, List.dropWhile_cons, ih]
    split <;> rfl

theorem forall_of_all {P : α → Prop} [DecidablePred P] (h : (l.all fun d => decide (P d)) = true) :
    ∀ d ∈ l, P d :=
  fun d hd => of_decide_eq_true (List.all_eq_true.mp h d hd)

theorem forall_of_all_option {P : α → Prop} [DecidablePred P] {o : Option α}
    (h : (o.all fun d => decide (P d)) = true) : ∀ d ∈ o, P d := by
  intro d hd
  cases hd
  exact of_decide_eq_true h

/-- Either all of a text is one run, or the run ends at a character of it. -/
theorem run_or_stop (p : α → Bool) (a : List α) :
    (∀ c ∈ a, p c = true) ∨ ∃ run c b, a = run ++ c :: b ∧ (∀ c ∈ run, p c = true) ∧
      p c = false := by
  induction a with
  | nil => exact .inl (List.forall_mem_nil _)
  | cons d a ih =>
    cases hd : p d with
    | false => exact .inr ⟨[], d, a, rfl, List.forall_mem_nil _, hd⟩
    | true =>
      rcases ih with hall | ⟨run, c, b, rfl, hrun, hc⟩
      · exact .inl (List.forall_mem_cons.mpr ⟨hd, hall⟩)
      · exact .inr ⟨d :: run, c, b, rfl, List.forall_mem_cons.mpr ⟨hd, hrun⟩, hc⟩

/-- Either all of a text is one run, or its last run begins after a character of it. -/
theorem run_or_last_stop (p : α → Bool) (a : List α) :
    (∀ c ∈ a, p c = true) ∨ ∃ b c run, a = b ++ c :: run ∧ p c = false ∧ ∀ c ∈ run, p c = true := by
  induction a with
  | nil => exact .inl (List.forall_mem_nil _)
  | cons d a ih =>
    rcases ih with hall | ⟨b, c, run, rfl, hc, hrun⟩
    · cases hd : p d with
      | true => exact .inl (List.forall_mem_cons.mpr ⟨hd, hall⟩)
      | false => exact .inr ⟨[], d, a, rfl, hd, hall⟩
    · exact .inr ⟨d :: b, c, run, rfl, hc, hrun⟩

theorem takeWhile_run {a b : List α} (ha : ∀ c ∈ a, p c = true) (hb : ∀ c ∈ b.head?, p c = false) :
    (a ++ b).takeWhile p = a ∧ (a ++ b).dropWhile p = b := by
  rw [List.takeWhile_append_of_pos ha, List.dropWhile_append_of_pos ha]
  cases b with
  | nil => simp
  | cons c b => simp [hb c rfl]

/-- The end of a text has no `c`, so it begins after it. -/
theorem suffix_append_cons (hc : c ∉ l) {a b : List α} (h : l <:+ a ++ c :: b) : l <:+ b := by
  obtain ⟨x, hx⟩ := h
  rcases List.append_eq_append_iff.mp hx with ⟨z, rfl, rfl⟩ | ⟨z, rfl, hz⟩
  · simp at hc
  · cases z with
    | nil =>
      cases l with
      | nil => exact List.nil_suffix
      | cons d l =>
        cases hz
        simp at hc
    | cons d z =>
      cases hz
      exact ⟨z, rfl⟩

/-- What ends in a character that is kept is kept, whatever follows. -/
theorem rdropWhile_append {a : List α} (hne : a ≠ []) (hlast : ∀ c ∈ a.getLast?, p c = false)
    (b : List α) : (a ++ b).rdropWhile p = a ++ b.rdropWhile p ∧
      (a ++ b).rtakeWhile p = b.rtakeWhile p := by
  have hdrop : (a ++ b).rdropWhile p = a ++ b.rdropWhile p := by
    have hself : a.reverse.dropWhile p = a.reverse := by
      rw [List.getLast?_eq_some_getLast hne] at hlast
      obtain ⟨x, c, rfl⟩ : ∃ x c, a = x ++ [c] :=
        ⟨a.dropLast, a.getLast hne, (List.dropLast_concat_getLast hne).symm⟩
      simp at hlast
      simp [hlast]
    unfold List.rdropWhile
    rw [List.reverse_append, List.dropWhile_append]
    split
    · next hempty =>
      rw [List.isEmpty_iff] at hempty
      rw [hself, hempty]
      simp
    · rw [List.reverse_append, List.reverse_reverse]
  refine ⟨hdrop, (List.append_right_inj (a ++ b.rdropWhile p)).mp ?_⟩
  rw [← hdrop, List.rdropWhile_append_rtakeWhile, hdrop, List.append_assoc,
    List.rdropWhile_append_rtakeWhile]

end Runs

end Py
