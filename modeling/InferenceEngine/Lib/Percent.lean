import Mathlib.Data.List.Basic
import InferenceEngine.Lib.PyStr
import InferenceEngine.Lib.Utf8

/-!
# Lib.Percent

`urllib.parse.unquote_plus` with `errors="replace"`, and `quote_plus`. The bytes of neighbouring
escapes are one UTF-8 text; what is not an escape is kept.

* `unquotePlus_append`: a delimiter that cannot be part of an escape splits the text.
* `mem_quotePlus`: which characters are left when a text is quoted.
-/

namespace Percent

def hexDigit (c : Char) : Option Nat :=
  if c.isDigit then some (c.toNat - 48)
  else if 'a' ≤ c ∧ c ≤ 'f' then some (c.toNat - 87)
  else if 'A' ≤ c ∧ c ≤ 'F' then some (c.toNat - 55)
  else none

/-- The byte of two digits. -/
def hexByte (a b : Char) : Option UInt8 :=
  match hexDigit a, hexDigit b with
  | some x, some y => some (UInt8.ofNat (16 * x + y))
  | _, _ => none

/-- A byte sequence that was begun ends here. -/
def flush (p : Option Utf8.Pending) : List Char := if p.isSome then [Utf8.replacement] else []

/-- A character that is not an escape. -/
def literal (p : Option Utf8.Pending) (c : Char) : List Char × Option Utf8.Pending :=
  if c.toNat < 128 then Utf8.step p (UInt8.ofNat c.toNat) else (flush p ++ [c], none)

def unquoteFrom (p : Option Utf8.Pending) : List Char → List Char
  | [] => flush p
  | '%' :: a :: b :: cs =>
    match hexByte a b with
    | some byte => (Utf8.step p byte).1 ++ unquoteFrom (Utf8.step p byte).2 cs
    | none => (literal p '%').1 ++ unquoteFrom (literal p '%').2 (a :: b :: cs)
  | c :: cs => (literal p c).1 ++ unquoteFrom (literal p c).2 cs

def unquote (cs : List Char) : List Char := unquoteFrom none cs

def unquotePlus (cs : List Char) : List Char := unquote (cs.map fun c => if c = '+' then ' ' else c)

def digit (n : Nat) : Char := Char.ofNat (if n < 10 then 48 + n else 55 + n)

/-- A byte of `quote`; `safe` is what is kept beside the unreserved characters. -/
def quoteByte (safe : List Char) (b : UInt8) : List Char :=
  let c := Char.ofNat b.toNat
  if b.toNat < 128 ∧ (c.isAlphanum ∨ c ∈ ['_', '.', '-', '~'] ∨ c ∈ safe) then [c]
  else ['%', digit (b.toNat / 16), digit (b.toNat % 16)]

/-- `quote_plus`. -/
def quotePlus (safe : List Char) (cs : List Char) : List Char :=
  cs.flatMap fun c => if c = ' ' then ['+'] else (String.utf8EncodeChar c).flatMap (quoteByte safe)

/-- A character that is no part of an escape. -/
structure Delimiter (c : Char) : Prop where
  ascii : c.toNat < 128
  digit : hexDigit c = none
  percent : c ≠ '%'
  plus : c ≠ '+'

variable {c d : Char} {a b cs : List Char} {p : Option Utf8.Pending}

/-- A byte of ASCII is a character of its own, and ends what was begun. -/
theorem step_ascii (hp : ∀ q ∈ p, 0x80 ≤ q.lo) (hc : c.toNat < 128) :
    Utf8.step p (UInt8.ofNat c.toNat) = (flush p ++ [c], none) := by
  have hbyte : (UInt8.ofNat c.toNat).toNat = c.toNat := Utf8.toNat_ofNat (by omega)
  have hfirst : Utf8.first (UInt8.ofNat c.toNat) = ([c], none) := by
    simp only [Utf8.first, hbyte, hc, if_true]
    rw [Char.ofNat_toNat]
  cases p with
  | none => exact hfirst
  | some q =>
    have hlo := hp q rfl
    have hout : ¬(q.lo ≤ c.toNat ∧ c.toNat ≤ q.hi) := by omega
    simp only [Utf8.step, hbyte, hfirst, hout, if_false]
    rfl

theorem literal_eq (hp : ∀ q ∈ p, 0x80 ≤ q.lo) (c : Char) :
    literal p c = (flush p ++ [c], none) := by
  unfold literal
  split
  · next hc => exact step_ascii hp hc
  · rfl

/-- No byte of a sequence after its first is one of ASCII. -/
theorem step_lo (p : Option Utf8.Pending) (byte : UInt8) :
    ∀ q ∈ (Utf8.step p byte).2, 0x80 ≤ q.lo := by
  have hfirst : ∀ q ∈ (Utf8.first byte).2, 0x80 ≤ q.lo := by
    intro q hq
    unfold Utf8.first at hq
    grind
  cases p with
  | none => exact hfirst
  | some p =>
    intro q hq
    simp only [Utf8.step] at hq
    split at hq
    · split at hq
      · cases hq
      · cases hq
        exact Nat.le_refl _
    · exact hfirst q hq

theorem hexByte_right (h : Delimiter d) (a : Char) : hexByte a d = none := by
  unfold hexByte
  rw [h.digit]
  cases hexDigit a <;> rfl

theorem hexByte_left (h : Delimiter d) (b : Char) : hexByte d b = none := by
  unfold hexByte
  rw [h.digit]

theorem unquoteFrom_literal (h : c = '%' → ∀ x y t, cs = x :: y :: t → hexByte x y = none) :
    unquoteFrom p (c :: cs) = (literal p c).1 ++ unquoteFrom (literal p c).2 cs := by
  rw [unquoteFrom.eq_def]
  split
  · next hnil => cases hnil
  · next x y t heq =>
    cases heq
    rw [h rfl x y t rfl]
  · next heq =>
    cases heq
    rfl

theorem unquoteFrom_delimiter (hd : Delimiter d) (hp : ∀ q ∈ p, 0x80 ≤ q.lo) :
    unquoteFrom p (d :: b) = flush p ++ d :: unquoteFrom none b := by
  rw [unquoteFrom_literal fun h => absurd h hd.percent, literal_eq hp, List.append_assoc]
  rfl

theorem unquoteFrom_append (hd : Delimiter d) (hp : ∀ q ∈ p, 0x80 ≤ q.lo) (a b : List Char) :
    unquoteFrom p (a ++ d :: b) = unquoteFrom p a ++ d :: unquoteFrom none b := by
  fun_induction unquoteFrom p a with
  | case1 p => exact unquoteFrom_delimiter hd hp
  | case2 p x y cs byte hbyte ih =>
    rw [List.cons_append, List.cons_append, List.cons_append, unquoteFrom, hbyte]
    simp only [ih (step_lo p byte), List.append_assoc]
  | case3 p x y cs hbyte ih =>
    have hnext : ∀ q ∈ (literal p '%').2, 0x80 ≤ q.lo := by simp [literal_eq hp]
    rw [List.cons_append, List.cons_append, List.cons_append, unquoteFrom, hbyte]
    simp only [List.append_assoc]
    exact congrArg _ (ih hnext)
  | case4 p c cs hshort ih =>
    have hnext : ∀ q ∈ (literal p c).2, 0x80 ≤ q.lo := by simp [literal_eq hp]
    have hescape : c = '%' → ∀ x y t, cs ++ d :: b = x :: y :: t → hexByte x y = none := by
      intro hc x y t heq
      rcases cs with _ | ⟨z, _ | ⟨w, t'⟩⟩
      · obtain ⟨rfl, -⟩ := List.cons.inj heq
        exact hexByte_left hd y
      · obtain ⟨rfl, htail⟩ := List.cons.inj heq
        obtain ⟨rfl, -⟩ := List.cons.inj htail
        exact hexByte_right hd z
      · exact (hshort z w t' hc rfl).elim
    rw [List.cons_append, unquoteFrom_literal hescape, ih hnext, List.append_assoc]

theorem unquotePlus_append (hd : Delimiter d) (a b : List Char) :
    unquotePlus (a ++ d :: b) = unquotePlus a ++ d :: unquotePlus b := by
  unfold unquotePlus unquote
  rw [List.map_append, List.map_cons, if_neg hd.plus]
  exact unquoteFrom_append hd (fun q hq => by cases hq) _ _

theorem digit_mem {n : Nat} (hn : n < 16) : digit n ∈ "0123456789ABCDEF".toList := by
  revert n
  decide

/-- The characters of a quoted text. -/
def Quoted (safe : List Char) (c : Char) : Prop :=
  c.isAlphanum ∨ c ∈ ['_', '.', '-', '~', '+', '%'] ∨ c ∈ safe

theorem quoted_digit {safe : List Char} {n : Nat} (hn : n < 16) : Quoted safe (digit n) := by
  have hall : ∀ c ∈ "0123456789ABCDEF".toList, c.isAlphanum := Py.forall_of_all (by decide)
  exact .inl (hall _ (digit_mem hn))

theorem mem_quotePlus {safe : List Char} (h : c ∈ quotePlus safe cs) : Quoted safe c := by
  obtain ⟨d, -, hc⟩ := List.mem_flatMap.mp h
  split at hc
  · obtain rfl := List.mem_singleton.mp hc
    exact .inr (.inl (by decide))
  · obtain ⟨byte, -, hc⟩ := List.mem_flatMap.mp hc
    unfold quoteByte at hc
    dsimp only at hc
    split at hc
    · next hkeep =>
      obtain rfl := List.mem_singleton.mp hc
      rcases hkeep.2 with hal | hun | hsafe
      · exact .inl hal
      · exact .inr (.inl (List.mem_append_left ['+', '%'] hun))
      · exact .inr (.inr hsafe)
    · have hbyte : byte.toNat < 256 := UInt8.toNat_lt byte
      simp only [List.mem_cons, List.not_mem_nil, or_false] at hc
      rcases hc with rfl | rfl | rfl
      · exact .inr (.inl (by decide))
      · exact quoted_digit (by omega)
      · exact quoted_digit (by omega)

end Percent
