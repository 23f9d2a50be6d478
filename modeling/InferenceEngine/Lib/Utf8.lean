import Mathlib.Data.List.Basic

/-!
# Lib.Utf8

UTF-8 as `bytes.decode("utf-8", errors="replace")` reads it: a byte that cannot go on with the
sequence before it ends that sequence, which is replaced as a whole, and is read again as a first
byte.

`decode_encode`: what is encoded is decoded to itself.

A Python string is a sequence of code points, and a surrogate is one of them. `encode?` is the
strict encoding, which raises for a surrogate.
-/

namespace Utf8

/-- A sequence that has begun: the bytes it still needs, its bits so far and the bounds of its next
byte. -/
structure Pending where
  need : Nat
  code : Nat
  lo : Nat
  hi : Nat

/-- U+FFFD. -/
def replacement : Char := Char.ofNat 0xFFFD

/-- A byte where a character begins. -/
def first (b : UInt8) : List Char × Option Pending :=
  let n := b.toNat
  if n < 0x80 then ([Char.ofNat n], none)
  else if 0xC2 ≤ n ∧ n ≤ 0xDF then ([], some ⟨1, n - 0xC0, 0x80, 0xBF⟩)
  -- no overlong forms, no surrogates
  else if 0xE0 ≤ n ∧ n ≤ 0xEF then
    ([], some ⟨2, n - 0xE0, if n = 0xE0 then 0xA0 else 0x80, if n = 0xED then 0x9F else 0xBF⟩)
  -- nothing above U+10FFFF
  else if 0xF0 ≤ n ∧ n ≤ 0xF4 then
    ([], some ⟨3, n - 0xF0, if n = 0xF0 then 0x90 else 0x80, if n = 0xF4 then 0x8F else 0xBF⟩)
  else ([replacement], none)

/-- The characters that a byte completes, and the sequence after it. -/
def step : Option Pending → UInt8 → List Char × Option Pending
  | none, b => first b
  | some p, b =>
    if p.lo ≤ b.toNat ∧ b.toNat ≤ p.hi then
      let code := p.code * 64 + (b.toNat - 0x80)
      if p.need = 1 then ([Char.ofNat code], none) else ([], some ⟨p.need - 1, code, 0x80, 0xBF⟩)
    else (replacement :: (first b).1, (first b).2)

def decodeFrom (p : Option Pending) : List UInt8 → List Char
  | [] => if p.isSome then [replacement] else []
  | b :: bs => (step p b).1 ++ decodeFrom (step p b).2 bs

def decode (bs : List UInt8) : List Char := decodeFrom none bs

def encode (cs : List Char) : List UInt8 := cs.flatMap String.utf8EncodeChar

/-- A code point of a Python string: a character, or the surrogate U+D800 + `n`. -/
inductive CodePoint where
  | char (c : Char)
  | surrogate (n : Fin 2048)
  deriving DecidableEq, Repr

abbrev Text := List CodePoint

def Text.ofString (s : String) : Text := s.toList.map .char

def CodePoint.char? : CodePoint → Option Char
  | .char c => some c
  | .surrogate _ => none

/-- `text.encode("utf-8")`; `none` is a `UnicodeEncodeError`. -/
def encode? (t : Text) : Option (List UInt8) := (t.mapM CodePoint.char?).map encode

theorem toNat_ofNat {n : Nat} (h : n < 256) : (UInt8.ofNat n).toNat = n := by
  rw [UInt8.toNat_ofNat']
  exact Nat.mod_eq_of_lt h

theorem ofNat_val (c : Char) {n : Nat} (h : n = c.val.toNat) : Char.ofNat n = c := by
  subst h
  exact Char.ofNat_toNat c

theorem val_bounds (c : Char) :
    c.val.toNat < 0xD800 ∨ 0xDFFF < c.val.toNat ∧ c.val.toNat < 0x110000 := c.valid

theorem step_more {p : Pending} {n : Nat} (hn : n < 256) (hlo : p.lo ≤ n) (hhi : n ≤ p.hi)
    (hneed : p.need ≠ 1) :
    step (some p) (UInt8.ofNat n) = ([],
      some ⟨p.need - 1, p.code * 64 + (n - 0x80), 0x80, 0xBF⟩) := by
  simp only [step, toNat_ofNat hn]
  rw [if_pos ⟨hlo, hhi⟩, if_neg hneed]

theorem step_last {p : Pending} {n : Nat} (hn : n < 256) (hlo : p.lo ≤ n) (hhi : n ≤ p.hi)
    (hneed : p.need = 1) :
    step (some p) (UInt8.ofNat n) = ([Char.ofNat (p.code * 64 + (n - 0x80))], none) := by
  simp only [step, toNat_ofNat hn]
  rw [if_pos ⟨hlo, hhi⟩, if_pos hneed]

theorem first_one {v : Nat} (h : v < 0x80) : first (UInt8.ofNat v) = ([Char.ofNat v], none) := by
  simp only [first, toNat_ofNat (show v < 256 by omega)]
  rw [if_pos h]

theorem first_two {v : Nat} (h1 : 0x7f < v) (h2 : v ≤ 0x7ff) :
    first (UInt8.ofNat (v / 64 % 0x20 + 0xc0)) = ([], some ⟨1, v / 64, 0x80, 0xBF⟩) := by
  simp only [first, toNat_ofNat (show v / 64 % 0x20 + 0xc0 < 256 by omega)]
  rw [if_neg (by omega), if_pos (by omega)]
  have hcode : v / 64 % 0x20 + 0xc0 - 0xC0 = v / 64 := by omega
  rw [hcode]

theorem first_three {v : Nat} (h2 : 0x7ff < v) (h3 : v ≤ 0xffff) :
    first (UInt8.ofNat (v / 4096 % 0x10 + 0xe0)) =
      ([], some ⟨2, v / 4096, if v / 4096 = 0 then 0xA0 else 0x80,
        if v / 4096 = 0xD then 0x9F else 0xBF⟩) := by
  simp only [first, toNat_ofNat (show v / 4096 % 0x10 + 0xe0 < 256 by omega)]
  rw [if_neg (by omega), if_neg (by omega), if_pos (by omega)]
  have hcode : v / 4096 % 0x10 + 0xe0 - 0xE0 = v / 4096 := by omega
  have hlo : (v / 4096 % 0x10 + 0xe0 = 0xE0) = (v / 4096 = 0) := by
    rw [eq_iff_iff]
    omega
  have hhi : (v / 4096 % 0x10 + 0xe0 = 0xED) = (v / 4096 = 0xD) := by
    rw [eq_iff_iff]
    omega
  simp only [hcode, hlo, hhi]

theorem first_four {v : Nat} (h3 : 0xffff < v) (h4 : v < 0x110000) :
    first (UInt8.ofNat (v / 262144 % 0x08 + 0xf0)) =
      ([], some ⟨3, v / 262144, if v / 262144 = 0 then 0x90 else 0x80,
        if v / 262144 = 4 then 0x8F else 0xBF⟩) := by
  simp only [first, toNat_ofNat (show v / 262144 % 0x08 + 0xf0 < 256 by omega)]
  rw [if_neg (by omega), if_neg (by omega), if_neg (by omega), if_pos (by omega)]
  have hcode : v / 262144 % 0x08 + 0xf0 - 0xF0 = v / 262144 := by omega
  have hlo : (v / 262144 % 0x08 + 0xf0 = 0xF0) = (v / 262144 = 0) := by
    rw [eq_iff_iff]
    omega
  have hhi : (v / 262144 % 0x08 + 0xf0 = 0xF4) = (v / 262144 = 4) := by
    rw [eq_iff_iff]
    omega
  simp only [hcode, hlo, hhi]

/-- A character is read whatever comes after it. -/
theorem decodeFrom_encodeChar (c : Char) (rest : List UInt8) :
    decodeFrom none (String.utf8EncodeChar c ++ rest) = c :: decodeFrom none rest := by
  have hval := val_bounds c
  have hchar : ∀ n, n = c.val.toNat → Char.ofNat n = c := fun _ => ofNat_val c
  simp only [String.utf8EncodeChar]
  generalize c.val.toNat = v at hval hchar
  split
  · simp only [List.cons_append, List.nil_append, decodeFrom]
    rw [show step none _ = _ from first_one (by omega), hchar v rfl]
    rfl
  · split
    · simp only [List.cons_append, List.nil_append, decodeFrom]
      rw [show step none _ = _ from first_two (by omega) (by omega)]
      rw [step_last (by omega) (by simp) (by simp; omega) rfl, hchar _ (by simp; omega)]
      rfl
    · split
      · simp only [List.cons_append, List.nil_append, decodeFrom]
        rw [show step none _ = _ from first_three (by omega) (by omega)]
        rw [step_more (by omega) (by simp; split <;> omega) (by simp; split <;> omega) (by simp)]
        rw [step_last (by omega) (by simp) (by simp; omega) rfl, hchar _ (by simp; omega)]
        rfl
      · simp only [List.cons_append, List.nil_append, decodeFrom]
        rw [show step none _ = _ from first_four (by omega) (by omega)]
        rw [step_more (by omega) (by simp; split <;> omega) (by simp; split <;> omega) (by simp)]
        rw [step_more (by omega) (by simp) (by simp; omega) (by simp)]
        rw [step_last (by omega) (by simp) (by simp; omega) rfl, hchar _ (by simp; omega)]
        rfl

theorem decodeFrom_encode (cs : List Char) (rest : List UInt8) :
    decodeFrom none (encode cs ++ rest) = cs ++ decodeFrom none rest := by
  unfold encode
  induction cs with
  | nil => rfl
  | cons c cs ih =>
    rw [List.flatMap_cons, List.append_assoc, decodeFrom_encodeChar, ih, List.cons_append]

theorem decode_encode (cs : List Char) : decode (encode cs) = cs := by
  have h := decodeFrom_encode cs []
  rw [List.append_nil, decodeFrom, if_neg (by decide), List.append_nil] at h
  exact h

end Utf8
