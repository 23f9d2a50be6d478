import Mathlib.Algebra.Ring.Nat
import Mathlib.Data.Prod.Lex
import InferenceEngine.Lib.JsonRoundTrip
import InferenceEngine.Lib.PyStr

/-!
# Release.Versions

Version strings as the release tooling reads them: `VERSION_RE`, `TAG_RE`, `_vtuple` and
`parse_tag`. Which characters `\d` matches, and what `int` makes of them, is left to the
interpreter's Unicode tables (`Digits`).

* `parseTag_tagOf`: a version that is read is also read from its tag.
* `vtuple_render`: a version that is written is read back.
* `Line.tag_inj`: the convenience tags of two lines differ, and none of them is the tag of a
  version.
-/

namespace InferenceEngine
namespace Release

/-- The characters of category Nd, with their values. -/
structure Digits where
  value : Char → Option Nat
  ascii : ∀ c : Char, c.toNat < 128 → value c = if c.isDigit then some (c.toNat - 48) else none

/-- An interpreter that knows no others than `0` to `9`. -/
def asciiValue (c : Char) : Option Nat := if c.isDigit then some (c.toNat - 48) else none

theorem asciiValue_ascii (c : Char) (_ : c.toNat < 128) :
    asciiValue c = if c.isDigit then some (c.toNat - 48) else none := rfl

def asciiDigits : Digits := ⟨asciiValue, asciiValue_ascii⟩

inductive Error where
  /-- `ReleaseError`, "not a MAJOR.MINOR.PATCH version". -/
  | notVersion (version : List Char)
  /-- `ReleaseError`, "release tag must be vMAJOR.MINOR.PATCH". -/
  | notTag (tag : List Char)
  /-- `ValueError` of `int`. -/
  | tooManyDigits

/-- What `_vtuple` returns. -/
structure VTuple where
  major : Nat
  minor : Nat
  patch : Nat
  deriving DecidableEq

/-- Tuples are compared item by item. -/
def VTuple.key (v : VTuple) : Nat ×ₗ Nat ×ₗ Nat := toLex (v.major, toLex (v.minor, v.patch))

theorem VTuple.key_injective : Function.Injective VTuple.key := by
  rintro ⟨x, y, z⟩ ⟨x', y', z'⟩ h
  have hpair := Prod.mk.inj (toLex.injective h)
  have hrest := Prod.mk.inj (toLex.injective hpair.2)
  rw [VTuple.mk.injEq]
  exact ⟨hpair.1, hrest.1, hrest.2⟩

instance : LinearOrder VTuple := LinearOrder.lift' VTuple.key VTuple.key_injective

variable (D : Digits)

def isDecimal (c : Char) : Bool := (D.value c).isSome

/-- `(0|[1-9]\d*)`, and what stands after it. -/
def component : List Char → Option (List Char × List Char)
  | [] => none
  | c :: cs =>
    if c = '0' then some ([c], cs)
    else if '1' ≤ c ∧ c ≤ '9' then some (c :: cs.takeWhile (isDecimal D),
      cs.dropWhile (isDecimal D))
    else none

/-- `\.`. -/
def dot : List Char → Option (List Char)
  | '.' :: cs => some cs
  | _ => none

/-- `VERSION_RE`, with its groups; `$` also matches before a line feed at the end. -/
def versionMatch (version : List Char) : Option (List Char × List Char × List Char) := do
  let (major, rest) ← component D version
  let (minor, rest) ← component D (← dot rest)
  let (patch, rest) ← component D (← dot rest)
  if rest = [] ∨ rest = ['\n'] then some (major, minor, patch) else none

/-- `TAG_RE.match`. -/
def tagMatch : List Char → Bool
  | 'v' :: cs => (versionMatch D cs).isSome
  | _ => false

/-- `sys.get_int_max_str_digits()`. -/
def maxStrDigits : Nat := 4300

/-- `int` of decimal digits. -/
def int (digits : List Char) : Except Error Nat :=
  if maxStrDigits < digits.length then .error .tooManyDigits
  else .ok (digits.foldl (fun n c => 10 * n + (D.value c).getD 0) 0)

/-- `_vtuple`. -/
def vtuple (version : List Char) : Except Error VTuple :=
  match versionMatch D version with
  | none => .error (.notVersion version)
  | some (major, minor, patch) => do return ⟨← int D major, ← int D minor, ← int D patch⟩

/-- `parse_tag`. -/
def parseTag (tag : List Char) : Except Error (List Char) :=
  if tagMatch D tag then .ok (tag.drop 1) else .error (.notTag tag)

/-- `f"v{version}"`. -/
def tagOf (version : List Char) : List Char := 'v' :: version

structure Version where
  text : List Char
  tuple : VTuple
  valid : vtuple D text = .ok tuple

variable {D}

theorem Version.ext_text {u v : Version D} (h : u.text = v.text) : u = v := by
  obtain ⟨text, tuple, valid⟩ := u
  obtain ⟨text', tuple', valid'⟩ := v
  obtain rfl : text = text' := h
  obtain rfl : tuple = tuple' := Except.ok.inj (valid.symm.trans valid')
  rfl

theorem Version.tagMatch (v : Version D) : tagMatch D (tagOf v.text) = true := by
  have hvalid := v.valid
  simp only [Release.tagMatch, tagOf]
  unfold vtuple at hvalid
  cases hmatch : versionMatch D v.text with
  | none => rw [hmatch] at hvalid; cases hvalid
  | some groups => rfl

/-- A version that is read is also read from its tag. -/
theorem Version.parseTag_tagOf (v : Version D) : parseTag D (tagOf v.text) = .ok v.text := by
  rw [parseTag, v.tagMatch, if_pos rfl]
  rfl

section Lines

/-- What a convenience tag stands for. -/
inductive Line where
  | minor (x y : Nat)
  | major (x : Nat)
  | all
  deriving DecidableEq

/-- The decimal digits of a number. -/
def str (n : Nat) : List Char := Nat.toDigits 10 n

def latest : List Char := "latest".toList

def Line.tag : Line → List Char
  | .minor x y => str x ++ '.' :: str y
  | .major x => str x
  | .all => latest

/-- Is a version of the line? -/
def Line.has : Line → VTuple → Bool
  | .minor x y, v => v.major = x && v.minor = y
  | .major x, v => v.major = x
  | .all, _ => true

theorem str_inj {x y : Nat} (h : str x = str y) : x = y := by
  have hx : Nat.ofDigitChars 10 (str x) 0 = x := Nat.ofDigitChars_ten_toDigits
  have hy : Nat.ofDigitChars 10 (str y) 0 = y := Nat.ofDigitChars_ten_toDigits
  rw [← hx, h, hy]

theorem isDigit_of_mem_str {x : Nat} {c : Char} (h : c ∈ str x) : c.isDigit = true :=
  Nat.isDigit_of_mem_toDigits (by decide) (by decide) h

theorem dot_not_mem_str (x : Nat) : '.' ∉ str x := fun h => by
  have := isDigit_of_mem_str h
  contradiction

/-- A tag of digits begins with one. -/
theorem head_str (x : Nat) (rest : List Char) :
    ∃ c, (str x ++ rest).head? = some c ∧ c.isDigit = true := by
  obtain ⟨c, cs, htext, hc⟩ := Json.head_toDigits x rest
  exact ⟨c, by rw [str, htext]; rfl, hc⟩

theorem Line.head_tag (line : Line) :
    ∃ c, line.tag.head? = some c ∧ (c.isDigit = true ∨ c = 'l') := by
  cases line with
  | minor x y =>
    obtain ⟨c, hc, hdigit⟩ := head_str x ('.' :: str y)
    exact ⟨c, hc, .inl hdigit⟩
  | major x =>
    obtain ⟨c, hc, hdigit⟩ := head_str x []
    rw [List.append_nil] at hc
    exact ⟨c, hc, .inl hdigit⟩
  | all => exact ⟨'l', rfl, .inr rfl⟩

theorem Line.tag_ne_tagOf (line : Line) (version : List Char) : line.tag ≠ tagOf version := by
  intro h
  obtain ⟨c, hc, hkind⟩ := line.head_tag
  rw [h] at hc
  obtain rfl := Option.some.inj hc
  rcases hkind with hdigit | hl
  · contradiction
  · contradiction

theorem Line.tag_minor_ne (line : Line) (hline : ∀ x y, line ≠ .minor x y) (x y : Nat) :
    (Line.minor x y).tag ≠ line.tag := by
  intro h
  have hdot : '.' ∈ line.tag := by
    rw [← h]
    exact List.mem_append_right _ (List.mem_cons_self ..)
  cases line with
  | minor x y => exact hline x y rfl
  | major x => exact dot_not_mem_str x hdot
  | all => exact absurd hdot (by decide)

theorem Line.tag_major_ne_latest (x : Nat) : (Line.major x).tag ≠ Line.all.tag := by
  intro h
  have hl : 'l' ∈ str x := by
    rw [show str x = Line.all.tag from h]
    exact List.mem_cons_self ..
  have := isDigit_of_mem_str hl
  contradiction

theorem Line.tag_inj {line line' : Line} (h : line.tag = line'.tag) : line = line' := by
  cases line with
  | minor x y =>
    cases line' with
    | minor x' y' =>
      have hsplit := congrArg (Py.partition '.') h
      rw [Line.tag, Line.tag, Py.partition_append (dot_not_mem_str x),
        Py.partition_append (dot_not_mem_str x')] at hsplit
      obtain ⟨hmajor, hminor⟩ := Prod.mk.inj hsplit
      rw [str_inj hmajor, str_inj hminor]
    | major x' => exact absurd h (Line.tag_minor_ne _ (by simp) x y)
    | all => exact absurd h (Line.tag_minor_ne _ (by simp) x y)
  | major x =>
    cases line' with
    | minor x' y' => exact absurd h.symm (Line.tag_minor_ne _ (by simp) x' y')
    | major x' => rw [str_inj h]
    | all => exact absurd h (Line.tag_major_ne_latest x)
  | all =>
    cases line' with
    | minor x' y' => exact absurd h.symm (Line.tag_minor_ne _ (by simp) x' y')
    | major x' => exact absurd h.symm (Line.tag_major_ne_latest x')
    | all => rfl

end Lines

section Render

/-- A version as `MAJOR.MINOR.PATCH`. -/
def VTuple.render (v : VTuple) : List Char :=
  str v.major ++ '.' :: (str v.minor ++ '.' :: str v.patch)

theorem value_of_isDigit {c : Char} (h : c.isDigit = true) : D.value c = some (c.toNat - 48) := by
  have hrange : 48 ≤ c.toNat ∧ c.toNat ≤ 57 := by simpa [Char.isDigit_iff_toNat] using h
  rw [D.ascii c (by omega), if_pos h]

theorem isDecimal_dot : isDecimal D '.' = false := by
  rw [isDecimal, D.ascii '.' (by decide)]
  rfl

theorem component_str (x : Nat) {rest : List Char} (hr : ∀ c ∈ rest.head?, isDecimal D c = false) :
    component D (str x ++ rest) = some (str x, rest) := by
  rcases Nat.eq_zero_or_pos x with rfl | hx
  · rw [show str 0 = ['0'] from Nat.toDigits_zero 10]
    rfl
  · have hzero := Json.toDigits_head_ne_zero hx
    cases htext : str x with
    | nil => exact absurd htext Nat.toDigits_ne_nil
    | cons c cs =>
      have hdigits : ∀ d ∈ c :: cs, d.isDigit = true :=
          fun d hd => isDigit_of_mem_str (x := x) (htext ▸ hd)
      have hc : c ≠ '0' := hzero c (by rw [show Nat.toDigits 10 x = c :: cs from htext]; rfl)
      have hrange : '1' ≤ c ∧ c ≤ '9' := by
        have hdigit : 48 ≤ c.toNat ∧ c.toNat ≤ 57 := by
          simpa [Char.isDigit_iff_toNat] using hdigits c (List.mem_cons_self ..)
        have hne : c.toNat ≠ 48 := fun h => hc (Char.toNat_inj.mp h)
        simp only [Char.le_def, UInt32.le_iff_toNat_le]
        exact ⟨Nat.lt_of_le_of_ne hdigit.1 (Ne.symm hne), hdigit.2⟩
      have hcs : ∀ d ∈ cs, isDecimal D d = true := fun d hd => by
        rw [isDecimal, value_of_isDigit (hdigits d (List.mem_cons_of_mem c hd))]
        rfl
      obtain ⟨htake, hdrop⟩ := Py.takeWhile_run hcs hr
      rw [List.cons_append, component, if_neg hc, if_pos hrange, htake, hdrop]

theorem foldl_value (cs : List Char) (hcs : ∀ c ∈ cs, c.isDigit = true) :
    ∀ n, cs.foldl (fun n c => 10 * n + (D.value c).getD 0) n = Nat.ofDigitChars 10 cs n := by
  induction cs with
  | nil => exact fun _ => rfl
  | cons c cs ih =>
    intro n
    rw [List.foldl_cons, value_of_isDigit (hcs c (List.mem_cons_self ..)), Option.getD_some,
      ih fun d hd => hcs d (List.mem_cons_of_mem c hd), Nat.ofDigitChars_cons]
    rfl

theorem int_str {x : Nat} (hx : x < 10 ^ maxStrDigits) : int D (str x) = .ok x := by
  have hshort : ¬ maxStrDigits < (str x).length :=
    Nat.not_lt.mpr ((Nat.length_toDigits_le_iff (by decide) (by decide)).mpr hx)
  rw [int, if_neg hshort, foldl_value _ (fun c hc => isDigit_of_mem_str hc)]
  exact congrArg _ Nat.ofDigitChars_ten_toDigits

theorem vtuple_render {v : VTuple} (hmajor : v.major < 10 ^ maxStrDigits)
    (hminor : v.minor < 10 ^ maxStrDigits) (hpatch : v.patch < 10 ^ maxStrDigits) :
    vtuple D v.render = .ok v := by
  have hdot : ∀ rest : List Char, ∀ c ∈ ('.' :: rest).head?, isDecimal D c = false :=
      fun rest c hc => by
    obtain rfl := Option.some.inj hc
    exact isDecimal_dot
  have hmatch : versionMatch D v.render = some (str v.major, str v.minor, str v.patch) := by
    have hlast : component D (str v.patch ++ []) = some (str v.patch, []) :=
      component_str v.patch fun c hc => by cases hc
    rw [List.append_nil] at hlast
    simp only [versionMatch, VTuple.render, component_str _ (hdot _), Option.bind_eq_bind,
      Option.bind_some, dot, hlast]
    rfl
  simp only [vtuple, hmatch, int_str hmajor, int_str hminor, int_str hpatch]
  rfl

end Render

end Release
end InferenceEngine
