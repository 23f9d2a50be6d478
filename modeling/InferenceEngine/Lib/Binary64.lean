import Mathlib.Algebra.Order.Field.Rat
import Mathlib.Data.Int.Log
import Mathlib.Data.Rat.Floor
import Mathlib.Tactic.Linarith
import Mathlib.Tactic.NormNum

/-!
# Lib.Binary64

Floats as the rational numbers they stand for. The result of an operation is the exact one, rounded
to 53 binary digits, to the even one of two that are as near; too large a result is an infinity.
Both zeros are one here.

* `rounded_eq_self`, `ofRat_of_isFloat`: what is a float already is kept.
-/

namespace InferenceEngine

/-- The nearest integer, and of two the even one. -/
def halfEven (x : ℚ) : ℤ :=
  if x - ⌊x⌋ < 1 / 2 then ⌊x⌋
  else if 1 / 2 < x - ⌊x⌋ then ⌊x⌋ + 1
  else if ⌊x⌋ % 2 = 0 then ⌊x⌋
  else ⌊x⌋ + 1

theorem halfEven_intCast (m : ℤ) : halfEven m = m := by
  unfold halfEven
  rw [Int.floor_intCast, sub_self, if_pos (by norm_num)]

theorem halfEven_floor (x : ℚ) : halfEven x = ⌊x⌋ ∨ halfEven x = ⌊x⌋ + 1 := by
  unfold halfEven
  split_ifs <;> simp

theorem halfEven_mono {x y : ℚ} (h : x ≤ y) : halfEven x ≤ halfEven y := by
  have hfloor := Int.floor_le_floor h
  rcases hfloor.lt_or_eq with hlt | heq
  · have hx := halfEven_floor x
    have hy := halfEven_floor y
    omega
  · unfold halfEven
    rw [heq]
    split_ifs <;> first | omega | linarith

theorem halfEven_abs_le {x : ℚ} {n : ℤ} (h : |x| ≤ n) : |halfEven x| ≤ n := by
  obtain ⟨hlow, hhigh⟩ := abs_le.mp h
  have hfloor : -n ≤ ⌊x⌋ := Int.le_floor.mpr (by exact_mod_cast hlow)
  rw [abs_le]
  rcases hhigh.lt_or_eq with hlt | heq
  · have hless : ⌊x⌋ < n := Int.floor_lt.mpr hlt
    rcases halfEven_floor x with hround | hround <;> omega
  · rw [heq, halfEven_intCast]
    rw [heq, Int.floor_intCast] at hfloor
    exact ⟨hfloor, le_refl n⟩

namespace Binary64

/-- The exponent of the last binary digit that is kept. -/
def lastPlace (q : ℚ) : ℤ := max (Int.log 2 |q| - 52) (-1074)

/-- The nearest number of that many digits, however large. -/
def rounded (q : ℚ) : ℚ := halfEven (q / 2 ^ lastPlace q) * 2 ^ lastPlace q

/-- A number of 53 binary digits. -/
def HasDigits (q : ℚ) : Prop := ∃ m e : ℤ, |m| < 2 ^ 53 ∧ -1074 ≤ e ∧ q = m * 2 ^ e

/-- A number that is a float. -/
structure IsFloat (q : ℚ) : Prop where
  digits : HasDigits q
  bounded : |q| < 2 ^ 1024

theorem two_zpow_pos (e : ℤ) : (0 : ℚ) < 2 ^ e := zpow_pos (by norm_num) e

/-- The digits of a number are not cut. -/
theorem lastPlace_le {m e : ℤ} (hm : |m| < 2 ^ 53) (he : -1074 ≤ e) (hne : m ≠ 0) :
    lastPlace ((m : ℚ) * 2 ^ e) ≤ e := by
  refine max_le ?_ he
  have hpos : (0 : ℚ) < |(m : ℚ) * 2 ^ e| :=
    abs_pos.mpr (mul_ne_zero (Int.cast_ne_zero.mpr hne) (two_zpow_pos e).ne')
  have hless : |(m : ℚ) * 2 ^ e| < ((2 : ℕ) : ℚ) ^ (53 + e) := by
    have hcast : |(m : ℚ)| < 2 ^ (53 : ℤ) := by exact_mod_cast hm
    rw [abs_mul, abs_of_pos (two_zpow_pos e), Nat.cast_ofNat, zpow_add₀ two_ne_zero]
    exact mul_lt_mul_of_pos_right hcast (two_zpow_pos e)
  have hlog := (Int.lt_zpow_iff_log_lt Nat.one_lt_two hpos).mp hless
  omega

theorem rounded_eq_self {q : ℚ} (h : HasDigits q) : rounded q = q := by
  obtain ⟨m, e, hm, he, rfl⟩ := h
  by_cases hzero : m = 0
  · subst hzero
    have hround : halfEven 0 = 0 := by exact_mod_cast halfEven_intCast 0
    unfold rounded
    simp [hround]
  · have hplace := lastPlace_le hm he hzero
    unfold rounded
    generalize lastPlace ((m : ℚ) * 2 ^ e) = k at hplace ⊢
    obtain ⟨n, hn⟩ := Int.eq_ofNat_of_zero_le (sub_nonneg.mpr hplace)
    have hquotient : (m : ℚ) * 2 ^ e / 2 ^ k = ((m * 2 ^ n : ℤ) : ℚ) := by
      rw [mul_div_assoc, ← zpow_sub₀ two_ne_zero, hn]
      push_cast
      rfl
    rw [hquotient, halfEven_intCast, ← hquotient, div_mul_cancel₀ _ (two_zpow_pos k).ne']

theorem scaled_abs_le (q : ℚ) : |q / 2 ^ lastPlace q| ≤ ((2 ^ 53 : ℤ) : ℚ) := by
  have hlog : |q| < ((2 : ℕ) : ℚ) ^ (Int.log 2 |q| + 1) :=
    Int.lt_zpow_succ_log_self Nat.one_lt_two |q|
  have hplace : Int.log 2 |q| + 1 ≤ 53 + lastPlace q := by
    have := le_max_left (Int.log 2 |q| - 52) (-1074)
    unfold lastPlace
    omega
  rw [abs_div, abs_of_pos (two_zpow_pos (lastPlace q)), div_le_iff₀ (two_zpow_pos _)]
  calc |q| ≤ ((2 : ℕ) : ℚ) ^ (Int.log 2 |q| + 1) := hlog.le
    _ ≤ 2 ^ (53 + lastPlace q) := by
      rw [Nat.cast_ofNat]
      exact zpow_le_zpow_right₀ (by norm_num) hplace
    _ = ((2 ^ 53 : ℤ) : ℚ) * 2 ^ lastPlace q := by
      rw [zpow_add₀ two_ne_zero]
      norm_cast

theorem rounded_digits (q : ℚ) : HasDigits (rounded q) := by
  have hplace : -1074 ≤ lastPlace q := le_max_right ..
  have hround := halfEven_abs_le (scaled_abs_le q)
  unfold rounded
  rcases hround.lt_or_eq with hlt | heq
  · exact ⟨_, _, hlt, hplace, rfl⟩
  · -- the power of two above
    rcases (abs_eq (by norm_num)).mp heq with heq | heq
    · refine ⟨2 ^ 52, lastPlace q + 1, by norm_num, by omega, ?_⟩
      rw [heq, zpow_add_one₀ two_ne_zero]
      push_cast
      ring
    · refine ⟨-2 ^ 52, lastPlace q + 1, by norm_num, by omega, ?_⟩
      rw [heq, zpow_add_one₀ two_ne_zero]
      push_cast
      ring

end Binary64

inductive Binary64 where
  | finite (q : ℚ) (isFloat : Binary64.IsFloat q)
  | infinity (negative : Bool)
  | nan
  deriving DecidableEq

/-- What an operation raises. -/
inductive FloatError where
  | overflow
  | zeroDivision
  deriving DecidableEq

namespace Binary64

def value? : Binary64 → Option ℚ
  | finite q _ => some q
  | _ => none

def ofRat (q : ℚ) : Binary64 :=
  if h : |rounded q| < 2 ^ 1024 then finite (rounded q) ⟨rounded_digits q, h⟩
    else infinity (decide (q < 0))

/-- `float(n)` -/
def ofInt (n : ℤ) : Except FloatError Binary64 :=
  if |rounded n| < 2 ^ 1024 then .ok (ofRat n) else .error .overflow

/-- `x - y` -/
def sub : Binary64 → Binary64 → Binary64
  | nan, _ => nan
  | _, nan => nan
  | finite x _, finite y _ => ofRat (x - y)
  | finite _ _, infinity negative => infinity !negative
  | infinity negative, finite _ _ => infinity negative
  | infinity negative, infinity negative' => if negative = negative' then nan else infinity negative

/-- `x / y` -/
def div (x y : Binary64) : Except FloatError Binary64 :=
  if y.value? = some 0 then .error .zeroDivision
  else
    .ok <| match x, y with
      | nan, _ => nan
      | _, nan => nan
      | finite x _, finite y _ => ofRat (x / y)
      | finite _ _, infinity _ => ofRat 0
      | infinity negative, finite y _ => infinity (negative != decide (y < 0))
      | infinity _, infinity _ => nan

/-- `x <= 0` -/
def nonpos : Binary64 → Bool
  | finite q _ => decide (q ≤ 0)
  | infinity negative => negative
  | nan => false

theorem eq_finite {x : Binary64} {q : ℚ} (h : x.value? = some q) : ∃ hq, x = finite q hq := by
  cases x with
  | finite q' hq =>
    cases h
    exact ⟨hq, rfl⟩
  | infinity negative => cases h
  | nan => cases h

theorem ofRat_of_isFloat {q : ℚ} (h : IsFloat q) : ofRat q = finite q h := by
  have hround := rounded_eq_self h.digits
  unfold ofRat
  rw [dif_pos (by rw [hround]; exact h.bounded)]
  simp only [hround]

theorem ofInt_of_isFloat {n : ℤ} (h : IsFloat n) : ofInt n = .ok (finite n h) := by
  unfold ofInt
  rw [if_pos (by rw [rounded_eq_self h.digits]; exact h.bounded), ofRat_of_isFloat h]

theorem sub_of_isFloat {x y : ℚ} {hx : IsFloat x} {hy : IsFloat y} (h : IsFloat (x - y)) :
    sub (finite x hx) (finite y hy) = finite (x - y) h := ofRat_of_isFloat h

theorem div_of_isFloat {x y : ℚ} {hx : IsFloat x} {hy : IsFloat y} (hne : y ≠ 0)
    (h : IsFloat (x / y)) :
    div (finite x hx) (finite y hy) = .ok (finite (x / y) h) := by
  unfold div
  rw [if_neg (by simpa [value?] using hne)]
  exact congrArg Except.ok (ofRat_of_isFloat h)

/-- Integers of 53 digits are floats. -/
theorem isFloat_intCast {n : ℤ} (h : |n| < 2 ^ 53) : IsFloat n := by
  refine ⟨⟨n, 0, h, by norm_num, by simp⟩, ?_⟩
  have hcast : |(n : ℚ)| < 2 ^ 53 := by exact_mod_cast h
  exact hcast.trans (pow_lt_pow_right₀ (by norm_num) (by norm_num))

end Binary64

end InferenceEngine
