import DelayedOrderSms.Python.Int
import Mathlib.Algebra.Order.Field.Power
import Mathlib.Data.Int.Log
import Mathlib.Data.Rat.Floor
import Mathlib.Tactic.FieldSimp
import Mathlib.Tactic.Linarith
import Mathlib.Tactic.Positivity

/-!
# Division of integers

`a / b` of two integers is a float: the double nearest to the quotient, and the one with an even
last digit if two are as near.  A number that is too large for a double raises.

* `toDouble_intCast`, `exists_toDouble` — an integer of 53 digits is a double, and any other number
  is near one.
* `exists_trueDivision` — the quotient of small integers has the right whole part, and a fractional
  part that is near enough to tell different ones apart.
-/

namespace Python

/-- The nearest integer, and the even one of two that are as near. -/
def roundHalfEven (q : ℚ) : ℤ :=
  if 2 * Int.fract q < 1 then ⌊q⌋
  else if 1 < 2 * Int.fract q then ⌊q⌋ + 1
  else if ⌊q⌋ % 2 = 0 then ⌊q⌋ else ⌊q⌋ + 1

/-- The exponent of the last of 53 binary digits; near zero there are fewer. -/
def lastPlace (q : ℚ) : ℤ := max (Int.log 2 |q| - 52) (-1074)

/-- The nearest double. -/
def toDouble (q : ℚ) : Except Exception ℚ :=
  let rounded : ℚ := (roundHalfEven (q / 2 ^ lastPlace q) : ℚ) * 2 ^ lastPlace q
  if |rounded| < 2 ^ 1024 then .ok rounded else .error { type := .overflowError }

example : toDouble (7 / 5 : ℚ) = .ok (6305039478318694 / 4503599627370496) := by decide +kernel

lemma roundHalfEven_intCast (z : ℤ) : roundHalfEven z = z := by
  simp [roundHalfEven]

lemma abs_roundHalfEven_sub_le (q : ℚ) : |(roundHalfEven q : ℚ) - q| ≤ 1 / 2 := by
  have hsplit := Int.floor_add_fract q
  have hnonneg := Int.fract_nonneg q
  have hlt := Int.fract_lt_one q
  rw [abs_le, roundHalfEven]
  split_ifs
  · constructor <;> linarith
  · push_cast
    constructor <;> linarith
  · constructor <;> linarith
  · push_cast
    constructor <;> linarith

lemma abs_rounded_sub_le (q : ℚ) :
    |(roundHalfEven (q / 2 ^ lastPlace q) : ℚ) * 2 ^ lastPlace q - q| ≤ 2 ^ lastPlace q / 2 := by
  have hpos : (0 : ℚ) < 2 ^ lastPlace q := by positivity
  have hle := abs_roundHalfEven_sub_le (q / 2 ^ lastPlace q)
  have hq : (roundHalfEven (q / 2 ^ lastPlace q) : ℚ) * 2 ^ lastPlace q - q
      = ((roundHalfEven (q / 2 ^ lastPlace q) : ℚ) - q / 2 ^ lastPlace q) * 2 ^ lastPlace q := by
    field_simp
  rw [hq, abs_mul, abs_of_pos hpos]
  calc _ ≤ 1 / 2 * 2 ^ lastPlace q := mul_le_mul_of_nonneg_right hle hpos.le
    _ = 2 ^ lastPlace q / 2 := by ring

/-- The last place of a number that is not too near to zero. -/
lemma two_zpow_lastPlace_le {q : ℚ} (h : (2 : ℚ) ^ (-1022 : ℤ) ≤ |q|) :
    (2 : ℚ) ^ lastPlace q ≤ |q| / 2 ^ 52 := by
  have hpos : 0 < |q| := lt_of_lt_of_le (by positivity) h
  have hlog : -1022 ≤ Int.log 2 |q| := (Int.zpow_le_iff_le_log Nat.one_lt_two hpos).mp (by exact_mod_cast h)
  have hplace : lastPlace q = Int.log 2 |q| - 52 := max_eq_left (by omega)
  have hle : (2 : ℚ) ^ Int.log 2 |q| ≤ |q| := by
    exact_mod_cast Int.zpow_log_le_self (b := 2) Nat.one_lt_two hpos
  rw [hplace, zpow_sub₀ two_ne_zero]
  exact div_le_div_of_nonneg_right hle (by positivity)

/-- An integer with no more than 53 digits is a double. -/
lemma toDouble_intCast {z : ℤ} (h : |z| < 2 ^ 53) : toDouble z = .ok (z : ℚ) := by
  have hlog : Int.log 2 |(z : ℚ)| ≤ 52 := by
    have hlt : |(z : ℚ)| < 2 ^ 53 := by exact_mod_cast h
    rcases (abs_nonneg (z : ℚ)).eq_or_lt with hz | hz
    · rw [← hz, Int.log_zero_right]
      decide
    · have hlog : Int.log 2 |(z : ℚ)| < 53 :=
        (Int.lt_zpow_iff_log_lt Nat.one_lt_two hz).mp (by exact_mod_cast hlt)
      omega
  obtain ⟨k, hk⟩ : ∃ k : ℕ, lastPlace (z : ℚ) = -k := by
    refine ⟨(-lastPlace (z : ℚ)).toNat, ?_⟩
    have hle : lastPlace (z : ℚ) ≤ 0 := max_le (by omega) (by decide)
    omega
  have hscaled : (z : ℚ) / 2 ^ lastPlace (z : ℚ) = ((z * 2 ^ k : ℤ) : ℚ) := by
    rw [hk, zpow_neg, div_inv_eq_mul, zpow_natCast]
    push_cast
    rfl
  have hrounded : (roundHalfEven ((z : ℚ) / 2 ^ lastPlace (z : ℚ)) : ℚ) * 2 ^ lastPlace (z : ℚ) = z := by
    rw [hscaled, roundHalfEven_intCast, ← hscaled, div_mul_cancel₀]
    positivity
  have hsmall : |(z : ℚ)| < 2 ^ 1024 := by
    have hlt : |(z : ℚ)| < 2 ^ 53 := by exact_mod_cast h
    exact hlt.trans (pow_lt_pow_right₀ (by norm_num) (by norm_num))
  rw [toDouble]
  simp only [hrounded, hsmall, if_true]

/-- **A number in the middle of the range has a double** that differs from it by no more than the
54th digit. -/
theorem exists_toDouble {q : ℚ} (hlow : (2 : ℚ) ^ (-1022 : ℤ) ≤ |q|) (hhigh : |q| < 2 ^ 1023) :
    ∃ r, toDouble q = .ok r ∧ |r - q| ≤ |q| / 2 ^ 53 := by
  have hplace := two_zpow_lastPlace_le hlow
  have hnear := abs_rounded_sub_le q
  set r : ℚ := (roundHalfEven (q / 2 ^ lastPlace q) : ℚ) * 2 ^ lastPlace q with hr
  have herror : |r - q| ≤ |q| / 2 ^ 53 := by
    calc |r - q| ≤ 2 ^ lastPlace q / 2 := hnear
      _ ≤ |q| / 2 ^ 52 / 2 := div_le_div_of_nonneg_right hplace two_pos.le
      _ = |q| / 2 ^ 53 := by ring
  have hfits : |r| < 2 ^ 1024 := by
    have hsum : |r| ≤ |q| + |r - q| := by
      calc |r| = |q + (r - q)| := by rw [add_sub_cancel]
        _ ≤ |q| + |r - q| := abs_add_le _ _
    have hpart : |q| / 2 ^ 53 ≤ |q| := div_le_self (abs_nonneg q) (one_le_pow₀ one_le_two)
    calc |r| ≤ |q| + |q| := by linarith
      _ = |q| * 2 := by ring
      _ < 2 ^ 1023 * 2 := mul_lt_mul_of_pos_right hhigh two_pos
      _ = 2 ^ 1024 := (pow_succ _ _).symm
  exact ⟨r, by simp only [toDouble, ← hr, hfits, if_true], herror⟩

/-- `a / b` of two integers, for a `b` that is not zero. -/
def trueDivision (a b : ℤ) : Except Exception ℚ := toDouble (a / b)

/-- A change that does not reach the next integers does not change the whole part. -/
lemma floor_eq_of_near {q r δ : ℚ} (h : |r - q| < δ) (hlow : δ ≤ Int.fract q)
    (hhigh : Int.fract q ≤ 1 - δ) : ⌊r⌋ = ⌊q⌋ ∧ Int.fract r = Int.fract q + (r - q) := by
  have hsplit := Int.floor_add_fract q
  obtain ⟨hbelow, habove⟩ := abs_lt.mp h
  have hfloor : ⌊r⌋ = ⌊q⌋ := Int.floor_eq_iff.mpr ⟨by linarith, by linarith⟩
  refine ⟨hfloor, ?_⟩
  rw [Int.fract, Int.fract, hfloor]
  ring

/-- **The division of small integers** has the whole part of the exact quotient, and a fractional part
that is nearer to the exact one than any other with this denominator. -/
theorem exists_trueDivision {a : ℤ} {b : ℕ} (ha : 0 ≤ a) (hsmall : a < 2 ^ 52) (hb : 0 < b)
    (hb' : 1 ≤ a → b ≤ 2 ^ 1022) :
    ∃ r, trueDivision a b = .ok r ∧ ⌊r⌋ = ⌊(a / b : ℚ)⌋ ∧
      |Int.fract r - Int.fract (a / b : ℚ)| < 1 / (2 * b) := by
  have hbpos : (0 : ℚ) < b := by exact_mod_cast hb
  have hhalf : (0 : ℚ) < 1 / (2 * b) := by positivity
  by_cases hdvd : (b : ℤ) ∣ a
  · obtain ⟨z, rfl⟩ := hdvd
    have hquotient : ((b * z : ℤ) : ℚ) / b = (z : ℚ) := by
      push_cast
      field_simp
    have hz : |z| < 2 ^ 53 := by
      have hzpos : 0 ≤ z := nonneg_of_mul_nonneg_right ha (by exact_mod_cast hb)
      have hle : z ≤ b * z := le_mul_of_one_le_left hzpos (by exact_mod_cast hb)
      rw [abs_of_nonneg hzpos]
      omega
    refine ⟨z, ?_, ?_, ?_⟩
    · rw [trueDivision, Int.cast_natCast, hquotient, toDouble_intCast hz]
    · rw [hquotient]
    · rw [hquotient, sub_self, abs_zero]
      exact hhalf
  · have hmod : 1 ≤ a % b ∧ a % b ≤ b - 1 := by
      have hne : a % b ≠ 0 := fun h => hdvd (Int.dvd_of_emod_eq_zero h)
      have hnonneg := Int.emod_nonneg a (by exact_mod_cast hb.ne' : (b : ℤ) ≠ 0)
      have hlt := Int.emod_lt_of_pos a (by exact_mod_cast hb : (0 : ℤ) < b)
      omega
    have hone : 1 ≤ a := by
      by_contra hzero
      exact hdvd (by rw [show a = 0 by omega]; exact dvd_zero _)
    have hfract : Int.fract (a / b : ℚ) = ((a % b : ℤ) : ℚ) / b :=
      Int.fract_div_intCast_eq_div_intCast_mod
    have hlow : 1 / (b : ℚ) ≤ Int.fract (a / b : ℚ) := by
      rw [hfract]
      exact div_le_div_of_nonneg_right (by exact_mod_cast hmod.1) hbpos.le
    have hhigh : Int.fract (a / b : ℚ) ≤ 1 - 1 / b := by
      rw [hfract, le_sub_iff_add_le, ← add_div, div_le_one hbpos]
      have := hmod.2
      have hle : a % b + 1 ≤ b := by omega
      exact_mod_cast hle
    have hquotient : (0 : ℚ) < a / b := div_pos (by exact_mod_cast hone) hbpos
    have hone' : (1 : ℚ) ≤ a := by exact_mod_cast hone
    have hsmall' : (a : ℚ) < 2 ^ 52 := by exact_mod_cast hsmall
    obtain ⟨r, hr, herror⟩ : ∃ r, toDouble (a / b : ℚ) = .ok r ∧ |r - a / b| ≤ |(a / b : ℚ)| / 2 ^ 53 := by
      refine exists_toDouble ?_ ?_
      · rw [abs_of_pos hquotient, zpow_neg, le_div_iff₀ hbpos]
        have hb'' : (b : ℚ) ≤ 2 ^ (1022 : ℤ) := by exact_mod_cast hb' hone
        calc (2 ^ (1022 : ℤ))⁻¹ * (b : ℚ) ≤ (2 ^ (1022 : ℤ))⁻¹ * 2 ^ (1022 : ℤ) :=
              mul_le_mul_of_nonneg_left hb'' (by positivity)
          _ = 1 := inv_mul_cancel₀ (by positivity)
          _ ≤ a := hone'
      · rw [abs_of_pos hquotient]
        have hbone : (1 : ℚ) ≤ b := by exact_mod_cast hb
        calc (a / b : ℚ) ≤ a := div_le_self (by linarith) hbone
          _ < 2 ^ 52 := hsmall'
          _ < 2 ^ 1023 := pow_lt_pow_right₀ one_lt_two (by norm_num)
    have hnear : |r - a / b| < 1 / (2 * b) := by
      refine lt_of_le_of_lt herror ?_
      rw [abs_of_pos hquotient, div_div, div_lt_div_iff₀ (by positivity) (by positivity)]
      calc (a : ℚ) * (2 * b) = 2 * a * b := by ring
        _ < 2 * 2 ^ 52 * b := by
          refine mul_lt_mul_of_pos_right ?_ hbpos
          linarith
        _ = 1 * (b * 2 ^ 53) := by ring
    have hle : 1 / (2 * (b : ℚ)) ≤ 1 / b := one_div_le_one_div_of_le hbpos (by linarith)
    obtain ⟨hfloor, hfr⟩ := floor_eq_of_near hnear (hle.trans hlow) (by linarith)
    refine ⟨r, by rw [trueDivision, Int.cast_natCast, hr], hfloor, ?_⟩
    rw [hfr, add_sub_cancel_left]
    exact hnear

/-- Quotients with one denominator whose fractional parts differ do so by a part of it. -/
lemma fract_lt_of_near {a a' : ℤ} {b : ℕ} {x x' : ℚ} (hb : 0 < b)
    (h : |x - Int.fract (a / b : ℚ)| < 1 / (2 * b)) (h' : |x' - Int.fract (a' / b : ℚ)| < 1 / (2 * b))
    (hlt : Int.fract (a / b : ℚ) < Int.fract (a' / b : ℚ)) : x < x' := by
  have hbpos : (0 : ℚ) < b := by exact_mod_cast hb
  have hstep : Int.fract (a / b : ℚ) + 1 / b ≤ Int.fract (a' / b : ℚ) := by
    rw [Int.fract_div_intCast_eq_div_intCast_mod, Int.fract_div_intCast_eq_div_intCast_mod] at hlt ⊢
    rw [div_lt_div_iff_of_pos_right hbpos] at hlt
    rw [← add_div, div_le_div_iff_of_pos_right hbpos]
    have hmod : a % b < a' % b := by exact_mod_cast hlt
    have hle : a % b + 1 ≤ a' % b := hmod
    exact_mod_cast hle
  have htwo : (1 : ℚ) / (2 * b) + 1 / (2 * b) = 1 / b := by
    field_simp
    norm_num
  have hx := (abs_lt.mp h).2
  have hx' := (abs_lt.mp h').1
  linarith

end Python
