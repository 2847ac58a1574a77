import Mathlib.Data.Int.Order.Basic
import Mathlib.Order.Basic
import Mathlib.Tactic.Lemma

/-!
# Java `long` and its exact arithmetic

The slice of the Java language the job's arithmetic rests on: what a method can throw, the
values of type `long`, and the `Math.*Exact` operations, which answer the mathematical result
or throw.

* `Long` — an integer together with the proof that it fits in 64 bits.
* `exact` — the common shape of `Math.addExact` and `Math.multiplyExact`: the result when it
  fits, `ArithmeticException("long overflow")` when it does not (`exact_eq_ok_iff`).
-/

namespace Java

/-- What the modelled methods can throw. -/
inductive Throwable where
  | arithmeticException (message : String)
  | nullPointerException (message : String)
  deriving DecidableEq, Repr

/-- `v` is representable as a 64-bit two's complement integer. -/
def IsLong (v : ℤ) : Prop := -9223372036854775808 ≤ v ∧ v ≤ 9223372036854775807

instance (v : ℤ) : Decidable (IsLong v) :=
  inferInstanceAs (Decidable (_ ∧ _))

/-- A value of the Java type `long`. -/
abbrev Long : Type := { v : ℤ // IsLong v }

instance (x y : Long) : Decidable (x ≤ y) := Int.decLe x.val y.val

instance (x y : Long) : Decidable (x < y) := Int.decLt x.val y.val

lemma isLong_bmod (v : ℤ) : IsLong (v.bmod 18446744073709551616) := by
  have hlow := @Int.le_bmod v 18446744073709551616 (by decide)
  have hhigh := @Int.bmod_lt v 18446744073709551616 (by decide)
  constructor
  · omega
  · omega

/-- The cast `(long) v`; a literal `v` is its own cast. -/
def Long.of (v : ℤ) : Long := ⟨v.bmod 18446744073709551616, isLong_bmod v⟩

/-- The result `v` of an exact operation: `v` itself, or the overflow exception. -/
def exact (v : ℤ) : Except Throwable Long :=
  if h : IsLong v then .ok ⟨v, h⟩ else .error (.arithmeticException "long overflow")

/-- `Math.addExact(long, long)`. -/
def addExact (x y : ℤ) : Except Throwable Long := exact (x + y)

/-- `Math.multiplyExact(long, int)`. -/
def multiplyExact (x y : ℤ) : Except Throwable Long := exact (x * y)

theorem exact_of_isLong {v : ℤ} (h : IsLong v) : exact v = .ok ⟨v, h⟩ := dif_pos h

theorem exact_of_not_isLong {v : ℤ} (h : ¬ IsLong v) :
    exact v = .error (.arithmeticException "long overflow") := dif_neg h

/-- An exact operation returns normally with `r` precisely when its mathematical result is `r`. -/
theorem exact_eq_ok_iff {v : ℤ} {r : Long} : exact v = .ok r ↔ v = r.val := by
  constructor
  · intro h
    by_cases hv : IsLong v
    · rw [exact_of_isLong hv] at h
      exact congrArg Subtype.val (Except.ok.inj h)
    · rw [exact_of_not_isLong hv] at h
      exact absurd h (by simp)
  · rintro rfl
    exact exact_of_isLong r.property

/-- An exact operation returns normally precisely when its result fits. -/
theorem exact_isOk_iff {v : ℤ} : (∃ r, exact v = .ok r) ↔ IsLong v :=
  ⟨fun ⟨r, h⟩ => exact_eq_ok_iff.mp h ▸ r.property, fun h => ⟨_, exact_of_isLong h⟩⟩

end Java
