import DelayedOrderSms.Java.Long
import Mathlib.Order.Lattice

/-!
# `java.time.Instant`

An instant is a count of seconds since the epoch and a nanosecond adjustment in `[0, 10⁹)`,
bounded by `Instant.MIN` and `Instant.MAX`.  Both bounds are fields, so an instant outside the
range of the Java class cannot be built.

* `Instant.isBefore` — the comparison of the Java class, seconds first; `isBefore_iff` reads it
  as the order of the time line.
* `Instant.toEpochMilli` — translated with its two branches from the JDK.  `toEpochMilli_eq`
  shows that they compute one function: the floor of the instant in milliseconds
  (`Instant.epochMilli`) when that fits in a `long`, the overflow exception otherwise.
* `Instant.ofEpochMilli` — total on `long`, and a right inverse (`epochMilli_ofEpochMilli`).
-/

namespace Java

/-- A point of the time line, between `Instant.MIN` and `Instant.MAX`. -/
@[ext] structure Instant where
  seconds : ℤ
  nanos : ℕ
  min_le : -31557014167219200 ≤ seconds
  le_max : seconds ≤ 31556889864403199
  nanos_lt : nanos < 1000000000
  deriving DecidableEq, Repr

namespace Instant

/-- The instant in nanoseconds since the epoch. -/
def toNanos (i : Instant) : ℤ := i.seconds * 1000000000 + i.nanos

theorem toNanos_injective : Function.Injective toNanos := by
  intro a b h
  have ha := a.nanos_lt
  have hb := b.nanos_lt
  simp only [toNanos] at h
  ext
  · omega
  · omega

/-- The order of the time line. -/
instance : LinearOrder Instant := LinearOrder.lift' toNanos toNanos_injective

theorem lt_iff {a b : Instant} : a < b ↔ a.toNanos < b.toNanos := Iff.rfl

/-- `Instant.isBefore`: the seconds decide, the nanoseconds break a tie. -/
def isBefore (a b : Instant) : Bool :=
  a.seconds < b.seconds || (a.seconds == b.seconds && a.nanos < b.nanos)

theorem isBefore_iff {a b : Instant} : a.isBefore b = true ↔ a < b := by
  have ha := a.nanos_lt
  have hb := b.nanos_lt
  simp only [isBefore, Bool.or_eq_true, Bool.and_eq_true, decide_eq_true_eq, beq_iff_eq, lt_iff,
    toNanos]
  omega

/-- `Instant.toEpochMilli`, with the branch the JDK takes for negative instants that are not on
a whole second. -/
def toEpochMilli (i : Instant) : Except Throwable Long :=
  if i.seconds < 0 ∧ 0 < i.nanos then do
    let millis ← multiplyExact (i.seconds + 1) 1000
    let adjustment : ℤ := i.nanos / 1000000 - 1000
    addExact millis adjustment
  else do
    let millis ← multiplyExact i.seconds 1000
    addExact millis (i.nanos / 1000000)

/-- The instant in whole milliseconds since the epoch, rounded down. -/
def epochMilli (i : Instant) : ℤ := i.seconds * 1000 + i.nanos / 1000000

/-- A product that is added to afterwards overflows only if the sum does: the two checks of
`toEpochMilli` amount to the last one. -/
theorem exact_bind_addExact {x y : ℤ} (h : IsLong (x + y) → IsLong x) :
    (exact x >>= fun millis => addExact millis y) = exact (x + y) := by
  by_cases hx : IsLong x
  · rw [exact_of_isLong hx]
    rfl
  · rw [exact_of_not_isLong hx, exact_of_not_isLong (fun hs => hx (h hs))]
    rfl

/-- **Both branches of `toEpochMilli` compute the floor**, and throw exactly when it does not
fit in a `long`. -/
theorem toEpochMilli_eq (i : Instant) : i.toEpochMilli = exact i.epochMilli := by
  have hn := i.nanos_lt
  simp only [toEpochMilli, multiplyExact]
  split_ifs with h
  · rw [exact_bind_addExact (by simp only [IsLong]; omega), epochMilli]
    congr 1
    omega
  · exact exact_bind_addExact (by simp only [IsLong]; omega)

theorem toEpochMilli_eq_ok_iff {i : Instant} {ms : Long} :
    i.toEpochMilli = .ok ms ↔ i.epochMilli = ms.val := by
  rw [toEpochMilli_eq, exact_eq_ok_iff]

/-- The instant is within the range of 64-bit epoch milliseconds. -/
def FitsMillis (i : Instant) : Prop := IsLong i.epochMilli

instance (i : Instant) : Decidable i.FitsMillis := inferInstanceAs (Decidable (IsLong _))

theorem exists_toEpochMilli_iff {i : Instant} : (∃ ms, i.toEpochMilli = .ok ms) ↔ i.FitsMillis := by
  rw [toEpochMilli_eq, exact_isOk_iff, FitsMillis]

/-- `Instant.ofEpochMilli`: floor division by 1000 for the seconds, the remainder in
nanoseconds. -/
def ofEpochMilli (ms : Long) : Instant where
  seconds := ms.val / 1000
  nanos := (ms.val % 1000).toNat * 1000000
  min_le := by have := ms.property; simp only [IsLong] at this; omega
  le_max := by have := ms.property; simp only [IsLong] at this; omega
  nanos_lt := by omega

theorem epochMilli_ofEpochMilli (ms : Long) : (ofEpochMilli ms).epochMilli = ms.val := by
  simp only [epochMilli, ofEpochMilli]
  omega

/-- The instant has digits below the millisecond. -/
def HasSubMillis (i : Instant) : Prop := i.nanos % 1000000 ≠ 0

instance (i : Instant) : Decidable i.HasSubMillis := inferInstanceAs (Decidable (_ ≠ _))

/-- An instant whose millisecond has come is still ahead of the clock exactly in that very
millisecond, and if it has digits below it. -/
theorem ofEpochMilli_lt_iff {i : Instant} {ms : Long} (h : i.epochMilli ≤ ms.val) :
    ofEpochMilli ms < i ↔ i.epochMilli = ms.val ∧ i.HasSubMillis := by
  have hn := i.nanos_lt
  simp only [lt_iff, toNanos, ofEpochMilli, epochMilli, HasSubMillis] at h ⊢
  omega

end Instant

end Java
