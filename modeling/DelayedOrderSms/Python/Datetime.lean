import DelayedOrderSms.Python.Int
import DelayedOrderSms.Python.Str
import Mathlib.Algebra.Group.Nat.Defs

/-!
# `timedelta` and `datetime`

A duration is a count of microseconds between `timedelta.min` and `timedelta.max`, a UTC instant
a count of microseconds since the start of year 1, before the end of year 9999.  The bounds are
fields, so that arithmetic that leaves the range has to raise `OverflowError`.

* `isoformat` — the text of an instant: the proleptic Gregorian date, the time of day, the
  microseconds unless they are zero, and the offset.
* `Datetime.exists_isoformat_eq_cons` — it begins with a digit.
-/

namespace Python

/-- `datetime.timedelta`. -/
structure Timedelta where
  micros : ℤ
  min_le : -86399999913600000000 ≤ micros
  le_max : micros ≤ 86399999999999999999
  deriving DecidableEq, Repr

namespace Timedelta

/-- `timedelta(microseconds=micros)`. -/
def ofMicros (micros : ℤ) : Except Exception Timedelta :=
  if h : -86399999913600000000 ≤ micros ∧ micros ≤ 86399999999999999999 then .ok ⟨micros, h.1, h.2⟩
  else .error { type := .overflowError }

lemma ofMicros_eq_ok_iff {micros : ℤ} {delta : Timedelta} :
    ofMicros micros = .ok delta ↔ delta.micros = micros := by
  obtain ⟨n, hmin, hmax⟩ := delta
  rw [ofMicros]
  split_ifs with h
  · simp only [Except.ok.injEq, mk.injEq, eq_comm]
  · simp only [false_iff]
    omega

/-- A duration in range, or `OverflowError`. -/
lemma ofMicros_cases (micros : ℤ) :
    ofMicros micros = .error { type := .overflowError } ∨
      ∃ delta, ofMicros micros = .ok delta ∧ delta.micros = micros := by
  rw [ofMicros]
  split_ifs with h
  · exact .inr ⟨_, rfl, rfl⟩
  · exact .inl rfl

lemma type_of_ofMicros_eq_error {micros : ℤ} {e : Exception} (h : ofMicros micros = .error e) :
    e.type = .overflowError := by
  rcases ofMicros_cases micros with hover | ⟨delta, hdelta, _⟩
  · rw [hover] at h
    cases h
    rfl
  · rw [hdelta] at h
    cases h

/-- `timedelta()`. -/
def zero : Timedelta := ⟨0, by decide, by decide⟩

/-- `-delta`: the range is not symmetric. -/
def neg (delta : Timedelta) : Except Exception Timedelta := ofMicros (-delta.micros)

end Timedelta

/-- An aware `datetime.datetime` in UTC. -/
@[ext]
structure Datetime where
  micros : ℤ
  min_le : 0 ≤ micros
  le_max : micros < 315537897600000000
  deriving DecidableEq, Repr

namespace Datetime

def ofMicros (micros : ℤ) : Except Exception Datetime :=
  if h : 0 ≤ micros ∧ micros < 315537897600000000 then .ok ⟨micros, h.1, h.2⟩
  else .error { type := .overflowError }

lemma ofMicros_eq_ok_iff {micros : ℤ} {dt : Datetime} :
    ofMicros micros = .ok dt ↔ dt.micros = micros := by
  obtain ⟨n, hmin, hmax⟩ := dt
  rw [ofMicros]
  split_ifs with h
  · simp only [Except.ok.injEq, mk.injEq, eq_comm]
  · simp only [false_iff]
    omega

/-- `dt + delta`. -/
def add (dt : Datetime) (delta : Timedelta) : Except Exception Datetime :=
  ofMicros (dt.micros + delta.micros)

/-- `dt - delta`. -/
def sub (dt : Datetime) (delta : Timedelta) : Except Exception Datetime :=
  ofMicros (dt.micros - delta.micros)

/-- The days of the months of a year. -/
def daysInMonths (leap : Bool) : List ℕ :=
  [31, if leap then 29 else 28, 31, 30, 31, 30, 31, 31, 30, 31, 30, 31]

/-- The month and the day of the month, `n` days after the first of the month `month`. -/
def monthAndDay : List ℕ → ℕ → ℕ → ℕ × ℕ
  | [], month, n => (month, n + 1)
  | days :: rest, month, n =>
      if n < days then (month, n + 1) else monthAndDay rest (month + 1) (n - days)

/-- Year, month and day, `n` days after 1 January of year 1. -/
def civil (n : ℕ) : ℕ × ℕ × ℕ :=
  let n400 := n / 146097
  let n100 := n % 146097 / 36524
  let n4 := n % 146097 % 36524 / 1461
  let n1 := n % 146097 % 36524 % 1461 / 365
  let year := n400 * 400 + 1 + n100 * 100 + n4 * 4 + n1
  -- the last day of a leap year that ends a cycle
  if n1 = 4 ∨ n100 = 4 then (year - 1, 12, 31)
  else
    let leap := n1 = 3 ∧ (n4 ≠ 24 ∨ n100 = 3)
    (year, monthAndDay (daysInMonths leap) 1 (n % 146097 % 36524 % 1461 % 365))

/-- A number in decimal, filled with zeros to a width. -/
def padded (width n : ℕ) : List Char := (Nat.toDigits 10 n).leftpad width '0'

/-- `dt.isoformat()`. -/
def isoformat (dt : Datetime) : String :=
  let seconds := dt.micros.toNat / 1000000
  let micros := dt.micros.toNat % 1000000
  let (year, month, day) := civil (seconds / 86400)
  let date := padded 4 year ++ '-' :: padded 2 month ++ '-' :: padded 2 day
  let time := padded 2 (seconds % 86400 / 3600) ++ ':' :: padded 2 (seconds % 3600 / 60)
    ++ ':' :: padded 2 (seconds % 60)
  let fraction := if micros = 0 then [] else '.' :: padded 6 micros
  String.ofList (date ++ 'T' :: time ++ fraction ++ "+00:00".toList)

example : (Datetime.mk 63000000000000500 (by decide) (by decide)).isoformat
    = "1997-05-23T16:00:00.000500+00:00" := by decide

lemma isDigit_of_mem_padded {width n : ℕ} {c : Char} (h : c ∈ padded width n) : c.isDigit := by
  rw [padded, List.leftpad, List.mem_append] at h
  rcases h with h | h
  · rw [(List.mem_replicate.mp h).2]
    rfl
  · exact Nat.isDigit_of_mem_toDigits (by decide) (by decide) h

/-- Zeros in front do not change the number. -/
lemma ofDigitChars_padded (width n : ℕ) : Nat.ofDigitChars 10 (padded width n) 0 = n := by
  rw [padded, List.leftpad, Nat.ofDigitChars_append, Nat.ofDigitChars_replicate_zero, Nat.mul_zero,
    Nat.ofDigitChars_ten_toDigits]

/-- They do not make numbers alike. -/
lemma padded_injective (width : ℕ) : Function.Injective (padded width) := by
  intro n n' h
  rw [← ofDigitChars_padded width n, ← ofDigitChars_padded width n', h]

lemma length_padded {width n : ℕ} (hwidth : 0 < width) (hn : n < 10 ^ width) :
    (padded width n).length = width := by
  rw [padded, List.length_leftpad]
  exact Nat.max_eq_left ((Nat.length_toDigits_le_iff (by decide) hwidth).mpr hn)

/-- **The text of an instant begins with a digit**, the first of its year. -/
theorem exists_isoformat_eq_cons (dt : Datetime) :
    ∃ c cs, dt.isoformat.toList = c :: cs ∧ c.isDigit := by
  set year := (civil (dt.micros.toNat / 1000000 / 86400)).1 with hyear
  obtain ⟨rest, hrest⟩ : ∃ rest, dt.isoformat.toList = padded 4 year ++ rest := by
    simp only [isoformat, String.toList_ofList, List.append_assoc, ← hyear]
    exact ⟨_, rfl⟩
  obtain ⟨c, cs, hc⟩ : ∃ c cs, padded 4 year = c :: cs := by
    refine List.exists_cons_of_length_pos ?_
    rw [padded, List.length_leftpad]
    omega
  exact ⟨c, cs ++ rest, by rw [hrest, hc, List.cons_append],
    isDigit_of_mem_padded (hc ▸ List.mem_cons_self)⟩

end Datetime

end Python
