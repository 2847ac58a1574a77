import DelayedOrderSms.Java.Instant
import Mathlib.Data.List.Basic
import Mathlib.Tactic.Ring

/-!
# `Instant.parse`

`DateTimeFormatter.ISO_INSTANT` in strict mode: a local date, a `T`, a time of day with up to nine
digits of a fraction, and an offset.  The case of the letters does not matter.  `24:00` is the end
of its day, and a leap second is the second before it.

* `toEpochDay` — `LocalDate.toEpochDay`, with the days counted from the date.
* `Instant.parse` — from text; `none` stands for the `DateTimeException`.
* `epochSeconds_utc` — a time of day in UTC, by the cycles that the years have.
* `digits_append` — what the readers of the fields rest on: digits are read up to the first other
  character, or until there are enough.
-/

namespace Java

/-! ## Dates -/

/-- `IsoChronology.isLeapYear`. -/
def isLeapYear (year : ℤ) : Bool := year % 4 = 0 ∧ (year % 100 ≠ 0 ∨ year % 400 = 0)

/-- `LocalDate.lengthOfMonth`. -/
def lengthOfMonth (year : ℤ) (month : ℕ) : ℕ :=
  match month with
  | 2 => if isLeapYear year then 29 else 28
  | 4 | 6 | 9 | 11 => 30
  | _ => 31

/-- `LocalDate.of` accepts the date. -/
def IsDate (year : ℤ) (month day : ℕ) : Prop :=
  1 ≤ month ∧ month ≤ 12 ∧ 1 ≤ day ∧ day ≤ lengthOfMonth year month

instance (year : ℤ) (month day : ℕ) : Decidable (IsDate year month day) :=
  inferInstanceAs (Decidable (_ ∧ _ ∧ _ ∧ _))

/-- `LocalDate.toEpochDay`.  Division of `long`s rounds towards zero. -/
def toEpochDay (year : ℤ) (month day : ℕ) : ℤ :=
  let leaps := if 0 ≤ year then (year + 3) / 4 - (year + 99) / 100 + (year + 399) / 400
    else -(year.tdiv (-4) - year.tdiv (-100) + year.tdiv (-400))
  let total := 365 * year + leaps + (367 * month - 362) / 12 + (day - 1)
  let total := if 2 < month then if isLeapYear year then total - 1 else total - 2 else total
  total - 719528

example : toEpochDay 1970 1 1 = 0 := by decide

/-! ## The fields of the text -/

/-- At most `n` digits at the front of a text, and the rest. -/
def digits : ℕ → List Char → List Char × List Char
  | 0, cs => ([], cs)
  | _ + 1, [] => ([], [])
  | n + 1, c :: cs =>
      if c.isDigit then (c :: (digits n cs).1, (digits n cs).2) else ([], c :: cs)

/-- The number that digits write. -/
def number (ds : List Char) : ℕ := Nat.ofDigitChars 10 ds 0

/-- `appendLiteral`. -/
def literal (c : Char) : List Char → Option (List Char)
  | [] => none
  | c' :: cs => if c'.toUpper = c.toUpper then some cs else none

/-- `appendValue(field, 2)`. -/
def twoDigits (cs : List Char) : Option (ℕ × List Char) :=
  let (ds, rest) := digits 2 cs
  if ds.length = 2 then some (number ds, rest) else none

/-- `appendValue(YEAR, 4, 10, SignStyle.EXCEEDS_PAD)`. -/
def yearField : List Char → Option (ℤ × List Char)
  | '+' :: cs =>
      let (ds, rest) := digits 10 cs
      if 4 < ds.length then some (number ds, rest) else none
  | '-' :: cs =>
      let (ds, rest) := digits 10 cs
      if 4 ≤ ds.length ∧ number ds ≠ 0 then some (-(number ds : ℤ), rest) else none
  | cs =>
      let (ds, rest) := digits 10 cs
      if ds.length = 4 then some (number ds, rest) else none

/-- `appendFraction(NANO_OF_SECOND, 0, 9, true)`. -/
def fractionField : List Char → ℕ × List Char
  | '.' :: cs =>
      let (ds, rest) := digits 9 cs
      (number ds * 10 ^ (9 - ds.length), rest)
  | cs => (0, cs)

/-- `:ss` of an offset, which may be missing. -/
def offsetSeconds (cs : List Char) : ℕ × List Char :=
  match literal ':' cs >>= twoDigits with
  | some (seconds, rest) => if seconds ≤ 59 then (seconds, rest) else (0, cs)
  | none => (0, cs)

/-- `appendOffsetId()`, the pattern `+HH:MM:ss` with `Z` for no offset.  The offset is in
seconds. -/
def offsetField : List Char → Option (ℤ × List Char)
  | [] => none
  | c :: cs =>
      if c.toUpper = 'Z' then some (0, cs)
      else if c = '+' ∨ c = '-' then do
        let (hours, cs) ← twoDigits cs
        let (minutes, cs) ← literal ':' cs >>= twoDigits
        let (seconds, cs) := offsetSeconds cs
        if hours ≤ 23 ∧ minutes ≤ 59 then
          let offset : ℤ := hours * 3600 + minutes * 60 + seconds
          some (if c = '-' then -offset else offset, cs)
        else none
      else none

/-! ## The instant -/

/-- What `InstantPrinterParser` finds in a text. -/
structure InstantFields where
  year : ℤ
  month : ℕ
  day : ℕ
  hour : ℕ
  minute : ℕ
  second : ℕ
  nano : ℕ
  offset : ℤ
  deriving DecidableEq

/-- The fields of a text, which they take up to its end. -/
def instantFields (cs : List Char) : Option InstantFields := do
  let (year, cs) ← yearField cs
  let (month, cs) ← literal '-' cs >>= twoDigits
  let (day, cs) ← literal '-' cs >>= twoDigits
  let (hour, cs) ← literal 'T' cs >>= twoDigits
  let (minute, cs) ← literal ':' cs >>= twoDigits
  let (second, cs) ← literal ':' cs >>= twoDigits
  let (nano, cs) := fractionField cs
  let (offset, cs) ← offsetField cs
  if cs = [] then some ⟨year, month, day, hour, minute, second, nano, offset⟩ else none

/-- The hour and the second that are used, and the days that are added. -/
def InstantFields.resolved (f : InstantFields) : ℕ × ℕ × ℤ :=
  if f.hour = 24 ∧ f.minute = 0 ∧ f.second = 0 ∧ f.nano = 0 then (0, f.second, 1)
  else if f.hour = 23 ∧ f.minute = 59 ∧ f.second = 60 then (f.hour, 59, 0)
  else (f.hour, f.second, 0)

/-- The seconds since the epoch.  Years are counted in cycles of 10 000. -/
def InstantFields.epochSeconds (f : InstantFields) : Option ℤ :=
  let (hour, second, days) := f.resolved
  let year := f.year.tmod 10000
  if IsDate year f.month f.day ∧ hour ≤ 23 ∧ f.minute ≤ 59 ∧ second ≤ 59 ∧
      -64800 ≤ f.offset ∧ f.offset ≤ 64800 then
    some ((toEpochDay year f.month f.day + days) * 86400 + hour * 3600 + f.minute * 60 + second
      - f.offset + f.year.tdiv 10000 * 315569520000)
  else none

/-- `Instant.ofEpochSecond`. -/
def Instant.ofEpochSecond (seconds : ℤ) (nanos : ℕ) : Option Instant :=
  if h : (-31557014167219200 ≤ seconds ∧ seconds ≤ 31556889864403199) ∧ nanos < 1000000000 then
    some ⟨seconds, nanos, h.1.1, h.1.2, h.2⟩
  else none

/-- `Instant.parse`. -/
def Instant.parse (text : String) : Option Instant := do
  let fields ← instantFields text.toList
  let seconds ← fields.epochSeconds
  Instant.ofEpochSecond seconds fields.nano

example : (Instant.parse "1969-12-31t24:00:00+01:00").map (·.seconds) = some (-3600) := by decide
example : (Instant.parse "2016-12-31T23:59:60.5Z").map (·.toNanos) = some 1483228799500000000 := by
  decide

/-! ## Reading -/

/-- **Digits are read** up to another character, or until there are enough. -/
lemma digits_append {n : ℕ} {ds rest : List Char} (hdigits : ∀ c ∈ ds, c.isDigit)
    (hlength : ds.length ≤ n) (hstop : ds.length = n ∨ ∀ c ∈ rest.head?, ¬c.isDigit) :
    digits n (ds ++ rest) = (ds, rest) := by
  induction n generalizing ds with
  | zero =>
      obtain rfl := List.length_eq_zero_iff.mp (Nat.le_zero.mp hlength)
      rfl
  | succ n ih =>
      cases ds with
      | nil =>
          have hother := hstop.resolve_left (by simp)
          cases rest with
          | nil => rfl
          | cons c cs => exact if_neg (hother c rfl)
      | cons d ds =>
          have htail := ih (fun c hc => hdigits c (List.mem_cons_of_mem _ hc))
            (Nat.le_of_succ_le_succ hlength)
            (hstop.imp_left fun h => Nat.succ.inj h)
          rw [List.cons_append, digits, if_pos (hdigits d List.mem_cons_self), htail]

section Fields

variable {ds rest : List Char} (hdigits : ∀ c ∈ ds, c.isDigit)
include hdigits

lemma twoDigits_append (hlength : ds.length = 2) :
    twoDigits (ds ++ rest) = some (number ds, rest) := by
  rw [twoDigits, digits_append hdigits hlength.le (.inl hlength)]
  exact if_pos hlength

/-- A year of four digits. -/
lemma yearField_append (hlength : ds.length = 4) (hrest : ∀ c ∈ rest.head?, ¬c.isDigit) :
    yearField (ds ++ rest) = some ((number ds : ℤ), rest) := by
  have hread : digits 10 (ds ++ rest) = (ds, rest) :=
    digits_append hdigits (by omega) (.inr hrest)
  cases ds with
  | nil => exact absurd hlength (by simp)
  | cons d ds =>
      have hd := hdigits d List.mem_cons_self
      rw [yearField, hread]
      · exact if_pos hlength
      · rintro cs hcs
        obtain ⟨rfl, _⟩ := List.cons.inj hcs
        exact absurd hd (by decide)
      · rintro cs hcs
        obtain ⟨rfl, _⟩ := List.cons.inj hcs
        exact absurd hd (by decide)

/-- A fraction of up to nine digits. -/
lemma fractionField_append (hlength : ds.length ≤ 9) (hrest : ∀ c ∈ rest.head?, ¬c.isDigit) :
    fractionField ('.' :: ds ++ rest) = (number ds * 10 ^ (9 - ds.length), rest) := by
  rw [List.cons_append, fractionField, digits_append hdigits hlength (.inr hrest)]

end Fields

lemma literal_cons (c : Char) (cs : List Char) : literal c (c :: cs) = some cs := if_pos rfl

lemma lengthOfMonth_le (year : ℤ) (month : ℕ) : lengthOfMonth year month ≤ 31 := by
  unfold lengthOfMonth
  split
  · split_ifs <;> decide
  all_goals decide

/-! ## Cycles of 400 years -/

/-- The leap years before a year, counted alike on both sides of the first. -/
lemma leaps_eq (year : ℤ) :
    (if 0 ≤ year then (year + 3) / 4 - (year + 99) / 100 + (year + 399) / 400
      else -(year.tdiv (-4) - year.tdiv (-100) + year.tdiv (-400)))
        = (year + 3) / 4 - (year + 99) / 100 + (year + 399) / 400 := by
  split_ifs with hyear
  · rfl
  · have hdiv : ∀ n : ℤ, year.tdiv (-n) = -year / n := fun n => by
      rw [Int.tdiv_neg, ← Int.neg_tdiv, Int.tdiv_eq_ediv_of_nonneg (by omega)]
    rw [hdiv, hdiv, hdiv]
    omega

section Cycle

variable (cycles year : ℤ)

lemma isLeapYear_cycle : isLeapYear (400 * cycles + year) = isLeapYear year := by
  rw [isLeapYear, isLeapYear, decide_eq_decide]
  omega

lemma toEpochDay_cycle (month day : ℕ) :
    toEpochDay (400 * cycles + year) month day = 146097 * cycles + toEpochDay year month day := by
  simp only [toEpochDay, leaps_eq, isLeapYear_cycle]
  split_ifs <;> omega

lemma isDate_cycle (month day : ℕ) :
    IsDate (400 * cycles + year) month day ↔ IsDate year month day := by
  simp only [IsDate, lengthOfMonth, isLeapYear_cycle]

end Cycle

/-- **A time of day in UTC**, in any year. -/
lemma epochSeconds_utc {year : ℤ} {month day hour minute second nano : ℕ}
    (hdate : IsDate year month day) (hhour : hour < 24) (hminute : minute < 60)
    (hsecond : second < 60) :
    (InstantFields.mk year month day hour minute second nano 0).epochSeconds =
      some (toEpochDay year month day * 86400 + hour * 3600 + minute * 60 + second) := by
  have hresolved : (InstantFields.mk year month day hour minute second nano 0).resolved
      = (hour, second, 0) := by
    rw [InstantFields.resolved, if_neg (by dsimp only; omega), if_neg (by dsimp only; omega)]
  -- a cycle of 10 000 years is 25 of 400
  have hyear : year.tmod 10000 = 400 * (-25 * year.tdiv 10000) + year := by
    have := Int.tmod_add_mul_tdiv year 10000
    omega
  simp only [InstantFields.epochSeconds, hresolved]
  rw [hyear, toEpochDay_cycle, if_pos ⟨(isDate_cycle _ _ _ _).mpr hdate, by omega, by omega,
    by omega, by omega, by omega⟩]
  congr 1
  ring

end Java
