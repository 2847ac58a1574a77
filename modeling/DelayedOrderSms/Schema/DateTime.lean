import DelayedOrderSms.Java.IsoInstant
import Mathlib.Data.List.TakeWhile

/-!
# The format `date-time`

`date-time` of RFC 3339: a date with a year of four digits, a `T`, a time of day with any number of
digits of a fraction, and a zone of less than a day.  A leap second is the last one of a day in UTC.

* `isDateTime` — the texts of the format.
* `isSome_parse_iff` — those that `Instant.parse` reads: of nine digits of a fraction at most, in a
  zone of up to eighteen hours, and with a leap second only at the end of a day of their zone.
-/

namespace JsonSchema

open Java

/-- The parts of a text; the zone is in minutes. -/
structure DateTime where
  year : ℕ
  month : ℕ
  day : ℕ
  hour : ℕ
  minute : ℕ
  second : ℕ
  fraction : List Char
  zone : ℤ
  deriving DecidableEq, Repr

/-- `time-offset` -/
def timeOffset : List Char → Option ℤ
  | [c] => if c = 'Z' ∨ c = 'z' then some 0 else none
  | [sign, h₁, h₂, colon, m₁, m₂] =>
      if (sign = '+' ∨ sign = '-') ∧ colon = ':' ∧ [h₁, h₂, m₁, m₂].all Char.isDigit
          ∧ number [h₁, h₂] ≤ 23 ∧ number [m₁, m₂] ≤ 59 then
        some ((if sign = '-' then -1 else 1) * (number [h₁, h₂] * 60 + number [m₁, m₂]))
      else none
  | _ => none

/-- `[time-secfrac] time-offset` -/
def fractionAndOffset (cs : List Char) : Option (List Char × ℤ) :=
  match cs with
  | [] => none
  | c :: rest =>
      if c = '.' then
        if rest.takeWhile Char.isDigit = [] then none
        else (timeOffset (rest.dropWhile Char.isDigit)).map (rest.takeWhile Char.isDigit, ·)
      else (timeOffset cs).map ([], ·)

/-- The parts of a text that has the form of a date and a time. -/
def dateTime : List Char → Option DateTime
  | y₁ :: y₂ :: y₃ :: y₄ :: dash :: m₁ :: m₂ :: dash' :: d₁ :: d₂ :: t :: h₁ :: h₂ :: colon :: n₁ ::
      n₂ :: colon' :: s₁ :: s₂ :: rest =>
      if [y₁, y₂, y₃, y₄, m₁, m₂, d₁, d₂, h₁, h₂, n₁, n₂, s₁, s₂].all Char.isDigit
          ∧ dash = '-' ∧ dash' = '-' ∧ (t = 'T' ∨ t = 't') ∧ colon = ':' ∧ colon' = ':' then
        (fractionAndOffset rest).map fun (fraction, zone) =>
          ⟨number [y₁, y₂, y₃, y₄], number [m₁, m₂], number [d₁, d₂], number [h₁, h₂],
            number [n₁, n₂], number [s₁, s₂], fraction, zone⟩
      else none
  | _ => none

/-- The parts are in range. -/
structure DateTime.InRange (d : DateTime) : Prop where
  date : IsDate d.year d.month d.day
  hour : d.hour ≤ 23
  minute : d.minute ≤ 59
  second : d.second ≤ 59 ∨ d.second = 60 ∧ (d.hour * 60 + d.minute - d.zone) % 1440 = 1439

instance (d : DateTime) : Decidable d.InRange :=
  decidable_of_iff (IsDate d.year d.month d.day ∧ d.hour ≤ 23 ∧ d.minute ≤ 59 ∧
      (d.second ≤ 59 ∨ d.second = 60 ∧ (d.hour * 60 + d.minute - d.zone) % 1440 = 1439))
    ⟨fun ⟨hdate, hhour, hminute, hsecond⟩ => ⟨hdate, hhour, hminute, hsecond⟩,
      fun h => ⟨h.date, h.hour, h.minute, h.second⟩⟩

/-- **The texts of the format.** -/
def isDateTime (text : String) : Bool :=
  match dateTime text.toList with
  | some d => d.InRange
  | none => false

example : isDateTime "2016-12-31T18:59:60.25-05:00" := by decide

/-- The job reads it. -/
structure DateTime.Readable (d : DateTime) : Prop where
  fraction : d.fraction.length ≤ 9
  zone : -1080 ≤ d.zone ∧ d.zone ≤ 1080
  leap : d.second = 60 → d.hour = 23 ∧ d.minute = 59

instance (d : DateTime) : Decidable d.Readable :=
  decidable_of_iff (d.fraction.length ≤ 9 ∧ (-1080 ≤ d.zone ∧ d.zone ≤ 1080) ∧
      (d.second = 60 → d.hour = 23 ∧ d.minute = 59))
    ⟨fun ⟨hfraction, hzone, hleap⟩ => ⟨hfraction, hzone, hleap⟩,
      fun h => ⟨h.fraction, h.zone, h.leap⟩⟩

/-! ## How the job reads them -/

lemma toNat_of_isDigit {c : Char} (h : c.isDigit) : 48 ≤ c.toNat ∧ c.toNat ≤ 57 := by
  simpa [Char.isDigit, UInt32.le_iff_toNat_le, ← Char.toNat_val] using h

/-- What `ds` writes has no more digits. -/
lemma number_lt {ds : List Char} (h : ∀ c ∈ ds, c.isDigit) : number ds < 10 ^ ds.length := by
  induction ds with
  | nil => decide
  | cons c cs ih =>
      obtain ⟨hc, hcs⟩ := List.forall_mem_cons.mp h
      have hrest := ih hcs
      have hdigit : c.toNat - '0'.toNat ≤ 9 := by
        have hnine := (toNat_of_isDigit hc).2
        have hzero : '0'.toNat = 48 := rfl
        omega
      have hhead := Nat.mul_le_mul_left (10 ^ cs.length) hdigit
      rw [number] at hrest ⊢
      rw [Nat.ofDigitChars_cons, Nat.ofDigitChars_eq_ofDigitChars_zero, Nat.mul_zero, Nat.zero_add,
        List.length_cons, pow_succ]
      omega

/-- A zone is read as it is. -/
lemma offsetField_of_timeOffset {cs : List Char} {zone : ℤ} (h : timeOffset cs = some zone) :
    offsetField cs = some (zone * 60, []) := by
  rw [timeOffset.eq_def] at h
  split at h
  · rw [Option.ite_none_right_eq_some] at h
    obtain ⟨rfl | rfl, h⟩ := h
    · obtain rfl := Option.some.inj h
      rfl
    · obtain rfl := Option.some.inj h
      rfl
  · rename_i sign h₁ h₂ colon m₁ m₂
    rw [Option.ite_none_right_eq_some] at h
    obtain ⟨⟨hsign, rfl, hdigits, hhours, hminutes⟩, h⟩ := h
    obtain rfl := Option.some.inj h
    simp only [List.all_cons, List.all_nil, Bool.and_true, Bool.and_eq_true] at hdigits
    obtain ⟨hh₁, hh₂, hm₁, hm₂⟩ := hdigits
    have hhour : twoDigits [h₁, h₂, ':', m₁, m₂] = some (number [h₁, h₂], [':', m₁, m₂]) :=
      @twoDigits_append [h₁, h₂] [':', m₁, m₂] (by simp [hh₁, hh₂]) rfl
    have hminute : twoDigits [m₁, m₂] = some (number [m₁, m₂], []) :=
      @twoDigits_append [m₁, m₂] [] (by simp [hm₁, hm₂]) rfl
    have hletter : sign.toUpper ≠ 'Z' := by
      rcases hsign with rfl | rfl <;> decide
    have hnone : offsetSeconds [] = (0, []) := rfl
    simp only [offsetField, if_neg hletter, if_pos hsign, hhour, literal_cons, hminute, hnone,
      Option.bind_eq_bind, Option.bind_some, if_pos (And.intro hhours hminutes)]
    congr 2
    split_ifs <;> omega
  · cases h

/-- What a zone begins with. -/
lemma head_of_timeOffset {cs : List Char} {zone : ℤ} (h : timeOffset cs = some zone) :
    ∀ c ∈ cs.head?, c ∈ ['Z', 'z', '+', '-'] := by
  rw [timeOffset.eq_def] at h
  split at h
  · rw [Option.ite_none_right_eq_some] at h
    obtain ⟨rfl | rfl, _⟩ := h
    · simp
    · simp
  · rw [Option.ite_none_right_eq_some] at h
    obtain ⟨⟨rfl | rfl, _⟩, _⟩ := h
    · simp
    · simp
  · cases h

lemma not_isDigit_of_timeOffset {cs : List Char} {zone : ℤ} (h : timeOffset cs = some zone) :
    ∀ c ∈ cs.head?, ¬c.isDigit := by
  have hother : ∀ c ∈ ['Z', 'z', '+', '-'], ¬c.isDigit := by simp
  exact fun c hc => hother c (head_of_timeOffset h c hc)

/-- No zone begins with a digit for the job either. -/
lemma offsetField_digit {c : Char} (hc : c.isDigit) (cs : List Char) : offsetField (c :: cs) = none := by
  have hletter : c.toUpper ≠ 'Z' := by
    have hnine := (toNat_of_isDigit hc).2
    have hlower : ¬('a'.val ≤ c.val ∧ c.val ≤ 'z'.val) := by
      rintro ⟨ha, _⟩
      have ha : 97 ≤ c.toNat := ha
      omega
    have hupper : c.toUpper = c := dif_neg hlower
    rw [hupper]
    rintro rfl
    exact absurd hc (by decide)
  have hsign : ¬(c = '+' ∨ c = '-') := by
    rintro (rfl | rfl)
    · exact absurd hc (by decide)
    · exact absurd hc (by decide)
  rw [offsetField, if_neg hletter, if_neg hsign]

section

variable {cs fraction : List Char} {zone : ℤ} (h : fractionAndOffset cs = some (fraction, zone))
include h

/-- The fraction consists of digits, and the zone follows it. -/
lemma fractionAndOffset_spec : (∀ c ∈ fraction, c.isDigit) ∧ ∃ rest,
    timeOffset rest = some zone ∧
      (fraction = [] ∧ cs = rest ∨ fraction ≠ [] ∧ cs = '.' :: fraction ++ rest) := by
  cases cs with
  | nil => cases h
  | cons c cs =>
      rw [fractionAndOffset] at h
      split_ifs at h with hdot hnone
      · obtain ⟨zone', hzone, h⟩ := Option.map_eq_some_iff.mp h
        obtain ⟨rfl, rfl⟩ := Prod.mk.inj h
        refine ⟨fun c hc => List.mem_takeWhile_imp hc, _, hzone, .inr ⟨hnone, ?_⟩⟩
        rw [hdot, List.cons_append, List.takeWhile_append_dropWhile]
      · obtain ⟨zone', hzone, h⟩ := Option.map_eq_some_iff.mp h
        obtain ⟨rfl, rfl⟩ := Prod.mk.inj h
        exact ⟨by simp, _, hzone, .inl ⟨rfl, rfl⟩⟩

/-- Nine digits of a fraction are read. -/
lemma fractionField_of_le (hlength : fraction.length ≤ 9) : ∃ rest,
    fractionField cs = (number fraction * 10 ^ (9 - fraction.length), rest) ∧
      offsetField rest = some (zone * 60, []) := by
  obtain ⟨hdigits, rest, hzone, ⟨rfl, rfl⟩ | ⟨_, rfl⟩⟩ := fractionAndOffset_spec h
  · refine ⟨cs, ?_, offsetField_of_timeOffset hzone⟩
    rw [fractionField.eq_def]
    split
    · exact absurd (head_of_timeOffset hzone '.' rfl) (by decide)
    · rfl
  · exact ⟨rest, fractionField_append hdigits hlength (not_isDigit_of_timeOffset hzone),
      offsetField_of_timeOffset hzone⟩

/-- After nine digits comes another one, which is no zone. -/
lemma offsetField_of_gt (hlength : 9 < fraction.length) : offsetField (fractionField cs).2 = none := by
  obtain ⟨hdigits, rest, hzone, ⟨rfl, rfl⟩ | ⟨_, rfl⟩⟩ := fractionAndOffset_spec h
  · exact absurd hlength (by decide)
  · have hread : digits 9 (fraction ++ rest) = (fraction.take 9, fraction.drop 9 ++ rest) := by
      have happend := @digits_append 9 (fraction.take 9) (fraction.drop 9 ++ rest)
        (fun c hc => hdigits c (List.mem_of_mem_take hc)) (by simp) (.inl (by simp; omega))
      rwa [← List.append_assoc, List.take_append_drop] at happend
    rw [List.cons_append, fractionField, hread]
    cases hdrop : fraction.drop 9 with
    | nil =>
        rw [List.drop_eq_nil_iff] at hdrop
        omega
    | cons c cs =>
        have hc : c ∈ fraction.drop 9 := by
          rw [hdrop]
          exact List.mem_cons_self
        exact offsetField_digit (hdigits c (List.mem_of_mem_drop hc)) _

end

/-- The fields that are found in the parts. -/
def DateTime.toFields (d : DateTime) : InstantFields :=
  ⟨d.year, d.month, d.day, d.hour, d.minute, d.second,
    number d.fraction * 10 ^ (9 - d.fraction.length), d.zone * 60⟩

/-- What a text of digits and separators has before its fraction. -/
lemma exists_of_dateTime {cs : List Char} {d : DateTime} (h : dateTime cs = some d) : ∃ rest,
    fractionAndOffset rest = some (d.fraction, d.zone) ∧ d.year < 10000 ∧
      instantFields cs = (offsetField (fractionField rest).2).bind fun (offset, cs) =>
        if cs = [] then some ⟨d.year, d.month, d.day, d.hour, d.minute, d.second,
          (fractionField rest).1, offset⟩
        else none := by
  rw [dateTime.eq_def] at h
  split at h
  · rename_i y₁ y₂ y₃ y₄ dash m₁ m₂ dash' d₁ d₂ t h₁ h₂ colon n₁ n₂ colon' s₁ s₂ rest
    rw [Option.ite_none_right_eq_some] at h
    obtain ⟨⟨hdigits, rfl, rfl, ht, rfl, rfl⟩, h⟩ := h
    obtain ⟨⟨fraction, zone⟩, hrest, rfl⟩ := Option.map_eq_some_iff.mp h
    simp only [List.all_cons, List.all_nil, Bool.and_true, Bool.and_eq_true] at hdigits
    obtain ⟨hy₁, hy₂, hy₃, hy₄, hm₁, hm₂, hd₁, hd₂, hh₁, hh₂, hn₁, hn₂, hs₁, hs₂⟩ := hdigits
    have hyear : ∀ cs, yearField (y₁ :: y₂ :: y₃ :: y₄ :: '-' :: cs)
        = some ((number [y₁, y₂, y₃, y₄] : ℤ), '-' :: cs) := fun cs =>
      @yearField_append [y₁, y₂, y₃, y₄] ('-' :: cs) (by simp [hy₁, hy₂, hy₃, hy₄]) rfl (by simp)
    have htwo : ∀ {a b : Char}, a.isDigit = true → b.isDigit = true → ∀ cs,
        twoDigits (a :: b :: cs) = some (number [a, b], cs) := fun {a b} ha hb cs =>
      @twoDigits_append [a, b] cs (by simp [ha, hb]) rfl
    have hletter : ∀ cs, literal 'T' (t :: cs) = some cs := by
      intro cs
      rcases ht with rfl | rfl <;> rfl
    have hlt : number [y₁, y₂, y₃, y₄] < 10000 :=
      (@number_lt [y₁, y₂, y₃, y₄] (by simp [hy₁, hy₂, hy₃, hy₄])).trans_le (by simp)
    refine ⟨rest, hrest, hlt, ?_⟩
    simp only [instantFields, hyear, htwo hm₁ hm₂, htwo hd₁ hd₂, htwo hh₁ hh₂, htwo hn₁ hn₂,
      htwo hs₁ hs₂, hletter, literal_cons, Option.bind_eq_bind, Option.bind_some]
  · cases h

/-- **What is found in a text of the format**: its parts, unless the fraction is too long. -/
lemma instantFields_of_dateTime {cs : List Char} {d : DateTime} (h : dateTime cs = some d) :
    instantFields cs = if d.fraction.length ≤ 9 then some d.toFields else none := by
  obtain ⟨rest, hrest, _, hfields⟩ := exists_of_dateTime h
  split_ifs with hlength
  · obtain ⟨zone, hfraction, hzone⟩ := fractionField_of_le hrest hlength
    rw [hfields, hfraction, hzone]
    rfl
  · rw [hfields, offsetField_of_gt hrest (by omega)]
    rfl

/-- The days of the years 0 to 9999. -/
lemma toEpochDay_bounds {year month day : ℕ} (hyear : year < 10000) (hdate : IsDate year month day) :
    -719528 ≤ toEpochDay year month day ∧ toEpochDay year month day < 2932900 := by
  obtain ⟨hmonth, hmonth', hday, hday'⟩ := hdate
  have hmax := hday'.trans (lengthOfMonth_le _ _)
  have hpos : (0 : ℤ) ≤ (year : ℤ) := Int.natCast_nonneg _
  simp only [toEpochDay, if_pos hpos]
  split_ifs <;> omega

section

variable {d : DateTime} (hrange : d.InRange) (hyear : d.year < 10000)
include hrange hyear

/-- The condition on the fields, and the seconds that they come to. -/
lemma epochSeconds_toFields :
    (d.Readable → ∃ seconds, d.toFields.epochSeconds = some seconds ∧
      -31557014167219200 ≤ seconds ∧ seconds ≤ 31556889864403199) ∧
    (d.fraction.length ≤ 9 → ¬d.Readable → d.toFields.epochSeconds = none) := by
  obtain ⟨hdate, hhour, hminute, hsecond⟩ := hrange
  have hcycle : (d.year : ℤ).tmod 10000 = d.year := Int.tmod_eq_of_lt (by omega) (by omega)
  have hcycles : (d.year : ℤ).tdiv 10000 = 0 := Int.tdiv_eq_zero_of_lt (by omega) (by omega)
  have hmidnight : ¬(d.hour = 24 ∧ d.minute = 0 ∧ d.second = 0 ∧
      number d.fraction * 10 ^ (9 - d.fraction.length) = 0) := by
    rintro ⟨h24, _⟩
    omega
  have hresolved : d.toFields.resolved = if d.hour = 23 ∧ d.minute = 59 ∧ d.second = 60 then
      (d.hour, 59, 0) else (d.hour, d.second, 0) := by
    rw [InstantFields.resolved, DateTime.toFields, if_neg hmidnight]
  have hdays := toEpochDay_bounds hyear hdate
  constructor
  · rintro ⟨_, hzone, hleap⟩
    have hlast : ∃ second, second ≤ 59 ∧ d.toFields.resolved = (d.hour, second, 0) := by
      rw [hresolved]
      split_ifs with h
      · exact ⟨59, le_rfl, rfl⟩
      · refine ⟨d.second, hsecond.resolve_right fun h60 => h ?_, rfl⟩
        exact ⟨(hleap h60.1).1, (hleap h60.1).2, h60.1⟩
    obtain ⟨second, hsecond', hlast⟩ := hlast
    simp only [InstantFields.epochSeconds, hlast]
    simp only [DateTime.toFields, hcycle, hcycles]
    rw [if_pos ⟨hdate, hhour, hminute, hsecond', by omega, by omega⟩]
    exact ⟨_, rfl, by omega, by omega⟩
  · intro hlength hnot
    simp only [InstantFields.epochSeconds, hresolved]
    simp only [DateTime.toFields, hcycle, hcycles]
    have hnone : ¬(-1080 ≤ d.zone ∧ d.zone ≤ 1080) ∨
        d.second = 60 ∧ ¬(d.hour = 23 ∧ d.minute = 59) := by
      by_contra hall
      rw [not_or, not_not, not_and, not_not] at hall
      exact hnot ⟨hlength, hall.1, hall.2⟩
    refine if_neg ?_
    rintro ⟨_, _, _, hsecond', hzone, hzone'⟩
    rcases hnone with hzone'' | ⟨h60, hnot'⟩
    · omega
    · rw [if_neg fun h => hnot' ⟨h.1, h.2.1⟩] at hsecond'
      have hle : d.second ≤ 59 := hsecond'
      omega

end

/-- **Which of them the job reads.** -/
theorem isSome_parse_iff {text : String} {d : DateTime} (h : dateTime text.toList = some d)
    (hrange : d.InRange) : (Instant.parse text).isSome ↔ d.Readable := by
  obtain ⟨rest, hrest, hyear, _⟩ := exists_of_dateTime h
  obtain ⟨hread, hunread⟩ := epochSeconds_toFields hrange hyear
  have hfields := instantFields_of_dateTime h
  have hnanos : d.fraction.length ≤ 9 →
      number d.fraction * 10 ^ (9 - d.fraction.length) < 1000000000 := by
    intro hlength
    have hlt := number_lt (fractionAndOffset_spec hrest).1
    have hpow : 10 ^ d.fraction.length * 10 ^ (9 - d.fraction.length) = 1000000000 := by
      rw [← pow_add, Nat.add_sub_cancel' hlength]
      rfl
    have hmul := Nat.mul_lt_mul_of_pos_right hlt (Nat.pow_pos (n := 9 - d.fraction.length)
      (show 0 < 10 by decide))
    omega
  by_cases hlength : d.fraction.length ≤ 9
  · rw [if_pos hlength] at hfields
    rw [Instant.parse, hfields, Option.bind_eq_bind, Option.bind_some]
    constructor
    · intro hsome
      by_contra hnot
      rw [hunread hlength hnot] at hsome
      exact Bool.false_ne_true hsome
    · intro hreadable
      obtain ⟨seconds, hseconds, hmin, hmax⟩ := hread hreadable
      rw [hseconds, Option.bind_eq_bind, Option.bind_some, Instant.ofEpochSecond,
        dif_pos ⟨⟨hmin, hmax⟩, hnanos hlength⟩]
      rfl
  · rw [if_neg hlength] at hfields
    rw [Instant.parse, hfields]
    exact iff_of_false Bool.false_ne_true fun hreadable => hlength hreadable.fraction

end JsonSchema
