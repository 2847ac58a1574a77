import DelayedOrderSms.EndToEnd.Timestamps
import DelayedOrderSms.Schema.JsonSchema

/-!
# The times that are written

The simulator writes its times with `to_iso_z`, the job with `DateTimeFormatter.ISO_INSTANT`.  The
schemas ask for the format `date-time` in both places.

* `dateTime_text` — the parts of a text that is put together of padded numbers.
* `wellTimed_toIsoZ` — the simulator keeps to the format, and to what the job reads of it.
* `formatInstant` — the text of an instant.  `isDateTime_formatInstant` — it is of the format in the
  years 0 to 9999, and in no others; `parse_formatInstant` — it is read as the instant in all years.
-/

namespace EndToEnd

open Python Java OrderSimulator JsonSchema

/-! ## Padded numbers -/

lemma exists_padded_two {n : ℕ} (hn : n < 100) : ∃ a b, Datetime.padded 2 n = [a, b] ∧
    a.isDigit = true ∧ b.isDigit = true ∧ number [a, b] = n := by
  have hdigits := fun c => @Datetime.isDigit_of_mem_padded 2 n c
  have hnumber := Datetime.ofDigitChars_padded 2 n
  obtain ⟨a, b, hab⟩ := List.length_eq_two.mp (@Datetime.length_padded 2 n (by decide) hn)
  rw [hab] at hdigits hnumber
  exact ⟨a, b, hab, hdigits a (by simp), hdigits b (by simp), hnumber⟩

lemma exists_padded_four {n : ℕ} (hn : n < 10000) : ∃ a b c d, Datetime.padded 4 n = [a, b, c, d] ∧
    a.isDigit = true ∧ b.isDigit = true ∧ c.isDigit = true ∧ d.isDigit = true ∧
      number [a, b, c, d] = n := by
  have hdigits := fun c => @Datetime.isDigit_of_mem_padded 4 n c
  have hnumber := Datetime.ofDigitChars_padded 4 n
  have hlength := @Datetime.length_padded 4 n (by decide) hn
  generalize Datetime.padded 4 n = ds at *
  match ds, hlength with
  | [a, b, c, d], _ =>
      exact ⟨a, b, c, d, rfl, hdigits a (by simp), hdigits b (by simp), hdigits c (by simp),
        hdigits d (by simp), hnumber⟩

/-- **A text of padded numbers** has them as its parts. -/
lemma dateTime_text {year month day hour minute second : ℕ} (hyear : year < 10000)
    (hmonth : month < 100) (hday : day < 100) (hhour : hour < 100) (hminute : minute < 100)
    (hsecond : second < 100) {rest fraction : List Char} {zone : ℤ}
    (hrest : fractionAndOffset rest = some (fraction, zone)) :
    dateTime (Datetime.padded 4 year ++ ('-' :: (Datetime.padded 2 month ++ ('-' ::
      (Datetime.padded 2 day ++ ('T' :: (Datetime.padded 2 hour ++ (':' ::
        (Datetime.padded 2 minute ++ (':' :: (Datetime.padded 2 second ++ rest)))))))))))
      = some ⟨year, month, day, hour, minute, second, fraction, zone⟩ := by
  obtain ⟨y₁, y₂, y₃, y₄, hy, hy₁, hy₂, hy₃, hy₄, rfl⟩ := exists_padded_four hyear
  obtain ⟨m₁, m₂, hm, hm₁, hm₂, rfl⟩ := exists_padded_two hmonth
  obtain ⟨d₁, d₂, hd, hd₁, hd₂, rfl⟩ := exists_padded_two hday
  obtain ⟨h₁, h₂, hh, hh₁, hh₂, rfl⟩ := exists_padded_two hhour
  obtain ⟨n₁, n₂, hn, hn₁, hn₂, rfl⟩ := exists_padded_two hminute
  obtain ⟨s₁, s₂, hs, hs₁, hs₂, rfl⟩ := exists_padded_two hsecond
  rw [hy, hm, hd, hh, hn, hs]
  simp only [List.cons_append, List.nil_append, dateTime]
  rw [if_pos, hrest]
  · rfl
  · simp [hy₁, hy₂, hy₃, hy₄, hm₁, hm₂, hd₁, hd₂, hh₁, hh₂, hn₁, hn₂, hs₁, hs₂]

/-- A fraction before a `Z`. -/
lemma fractionAndOffset_padded {width n : ℕ} (hwidth : 0 < width) :
    fractionAndOffset ('.' :: Datetime.padded width n ++ ['Z']) =
      some (Datetime.padded width n, 0) := by
  have hdigits := fun c => @Datetime.isDigit_of_mem_padded width n c
  have hlength : width ≤ (Datetime.padded width n).length := by
    rw [Datetime.padded, List.length_leftpad]
    exact le_max_left _ _
  have hne : Datetime.padded width n ≠ [] := List.ne_nil_of_length_pos (by omega)
  have htake : (Datetime.padded width n ++ ['Z']).takeWhile Char.isDigit
      = Datetime.padded width n := by
    rw [List.takeWhile_append_of_pos hdigits]
    simp
  have hdrop : (Datetime.padded width n ++ ['Z']).dropWhile Char.isDigit = ['Z'] := by
    rw [List.dropWhile_append_of_pos hdigits]
    rfl
  rw [List.cons_append, fractionAndOffset, if_pos rfl, htake, hdrop, if_neg hne]
  rfl

/-- A fraction that the job reads. -/
lemma exists_fraction {width n : ℕ} (hwidth : 0 < width) (hnine : width ≤ 9) (hn : n < 10 ^ width) :
    ∃ fraction, fraction.length ≤ 9 ∧
      fractionAndOffset ('.' :: Datetime.padded width n ++ ['Z']) = some (fraction, 0) :=
  ⟨_, (Datetime.length_padded hwidth hn).trans_le hnine, fractionAndOffset_padded hwidth⟩

/-- The text is of the format, and is read by the job. -/
def WellTimed (cs : List Char) : Prop := ∃ d ∈ dateTime cs, d.InRange ∧ d.Readable

/-- **A date and a time of day in UTC**, with a fraction of up to nine digits. -/
lemma wellTimed_text {year month day hour minute second : ℕ} (hyear : year < 10000)
    (hdate : IsDate year month day) (hhour : hour < 24) (hminute : minute < 60) (hsecond : second < 60)
    {rest fraction : List Char} (hlength : fraction.length ≤ 9)
    (hrest : fractionAndOffset rest = some (fraction, 0)) :
    WellTimed (Datetime.padded 4 year ++ ('-' :: (Datetime.padded 2 month ++ ('-' ::
      (Datetime.padded 2 day ++ ('T' :: (Datetime.padded 2 hour ++ (':' ::
        (Datetime.padded 2 minute ++ (':' :: (Datetime.padded 2 second ++ rest))))))))))) := by
  have hmonth := hdate.2.1
  have hday := hdate.2.2.2.trans (lengthOfMonth_le _ _)
  have hutc : (-1080 : ℤ) ≤ 0 ∧ (0 : ℤ) ≤ 1080 := by decide
  have hparts := dateTime_text hyear (show month < 100 by omega) (show day < 100 by omega)
    (show hour < 100 by omega) (show minute < 100 by omega) (show second < 100 by omega) hrest
  refine ⟨_, hparts, ⟨hdate, Nat.le_of_lt_succ hhour, Nat.le_of_lt_succ hminute,
    .inl (Nat.le_of_lt_succ hsecond)⟩, ⟨hlength, hutc, fun hleap => ?_⟩⟩
  exact absurd hleap hsecond.ne

lemma WellTimed.isDateTime {text : String} (h : WellTimed text.toList) : isDateTime text = true := by
  obtain ⟨d, hd, hrange, _⟩ := h
  rw [JsonSchema.isDateTime, Option.mem_def.mp hd]
  exact decide_eq_true hrange

/-! ## What the simulator writes -/

/-- **The simulator keeps to the format**, and to what the job reads of it. -/
lemma wellTimed_toIsoZ (dt : Datetime) : WellTimed (toIsoZ dt).toList := by
  have hmax := dt.le_max
  have hmin := dt.min_le
  obtain ⟨year, month, day, hcivil⟩ : ∃ year month day,
      Datetime.civil (dt.micros.toNat / 1000000 / 86400) = (year, month, day) := ⟨_, _, _, rfl⟩
  have hdate := civil_spec (show dt.micros.toNat / 1000000 / 86400 < 3652059 by omega)
  rw [hcivil] at hdate
  obtain ⟨_, hyear, hdate, _⟩ := hdate
  obtain ⟨fraction, hlength, hrest⟩ : ∃ fraction, fraction.length ≤ 9 ∧
      fractionAndOffset (fractionText (dt.micros.toNat % 1000000) ++ ['Z']) = some (fraction, 0) := by
    rw [fractionText]
    split_ifs with hzero
    · exact ⟨[], by decide, rfl⟩
    · exact exists_fraction (by decide) (by decide) (by omega)
  rw [toList_toIsoZ dt hcivil]
  simp only [localText, List.append_assoc, List.cons_append]
  exact wellTimed_text (by omega) hdate (by omega) (by omega) (by omega) hlength hrest

/-! ## What the job writes -/

/-- `LocalDate.ofEpochDay`, by the cycles of 400 years. -/
def localDate (epochDay : ℤ) : ℤ × ℕ × ℕ :=
  let n := epochDay + 719162
  let (year, month, day) := Datetime.civil (n % 146097).toNat
  (400 * (n / 146097) + year, month, day)

/-- A year: of four digits, or with a sign. -/
def yearText (year : ℤ) : List Char :=
  if 9999 < year then '+' :: Datetime.padded 4 year.toNat
  else if year < 0 then '-' :: Datetime.padded 4 (-year).toNat
  else Datetime.padded 4 year.toNat

/-- A fraction of three, six or nine digits, if it is not zero. -/
def nanosText (nanos : ℕ) : List Char :=
  if nanos = 0 then []
  else if nanos % 1000000 = 0 then '.' :: Datetime.padded 3 (nanos / 1000000)
  else if nanos % 1000 = 0 then '.' :: Datetime.padded 6 (nanos / 1000)
  else '.' :: Datetime.padded 9 nanos

/-- `DateTimeFormatter.ISO_INSTANT.format` -/
def formatInstant (i : Instant) : String :=
  let (year, month, day) := localDate (i.seconds / 86400)
  let time := (i.seconds % 86400).toNat
  String.ofList (yearText year ++ ('-' :: (Datetime.padded 2 month ++ ('-' ::
    (Datetime.padded 2 day ++ ('T' :: (Datetime.padded 2 (time / 3600) ++ (':' ::
      (Datetime.padded 2 (time % 3600 / 60) ++ (':' :: (Datetime.padded 2 (time % 60)
        ++ (nanosText i.nanos ++ ['Z']))))))))))))

example : formatInstant (.ofEpochMilli (.of 1778587200500)) = "2026-05-12T12:00:00.500Z" := by
  decide +kernel

example : formatInstant (.ofEpochMilli (.of (-62167219201000))) = "-0001-12-31T23:59:59Z" := by
  decide +kernel

/-- The years 0 to 9999. -/
def InFourDigits (i : Instant) : Prop := -62167219200 ≤ i.seconds ∧ i.seconds < 253402300800

instance : DecidablePred InFourDigits := fun _ => inferInstanceAs (Decidable (_ ∧ _))

/-- The last year of a cycle begins 366 days before its end. -/
lemma civil_year {n : ℕ} (hn : n < 146097) :
    (Datetime.civil n).1 ≤ 400 ∧ ((Datetime.civil n).1 = 400 ↔ 145731 ≤ n) := by
  obtain ⟨a, b, c, d, e, hsplit, hb, hc, hd, he, hcivil⟩ := civil_eq n
  rw [hcivil]
  have ha : a = 0 := by omega
  split_ifs with hlast
  · dsimp only
    omega
  · -- the last year is the last of each of its cycles
    have hb' : b = 3 ∨ b ≤ 2 := by omega
    have hc' : c = 24 ∨ c ≤ 23 := by omega
    have hd' : d = 3 ∨ d ≤ 2 := by omega
    dsimp only
    rcases hb' with rfl | hb'
    · rcases hc' with rfl | hc'
      · rcases hd' with rfl | hd' <;> omega
      · omega
    · omega

/-- The date of a day, and the year it is in. -/
lemma localDate_spec (epochDay : ℤ) : ∃ (year : ℤ) (month day : ℕ),
    localDate epochDay = (year, month, day) ∧ IsDate year month day ∧
      toEpochDay year month day = epochDay ∧
        (0 ≤ year ↔ -719528 ≤ epochDay) ∧ (year ≤ 9999 ↔ epochDay < 2932897) ∧
          400 * ((epochDay + 719162) / 146097) ≤ year ∧
            year ≤ 400 * ((epochDay + 719162) / 146097) + 400 := by
  have hrest : ((epochDay + 719162) % 146097).toNat < 146097 := by omega
  obtain ⟨year, month, day, hcivil⟩ : ∃ year month day,
      Datetime.civil ((epochDay + 719162) % 146097).toNat = (year, month, day) := ⟨_, _, _, rfl⟩
  have hspec := civil_spec (show ((epochDay + 719162) % 146097).toNat < 3652059 by omega)
  rw [hcivil] at hspec
  obtain ⟨hpos, _, hdate, hepoch⟩ := hspec
  have hyear := civil_year hrest
  rw [hcivil] at hyear
  dsimp only at hyear
  refine ⟨400 * ((epochDay + 719162) / 146097) + year, month, day, by rw [localDate, hcivil],
    (isDate_cycle _ _ _ _).mpr hdate, ?_, ?_, ?_, by omega, by omega⟩
  · rw [toEpochDay_cycle, hepoch]
    omega
  · omega
  · omega

/-- A year with a sign is of no format. -/
lemma dateTime_sign {c : Char} (hc : c = '+' ∨ c = '-') (cs : List Char) : dateTime (c :: cs) = none := by
  have hdigit : c.isDigit = false := by
    rcases hc with rfl | rfl <;> rfl
  rw [dateTime.eq_def]
  split
  · rename_i heq
    obtain ⟨rfl, rfl⟩ := List.cons.inj heq
    refine if_neg ?_
    simp [hdigit]
  · rfl

lemma fractionAndOffset_nanosText {nanos : ℕ} (hnanos : nanos < 1000000000) : ∃ fraction,
    fraction.length ≤ 9 ∧ fractionAndOffset (nanosText nanos ++ ['Z']) = some (fraction, 0) := by
  rw [nanosText]
  split_ifs
  · exact ⟨[], by decide, rfl⟩
  · exact exists_fraction (by decide) (by decide) (by omega)
  · exact exists_fraction (by decide) (by decide) (by omega)
  · exact exists_fraction (by decide) (by decide) (by omega)

/-- The text of an instant, put together of its date and its time of day. -/
lemma toList_formatInstant {i : Instant} {year : ℤ} {month day : ℕ}
    (h : localDate (i.seconds / 86400) = (year, month, day)) :
    (formatInstant i).toList = yearText year ++ ('-' :: (Datetime.padded 2 month ++ ('-' ::
      (Datetime.padded 2 day ++ ('T' ::
        (Datetime.padded 2 ((i.seconds % 86400).toNat / 3600) ++ (':' ::
          (Datetime.padded 2 ((i.seconds % 86400).toNat % 3600 / 60) ++ (':' ::
            (Datetime.padded 2 ((i.seconds % 86400).toNat % 60)
              ++ (nanosText i.nanos ++ ['Z']))))))))))) := by
  simp only [formatInstant, h, String.toList_ofList]

/-- **The job keeps to the format in the years 0 to 9999**, and in no others. -/
lemma isDateTime_formatInstant (i : Instant) :
    isDateTime (formatInstant i) = true ↔ InFourDigits i := by
  obtain ⟨year, month, day, hlocal, hdate, _, hfirst, hlast, _⟩ := localDate_spec (i.seconds / 86400)
  have hyears : 0 ≤ year ∧ year ≤ 9999 ↔ InFourDigits i := by
    rw [hfirst, hlast, InFourDigits]
    omega
  have htext := toList_formatInstant hlocal
  rw [← hyears]
  by_cases hmax : 9999 < year
  · refine iff_of_false ?_ (by omega)
    rw [isDateTime, htext, yearText, if_pos hmax, List.cons_append, dateTime_sign (.inl rfl)]
    exact Bool.false_ne_true
  · by_cases hmin : year < 0
    · refine iff_of_false ?_ (by omega)
      rw [isDateTime, htext, yearText, if_neg hmax, if_pos hmin, List.cons_append,
        dateTime_sign (.inr rfl)]
      exact Bool.false_ne_true
    · refine iff_of_true (WellTimed.isDateTime ?_) (by omega)
      obtain ⟨fraction, hlength, hrest⟩ := fractionAndOffset_nanosText i.nanos_lt
      have hcast : ((year.toNat : ℕ) : ℤ) = year := Int.toNat_of_nonneg (by omega)
      rw [htext, yearText, if_neg hmax, if_neg hmin]
      exact wellTimed_text (by omega) (hcast.symm ▸ hdate) (by omega) (by omega) (by omega) hlength
        hrest

/-! ## Reading it back -/

lemma length_padded_le {width n : ℕ} (hwidth : width ≤ 10) (hn : n < 10 ^ 10) :
    (Datetime.padded width n).length ≤ 10 := by
  rw [Datetime.padded, List.length_leftpad]
  exact max_le hwidth ((Nat.length_toDigits_le_iff (by decide) (by decide)).mpr hn)

/-- More digits than four, from 10 000 on. -/
lemma four_lt_length_padded {n : ℕ} (hn : 10000 ≤ n) : 4 < (Datetime.padded 4 n).length := by
  rw [Datetime.padded, List.length_leftpad, lt_max_iff]
  refine .inr (lt_of_not_ge fun hle => ?_)
  have := (Nat.length_toDigits_le_iff (by decide) (by decide)).mp hle
  omega

/-- **The year is read**, with its sign. -/
lemma yearField_yearText {year : ℤ} (hmin : -10 ^ 10 < year) (hmax : year < 10 ^ 10)
    (rest : List Char) : yearField (yearText year ++ '-' :: rest) = some (year, '-' :: rest) := by
  have hread : ∀ n : ℕ, n < 10 ^ 10 → digits 10 (Datetime.padded 4 n ++ '-' :: rest)
      = (Datetime.padded 4 n, '-' :: rest) := by
    intro n hn
    exact digits_append (fun _ => Datetime.isDigit_of_mem_padded)
      (length_padded_le (by decide) hn) (.inr (by simp))
  have hnumber : ∀ n : ℕ, number (Datetime.padded 4 n) = n := Datetime.ofDigitChars_padded 4
  rw [yearText]
  split_ifs with hlarge hneg
  · rw [List.cons_append, yearField, hread _ (by omega)]
    dsimp only
    rw [if_pos (four_lt_length_padded (by omega)), hnumber, Int.toNat_of_nonneg (by omega)]
  · have hfour : 4 ≤ (Datetime.padded 4 (-year).toNat).length := by
      rw [Datetime.padded, List.length_leftpad]
      exact le_max_left _ _
    rw [List.cons_append, yearField, hread _ (by omega)]
    dsimp only
    rw [if_pos ⟨hfour, by rw [hnumber]; omega⟩, hnumber, Int.toNat_of_nonneg (by omega), neg_neg]
  · rw [yearField_padded (by omega), Int.toNat_of_nonneg (by omega)]

lemma fractionField_nanosText {nanos : ℕ} (hnanos : nanos < 1000000000) :
    fractionField (nanosText nanos ++ ['Z']) = (nanos, ['Z']) := by
  have hread : ∀ {width n : ℕ}, 0 < width → width ≤ 9 → n < 10 ^ width →
      fractionField ('.' :: Datetime.padded width n ++ ['Z']) = (n * 10 ^ (9 - width), ['Z']) := by
    intro width n hwidth hnine hn
    have hlength := Datetime.length_padded hwidth hn
    rw [fractionField_append (fun _ => Datetime.isDigit_of_mem_padded) (hlength.trans_le hnine)
      (by simp), number, Datetime.ofDigitChars_padded, hlength]
  rw [nanosText]
  split_ifs with hzero hmillis hmicros
  · subst hzero
    rfl
  · rw [hread (by decide) (by decide) (by omega)]
    congr 1
    omega
  · rw [hread (by decide) (by decide) (by omega)]
    congr 1
    omega
  · rw [hread (by decide) (by decide) (by omega)]
    congr 1
    omega

/-- **The text of an instant is read as that instant**, in all the years that there are. -/
lemma parse_formatInstant (i : Instant) : Instant.parse (formatInstant i) = some i := by
  have hmin := i.min_le
  have hmax := i.le_max
  have hnanos := i.nanos_lt
  obtain ⟨year, month, day, hlocal, hdate, hepoch, _, _, hfirst, hlast⟩ :=
    localDate_spec (i.seconds / 86400)
  have hmonth := hdate.2.1
  have hday := hdate.2.2.2.trans (lengthOfMonth_le _ _)
  have hfields : instantFields (formatInstant i).toList = some ⟨year, month, day,
      (i.seconds % 86400).toNat / 3600, (i.seconds % 86400).toNat % 3600 / 60,
      (i.seconds % 86400).toNat % 60, i.nanos, 0⟩ := by
    rw [toList_formatInstant hlocal, instantFields, yearField_yearText (by omega) (by omega)]
    simp only [literal_cons, Option.bind_eq_bind, Option.bind_some,
      twoDigits_padded (show month < 100 by omega), twoDigits_padded (show day < 100 by omega),
      twoDigits_padded (show (i.seconds % 86400).toNat / 3600 < 100 by omega),
      twoDigits_padded (show (i.seconds % 86400).toNat % 3600 / 60 < 100 by omega),
      twoDigits_padded (show (i.seconds % 86400).toNat % 60 < 100 by omega),
      fractionField_nanosText hnanos]
    rfl
  have hseconds : toEpochDay year month day * 86400 + ((i.seconds % 86400).toNat / 3600 : ℕ) * 3600
      + ((i.seconds % 86400).toNat % 3600 / 60 : ℕ) * 60 + ((i.seconds % 86400).toNat % 60 : ℕ)
      = i.seconds := by
    rw [hepoch]
    omega
  rw [Instant.parse, hfields, Option.bind_eq_bind, Option.bind_some,
    epochSeconds_utc hdate (by omega) (by omega) (by omega), hseconds, Option.bind_eq_bind,
    Option.bind_some]
  exact dif_pos ⟨⟨hmin, hmax⟩, hnanos⟩

end EndToEnd
