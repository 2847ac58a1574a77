import DelayedOrderSms.Java.IsoInstant
import DelayedOrderSms.Simulator.EtaOffset
import DelayedOrderSms.Simulator.Rendering

/-!
# Timestamps between the two programs

The simulator writes its times with `to_iso_z`, from Python's calendar; the job reads them with
`Instant.parse`, into Java's.

* `civil_spec` — the two calendars agree, by the cycles of 400, 100, 4 and single years.
* `instantFields_localText` — the text that one writes has the fields that the other finds.
* `parse_toIsoZ` — so a time is read as it was, to the microsecond.
* `times_arrive` — what the time expressions of a scenario file come to in the job.
-/

namespace EndToEnd

open Python Java Systems OrderSimulator

/-! ## The calendars -/

/-- `lengthOfMonth`, by whether the year is a leap year. -/
def daysOfMonth (leap : Bool) (month : ℕ) : ℕ :=
  match month with
  | 2 => if leap then 29 else 28
  | 4 | 6 | 9 | 11 => 30
  | _ => 31

/-- The days of a year before a date. -/
def daysBefore (leap : Bool) (month day : ℕ) : ℤ :=
  (367 * month - 362) / 12 + (day - 1) - if 2 < month then if leap then 1 else 2 else 0

/-- The two calendars divide a year alike. -/
lemma monthAndDay_spec : ∀ leap : Bool, ∀ n < if leap then 366 else 365,
    let (month, day) := Datetime.monthAndDay (Datetime.daysInMonths leap) 1 n
    1 ≤ month ∧ month ≤ 12 ∧ 1 ≤ day ∧ day ≤ daysOfMonth leap month ∧
      daysBefore leap month day = n := by
  decide +kernel

section Cycles

variable {a b c d : ℕ} (hb : b ≤ 3) (hc : c ≤ 24) (hd : d ≤ 3)
include hb hc hd

/-- The leap years of a cycle. -/
lemma isLeapYear_cycles : isLeapYear ((a * 400 + 1 + b * 100 + c * 4 + d : ℕ) : ℤ) =
    decide (d = 3 ∧ (c ≠ 24 ∨ b = 3)) := by
  rw [isLeapYear, decide_eq_decide]
  omega

/-- The days before a year, with the cycles that it comes after. -/
lemma toEpochDay_cycles (month day : ℕ) :
    toEpochDay ((a * 400 + 1 + b * 100 + c * 4 + d : ℕ) : ℤ) month day =
      146097 * a + 36524 * b + 1461 * c + 365 * d
        + daysBefore (decide (d = 3 ∧ (c ≠ 24 ∨ b = 3))) month day - 719162 := by
  have hpos : (0 : ℤ) ≤ (a * 400 + 1 + b * 100 + c * 4 + d : ℕ) := Int.natCast_nonneg _
  have h4 : (((a * 400 + 1 + b * 100 + c * 4 + d : ℕ) : ℤ) + 3) / 4 = 100 * a + 25 * b + c + 1 := by
    omega
  have h100 : (((a * 400 + 1 + b * 100 + c * 4 + d : ℕ) : ℤ) + 99) / 100 = 4 * a + b + 1 := by
    omega
  have h400 : (((a * 400 + 1 + b * 100 + c * 4 + d : ℕ) : ℤ) + 399) / 400 = a + 1 := by
    omega
  simp only [toEpochDay, if_pos hpos, h4, h100, h400, isLeapYear_cycles hb hc hd, daysBefore]
  split_ifs <;> push_cast <;> omega

end Cycles

/-- The cycles of 400, 100, 4 and single years in a number of days. -/
lemma civil_eq (n : ℕ) : ∃ a b c d e : ℕ,
    n = 146097 * a + 36524 * b + 1461 * c + 365 * d + e ∧
      36524 * b + 1461 * c + 365 * d + e < 146097 ∧ 1461 * c + 365 * d + e < 36524 ∧
      365 * d + e < 1461 ∧ e < 365 ∧
      Datetime.civil n = if d = 4 ∨ b = 4 then (a * 400 + 1 + b * 100 + c * 4 + d - 1, 12, 31)
        else (a * 400 + 1 + b * 100 + c * 4 + d, Datetime.monthAndDay
          (Datetime.daysInMonths (d = 3 ∧ (c ≠ 24 ∨ b = 3))) 1 e) :=
  ⟨n / 146097, n % 146097 / 36524, n % 146097 % 36524 / 1461, n % 146097 % 36524 % 1461 / 365,
    n % 146097 % 36524 % 1461 % 365, by omega, by omega, by omega, by omega, by omega, rfl⟩

/-- **The two calendars agree** on the days of the years 1 to 9999. -/
lemma civil_spec {n : ℕ} (hn : n < 3652059) :
    let (year, month, day) := Datetime.civil n
    1 ≤ year ∧ year ≤ 9999 ∧ IsDate year month day ∧ toEpochDay year month day = n - 719162 := by
  obtain ⟨a, b, c, d, e, hsplit, hb, hc, hd, he, hcivil⟩ := civil_eq n
  rw [hcivil]
  split_ifs with hlast
  · -- the last day of a cycle of 4 or of 400 years
    obtain ⟨b', c', hyear, hday, hb', hc'⟩ : ∃ b' c' : ℕ,
        a * 400 + 1 + b * 100 + c * 4 + d - 1 = a * 400 + 1 + b' * 100 + c' * 4 + 3 ∧
          n = 146097 * a + 36524 * b' + 1461 * c' + 365 * 3 + 365 ∧ b' ≤ 3 ∧
          (c' ≤ 23 ∨ c' = 24 ∧ b' = 3) := by
      rcases hlast with rfl | rfl
      · exact ⟨b, c, by omega, by omega, by omega, by omega⟩
      · exact ⟨3, 24, by omega, by omega, by omega, by omega⟩
    have hleap : (c' ≠ 24 ∨ b' = 3) := by omega
    rw [hyear]
    refine ⟨by omega, by omega, by simp [IsDate, lengthOfMonth], ?_⟩
    rw [toEpochDay_cycles hb' (by omega) le_rfl, hday]
    simp only [daysBefore, hleap, and_self, decide_true]
    push_cast
    omega
  · have hin := monthAndDay_spec (decide (d = 3 ∧ (c ≠ 24 ∨ b = 3))) e (by split_ifs <;> omega)
    revert hin
    generalize Datetime.monthAndDay (Datetime.daysInMonths _) 1 e = date
    obtain ⟨month, day⟩ := date
    rintro ⟨hmonth, hmonth', hday, hday', hbefore⟩
    have hb' : b ≤ 3 := by omega
    have hc' : c ≤ 24 := by omega
    have hd' : d ≤ 3 := by omega
    have hlength : lengthOfMonth ((a * 400 + 1 + b * 100 + c * 4 + d : ℕ) : ℤ) month
        = daysOfMonth (decide (d = 3 ∧ (c ≠ 24 ∨ b = 3))) month := by
      rw [← isLeapYear_cycles hb' hc' hd']
      rfl
    refine ⟨by omega, by omega, ⟨hmonth, hmonth', hday, hlength ▸ hday'⟩, ?_⟩
    rw [toEpochDay_cycles hb' hc' hd', hbefore, hsplit]
    push_cast
    ring

/-! ## The text -/

/-- The microseconds in the text. -/
def fractionText (micros : ℕ) : List Char :=
  if micros = 0 then [] else '.' :: Datetime.padded 6 micros

/-- The text of a date and a time, up to the offset. -/
def localText (year month day hour minute second micros : ℕ) : List Char :=
  Datetime.padded 4 year ++ ('-' :: (Datetime.padded 2 month ++ ('-' :: (Datetime.padded 2 day ++
    ('T' :: (Datetime.padded 2 hour ++ (':' :: (Datetime.padded 2 minute ++
      (':' :: (Datetime.padded 2 second ++ fractionText micros))))))))))

/-- What `to_iso_z` writes. -/
lemma toList_toIsoZ (dt : Datetime) {year month day : ℕ}
    (h : Datetime.civil (dt.micros.toNat / 1000000 / 86400) = (year, month, day)) :
    (toIsoZ dt).toList = localText year month day (dt.micros.toNat / 1000000 % 86400 / 3600)
      (dt.micros.toNat / 1000000 % 3600 / 60) (dt.micros.toNat / 1000000 % 60)
      (dt.micros.toNat % 1000000) ++ ['Z'] := by
  have hiso : dt.isoformat.toList = localText year month day
      (dt.micros.toNat / 1000000 % 86400 / 3600) (dt.micros.toNat / 1000000 % 3600 / 60)
      (dt.micros.toNat / 1000000 % 60) (dt.micros.toNat % 1000000) ++ "+00:00".toList := by
    simp only [Datetime.isoformat, h, String.toList_ofList, localText, fractionText,
      List.append_assoc, List.cons_append]
  have hdigit : ∀ {w n : ℕ}, ∀ c ∈ Datetime.padded w n, c ≠ '+' := by
    rintro w n _ hc rfl
    exact absurd (Datetime.isDigit_of_mem_padded hc) (by decide)
  have hplus : ∀ c ∈ localText year month day (dt.micros.toNat / 1000000 % 86400 / 3600)
      (dt.micros.toNat / 1000000 % 3600 / 60) (dt.micros.toNat / 1000000 % 60)
      (dt.micros.toNat % 1000000), c ≠ '+' := by
    intro c hc
    simp only [localText, fractionText, List.mem_append, List.mem_cons] at hc
    split_ifs at hc <;> grind
  rw [toIsoZ, replace, hiso, String.toList_ofList]
  exact replaceChars_append hplus

/-! ## Reading it back -/

lemma twoDigits_padded {n : ℕ} (hn : n < 100) (rest : List Char) :
    twoDigits (Datetime.padded 2 n ++ rest) = some (n, rest) := by
  rw [twoDigits_append (fun _ => Datetime.isDigit_of_mem_padded)
    (Datetime.length_padded (by decide) hn), number, Datetime.ofDigitChars_padded]

lemma yearField_padded {n : ℕ} (hn : n < 10000) (rest : List Char) :
    yearField (Datetime.padded 4 n ++ '-' :: rest) = some ((n : ℤ), '-' :: rest) := by
  rw [yearField_append (fun _ => Datetime.isDigit_of_mem_padded)
    (Datetime.length_padded (by decide) hn) (by simp), number, Datetime.ofDigitChars_padded]

lemma fractionField_fractionText {micros : ℕ} (hmicros : micros < 1000000) :
    fractionField (fractionText micros ++ ['Z']) = (micros * 1000, ['Z']) := by
  rw [fractionText]
  split_ifs with hzero
  · subst hzero
    rfl
  · have hlength := @Datetime.length_padded 6 micros (by decide) hmicros
    rw [fractionField_append (fun _ => Datetime.isDigit_of_mem_padded) (by omega) (by simp),
      number, Datetime.ofDigitChars_padded, hlength]
    rfl

lemma instantFields_localText {year month day hour minute second micros : ℕ} (hyear : year < 10000)
    (hmonth : month < 100) (hday : day < 100) (hhour : hour < 100) (hminute : minute < 100)
    (hsecond : second < 100) (hmicros : micros < 1000000) :
    instantFields (localText year month day hour minute second micros ++ ['Z']) =
      some ⟨year, month, day, hour, minute, second, micros * 1000, 0⟩ := by
  simp only [instantFields, localText, List.append_assoc, List.cons_append, yearField_padded hyear,
    literal_cons, Option.bind_eq_bind, Option.bind_some, twoDigits_padded hmonth,
    twoDigits_padded hday, twoDigits_padded hhour, twoDigits_padded hminute,
    twoDigits_padded hsecond, fractionField_fractionText hmicros]
  rfl

/-- The instant of a `datetime`. -/
def instantOf (dt : Datetime) : Instant where
  seconds := dt.micros / 1000000 - 62135596800
  nanos := (dt.micros % 1000000).toNat * 1000
  min_le := by have := dt.min_le; omega
  le_max := by have := dt.le_max; omega
  nanos_lt := by omega

lemma toNanos_instantOf (dt : Datetime) :
    (instantOf dt).toNanos = dt.micros * 1000 - 62135596800000000000 := by
  have hmin := dt.min_le
  simp only [Instant.toNanos, instantOf]
  omega

/-- **The job reads the time the simulator has written**, with its microseconds, for every time of
the years 1 to 9999. -/
lemma parse_toIsoZ (dt : Datetime) : Instant.parse (toIsoZ dt) = some (instantOf dt) := by
  have hmin := dt.min_le
  have hmax := dt.le_max
  obtain ⟨year, month, day, hcivil⟩ : ∃ year month day,
      Datetime.civil (dt.micros.toNat / 1000000 / 86400) = (year, month, day) := ⟨_, _, _, rfl⟩
  have hdate := civil_spec (show dt.micros.toNat / 1000000 / 86400 < 3652059 by omega)
  rw [hcivil] at hdate
  obtain ⟨hyear, hyear', hdate, hepoch⟩ := hdate
  have hmonth := hdate.2.1
  have hday := hdate.2.2.2.trans (lengthOfMonth_le _ _)
  have hfields := @instantFields_localText year month day
    (dt.micros.toNat / 1000000 % 86400 / 3600) (dt.micros.toNat / 1000000 % 3600 / 60)
    (dt.micros.toNat / 1000000 % 60) (dt.micros.toNat % 1000000) (by omega) (by omega) (by omega)
    (by omega) (by omega) (by omega) (by omega)
  have hseconds : toEpochDay year month day * 86400
      + (dt.micros.toNat / 1000000 % 86400 / 3600 : ℕ) * 3600
      + (dt.micros.toNat / 1000000 % 3600 / 60 : ℕ) * 60 + (dt.micros.toNat / 1000000 % 60 : ℕ)
      = (instantOf dt).seconds := by
    simp only [hepoch, instantOf]
    omega
  have hnanos : dt.micros.toNat % 1000000 * 1000 = (instantOf dt).nanos := by
    simp only [instantOf]
    omega
  rw [Instant.parse, toList_toIsoZ dt hcivil, hfields, Option.bind_eq_bind, Option.bind_some,
    epochSeconds_utc hdate (by omega) (by omega) (by omega), hseconds, hnanos,
    Option.bind_eq_bind, Option.bind_some]
  exact dif_pos ⟨⟨(instantOf dt).min_le, (instantOf dt).le_max⟩, (instantOf dt).nanos_lt⟩

/-! ## The times of an event -/

/-- The string is a time expression for the time `t`, at the base time `b`. -/
def Denotes (b : Datetime) (s : String) (t : Datetime) : Prop :=
  ∃ e : TimeExpression, e.InGrammar ∧ s.toList = e.text ∧ ¬maxStrDigits < e.digits.length ∧
    t.micros = b.micros + e.duration

/-- The string is read as an offset from the base time `b` to `t`. -/
def Shifts (b : Datetime) (s : String) (t : Datetime) : Prop :=
  ∃ e : TimeExpression, Spells s e ∧ ¬maxStrDigits < e.digits.length ∧
    t.micros = b.micros + e.duration

/-- The job reads the time `t` at the position. -/
def ReadAs (value : Json) (position : List Json.Step) (t : Datetime) : Prop :=
  ∃ text, value.at? position = some (.str text) ∧ Instant.parse text = some (instantOf t)

/-- A text without an opening brace is rendered as it is. -/
lemma renderTemplateValue_eq_self {value : String} (h : '{' ∉ value.toList)
    (context : OrderContext) : renderTemplateValue value context.asTemplateContext = value := by
  have hkept : ∀ rule ∈ rules context.asTemplateContext, substitute [rule] value.toList
      = value.toList := by
    intro rule hrule
    refine substitute_eq_self fun rule' hrule' hinfix => h ?_
    rw [List.mem_singleton.mp hrule'] at hinfix
    obtain ⟨entry, _, rfl⟩ := List.mem_map.mp hrule
    exact hinfix.subset (by simp [placeholder, String.toList_append])
  apply String.toList_injective
  rw [toList_renderTemplateValue]
  generalize rules context.asTemplateContext = table at hkept
  induction table with
  | nil => rfl
  | cons rule rest ih =>
      rw [List.foldl_cons, hkept rule List.mem_cons_self]
      exact ih fun rule' hrule' => hkept rule' (List.mem_cons_of_mem _ hrule')

lemma brace_notMem_text (e : TimeExpression) : '{' ∉ e.text := by
  have hdigit : ∀ c ∈ e.digits, c ≠ '{' := by
    rintro _ hc rfl
    exact absurd (e.isDigit_of_mem _ hc) (by decide)
  obtain ⟨sign, digits, unit, _⟩ := e
  simp only [TimeExpression.text, TimeExpression.body, List.mem_append, not_or]
  refine ⟨by decide, ?_, fun h => hdigit _ h rfl, ?_⟩
  · rcases sign with _ | _ | _ <;> decide
  · rcases unit with _ | _ | _ <;> decide

/-- What becomes of an offset that can be applied. -/
lemma applyEtaOffset_of_shifts {baseTime t : Datetime} {resolved : Dict String Json} {s : String}
    (h : Shifts baseTime s t) :
    applyEtaOffset baseTime (.dict resolved) (.str s) =
      .ok (.dict (Dict.set resolved "expectedDeliveryTime" (.str (toIsoZ t)))) := by
  obtain ⟨e, hspells, hlength, ht⟩ := h
  obtain ⟨delta, hdelta, hoffset⟩ := TimeExpression.offset_of_inRange hlength ht
  have hadd : baseTime.add delta = .ok t := Datetime.ofMicros_eq_ok_iff.mpr (by rw [hdelta, ht])
  rw [applyEtaOffset, parseOffset_of_spells hspells, hoffset, ok_bind, hadd, ok_bind]
  rfl

section Build

variable {valueTemplate value : Json} {context : OrderContext} {eventDefinition : Dict String Json}

/-- **What `_build_event_value` returns** is the resolved template, or that with the offset
applied. -/
lemma buildEventValue_cases (h : buildEventValue valueTemplate context eventDefinition = .ok value) :
    ∃ resolved, resolveDynamicTimes (renderTemplate valueTemplate context.asTemplateContext)
        context.baseTime = .ok resolved ∧
      (value = resolved ∨ ∃ offset, eventDefinition.get? "etaOffset" = some offset ∧
        applyEtaOffset context.baseTime resolved offset = .ok value) ∧
      ∀ offset adjusted, eventDefinition.get? "etaOffset" = some offset →
        resolved.contains "expectedDeliveryTime" = .ok true →
          applyEtaOffset context.baseTime resolved offset = .ok adjusted → value = adjusted := by
  obtain ⟨resolved, hresolved, h⟩ := bind_eq_ok_iff.mp h
  refine ⟨resolved, hresolved, ?_⟩
  cases hoffset : eventDefinition.get? "etaOffset" with
  | none =>
      rw [hoffset] at h
      cases h
      exact ⟨.inl rfl, fun _ _ hnone => absurd hnone (by simp)⟩
  | some offset =>
      simp only [hoffset] at h
      obtain ⟨mentioned, hmentioned, h⟩ := bind_eq_ok_iff.mp h
      split_ifs at h with hin
      · cases hadjusted : applyEtaOffset context.baseTime resolved offset with
        | ok adjusted =>
            rw [hadjusted] at h
            cases h
            refine ⟨.inr ⟨offset, rfl, hadjusted⟩, ?_⟩
            rintro _ adjusted ⟨⟩ _ hok
            rw [hadjusted] at hok
            exact Except.ok.inj hok
        | error e =>
            rw [hadjusted] at h
            simp only at h
            split_ifs at h
            cases h
            refine ⟨.inl rfl, ?_⟩
            rintro _ adjusted ⟨⟩ _ hok
            rw [hadjusted] at hok
            cases hok
      · cases h
        refine ⟨.inl rfl, ?_⟩
        rintro _ adjusted ⟨⟩ htrue _
        rw [hmentioned] at htrue
        exact absurd (Except.ok.inj htrue) hin

/-- A time expression, resolved, wherever it is. -/
lemma at?_resolved {resolved : Json}
    (h : resolveDynamicTimes (renderTemplate valueTemplate context.asTemplateContext)
      context.baseTime = .ok resolved) {position : List Json.Step} {s : String} {t : Datetime}
    (hs : valueTemplate.at? position = some (.str s)) (ht : Denotes context.baseTime s t) :
    resolved.at? position = some (.str (toIsoZ t)) := by
  rw [resolveDynamicTimes_renderTemplate] at h
  have hrel := Json.rel_of_mapStrings (R := fun s t =>
    parseDynamicTime (renderTemplateValue s context.asTemplateContext) context.baseTime = .ok t)
    (fun _ _ hst => hst) h
  obtain ⟨item, hitem, hrel⟩ := Json.at?_of_rel hrel hs
  cases item with
  | str text =>
      obtain ⟨e, he, hexpression, hlength, ht⟩ := ht
      have hbrace : '{' ∉ s.toList := by
        rw [hexpression]
        exact brace_notMem_text e
      have htext : parseDynamicTime (renderTemplateValue s context.asTemplateContext)
          context.baseTime = .ok text := hrel
      rw [renderTemplateValue_eq_self hbrace, (read_of_inGrammar he hexpression hlength ht).1]
        at htext
      rw [hitem, Except.ok.inj htext]
  | _ => exact hrel.elim

/-- A dictionary stays one, with its keys. -/
lemma exists_resolved {entries : Dict String Json} {resolved : Json}
    (h : resolveDynamicTimes (renderTemplate (.dict entries) context.asTemplateContext)
      context.baseTime = .ok resolved) :
    ∃ entries', resolved = .dict entries' ∧
      ∀ key, (entries.get? key).isSome → (Dict.get? entries' key).isSome := by
  rw [resolveDynamicTimes_renderTemplate] at h
  have hrel := Json.rel_of_mapStrings (R := fun _ _ => True) (fun _ _ _ => trivial) h
  cases resolved with
  | dict entries' =>
      refine ⟨entries', rfl, fun key hkey => ?_⟩
      obtain ⟨item, hitem⟩ := Option.isSome_iff_exists.mp hkey
      obtain ⟨item', hitem', _⟩ := Json.get?_of_relEntries hrel hitem
      rw [hitem']
      rfl
  | _ => exact hrel.elim

end Build

/-- **The job reads the times that the scenario file means.**  In the value that is built for an
event, the text of every field that is a time expression is parsed to the base time plus its
duration, in nested dictionaries and lists too, and the expected delivery time to the base time plus
the `etaOffset` of the event. -/
theorem times_arrive {entries : Dict String Json} {context : OrderContext} {value : Json}
    {eventDefinition : Dict String Json}
    (h : buildEventValue (.dict entries) context eventDefinition = .ok value) :
    (∀ position s t, Json.at? (.dict entries) position = some (.str s) →
        Denotes context.baseTime s t →
          (position.head? = some (.key "expectedDeliveryTime") →
            eventDefinition.get? "etaOffset" = none) →
              ReadAs value position t) ∧
      ∀ s t, eventDefinition.get? "etaOffset" = some (.str s) →
        (entries.get? "expectedDeliveryTime").isSome → Shifts context.baseTime s t →
          ReadAs value [.key "expectedDeliveryTime"] t := by
  obtain ⟨_, hresolved, hcases, hadjusted⟩ := buildEventValue_cases h
  obtain ⟨resolved, rfl, hkeys⟩ := exists_resolved hresolved
  constructor
  · intro position s t hs ht hoffset
    have htext := at?_resolved hresolved hs ht
    -- the offset, if it is applied, leaves the position alone
    have hkept : value.at? position = Json.at? (.dict resolved) position := by
      rcases hcases with rfl | ⟨offset, hsome, happly⟩
      · rfl
      · obtain ⟨_, _, happly⟩ := bind_eq_ok_iff.mp happly
        obtain ⟨_, _, happly⟩ := bind_eq_ok_iff.mp happly
        cases happly
        cases position with
        | nil => cases hs
        | cons step rest =>
            cases step with
            | item index => rfl
            | key name =>
                have hne : "expectedDeliveryTime" ≠ name := by
                  rintro rfl
                  exact absurd (hoffset rfl) (by simp [hsome])
                rw [Json.at?, Json.at?, Dict.get?_set, if_neg hne]
    exact ⟨toIsoZ t, hkept.trans htext, parse_toIsoZ t⟩
  · intro s t hoffset hmentioned ht
    obtain rfl := hadjusted _ _ hoffset (congrArg Except.ok (hkeys _ hmentioned))
      (applyEtaOffset_of_shifts ht)
    refine ⟨toIsoZ t, ?_, parse_toIsoZ t⟩
    rw [Json.at?, Dict.get?_set, if_pos rfl]
    rfl

/-- A minus sign, thirty and a unit. -/
def thirtySecondsAgo : TimeExpression :=
  ⟨some .minus, "30".toList, some .s, List.all_eq_true.mp (by decide)⟩

/-- `now+10s` -/
def inTenSeconds : TimeExpression :=
  ⟨some .plus, "10".toList, some .s, List.all_eq_true.mp (by decide)⟩

/-- An order at noon that was due thirty seconds before. -/
def noonOrder : OrderContext := ⟨1, "ord-delayed-orders-0001", "cus-0001", "store-001", noon⟩

/-- Half a minute before noon. -/
def beforeNoon : Datetime := ⟨63914183970000000, by decide, by decide⟩

/-- Ten seconds after noon. -/
def afterNoon : Datetime := ⟨63914184010000000, by decide, by decide⟩

/-- The value of an event of the order, with a log entry. -/
def noonTemplate : Dict String Json :=
  [("stateLogs", .list [.dict [("status", .str "ACCEPTED"), ("at", .str "now+10s")]]),
    ("expectedDeliveryTime", .str "now")]

/-- The log entry is read as ten seconds after noon, and the expected delivery time as thirty seconds
before it. -/
theorem times_arrive_late :
    buildEventValue (.dict noonTemplate) noonOrder [("etaOffset", .str "-30s")]
      = .ok (.dict [("stateLogs", .list [.dict [("status", .str "ACCEPTED"),
            ("at", .str "2026-05-12T12:00:10Z")]]),
          ("expectedDeliveryTime", .str "2026-05-12T11:59:30Z")]) ∧
      Instant.parse "2026-05-12T12:00:10Z" = some (instantOf afterNoon) ∧
      Instant.parse "2026-05-12T11:59:30Z" = some (instantOf beforeNoon) := by
  have hbuild : buildEventValue (.dict noonTemplate) noonOrder [("etaOffset", .str "-30s")]
      = .ok (.dict [("stateLogs", .list [.dict [("status", .str "ACCEPTED"),
            ("at", .str "2026-05-12T12:00:10Z")]]),
          ("expectedDeliveryTime", .str "2026-05-12T11:59:30Z")]) := by rfl
  have hspells : Spells "-30s" thirtySecondsAgo := ⟨[], .inl rfl, .inr ⟨by decide, by decide⟩⟩
  obtain ⟨hfields, hshifted⟩ := times_arrive hbuild
  have hgrammar : inTenSeconds.InGrammar := fun h => by cases h
  obtain ⟨text, htext, hlog⟩ := hfields [.key "stateLogs", .item 0, .key "at"] "now+10s" afterNoon
    rfl ⟨inTenSeconds, hgrammar, by decide, by decide, by decide⟩ (fun h => absurd h (by decide))
  obtain rfl := Json.str.inj (Option.some.inj htext)
  obtain ⟨text', htext', hparse⟩ := hshifted "-30s" beforeNoon rfl rfl
    ⟨thirtySecondsAgo, hspells, by decide, by decide⟩
  obtain rfl := Json.str.inj (Option.some.inj htext')
  exact ⟨hbuild, hlog, hparse⟩

end EndToEnd
