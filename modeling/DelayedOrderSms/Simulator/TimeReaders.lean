import DelayedOrderSms.Simulator.TimeGrammar

/-!
# The two readers of time expressions

Both readers share the pattern, so both accept every reading of it, while only a signed one is
a time expression.  What they do with a reading is computed once for each
(`parseDynamicTime_of_text`, `matchOffset_of_body`), and what they do with any other string is to
leave it alone and to raise.

* `readAlike_iff` — the readers accept the grammar and agree on it except on digits or a unit
  without a sign, a line feed at the end, more digits than the interpreter converts, and a second
  `now` before such a text.
-/

namespace OrderSimulator

open Python Regex

namespace TimeExpression

variable (e : TimeExpression)

lemma get?_sign : e.groups.get? "sign" = e.sign.map Sign.text := by
  obtain ⟨sign, digits, unit, _⟩ := e
  cases sign with
  | some sign => rfl
  | none =>
      by_cases hd : digits = []
      · cases unit <;> simp [groups, hd, Dict.get?_cons]
      · cases unit <;> simp [groups, hd, Dict.get?_cons]

lemma get?_unit : e.groups.get? "unit" = e.unit.map TimeUnit.text := by
  obtain ⟨sign, digits, unit, _⟩ := e
  by_cases hd : digits = []
  · cases sign <;> cases unit <;> simp [groups, hd, Dict.get?_cons]
  · cases sign <;> cases unit <;> simp [groups, hd, Dict.get?_cons]

lemma getD_amount :
    e.groups.getD "amount" "0".toList = if e.digits = [] then "0".toList else e.digits := by
  obtain ⟨sign, digits, unit, _⟩ := e
  by_cases hd : digits = []
  · cases sign <;> cases unit <;> simp [groups, hd, Dict.getD, Dict.get?_cons]
  · cases sign <;> cases unit <;> simp [groups, hd, Dict.getD, Dict.get?_cons]

/-- The duration without its sign, as the readers compute it. -/
def delta : Except Exception Timedelta :=
  if maxStrDigits < e.digits.length then .error { type := .valueError }
  else Timedelta.ofMicros (e.amount * e.unitMicros)

/-- The offset that `parseOffset` computes. -/
def offset : Except Exception Timedelta :=
  match e.sign with
  | none => .ok Timedelta.zero
  | some .plus => e.delta
  | some .minus => e.delta >>= Timedelta.neg

/-- The instant that `parseDynamicTime` computes. -/
def shift (b : Datetime) : Except Exception Datetime :=
  match e.sign with
  | none => .ok b
  | some .plus => e.delta >>= b.add
  | some .minus => e.delta >>= b.sub

lemma unitDelta_eq (amount : ℤ) :
    unitDelta (e.unit.map TimeUnit.text) amount = Timedelta.ofMicros (amount * e.unitMicros) := by
  rw [unitMicros]
  rcases e.unit with _ | _ | _ <;> rfl

/-- The steps the readers share. -/
lemma readDelta_eq :
    (do let amount ← intOfStr (e.groups.getD "amount" "0".toList)
        unitDelta (e.groups.get? "unit") amount) = e.delta := by
  rw [getD_amount, get?_unit, delta, amount]
  by_cases hd : e.digits = []
  · have hzero : intOfStr "0".toList = .ok 0 := by decide
    rw [if_pos hd, hzero, hd]
    simp only [List.length_nil, Nat.not_lt_zero, if_false]
    exact e.unitDelta_eq _
  · rw [if_neg hd, intOfStr_digits e.isDigit_of_mem hd]
    by_cases hlong : maxStrDigits < e.digits.length
    · rw [if_pos hlong, if_pos hlong]
      rfl
    · rw [if_neg hlong, if_neg hlong]
      exact e.unitDelta_eq _

/-- The steps the readers share, before what each of them does with the duration. -/
lemma readDelta_bind {α : Type} (next : Timedelta → Except Exception α) :
    (do let amount ← intOfStr (e.groups.getD "amount" "0".toList)
        let delta ← unitDelta (e.groups.get? "unit") amount
        next delta) = e.delta >>= next := by
  rw [← readDelta_eq, bind_assoc]

end TimeExpression

/-- What `parseDynamicTime` makes of a text the pattern matches. -/
lemma parseDynamicTime_of_text {value : String} {b : Datetime} {e : TimeExpression}
    {rest : List Char} (hr : Ending rest) (h : value.toList = e.text ++ rest) :
    parseDynamicTime value b = toIsoZ <$> e.shift b := by
  rw [parseDynamicTime, h, exec_timeExpression hr, TimeExpression.shift]
  simp only [e.get?_sign]
  rcases hsign : e.sign with _ | _ | _
  · rfl
  · rw [map_bind]
    exact e.readDelta_bind fun delta => toIsoZ <$> b.add delta
  · rw [map_bind]
    exact e.readDelta_bind fun delta => toIsoZ <$> b.sub delta

/-- What `parseOffset` makes of a text the pattern matches. -/
lemma matchOffset_of_body {offsetStr : List Char} {e : TimeExpression} {rest : List Char}
    (hr : Ending rest) (h : offsetStr = e.body ++ rest) :
    matchOffset offsetStr = e.offset := by
  have htext : "now".toList ++ offsetStr = e.text ++ rest := by
    rw [h, TimeExpression.text, List.append_assoc]
  rw [matchOffset, htext, exec_timeExpression hr, TimeExpression.offset]
  simp only [e.get?_sign]
  rcases hsign : e.sign with _ | _ | _
  · rfl
  · exact (e.readDelta_bind pure).trans (bind_pure _)
  · exact e.readDelta_bind Timedelta.neg

/-- The string is `now` followed by `r`. -/
lemma parseOffset_of_now {s : String} {r : List Char} (h : s.toList = "now".toList ++ r) :
    parseOffset (.str s) = matchOffset r := by
  have htruthy : (Json.str s).truthy = true := by
    have hne : s ≠ "" := by
      intro hs
      rw [hs] at h
      simp at h
    simp [Json.truthy, hne]
  have hprefix : "now".toList.isPrefixOf s.toList := by
    rw [List.isPrefixOf_iff_prefix, h]
    exact List.prefix_append _ _
  have hdrop : s.toList.drop 3 = r := by
    rw [h]
    rfl
  simp only [parseOffset, htruthy, hprefix, hdrop, Bool.not_true, Bool.false_eq_true, if_true,
    if_false]

/-- The string does not begin with `now`. -/
lemma parseOffset_of_not_now {s : String} (hne : s ≠ "") (h : ¬"now".toList <+: s.toList) :
    parseOffset (.str s) = matchOffset s.toList := by
  have hprefix : "now".toList.isPrefixOf s.toList = false := by
    rw [Bool.eq_false_iff, ne_eq, List.isPrefixOf_iff_prefix]
    exact h
  have htruthy : (Json.str s).truthy = true := by simp [Json.truthy, hne]
  simp only [parseOffset, htruthy, hprefix, Bool.not_true, Bool.false_eq_true, if_false]

lemma parseOffset_ofList {r : List Char} (hne : r ≠ []) (h : ¬"now".toList <+: r) :
    parseOffset (.str (String.ofList r)) = matchOffset r := by
  have hstr : String.ofList r ≠ "" := by
    intro heq
    exact hne (by simpa using congrArg String.toList heq)
  rw [parseOffset_of_not_now hstr (by simpa using h), String.toList_ofList]

/-! ## In range -/

namespace TimeExpression

variable {e : TimeExpression} {b t : Datetime}

lemma delta_eq_ok_iff (hlength : ¬maxStrDigits < e.digits.length) {d : Timedelta} :
    e.delta = .ok d ↔ d.micros = e.amount * e.unitMicros := by
  rw [delta, if_neg hlength, Timedelta.ofMicros_eq_ok_iff]

/-- Within the range of the instants, the base time is shifted by the duration. -/
lemma shift_of_inRange (hlength : ¬maxStrDigits < e.digits.length)
    (ht : t.micros = b.micros + e.duration) : e.shift b = .ok t := by
  have hb := b.min_le
  have hb' := b.le_max
  have htmin := t.min_le
  have htmax := t.le_max
  rw [shift]
  rw [duration] at ht
  rcases hsign : e.sign with _ | _ | _
  · simp only [hsign, add_zero] at ht
    cases t
    cases b
    simp_all
  · simp only [hsign] at ht
    have hdelta : e.delta = .ok ⟨e.amount * e.unitMicros, by omega, by omega⟩ :=
      (delta_eq_ok_iff hlength).mpr rfl
    simp only [hdelta, ok_bind]
    exact Datetime.ofMicros_eq_ok_iff.mpr ht
  · simp only [hsign] at ht
    have hdelta : e.delta = .ok ⟨e.amount * e.unitMicros, by omega, by omega⟩ :=
      (delta_eq_ok_iff hlength).mpr rfl
    simp only [hdelta, ok_bind]
    refine Datetime.ofMicros_eq_ok_iff.mpr ?_
    show t.micros = b.micros - e.amount * e.unitMicros
    omega

/-- And the offset is the duration. -/
lemma offset_of_inRange (hlength : ¬maxStrDigits < e.digits.length)
    (ht : t.micros = b.micros + e.duration) :
    ∃ d : Timedelta, d.micros = e.duration ∧ e.offset = .ok d := by
  have hb := b.min_le
  have hb' := b.le_max
  have htmin := t.min_le
  have htmax := t.le_max
  rw [offset]
  rw [duration] at ht ⊢
  rcases hsign : e.sign with _ | _ | _
  · exact ⟨Timedelta.zero, rfl, rfl⟩
  · simp only [hsign] at ht
    exact ⟨⟨e.amount * e.unitMicros, by omega, by omega⟩, rfl, (delta_eq_ok_iff hlength).mpr rfl⟩
  · simp only [hsign] at ht
    have hdelta : e.delta = .ok ⟨e.amount * e.unitMicros, by omega, by omega⟩ :=
      (delta_eq_ok_iff hlength).mpr rfl
    refine ⟨⟨-(e.amount * e.unitMicros), by omega, by omega⟩, rfl, ?_⟩
    simp only [hdelta, ok_bind]
    exact Timedelta.ofMicros_eq_ok_iff.mpr rfl

end TimeExpression

/-- What follows `now` in a time expression does not begin with `now`. -/
lemma not_now_prefix_body {e : TimeExpression} (he : e.InGrammar) : ¬"now".toList <+: e.body := by
  obtain ⟨sign, digits, unit, hdigits⟩ := e
  rcases sign with _ | _ | _
  · obtain ⟨hd, hu⟩ := he rfl
    simp only at hd hu
    subst hd
    subst hu
    intro h
    exact absurd (List.prefix_nil.mp h) (by decide)
  · intro h
    have hhead : 'n' = '+' := (List.cons_prefix_cons.mp h).1
    exact absurd hhead (by decide)
  · intro h
    have hhead : 'n' = '-' := (List.cons_prefix_cons.mp h).1
    exact absurd hhead (by decide)

/-! ## Agreement -/

/-- The call raises `ValueError`. -/
def RaisesValueError {α : Type} (call : Except Exception α) : Prop :=
  ∃ e, call = .error e ∧ e.type = .valueError

/-- **The readers agree on the grammar**, at a string and a base time.  A time expression is the
ISO form of the base time plus its duration for the one and that duration for the other, with or
without its `now`, if the time is in range.  Any other string is left alone by the one; the other
raises on it and on what follows its `now`, unless that is a time expression of its own. -/
structure ReadAlike (b : Datetime) (s : String) : Prop where
  accepted : ∀ e : TimeExpression, e.InGrammar → s.toList = e.text →
    ∀ t : Datetime, t.micros = b.micros + e.duration →
      parseDynamicTime s b = .ok (toIsoZ t) ∧
        ∃ d : Timedelta, d.micros = e.duration ∧ parseOffset (.str s) = .ok d ∧
          parseOffset (.str (String.ofList (s.toList.drop 3))) = .ok d
  rejected : (∀ e : TimeExpression, e.InGrammar → s.toList ≠ e.text) →
    parseDynamicTime s b = .ok s ∧
      ∀ r ≠ [], s.toList = "now".toList ++ r →
        RaisesValueError (parseOffset (.str s)) ∧
          ((∀ e : TimeExpression, e.InGrammar → r ≠ e.text) →
            RaisesValueError (parseOffset (.str (String.ofList r))))

/-- Digits or a unit after `now` without a sign. -/
def Unsigned (s : String) : Prop :=
  ∃ e : TimeExpression, e.sign = none ∧ (e.digits ≠ [] ∨ e.unit ≠ none) ∧ s.toList = e.text

/-- A text that the pattern matches, with a line feed at its end. -/
def LineFed (s : String) : Prop := ∃ e : TimeExpression, s.toList = e.text ++ ['\n']

/-- A time expression in range that spells its amount with more digits than `int` converts. -/
def Overlong (b : Datetime) (s : String) : Prop :=
  ∃ e : TimeExpression, e.InGrammar ∧ s.toList = e.text ∧ maxStrDigits < e.digits.length ∧
    ∃ t : Datetime, t.micros = b.micros + e.duration

/-- A second `now`, with a text that the pattern matches and that is no time expression, of which
the digits are converted if they are read at all. -/
def Nested (s : String) : Prop :=
  ∃ (e : TimeExpression) (rest : List Char), Ending rest ∧
    s.toList = "now".toList ++ (e.text ++ rest) ∧ (rest = [] → ¬e.InGrammar) ∧
      (maxStrDigits < e.digits.length → e.sign = none)

variable {b : Datetime} {s : String}

/-- A string the pattern matches is not left alone. -/
lemma parseDynamicTime_ne_self {e : TimeExpression} {rest : List Char} (hr : Ending rest)
    (h : s.toList = e.text ++ rest) : parseDynamicTime s b ≠ .ok s := by
  have hiso : ∀ t : Datetime, toIsoZ t ≠ s := by
    intro t heq
    obtain ⟨c, cs, hc, hdigit⟩ := exists_toIsoZ_eq_cons t
    rw [heq, h] at hc
    have hhead : 'n' = c := (List.cons_eq_cons.mp hc).1
    rw [← hhead] at hdigit
    exact absurd hdigit (by decide)
  rw [parseDynamicTime_of_text hr h]
  intro heq
  obtain ⟨t, _, ht⟩ := map_eq_ok_iff.mp heq
  exact hiso t ht

/-- A string the pattern does not match makes the offset reader raise. -/
lemma matchOffset_of_exec_eq_none {r : List Char}
    (h : timeExpressionPattern.exec ("now".toList ++ r) = none) :
    RaisesValueError (matchOffset r) := by
  rw [matchOffset, h]
  exact ⟨_, rfl, rfl⟩

/-- A time expression in range is read alike, if `int` converts its digits. -/
lemma read_of_inGrammar {e : TimeExpression} (he : e.InGrammar) (hs : s.toList = e.text)
    (hlength : ¬maxStrDigits < e.digits.length) {t : Datetime}
    (ht : t.micros = b.micros + e.duration) :
    parseDynamicTime s b = .ok (toIsoZ t) ∧
      ∃ d : Timedelta, d.micros = e.duration ∧ parseOffset (.str s) = .ok d ∧
        parseOffset (.str (String.ofList (s.toList.drop 3))) = .ok d := by
  have hs' : s.toList = e.text ++ [] := by rw [hs, List.append_nil]
  have hbody : e.body = e.body ++ [] := (List.append_nil _).symm
  have hdrop : s.toList.drop 3 = e.body := by
    rw [hs]
    rfl
  obtain ⟨d, hd, hoffset⟩ := TimeExpression.offset_of_inRange hlength ht
  have hmatch : matchOffset e.body = .ok d := by
    rw [matchOffset_of_body (.inl rfl) hbody, hoffset]
  refine ⟨?_, d, hd, ?_, ?_⟩
  · rw [parseDynamicTime_of_text (.inl rfl) hs', TimeExpression.shift_of_inRange hlength ht]
    rfl
  · rw [parseOffset_of_now hs, hmatch]
  · rw [hdrop]
    by_cases hne : e.body = []
    · -- `now` alone: what is left is the empty string
      have hzero : d = Timedelta.zero := by
        have hnil : matchOffset [] = .ok Timedelta.zero := by decide
        rw [hne, hnil] at hmatch
        exact (Except.ok.inj hmatch).symm
      rw [hne, hzero]
      rfl
    · rw [parseOffset_ofList hne (not_now_prefix_body he), hmatch]

/-- A text of which the one reading is no time expression is no other time expression either. -/
lemma not_text_of_not_inGrammar {e : TimeExpression} (he : ¬e.InGrammar) (hs : s.toList = e.text) :
    ∀ e' : TimeExpression, e'.InGrammar → s.toList ≠ e'.text := by
  intro e' he' heq
  have htext : e.text ++ [] = e'.text ++ [] := by rw [← hs, heq]
  rw [(text_append_inj (.inl rfl) (.inl rfl) htext).1] at he
  exact he he'

lemma not_readAlike_of_unsigned (h : Unsigned s) : ¬ReadAlike b s := by
  obtain ⟨e, hsign, hne, hs⟩ := h
  have hs' : s.toList = e.text ++ [] := by rw [hs, List.append_nil]
  have he : ¬e.InGrammar := by
    intro he
    obtain ⟨hdigits, hunit⟩ := he hsign
    exact hne.elim (fun hne => hne hdigits) fun hne => hne hunit
  intro hread
  exact parseDynamicTime_ne_self (.inl rfl) hs' (hread.rejected (not_text_of_not_inGrammar he hs)).1

lemma not_readAlike_of_lineFed (h : LineFed s) : ¬ReadAlike b s := by
  obtain ⟨e, hs⟩ := h
  intro hread
  refine parseDynamicTime_ne_self (.inr rfl) hs (hread.rejected ?_).1
  intro e' _ heq
  have htext : e.text ++ ['\n'] = e'.text ++ [] := by rw [← hs, heq, List.append_nil]
  exact absurd (text_append_inj (.inr rfl) (.inl rfl) htext).2 (by decide)

lemma not_readAlike_of_overlong (h : Overlong b s) : ¬ReadAlike b s := by
  obtain ⟨e, he, hs, hlength, t, ht⟩ := h
  intro h
  have hread := (h.accepted e he hs t ht).1
  have hs' : s.toList = e.text ++ [] := by rw [hs, List.append_nil]
  have hdelta : e.delta = .error { type := .valueError } := if_pos hlength
  rw [parseDynamicTime_of_text (.inl rfl) hs', TimeExpression.shift] at hread
  obtain ⟨_, hshift, _⟩ := map_eq_ok_iff.mp hread
  rcases hsign : e.sign with _ | _ | _
  · rw [(he hsign).1] at hlength
    simp at hlength
  · simp [hsign, hdelta] at hshift
  · simp [hsign, hdelta] at hshift

/-- The offset is a `ValueError` exactly if its digits are read and too many. -/
lemma raisesValueError_offset_iff {e : TimeExpression} :
    RaisesValueError e.offset ↔ maxStrDigits < e.digits.length ∧ e.sign ≠ none := by
  rw [TimeExpression.offset]
  by_cases hlength : maxStrDigits < e.digits.length
  · have hdelta : e.delta = .error { type := .valueError } := if_pos hlength
    rcases hsign : e.sign with _ | _ | _
    · simp [RaisesValueError]
    · simp [RaisesValueError, hdelta, hlength]
    · simp [RaisesValueError, hdelta, hlength]
  · have hdelta : e.delta = Timedelta.ofMicros (e.amount * e.unitMicros) := if_neg hlength
    simp only [hlength, false_and, iff_false]
    rintro ⟨err, herr, htype⟩
    rcases hsign : e.sign with _ | _ | _
    · simp [hsign] at herr
    · simp only [hsign, hdelta] at herr
      rw [Timedelta.type_of_ofMicros_eq_error herr] at htype
      cases htype
    · simp only [hsign, hdelta] at herr
      rcases Timedelta.ofMicros_cases (e.amount * e.unitMicros) with hover | ⟨d, hd, _⟩
      · rw [hover, error_bind] at herr
        cases herr
        cases htype
      · rw [hd, ok_bind] at herr
        rw [Timedelta.type_of_ofMicros_eq_error herr] at htype
        cases htype

lemma not_readAlike_of_nested (h : Nested s) : ¬ReadAlike b s := by
  obtain ⟨e, rest, hrest, hs, hno, hdigits⟩ := h
  intro hread
  -- neither the string nor what follows its `now` is a time expression
  have hout : ∀ e' : TimeExpression, e'.InGrammar → s.toList ≠ e'.text := by
    intro e' he' heq
    have htwice : "now".toList ++ (e.text ++ rest) = "now".toList ++ e'.body := hs.symm.trans heq
    refine not_now_prefix_body he' ?_
    rw [← List.append_cancel_left htwice, TimeExpression.text, List.append_assoc]
    exact List.prefix_append _ _
  have hout' : ∀ e' : TimeExpression, e'.InGrammar → e.text ++ rest ≠ e'.text := by
    intro e' he' heq
    have htext : e.text ++ rest = e'.text ++ [] := by rw [heq, List.append_nil]
    obtain ⟨rfl, hnil⟩ := text_append_inj hrest (.inl rfl) htext
    exact hno hnil he'
  have hne : e.text ++ rest ≠ [] := by simp [TimeExpression.text]
  have hraises := ((hread.rejected hout).2 _ hne hs).2 hout'
  have hnow : (String.ofList (e.text ++ rest)).toList = "now".toList ++ (e.body ++ rest) := by
    rw [String.toList_ofList, TimeExpression.text, List.append_assoc]
  rw [parseOffset_of_now hnow, matchOffset_of_body hrest rfl] at hraises
  obtain ⟨hlength, hsign⟩ := raisesValueError_offset_iff.mp hraises
  exact hsign (hdigits hlength)

/-- A string that is no time expression, and not read as one by mistake, is not matched. -/
lemma exec_eq_none_of_rejected (hunsigned : ¬Unsigned s) (hfed : ¬LineFed s)
    (hout : ∀ e : TimeExpression, e.InGrammar → s.toList ≠ e.text) :
    timeExpressionPattern.exec s.toList = none := by
  refine exec_eq_none ?_
  rintro e rest (rfl | rfl) hs
  · rw [List.append_nil] at hs
    refine hunsigned ⟨e, ?_, ?_, hs⟩
    · by_contra hsign
      exact hout e (fun h => absurd h hsign) hs
    · by_contra hnone
      rw [not_or, not_not, not_not] at hnone
      exact hout e (fun _ => hnone) hs
  · exact hfed ⟨e, hs⟩

/-- What follows `now` in a string that is not read by mistake makes the offset reader raise. -/
lemma parseOffset_of_rejected {r : List Char} (hr : r ≠ []) (hs : s.toList = "now".toList ++ r)
    (hnested : ¬Nested s) (hexec : timeExpressionPattern.exec s.toList = none)
    (hout : ∀ e : TimeExpression, e.InGrammar → r ≠ e.text) :
    RaisesValueError (parseOffset (.str (String.ofList r))) := by
  by_cases hnow : "now".toList <+: r
  · obtain ⟨r', rfl⟩ := hnow
    have hlist : (String.ofList ("now".toList ++ r')).toList = "now".toList ++ r' :=
      String.toList_ofList
    rw [parseOffset_of_now hlist]
    by_cases hmatched : ∃ (e : TimeExpression) (rest : List Char), Ending rest ∧
        "now".toList ++ r' = e.text ++ rest
    · obtain ⟨e, rest, hrest, htext⟩ := hmatched
      have hbody : r' = e.body ++ rest := by
        rwa [TimeExpression.text, List.append_assoc, List.append_cancel_left_eq] at htext
      rw [matchOffset_of_body hrest hbody, raisesValueError_offset_iff]
      -- it is read by mistake otherwise
      by_contra hshort
      refine hnested ⟨e, rest, hrest, by rw [hs, htext], ?_, ?_⟩
      · rintro rfl he
        exact hout e he (by rw [htext, List.append_nil])
      · intro hlength
        by_contra hsign
        exact hshort ⟨hlength, hsign⟩
    · refine matchOffset_of_exec_eq_none (exec_eq_none ?_)
      intro e rest hrest htext
      exact hmatched ⟨e, rest, hrest, htext⟩
  · rw [parseOffset_ofList hr hnow]
    refine matchOffset_of_exec_eq_none ?_
    rw [← hs]
    exact hexec

/-- **When the readers agree.**  They do except on digits or a unit without a sign, a line feed
at the end, amounts of more digits than `int` converts, and a second `now` before such a text. -/
theorem readAlike_iff (b : Datetime) (s : String) :
    ReadAlike b s ↔ ¬Unsigned s ∧ ¬LineFed s ∧ ¬Overlong b s ∧ ¬Nested s := by
  constructor
  · intro h
    exact ⟨fun hu => not_readAlike_of_unsigned hu h, fun hf => not_readAlike_of_lineFed hf h,
      fun ho => not_readAlike_of_overlong ho h, fun hn => not_readAlike_of_nested hn h⟩
  · rintro ⟨hunsigned, hfed, hlong, hnested⟩
    constructor
    · intro e he hs t ht
      refine read_of_inGrammar he hs ?_ ht
      intro hlength
      exact hlong ⟨e, he, hs, hlength, t, ht⟩
    · intro hout
      have hexec := exec_eq_none_of_rejected hunsigned hfed hout
      refine ⟨by simp [parseDynamicTime, hexec], ?_⟩
      intro r hr hs
      refine ⟨?_, parseOffset_of_rejected hr hs hnested hexec⟩
      rw [parseOffset_of_now hs]
      refine matchOffset_of_exec_eq_none ?_
      rw [← hs]
      exact hexec

/-- Five minutes without a sign are read as no offset at all. -/
theorem not_readAlike_now5m : ¬ReadAlike noon "now5m" :=
  not_readAlike_of_unsigned
    ⟨⟨none, ['5'], some .m, List.forall_mem_singleton.mpr rfl⟩, rfl, .inl (by decide), by decide⟩

end OrderSimulator
