import DelayedOrderSms.Simulator.TimeUtils

/-!
# What the time pattern matches

The pattern has three optional groups, so what it matches is `now` followed by an optional sign,
optional digits and an optional unit, each of them there or not on its own: a `TimeExpression`.
The grammar of the time expressions (`InGrammar`) is smaller: digits and a unit only follow a
sign.

* `text_append_inj` — a text has one reading, and it shows whether a line feed follows.
* `exec_timeExpression`, `exec_eq_none` — hence what `re.match` returns on a text: the groups of
  its reading, or nothing if it has none.
-/

namespace OrderSimulator

open Python Regex

inductive Sign where
  | plus
  | minus
  deriving DecidableEq, Repr

inductive TimeUnit where
  | ms
  | s
  | m
  | h
  | d
  deriving DecidableEq, Repr

def Sign.text : Sign → List Char
  | .plus => "+".toList
  | .minus => "-".toList

namespace TimeUnit

def text : TimeUnit → List Char
  | .ms => "ms".toList
  | .s => "s".toList
  | .m => "m".toList
  | .h => "h".toList
  | .d => "d".toList

/-- The unit in microseconds. -/
def micros : TimeUnit → ℤ
  | .ms => 1000
  | .s => 1000000
  | .m => 60000000
  | .h => 3600000000
  | .d => 86400000000

end TimeUnit

/-- `now`, an optional sign, optional digits and an optional unit. -/
structure TimeExpression where
  sign : Option Sign
  digits : List Char
  unit : Option TimeUnit
  isDigit_of_mem : ∀ c ∈ digits, isDigit c

namespace TimeExpression

/-- What follows `now`. -/
def body (e : TimeExpression) : List Char :=
  e.sign.elim [] Sign.text ++ (e.digits ++ e.unit.elim [] TimeUnit.text)

def text (e : TimeExpression) : List Char := "now".toList ++ e.body

/-- **The grammar**: `now` alone, or with a sign before any digits and unit. -/
def InGrammar (e : TimeExpression) : Prop := e.sign = none → e.digits = [] ∧ e.unit = none

/-- No digits are zero. -/
def amount (e : TimeExpression) : ℤ := digitsValue e.digits

/-- No unit are seconds. -/
def unitMicros (e : TimeExpression) : ℤ := (e.unit.getD .s).micros

/-- The signed duration in microseconds. -/
def duration (e : TimeExpression) : ℤ :=
  match e.sign with
  | none => 0
  | some .plus => e.amount * e.unitMicros
  | some .minus => -(e.amount * e.unitMicros)

/-- The groups of the pattern. -/
def groups (e : TimeExpression) : Groups :=
  e.sign.elim [] (fun sign => [("sign", sign.text)])
    ++ ((if e.digits = [] then [] else [("amount", e.digits)])
      ++ e.unit.elim [] fun unit => [("unit", unit.text)])

end TimeExpression

/-! ## The parts of the pattern -/

lemma matches_signPart_iff {w rest : List Char} {g : Groups} :
    Matches w rest g signPart ↔
      ∃ sign : Option Sign, w = sign.elim [] Sign.text ∧
        g = sign.elim [] fun sign => [("sign", sign.text)] := by
  simp only [signPart, Matches]
  constructor
  · rintro (⟨_, ⟨⟨c, hc, rfl⟩, rfl⟩, rfl⟩ | ⟨rfl, rfl⟩)
    · rcases of_decide_eq_true hc with rfl | rfl
      · exact ⟨some .plus, rfl, rfl⟩
      · exact ⟨some .minus, rfl, rfl⟩
    · exact ⟨none, rfl, rfl⟩
  · rintro ⟨sign, rfl, rfl⟩
    rcases sign with _ | _ | _
    · exact .inr ⟨rfl, rfl⟩
    · exact .inl ⟨[], ⟨⟨'+', rfl, rfl⟩, rfl⟩, rfl⟩
    · exact .inl ⟨[], ⟨⟨'-', rfl, rfl⟩, rfl⟩, rfl⟩

lemma matches_amountPart_iff {w rest : List Char} {g : Groups} :
    Matches w rest g amountPart ↔
      (∀ c ∈ w, isDigit c) ∧ g = if w = [] then [] else [("amount", w)] := by
  simp only [amountPart, Matches]
  constructor
  · rintro (⟨_, ⟨⟨hne, hw⟩, rfl⟩, rfl⟩ | ⟨rfl, rfl⟩)
    · exact ⟨hw, by simp [hne]⟩
    · exact ⟨by simp, rfl⟩
  · rintro ⟨hw, rfl⟩
    by_cases hne : w = []
    · exact .inr ⟨hne, by simp [hne]⟩
    · exact .inl ⟨[], ⟨⟨hne, hw⟩, rfl⟩, by simp [hne]⟩

lemma matches_unitPart_iff {w rest : List Char} {g : Groups} :
    Matches w rest g unitPart ↔
      ∃ unit : Option TimeUnit, w = unit.elim [] TimeUnit.text ∧
        g = unit.elim [] fun unit => [("unit", unit.text)] := by
  simp only [unitPart, Matches]
  constructor
  · rintro (⟨_, ⟨rfl, rfl⟩ | ⟨rfl, rfl⟩ | ⟨rfl, rfl⟩ | ⟨rfl, rfl⟩ | ⟨rfl, rfl⟩, rfl⟩ | ⟨rfl, rfl⟩)
    · exact ⟨some .ms, rfl, rfl⟩
    · exact ⟨some .s, rfl, rfl⟩
    · exact ⟨some .m, rfl, rfl⟩
    · exact ⟨some .h, rfl, rfl⟩
    · exact ⟨some .d, rfl, rfl⟩
    · exact ⟨none, rfl, rfl⟩
  · rintro ⟨unit, rfl, rfl⟩
    cases unit with
    | none => exact .inr ⟨rfl, rfl⟩
    | some unit =>
        refine .inl ⟨[], ?_, rfl⟩
        cases unit with
        | ms => exact .inl ⟨rfl, rfl⟩
        | s => exact .inr (.inl ⟨rfl, rfl⟩)
        | m => exact .inr (.inr (.inl ⟨rfl, rfl⟩))
        | h => exact .inr (.inr (.inr (.inl ⟨rfl, rfl⟩)))
        | d => exact .inr (.inr (.inr (.inr ⟨rfl, rfl⟩)))

/-- **The pattern matches the time expressions**, at the end or before a last line feed. -/
theorem matches_timeExpressionPattern_iff {w rest : List Char} {g : Groups} :
    Matches w rest g timeExpressionPattern ↔
      ∃ e : TimeExpression, w = e.text ∧ g = e.groups ∧ (rest = [] ∨ rest = ['\n']) := by
  simp only [timeExpressionPattern, Matches, matches_signPart_iff, matches_amountPart_iff,
    matches_unitPart_iff]
  constructor
  · rintro ⟨_, _, _, _, ⟨rfl, rfl⟩, ⟨_, _, _, _, ⟨sign, rfl, rfl⟩, ⟨digits, _, _, _, ⟨hdigits, rfl⟩,
      ⟨_, _, _, _, ⟨unit, rfl, rfl⟩, ⟨rfl, hrest, rfl⟩, rfl, rfl⟩, rfl, rfl⟩, rfl, rfl⟩, rfl, rfl⟩
    refine ⟨⟨sign, digits, unit, hdigits⟩, ?_, ?_, hrest⟩
    · simp [TimeExpression.text, TimeExpression.body]
    · simp [TimeExpression.groups]
  · rintro ⟨⟨sign, digits, unit, hdigits⟩, rfl, rfl, hrest⟩
    exact ⟨_, _, [], _, ⟨rfl, rfl⟩, ⟨_, _, _, _, ⟨sign, rfl, rfl⟩, ⟨digits, _, _, _, ⟨hdigits, rfl⟩,
      ⟨_, [], _, [], ⟨unit, rfl, rfl⟩, ⟨rfl, hrest, rfl⟩, (List.append_nil _).symm,
        (List.append_nil _).symm⟩, rfl, rfl⟩, rfl, rfl⟩, rfl, rfl⟩

/-! ## A text has one reading -/

/-- What ends a string the pattern matches. -/
def Ending (rest : List Char) : Prop := rest = [] ∨ rest = ['\n']

/-- Units and the end are neither digits nor signs, and can be told apart. -/
lemma unit_append_inj {unit unit' : Option TimeUnit} {rest rest' : List Char} (hr : Ending rest)
    (hr' : Ending rest')
    (h : unit.elim [] TimeUnit.text ++ rest = unit'.elim [] TimeUnit.text ++ rest') :
    unit = unit' ∧ rest = rest' := by
  rcases hr with rfl | rfl <;> rcases hr' with rfl | rfl <;> rcases unit with _ | _ | _ <;>
    rcases unit' with _ | _ | _ <;> revert h <;> decide

lemma head_unit_append {unit : Option TimeUnit} {rest : List Char} (hr : Ending rest) :
    ∀ c ∈ (unit.elim [] TimeUnit.text ++ rest).head?,
      isDigit c = false ∧ decide (c = '+' ∨ c = '-') = false := by
  intro c hc
  rcases hr with rfl | rfl
  · rcases unit with _ | _ | _ <;> cases hc <;> decide
  · rcases unit with _ | _ | _ <;> cases hc <;> decide

lemma not_sign_of_isDigit {c : Char} (h : isDigit c) : decide (c = '+' ∨ c = '-') = false := by
  rw [decide_eq_false_iff_not]
  intro hsign
  have hc : digit? c = none := digit?_eq_none (.inr (.inr hsign))
  simp [isDigit, hc] at h

lemma head_digits_append {digits t : List Char} (hd : ∀ c ∈ digits, isDigit c)
    (ht : ∀ c ∈ t.head?, decide (c = '+' ∨ c = '-') = false) :
    ∀ c ∈ (digits ++ t).head?, decide (c = '+' ∨ c = '-') = false := by
  cases digits with
  | nil => exact ht
  | cons c cs =>
      intro c' hc'
      obtain rfl : c = c' := by simpa using hc'
      exact not_sign_of_isDigit (hd c (by simp))

lemma sign_mem (sign : Option Sign) :
    ∀ c ∈ sign.elim [] Sign.text, decide (c = '+' ∨ c = '-') = true := by
  intro c hc
  rcases sign with _ | _ | _
  · cases hc
  · obtain rfl : c = '+' := List.mem_singleton.mp hc
    rfl
  · obtain rfl : c = '-' := List.mem_singleton.mp hc
    rfl

/-- **A text has one reading**, and it shows whether a line feed follows. -/
theorem text_append_inj {e e' : TimeExpression} {rest rest' : List Char} (hr : Ending rest)
    (hr' : Ending rest') (h : e.text ++ rest = e'.text ++ rest') : e = e' ∧ rest = rest' := by
  obtain ⟨sign, digits, unit, hd⟩ := e
  obtain ⟨sign', digits', unit', hd'⟩ := e'
  simp only [TimeExpression.text, TimeExpression.body, List.append_assoc,
    List.append_cancel_left_eq] at h
  -- the sign ends where the digits begin, the digits where the unit does
  obtain ⟨hsign, hrest⟩ := append_inj_of_class (sign_mem sign) (sign_mem sign')
    (head_digits_append hd fun c hc => (head_unit_append hr c hc).2)
    (head_digits_append hd' fun c hc => (head_unit_append hr' c hc).2) h
  obtain ⟨rfl, htail⟩ := append_inj_of_class hd hd' (fun c hc => (head_unit_append hr c hc).1)
    (fun c hc => (head_unit_append hr' c hc).1) hrest
  obtain ⟨rfl, rfl⟩ := unit_append_inj hr hr' htail
  obtain rfl : sign = sign' := by
    rcases sign with _ | _ | _ <;> rcases sign' with _ | _ | _ <;> revert hsign <;> decide
  exact ⟨rfl, rfl⟩

/-- **A text is matched** with the groups of its reading. -/
theorem exec_timeExpression {e : TimeExpression} {rest : List Char} (hr : Ending rest) :
    timeExpressionPattern.exec (e.text ++ rest) = some e.groups := by
  refine exec_eq_some_of_forall rfl (matches_timeExpressionPattern_iff.mpr ⟨e, rfl, rfl, hr⟩) ?_
  intro w' rest' g' hs hm
  obtain ⟨e', rfl, rfl, hr'⟩ := matches_timeExpressionPattern_iff.mp hm
  rw [(text_append_inj hr hr' hs).1]

/-- **Nothing else is matched.** -/
theorem exec_eq_none {s : List Char}
    (h : ∀ (e : TimeExpression) (rest : List Char), Ending rest → s ≠ e.text ++ rest) :
    timeExpressionPattern.exec s = none := by
  rw [exec_eq_none_iff]
  intro w rest g hs hm
  obtain ⟨e, rfl, rfl, hr⟩ := matches_timeExpressionPattern_iff.mp hm
  exact h e rest hr hs

end OrderSimulator
