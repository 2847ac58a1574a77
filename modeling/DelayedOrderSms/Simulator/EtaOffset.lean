import DelayedOrderSms.Simulator.TimeReaders
import DelayedOrderSms.Simulator.Runner

/-!
# An `etaOffset` and the order it belongs to

`_build_event_value` catches two kinds of exceptions around the offset.  Which kind an offset
raises, if any, follows from what it is: a string that is no offset raises `ValueError`, a string
out of range `OverflowError`, and what is no string `AttributeError`, unless it is falsy, when it
counts as no offset at all.

* `add_parseOffset_of_outOfRange`, `add_parseOffset_of_spells` — a string, by its range.
* `buildEventValue_of_offset` — what the handler makes of it.
* `neverAborts_iff` — when an offset leaves the order alone or moves its ETA, and nothing else.
-/

namespace OrderSimulator

open Python Regex

/-! ## Strings -/

/-- The string is read as `e` up to `rest`, with or without a `now`. -/
def SpellsUpTo (s : String) (e : TimeExpression) (rest : List Char) : Prop :=
  Ending rest ∧
    (s.toList = e.text ++ rest ∨ ¬"now".toList <+: s.toList ∧ s.toList = e.body ++ rest)

def Spells (s : String) (e : TimeExpression) : Prop := ∃ rest, SpellsUpTo s e rest

/-- The string is read as a duration that takes the base time out of the range of instants. -/
def OutOfRange (baseTime : Datetime) (s : String) : Prop :=
  ∃ e, Spells s e ∧ ¬maxStrDigits < e.digits.length ∧
    ∀ t : Datetime, t.micros ≠ baseTime.micros + e.duration

section

variable {s : String} {e : TimeExpression} {baseTime : Datetime}

lemma parseOffset_of_spells (h : Spells s e) : parseOffset (.str s) = e.offset := by
  obtain ⟨rest, hr, hs | ⟨hnow, hs⟩⟩ := h
  · rw [TimeExpression.text, List.append_assoc] at hs
    rw [parseOffset_of_now hs, matchOffset_of_body hr rfl]
  · by_cases hempty : s = ""
    · subst hempty
      have hbody : e.body = [] := (List.append_eq_nil_iff.mp hs.symm).1
      have hsign : e.sign = none := by
        rcases hsign : e.sign with _ | _ | _
        · rfl
        · simp [TimeExpression.body, hsign, Sign.text] at hbody
        · simp [TimeExpression.body, hsign, Sign.text] at hbody
      rw [TimeExpression.offset, hsign]
      rfl
    · rw [parseOffset_of_not_now hempty hnow, matchOffset_of_body hr hs]

lemma parseOffset_of_not_spells (h : ∀ e, ¬Spells s e) : RaisesValueError (parseOffset (.str s)) := by
  by_cases hnow : "now".toList <+: s.toList
  · obtain ⟨r, hr⟩ := hnow
    rw [parseOffset_of_now hr.symm]
    refine matchOffset_of_exec_eq_none (exec_eq_none ?_)
    intro e rest hending heq
    exact h e ⟨rest, hending, .inl (hr.symm.trans heq)⟩
  · have hempty : s ≠ "" := by
      rintro rfl
      exact h ⟨none, [], none, by simp⟩ ⟨[], .inl rfl, .inr ⟨hnow, rfl⟩⟩
    rw [parseOffset_of_not_now hempty hnow]
    refine matchOffset_of_exec_eq_none (exec_eq_none ?_)
    intro e rest hending heq
    rw [TimeExpression.text, List.append_assoc, List.append_cancel_left_eq] at heq
    exact h e ⟨rest, hending, .inr ⟨hnow, heq⟩⟩

/-- The call raises `OverflowError`. -/
def RaisesOverflowError {α : Type} (call : Except Exception α) : Prop :=
  ∃ e, call = .error e ∧ e.type = .overflowError

lemma add_of_forall_ne {delta : Timedelta}
    (h : ∀ t : Datetime, t.micros ≠ baseTime.micros + delta.micros) :
    RaisesOverflowError (baseTime.add delta) := by
  refine ⟨{ type := .overflowError }, ?_, rfl⟩
  rw [Datetime.add, Datetime.ofMicros, dif_neg]
  intro hrange
  exact h ⟨_, hrange.1, hrange.2⟩ rfl

lemma ofMicros_bind_of_raises {α : Type} {n : ℤ} {next : Timedelta → Except Exception α}
    (h : ∀ delta : Timedelta, delta.micros = n → RaisesOverflowError (next delta)) :
    RaisesOverflowError (Timedelta.ofMicros n >>= next) := by
  rcases Timedelta.ofMicros_cases n with hover | ⟨delta, hdelta, hmicros⟩
  · rw [hover, error_bind]
    exact ⟨_, rfl, rfl⟩
  · rw [hdelta, ok_bind]
    exact h delta hmicros

/-- **A string out of range** raises `OverflowError`. -/
theorem add_parseOffset_of_outOfRange (h : OutOfRange baseTime s) :
    RaisesOverflowError (parseOffset (.str s) >>= baseTime.add) := by
  obtain ⟨e, hspells, hlength, hout⟩ := h
  have hdelta : e.delta = Timedelta.ofMicros (e.amount * e.unitMicros) := if_neg hlength
  rw [parseOffset_of_spells hspells, TimeExpression.offset]
  rw [TimeExpression.duration] at hout
  rcases hsign : e.sign with _ | _ | _
  · simp only [hsign] at hout
    exact absurd (add_zero _).symm (hout baseTime)
  · simp only [hsign] at hout
    simp only [hdelta]
    refine ofMicros_bind_of_raises fun delta hmicros => add_of_forall_ne ?_
    rw [hmicros]
    exact hout
  · simp only [hsign] at hout
    simp only [hdelta, bind_assoc]
    refine ofMicros_bind_of_raises fun delta hmicros => ?_
    rw [Timedelta.neg, hmicros]
    refine ofMicros_bind_of_raises fun delta' hmicros' => add_of_forall_ne ?_
    rw [hmicros']
    exact hout

/-- **Any other string that is read** gives an instant, or raises `ValueError` if it has too many
digits. -/
theorem add_parseOffset_of_spells (hspells : Spells s e) (h : ¬OutOfRange baseTime s) :
    ((e.sign ≠ none → ¬maxStrDigits < e.digits.length) ∧
        ∃ t : Datetime, t.micros = baseTime.micros + e.duration ∧
          (parseOffset (.str s) >>= baseTime.add) = .ok t) ∨
      (e.sign ≠ none ∧ maxStrDigits < e.digits.length) ∧
        RaisesValueError (parseOffset (.str s) >>= baseTime.add) := by
  rw [parseOffset_of_spells hspells]
  by_cases hlength : maxStrDigits < e.digits.length
  · by_cases hsign : e.sign = none
    · left
      refine ⟨fun hne => absurd hsign hne, baseTime, ?_, ?_⟩
      · rw [TimeExpression.duration, hsign, add_zero]
      · rw [TimeExpression.offset, hsign]
        exact Datetime.ofMicros_eq_ok_iff.mpr (add_zero _).symm
    · right
      obtain ⟨err, herr, htype⟩ := raisesValueError_offset_iff.mpr ⟨hlength, hsign⟩
      exact ⟨⟨hsign, hlength⟩, err, by rw [herr, error_bind], htype⟩
  · left
    obtain ⟨t, ht⟩ : ∃ t : Datetime, t.micros = baseTime.micros + e.duration := by
      by_contra hnone
      exact h ⟨e, hspells, hlength, fun t ht => hnone ⟨t, ht⟩⟩
    obtain ⟨delta, hmicros, hoffset⟩ := TimeExpression.offset_of_inRange hlength ht
    refine ⟨fun _ => hlength, t, ht, ?_⟩
    rw [hoffset, ok_bind]
    exact Datetime.ofMicros_eq_ok_iff.mpr (by rw [hmicros, ht])

/-- A string is read in one way. -/
lemma spellsUpTo_inj {e' : TimeExpression} {rest rest' : List Char} (h : SpellsUpTo s e rest)
    (h' : SpellsUpTo s e' rest') : e = e' ∧ rest = rest' := by
  obtain ⟨hr, hs⟩ := h
  obtain ⟨hr', hs'⟩ := h'
  refine text_append_inj hr hr' ?_
  rcases hs with hs | ⟨hnow, hs⟩
  · rcases hs' with hs' | ⟨hnow', _⟩
    · rw [← hs, hs']
    · refine absurd ?_ hnow'
      rw [hs, TimeExpression.text, List.append_assoc]
      exact List.prefix_append _ _
  · rcases hs' with hs' | ⟨_, hs'⟩
    · refine absurd ?_ hnow
      rw [hs', TimeExpression.text, List.append_assoc]
      exact List.prefix_append _ _
    · rw [TimeExpression.text, TimeExpression.text, List.append_assoc, List.append_assoc, ← hs, hs']

end

/-! ## The handler -/

section

variable {valueTemplate built offset : Json} {context : OrderContext}
  {eventDefinition : Dict String Json}

/-- The value with its ETA set, if it is a dictionary that has one. -/
def withEta (built : Json) (eta : Datetime) : Json :=
  match built with
  | .dict entries =>
      if (Dict.get? entries "expectedDeliveryTime").isSome then
        .dict (Dict.set entries "expectedDeliveryTime" (.str (toIsoZ eta)))
      else built
  | _ => built

/-- Without an `etaOffset` the value is what the template resolves to. -/
lemma buildEventValue_of_none (h : eventDefinition.get? "etaOffset" = none) :
    buildEventValue valueTemplate context eventDefinition
      = resolveDynamicTimes (renderTemplate valueTemplate context.asTemplateContext)
          context.baseTime := by
  simp only [buildEventValue, h]
  exact bind_pure _

/-- With an `etaOffset`, the value without it is changed or left alone. -/
lemma buildEventValue_of_offset (h : eventDefinition.get? "etaOffset" = none)
    (hbuilt : buildEventValue valueTemplate context eventDefinition = .ok built) :
    buildEventValue valueTemplate context (eventDefinition.set "etaOffset" offset)
      = (built.contains "expectedDeliveryTime" >>= fun mentioned =>
          if mentioned then
            match applyEtaOffset context.baseTime built offset with
            | .ok adjusted => .ok adjusted
            | .error e => if e.type = .valueError ∨ e.type = .typeError then .ok built else .error e
          else .ok built) := by
  have hget : (eventDefinition.set "etaOffset" offset).get? "etaOffset" = some offset := by
    rw [Dict.get?_set, if_pos rfl]
  rw [buildEventValue_of_none h] at hbuilt
  simp only [buildEventValue, hget, hbuilt, ok_bind]
  rfl

/-- What the handler does, by what reading the offset and adding it gives. -/
lemma buildEventValue_of_mentioned (h : eventDefinition.get? "etaOffset" = none)
    (hbuilt : buildEventValue valueTemplate context eventDefinition = .ok built)
    (hmentioned : built.contains "expectedDeliveryTime" = .ok true) :
    buildEventValue valueTemplate context (eventDefinition.set "etaOffset" offset)
      = match parseOffset offset >>= context.baseTime.add with
        | .ok eta => .ok (withEta built eta)
        | .error e => if e.type = .valueError ∨ e.type = .typeError then .ok built else .error e := by
  have happly : applyEtaOffset context.baseTime built offset
      = (parseOffset offset >>= context.baseTime.add) >>= fun eta =>
          built.setItem "expectedDeliveryTime" (.str (toIsoZ eta)) := by
    rw [applyEtaOffset, bind_assoc]
  rw [buildEventValue_of_offset h hbuilt, hmentioned, ok_bind, happly]
  cases hadd : parseOffset offset >>= context.baseTime.add with
  | error e => rfl
  | ok eta =>
      cases built with
      | dict entries =>
          have hsome : (Dict.get? entries "expectedDeliveryTime").isSome = true :=
            Except.ok.inj hmentioned
          simp only [ok_bind, Json.setItem, withEta, hsome]
          rfl
      | list items => rfl
      | str s => rfl
      | null => cases hmentioned
      | bool b => cases hmentioned
      | int n => cases hmentioned
      | float x => cases hmentioned

/-! ## Usable offsets -/

/-- **A usable offset**: a time expression, with or without its `now`, that takes the base time to
the ETA. -/
def Usable (baseTime : Datetime) (offset : Json) (eta : Datetime) : Prop :=
  ∃ (s : String) (e : TimeExpression), offset = .str s ∧ e.InGrammar ∧
    (s.toList = e.text ∨ s.toList = e.body) ∧ eta.micros = baseTime.micros + e.duration

/-- The string is read as an offset to the ETA although it is no time expression, or it is one that
has more digits than are read. -/
def Misread (baseTime : Datetime) (s : String) (eta : Datetime) : Prop :=
  ∃ e rest, SpellsUpTo s e rest ∧ eta.micros = baseTime.micros + e.duration ∧
    (((rest ≠ [] ∨ ¬e.InGrammar) ∧ (e.sign ≠ none → ¬maxStrDigits < e.digits.length)) ∨
      rest = [] ∧ e.InGrammar ∧ e.sign ≠ none ∧ maxStrDigits < e.digits.length)

lemma usable_str_iff {baseTime : Datetime} {s : String} {eta : Datetime} :
    Usable baseTime (.str s) eta ↔ ∃ e : TimeExpression, e.InGrammar ∧ SpellsUpTo s e [] ∧
      eta.micros = baseTime.micros + e.duration := by
  simp only [Usable, SpellsUpTo, Ending, List.append_nil, true_or, true_and, Json.str.injEq]
  constructor
  · rintro ⟨_, e, rfl, he, hs | hs, heta⟩
    · exact ⟨e, he, .inl hs, heta⟩
    · exact ⟨e, he, .inr ⟨hs ▸ not_now_prefix_body he, hs⟩, heta⟩
  · rintro ⟨e, he, hs | ⟨_, hs⟩, heta⟩
    · exact ⟨s, e, rfl, he, .inl hs, heta⟩
    · exact ⟨s, e, rfl, he, .inr hs, heta⟩

/-! ## The order goes on -/

/-- **The offset does not abort the order.**  The value is built: with the ETA that the offset
gives, or as without the offset if it is not usable.  Then the event is published. -/
structure NeverAborts (valueTemplate : Json) (context : OrderContext)
    (eventDefinition : Dict String Json) (offset built : Json) : Prop where
  returns : ∃ result,
    buildEventValue valueTemplate context (eventDefinition.set "etaOffset" offset) = .ok result ∧
      (∀ eta, Usable context.baseTime offset eta → result = withEta built eta) ∧
      ((¬∃ eta, Usable context.baseTime offset eta) → result = built) ∧
      ∀ config publishedByStep timing,
        eventTiming config (eventDefinition.set "etaOffset" offset) = .ok timing →
        CanWait config timing.1 timing.2 →
        (∃ s, messageKey context (eventDefinition.set "etaOffset" offset) = .str s) →
        (eventDefinition.set "etaOffset" offset).get? "duplicateOfStep" = none →
        (eventDefinition.set "etaOffset" offset).get? "value" = some valueTemplate →
        valueTemplate.truthy →
          runEvent config context publishedByStep (eventDefinition.set "etaOffset" offset)
            = ⟨waits config timing.1 timing.2
                ++ [.publish (messageKey context (eventDefinition.set "etaOffset" offset)) result],
              .ok (publishedByStep.set timing.1 result)⟩

/-- The value is no dictionary, or has this ETA already. -/
def HasEta (value : Json) (eta : Datetime) : Prop :=
  ∀ entries, value = .dict entries →
    Dict.get? entries "expectedDeliveryTime" = some (.str (toIsoZ eta))

/-- What the template and the offset must be for that.  Only a dictionary, a list or a string can
be asked for an ETA.  If it mentions one, the offset must be a string that is not out of range, or
falsy; and where it is misread, or falsy and no string, the ETA must be there already. -/
def Harmless (valueTemplate : Json) (context : OrderContext) (offset : Json) : Prop :=
  ∃ resolved mentioned,
    resolveDynamicTimes (renderTemplate valueTemplate context.asTemplateContext) context.baseTime
        = .ok resolved ∧
      resolved.contains "expectedDeliveryTime" = .ok mentioned ∧
      (mentioned = true →
        (∃ s, offset = .str s ∧ ¬OutOfRange context.baseTime s ∧
          ∀ eta, Misread context.baseTime s eta → HasEta resolved eta) ∨
        (∀ s, offset ≠ .str s) ∧ offset.truthy = false ∧ HasEta resolved context.baseTime)

/-- An event with a value of its own is published with it. -/
lemma runEvent_of_build {config : SimulatorConfig} {publishedByStep : Dict ℤ Json}
    {timing : ℤ × ℤ} {result : Json} (ht : eventTiming config eventDefinition = .ok timing)
    (hwait : CanWait config timing.1 timing.2)
    (hkey : ∃ s, messageKey context eventDefinition = .str s)
    (hdup : eventDefinition.get? "duplicateOfStep" = none)
    (hvalue : eventDefinition.get? "value" = some valueTemplate)
    (htruthy : valueTemplate.truthy)
    (hbuild : buildEventValue valueTemplate context eventDefinition = .ok result) :
    runEvent config context publishedByStep eventDefinition
      = ⟨waits config timing.1 timing.2 ++ [.publish (messageKey context eventDefinition) result],
          .ok (publishedByStep.set timing.1 result)⟩ := by
  have heventValue : eventValue context publishedByStep timing.1 eventDefinition
      = .ok (result, publishedByStep.set timing.1 result) := by
    simp [eventValue, hdup, Dict.getD, hvalue, htruthy, hbuild, pure, Except.pure]
  obtain ⟨s, hs⟩ := hkey
  rw [runEvent_eq, ht]
  simp only [waitBefore_of_canWait hwait, heventValue, hs, encodeKey]

lemma NeverAborts.of_build {result : Json}
    (hbuild : buildEventValue valueTemplate context (eventDefinition.set "etaOffset" offset)
      = .ok result)
    (husable : ∀ eta, Usable context.baseTime offset eta → result = withEta built eta)
    (hunusable : (¬∃ eta, Usable context.baseTime offset eta) → result = built) :
    NeverAborts valueTemplate context eventDefinition offset built :=
  ⟨result, hbuild, husable, hunusable,
    fun _ _ _ ht hwait hkey hdup hvalue htruthy =>
      runEvent_of_build ht hwait hkey hdup hvalue htruthy hbuild⟩

lemma not_neverAborts_of_error {e : Exception}
    (hbuild : buildEventValue valueTemplate context (eventDefinition.set "etaOffset" offset)
      = .error e) : ¬NeverAborts valueTemplate context eventDefinition offset built := by
  rintro ⟨result, hresult, _⟩
  rw [hbuild] at hresult
  cases hresult

/-- A value without an ETA is left alone. -/
lemma withEta_of_not_mentioned (h : built.contains "expectedDeliveryTime" = .ok false)
    (eta : Datetime) : withEta built eta = built := by
  cases built with
  | dict entries =>
      have hnone : (Dict.get? entries "expectedDeliveryTime").isSome = false := Except.ok.inj h
      simp [withEta, hnone]
  | list items => rfl
  | str s => rfl
  | null => rfl
  | bool b => rfl
  | int n => rfl
  | float x => rfl

/-- Setting the ETA changes nothing if it is there already. -/
lemma withEta_eq_self_iff (h : built.contains "expectedDeliveryTime" = .ok true) {eta : Datetime} :
    withEta built eta = built ↔ HasEta built eta := by
  unfold HasEta
  cases built with
  | dict entries =>
      have hsome : (Dict.get? entries "expectedDeliveryTime").isSome = true := Except.ok.inj h
      simp only [withEta, hsome, if_true, Json.dict.injEq, forall_eq']
      constructor
      · intro hset
        rw [← hset, Dict.get?_set, if_pos rfl]
      · exact Dict.set_eq_self
  | list items => simp [withEta]
  | str s => simp [withEta]
  | null => simp [withEta]
  | bool b => simp [withEta]
  | int n => simp [withEta]
  | float x => simp [withEta]

/-- What is falsy counts as no offset. -/
lemma add_parseOffset_of_falsy {baseTime : Datetime} (h : offset.truthy = false) :
    (parseOffset offset >>= baseTime.add) = .ok baseTime := by
  have hzero : parseOffset offset = .ok Timedelta.zero := if_pos (by rw [h]; rfl)
  rw [hzero]
  exact Datetime.ofMicros_eq_ok_iff.mpr (add_zero _).symm

/-- What is neither a string nor falsy raises `AttributeError`. -/
lemma parseOffset_of_not_str (h : offset.truthy = true) (hstr : ∀ s, offset ≠ .str s) :
    parseOffset offset = .error { type := .attributeError } := by
  have htruthy : ¬(!offset.truthy) = true := by simp [h]
  refine (if_neg htruthy).trans ?_
  cases offset with
  | str s => exact absurd rfl (hstr s)
  | null => rfl
  | bool b => rfl
  | int n => rfl
  | float x => rfl
  | list items => rfl
  | dict entries => rfl

/-! ## The three kinds of offsets, for a value with an ETA -/

/-- A string must not be out of range, and must not be misread unless the ETA is there already. -/
lemma neverAborts_str_iff {s : String} (h : eventDefinition.get? "etaOffset" = none)
    (hbuilt : buildEventValue valueTemplate context eventDefinition = .ok built)
    (hmentioned : built.contains "expectedDeliveryTime" = .ok true) :
    NeverAborts valueTemplate context eventDefinition (.str s) built
      ↔ ¬OutOfRange context.baseTime s ∧
        ∀ eta, Misread context.baseTime s eta → withEta built eta = built := by
  have hhandler : buildEventValue valueTemplate context (eventDefinition.set "etaOffset" (.str s)) = _ :=
    buildEventValue_of_mentioned h hbuilt hmentioned
  by_cases hout : OutOfRange context.baseTime s
  · obtain ⟨e, hadd, htype⟩ := add_parseOffset_of_outOfRange hout
    simp only [hadd, htype, reduceCtorEq, or_self, if_false] at hhandler
    exact iff_of_false (not_neverAborts_of_error hhandler) fun hboth => hboth.1 hout
  by_cases hread : ∃ e rest, SpellsUpTo s e rest
  · obtain ⟨e, rest, hspells⟩ := hread
    have hinj : ∀ {e' rest'}, SpellsUpTo s e' rest' → e = e' ∧ rest = rest' :=
      fun h' => spellsUpTo_inj hspells h'
    rcases add_parseOffset_of_spells ⟨rest, hspells⟩ hout with
      ⟨hdigits, t, ht, hadd⟩ | ⟨⟨hsign, hdigits⟩, err, hadd, htype⟩
    · -- read as `t`
      simp only [hadd] at hhandler
      by_cases hproper : rest = [] ∧ e.InGrammar
      · obtain ⟨rfl, he⟩ := hproper
        refine iff_of_true (NeverAborts.of_build hhandler ?_ ?_) ⟨hout, ?_⟩
        · intro eta heta
          obtain ⟨e', _, hspells', heta⟩ := usable_str_iff.mp heta
          obtain ⟨rfl, _⟩ := hinj hspells'
          rw [Datetime.ext (heta.trans ht.symm)]
        · intro hnone
          exact absurd ⟨t, usable_str_iff.mpr ⟨e, he, hspells, ht⟩⟩ hnone
        · rintro eta ⟨e', rest', hspells', _, ⟨himproper, _⟩ | ⟨_, _, hsign, hlong⟩⟩
          · obtain ⟨rfl, rfl⟩ := hinj hspells'
            exact (himproper.elim (fun hne => hne rfl) fun hne => hne he).elim
          · obtain ⟨rfl, rfl⟩ := hinj hspells'
            exact absurd hlong (hdigits hsign)
      · have hunusable : ¬∃ eta, Usable context.baseTime (.str s) eta := by
          rintro ⟨eta, heta⟩
          obtain ⟨e', he', hspells', _⟩ := usable_str_iff.mp heta
          obtain ⟨rfl, rfl⟩ := hinj hspells'
          exact hproper ⟨rfl, he'⟩
        have hmisread : ∀ eta, Misread context.baseTime s eta ↔ eta = t := by
          intro eta
          constructor
          · rintro ⟨e', rest', hspells', heta, _⟩
            obtain ⟨rfl, rfl⟩ := hinj hspells'
            exact Datetime.ext (heta.trans ht.symm)
          · rintro rfl
            exact ⟨e, rest, hspells, ht, .inl ⟨not_and_or.mp hproper, hdigits⟩⟩
        simp only [hmisread, forall_eq, hout, not_false_eq_true, true_and]
        constructor
        · rintro ⟨result, hresult, _, hsame, _⟩
          rw [hhandler] at hresult
          rw [Except.ok.inj hresult]
          exact hsame hunusable
        · intro hsame
          exact NeverAborts.of_build hhandler (fun eta heta => absurd ⟨eta, heta⟩ hunusable)
            fun _ => hsame
    · -- too many digits
      simp only [hadd, htype, true_or, if_true] at hhandler
      have hmisread : ∀ eta, Misread context.baseTime s eta ↔ Usable context.baseTime (.str s) eta := by
        intro eta
        rw [usable_str_iff]
        constructor
        · rintro ⟨e', rest', hspells', heta, ⟨_, hshort⟩ | ⟨hnil, he', _, _⟩⟩
          · obtain ⟨rfl, rfl⟩ := hinj hspells'
            exact absurd hdigits (hshort hsign)
          · rw [hnil] at hspells'
            exact ⟨e', he', hspells', heta⟩
        · rintro ⟨e', he', hspells', heta⟩
          obtain ⟨rfl, _⟩ := hinj hspells'
          exact ⟨e, [], hspells', heta, .inr ⟨rfl, he', hsign, hdigits⟩⟩
      simp only [hmisread, hout, not_false_eq_true, true_and]
      constructor
      · rintro ⟨result, hresult, husable, _⟩ eta heta
        rw [hhandler] at hresult
        rw [← husable eta heta, Except.ok.inj hresult]
      · intro hsame
        exact NeverAborts.of_build hhandler (fun eta heta => (hsame eta heta).symm) fun _ => rfl
  · -- not read at all
    obtain ⟨err, herr, htype⟩ : RaisesValueError (parseOffset (.str s)) :=
      parseOffset_of_not_spells fun e ⟨rest, hs⟩ => hread ⟨e, rest, hs⟩
    simp only [herr, error_bind, htype, true_or, if_true] at hhandler
    refine iff_of_true (NeverAborts.of_build hhandler ?_ fun _ => rfl) ⟨hout, ?_⟩
    · intro eta heta
      obtain ⟨e, _, hspells, _⟩ := usable_str_iff.mp heta
      exact absurd ⟨e, [], hspells⟩ hread
    · rintro eta ⟨e, rest, hspells, _⟩
      exact absurd ⟨e, rest, hspells⟩ hread

/-- Any other falsy value sets the ETA to the base time. -/
lemma neverAborts_falsy_iff (h : eventDefinition.get? "etaOffset" = none)
    (hbuilt : buildEventValue valueTemplate context eventDefinition = .ok built)
    (hmentioned : built.contains "expectedDeliveryTime" = .ok true)
    (hstr : ∀ s, offset ≠ .str s) (hfalsy : offset.truthy = false) :
    NeverAborts valueTemplate context eventDefinition offset built
      ↔ HasEta built context.baseTime := by
  have hhandler : buildEventValue valueTemplate context (eventDefinition.set "etaOffset" offset) = _ :=
    buildEventValue_of_mentioned h hbuilt hmentioned
  simp only [add_parseOffset_of_falsy hfalsy] at hhandler
  have hunusable : ¬∃ eta, Usable context.baseTime offset eta := by
    rintro ⟨eta, s, _, hs, _⟩
    exact hstr s hs
  rw [← withEta_eq_self_iff hmentioned]
  constructor
  · rintro ⟨result, hresult, _, hsame, _⟩
    rw [hhandler] at hresult
    rw [Except.ok.inj hresult]
    exact hsame hunusable
  · intro hsame
    exact NeverAborts.of_build hhandler (fun eta heta => absurd ⟨eta, heta⟩ hunusable) fun _ => hsame

/-- Anything else aborts the order. -/
lemma not_neverAborts_of_truthy (h : eventDefinition.get? "etaOffset" = none)
    (hbuilt : buildEventValue valueTemplate context eventDefinition = .ok built)
    (hmentioned : built.contains "expectedDeliveryTime" = .ok true)
    (hstr : ∀ s, offset ≠ .str s) (htruthy : offset.truthy = true) :
    ¬NeverAborts valueTemplate context eventDefinition offset built := by
  have hhandler : buildEventValue valueTemplate context (eventDefinition.set "etaOffset" offset) = _ :=
    buildEventValue_of_mentioned h hbuilt hmentioned
  simp only [parseOffset_of_not_str htruthy hstr, error_bind, reduceCtorEq, or_self, if_false]
    at hhandler
  exact not_neverAborts_of_error hhandler

/-- **When an offset does not abort the order.**  If the value has no ETA, whatever the offset.  If
it has one: a string that is not out of range and, unless the ETA it is misread as is there already,
not misread; or another falsy value where the ETA is the base time already. -/
theorem neverAborts_iff (h : eventDefinition.get? "etaOffset" = none)
    (hbuilt : buildEventValue valueTemplate context eventDefinition = .ok built) :
    NeverAborts valueTemplate context eventDefinition offset built
      ↔ Harmless valueTemplate context offset := by
  have hresolved := hbuilt
  rw [buildEventValue_of_none h] at hresolved
  simp only [Harmless, hresolved, Except.ok.injEq, exists_and_left, exists_eq_left']
  cases hmentioned : built.contains "expectedDeliveryTime" with
  | error e =>
      have hbuild : buildEventValue valueTemplate context (eventDefinition.set "etaOffset" offset)
          = .error e := by
        rw [buildEventValue_of_offset h hbuilt, hmentioned, error_bind]
      simp [not_neverAborts_of_error hbuild]
  | ok mentioned =>
      cases mentioned with
      | false =>
          have hbuild : buildEventValue valueTemplate context (eventDefinition.set "etaOffset" offset)
              = .ok built := by
            rw [buildEventValue_of_offset h hbuilt, hmentioned]
            rfl
          have hnever := NeverAborts.of_build hbuild
            (fun eta _ => (withEta_of_not_mentioned hmentioned eta).symm) fun _ => rfl
          simp [hnever]
      | true =>
          simp only [Except.ok.injEq, exists_eq_left', forall_const]
          by_cases hstr : ∃ s, offset = .str s
          · obtain ⟨s, rfl⟩ := hstr
            rw [neverAborts_str_iff h hbuilt hmentioned]
            constructor
            · rintro ⟨hrange, hkeeps⟩
              exact .inl ⟨s, rfl, hrange, fun eta heta =>
                (withEta_eq_self_iff hmentioned).mp (hkeeps eta heta)⟩
            · rintro (⟨s', hs', hrange, hhas⟩ | ⟨hne, _⟩)
              · cases hs'
                exact ⟨hrange, fun eta heta => (withEta_eq_self_iff hmentioned).mpr (hhas eta heta)⟩
              · exact absurd rfl (hne s)
          · have hne : ∀ s, offset ≠ .str s := fun s hs => hstr ⟨s, hs⟩
            cases htruthy : offset.truthy with
            | true =>
                have hnever := not_neverAborts_of_truthy h hbuilt hmentioned hne htruthy
                simp [hnever, hne]
            | false =>
                rw [neverAborts_falsy_iff h hbuilt hmentioned hne htruthy]
                simp [hne]

end

/-- A value with a status and an ETA, both written out. -/
def shipped : Json :=
  .dict [("status", .str "SHIPPED"), ("expectedDeliveryTime", .str "tomorrow")]

/-- An order placed at noon. -/
def noonOrder : OrderContext where
  orderIndex := 1
  orderId := "ord-shipped-0001"
  customerId := "cus-0001"
  storeId := "store-001"
  baseTime := noon

lemma buildEventValue_shipped : buildEventValue shipped noonOrder [] = .ok shipped := rfl

/-- Half a minute earlier. -/
def halfMinuteEarlier : TimeExpression :=
  ⟨some .minus, ['3', '0'], some .s,
    List.forall_mem_cons.mpr ⟨rfl, List.forall_mem_singleton.mpr rfl⟩⟩

lemma spellsUpTo_earlier : SpellsUpTo "-30s" halfMinuteEarlier [] :=
  ⟨.inl rfl, .inr ⟨by decide, by decide⟩⟩

lemma not_outOfRange_earlier : ¬OutOfRange noon "-30s" := by
  intro hout
  obtain ⟨e, he, _⟩ := add_parseOffset_of_outOfRange hout
  have hadd : (parseOffset (.str "-30s") >>= noon.add)
      = .ok ⟨63914183970000000, by decide, by decide⟩ := by decide
  rw [hadd] at he
  cases he

/-- It is a time expression with two digits. -/
lemma not_misread_earlier (eta : Datetime) : ¬Misread noon "-30s" eta := by
  rintro ⟨e, rest, hspells, _, hwrong⟩
  obtain ⟨rfl, rfl⟩ := spellsUpTo_inj spellsUpTo_earlier hspells
  rcases hwrong with ⟨hwrong | hwrong, _⟩ | ⟨_, _, _, hlong⟩
  · exact hwrong rfl
  · exact hwrong fun hsign => by cases hsign
  · exact absurd hlong (by decide)

theorem neverAborts_shipped_earlier : NeverAborts shipped noonOrder [] (.str "-30s") shipped :=
  (neverAborts_iff rfl buildEventValue_shipped).mpr
    ⟨shipped, true, rfl, rfl, fun _ => .inl ⟨"-30s", rfl, not_outOfRange_earlier,
      fun eta heta => absurd heta (not_misread_earlier eta)⟩⟩

/-- A number for an offset raises `AttributeError`, and the order is lost. -/
theorem not_neverAborts_shipped_number :
    ¬NeverAborts shipped noonOrder [] (.int 5) shipped :=
  not_neverAborts_of_truthy rfl buildEventValue_shipped rfl (fun _ h => by cases h) rfl

end OrderSimulator
