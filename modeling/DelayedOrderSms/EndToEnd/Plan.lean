import DelayedOrderSms.EndToEnd.Timestamps
import DelayedOrderSms.Pipeline.Reading
import DelayedOrderSms.Simulator.OrderIds

/-!
# What a scenario file plans

The snapshots of an order can be read off its scenario file before anything is run, with their
times relative to the base time of the order: each event has the template of a message, and an
`etaOffset` stands in the place of the expected delivery time.

* `durationOf` — the duration that a time expression adds to the base time, in microseconds.
* `planEvents` — the snapshots of the events, or nothing if they are not those of an order.
* `Realises` — a snapshot is what was planned, for an order and its base time.
* `realises_of_planned` — what the job reads of an event is what was planned for it.
-/

namespace EndToEnd

open Python Java Systems OrderSimulator DelayedOrderSms

/-! ## Durations -/

/-- A unit in microseconds; no unit are seconds. -/
def microsPerUnit (unit : Option (List Char)) : ℤ :=
  if unit = some "ms".toList then 1000
  else if unit = some "s".toList then 1000000
  else if unit = some "m".toList then 60000000
  else if unit = some "h".toList then 3600000000
  else if unit = some "d".toList then 86400000000
  else 1000000

/-- **The duration of a time expression**, whatever it is added to. -/
def durationOf (text : String) : Option ℤ :=
  match timeExpressionPattern.exec text.toList with
  | none => none
  | some groups =>
      match groups.get? "sign" with
      | none => some 0
      | some sign =>
          match intOfStr (groups.getD "amount" "0".toList) with
          | .error _ => none
          | .ok amount =>
              let micros := amount * microsPerUnit (groups.get? "unit")
              some (if sign = "+".toList then micros else -micros)

/-- The time expression that an `etaOffset` stands for. -/
def offsetExpression (offset : String) : String :=
  if "now".toList.isPrefixOf offset.toList then offset else "now" ++ offset

lemma unitDelta_eq_ofMicros (unit : Option (List Char)) (amount : ℤ) :
    unitDelta unit amount = Timedelta.ofMicros (amount * microsPerUnit unit) := by
  rw [unitDelta, microsPerUnit]
  split_ifs <;> rfl

/-- A text with a duration has no brace. -/
lemma brace_notMem_of_durationOf {text : String} {d : ℤ} (h : durationOf text = some d) :
    '{' ∉ text.toList := by
  intro hbrace
  have hexec : timeExpressionPattern.exec text.toList = none := by
    refine exec_eq_none fun e rest hrest htext => ?_
    rw [htext, List.mem_append] at hbrace
    rcases hbrace with hbrace | hbrace
    · exact brace_notMem_text e hbrace
    · rcases hrest with rfl | rfl
      · exact absurd hbrace List.not_mem_nil
      · exact absurd hbrace (by decide)
  simp [durationOf, hexec] at h

/-- The instant `i` is `d` microseconds after the time `b`. -/
def After (b : Datetime) (d : ℤ) (i : Instant) : Prop :=
  i.toNanos = (instantOf b).toNanos + d * 1000

lemma after_instantOf {b t : Datetime} {d : ℤ} (h : t.micros = b.micros + d) :
    After b d (instantOf t) := by
  rw [After, toNanos_instantOf, toNanos_instantOf, h]
  omega

/-- **What a time expression resolves to**: the text of the time after its duration. -/
lemma exists_toIsoZ_of_resolved {text resolved : String} {b : Datetime} {d : ℤ}
    (hd : durationOf text = some d) (h : parseDynamicTime text b = .ok resolved) :
    ∃ t : Datetime, resolved = toIsoZ t ∧ t.micros = b.micros + d := by
  rw [durationOf] at hd
  rw [parseDynamicTime] at h
  cases hexec : timeExpressionPattern.exec text.toList with
  | none => simp [hexec] at hd
  | some groups =>
      simp only [hexec] at hd h
      cases hsign : groups.get? "sign" with
      | none =>
          simp only [hsign, Option.some.injEq, Except.ok.injEq] at hd h
          subst hd
          subst h
          exact ⟨b, rfl, by omega⟩
      | some sign =>
          simp only [hsign] at hd h
          cases hamount : intOfStr (groups.getD "amount" "0".toList) with
          | error e =>
              simp only [hamount] at hd
              cases hd
          | ok amount =>
              simp only [hamount, ok_bind, unitDelta_eq_ofMicros] at hd h
              obtain ⟨delta, hdelta, h⟩ := bind_eq_ok_iff.mp h
              have hmicros := Timedelta.ofMicros_eq_ok_iff.mp hdelta
              split_ifs at hd h
              · obtain ⟨t, ht, h⟩ := bind_eq_ok_iff.mp h
                obtain rfl := Option.some.inj hd
                obtain rfl := Except.ok.inj h
                have htime := Datetime.ofMicros_eq_ok_iff.mp ht
                exact ⟨t, rfl, by rw [htime, hmicros]⟩
              · obtain ⟨t, ht, h⟩ := bind_eq_ok_iff.mp h
                obtain rfl := Option.some.inj hd
                obtain rfl := Except.ok.inj h
                have htime := Datetime.ofMicros_eq_ok_iff.mp ht
                exact ⟨t, rfl, by rw [htime, hmicros, sub_eq_add_neg]⟩

/-- The offset is read from the same text, with `now` before it. -/
lemma parseOffset_eq (offset : String) (hne : offset ≠ "") :
    ∃ rest, parseOffset (.str offset) = matchOffset rest ∧
      (offsetExpression offset).toList = "now".toList ++ rest := by
  by_cases hnow : "now".toList <+: offset.toList
  · obtain ⟨rest, hrest⟩ := hnow
    have hprefix : "now".toList.isPrefixOf offset.toList := by
      rw [List.isPrefixOf_iff_prefix, ← hrest]
      exact List.prefix_append _ _
    exact ⟨rest, parseOffset_of_now hrest.symm, by rw [offsetExpression, if_pos hprefix, hrest]⟩
  · have hprefix : ¬"now".toList.isPrefixOf offset.toList := by
      rwa [List.isPrefixOf_iff_prefix]
    refine ⟨offset.toList, parseOffset_of_not_now hne hnow, ?_⟩
    rw [offsetExpression, if_neg hprefix, String.toList_append]

/-- **An offset** is read as its duration, unless that is out of range. -/
lemma parseOffset_of_durationOf {offset : String} {d : ℤ}
    (hd : durationOf (offsetExpression offset) = some d) :
    (∃ delta, parseOffset (.str offset) = .ok delta ∧ delta.micros = d) ∨
      ∃ e, parseOffset (.str offset) = .error e ∧ e.type = .overflowError := by
  by_cases hne : offset = ""
  · subst hne
    cases hd
    exact .inl ⟨Timedelta.zero, rfl, rfl⟩
  · obtain ⟨rest, hrest, htext⟩ := parseOffset_eq offset hne
    rw [hrest, matchOffset]
    rw [durationOf, htext] at hd
    cases hexec : timeExpressionPattern.exec ("now".toList ++ rest) with
    | none =>
        rw [hexec] at hd
        cases hd
    | some groups =>
        simp only [hexec] at hd ⊢
        cases hsign : groups.get? "sign" with
        | none =>
            simp only [hsign, Option.some.injEq] at hd
            subst hd
            exact .inl ⟨Timedelta.zero, rfl, rfl⟩
        | some sign =>
            simp only [hsign] at hd ⊢
            cases hamount : intOfStr (groups.getD "amount" "0".toList) with
            | error e =>
                simp only [hamount] at hd
                cases hd
            | ok amount =>
                simp only [hamount] at hd
                simp only [ok_bind, unitDelta_eq_ofMicros]
                rcases Timedelta.ofMicros_cases (amount * microsPerUnit (groups.get? "unit")) with
                  hover | ⟨delta, hdelta, hmicros⟩
                · exact .inr ⟨_, by rw [hover, error_bind], rfl⟩
                · rw [hdelta, ok_bind]
                  split_ifs at hd ⊢
                  · obtain rfl := Option.some.inj hd
                    exact .inl ⟨delta, rfl, hmicros⟩
                  · obtain rfl := Option.some.inj hd
                    rw [Timedelta.neg]
                    rcases Timedelta.ofMicros_cases (-delta.micros) with hover | ⟨delta', hneg, hm⟩
                    · exact .inr ⟨_, hover, rfl⟩
                    · exact .inl ⟨delta', hneg, by rw [hm, hmicros]⟩

/-- **What an offset does** to the value of an event: it is in the place of the expected delivery
time, or out of range. -/
lemma applyEtaOffset_of_durationOf {offset : String} {d : ℤ} {b : Datetime}
    {resolved : Dict String Json} (hd : durationOf (offsetExpression offset) = some d) :
    (∃ t : Datetime, t.micros = b.micros + d ∧ applyEtaOffset b (.dict resolved) (.str offset)
        = .ok (.dict (Dict.set resolved "expectedDeliveryTime" (.str (toIsoZ t))))) ∨
      ∃ e, applyEtaOffset b (.dict resolved) (.str offset) = .error e ∧
        e.type = .overflowError := by
  rw [applyEtaOffset]
  rcases parseOffset_of_durationOf hd with ⟨delta, hdelta, hmicros⟩ | ⟨e, he, htype⟩
  · rw [hdelta, ok_bind]
    cases hadd : b.add delta with
    | error e =>
        refine .inr ⟨e, rfl, ?_⟩
        rw [Datetime.add, Datetime.ofMicros] at hadd
        split_ifs at hadd
        cases hadd
        rfl
    | ok t =>
        refine .inl ⟨t, ?_, rfl⟩
        rw [Datetime.ofMicros_eq_ok_iff.mp hadd, hmicros]
  · rw [he]
    exact .inr ⟨e, rfl, htype⟩

/-! ## Events -/

/-- A snapshot with its times relative to the base time, in microseconds. -/
abbrev Planned := Document ℤ

/-- The template of an event, its offset in the place of the expected delivery time. -/
def plannedTemplate (eventDefinition : Dict String Json) : Option (Dict String Json) :=
  match eventDefinition.get? "value", eventDefinition.get? "etaOffset" with
  | some (.dict entries), none => some entries
  | some (.dict entries), some (.str offset) =>
      if (Dict.get? entries "expectedDeliveryTime").isSome then
        some (Dict.set entries "expectedDeliveryTime" (.str (offsetExpression offset)))
      else none
  | _, _ => none

/-- **What is planned for an event** that names its order by the placeholder. -/
def planEvent (eventDefinition : Dict String Json) : Option Planned :=
  ((plannedTemplate eventDefinition).bind fun entries => readDocument durationOf (.dict entries)).filter
    fun p => p.orderId = placeholder "orderId"

/-- **A snapshot is what was planned** for an order, at its base time. -/
structure Realises (context : OrderContext) (p : Planned) (s : Snapshot) : Prop where
  orderId : s.orderId = context.publishedId
  status : s.status = p.status
  expectedDeliveryTime : After context.baseTime p.expectedDeliveryTime s.expectedDeliveryTime
  lastUpdatedAt : After context.baseTime p.lastUpdatedAt s.lastUpdatedAt

section Event

variable {context : OrderContext}

/-- What a text of the template has become: it is rendered and resolved, or it has been replaced
by the time it denotes. -/
def BecomesText (context : OrderContext) (text text' : String) : Prop :=
  parseDynamicTime (renderTemplateValue text context.asTemplateContext) context.baseTime
      = .ok text' ∨
    ∃ t : Datetime, text' = toIsoZ t ∧ durationOf text = some (t.micros - context.baseTime.micros)

/-- A time expression becomes the text of the time after its duration. -/
lemma exists_toIsoZ_of_becomesText {text text' : String} (h : BecomesText context text text') {d : ℤ}
    (hd : durationOf text = some d) :
    ∃ t : Datetime, text' = toIsoZ t ∧ t.micros = context.baseTime.micros + d := by
  rcases h with h | ⟨t, rfl, ht⟩
  · rw [renderTemplateValue_eq_self (brace_notMem_of_durationOf hd)] at h
    exact exists_toIsoZ_of_resolved hd h
  · obtain rfl := Option.some.inj (ht.symm.trans hd)
    exact ⟨t, rfl, by omega⟩

lemma exists_after_of_becomesText {text text' : String} (h : BecomesText context text text') {d : ℤ}
    (hd : durationOf text = some d) :
    ∃ i, Instant.parse text' = some i ∧ After context.baseTime d i := by
  obtain ⟨t, rfl, ht⟩ := exists_toIsoZ_of_becomesText h hd
  exact ⟨instantOf t, parse_toIsoZ t, after_instantOf ht⟩

/-- A text that is no time expression becomes what it is rendered to, if that is none either. -/
lemma eq_of_becomesText {text text' rendered : String} (h : BecomesText context text text')
    (hrendered : renderTemplateValue text context.asTemplateContext = rendered)
    (hstable : parseDynamicTime rendered context.baseTime = .ok rendered)
    (hnone : durationOf text = none) : text' = rendered := by
  rcases h with h | ⟨t, rfl, ht⟩
  · rw [hrendered, hstable] at h
    exact (Except.ok.inj h).symm
  · rw [hnone] at ht
    cases ht

/-- A text without a brace that begins with another letter than `now` stays as it is. -/
lemma eq_self_of_becomesText {text text' : String} (h : BecomesText context text text')
    (hbrace : '{' ∉ text.toList) (hhead : text.toList.head? ≠ some 'n')
    (hnone : durationOf text = none) : text' = text :=
  eq_of_becomesText h (renderTemplateValue_eq_self hbrace _)
    (parseDynamicTime_eq_self_of_head hhead _) hnone

lemma valueOf_of_becomesText {text text' : String} (h : BecomesText context text text')
    {status : OrderStatus} (hstatus : OrderStatus.valueOf text = some status) :
    OrderStatus.valueOf text' = some status := by
  obtain rfl := OrderStatus.name_of_valueOf hstatus
  have hbrace : '{' ∉ status.name.toList := by cases status <;> decide
  have hhead : status.name.toList.head? ≠ some 'n' := by cases status <;> decide
  have hnone : durationOf status.name = none := by cases status <;> rfl
  rw [eq_self_of_becomesText h hbrace hhead hnone]
  exact hstatus

/-- A placeholder is no time expression. -/
lemma durationOf_placeholder (label : String) : durationOf (placeholder label) = none := by
  cases hd : durationOf (placeholder label) with
  | none => rfl
  | some d =>
      refine absurd ?_ (brace_notMem_of_durationOf hd)
      simp [placeholder]

lemma eq_publishedId_of_becomesText
    (hid : parseDynamicTime context.publishedId context.baseTime = .ok context.publishedId)
    {text : String} (h : BecomesText context (placeholder "orderId") text) :
    text = context.publishedId :=
  eq_of_becomesText h rfl hid (durationOf_placeholder _)

lemma relEntries_set {R : String → String → Prop} {key text text' : String} (htext : R text text') :
    ∀ {entries entries' : Dict String Json}, Json.Rel.relEntries R entries entries' →
      Json.Rel.relEntries R (Dict.set entries key (.str text)) (Dict.set entries' key (.str text'))
  | [], [], _ => ⟨rfl, htext, trivial⟩
  | (key₁, _) :: _, (key₂, _) :: _, ⟨hkey, hvalue, hrest⟩ => by
      obtain rfl : key₁ = key₂ := hkey
      rw [Dict.set, Dict.set]
      split_ifs with hsame
      · exact ⟨rfl, htext, hrest⟩
      · exact ⟨rfl, hvalue, relEntries_set htext hrest⟩

/-- An offset that has been read is a duration. -/
lemma exists_durationOf_of_read {entries : Dict String Json} {text : String} {p : Planned}
    (hp : readDocument durationOf
      (.dict (Dict.set entries "expectedDeliveryTime" (.str text))) = some p) :
    ∃ d, durationOf text = some d := by
  have heta := (readDocument_dict.mp hp).expectedDeliveryTime
  have htext : textAt (Dict.set entries "expectedDeliveryTime" (.str text)) "expectedDeliveryTime"
      = some text := by
    rw [textAt, Dict.get?_set, if_pos rfl]
  rw [timeAt, htext, Option.bind_some] at heta
  exact ⟨_, heta⟩

/-- **The value of an event** has the shape of its template. -/
lemma exists_rel_of_build {eventDefinition entries : Dict String Json} {value : Json}
    (hplan : plannedTemplate eventDefinition = some entries)
    {p : Planned} (hp : readDocument durationOf (.dict entries) = some p)
    (h : buildEventValue (eventDefinition.getD "value" .null) context eventDefinition = .ok value) :
    ∃ entries', value = .dict entries' ∧
      Json.Rel.relEntries (BecomesText context) entries entries' := by
  rw [plannedTemplate] at hplan
  cases hvalue : eventDefinition.get? "value" with
  | none => simp [hvalue] at hplan
  | some valueTemplate =>
      have htemplate : eventDefinition.getD "value" .null = valueTemplate := by
        rw [Dict.getD, hvalue, Option.getD_some]
      rw [htemplate, buildEventValue] at h
      obtain ⟨resolved, hresolved, h⟩ := bind_eq_ok_iff.mp h
      rw [resolveDynamicTimes_renderTemplate] at hresolved
      have hrel := Json.rel_of_mapStrings (R := BecomesText context) (fun _ _ hst => .inl hst)
        hresolved
      cases valueTemplate with
      | dict template =>
          cases resolved with
          | dict resolved =>
              cases hoffset : eventDefinition.get? "etaOffset" with
              | none =>
                  simp only [hvalue, hoffset, Option.some.injEq] at hplan
                  simp only [hoffset] at h
                  obtain rfl := Except.ok.inj h
                  exact ⟨resolved, rfl, hplan ▸ hrel⟩
              | some offset =>
                  cases offset with
                  | str offset =>
                      simp only [hvalue, hoffset] at hplan
                      split_ifs at hplan with hmentioned
                      obtain rfl := Option.some.inj hplan
                      obtain ⟨d, hd⟩ := exists_durationOf_of_read hp
                      obtain ⟨old, hold⟩ := Option.isSome_iff_exists.mp hmentioned
                      obtain ⟨new, hnew, _⟩ := Json.get?_of_relEntries hrel hold
                      have hcontains : (Json.dict resolved).contains "expectedDeliveryTime"
                          = .ok true := by
                        rw [Json.contains, hnew]
                        rfl
                      simp only [hoffset, hcontains, ok_bind, if_true] at h
                      rcases @applyEtaOffset_of_durationOf offset d context.baseTime resolved hd with
                        ⟨t, ht, happly⟩ | ⟨e, happly, htype⟩
                      · rw [happly] at h
                        obtain rfl := Except.ok.inj h
                        refine ⟨_, rfl, relEntries_set (.inr ⟨t, rfl, ?_⟩) hrel⟩
                        rw [hd, ht, add_sub_cancel_left]
                      · rw [happly] at h
                        simp only [htype] at h
                        cases h
                  | _ => simp [hvalue, hoffset] at hplan
          | _ => exact hrel.elim
      | _ => simp [hvalue] at hplan

/-- **What the job reads of an event** is what was planned for it. -/
theorem realises_of_planned
    (hid : parseDynamicTime context.publishedId context.baseTime = .ok context.publishedId)
    {eventDefinition : Dict String Json} {p : Planned} (hplan : planEvent eventDefinition = some p)
    {value : Json}
    (h : buildEventValue (eventDefinition.getD "value" .null) context eventDefinition = .ok value) :
    ∃ d, readDocument Instant.parse value = some d ∧ Realises context p d.toSnapshot := by
  rw [planEvent, Option.filter_eq_some_iff] at hplan
  obtain ⟨hplan, hlabel⟩ := hplan
  obtain ⟨entries, htemplate, hread⟩ := Option.bind_eq_some_iff.mp hplan
  obtain ⟨entries', rfl, hrel⟩ := exists_rel_of_build htemplate hread h
  have htime : ∀ text text', BecomesText context text text' → ∀ t, durationOf text = some t →
      ∃ i, Instant.parse text' = some i ∧ After context.baseTime t i :=
    fun _ _ htext _ ht => exists_after_of_becomesText htext ht
  have hstatus : ∀ text text', BecomesText context text text' → ∀ status,
      OrderStatus.valueOf text = some status → OrderStatus.valueOf text' = some status :=
    fun _ _ htext _ hstatus => valueOf_of_becomesText htext hstatus
  obtain ⟨d, hd, hrel⟩ := readDocument_of_rel htime hstatus hrel hread
  have horder := hrel.orderId
  rw [decide_eq_true_eq] at hlabel
  rw [hlabel] at horder
  exact ⟨d, hd, eq_publishedId_of_becomesText hid horder, hrel.status, hrel.expectedDeliveryTime,
    hrel.lastUpdatedAt⟩

end Event

/-! ## The events of an order -/

/-- What is planned for an event after others, and for the steps up to it. -/
def planNext (past : Dict ℤ Planned) (eventDefinition : Dict String Json) :
    Option (Planned × Dict ℤ Planned) :=
  match eventDefinition.get? "duplicateOfStep" with
  | some duplicateOfStep => do
      let duplicateStep ← duplicateOfStep.toInt.toOption
      let p ← past.get? duplicateStep
      return (p, past)
  | none => do
      let step ← (eventDefinition.getD "step" (.int 0)).toInt.toOption
      let p ← planEvent eventDefinition
      return (p, past.set step p)

/-- **What is planned for an order**, event by event. -/
def planEvents (past : Dict ℤ Planned) : List (Dict String Json) → Option (List Planned)
  | [] => some []
  | eventDefinition :: rest => do
      let (p, past) ← planNext past eventDefinition
      let plan ← planEvents past rest
      return p :: plan

end EndToEnd
