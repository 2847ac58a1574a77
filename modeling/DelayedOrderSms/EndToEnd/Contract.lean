import DelayedOrderSms.EndToEnd.Expected
import DelayedOrderSms.EndToEnd.TimeTexts
import DelayedOrderSms.Pipeline.OrderSchema

/-!
# The messages of the simulator and their schema

The scenario files are written against `order-state.schema.json`, which says nothing about templates.
One of them logs a status that the schema does not have.

* `Announces` — what the texts of a template have to be, for those of the message to be what the
  schema asks for.
* `KeepsContract` — what the schema has to say of a message.
* `conforming_of_scenarios` — which messages of the scenario files conform.
-/

namespace EndToEnd

open Python Java Systems OrderSimulator DelayedOrderSms JsonSchema

/-! ## The texts of a template -/

/-- The ids have placeholders. -/
def idPlaceholders : List String :=
  [placeholder "orderId", placeholder "customerId", placeholder "storeId"]

/-- A status that is logged, but is none of the schema. -/
def etaUpdatedLog : TextKeyword × String := (.enum statusNames, "ETA_UPDATED")

/-- **What a text of a template announces**: what the schema asks for, or the status that it does not
have, in the one scenario. -/
def Announces (scenarioName : String) : TextKeyword × String → Bool
  | (.minLength n, text) => n = 1 && text ∈ idPlaceholders
  | (.enum values, text) => values = statusNames &&
      (text ∈ statusNames || text = "ETA_UPDATED" && scenarioName = "eta-updated-orders")
  | (.dateTime, text) => (durationOf text).isSome
  | _ => false

/-- What an event with a value announces. -/
def AnnouncesEvent (scenarioName : String) (eventDefinition : Dict String Json) : Prop :=
  ∃ entries ∈ plannedTemplate eventDefinition, (readDocument durationOf (.dict entries)).isSome ∧
    orderStateSchema.shape (.dict entries) = true ∧
      ∀ p ∈ orderStateSchema.texts (.dict entries), Announces scenarioName p = true

instance (scenarioName : String) : DecidablePred (AnnouncesEvent scenarioName) := fun _ =>
  inferInstanceAs (Decidable (∃ entries ∈ _, _))

/-- **The files announce it.** -/
lemma announcesEvent_of_mem : ∀ entry ∈ scenarioFiles, ∀ eventDefinition ∈ entry.2.events,
    (eventDefinition.get? "duplicateOfStep").isSome = true ∨
      AnnouncesEvent entry.1 eventDefinition := by
  decide +kernel

/-! ## What the texts become -/

section Placeholders

variable {pattern s : List Char} (new : List Char)

lemma substitute_self (hne : pattern ≠ []) : substitute [(pattern, new)] pattern = new := by
  have hrule : ruleAt [(pattern, new)] ((pattern, new).1 ++ []) = some (pattern, new) := by
    simp [ruleAt]
  simpa using substitute_of_ruleAt hrule hne

lemma substitute_of_absent (h : ¬pattern <:+: s) : substitute [(pattern, new)] s = s := by
  refine substitute_eq_self fun rule hrule => ?_
  rwa [List.mem_singleton.mp hrule]

end Placeholders

/-- The placeholders apart from one another. -/
lemma placeholder_absent : ∀ label ∈ ["orderId", "customerId", "storeId"],
    ∀ label' ∈ ["orderId", "customerId", "storeId"], label ≠ label' →
      ¬(placeholder label).toList <:+: (placeholder label').toList := by
  decide +kernel

lemma placeholder_ne_nil (label : String) : (placeholder label).toList ≠ [] := by
  simp [placeholder, String.toList_append]

section Rendered

variable (context : OrderContext)

/-- The placeholder of the customer is replaced by its id, and that stays. -/
lemma renderTemplateValue_customerId (hbrace : '{' ∉ context.customerId.toList) :
    renderTemplateValue (placeholder "customerId") context.asTemplateContext
      = context.customerId := by
  have hkept : ¬(placeholder "storeId").toList <:+: context.customerId.toList := by
    intro hwithin
    refine hbrace (hwithin.subset ?_)
    simp [placeholder]
  have horder := placeholder_absent "orderId" (by simp) "customerId" (by simp) (by decide)
  refine String.toList_injective ?_
  rw [toList_renderTemplateValue, OrderContext.asTemplateContext, rules]
  simp only [List.map_cons, List.map_nil, List.foldl_cons, List.foldl_nil]
  rw [substitute_of_absent _ horder, substitute_self _ (placeholder_ne_nil _),
    substitute_of_absent _ hkept]

lemma renderTemplateValue_storeId :
    renderTemplateValue (placeholder "storeId") context.asTemplateContext = context.storeId := by
  have horder := placeholder_absent "orderId" (by simp) "storeId" (by simp) (by decide)
  have hcustomer := placeholder_absent "customerId" (by simp) "storeId" (by simp) (by decide)
  refine String.toList_injective ?_
  rw [toList_renderTemplateValue, OrderContext.asTemplateContext, rules]
  simp only [List.map_cons, List.map_nil, List.foldl_cons, List.foldl_nil]
  rw [substitute_of_absent _ horder, substitute_of_absent _ hcustomer,
    substitute_self _ (placeholder_ne_nil _)]

end Rendered

lemma WellTimed.readableTime {text : String} (h : WellTimed text.toList) : ReadableTime text := by
  obtain ⟨parts, hparts, _, hreadable⟩ := h
  exact ⟨parts, hparts, hreadable⟩

section Becomes

variable {config : SimulatorConfig} {now : Datetime} {index : ℕ} {name text text' : String}

/-- **The ids are not empty.** -/
lemma ne_empty_of_becomesText (h : BecomesText (createOrderContext config now index name) text text')
    (hid : text ∈ idPlaceholders) : text' ≠ "" := by
  have hstable := parseDynamicTime_of_mem_asTemplateContext config now index name
    (createOrderContext config now index name).baseTime
  rw [OrderContext.asTemplateContext, List.forall_mem_cons, List.forall_mem_cons,
    List.forall_mem_singleton] at hstable
  obtain ⟨_, hcustomer, hstore⟩ := hstable
  rw [idPlaceholders, List.mem_cons, List.mem_cons, List.mem_singleton] at hid
  rcases hid with rfl | rfl | rfl
  · have hpublished := toList_publishedId config now index name
    rw [eq_publishedId_of_becomesText (parseDynamicTime_publishedId config now index name _) h]
    intro hempty
    simp [hempty] at hpublished
  · have hbrace : '{' ∉ (createOrderContext config now index name).customerId.toList := by
      simp only [createOrderContext, String.toList_append, String.toList_ofList, List.mem_append]
      rintro (hcus | hindex)
      · exact absurd hcus (by decide)
      · exact (ne_brace_of_isDigit (Datetime.isDigit_of_mem_padded hindex)).1 rfl
    rw [eq_of_becomesText h (renderTemplateValue_customerId _ hbrace) hcustomer
      (durationOf_placeholder _)]
    simp [createOrderContext]
  · rw [eq_of_becomesText h (renderTemplateValue_storeId _) hstore (durationOf_placeholder _)]
    simp [createOrderContext]

/-- A status is logged as it is. -/
lemma eq_of_becomesStatus
    (h : BecomesText (createOrderContext config now index name) text text')
    (hstatus : text ∈ "ETA_UPDATED" :: statusNames) : text' = text := by
  have hplain : ∀ text ∈ "ETA_UPDATED" :: statusNames, '{' ∉ text.toList ∧
      text.toList.head? ≠ some 'n' ∧ durationOf text = none := by
    decide +kernel
  obtain ⟨hbrace, hhead, hnone⟩ := hplain text hstatus
  exact eq_self_of_becomesText h hbrace hhead hnone

/-- **What is announced is kept**, but for the status that the schema does not have. -/
lemma holds_of_announces {scenarioName : String} {keyword : TextKeyword}
    (ha : Announces scenarioName (keyword, text) = true)
    (h : BecomesText (createOrderContext config now index name) text text') :
    (keyword.holds text' = true ∨
        (keyword, text') = etaUpdatedLog ∧ scenarioName = "eta-updated-orders") ∧
      (keyword = .dateTime → ReadableTime text') := by
  cases keyword with
  | minLength n =>
      simp only [Announces, Bool.and_eq_true, decide_eq_true_eq] at ha
      obtain ⟨rfl, hid⟩ := ha
      refine ⟨.inl ?_, fun hkeyword => by cases hkeyword⟩
      have hpos : text'.length ≠ 0 :=
        fun hzero => ne_empty_of_becomesText h hid (String.length_eq_zero_iff.mp hzero)
      exact decide_eq_true (Nat.pos_of_ne_zero hpos)
  | «enum» values =>
      simp only [Announces, Bool.and_eq_true, Bool.or_eq_true, decide_eq_true_eq] at ha
      obtain ⟨rfl, hstatus | ⟨rfl, hname⟩⟩ := ha
      · obtain rfl := eq_of_becomesStatus h (List.mem_cons_of_mem _ hstatus)
        exact ⟨.inl (decide_eq_true hstatus), fun hkeyword => by cases hkeyword⟩
      · obtain rfl := eq_of_becomesStatus h List.mem_cons_self
        exact ⟨.inr ⟨rfl, hname⟩, fun hkeyword => by cases hkeyword⟩
  | dateTime =>
      obtain ⟨d, hd⟩ := Option.isSome_iff_exists.mp ha
      obtain ⟨t, htext, _⟩ := exists_toIsoZ_of_becomesText h hd
      have hwell := wellTimed_toIsoZ t
      rw [← htext] at hwell
      exact ⟨.inl hwell.isDateTime, fun _ => hwell.readableTime⟩
  | _ => cases ha

end Becomes

/-! ## The messages -/

/-- **What the schema has to say of a message** of a scenario. -/
structure KeepsContract (scenarioName : String) (value : Json) : Prop where
  conforming_iff : Conforming value ↔ etaUpdatedLog ∉ orderStateSchema.texts value
  scenario : etaUpdatedLog ∈ orderStateSchema.texts value → scenarioName = "eta-updated-orders"
  readable : ∀ time ∈ timesOf value, ReadableTime time

lemma exists_of_mem_of_forall₂ {α β : Type} {R : α → β → Prop} {xs : List α} {ys : List β}
    (h : List.Forall₂ R xs ys) : ∀ y ∈ ys, ∃ x ∈ xs, R x y := by
  induction h with
  | nil => exact fun y hy => absurd hy List.not_mem_nil
  | cons hhead _ ih =>
      refine List.forall_mem_cons.mpr ⟨⟨_, List.mem_cons_self, hhead⟩, fun y hy => ?_⟩
      obtain ⟨x, hx, hxy⟩ := ih y hy
      exact ⟨x, List.mem_cons_of_mem _ hx, hxy⟩

section Messages

variable {config : SimulatorConfig} {now : Datetime} {index : ℕ} {name scenarioName : String}
  {eventDefinition : Dict String Json} {value : Json}

/-- **The texts of a value** are what those of its template become. -/
lemma exists_texts_of_build {entries : Dict String Json}
    (htemplate : plannedTemplate eventDefinition = some entries)
    (hread : (readDocument durationOf (.dict entries)).isSome = true)
    (h : buildEventValue (eventDefinition.getD "value" .null)
      (createOrderContext config now index name) eventDefinition = .ok value) :
    ∃ entries', value = .dict entries' ∧
      Json.Rel.relEntries (BecomesText (createOrderContext config now index name)) entries entries' ∧
      orderStateSchema.shape (.dict entries) = orderStateSchema.shape (.dict entries') ∧
      List.Forall₂ (Schema.RelTexts (BecomesText (createOrderContext config now index name)))
        (orderStateSchema.texts (.dict entries)) (orderStateSchema.texts (.dict entries')) := by
  obtain ⟨p, hp⟩ := Option.isSome_iff_exists.mp hread
  obtain ⟨entries', rfl, hrel⟩ := exists_rel_of_build htemplate hp h
  have hvalue : Json.Rel (BecomesText (createOrderContext config now index name))
      (.dict entries) (.dict entries') := hrel
  exact ⟨entries', rfl, hrel, Schema.shape_of_rel _ hvalue, Schema.texts_of_rel _ hvalue⟩

/-- **The value of an event that announces what it should.** -/
lemma keepsContract_of_build (ha : AnnouncesEvent scenarioName eventDefinition)
    (h : buildEventValue (eventDefinition.getD "value" .null)
      (createOrderContext config now index name) eventDefinition = .ok value) :
    KeepsContract scenarioName value := by
  obtain ⟨entries, htemplate, hread, hshape, hannounces⟩ := ha
  obtain ⟨entries', rfl, hrel, hshapes, htexts⟩ := exists_texts_of_build htemplate hread h
  have hkept : ∀ p ∈ orderStateSchema.texts (.dict entries'), (p.1.holds p.2 = true ∨
      p = etaUpdatedLog ∧ scenarioName = "eta-updated-orders") ∧
        (p.1 = .dateTime → ReadableTime p.2) := by
    rintro ⟨keyword, text'⟩ hmem
    obtain ⟨⟨_, text⟩, htext, rfl, hbecomes⟩ := exists_of_mem_of_forall₂ htexts _ hmem
    exact holds_of_announces (hannounces _ htext) hbecomes
  have hnot : ¬TextKeyword.holds etaUpdatedLog.1 etaUpdatedLog.2 = true := by decide
  rw [hshapes] at hshape
  constructor
  · constructor
    · intro hconforming hlogged
      exact hnot (((Schema.valid_iff _ _).mp hconforming).2 _ hlogged)
    · intro hlogged
      refine (Schema.valid_iff _ _).mpr ⟨hshape, fun p hp => ?_⟩
      exact (hkept p hp).1.resolve_right fun heq => hlogged (heq.1 ▸ hp)
  · exact fun hlogged => ((hkept _ hlogged).1.resolve_left hnot).2
  · exact fun time htime => (hkept _ (mem_timesOf_iff.mp htime)).2 rfl

/-- A status that is logged in the template is logged in the value. -/
lemma logged_of_build {entries : Dict String Json}
    (htemplate : plannedTemplate eventDefinition = some entries)
    (hread : (readDocument durationOf (.dict entries)).isSome = true)
    (hlogged : etaUpdatedLog ∈ orderStateSchema.texts (.dict entries))
    (h : buildEventValue (eventDefinition.getD "value" .null)
      (createOrderContext config now index name) eventDefinition = .ok value) :
    etaUpdatedLog ∈ orderStateSchema.texts value := by
  obtain ⟨entries', rfl, _, _, htexts⟩ := exists_texts_of_build htemplate hread h
  have hflipped : List.Forall₂ (flip (Schema.RelTexts _)) _ _ := htexts.flip
  obtain ⟨⟨keyword, text'⟩, hmem, hkeyword, hbecomes⟩ := exists_of_mem_of_forall₂ hflipped _ hlogged
  obtain rfl : TextKeyword.enum statusNames = keyword := hkeyword
  obtain rfl : text' = "ETA_UPDATED" := eq_of_becomesStatus hbecomes List.mem_cons_self
  exact hmem

/-- Each event with a value has a message with a value that is built of it. -/
lemma exists_message_of_event {context : OrderContext} {publishedByStep : Dict ℤ Json}
    {events : List (Dict String Json)}
    (hok : (runEvents config context publishedByStep events).outcome = .ok ()) :
    ∀ eventDefinition ∈ events, eventDefinition.get? "duplicateOfStep" = none →
      ∃ m ∈ publications (runEvents config context publishedByStep events).effects,
        buildEventValue (eventDefinition.getD "value" .null) context eventDefinition = .ok m.2 := by
  induction events generalizing publishedByStep with
  | nil => exact fun _ hmem => absurd hmem List.not_mem_nil
  | cons head rest ih =>
      obtain ⟨step, delay, value, publishedByStep', _, hvalue, hrest, heq⟩ :=
        runEvents_cons_of_ok hok
      rw [heq]
      refine List.forall_mem_cons.mpr ⟨fun hdup => ?_, fun ev hev hdup => ?_⟩
      · rw [eventValue, hdup] at hvalue
        simp only at hvalue
        split_ifs at hvalue
        obtain ⟨built, hbuilt, hvalue⟩ := bind_eq_ok_iff.mp hvalue
        obtain ⟨rfl, _⟩ := Prod.mk.inj (Except.ok.inj hvalue)
        exact ⟨_, List.mem_cons_self, hbuilt⟩
      · obtain ⟨m, hm, hbuilt⟩ := ih hrest ev hev hdup
        exact ⟨m, List.mem_cons_of_mem _ hm, hbuilt⟩

end Messages

/-- The one file that logs it. -/
lemma exists_logged_of_mem : ∃ eventDefinition ∈ etaUpdatedFile.events,
    (eventDefinition.get? "duplicateOfStep").isNone = true ∧
      ∃ entries ∈ plannedTemplate eventDefinition,
        (readDocument durationOf (.dict entries)).isSome = true ∧
          etaUpdatedLog ∈ orderStateSchema.texts (.dict entries) := by
  decide +kernel

/-- **The messages of the scenario files and their schema.**  Whichever of the files the simulator is
run with, the mixed one included, and whatever the prefix of the ids, the number of orders and their
times: the job reads the times of all messages, and they conform, but for those of
`eta-updated-orders` with the status that the schema does not have.  An order of that scenario that
ends without an error has one. -/
theorem conforming_of_scenarios {load : String → Except Exception ScenarioFile}
    (hload : ShippedFiles load) {config : SimulatorConfig} {now : ℕ → Datetime} {draws : ℕ → ℕ}
    {tasks : List Task} (htasks : SimulatorRunner.run load config now draws = .ok tasks) {task : Task}
    (htask : task ∈ tasks) :
    (∀ m ∈ task.messages config, KeepsContract task.scenarioName m.2) ∧
      ((runSingleOrder config task.context task.scenario).outcome = .ok () →
        ((∀ m ∈ task.messages config, Conforming m.2) ↔
          task.scenarioName ≠ "eta-updated-orders")) := by
  obtain ⟨file, hfile, _, hscenario⟩ := hload.exists_file_of_task htasks task htask
  obtain ⟨base, hcontext⟩ := ((run_generated htasks).1 task htask).context
  have hkeeps : ∀ m ∈ task.messages config, KeepsContract task.scenarioName m.2 := by
    refine forall_mem_publications fun eventDefinition hmem hdup _ value hvalue => ?_
    rw [hscenario] at hmem
    rw [hcontext] at hvalue
    have hannounces := announcesEvent_of_mem _ (Dict.mem_of_get? hfile) eventDefinition hmem
    rw [hdup] at hannounces
    exact keepsContract_of_build (hannounces.resolve_left Bool.false_ne_true) hvalue
  refine ⟨hkeeps, fun hok => ⟨fun hall hname => ?_, fun hname m hm => ?_⟩⟩
  · obtain rfl : etaUpdatedFile = file := by
      rw [hname] at hfile
      exact Option.some.inj hfile
    obtain ⟨eventDefinition, hmem, hdup, entries, htemplate, hread, hlogged⟩ := exists_logged_of_mem
    have hmem' : eventDefinition ∈ task.scenario.events := by rwa [hscenario]
    have hmessages : task.messages config
        = publications (runEvents config task.context [] task.scenario.events).effects := by
      rw [Task.messages, runSingleOrder, if_neg (List.ne_nil_of_mem hmem')]
    rw [runSingleOrder, if_neg (List.ne_nil_of_mem hmem')] at hok
    obtain ⟨m, hm, hbuilt⟩ := exists_message_of_event hok eventDefinition hmem'
      (Option.isNone_iff_eq_none.mp hdup)
    rw [← hmessages] at hm
    rw [hcontext] at hbuilt
    exact (hkeeps m hm).conforming_iff.mp (hall m hm)
      (logged_of_build htemplate hread hlogged hbuilt)
  · exact (hkeeps m hm).conforming_iff.mpr fun hlogged => hname ((hkeeps m hm).scenario hlogged)

/-! One order of that scenario. -/

def etaUpdatedOrder : SimulatorConfig := { oneOrder with scenario := "eta-updated-orders" }

def etaUpdatedTask : Task where
  scenarioName := "eta-updated-orders"
  context := createOrderContext etaUpdatedOrder noon 1 "eta-updated-orders"
  scenario := etaUpdatedFile.toScenario

/-- All messages of an order of `delayed-orders` conform, and one of this order does not. -/
theorem conforming_of_scenarios_etaUpdated :
    (∀ m ∈ delayedTask.messages oneOrder, Conforming m.2) ∧
      ∃ m ∈ etaUpdatedTask.messages etaUpdatedOrder, ¬Conforming m.2 := by
  have hdelayed : SimulatorRunner.run shipped oneOrder (fun _ => noon) id = .ok [delayedTask] := rfl
  have hupdated : SimulatorRunner.run shipped etaUpdatedOrder (fun _ => noon) id
      = .ok [etaUpdatedTask] := rfl
  constructor
  · exact ((conforming_of_scenarios shippedFiles_shipped hdelayed
      (List.mem_singleton.mpr rfl)).2 (by decide +kernel)).mpr (by decide)
  · by_contra! hall
    exact ((conforming_of_scenarios shippedFiles_shipped hupdated
      (List.mem_singleton.mpr rfl)).2 (by decide +kernel)).mp hall rfl

end EndToEnd
