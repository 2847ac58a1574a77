import DelayedOrderSms.Simulator.OrderIds
import DelayedOrderSms.Simulator.Replay

/-!
# The messages of an order

The values of a scenario file name their order by the placeholder.  Rendering, time expressions,
the offset and the repetition of a step leave what stands in its place alone: every message of an
order carries the id of that order.

* `forall_mem_publications` — what is true of the values that are built is true of all messages.
* `carries_of_mem_publications` — so they carry the id, whatever the events are and wherever the order
  stops.
-/

namespace OrderSimulator

open Python

/-- The order id in a value, where it is a string. -/
def orderIdOf : Json → Option String
  | .dict entries =>
      match Dict.get? entries "orderId" with
      | some (.str s) => some s
      | _ => none
  | _ => none

/-- The values of the events name their order by the placeholder. -/
def Labelled (scenario : Scenario) : Prop :=
  ∀ eventDefinition ∈ scenario.events, ∀ valueTemplate,
    eventDefinition.get? "value" = some valueTemplate →
      orderIdOf valueTemplate = some (placeholder "orderId")

lemma orderIdOf_eq_some_iff {value : Json} {s : String} :
    orderIdOf value = some s
      ↔ ∃ entries, value = .dict entries ∧ Dict.get? entries "orderId" = some (.str s) := by
  constructor
  · intro h
    unfold orderIdOf at h
    split at h
    · split at h
      · cases h
        exact ⟨_, rfl, by assumption⟩
      · cases h
    · cases h
  · rintro ⟨entries, rfl, h⟩
    simp [orderIdOf, h]

/-- The order ids in values of one shape. -/
lemma orderIdOf_of_rel {R : String → String → Prop} {value value' : Json} {s : String}
    (h : value.Rel R value') (hs : orderIdOf value = some s) :
    ∃ t, orderIdOf value' = some t ∧ R s t := by
  obtain ⟨entries, rfl, hget⟩ := orderIdOf_eq_some_iff.mp hs
  cases value' with
  | dict entries' =>
      obtain ⟨item, hitem, hrel⟩ := Json.get?_of_relEntries h hget
      cases item with
      | str t => exact ⟨t, orderIdOf_eq_some_iff.mpr ⟨entries', rfl, hitem⟩, hrel⟩
      | _ => exact hrel.elim
  | _ => exact h.elim

/-- Another key of a value. -/
lemma orderIdOf_setItem {value value' item : Json} {key : String} (hkey : key ≠ "orderId")
    (h : value.setItem key item = .ok value') : orderIdOf value' = orderIdOf value := by
  cases value with
  | dict entries =>
      cases h
      simp only [orderIdOf, Dict.get?_set, if_neg hkey]
  | _ => cases h

/-! ## The values that are built -/

section Built

variable {config : SimulatorConfig} {context : OrderContext} {P : Json → Prop}

/-- The values that are built of the event satisfy `P`. -/
def Builds (context : OrderContext) (P : Json → Prop) (eventDefinition : Dict String Json) : Prop :=
  eventDefinition.get? "duplicateOfStep" = none →
    (eventDefinition.getD "value" .null).truthy = true → ∀ value,
      buildEventValue (eventDefinition.getD "value" .null) context eventDefinition = .ok value →
        P value

/-- A message has what is built, or what those before it have. -/
lemma value_of_eventMessage {past : List Message} {m : Message} {eventDefinition : Dict String Json}
    (hbuilds : Builds context P eventDefinition) (hpast : ∀ m ∈ past, P m.value)
    (h : eventMessage config context past eventDefinition = .ok m) : P m.value := by
  obtain ⟨_, hvalue, _⟩ := eventMessage_eq_ok_iff.mp h
  cases hdup : eventDefinition.get? "duplicateOfStep" with
  | some duplicateOfStep =>
      simp only [messageValue, hdup] at hvalue
      obtain ⟨duplicateStep, _, hvalue⟩ := bind_eq_ok_iff.mp hvalue
      cases hfound : lastBuilt past duplicateStep with
      | none =>
          rw [hfound] at hvalue
          cases hvalue
      | some value =>
          rw [hfound] at hvalue
          have hsame : value = m.value := congrArg Prod.snd (Except.ok.inj hvalue)
          obtain ⟨m', hm', rfl⟩ := Option.map_eq_some_iff.mp hfound
          rw [← hsame]
          exact hpast m' (List.mem_of_find?_eq_some hm')
  | none =>
      simp only [messageValue, hdup] at hvalue
      split_ifs at hvalue with htruthy
      obtain ⟨value, hbuild, hvalue⟩ := bind_eq_ok_iff.mp hvalue
      have hsame : value = m.value := congrArg Prod.snd (Except.ok.inj hvalue)
      exact hbuilds hdup htruthy m.value (hsame ▸ hbuild)

lemma value_of_mem_replay {events : List (Dict String Json)}
    (hbuilds : ∀ eventDefinition ∈ events, Builds context P eventDefinition) {past : List Message}
    (hpast : ∀ m ∈ past, P m.value) :
    ∀ m ∈ (replay config context past events).1, P m.value := by
  induction events generalizing past with
  | nil => intro m hm; simp [replay] at hm
  | cons eventDefinition rest ih =>
      intro m hm
      rw [replay] at hm
      cases hmessage : eventMessage config context past eventDefinition with
      | error e => simp [hmessage] at hm
      | ok m' =>
          have hhead := value_of_eventMessage (hbuilds _ List.mem_cons_self) hpast hmessage
          simp only [hmessage, List.mem_cons] at hm
          rcases hm with rfl | hm
          · exact hhead
          · exact ih (fun _ hrest => hbuilds _ (List.mem_cons_of_mem _ hrest))
              (List.forall_mem_cons.mpr ⟨hhead, hpast⟩) m hm

/-- **What is true of the values that are built** is true of all messages of an order. -/
theorem forall_mem_publications {scenario : Scenario}
    (hbuilds : ∀ eventDefinition ∈ scenario.events, Builds context P eventDefinition) :
    ∀ message ∈ publications (runSingleOrder config context scenario).effects, P message.2 := by
  intro message hmessage
  rw [runSingleOrder] at hmessage
  split_ifs at hmessage
  · simp [Program.lift, publications] at hmessage
  · have hrecords : Records [] [] := fun _ => rfl
    rw [(runEvents_replays hrecords scenario.events).1] at hmessage
    obtain ⟨m, hm, rfl⟩ := List.mem_map.mp hmessage
    exact value_of_mem_replay hbuilds (by simp) m hm

end Built

/-! ## The id in the values -/

/-- The value carries the id of the order. -/
def Carries (context : OrderContext) (value : Json) : Prop :=
  orderIdOf value = some context.publishedId

section

variable {config : SimulatorConfig} {context : OrderContext}
  (hstable : ∀ baseTime,
    parseDynamicTime context.publishedId baseTime = .ok context.publishedId)
include hstable

/-- What the two passes leave of a value. -/
lemma carries_of_resolved {valueTemplate resolved : Json}
    (hlabel : orderIdOf valueTemplate = some (placeholder "orderId"))
    (h : resolveDynamicTimes (renderTemplate valueTemplate context.asTemplateContext)
      context.baseTime = .ok resolved) : Carries context resolved := by
  rw [resolveDynamicTimes_renderTemplate] at h
  obtain ⟨t, ht, hrel⟩ := orderIdOf_of_rel (Json.rel_of_mapStrings (fun _ _ hst => hst) h) hlabel
  rw [← OrderContext.publishedId, hstable] at hrel
  rw [Carries, ht, Except.ok.inj hrel]

/-- **A value that is built carries the id of its order.** -/
theorem carries_of_buildEventValue {valueTemplate value : Json}
    {eventDefinition : Dict String Json}
    (hlabel : orderIdOf valueTemplate = some (placeholder "orderId"))
    (h : buildEventValue valueTemplate context eventDefinition = .ok value) :
    Carries context value := by
  obtain ⟨resolved, hok, h⟩ := bind_eq_ok_iff.mp h
  have hid := carries_of_resolved hstable hlabel hok
  cases hoffset : eventDefinition.get? "etaOffset" with
  | none =>
      rw [hoffset] at h
      cases h
      exact hid
  | some offset =>
      simp only [hoffset] at h
      obtain ⟨mentions, _, h⟩ := bind_eq_ok_iff.mp h
      split_ifs at h
      · cases hadjusted : applyEtaOffset context.baseTime resolved offset with
        | ok adjusted =>
            rw [hadjusted] at h
            cases h
            obtain ⟨eta, _, hset⟩ := bind_eq_ok_iff.mp hadjusted
            obtain ⟨time, _, hset⟩ := bind_eq_ok_iff.mp hset
            exact (orderIdOf_setItem (by decide) hset).trans hid
        | error e =>
            rw [hadjusted] at h
            simp only at h
            split_ifs at h
            cases h
            exact hid
      · cases h
        exact hid

/-- **Every message of an order carries its id.** -/
theorem carries_of_mem_publications {scenario : Scenario} (hlabel : Labelled scenario) :
    ∀ message ∈ publications (runSingleOrder config context scenario).effects,
      Carries context message.2 := by
  refine forall_mem_publications fun eventDefinition hmem _ htruthy value hbuild => ?_
  refine carries_of_buildEventValue hstable (hlabel eventDefinition hmem _ ?_) hbuild
  -- a missing value is not true
  cases hvalue : eventDefinition.get? "value" with
  | some valueTemplate => simp [Dict.getD, hvalue]
  | none => simp [Dict.getD, hvalue, Json.truthy] at htruthy

end

end OrderSimulator
