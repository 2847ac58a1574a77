import DelayedOrderSms.Simulator.Runner

/-!
# Replaying a scenario

What the code makes of a scenario without the waits and the table of values: each event becomes one
message, and an event that duplicates a step repeats the value found in the messages before it.

* `lastBuilt` — what is found: the most recent message of the step that was no duplicate itself.
* `eventMessage_eq_ok_iff` — what the message of an event needs.
* `runEvents_replays` — the loop of the code replays the scenario.
-/

namespace OrderSimulator

open Python

/-- A published message, with the step of its event and whether it repeats another one. -/
structure Message where
  step : ℤ
  duplicate : Bool
  key : Json
  value : Json

/-- What is published of a message. -/
def Message.content (m : Message) : Json × Json := (m.key, m.value)

/-- The value of the most recent message of a step among those that repeat no other; the messages
are listed newest first. -/
def lastBuilt (past : List Message) (step : ℤ) : Option Json :=
  (past.find? fun m => m.step = step ∧ m.duplicate = false).map Message.value

section

variable (config : SimulatorConfig) (context : OrderContext)

/-- The value of the message of an event, and whether it repeats another one. -/
def messageValue (past : List Message) (step : ℤ) (eventDefinition : Dict String Json) :
    Except Exception (Bool × Json) :=
  match eventDefinition.get? "duplicateOfStep" with
  | some duplicateOfStep => do
      let duplicateStep ← duplicateOfStep.toInt
      match lastBuilt past duplicateStep with
      | none => throw (notPublishedYet context duplicateStep)
      | some value => return (true, value)
  | none => do
      let valueTemplate := eventDefinition.getD "value" .null
      if valueTemplate.truthy then
        let value ← buildEventValue valueTemplate context eventDefinition
        return (false, value)
      else throw (noValue step)

/-- The message of an event, after the messages `past`. -/
def eventMessage (past : List Message) (eventDefinition : Dict String Json) :
    Except Exception Message := do
  let (step, adjustedDelayMs) ← eventTiming config eventDefinition
  (waitBefore config step adjustedDelayMs).outcome
  let (duplicate, value) ← messageValue context past step eventDefinition
  let key ← encodeKey (messageKey context eventDefinition)
  return ⟨step, duplicate, key, value⟩

/-- The messages of the events and how the order ends, after the messages `past`. -/
def replay (past : List Message) : List (Dict String Json) → List Message × Except Exception Unit
  | [] => ([], .ok ())
  | eventDefinition :: rest =>
      match eventMessage config context past eventDefinition with
      | .error e => ([], .error e)
      | .ok m => (m :: (replay (m :: past) rest).1, (replay (m :: past) rest).2)

variable {config context} {eventDefinition : Dict String Json} {past : List Message}

/-! ## Messages -/

lemma encodeKey_eq_ok_iff {key key' : Json} :
    encodeKey key = .ok key' ↔ key = key' ∧ ∃ s, key = .str s := by
  cases key <;> simp [encodeKey, eq_comm]

lemma waitBefore_outcome_eq_ok_iff {step delay : ℤ} :
    (waitBefore config step delay).outcome = .ok () ↔ CanWait config step delay := by
  by_cases hwait : CanWait config step delay
  · simp [waitBefore_of_canWait hwait, hwait]
  · rcases waitBefore_of_not_canWait config hwait with h | h <;> simp [h, hwait]

/-- **What the message of an event needs**: a step, short waits, a value and a key. -/
lemma eventMessage_eq_ok_iff {m : Message} :
    eventMessage config context past eventDefinition = .ok m ↔
      (∃ delay, eventTiming config eventDefinition = .ok (m.step, delay) ∧
          CanWait config m.step delay) ∧
        messageValue context past m.step eventDefinition = .ok (m.duplicate, m.value) ∧
        messageKey context eventDefinition = m.key ∧
          ∃ s, messageKey context eventDefinition = .str s := by
  simp only [eventMessage, bind_eq_ok_iff, encodeKey_eq_ok_iff]
  constructor
  · rintro ⟨⟨step, delay⟩, ht, ⟨⟩, hwait, ⟨duplicate, value⟩, hvalue, key, hkey, h⟩
    cases h
    exact ⟨⟨delay, ht, waitBefore_outcome_eq_ok_iff.mp hwait⟩, hvalue, hkey⟩
  · rintro ⟨⟨delay, ht, hwait⟩, hvalue, hkey⟩
    exact ⟨(m.step, delay), ht, (), waitBefore_outcome_eq_ok_iff.mpr hwait, _, hvalue, m.key, hkey,
      rfl⟩

/-! ## The loop of the code -/

/-- The table of values holds, for each step, what was built last for it. -/
def Records (publishedByStep : Dict ℤ Json) (past : List Message) : Prop :=
  ∀ step, publishedByStep.get? step = lastBuilt past step

lemma Records.next {publishedByStep : Dict ℤ Json} (h : Records publishedByStep past)
    (m : Message) :
    Records (if m.duplicate then publishedByStep else publishedByStep.set m.step m.value)
      (m :: past) := by
  intro step
  have hstep := h step
  rw [lastBuilt] at hstep ⊢
  by_cases hdup : m.duplicate = true
  · simp [hdup, hstep]
  · by_cases hs : m.step = step
    · subst hs
      simp [hdup, Dict.get?_set]
    · simp [hdup, hs, Dict.get?_set, hstep]

/-- **A pass of the loop looks for the value of the message** in the table of values. -/
lemma eventValue_eq {publishedByStep : Dict ℤ Json} (h : Records publishedByStep past) (step : ℤ) :
    eventValue context publishedByStep step eventDefinition
      = (messageValue context past step eventDefinition).map fun found =>
          (found.2, if found.1 then publishedByStep else publishedByStep.set step found.2) := by
  rw [eventValue, messageValue]
  cases hdup : eventDefinition.get? "duplicateOfStep" with
  | some dup =>
      cases hj : dup.toInt with
      | error e => simp [hj, Except.map]
      | ok j =>
          have hfound := h j
          cases hlast : lastBuilt past j with
          | none =>
              simp [hj, hfound, hlast, Except.map, throw, throwThe, MonadExceptOf.throw]
          | some value => simp [hj, hfound, hlast, Except.map, pure, Except.pure]
  | none =>
      by_cases htruthy : (eventDefinition.getD "value" .null).truthy
      · cases hbuild : buildEventValue (eventDefinition.getD "value" .null) context
          eventDefinition with
        | error e => simp [htruthy, hbuild, Except.map]
        | ok value => simp [htruthy, hbuild, Except.map, pure, Except.pure]
      · simp [htruthy, Except.map, throw, throwThe, MonadExceptOf.throw]

/-- The messages among the effects. -/
def publications (effects : List Effect) : List (Json × Json) :=
  effects.filterMap fun effect =>
    match effect with
    | .publish key value => some (key, value)
    | _ => none

@[simp] lemma publications_append (effects effects' : List Effect) :
    publications (effects ++ effects') = publications effects ++ publications effects' :=
  List.filterMap_append

@[simp] lemma publications_publish (key value : Json) (effects : List Effect) :
    publications (.publish key value :: effects) = (key, value) :: publications effects := rfl

@[simp] lemma publications_waits (step delay : ℤ) : publications (waits config step delay) = [] := by
  rw [waits]
  split_ifs <;> rfl

@[simp] lemma publications_waitBefore (step delay : ℤ) :
    publications (waitBefore config step delay).effects = [] := by
  by_cases hwait : CanWait config step delay
  · rw [waitBefore_of_canWait hwait, publications_waits]
  · rcases waitBefore_of_not_canWait config hwait with h | h
    · rw [h]
      rfl
    · rw [h]
      rfl

/-- The waits of an event, as far as they go. -/
def waited (config : SimulatorConfig) (eventDefinition : Dict String Json) : List Effect :=
  match eventTiming config eventDefinition with
  | .ok (step, delay) => (waitBefore config step delay).effects
  | .error _ => []

@[simp] lemma publications_waited (eventDefinition : Dict String Json) :
    publications (waited config eventDefinition) = [] := by
  rw [waited]
  cases eventTiming config eventDefinition with
  | error e => rfl
  | ok timing => exact publications_waitBefore timing.1 timing.2

/-- The waits of an event that has a message go all the way. -/
lemma waited_of_timing {step delay : ℤ} (ht : eventTiming config eventDefinition = .ok (step, delay))
    (hwait : CanWait config step delay) : waited config eventDefinition = waits config step delay := by
  simp only [waited, ht, waitBefore_of_canWait hwait]

/-- One pass is the waits of the event and its message, if it has one. -/
lemma runEvent_of_records {publishedByStep : Dict ℤ Json} (h : Records publishedByStep past)
    (eventDefinition : Dict String Json) :
    runEvent config context publishedByStep eventDefinition =
      match eventMessage config context past eventDefinition with
      | .error e => ⟨waited config eventDefinition, .error e⟩
      | .ok m => ⟨waited config eventDefinition ++ [.publish m.key m.value],
          .ok (if m.duplicate then publishedByStep else publishedByStep.set m.step m.value)⟩ := by
  rw [runEvent_eq, eventMessage, waited]
  cases ht : eventTiming config eventDefinition with
  | error e => rfl
  | ok timing =>
      obtain ⟨step, delay⟩ := timing
      simp only [ok_bind, eventValue_eq h]
      rcases waitBefore config step delay with ⟨effects, _ | ⟨⟩⟩
      · rfl
      · cases messageValue context past step eventDefinition with
        | error e => rfl
        | ok found =>
            cases encodeKey (messageKey context eventDefinition) with
            | error e => rfl
            | ok key => rfl

/-- **The loop of the code replays the scenario**, and repeats what was built last for a step. -/
theorem runEvents_replays {publishedByStep : Dict ℤ Json} (h : Records publishedByStep past)
    (events : List (Dict String Json)) :
    publications (runEvents config context publishedByStep events).effects
        = (replay config context past events).1.map Message.content ∧
      (runEvents config context publishedByStep events).outcome
        = (replay config context past events).2 := by
  induction events generalizing publishedByStep past with
  | nil => exact ⟨rfl, rfl⟩
  | cons ev rest ih =>
      rw [runEvents, replay, runEvent_of_records h]
      cases hm : eventMessage config context past ev with
      | error e => simp
      | ok m =>
          obtain ⟨hpub, hout⟩ := ih (h.next m)
          simp [hpub, hout, Message.content]

end

end OrderSimulator
