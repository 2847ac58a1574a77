import DelayedOrderSms.Python.Program
import DelayedOrderSms.Simulator.OrderContext
import DelayedOrderSms.Simulator.TemplateRenderer
import DelayedOrderSms.Simulator.TimeUtils

/-!
# Running one order

`_run_single_order` walks the events of a scenario: it sleeps, pauses for a failure test, builds
or looks up the value of the event, and publishes it.  The events are dictionaries as the
scenario file has them, read with `get` where the code reads them.

A wait that is too long and a key that is no string raise, and the order ends there.  The producer
is one that sends (no dry run), and its queue has room.

* `runEvent_eq` — one pass of the loop: what it waits for, and then the one message it publishes.
-/

namespace OrderSimulator

open Python

/-- What a run does to the outside. -/
inductive Effect where
  /-- `time.sleep(millis / 1000.0)` -/
  | sleep (millis : ℤ)
  /-- the pause of a failure test -/
  | pause (step seconds : ℤ)
  /-- `self.producer.publish` -/
  | publish (key value : Json)

structure Scenario where
  scenarioName : Option String
  events : List (Dict String Json)

/-! ## The value of an event -/

/-- The body of the `try` in `_build_event_value`. -/
def applyEtaOffset (baseTime : Datetime) (resolved offset : Json) : Except Exception Json := do
  let etaOffset ← parseOffset offset
  let adjustedTime ← baseTime.add etaOffset
  resolved.setItem "expectedDeliveryTime" (.str (toIsoZ adjustedTime))

/-- `_build_event_value`; the handler catches `ValueError` and `TypeError`. -/
def buildEventValue (valueTemplate : Json) (context : OrderContext)
    (eventDefinition : Dict String Json) : Except Exception Json := do
  let rendered := renderTemplate valueTemplate context.asTemplateContext
  let resolved ← resolveDynamicTimes rendered context.baseTime
  match eventDefinition.get? "etaOffset" with
  | none => return resolved
  | some offset =>
      if ← resolved.contains "expectedDeliveryTime" then
        match applyEtaOffset context.baseTime resolved offset with
        | .ok adjusted => return adjusted
        | .error e =>
            if e.type = .valueError ∨ e.type = .typeError then return resolved else throw e
      else return resolved

/-! ## Sleeping and publishing -/

/-- `time.sleep` takes what fits in 64-bit nanoseconds; these are the most milliseconds that do, for
a delay that is divided by 1000.0. -/
def maxSleepMillis : ℤ := 9223372036854

/-- The same in seconds, for a pause. -/
def maxSleepSeconds : ℤ := 9223372036

/-- `time.sleep(adjusted_delay_ms / 1000.0)` -/
def sleep (millis : ℤ) : Program Effect Unit :=
  if millis ≤ maxSleepMillis then .emit (.sleep millis)
  else .lift (.error { type := .overflowError })

/-- `key.encode("utf-8")`: only a string has an `encode`. -/
def encodeKey (key : Json) : Except Exception Json :=
  match key with
  | .str s => .ok (.str s)
  | _ => .error { type := .attributeError }

/-- `self.producer.publish` -/
def publish (key value : Json) : Program Effect Unit := do
  let key ← .lift (encodeKey key)
  .emit (.publish key value)

/-! ## The loop -/

section

variable (config : SimulatorConfig) (context : OrderContext)

/-- The step of an event and its delay, adjusted. -/
def eventTiming (eventDefinition : Dict String Json) : Except Exception (ℤ × ℤ) := do
  let step ← (eventDefinition.getD "step" (.int 0)).toInt
  let delayMs ← (eventDefinition.getD "delayAfterPreviousEventMs" (.int 0)).toInt
  let adjustedDelayMs ← config.scaleDelay delayMs
  return (step, adjustedDelayMs)

/-- `_pause_for_failure_testing` -/
def pauseForFailureTesting (step : ℤ) : Program Effect Unit :=
  if 0 < config.pauseDurationSeconds then
    if config.pauseDurationSeconds ≤ maxSleepSeconds then
      .emit (.pause step config.pauseDurationSeconds)
    else .lift (.error { type := .overflowError })
  else pure ()

def notPublishedYet (duplicateStep : ℤ) : Exception where
  type := .valueError
  text := some ("duplicateOfStep=" ++ toString duplicateStep ++ " was not published yet for orderId="
    ++ context.orderId)

def noValue (step : ℤ) : Exception where
  type := .valueError
  text := some ("Event step=" ++ toString step ++ " must contain value or duplicateOfStep")

/-- The value of an event, and the values by step with it in them. -/
def eventValue (publishedByStep : Dict ℤ Json) (step : ℤ) (eventDefinition : Dict String Json) :
    Except Exception (Json × Dict ℤ Json) :=
  match eventDefinition.get? "duplicateOfStep" with
  | some duplicateOfStep => do
      let duplicateStep ← duplicateOfStep.toInt
      match publishedByStep.get? duplicateStep with
      | none => throw (notPublishedYet context duplicateStep)
      | some value => return (value, publishedByStep)
  | none => do
      let valueTemplate := eventDefinition.getD "value" .null
      if valueTemplate.truthy then
        let value ← buildEventValue valueTemplate context eventDefinition
        return (value, publishedByStep.set step value)
      else throw (noValue step)

/-- The key of the message of an event. -/
def messageKey (eventDefinition : Dict String Json) : Json :=
  renderTemplate (eventDefinition.getD "messageKey" (.str "{{orderId}}"))
    context.asTemplateContext

/-- What a pass of the loop does before it looks for the value. -/
def waitBefore (step adjustedDelayMs : ℤ) : Program Effect Unit := do
  if 0 < adjustedDelayMs then sleep adjustedDelayMs
  if config.pauseAfterStep ≠ 0 ∧ step = config.pauseAfterStep then
    pauseForFailureTesting config step

/-- One pass of the loop in `_run_single_order`. -/
def runEvent (publishedByStep : Dict ℤ Json) (eventDefinition : Dict String Json) :
    Program Effect (Dict ℤ Json) := do
  let (step, adjustedDelayMs) ← .lift (eventTiming config eventDefinition)
  waitBefore config step adjustedDelayMs
  let (value, publishedByStep) ← .lift (eventValue context publishedByStep step eventDefinition)
  publish (messageKey context eventDefinition) value
  return publishedByStep

def runEvents (publishedByStep : Dict ℤ Json) : List (Dict String Json) → Program Effect Unit
  | [] => pure ()
  | eventDefinition :: rest => do
      let publishedByStep ← runEvent config context publishedByStep eventDefinition
      runEvents publishedByStep rest

def noEvents (scenario : Scenario) : Exception where
  type := .valueError
  text := some ("Scenario has no events: " ++ scenario.scenarioName.getD "None")

/-- `_run_single_order` -/
def runSingleOrder (scenario : Scenario) : Program Effect Unit :=
  if scenario.events = [] then .lift (.error (noEvents scenario))
  else runEvents config context [] scenario.events

/-! ## One pass -/

/-- The waits for an event are short enough. -/
def CanWait (step adjustedDelayMs : ℤ) : Prop :=
  adjustedDelayMs ≤ maxSleepMillis ∧
    (config.pauseAfterStep ≠ 0 ∧ step = config.pauseAfterStep →
      config.pauseDurationSeconds ≤ maxSleepSeconds)

/-- What is waited for before an event is published. -/
def waits (step adjustedDelayMs : ℤ) : List Effect :=
  (if 0 < adjustedDelayMs then [.sleep adjustedDelayMs] else [])
    ++ if (config.pauseAfterStep ≠ 0 ∧ step = config.pauseAfterStep) ∧ 0 < config.pauseDurationSeconds
      then [.pause step config.pauseDurationSeconds] else []

variable {config} in
lemma waitBefore_of_canWait {step adjustedDelayMs : ℤ} (h : CanWait config step adjustedDelayMs) :
    waitBefore config step adjustedDelayMs = ⟨waits config step adjustedDelayMs, .ok ()⟩ := by
  obtain ⟨hshort, hpauseShort⟩ := h
  have hpause : (if config.pauseAfterStep ≠ 0 ∧ step = config.pauseAfterStep then
        pauseForFailureTesting config step else pure ())
      = ⟨if (config.pauseAfterStep ≠ 0 ∧ step = config.pauseAfterStep) ∧
          0 < config.pauseDurationSeconds
        then [.pause step config.pauseDurationSeconds] else [], .ok ()⟩ := by
    by_cases hstep : config.pauseAfterStep ≠ 0 ∧ step = config.pauseAfterStep
    · rw [if_pos hstep, pauseForFailureTesting, if_pos (hpauseShort hstep), Program.ite_emit]
      simp only [and_iff_right hstep]
    · simp [hstep]
  rw [waitBefore, waits, hpause, sleep, if_pos hshort]
  by_cases hdelay : 0 < adjustedDelayMs
  · rw [if_pos hdelay, if_pos hdelay, Program.emit_bind]
    rfl
  · rw [if_neg hdelay, if_neg hdelay]
    rfl

/-- A wait that is too long ends the order; before it there may have been another one. -/
lemma waitBefore_of_not_canWait {step adjustedDelayMs : ℤ}
    (h : ¬CanWait config step adjustedDelayMs) :
    waitBefore config step adjustedDelayMs = ⟨[], .error { type := .overflowError }⟩ ∨
      waitBefore config step adjustedDelayMs
        = ⟨[.sleep adjustedDelayMs], .error { type := .overflowError }⟩ := by
  have hmillis : (0 : ℤ) ≤ maxSleepMillis := by decide
  have hseconds : (0 : ℤ) ≤ maxSleepSeconds := by decide
  by_cases hshort : adjustedDelayMs ≤ maxSleepMillis
  · have hlong : (config.pauseAfterStep ≠ 0 ∧ step = config.pauseAfterStep) ∧
        ¬config.pauseDurationSeconds ≤ maxSleepSeconds := by
      rw [CanWait, not_and, Classical.not_imp] at h
      exact h hshort
    have hpositive : 0 < config.pauseDurationSeconds := hseconds.trans_lt (not_le.mp hlong.2)
    have hpause : pauseForFailureTesting config step
        = .lift (.error { type := .overflowError }) := by
      rw [pauseForFailureTesting, if_pos hpositive, if_neg hlong.2]
    rw [waitBefore, if_pos hlong.1, hpause, sleep, if_pos hshort]
    by_cases hdelay : 0 < adjustedDelayMs
    · rw [if_pos hdelay]
      exact .inr rfl
    · rw [if_neg hdelay]
      exact .inl rfl
  · have hdelay : 0 < adjustedDelayMs := hmillis.trans_lt (not_le.mp hshort)
    rw [waitBefore, sleep, if_pos hdelay, if_neg hshort]
    exact .inl rfl

/-- **One pass of the loop**: the waits of the event, and its message if it has a value and a
key. -/
theorem runEvent_eq (publishedByStep : Dict ℤ Json) (eventDefinition : Dict String Json) :
    runEvent config context publishedByStep eventDefinition =
      match eventTiming config eventDefinition with
      | .error e => ⟨[], .error e⟩
      | .ok (step, adjustedDelayMs) =>
          match waitBefore config step adjustedDelayMs with
          | ⟨waited, .error e⟩ => ⟨waited, .error e⟩
          | ⟨waited, .ok ()⟩ =>
              match eventValue context publishedByStep step eventDefinition with
              | .error e => ⟨waited, .error e⟩
              | .ok (value, publishedByStep') =>
                  match encodeKey (messageKey context eventDefinition) with
                  | .error e => ⟨waited, .error e⟩
                  | .ok key => ⟨waited ++ [.publish key value], .ok publishedByStep'⟩ := by
  rw [runEvent]
  cases htiming : eventTiming config eventDefinition with
  | error e => rfl
  | ok timing =>
      obtain ⟨step, delay⟩ := timing
      simp only [Program.lift_ok_bind]
      rcases waitBefore config step delay with ⟨waited, _ | ⟨⟩⟩
      · rfl
      · simp only [Program.bind_of_ok]
        cases hvalue : eventValue context publishedByStep step eventDefinition with
        | error e => simp
        | ok value =>
            simp only [publish]
            cases encodeKey (messageKey context eventDefinition) with
            | error e => simp
            | ok key => simp

end

end OrderSimulator
