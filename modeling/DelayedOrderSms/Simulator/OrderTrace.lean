import DelayedOrderSms.Simulator.Replay
import DelayedOrderSms.Simulator.TimeReaders

/-!
# The trace of one order

What the trace of `_run_single_order` should be, said of the scenario file alone: one message for
each event and in order, a duplicate repeating the most recent message of its step, a `ValueError`
at the first event that has no value or repeats a step without a message, and a pause for a failure
test only right after the message of its step.

The code pauses before that message, so the only traces with their pauses in the right place are
those without any (`not_pause_of_paused`): before the first pause no message of its step is out.

* `eventMessage_of_processable`, `processable_of_eventMessage` — one event.
* `followsEvents_replay_iff` — the messages of a list of events.
* `followsScenario_iff` — when the trace of an order follows its scenario.
-/

namespace OrderSimulator

open Python

/-! ## What the scenario asks for -/

/-- The value of the most recent message of a step; the messages are listed newest first. -/
def lastPublished (past : List Message) (step : ℤ) : Option Json :=
  (past.find? fun m => m.step = step).map Message.value

/-- What an event asks for: a message, or that the order ends with a `ValueError`. -/
inductive Expected where
  | message (m : Message)
  | valueError

/-- **What the scenario asks of an event**, after the messages `past`.  It asks for nothing that can
be done if the step of the event or the one it repeats is no integer, or if its value cannot be
built. -/
def expected (context : OrderContext) (past : List Message) (eventDefinition : Dict String Json) :
    Option Expected :=
  match eventDefinition.get? "duplicateOfStep" with
  | some duplicateOfStep =>
      match duplicateOfStep.toInt with
      | .error _ => none
      | .ok duplicateStep =>
          match lastPublished past duplicateStep with
          | none => some .valueError
          | some value =>
              match (eventDefinition.getD "step" (.int 0)).toInt with
              | .error _ => none
              | .ok step => some (.message ⟨step, true, messageKey context eventDefinition, value⟩)
  | none =>
      if (eventDefinition.getD "value" .null).truthy then
        match (eventDefinition.getD "step" (.int 0)).toInt,
          buildEventValue (eventDefinition.getD "value" .null) context eventDefinition with
        | .ok step, .ok value =>
            some (.message ⟨step, false, messageKey context eventDefinition, value⟩)
        | _, _ => none
      else some .valueError

/-- **The messages and the end of an order follow its events**: each event has its message, and the
first one that asks for a `ValueError` ends the order with it. -/
def FollowsEvents (context : OrderContext) (past : List Message) :
    List (Dict String Json) → List (Json × Json) → Except Exception Unit → Prop
  | [], contents, outcome => contents = [] ∧ outcome = .ok ()
  | eventDefinition :: rest, contents, outcome =>
      match expected context past eventDefinition with
      | none => False
      | some .valueError => contents = [] ∧ RaisesValueError outcome
      | some (.message m) => ∃ later, contents = m.content :: later ∧
          FollowsEvents context (m :: past) rest later outcome

/-- `holds` is true of each event that the scenario reaches, with the messages before it. -/
def AlongScenario (context : OrderContext) (holds : List Message → Dict String Json → Prop)
    (past : List Message) : List (Dict String Json) → Prop
  | [] => True
  | eventDefinition :: rest =>
      holds past eventDefinition ∧
        ∀ m, expected context past eventDefinition = some (.message m) →
          AlongScenario context holds (m :: past) rest

/-- An event of a step with a pause. -/
def PauseStep (config : SimulatorConfig) (eventDefinition : Dict String Json) : Prop :=
  ∃ delay, eventTiming config eventDefinition = .ok (config.pauseAfterStep, delay)

/-- The event that is published next after the effects `pre`, counting from the first. -/
def eventAfter (scenario : Scenario) (pre : List Effect) : Option (Dict String Json) :=
  scenario.events[(publications pre).length]?

/-- **The trace of the order follows the scenario**: the messages and the way it ends are those
its events ask for, and each pause comes right after the message of an event of its step. -/
structure FollowsScenario (config : SimulatorConfig) (context : OrderContext)
    (scenario : Scenario) : Prop where
  published : FollowsEvents context [] scenario.events
    (publications (runSingleOrder config context scenario).effects)
    (runSingleOrder config context scenario).outcome
  paused : 0 < config.pauseAfterStep → ∀ pre s d post,
    (runSingleOrder config context scenario).effects = pre ++ .pause s d :: post →
      ∃ pre' key value ev, pre = pre' ++ [.publish key value] ∧
        eventAfter scenario pre' = some ev ∧ PauseStep config ev

/-! ## What the code needs for that -/

/-- What the event repeats is found the same among all messages and among those that were built. -/
def FindsLatest (past : List Message) (eventDefinition : Dict String Json) : Prop :=
  ∀ duplicateOfStep duplicateStep,
    eventDefinition.get? "duplicateOfStep" = some duplicateOfStep →
      duplicateOfStep.toInt = .ok duplicateStep →
        lastPublished past duplicateStep = lastBuilt past duplicateStep

/-- The step and the delay of the event can be read, and its waits are short enough. -/
def Runs (config : SimulatorConfig) (eventDefinition : Dict String Json) : Prop :=
  ∃ step delay, eventTiming config eventDefinition = .ok (step, delay) ∧ CanWait config step delay

/-- **The event can be carried out.**  One with a message needs a key that is a string, and has to
find what it repeats; one that asks for a `ValueError` may also raise it while its step or its delay
is read. -/
def Processable (config : SimulatorConfig) (context : OrderContext) (past : List Message)
    (eventDefinition : Dict String Json) : Prop :=
  match expected context past eventDefinition with
  | none => False
  | some .valueError =>
      Runs config eventDefinition ∨ RaisesValueError (eventTiming config eventDefinition)
  | some (.message _) => Runs config eventDefinition ∧
      (∃ s, messageKey context eventDefinition = .str s) ∧ FindsLatest past eventDefinition

/-- A pause is configured. -/
def Pausing (config : SimulatorConfig) : Prop :=
  config.pauseAfterStep ≠ 0 ∧ 0 < config.pauseDurationSeconds

/-- The scenario reaches no event of a step with a pause. -/
def NoPauseDue (config : SimulatorConfig) (context : OrderContext)
    (events : List (Dict String Json)) : Prop :=
  AlongScenario context (fun _ eventDefinition => ¬PauseStep config eventDefinition) [] events

section

variable {config : SimulatorConfig} {context : OrderContext} {past : List Message}
  {eventDefinition : Dict String Json} {m : Message}

/-! ## One event -/

/-- A step without a message has none that was built. -/
lemma lastBuilt_eq_none {step : ℤ} (h : lastPublished past step = none) :
    lastBuilt past step = none := by
  rw [lastPublished, Option.map_eq_none_iff, List.find?_eq_none] at h
  rw [lastBuilt, Option.map_eq_none_iff, List.find?_eq_none]
  intro m hm hfound
  simp only [decide_eq_true_eq] at hfound
  exact h m hm (by simpa using hfound.1)

/-- Where a message is expected, it is of the step and with the key of the event, and the code
computes its value if it finds what the event repeats. -/
lemma of_expected_message (h : expected context past eventDefinition = some (.message m)) :
    (eventDefinition.getD "step" (.int 0)).toInt = .ok m.step ∧
      m.key = messageKey context eventDefinition ∧
      ((∃ duplicateOfStep duplicateStep, m.duplicate = true ∧
          eventDefinition.get? "duplicateOfStep" = some duplicateOfStep ∧
          duplicateOfStep.toInt = .ok duplicateStep ∧
          lastPublished past duplicateStep = some m.value) ∨
        m.duplicate = false ∧ eventDefinition.get? "duplicateOfStep" = none ∧
          (eventDefinition.getD "value" .null).truthy = true ∧
          buildEventValue (eventDefinition.getD "value" .null) context eventDefinition
            = .ok m.value) := by
  unfold expected at h
  split at h
  · next dup hdup =>
      split at h
      · cases h
      · next j hj =>
          split at h
          · cases h
          · next value hvalue =>
              split at h
              · cases h
              · next step hstep =>
                  cases h
                  exact ⟨hstep, rfl, .inl ⟨dup, j, rfl, hdup, hj, hvalue⟩⟩
  · next hdup =>
      split_ifs at h with htruthy
      · split at h
        · next step value hstep hbuild =>
            cases h
            exact ⟨hstep, rfl, .inr ⟨rfl, hdup, htruthy, hbuild⟩⟩
        · cases h
      · cases h

lemma messageValue_of_expected (h : expected context past eventDefinition = some (.message m))
    (hfinds : FindsLatest past eventDefinition) (step : ℤ) :
    messageValue context past step eventDefinition = .ok (m.duplicate, m.value) := by
  obtain ⟨_, _, ⟨dup, j, hduplicate, hdup, hj, hlast⟩ | ⟨hduplicate, hdup, htruthy, hbuild⟩⟩ :=
    of_expected_message h
  · rw [hfinds dup j hdup hj] at hlast
    simp only [messageValue, hdup, hj, ok_bind, hlast, hduplicate]
    rfl
  · simp only [messageValue, hdup, htruthy, if_true, hbuild, hduplicate]
    rfl

/-- Where a `ValueError` is expected, looking for the value raises it. -/
lemma raises_of_expected_valueError (h : expected context past eventDefinition = some .valueError)
    (step : ℤ) : RaisesValueError (messageValue context past step eventDefinition) := by
  unfold expected at h
  split at h
  · next dup hdup =>
      split at h
      · cases h
      · next j hj =>
          split at h
          · next hlast =>
              refine ⟨notPublishedYet context j, ?_, rfl⟩
              simp only [messageValue, hdup, hj, ok_bind, lastBuilt_eq_none hlast]
              rfl
          · split at h
            · cases h
            · cases h
  · next hdup =>
      split_ifs at h with htruthy
      · split at h
        · cases h
        · cases h
      · refine ⟨noValue step, ?_, rfl⟩
        simp only [messageValue, hdup, htruthy]
        rfl

/-- Its step and its delay. -/
lemma step_of_eventTiming {step delay : ℤ}
    (h : eventTiming config eventDefinition = .ok (step, delay)) :
    (eventDefinition.getD "step" (.int 0)).toInt = .ok step := by
  obtain ⟨step', hstep, h⟩ := bind_eq_ok_iff.mp h
  obtain ⟨_, _, h⟩ := bind_eq_ok_iff.mp h
  obtain ⟨_, _, h⟩ := bind_eq_ok_iff.mp h
  cases h
  exact hstep

/-- An event on which a `ValueError` is expected has no message, and raises it exactly if the code
can carry it out. -/
lemma processable_iff_of_valueError
    (h : expected context past eventDefinition = some .valueError) :
    (∀ m, eventMessage config context past eventDefinition ≠ .ok m) ∧
      (Processable config context past eventDefinition
        ↔ RaisesValueError (eventMessage config context past eventDefinition)) := by
  constructor
  · intro m hm
    obtain ⟨e, he, _⟩ := raises_of_expected_valueError h m.step
    rw [(eventMessage_eq_ok_iff.mp hm).2.1] at he
    cases he
  rw [Processable, h]
  cases ht : eventTiming config eventDefinition with
  | error e =>
      have hmessage : eventMessage config context past eventDefinition = .error e := by
        rw [eventMessage, ht, error_bind]
      simp [Runs, ht, hmessage, RaisesValueError]
  | ok timing =>
      obtain ⟨step, delay⟩ := timing
      by_cases hwait : CanWait config step delay
      · obtain ⟨e, he, htype⟩ := raises_of_expected_valueError h step
        have hmessage : eventMessage config context past eventDefinition = .error e := by
          simp only [eventMessage, ht, ok_bind, waitBefore_of_canWait hwait, he, error_bind]
        exact iff_of_true (.inl ⟨step, delay, ht, hwait⟩) ⟨e, hmessage, htype⟩
      · have hmessage : eventMessage config context past eventDefinition
            = .error { type := .overflowError } := by
          rcases waitBefore_of_not_canWait config hwait with hw | hw <;>
            simp only [eventMessage, ht, ok_bind, hw, error_bind]
        simp [Runs, ht, hwait, hmessage, RaisesValueError]

/-- **An event that can be carried out** has the message that is expected, or raises as expected. -/
lemma eventMessage_of_processable (h : Processable config context past eventDefinition) :
    (∃ m, expected context past eventDefinition = some (.message m) ∧
        eventMessage config context past eventDefinition = .ok m) ∨
      expected context past eventDefinition = some .valueError ∧
        RaisesValueError (eventMessage config context past eventDefinition) := by
  cases hexpected : expected context past eventDefinition with
  | none =>
      rw [Processable, hexpected] at h
      exact h.elim
  | some asked =>
      cases asked with
      | valueError => exact .inr ⟨rfl, (processable_iff_of_valueError hexpected).2.mp h⟩
      | message m =>
          rw [Processable, hexpected] at h
          obtain ⟨⟨step, delay, ht, hwait⟩, hkey, hfinds⟩ := h
          obtain ⟨hstep, hmkey, _⟩ := of_expected_message hexpected
          obtain rfl : step = m.step := Except.ok.inj ((step_of_eventTiming ht).symm.trans hstep)
          exact .inl ⟨m, rfl, eventMessage_eq_ok_iff.mpr ⟨⟨delay, ht, hwait⟩,
            messageValue_of_expected hexpected hfinds _, hmkey.symm, hkey⟩⟩

/-- **An event with the message that is expected** can be carried out. -/
lemma processable_of_eventMessage {m' : Message}
    (hexpected : expected context past eventDefinition = some (.message m))
    (h : eventMessage config context past eventDefinition = .ok m') (hcontent : m'.content = m.content) :
    Processable config context past eventDefinition := by
  obtain ⟨⟨delay, ht, hwait⟩, hvalue, _, hkey⟩ := eventMessage_eq_ok_iff.mp h
  rw [Processable, hexpected]
  refine ⟨⟨m'.step, delay, ht, hwait⟩, hkey, ?_⟩
  intro dup j hdup hj
  obtain ⟨_, _, ⟨dup', j', _, hdup', hj', hlast⟩ | ⟨_, hnone, _⟩⟩ := of_expected_message hexpected
  · rw [hdup] at hdup'
    cases hdup'
    rw [hj] at hj'
    cases hj'
    rw [hlast]
    simp only [messageValue, hdup, hj, ok_bind] at hvalue
    cases hbuilt : lastBuilt past j with
    | none =>
        rw [hbuilt] at hvalue
        cases hvalue
    | some value =>
        simp only [hbuilt] at hvalue
        have hfound : value = m'.value := congrArg Prod.snd (Except.ok.inj hvalue)
        have hsame : m'.value = m.value := congrArg Prod.snd hcontent
        rw [hfound, hsame]
  · rw [hdup] at hnone
    cases hnone

/-! ## The messages of a list of events -/

/-- **When the messages follow the events**: exactly if each event that is reached can be carried
out. -/
theorem followsEvents_replay_iff (past : List Message) (events : List (Dict String Json)) :
    FollowsEvents context past events ((replay config context past events).1.map Message.content)
        (replay config context past events).2
      ↔ AlongScenario context (Processable config context) past events := by
  induction events generalizing past with
  | nil => simp [FollowsEvents, replay, AlongScenario]
  | cons ev rest ih =>
      rw [FollowsEvents, AlongScenario]
      constructor
      · intro h
        cases hexpected : expected context past ev with
        | none =>
            rw [hexpected] at h
            exact h.elim
        | some asked =>
            cases asked with
            | valueError =>
                obtain ⟨hnone, hiff⟩ := @processable_iff_of_valueError config _ _ _ hexpected
                rw [hexpected] at h
                refine ⟨hiff.mpr ?_, fun m hm => by cases hm⟩
                cases hmessage : eventMessage config context past ev with
                | error e =>
                    simp only [replay, hmessage] at h
                    obtain ⟨_, e', he, htype⟩ := h
                    cases he
                    exact ⟨e, rfl, htype⟩
                | ok m => exact absurd hmessage (hnone m)
            | message m =>
                simp only [hexpected] at h
                obtain ⟨later, hcontents, hlater⟩ := h
                cases hmessage : eventMessage config context past ev with
                | error e => simp [replay, hmessage] at hcontents
                | ok m' =>
                    simp only [replay, hmessage, List.map_cons, List.cons.injEq] at hcontents hlater
                    have hp := processable_of_eventMessage hexpected hmessage hcontents.1
                    rcases eventMessage_of_processable hp with ⟨m₁, hm₁, hok⟩ | ⟨herror, _⟩
                    · rw [hexpected] at hm₁
                      cases hm₁
                      rw [hmessage] at hok
                      cases hok
                      refine ⟨hp, ?_⟩
                      intro m₂ hm₂
                      cases hm₂
                      exact (ih (m :: past)).mp (hcontents.2 ▸ hlater)
                    · rw [hexpected] at herror
                      cases herror
      · rintro ⟨hp, hrest⟩
        rcases eventMessage_of_processable hp with ⟨m, hexpected, hmessage⟩ | ⟨hexpected, hraises⟩
        · simp only [hexpected, replay, hmessage]
          exact ⟨_, rfl, (ih (m :: past)).mpr (hrest m hexpected)⟩
        · obtain ⟨e, hmessage, htype⟩ := hraises
          simp only [hexpected, replay, hmessage]
          exact ⟨rfl, e, rfl, htype⟩

/-! ## Pauses -/

lemma exists_pause_mem_waits_iff {step delay : ℤ} :
    (∃ s d, Effect.pause s d ∈ waits config step delay)
      ↔ Pausing config ∧ step = config.pauseAfterStep := by
  simp only [waits, Pausing, List.mem_append, List.mem_ite_nil_right, List.mem_singleton,
    reduceCtorEq, and_false, false_or, Effect.pause.injEq]
  constructor
  · rintro ⟨s, d, ⟨⟨hafter, hstep⟩, hduration⟩, _⟩
    exact ⟨⟨hafter, hduration⟩, hstep⟩
  · rintro ⟨⟨hafter, hduration⟩, hstep⟩
    exact ⟨step, config.pauseDurationSeconds, ⟨⟨hafter, hstep⟩, hduration⟩, rfl, rfl⟩

/-- Only an event of the step has a pause among its waits, and only if one is configured. -/
lemma of_pause_mem_waited {s d : ℤ} (h : Effect.pause s d ∈ waited config eventDefinition) :
    Pausing config ∧ PauseStep config eventDefinition := by
  rw [waited] at h
  cases ht : eventTiming config eventDefinition with
  | error e => simp [ht] at h
  | ok timing =>
      obtain ⟨step, delay⟩ := timing
      simp only [ht] at h
      by_cases hwait : CanWait config step delay
      · rw [waitBefore_of_canWait hwait] at h
        obtain ⟨hp, rfl⟩ := exists_pause_mem_waits_iff.mp ⟨s, d, h⟩
        exact ⟨hp, delay, ht⟩
      · rcases waitBefore_of_not_canWait config hwait with hw | hw <;> simp [hw] at h

/-- It has one if its waits are short enough. -/
lemma exists_pause_mem_waited (hp : Pausing config) (h : Runs config eventDefinition)
    (hstep : PauseStep config eventDefinition) :
    ∃ s d, Effect.pause s d ∈ waited config eventDefinition := by
  obtain ⟨step, delay, ht, hwait⟩ := h
  obtain ⟨delay', ht'⟩ := hstep
  rw [ht] at ht'
  cases ht'
  rw [waited_of_timing ht hwait]
  exact exists_pause_mem_waits_iff.mpr ⟨hp, rfl⟩

lemma exists_pause_mem_waited_iff (hp : Pausing config)
    (h : Processable config context past eventDefinition) :
    (∃ s d, Effect.pause s d ∈ waited config eventDefinition) ↔ PauseStep config eventDefinition := by
  refine ⟨fun ⟨s, d, hmem⟩ => (of_pause_mem_waited hmem).2, fun hstep => ?_⟩
  have hruns : Runs config eventDefinition := by
    unfold Processable at h
    split at h
    · exact h.elim
    · rcases h with hruns | ⟨e, he, _⟩
      · exact hruns
      · obtain ⟨delay, ht⟩ := hstep
        rw [ht] at he
        cases he
    · exact h.1
  exact exists_pause_mem_waited hp hruns hstep

/-- **When the loop pauses**: at the events of the step that it reaches. -/
lemma exists_pause_mem_runEvents_iff (hp : Pausing config) {publishedByStep : Dict ℤ Json}
    {events : List (Dict String Json)} (h : Records publishedByStep past)
    (hprocessable : AlongScenario context (Processable config context) past events) :
    (∃ s d, Effect.pause s d ∈ (runEvents config context publishedByStep events).effects)
      ↔ ¬AlongScenario context (fun _ ev => ¬PauseStep config ev) past events := by
  induction events generalizing publishedByStep past with
  | nil => simp [runEvents, AlongScenario]
  | cons ev rest ih =>
      obtain ⟨hev, hrest⟩ := hprocessable
      have hwaits := exists_pause_mem_waited_iff hp hev
      rw [runEvents, AlongScenario, runEvent_of_records h]
      rcases eventMessage_of_processable hev with ⟨m, hexpected, hmessage⟩ | ⟨hexpected, e, hmessage, _⟩
      · have htail := ih (h.next m) (hrest m hexpected)
        rw [hmessage, hexpected]
        simp only [Option.some.injEq, Expected.message.injEq, forall_eq']
        rw [not_and_or, not_not, ← hwaits, ← htail]
        simp [exists_or]
      · rw [hmessage, hexpected]
        simp [hwaits]

/-- A part of the trace with a message in it contains the waits before the first message. -/
lemma exists_eq_of_published {silent tail pre post : List Effect} {key value : Json}
    (hsilent : publications silent = []) (h : silent ++ .publish key value :: tail = pre ++ post)
    (hpre : publications pre ≠ []) :
    ∃ pre', pre = silent ++ .publish key value :: pre' ∧ tail = pre' ++ post := by
  rcases List.append_eq_append_iff.mp h with ⟨rest, hrest, htail⟩ | ⟨rest, hrest, _⟩
  · cases rest with
    | nil =>
        rw [hrest, List.append_nil] at hpre
        exact absurd hsilent hpre
    | cons effect pre' =>
        rw [List.cons_append, List.cons.injEq] at htail
        exact ⟨pre', by rw [hrest, htail.1], htail.2⟩
  · rw [hrest, publications_append, List.append_eq_nil_iff] at hsilent
    exact absurd hsilent.1 hpre

/-- **The message of a step comes after its pause.** -/
lemma exists_pause_mem_of_published (hp : Pausing config) {publishedByStep : Dict ℤ Json}
    (hrecords : Records publishedByStep past) {events : List (Dict String Json)}
    {pre post : List Effect} {i : ℕ} {ev : Dict String Json}
    (h : (runEvents config context publishedByStep events).effects = pre ++ post)
    (hi : i < (publications pre).length) (hev : events[i]? = some ev)
    (hstep : PauseStep config ev) : ∃ s d, Effect.pause s d ∈ pre := by
  induction events generalizing publishedByStep past pre i with
  | nil => simp at hev
  | cons ev' rest ih =>
      have hpre : publications pre ≠ [] := by
        intro hnil
        simp [hnil] at hi
      rw [runEvents, runEvent_of_records hrecords] at h
      cases hmessage : eventMessage config context past ev' with
      | error e =>
          have hpub := @publications_waited config ev'
          simp only [hmessage, Program.bind_of_error] at h
          rw [h, publications_append, List.append_eq_nil_iff] at hpub
          exact absurd hpub.1 hpre
      | ok m =>
          simp only [hmessage, Program.bind_of_ok, List.append_assoc, List.singleton_append] at h
          obtain ⟨pre', rfl, htail⟩ := exists_eq_of_published (publications_waited ev') h hpre
          cases i with
          | zero =>
              simp only [List.getElem?_cons_zero, Option.some.injEq] at hev
              subst hev
              obtain ⟨⟨delay, ht, hwait⟩, _⟩ := eventMessage_eq_ok_iff.mp hmessage
              obtain ⟨s, d, hmem⟩ := exists_pause_mem_waited hp ⟨m.step, delay, ht, hwait⟩ hstep
              exact ⟨s, d, List.mem_append_left _ hmem⟩
          | succ i =>
              rw [List.getElem?_cons_succ] at hev
              have hi' : i < (publications pre').length := by
                simpa using hi
              obtain ⟨s, d, hmem⟩ := ih (hrecords.next m) htail hi' hev
              exact ⟨s, d, by simp [hmem]⟩

/-- Without a pause configured there is none. -/
lemma pausing_of_mem_runEvents {publishedByStep : Dict ℤ Json} (hrecords : Records publishedByStep past)
    {events : List (Dict String Json)} {s d : ℤ}
    (h : Effect.pause s d ∈ (runEvents config context publishedByStep events).effects) :
    Pausing config := by
  induction events generalizing publishedByStep past with
  | nil => simp [runEvents] at h
  | cons ev rest ih =>
      rw [runEvents, runEvent_of_records hrecords] at h
      cases hmessage : eventMessage config context past ev with
      | error e =>
          simp only [hmessage, Program.bind_of_error] at h
          exact (of_pause_mem_waited h).1
      | ok m =>
          simp only [hmessage, Program.bind_of_ok, List.mem_append, List.mem_singleton, reduceCtorEq,
            or_false] at h
          exact h.elim (fun hmem => (of_pause_mem_waited hmem).1) (ih (hrecords.next m))

/-! ## The order -/

/-- The pauses are not right after the messages of their step, if there are any. -/
lemma not_pause_of_paused (hp : Pausing config) {scenario : Scenario} {effects : List Effect}
    (heffects : (runEvents config context [] scenario.events).effects = effects)
    (hpaused : ∀ pre s d post, effects = pre ++ .pause s d :: post →
      ∃ pre' key value ev, pre = pre' ++ [.publish key value] ∧
        eventAfter scenario pre' = some ev ∧ PauseStep config ev) :
    ∀ s d, Effect.pause s d ∉ effects := by
  have hrecords : Records [] [] := fun _ => rfl
  -- each pause has one before it
  have hdescent : ∀ n, ∀ pre s d post, effects = pre ++ .pause s d :: post → pre.length ≠ n := by
    intro n
    induction n using Nat.strong_induction_on with
    | _ n ih =>
        intro pre s d post heq hlength
        obtain ⟨pre', key, value, ev, rfl, hev, hstep⟩ := hpaused pre s d post heq
        have hi : (publications pre').length
            < (publications (pre' ++ [Effect.publish key value])).length := by
          simp [publications]
        obtain ⟨s', d', hmem⟩ :=
          exists_pause_mem_of_published hp hrecords (heffects.trans heq) hi hev hstep
        obtain ⟨first, second, hsplit⟩ := List.append_of_mem hmem
        refine ih first.length ?_ first s' d' (second ++ .pause s d :: post) ?_ rfl
        · rw [← hlength, hsplit]
          simp
        · rw [heq, hsplit]
          simp
  intro s d hmem
  obtain ⟨pre, post, hsplit⟩ := List.append_of_mem hmem
  exact hdescent _ pre s d post hsplit rfl

/-- **When the trace follows the scenario**: if it has an event, each event that is reached can be
carried out, and none of a step with a pause is reached. -/
theorem followsScenario_iff (config : SimulatorConfig) (context : OrderContext)
    (scenario : Scenario) :
    FollowsScenario config context scenario ↔
      scenario.events ≠ [] ∧
        AlongScenario context (Processable config context) [] scenario.events ∧
        (0 < config.pauseAfterStep → 0 < config.pauseDurationSeconds →
          NoPauseDue config context scenario.events) := by
  by_cases hevents : scenario.events = []
  · have hrun : runSingleOrder config context scenario = ⟨[], .error (noEvents scenario)⟩ :=
      if_pos hevents
    refine iff_of_false (fun h => ?_) fun h => h.1 hevents
    have hpublished := h.published
    rw [hrun, hevents] at hpublished
    cases hpublished.2
  have hrecords : Records [] [] := fun step => rfl
  have hrun : runSingleOrder config context scenario = runEvents config context [] scenario.events :=
    if_neg hevents
  obtain ⟨hpub, hout⟩ : publications (runEvents config context [] scenario.events).effects = _ ∧ _ :=
    runEvents_replays hrecords scenario.events
  have hfollows := @followsEvents_replay_iff config context [] scenario.events
  rw [← hpub, ← hout, ← hrun] at hfollows
  constructor
  · rintro ⟨hpublished, hpaused⟩
    have hprocessable := hfollows.mp hpublished
    rw [hrun] at hpaused
    refine ⟨hevents, hprocessable, ?_⟩
    intro hafter hduration
    have hp : Pausing config := ⟨hafter.ne', hduration⟩
    by_contra hdue
    obtain ⟨s, d, hmem⟩ := (exists_pause_mem_runEvents_iff hp hrecords hprocessable).mpr hdue
    exact not_pause_of_paused hp rfl (hpaused hafter) s d hmem
  · rintro ⟨-, hprocessable, hdue⟩
    refine ⟨hfollows.mpr hprocessable, ?_⟩
    intro hafter pre s d post heq
    rw [hrun] at heq
    have hmem : Effect.pause s d ∈ (runEvents config context [] scenario.events).effects := by
      rw [heq]
      simp
    have hp := pausing_of_mem_runEvents hrecords hmem
    have hpauses := (exists_pause_mem_runEvents_iff hp hrecords hprocessable).mp ⟨s, d, hmem⟩
    exact absurd (hdue hafter hp.2) hpauses

/-- An order of which the third event repeats the second, which repeats the first. -/
def chained : Scenario where
  scenarioName := some "chained-duplicates"
  events :=
    [[("step", .int 1), ("value", .dict [("status", .str "CREATED")])],
      [("step", .int 2), ("duplicateOfStep", .int 1)],
      [("step", .int 3), ("duplicateOfStep", .int 2)]]

/-- The configuration of a run without pauses. -/
def unpaused : SimulatorConfig where
  scenario := "chained-duplicates"
  ordersCount := 1
  orderIdPrefix := "ord"
  scaleDelay := .ok
  pauseAfterStep := 0
  pauseDurationSeconds := 0

def firstOrder : OrderContext := createOrderContext unpaused noon 1 "chained-duplicates"

/-- The third message is not published: the second one was not recorded. -/
theorem not_followsScenario_chained : ¬FollowsScenario unpaused firstOrder chained := by
  intro h
  have htwo : (publications (runSingleOrder unpaused firstOrder chained).effects).length = 2 := by
    decide
  obtain ⟨afterFirst, hfirst, afterSecond, hsecond, afterThird, hthird, _⟩ := h.published
  rw [hfirst, hsecond, hthird] at htwo
  simp only [List.length_cons] at htwo
  omega

end

end OrderSimulator
