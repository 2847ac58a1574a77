import DelayedOrderSms.EndToEnd.Decision

/-!
# What the scenario files expect

Each scenario file with events says whether a command is expected for its orders.  The files plan
what they say, so the job emits what they expect.

* `PlansAsExpected` — the events of a file agree with its field `smsCommandExpected`.
* `plansAsExpected_of_expected` — those of all files do, for thirty seconds after the base time.
* `sms_as_expected` — what the job emits for an order of the files.
-/

namespace EndToEnd

open Python Java Flink Systems OrderSimulator DelayedOrderSms

/-- How long the files leave the job to process an order, in milliseconds: the nearest delivery
time ahead is thirty seconds from the base time, that of the cancelled orders. -/
def processingWindow : ℤ := 30000

instance : DecidablePred Finishes := fun plan =>
  inferInstanceAs (Decidable (∀ p ∈ newest Document.lastUpdatedAt none plan, _))

instance (window : ℤ) : DecidablePred (ClearFor window) := fun plan =>
  decidable_of_iff (0 < window ∧ ∀ p ∈ plan, p.status.isTerminal = false →
      p.expectedDeliveryTime ≤ 0 ∨ window * 1000 ≤ p.expectedDeliveryTime)
    ⟨fun h => ⟨h.1, h.2⟩, fun h => ⟨h.pos, h.apart⟩⟩

/-- A command is expected for the orders of the scenario. -/
def smsExpected (scenario : String) : Bool := smsCommandExpected.get? scenario = some true

/-- **The events plan what is expected**: where no command is, the order ends up finished. -/
def PlansAsExpected (events : List (Dict String Json)) (expected : Bool) : Prop :=
  ∃ plan ∈ planEvents [] events, ClearFor processingWindow plan ∧
    (ExpectsSms plan ↔ expected = true) ∧ (expected = true ∨ Finishes plan)

instance (events : List (Dict String Json)) : DecidablePred (PlansAsExpected events) := fun _ =>
  inferInstanceAs (Decidable (∃ plan ∈ planEvents [] events, _))

/-- **The files agree with what they say of their result.** -/
theorem plansAsExpected_of_mem : ∀ entry ∈ scenarioFiles,
    ∀ expected ∈ smsCommandExpected.get? entry.1, PlansAsExpected entry.2.events expected := by
  decide +kernel

/-- Each file with events says whether a command is expected. -/
lemma exists_expected_of_mem : ∀ entry ∈ scenarioFiles, isMixedScenario entry.2 = false →
    ∃ expected, smsCommandExpected.get? entry.1 = some expected := by
  decide +kernel

/-- What is planned as expected has as many commands as are expected. -/
lemma length_commandsFor_of_expected {context : OrderContext} {plan : List Planned}
    {expected : Bool} (hclear : ClearFor processingWindow plan)
    (hsms : ExpectsSms plan ↔ expected = true) (hfinishes : expected = true ∨ Finishes plan)
    {received : List (Json × Json)}
    (hplanned : List.Forall₂ (fun p m => IsPlanned context p m.2) plan received)
    {stateConfig : StateConfig} (hlives : ∀ ttl ∈ stateConfig.ttl, processingWindow ≤ ttl)
    {run : List (Entry Job (String × KeyEvent OrderState) DelayedOrderSms.Effect)}
    (hrun : IsRun (JobStep stateConfig) Job.initial run) {read : Json → Option OrderState}
    (hprocessed : Processed read received context processingWindow run) :
    (commandsFor context.publishedId run).length = if expected then 1 else 0 := by
  obtain ⟨hone, hnone⟩ := decided_of_processed hclear hplanned hlives hrun hprocessed
  cases expected with
  | true => exact hone (hsms.mpr rfl)
  | false =>
      have hnot : ¬ExpectsSms plan := fun hlate => Bool.false_ne_true (hsms.mp hlate)
      rw [hnone hnot (hfinishes.resolve_left Bool.false_ne_true)]
      rfl

/-- What the job emits for an order of a file. -/
lemma length_commandsFor_of_file {load : String → Except Exception ScenarioFile}
    {config : SimulatorConfig} {task : Task} (h : task.Generated load config)
    (hok : (runSingleOrder config task.context task.scenario).outcome = .ok ())
    {file : ScenarioFile} (hfile : scenarioFiles.get? task.scenarioName = some file)
    (hscenario : task.scenario = file.toScenario)
    {expected : Bool} (hexpected : smsCommandExpected.get? task.scenarioName = some expected)
    {stateConfig : StateConfig} (hlives : ∀ ttl ∈ stateConfig.ttl, processingWindow ≤ ttl)
    {run : List (Entry Job (String × KeyEvent OrderState) DelayedOrderSms.Effect)}
    (hrun : IsRun (JobStep stateConfig) Job.initial run) {read : Json → Option OrderState}
    (hprocessed : Processed read (task.messages config) task.context processingWindow run) :
    (commandsFor task.context.publishedId run).length = if expected then 1 else 0 := by
  obtain ⟨plan, hplan, hclear, hsms, hfinishes⟩ :=
    plansAsExpected_of_mem _ (Dict.mem_of_get? hfile) expected hexpected
  rw [← congrArg Scenario.events hscenario] at hplan
  exact length_commandsFor_of_expected hclear hsms hfinishes (isPlanned_of_task h hok hplan) hlives
    hrun hprocessed

/-- The files, with an error for other names. -/
def shipped : String → Except Exception ScenarioFile :=
  ScenarioLoader.load fun _ => ⟨.valueError, some "Scenario file not found"⟩

lemma shippedFiles_shipped : ShippedFiles shipped := ScenarioLoader.shippedFiles_load _

end EndToEnd
