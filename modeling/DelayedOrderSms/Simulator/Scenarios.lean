import DelayedOrderSms.Simulator.Execution

/-!
# The scenario files

The files of `simulator/scenarios`, as `json.load` returns them.  Their events that carry a value
are all of one form, with the same keys in the same order (`orderEvent`); the others repeat a step
(`duplicateEvent`).  Left out is what the runner does not read: the description, the topic and the
count by default, and the texts about the expected result.

* `scenarioFiles` — the files by their names, and `ShippedFiles` — a loader finds these, as
  `ScenarioLoader.load` does.
* `smsCommandExpected` — what the files say of their result.
* `ShippedFiles.labelled`, `ShippedFiles.keyedByOrder` — they name their orders by the placeholder.
* `ShippedFiles.exists_file_of_task` — the orders of a run are of the files that they are labelled
  with.
-/

namespace OrderSimulator

open Python

/-- An entry of `stateLogs`, with its status and its time. -/
def stateLog (log : String × String) : Json :=
  .dict [("status", .str log.1), ("at", .str log.2)]

/-- An event that carries a value. -/
def orderEvent (step delay : ℤ) (etaOffset status lastUpdatedAt : String)
    (stateLogs : List (String × String)) : Dict String Json :=
  [("step", .int step), ("delayAfterPreviousEventMs", .int delay),
    ("messageKey", .str (placeholder "orderId")), ("etaOffset", .str etaOffset),
    ("value", .dict [("orderId", .str (placeholder "orderId")),
      ("customerId", .str (placeholder "customerId")), ("storeId", .str (placeholder "storeId")),
      ("status", .str status), ("expectedDeliveryTime", .str "now"), ("createdAt", .str "now"),
      ("lastUpdatedAt", .str lastUpdatedAt), ("eventTime", .str lastUpdatedAt),
      ("stateLogs", .list (stateLogs.map stateLog)), ("schemaVersion", .int 1)])]

/-- An event that repeats a step. -/
def duplicateEvent (step delay duplicateOfStep : ℤ) : Dict String Json :=
  [("step", .int step), ("delayAfterPreviousEventMs", .int delay),
    ("messageKey", .str (placeholder "orderId")), ("duplicateOfStep", .int duplicateOfStep)]

/-- A file with events. -/
def eventFile (scenarioName : String) (events : List (Dict String Json)) : ScenarioFile where
  scenarioName := some scenarioName
  events := events
  includedScenarios := []
  distribution := .dict []

def onTimeFile : ScenarioFile := eventFile "on-time-orders"
  [orderEvent 1 0 "+60s" "CREATED" "now" [("CREATED", "now")],
    orderEvent 2 1000 "+60s" "ACCEPTED" "now+10s" [("CREATED", "now"), ("ACCEPTED", "now+10s")],
    orderEvent 3 1000 "+60s" "PICKED_UP" "now+30s"
      [("CREATED", "now"), ("ACCEPTED", "now+10s"), ("PICKED_UP", "now+30s")],
    orderEvent 4 1000 "+60s" "DELIVERED" "now+60s"
      [("CREATED", "now"), ("ACCEPTED", "now+10s"), ("PICKED_UP", "now+30s"),
        ("DELIVERED", "now+60s")]]

def delayedFile : ScenarioFile := eventFile "delayed-orders"
  [orderEvent 1 0 "-30s" "CREATED" "now" [("CREATED", "now")],
    orderEvent 2 1000 "-30s" "ACCEPTED" "now+10s" [("CREATED", "now"), ("ACCEPTED", "now+10s")]]

def cancelledFile : ScenarioFile := eventFile "cancelled-orders"
  [orderEvent 1 0 "+30s" "CREATED" "now" [("CREATED", "now")],
    orderEvent 2 1000 "+30s" "CANCELLED" "now+30s"
      [("CREATED", "now"), ("CANCELLED", "now+30s")]]

def etaUpdatedFile : ScenarioFile := eventFile "eta-updated-orders"
  [orderEvent 1 0 "-30s" "CREATED" "now" [("CREATED", "now")],
    orderEvent 2 1000 "-30s" "ACCEPTED" "now+10s" [("CREATED", "now"), ("ACCEPTED", "now+10s")],
    orderEvent 3 1000 "+60s" "ACCEPTED" "now+30s"
      [("CREATED", "now"), ("ACCEPTED", "now+10s"), ("ETA_UPDATED", "now+30s")]]

def duplicateFile : ScenarioFile := eventFile "duplicate-events"
  [orderEvent 1 0 "-30s" "CREATED" "now" [("CREATED", "now")],
    duplicateEvent 2 500 1,
    orderEvent 3 1000 "-30s" "ACCEPTED" "now+10s" [("CREATED", "now"), ("ACCEPTED", "now+10s")],
    duplicateEvent 4 500 3]

def outOfOrderFile : ScenarioFile := eventFile "out-of-order-updates"
  [orderEvent 1 0 "+60s" "ACCEPTED" "now+10s" [("CREATED", "now"), ("ACCEPTED", "now+10s")],
    orderEvent 2 1000 "+60s" "CREATED" "now" [("CREATED", "now")],
    orderEvent 3 1000 "+60s" "DELIVERED" "now+60s"
      [("CREATED", "now"), ("ACCEPTED", "now+10s"), ("DELIVERED", "now+60s")]]

def failureRecoveryFile : ScenarioFile := eventFile "failure-recovery"
  [orderEvent 1 0 "-30s" "CREATED" "now" [("CREATED", "now")],
    orderEvent 2 1000 "-30s" "ACCEPTED" "now+10s" [("CREATED", "now"), ("ACCEPTED", "now+10s")]]

def mixedFile : ScenarioFile where
  scenarioName := some "mixed-orders"
  events := []
  includedScenarios := ["on-time-orders", "delayed-orders", "cancelled-orders",
    "eta-updated-orders", "duplicate-events", "out-of-order-updates"]
  distribution := .dict mixedDistribution

/-- **The files**, by their names without `.json`. -/
def scenarioFiles : Dict String ScenarioFile :=
  [("on-time-orders", onTimeFile), ("delayed-orders", delayedFile),
    ("cancelled-orders", cancelledFile), ("eta-updated-orders", etaUpdatedFile),
    ("duplicate-events", duplicateFile), ("out-of-order-updates", outOfOrderFile),
    ("failure-recovery", failureRecoveryFile), ("mixed-orders", mixedFile)]

/-- The field `smsCommandExpected` of those with events.  Where it is true they expect one command
for an order. -/
def smsCommandExpected : Dict String Bool :=
  [("on-time-orders", false), ("delayed-orders", true), ("cancelled-orders", false),
    ("eta-updated-orders", true), ("duplicate-events", true), ("out-of-order-updates", false),
    ("failure-recovery", true)]

/-- The loader finds the files, and no others. -/
structure ShippedFiles (load : String → Except Exception ScenarioFile) : Prop where
  found : ∀ name file, scenarioFiles.get? name = some file → load name = .ok file
  only : ∀ name file, load name = .ok file → ∃ name', scenarioFiles.get? name' = some file

/-- `ScenarioLoader.load` of a name that is no path; `notFound` is its `FileNotFoundError`. -/
def ScenarioLoader.load (notFound : String → Exception) (scenarioName : String) :
    Except Exception ScenarioFile :=
  let normalizedName :=
    if ".json".toList.isSuffixOf scenarioName.toList then
      String.ofList (scenarioName.toList.take (scenarioName.length - 5))
    else scenarioName
  match scenarioFiles.get? normalizedName with
  | some file => .ok file
  | none => .error (notFound normalizedName)

/-- The names of the files are without their suffix. -/
lemma not_isSuffixOf_of_mem : ∀ entry ∈ scenarioFiles,
    ¬".json".toList.isSuffixOf entry.1.toList := by
  decide +kernel

/-- The loader of the simulator finds them. -/
theorem ScenarioLoader.shippedFiles_load (notFound : String → Exception) :
    ShippedFiles (load notFound) where
  found := by
    intro name file hfile
    have hname := not_isSuffixOf_of_mem _ (Dict.mem_of_get? hfile)
    simp only [load, if_neg hname, hfile]
  only := by
    intro name file h
    simp only [load] at h
    split at h
    · rename_i found hfound
      obtain rfl := Except.ok.inj h
      exact ⟨_, hfound⟩
    · cases h

/-! ## Their events -/

/-- What the events of the files have in common. -/
structure ShippedEvent (eventDefinition : Dict String Json) : Prop where
  key : eventDefinition.get? "messageKey" = some (.str (placeholder "orderId"))
  value : ∀ valueTemplate, eventDefinition.get? "value" = some valueTemplate →
    orderIdOf valueTemplate = some (placeholder "orderId")

lemma shippedEvent_orderEvent (step delay : ℤ) (etaOffset status lastUpdatedAt : String)
    (stateLogs : List (String × String)) :
    ShippedEvent (orderEvent step delay etaOffset status lastUpdatedAt stateLogs) where
  key := rfl
  value := by
    intro valueTemplate hvalue
    cases hvalue
    rfl

lemma shippedEvent_duplicateEvent (step delay duplicateOfStep : ℤ) :
    ShippedEvent (duplicateEvent step delay duplicateOfStep) where
  key := rfl
  value := by
    intro valueTemplate hvalue
    cases hvalue

lemma ShippedEvent.getD_key {eventDefinition : Dict String Json} (h : ShippedEvent eventDefinition) :
    eventDefinition.getD "messageKey" (.str (placeholder "orderId"))
      = .str (placeholder "orderId") := by
  rw [Dict.getD, h.key, Option.getD_some]

/-- The events of the files are of these two forms. -/
lemma shippedEvent_of_mem :
    ∀ entry ∈ scenarioFiles, ∀ eventDefinition ∈ entry.2.events, ShippedEvent eventDefinition := by
  simp only [scenarioFiles, onTimeFile, delayedFile, cancelledFile, etaUpdatedFile, duplicateFile,
    outOfOrderFile, failureRecoveryFile, mixedFile, eventFile, List.forall_mem_cons,
    List.not_mem_nil, false_imp_iff, implies_true, and_true, shippedEvent_orderEvent,
    shippedEvent_duplicateEvent]

/-- The files that a mixed run loads. -/
def includedFiles : Dict String ScenarioFile :=
  [("on-time-orders", onTimeFile), ("delayed-orders", delayedFile),
    ("cancelled-orders", cancelledFile), ("eta-updated-orders", etaUpdatedFile),
    ("duplicate-events", duplicateFile), ("out-of-order-updates", outOfOrderFile)]

lemma get?_of_mem_includedFiles : ∀ entry ∈ includedFiles,
    scenarioFiles.get? entry.1 = some entry.2 ∧ isMixedScenario entry.2 = false := by
  rw [includedFiles]
  iterate 6 refine List.forall_mem_cons.mpr ⟨⟨rfl, rfl⟩, ?_⟩
  exact fun _ h => absurd h List.not_mem_nil

section Shipped

variable {load : String → Except Exception ScenarioFile} (hload : ShippedFiles load)
include hload

lemma ShippedFiles.shippedEvent {name : String} {file : ScenarioFile} (h : load name = .ok file) :
    ∀ eventDefinition ∈ file.events, ShippedEvent eventDefinition := by
  obtain ⟨name', hname⟩ := hload.only name file h
  exact shippedEvent_of_mem _ (Dict.mem_of_get? hname)

/-- **The files name their orders by the placeholder**, in the values and in the keys. -/
lemma ShippedFiles.labelled (name : String) (file : ScenarioFile) (h : load name = .ok file) :
    Labelled file.toScenario :=
  fun eventDefinition hmem => (hload.shippedEvent h eventDefinition hmem).value

lemma ShippedFiles.keyedByOrder (name : String) (file : ScenarioFile) (h : load name = .ok file) :
    KeyedByOrder file.toScenario :=
  fun eventDefinition hmem => (hload.shippedEvent h eventDefinition hmem).getD_key

lemma ShippedFiles.loadMany_mixed :
    loadMany load mixedFile.includedScenarios = .ok includedFiles := by
  have honTime := hload.found "on-time-orders" onTimeFile rfl
  have hdelayed := hload.found "delayed-orders" delayedFile rfl
  have hcancelled := hload.found "cancelled-orders" cancelledFile rfl
  have hetaUpdated := hload.found "eta-updated-orders" etaUpdatedFile rfl
  have hduplicate := hload.found "duplicate-events" duplicateFile rfl
  have houtOfOrder := hload.found "out-of-order-updates" outOfOrderFile rfl
  simp only [loadMany, mixedFile, List.foldlM_cons, List.foldlM_nil, honTime, hdelayed, hcancelled,
    hetaUpdated, hduplicate, houtOfOrder, ok_bind]
  rfl

omit hload in
/-- A file with events is labelled with its own name, and only one is mixed. -/
lemma scenarioName_of_mem : ∀ entry ∈ scenarioFiles,
    isMixedScenario entry.2 = false ∧ entry.2.scenarioName = some entry.1 ∨
      entry.2 = mixedFile := by
  rw [scenarioFiles]
  iterate 7 refine List.forall_mem_cons.mpr ⟨.inl ⟨rfl, rfl⟩, ?_⟩
  exact List.forall_mem_singleton.mpr (.inr rfl)

omit hload in
/-- The tasks of a mixed run are of the files that are loaded. -/
lemma exists_loaded_of_mixedTasks {config : SimulatorConfig} {now : ℕ → Datetime}
    {loaded : Dict String ScenarioFile} {names : List String} {index : ℕ} {tasks : List Task}
    (h : mixedTasks config now loaded index names = .ok tasks) :
    ∀ task ∈ tasks, ∃ file, loaded.get? task.scenarioName = some file ∧
      task.scenario = file.toScenario := by
  induction names generalizing index tasks with
  | nil =>
      cases h
      exact fun task htask => absurd htask List.not_mem_nil
  | cons name rest ih =>
      obtain ⟨file, hfile, h⟩ := bind_eq_ok_iff.mp h
      obtain ⟨tasks', hrest, h⟩ := bind_eq_ok_iff.mp h
      cases h
      exact List.forall_mem_cons.mpr ⟨⟨file, Dict.getItem_eq_ok_iff.mp hfile, rfl⟩, ih hrest⟩

/-- **The orders of a run are of the files that they are labelled with**, and of files with
events. -/
theorem ShippedFiles.exists_file_of_task {config : SimulatorConfig} {now : ℕ → Datetime}
    {draws : ℕ → ℕ} {tasks : List Task}
    (h : SimulatorRunner.run load config now draws = .ok tasks) :
    ∀ task ∈ tasks, ∃ file, scenarioFiles.get? task.scenarioName = some file ∧
      isMixedScenario file = false ∧ task.scenario = file.toScenario := by
  obtain ⟨file, hfile, h⟩ := bind_eq_ok_iff.mp h
  obtain ⟨name, hname⟩ := hload.only _ file hfile
  rcases scenarioName_of_mem _ (Dict.mem_of_get? hname) with ⟨hsingle, hlabel⟩ | rfl
  · rw [if_neg (by simp [hsingle])] at h
    obtain rfl := Except.ok.inj h
    have hlabelled : file.scenarioName.getD config.scenario = name := by
      rw [hlabel, Option.getD_some]
    rw [runSingleScenario, hlabelled, List.forall_mem_map]
    exact fun _ _ => ⟨file, hname, hsingle, rfl⟩
  · have hmixed : isMixedScenario mixedFile = true := rfl
    have hincluded : mixedFile.includedScenarios ≠ [] := List.cons_ne_nil _ _
    rw [if_pos hmixed, runMixedScenario, if_neg hincluded] at h
    obtain ⟨loaded, hloaded, h⟩ := bind_eq_ok_iff.mp h
    obtain ⟨assignments, _, h⟩ := bind_eq_ok_iff.mp h
    rw [hload.loadMany_mixed] at hloaded
    obtain rfl := Except.ok.inj hloaded
    intro task htask
    obtain ⟨file, hget, heq⟩ := exists_loaded_of_mixedTasks h task htask
    have hmem := Dict.mem_of_get? hget
    obtain ⟨hfile, hsingle⟩ := get?_of_mem_includedFiles _ hmem
    exact ⟨file, hfile, hsingle, heq⟩

end Shipped

end OrderSimulator
