import DelayedOrderSms.Simulator.Assignment
import DelayedOrderSms.Simulator.Publication
import Mathlib.Data.List.Range

/-!
# A run of the simulator

`SimulatorRunner.run` labels each of its orders with a name: the orders of a single scenario with
the name of that scenario, those of a mixed one with the scenarios they are assigned to.  The
orders are numbered through the run.

* `run_generated` — the orders of a run are what their names and their numbers make them.
* `nodup_publishedIds` — no two of them are published under one id.
* `idsApart_iff` — two runs have no order id in common exactly if the names they give to orders of
  the same number differ after normalisation.
-/

namespace OrderSimulator

open Python

/-- What the runner reads of a scenario file, with its defaults. -/
structure ScenarioFile extends Scenario where
  includedScenarios : List String
  distribution : Json

/-- An order that is to be run, with the name it is labelled with. -/
structure Task where
  scenarioName : String
  context : OrderContext
  scenario : Scenario

/-- `SimulatorConfig.override`, of the two settings that a command line of the test gives. -/
def SimulatorConfig.override (config : SimulatorConfig) (scenario : Option String)
    (ordersCount : Option ℤ) : SimulatorConfig :=
  { config with
    scenario := match scenario with
      | some name => if name = "" then config.scenario else name
      | none => config.scenario
    ordersCount := ordersCount.getD config.ordersCount }

/-- `_is_mixed_scenario` -/
def isMixedScenario (scenario : ScenarioFile) : Bool := !scenario.includedScenarios.isEmpty

def noIncludedScenarios : Exception where
  type := .valueError
  text := some "Mixed scenario must define includedScenarios"

section

variable (load : String → Except Exception ScenarioFile) (config : SimulatorConfig)
  (now : ℕ → Datetime) (draws : ℕ → ℕ)

/-- `ScenarioLoader.load_many`; `load` reads a file. -/
def loadMany (scenarioNames : List String) : Except Exception (Dict String ScenarioFile) :=
  scenarioNames.foldlM
    (fun loaded name => do
      let scenario ← load name
      return loaded.set name scenario)
    []

/-- `_create_order_contexts`; `now` is the clock, read once for each order. -/
def createOrderContexts (scenarioName : String) (ordersCount : ℤ) : List OrderContext :=
  (List.range' 1 ordersCount.toNat).map fun index =>
    createOrderContext config (now index) index scenarioName

/-- The tasks of `_run_single_scenario`. -/
def runSingleScenario (scenario : ScenarioFile) : List Task :=
  let scenarioName := scenario.scenarioName.getD config.scenario
  (createOrderContexts config now scenarioName config.ordersCount).map fun context =>
    { scenarioName, context, scenario := scenario.toScenario }

/-- The loop of `_run_mixed_scenario`, from an index on. -/
def mixedTasks (loadedScenarios : Dict String ScenarioFile) :
    ℕ → List String → Except Exception (List Task)
  | _, [] => return []
  | index, scenarioName :: rest => do
      let scenario ← loadedScenarios.getItem scenarioName
      let context := createOrderContext config (now index) index scenarioName
      let tasks ← mixedTasks loadedScenarios (index + 1) rest
      return { scenarioName, context, scenario := scenario.toScenario } :: tasks

/-- The tasks of `_run_mixed_scenario`. -/
def runMixedScenario (mixedScenario : ScenarioFile) : Except Exception (List Task) := do
  if mixedScenario.includedScenarios = [] then throw noIncludedScenarios
  let loadedScenarios ← loadMany load mixedScenario.includedScenarios
  let assignments ← assignScenarios trueDivision config draws
    [("distribution", mixedScenario.distribution)] mixedScenario.includedScenarios
  mixedTasks config now loadedScenarios 1 assignments

/-- **The tasks of `run`**, or what it raises before the first of them. -/
def SimulatorRunner.run : Except Exception (List Task) := do
  let scenario ← load config.scenario
  if isMixedScenario scenario then runMixedScenario load config now draws scenario
  else return runSingleScenario config now scenario

/-- The messages that the tasks publish, each up to its own end.  The pool interleaves them. -/
def executeTasks (tasks : List Task) : List (Json × Json) :=
  tasks.flatMap fun task => publications (runSingleOrder config task.context task.scenario).effects

end

/-! ## The orders of a run -/

section

variable {load : String → Except Exception ScenarioFile} {config config' : SimulatorConfig}
  {now : ℕ → Datetime} {draws : ℕ → ℕ} {task : Task} {tasks tasks' : List Task}

/-- The name and the number of the order make its context, and its events are those of a file. -/
structure Task.Generated (load : String → Except Exception ScenarioFile)
    (config : SimulatorConfig) (task : Task) : Prop where
  context : ∃ now, task.context
    = createOrderContext config now task.context.orderIndex task.scenarioName
  scenario : ∃ name file, load name = .ok file ∧ task.scenario = file.toScenario

/-- **The messages of such an order carry its id**, if those of the file name it. -/
theorem Task.Generated.carries (h : task.Generated load config)
    (hlabel : ∀ name file, load name = .ok file → Labelled file.toScenario) :
    ∀ message ∈ publications (runSingleOrder config' task.context task.scenario).effects,
      Carries task.context message.2 := by
  obtain ⟨now, hcontext⟩ := h.context
  obtain ⟨name, file, hfile, hscenario⟩ := h.scenario
  refine carries_of_mem_publications ?_ (hscenario ▸ hlabel name file hfile)
  intro baseTime
  rw [hcontext]
  exact parseDynamicTime_publishedId config now _ _ baseTime

/-- What `loadMany` returns are files. -/
lemma load_of_loadMany {names : List String} {loaded : Dict String ScenarioFile}
    (h : loadMany load names = .ok loaded) :
    ∀ name file, loaded.get? name = some file → load name = .ok file := by
  refine foldlM_invariant
    (P := fun loaded => ∀ name file, loaded.get? name = some file → load name = .ok file)
    (fun loaded₀ first loaded₁ h₀ h₁ name file hget => ?_) (by simp) h
  obtain ⟨scenario, hscenario, h₁⟩ := bind_eq_ok_iff.mp h₁
  cases h₁
  rw [Dict.get?_set] at hget
  split_ifs at hget with hname
  · cases hget
    rw [← hname, hscenario]
  · exact h₀ name file hget

lemma mixedTasks_generated {loaded : Dict String ScenarioFile}
    (hloaded : ∀ name file, loaded.get? name = some file → load name = .ok file)
    {names : List String} {index : ℕ} (h : mixedTasks config now loaded index names = .ok tasks) :
    (∀ task ∈ tasks, task.Generated load config) ∧
      tasks.map (·.context.orderIndex) = List.range' index names.length := by
  induction names generalizing index tasks with
  | nil =>
      cases h
      simp
  | cons name rest ih =>
      obtain ⟨file, hfile, h⟩ := bind_eq_ok_iff.mp h
      obtain ⟨tasks', hrest, h⟩ := bind_eq_ok_iff.mp h
      cases h
      obtain ⟨hgenerated, hindices⟩ := ih hrest
      refine ⟨List.forall_mem_cons.mpr ⟨⟨⟨now index, rfl⟩, ?_⟩, hgenerated⟩, ?_⟩
      · exact ⟨name, file, hloaded name file (Dict.getItem_eq_ok_iff.mp hfile), rfl⟩
      · rw [List.map_cons, hindices]
        rfl

lemma runSingleScenario_generated {file : ScenarioFile} (hfile : load config.scenario = .ok file) :
    (∀ task ∈ runSingleScenario config now file, task.Generated load config) ∧
      (runSingleScenario config now file).map (·.context.orderIndex)
        = List.range' 1 config.ordersCount.toNat := by
  constructor
  · simp only [runSingleScenario, createOrderContexts, List.map_map, List.mem_map]
    rintro task ⟨index, _, rfl⟩
    exact ⟨⟨now index, rfl⟩, _, file, hfile, rfl⟩
  · simp [runSingleScenario, createOrderContexts, createOrderContext, Function.comp_def]

/-- **The orders of a run**: each is made by its name and its number, and the numbers go through
the run from one. -/
theorem run_generated (h : SimulatorRunner.run load config now draws = .ok tasks) :
    (∀ task ∈ tasks, task.Generated load config) ∧
      ∃ n, tasks.map (·.context.orderIndex) = List.range' 1 n := by
  obtain ⟨file, hfile, h⟩ := bind_eq_ok_iff.mp h
  split_ifs at h
  · rw [runMixedScenario] at h
    split_ifs at h
    · cases h
    · obtain ⟨loaded, hloaded, h⟩ := bind_eq_ok_iff.mp h
      obtain ⟨assignments, _, h⟩ := bind_eq_ok_iff.mp h
      obtain ⟨hgenerated, hindices⟩ :=
        mixedTasks_generated (load_of_loadMany hloaded) h
      exact ⟨hgenerated, _, hindices⟩
  · cases h
    obtain ⟨hgenerated, hindices⟩ := runSingleScenario_generated hfile
    exact ⟨hgenerated, _, hindices⟩

/-! ## Two runs -/

/-- No order id of the one list is an order id of the other. -/
def IdsApart (earlier tasks : List Task) : Prop :=
  ∀ t ∈ earlier, ∀ t' ∈ tasks, t.context.orderId ≠ t'.context.orderId

/-- Names given to orders of the same number differ after normalisation. -/
def NamesApart (earlier tasks : List Task) : Prop :=
  ∀ t ∈ earlier, ∀ t' ∈ tasks, t.context.orderIndex = t'.context.orderIndex →
    normalizeName t.scenarioName ≠ normalizeName t'.scenarioName

section

variable {t t' : Task} (h : t.Generated load config) (h' : t'.Generated load config)
include h h'

lemma Task.Generated.orderId_eq_iff :
    t.context.orderId = t'.context.orderId
      ↔ normalizeName t.scenarioName = normalizeName t'.scenarioName ∧
        t.context.orderIndex = t'.context.orderIndex := by
  obtain ⟨now, hcontext⟩ := h.context
  obtain ⟨now', hcontext'⟩ := h'.context
  rw [hcontext, hcontext', OrderSimulator.orderId_eq_iff]
  rfl

lemma Task.Generated.publishedId_eq_iff :
    t.context.publishedId = t'.context.publishedId
      ↔ normalizeName t.scenarioName = normalizeName t'.scenarioName ∧
        t.context.orderIndex = t'.context.orderIndex := by
  obtain ⟨now, hcontext⟩ := h.context
  obtain ⟨now', hcontext'⟩ := h'.context
  rw [hcontext, hcontext', OrderSimulator.publishedId_eq_iff]
  rfl

end

/-- **When two runs have no order id in common.** -/
theorem idsApart_iff (h : ∀ t ∈ tasks, t.Generated load config)
    (h' : ∀ t' ∈ tasks', t'.Generated load config) :
    IdsApart tasks tasks' ↔ NamesApart tasks tasks' := by
  constructor
  · intro hapart t ht t' ht' hindex hname
    exact hapart t ht t' ht' (((h t ht).orderId_eq_iff (h' t' ht')).mpr ⟨hname, hindex⟩)
  · intro hapart t ht t' ht' hid
    obtain ⟨hname, hindex⟩ := ((h t ht).orderId_eq_iff (h' t' ht')).mp hid
    exact hapart t ht t' ht' hindex hname

/-- Then they publish under different ids, too. -/
lemma publishedId_ne_of_namesApart (h : ∀ t ∈ tasks, t.Generated load config)
    (h' : ∀ t' ∈ tasks', t'.Generated load config) (hapart : NamesApart tasks tasks') :
    ∀ t ∈ tasks, ∀ t' ∈ tasks', t.context.publishedId ≠ t'.context.publishedId := by
  intro t ht t' ht' hid
  obtain ⟨hname, hindex⟩ := ((h t ht).publishedId_eq_iff (h' t' ht')).mp hid
  exact hapart t ht t' ht' hindex hname

/-- **The orders of one run** are published under different ids. -/
theorem nodup_publishedIds (h : SimulatorRunner.run load config now draws = .ok tasks) :
    (tasks.map (·.context.publishedId)).Nodup := by
  obtain ⟨hgenerated, n, hindices⟩ := run_generated h
  have hnodup : (tasks.map (·.context.orderIndex)).Nodup := by
    rw [hindices]
    exact List.nodup_range'
  rw [List.Nodup, List.pairwise_map] at hnodup ⊢
  refine hnodup.imp_of_mem fun ht ht' hne hid => hne ?_
  exact (((hgenerated _ ht).publishedId_eq_iff (hgenerated _ ht')).mp hid).2

end

end OrderSimulator
