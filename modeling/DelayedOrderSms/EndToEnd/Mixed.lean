import DelayedOrderSms.EndToEnd.Expected
import DelayedOrderSms.Simulator.Assignment
import Mathlib.Data.Rat.Floor

/-!
# How many commands a mixed run gives

`mixed-orders` splits its orders among six scenarios, and three of them are late.  So the number of
commands of a mixed run is known beforehand, up to the rounding of the split: it is 45 for the 100
orders of the file.

* `names_of_run` — the orders are labelled as the split has written them.
* `assigned_mixed` — what a scenario gets of them, although the split divides floats.
* `mixed_commands` — what the job emits for all of them.
-/

namespace EndToEnd

open Python Java Flink Systems OrderSimulator DelayedOrderSms

/-- The tasks of a mixed run have the names that they are made from. -/
lemma names_of_mixedTasks {config : SimulatorConfig} {now : ℕ → Datetime}
    {loaded : Dict String ScenarioFile} {names : List String} {index : ℕ} {tasks : List Task}
    (h : mixedTasks config now loaded index names = .ok tasks) :
    tasks.map (·.scenarioName) = names := by
  induction names generalizing index tasks with
  | nil =>
      cases h
      rfl
  | cons name rest ih =>
      obtain ⟨file, _, h⟩ := bind_eq_ok_iff.mp h
      obtain ⟨tasks', hrest, h⟩ := bind_eq_ok_iff.mp h
      cases h
      rw [List.map_cons, ih hrest]

/-! ## The split -/

section

variable {w : String → ℤ} {included : List String} {n : ℤ} {share : String → ℚ}

instance : DecidablePred (Eligible included w) := fun _ =>
  inferInstanceAs (Decidable (_ ∧ _ ∧ _))

/-- What is counted in a split is counted by the scenarios that take part. -/
lemma countP_written (p : String → Bool) :
    (written n included w (ranking included w share)).countP p
      = ((parties included w).map fun s =>
          if p s then (assigned n included w (ranking included w share) s).toNat else 0).sum := by
  have hpart : ∀ s,
      (List.replicate (assigned n included w (ranking included w share) s).toNat s).countP p
        = if p s then (assigned n included w (ranking included w share) s).toNat else 0 := by
    intro s
    rw [List.countP_replicate]
  rw [written, List.countP_flatMap, ← (@ranking_perm w included share |>.map _).sum_eq]
  exact congrArg List.sum (List.map_congr_left fun s _ => hpart s)

end

lemma hasWeights_mixed : HasWeights mixedDistribution mixedWeights := by
  unfold HasWeights
  decide

/-- All six scenarios take part. -/
lemma parties_mixed : parties mixedFile.includedScenarios mixedWeights
    = mixedFile.includedScenarios := by
  decide

lemma eligible_mixed : ∀ s ∈ mixedFile.includedScenarios,
    Eligible mixedFile.includedScenarios mixedWeights s := by
  decide

lemma totalWeight_mixed : totalWeight mixedFile.includedScenarios mixedWeights = 100 := by
  decide

section

variable {n : ℤ} {share : String → ℚ}
  (hf : Faithful trueDivision n mixedFile.includedScenarios mixedWeights share)
include hf

/-- **What a scenario gets**: its part of a hundred, rounded down or up. -/
lemma assigned_mixed {s : String} (hs : s ∈ mixedFile.includedScenarios) :
    n * mixedWeights s / 100
        ≤ assigned n mixedFile.includedScenarios mixedWeights
          (ranking mixedFile.includedScenarios mixedWeights share) s ∧
      assigned n mixedFile.includedScenarios mixedWeights
          (ranking mixedFile.includedScenarios mixedWeights share) s
        ≤ -(-(n * mixedWeights s) / 100) := by
  have hpos : ∃ s, Eligible mixedFile.includedScenarios mixedWeights s := ⟨s, eligible_mixed s hs⟩
  have hquota : quota n mixedFile.includedScenarios mixedWeights s
      = ((n * mixedWeights s : ℤ) : ℚ) / ((100 : ℕ) : ℚ) := by
    rw [quota, totalWeight_mixed]
    norm_cast
  have hrounded := seats_eq_floor_or_ceil (ranked_ranking hf) (sum_quota_ranking hpos) s
  rw [← assigned, hquota, Rat.floor_intCast_div_natCast, Rat.ceil_intCast_div_natCast] at hrounded
  rcases hrounded with h | h <;> omega

/-- **How many of `n` orders are expected to be late.** -/
lemma countP_mixed (hn : 0 ≤ n) :
    let names := written n mixedFile.includedScenarios mixedWeights
      (ranking mixedFile.includedScenarios mixedWeights share)
    n / 4 + 2 * (n / 10) ≤ names.countP smsExpected ∧
      names.countP smsExpected ≤ (n + 3) / 4 + 2 * ((n + 9) / 10) := by
  intro names
  obtain ⟨seats, hseats⟩ : ∃ seats, assigned n mixedFile.includedScenarios mixedWeights
      (ranking mixedFile.includedScenarios mixedWeights share) = seats := ⟨_, rfl⟩
  have hcount : names.countP smsExpected = (seats "delayed-orders").toNat
      + ((seats "eta-updated-orders").toNat + (seats "duplicate-events").toNat) := by
    have hlate : mixedFile.includedScenarios.map smsExpected
        = [false, true, false, true, true, false] := rfl
    simp only [mixedFile, List.map_cons, List.map_nil, List.cons.injEq] at hlate
    rw [countP_written, parties_mixed, hseats]
    simp only [mixedFile, List.map_cons, List.map_nil, List.sum_cons, List.sum_nil, hlate,
      Bool.false_eq_true, if_true, if_false, zero_add, add_zero]
  have hdelayed := assigned_mixed hf (by decide : "delayed-orders" ∈ mixedFile.includedScenarios)
  have hetaUpdated :=
    assigned_mixed hf (by decide : "eta-updated-orders" ∈ mixedFile.includedScenarios)
  have hduplicate :=
    assigned_mixed hf (by decide : "duplicate-events" ∈ mixedFile.includedScenarios)
  have hquarter : mixedWeights "delayed-orders" = 25 := rfl
  have htenth : mixedWeights "eta-updated-orders" = 10 := rfl
  have htenth' : mixedWeights "duplicate-events" = 10 := rfl
  rw [hseats, hquarter] at hdelayed
  rw [hseats, htenth] at hetaUpdated
  rw [hseats, htenth'] at hduplicate
  omega

end

/-! ## The run -/

section Run

variable {load : String → Except Exception ScenarioFile} {config : SimulatorConfig}
  {now : ℕ → Datetime} {draws : ℕ → ℕ} {tasks : List Task}

/-- What `_assign_scenarios` returns for the file. -/
abbrev MixedNames (config : SimulatorConfig) (draws : ℕ → ℕ) (names : List String) : Prop :=
  assignScenarios trueDivision config draws [("distribution", mixedFile.distribution)]
    mixedFile.includedScenarios = .ok names

/-- **The orders of a mixed run** are labelled as the split has written them. -/
lemma names_of_run (hmixed : load config.scenario = .ok mixedFile)
    (htasks : SimulatorRunner.run load config now draws = .ok tasks) :
    MixedNames config draws (tasks.map (·.scenarioName)) := by
  have hmix : isMixedScenario mixedFile = true := rfl
  have hincluded : mixedFile.includedScenarios ≠ [] := List.cons_ne_nil _ _
  rw [SimulatorRunner.run, hmixed, ok_bind, if_pos hmix, runMixedScenario, if_neg hincluded]
    at htasks
  obtain ⟨loaded, _, htasks⟩ := bind_eq_ok_iff.mp htasks
  obtain ⟨names, hnames, htasks⟩ := bind_eq_ok_iff.mp htasks
  rw [MixedNames, names_of_mixedTasks htasks]
  exact hnames

/-- The names of a run that is not too large are a faithful split. -/
lemma countP_of_mixedNames {names : List String} (hnames : MixedNames config draws names)
    (hn : 0 ≤ config.ordersCount) (hsmall : config.ordersCount ≤ 2 ^ 40) :
    config.ordersCount / 4 + 2 * (config.ordersCount / 10) ≤ names.countP smsExpected ∧
      names.countP smsExpected
        ≤ (config.ordersCount + 3) / 4 + 2 * ((config.ordersCount + 9) / 10) := by
  obtain ⟨share, hf⟩ := @exists_faithful_trueDivision mixedWeights mixedFile.includedScenarios
    config.ordersCount hn (by rw [totalWeight_mixed]; omega)
  have hwritten := @assignScenarios_eq config draws
    [("distribution", mixedFile.distribution)] _ _ _ _ _ hf rfl hasWeights_mixed
    ⟨"on-time-orders", eligible_mixed _ (by decide)⟩
  obtain rfl := Except.ok.inj (hnames.symm.trans hwritten)
  exact countP_mixed hf hn

/-- What is one for the expected orders adds up to their number. -/
lemma sum_eq_countP {f : Task → ℕ}
    (h : ∀ task ∈ tasks, f task = if smsExpected task.scenarioName then 1 else 0) :
    (tasks.map f).sum = (tasks.map (·.scenarioName)).countP smsExpected := by
  induction tasks with
  | nil => rfl
  | cons task rest ih =>
      obtain ⟨htask, hrest⟩ := List.forall_mem_cons.mp h
      rw [List.map_cons, List.sum_cons, htask, ih hrest, List.map_cons, List.countP_cons, add_comm]

/-- What is expected of an order of the files, as a number. -/
lemma ite_smsExpected {name : String} {expected : Bool}
    (h : smsCommandExpected.get? name = some expected) :
    (if expected then 1 else 0) = if smsExpected name then 1 else 0 := by
  rw [smsExpected, h]
  cases expected <;> rfl

/-- How many commands the job emits for the orders of the tasks. -/
def commandCount (tasks : List Task)
    (run : List (Entry Job (String × KeyEvent OrderState) DelayedOrderSms.Effect)) : ℕ :=
  (tasks.map fun task => (commandsFor task.context.publishedId run).length).sum

end Run

/-! ## Two orders -/

/-- A mixed run with two orders. -/
def twoMixed : SimulatorConfig where
  scenario := "mixed-orders"
  ordersCount := 2
  orderIdPrefix := "ord"
  scaleDelay := .ok
  pauseAfterStep := 0
  pauseDurationSeconds := 0

/-- They are given to the scenarios with the largest parts. -/
def onTimeTask : Task where
  scenarioName := "on-time-orders"
  context := createOrderContext twoMixed noon 1 "on-time-orders"
  scenario := onTimeFile.toScenario

def secondDelayedTask : Task where
  scenarioName := "delayed-orders"
  context := createOrderContext twoMixed noon 2 "delayed-orders"
  scenario := delayedFile.toScenario

lemma tasks_twoMixed : SimulatorRunner.run shipped twoMixed (fun _ => noon) id
    = .ok [onTimeTask, secondDelayedTask] := by
  have hassign : MixedNames twoMixed id ["on-time-orders", "delayed-orders"] := by
    decide +kernel
  have hmix : isMixedScenario mixedFile = true := rfl
  have hincluded : mixedFile.includedScenarios ≠ [] := List.cons_ne_nil _ _
  have hload : shipped twoMixed.scenario = .ok mixedFile := rfl
  rw [SimulatorRunner.run, hload, ok_bind, if_pos hmix, runMixedScenario, if_neg hincluded,
    shippedFiles_shipped.loadMany_mixed, ok_bind, hassign]
  rfl

/-- A snapshot of the first order, updated some seconds after noon. -/
def onTimeSnapshot (status : OrderStatus) (seconds : ℤ) : Snapshot where
  orderId := "ord-on-time-orders-0001"
  customerId := some "cus-0001"
  storeId := some "store-001"
  status := status
  expectedDeliveryTime := .ofEpochMilli (.of 1778587260000)
  lastUpdatedAt := .ofEpochMilli (.of (1778587200000 + seconds * 1000))

/-- One of the second. -/
def secondDelayedSnapshot (status : OrderStatus) (seconds : ℤ) : Snapshot :=
  { delayedSnapshot status seconds with
    orderId := "ord-delayed-orders-0002"
    customerId := some "cus-0002"
    storeId := some "store-002" }

lemma messages_onTimeTask : ordersIn OrderState.ofJson (onTimeTask.messages twoMixed)
    = [(onTimeSnapshot .CREATED 0).toOrderState, (onTimeSnapshot .ACCEPTED 10).toOrderState,
      (onTimeSnapshot .PICKED_UP 30).toOrderState, (onTimeSnapshot .DELIVERED 60).toOrderState] := by
  decide +kernel

lemma messages_secondDelayedTask :
    ordersIn OrderState.ofJson (secondDelayedTask.messages twoMixed)
      = [(secondDelayedSnapshot .CREATED 0).toOrderState,
        (secondDelayedSnapshot .ACCEPTED 10).toOrderState] := by
  decide +kernel

/-- The job processes a message some seconds after noon. -/
def processedEntry (s : Snapshot) (seconds : ℤ) (output : List DelayedOrderSms.Effect)
    (delaySmsEmitted : Bool) (timer : Option Long) :
    Entry (Slot OrderDelayState) (KeyEvent OrderState) DelayedOrderSms.Effect :=
  ⟨.element (.of (1778587200000 + seconds * 1000)) (.ofEpochMilli (.of 0)) s.toOrderState, output,
    (wrote ⟨s, delaySmsEmitted, timer⟩ (.of (1778587200000 + seconds * 1000)) timer.toFinset).map
      Tracked.toDelayState⟩

def onTimeRun : List (Entry (Slot OrderDelayState) (KeyEvent OrderState) DelayedOrderSms.Effect) :=
  [processedEntry (onTimeSnapshot .CREATED 0) 1 [] false (some (.of 1778587260000)),
    processedEntry (onTimeSnapshot .ACCEPTED 10) 2 [] false (some (.of 1778587260000)),
    processedEntry (onTimeSnapshot .PICKED_UP 30) 3 [] false (some (.of 1778587260000)),
    processedEntry (onTimeSnapshot .DELIVERED 60) 4 [] false none]

def secondDelayedRun :
    List (Entry (Slot OrderDelayState) (KeyEvent OrderState) DelayedOrderSms.Effect) :=
  [processedEntry (secondDelayedSnapshot .CREATED 0) 5
      ((secondDelayedSnapshot .CREATED 0).notification (.of 1778587205000)) true none,
    processedEntry (secondDelayedSnapshot .ACCEPTED 10) 6 [] true none]

/-- One order after the other. -/
def twoMixedRun : List (Entry Job (String × KeyEvent OrderState) DelayedOrderSms.Effect) :=
  atKey "ord-on-time-orders-0001" Job.initial onTimeRun ++
    atKey "ord-delayed-orders-0002"
      (final Job.initial (atKey "ord-on-time-orders-0001" Job.initial onTimeRun)) secondDelayedRun

lemma isRun_twoMixedRun : IsRun (JobStep (stateConfig 7)) Job.initial twoMixedRun := by
  refine isRun_append.mpr ⟨isRun_atKey _ onTimeRun Job.initial ?_, isRun_atKey _ _ _ ?_⟩
  · exact ⟨.element rfl rfl, .element rfl rfl, .element rfl rfl, .element rfl rfl, trivial⟩
  · exact ⟨.element rfl rfl, .element rfl rfl, trivial⟩

lemma publishedId_onTimeTask : onTimeTask.context.publishedId = "ord-on-time-orders-0001" := by
  decide +kernel

lemma publishedId_secondDelayedTask :
    secondDelayedTask.context.publishedId = "ord-delayed-orders-0002" := by
  decide +kernel

lemma processed_onTimeTask : Processed OrderState.ofJson (onTimeTask.messages twoMixed)
    onTimeTask.context processingWindow twoMixedRun := by
  have hproject : project "ord-on-time-orders-0001" twoMixedRun = onTimeRun := by rfl
  have hbase : baseMillis onTimeTask.context = 1778587200000 := by decide
  refine ⟨fun _ _ _ h => h, ?_, ?_⟩
  · rw [messages_onTimeTask, publishedId_onTimeTask, hproject]
    rfl
  · rw [publishedId_onTimeTask, hproject]
    refine ⟨by simp [onTimeRun, processedEntry, KeyEvent.now]; decide, ?_⟩
    rw [hbase]
    simp only [onTimeRun, List.forall_mem_cons]
    exact ⟨fun _ => by decide, fun _ => by decide, fun _ => by decide, fun _ => by decide, by simp⟩

lemma processed_secondDelayedTask :
    Processed OrderState.ofJson (secondDelayedTask.messages twoMixed) secondDelayedTask.context
      processingWindow twoMixedRun := by
  have hproject : project "ord-delayed-orders-0002" twoMixedRun = secondDelayedRun := by rfl
  have hbase : baseMillis secondDelayedTask.context = 1778587200000 := by decide
  refine ⟨fun _ _ _ h => h, ?_, ?_⟩
  · rw [messages_secondDelayedTask, publishedId_secondDelayedTask, hproject]
    rfl
  · rw [publishedId_secondDelayedTask, hproject]
    refine ⟨by simp [secondDelayedRun, processedEntry, KeyEvent.now]; decide, ?_⟩
    rw [hbase]
    simp only [secondDelayedRun, List.forall_mem_cons]
    exact ⟨fun _ => by decide, fun _ => by decide, by simp⟩

/-- Of four orders two are late.  The exact quotients would make it one. -/
example : MixedNames { twoMixed with ordersCount := 4 } id
    ["cancelled-orders", "eta-updated-orders", "on-time-orders", "delayed-orders"] := by
  decide +kernel

end EndToEnd
