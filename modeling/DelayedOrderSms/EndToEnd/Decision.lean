import DelayedOrderSms.Detector.Outcome
import DelayedOrderSms.EndToEnd.Arrival
import DelayedOrderSms.EndToEnd.Plan

/-!
# The scenario file decides

Whether an order of a scenario is notified can be said before the scenario is run: the simulator
publishes the snapshots that are planned, the job reads them as they are planned, and if they
reach it while none of the planned delivery times comes, their order alone decides.

* `isPlanned_of_runEvents` — the messages of an order are what was planned, one by one.
* `ExpectsSms` — a snapshot planned as late is planned to be the newest at some time.
* `decided_of_plan` — what the job emits for an order whose snapshots reach it in time.
* `scenario_decides` — the same from the scenario file on, through the threads of the simulator and
  the partitions of the topic.
-/

namespace EndToEnd

open Python Java Flink Systems OrderSimulator DelayedOrderSms

/-- The job reads of the value what was planned. -/
def IsPlanned (context : OrderContext) (p : Planned) (value : Json) : Prop :=
  ∃ d, readDocument Instant.parse value = some d ∧ Realises context p d.toSnapshot

/-- The values by step are what was planned for the steps. -/
def TablePlanned (context : OrderContext) (past : Dict ℤ Planned) (publishedByStep : Dict ℤ Json) :
    Prop :=
  ∀ step p, past.get? step = some p →
    ∃ value, publishedByStep.get? step = some value ∧ IsPlanned context p value

section Events

variable {config : SimulatorConfig} {context : OrderContext}
  (hid : parseDynamicTime context.publishedId context.baseTime = .ok context.publishedId)

/-- A pass of the loop that does not raise. -/
lemma runEvents_cons_of_ok {publishedByStep : Dict ℤ Json} {eventDefinition : Dict String Json}
    {rest : List (Dict String Json)}
    (h : (runEvents config context publishedByStep (eventDefinition :: rest)).outcome = .ok ()) :
    ∃ step delay value publishedByStep', eventTiming config eventDefinition = .ok (step, delay) ∧
      eventValue context publishedByStep step eventDefinition = .ok (value, publishedByStep') ∧
      (runEvents config context publishedByStep' rest).outcome = .ok () ∧
      publications (runEvents config context publishedByStep (eventDefinition :: rest)).effects
        = (messageKey context eventDefinition, value)
          :: publications (runEvents config context publishedByStep' rest).effects := by
  rw [runEvents, runEvent_eq] at h ⊢
  cases htiming : eventTiming config eventDefinition with
  | error e =>
      simp only [htiming] at h
      cases h
  | ok timing =>
      obtain ⟨step, delay⟩ := timing
      have hsilent := @publications_waitBefore config step delay
      simp only [htiming] at h
      rcases hwait : waitBefore config step delay with ⟨effects, _ | ⟨⟩⟩
      · simp only [hwait] at h
        cases h
      cases hvalue : eventValue context publishedByStep step eventDefinition with
      | error e =>
          simp only [hwait, hvalue] at h
          cases h
      | ok found =>
          obtain ⟨value, publishedByStep'⟩ := found
          cases hkey : encodeKey (messageKey context eventDefinition) with
          | error e =>
              simp only [hwait, hvalue, hkey] at h
              cases h
          | ok key =>
              obtain ⟨rfl, _⟩ := encodeKey_eq_ok_iff.mp hkey
              simp only [hwait, hvalue, hkey, Program.bind_of_ok] at h
              rw [hwait] at hsilent
              refine ⟨step, delay, value, publishedByStep', rfl, hvalue, h, ?_⟩
              simp [hvalue, hwait, hsilent]

include hid in
/-- **What is planned for an event is in its value**, a repeated one included. -/
lemma isPlanned_of_eventValue {past past' : Dict ℤ Planned}
    {publishedByStep publishedByStep' : Dict ℤ Json} (htable : TablePlanned context past publishedByStep)
    {eventDefinition : Dict String Json} {p : Planned}
    (hplan : planNext past eventDefinition = some (p, past')) {step delay : ℤ} {value : Json}
    (htiming : eventTiming config eventDefinition = .ok (step, delay))
    (hvalue : eventValue context publishedByStep step eventDefinition
      = .ok (value, publishedByStep')) :
    IsPlanned context p value ∧ TablePlanned context past' publishedByStep' := by
  rw [planNext] at hplan
  rw [eventValue] at hvalue
  cases hduplicate : eventDefinition.get? "duplicateOfStep" with
  | some duplicateOfStep =>
      simp only [hduplicate] at hplan hvalue
      obtain ⟨duplicateStep, hstep, hvalue⟩ := bind_eq_ok_iff.mp hvalue
      rw [hstep] at hplan
      obtain ⟨_, hsome, hplan⟩ := Option.bind_eq_some_iff.mp hplan
      obtain rfl := Option.some.inj hsome
      obtain ⟨q, hq, hplan⟩ := Option.bind_eq_some_iff.mp hplan
      obtain ⟨rfl, rfl⟩ := Prod.mk.inj (Option.some.inj hplan)
      obtain ⟨found, hfound, hplanned⟩ := htable _ _ hq
      simp only [hfound] at hvalue
      obtain ⟨rfl, rfl⟩ := Prod.mk.inj (Except.ok.inj hvalue)
      exact ⟨hplanned, htable⟩
  | none =>
      simp only [hduplicate] at hplan hvalue
      obtain ⟨step', hstep', hplan⟩ := Option.bind_eq_some_iff.mp hplan
      obtain ⟨q, hq, hplan⟩ := Option.bind_eq_some_iff.mp hplan
      obtain ⟨rfl, rfl⟩ := Prod.mk.inj (Option.some.inj hplan)
      split_ifs at hvalue
      · obtain ⟨built, hbuilt, hvalue⟩ := bind_eq_ok_iff.mp hvalue
        obtain ⟨rfl, rfl⟩ := Prod.mk.inj (Except.ok.inj hvalue)
        have hplanned : IsPlanned context q built := realises_of_planned hid hq hbuilt
        obtain ⟨_, hread, htiming⟩ := bind_eq_ok_iff.mp htiming
        obtain ⟨_, _, htiming⟩ := bind_eq_ok_iff.mp htiming
        obtain ⟨_, _, htiming⟩ := bind_eq_ok_iff.mp htiming
        obtain ⟨rfl, _⟩ := Prod.mk.inj (Except.ok.inj htiming)
        rw [hread] at hstep'
        obtain rfl := Option.some.inj hstep'
        refine ⟨hplanned, fun step₁ p₁ hp₁ => ?_⟩
        rw [Dict.get?_set] at hp₁ ⊢
        split_ifs at hp₁ ⊢ with hsame
        · obtain rfl := Option.some.inj hp₁
          exact ⟨built, rfl, hplanned⟩
        · exact htable step₁ p₁ hp₁

include hid in
/-- **The messages of an order are what was planned**, one by one. -/
theorem isPlanned_of_runEvents {past : Dict ℤ Planned} {publishedByStep : Dict ℤ Json}
    (htable : TablePlanned context past publishedByStep) {events : List (Dict String Json)}
    {plan : List Planned} (hplan : planEvents past events = some plan)
    (hok : (runEvents config context publishedByStep events).outcome = .ok ()) :
    List.Forall₂ (fun p m => IsPlanned context p m.2) plan
      (publications (runEvents config context publishedByStep events).effects) := by
  induction events generalizing past publishedByStep plan with
  | nil =>
      cases hplan
      exact .nil
  | cons eventDefinition rest ih =>
      rw [planEvents] at hplan
      obtain ⟨⟨p, past'⟩, hnext, hplan⟩ := Option.bind_eq_some_iff.mp hplan
      obtain ⟨plan', hrest, hplan⟩ := Option.bind_eq_some_iff.mp hplan
      obtain rfl := Option.some.inj hplan
      obtain ⟨step, delay, value, publishedByStep', htiming, hvalue, hok, heq⟩ :=
        runEvents_cons_of_ok hok
      obtain ⟨hp, htable⟩ := isPlanned_of_eventValue hid htable hnext htiming hvalue
      rw [heq]
      exact .cons hp (ih htable hrest hok)

end Events

/-- The same for a task of the simulator. -/
lemma isPlanned_of_task {load : String → Except Exception ScenarioFile} {config : SimulatorConfig}
    {task : Task} (h : task.Generated load config)
    (hok : (runSingleOrder config task.context task.scenario).outcome = .ok ())
    {plan : List Planned} (hplan : planEvents [] task.scenario.events = some plan) :
    List.Forall₂ (fun p m => IsPlanned task.context p m.2) plan (task.messages config) := by
  obtain ⟨now, hcontext⟩ := h.context
  have hid : parseDynamicTime task.context.publishedId task.context.baseTime
      = .ok task.context.publishedId := by
    rw [hcontext]
    exact parseDynamicTime_publishedId config now _ _ _
  rw [Task.messages]
  rw [runSingleOrder] at hok ⊢
  split_ifs at hok ⊢
  · cases hok
  · exact isPlanned_of_runEvents hid (by simp [TablePlanned]) hplan hok

/-! ## What the job emits -/

/-- The snapshot is planned late: its delivery was expected by the base time. -/
def PlannedLate (p : Planned) : Prop := p.status.isTerminal = false ∧ p.expectedDeliveryTime ≤ 0

instance : DecidablePred PlannedLate := fun _ => inferInstanceAs (Decidable (_ ∧ _))

/-- **An SMS is expected**: a late snapshot is the newest at some time. -/
abbrev ExpectsSms (plan : List Planned) : Prop :=
  EverNewest Document.lastUpdatedAt PlannedLate none plan

/-- In the end the order is finished. -/
def Finishes (plan : List Planned) : Prop :=
  ∀ p ∈ newest Document.lastUpdatedAt none plan, p.status.isTerminal = true

/-- None of the planned delivery times comes in the `window` milliseconds after the base time. -/
structure ClearFor (window : ℤ) (plan : List Planned) : Prop where
  pos : 0 < window
  apart : ∀ p ∈ plan, p.status.isTerminal = false →
    p.expectedDeliveryTime ≤ 0 ∨ window * 1000 ≤ p.expectedDeliveryTime

/-- The base time of an order in epoch milliseconds. -/
def baseMillis (context : OrderContext) : ℤ := (instantOf context.baseTime).epochMilli

/-- The messages of an order are processed within `window` milliseconds after its base time, on a
clock that does not go back. -/
structure ProcessedIn {σ : Type} (context : OrderContext) (window : ℤ)
    (run : List (Entry σ (KeyEvent OrderState) DelayedOrderSms.Effect)) : Prop where
  chronological : run.Pairwise fun e e' => e.label.now ≤ e'.label.now
  within : ∀ e ∈ run, e.label.incoming?.isSome →
    baseMillis context ≤ e.label.now.val ∧ e.label.now.val < baseMillis context + window

lemma epochMilli_eq (i : Instant) : i.epochMilli = i.toNanos / 1000000 := by
  have hnanos := i.nanos_lt
  simp only [Instant.epochMilli, Instant.toNanos]
  omega

/-- A snapshot that is what was planned, at a time that is clear of the window. -/
structure RealisesIn (context : OrderContext) (window : ℤ) (p : Planned) (s : Snapshot) : Prop
    extends Realises context p s where
  apart : p.status.isTerminal = false →
    p.expectedDeliveryTime ≤ 0 ∨ window * 1000 ≤ p.expectedDeliveryTime

section Decided

variable {context : OrderContext} {window : ℤ} {p q : Planned} {s t : Snapshot}
  {plan : List Planned} {snapshots : List Snapshot}

lemma RealisesIn.lt_iff (hp : RealisesIn context window p s) (hq : RealisesIn context window q t) :
    p.lastUpdatedAt < q.lastUpdatedAt ↔ s.lastUpdatedAt < t.lastUpdatedAt := by
  have hs := hp.lastUpdatedAt
  have ht := hq.lastUpdatedAt
  rw [After] at hs ht
  rw [Instant.lt_iff]
  omega

lemma RealisesIn.active_iff (hp : RealisesIn context window p s) :
    s.Active ↔ p.status.isTerminal = false := by
  rw [Snapshot.Active, hp.status]

/-- Its expected delivery time is not in the window. -/
lemma RealisesIn.eta_cases (hp : RealisesIn context window p s) (hactive : s.Active) :
    p.expectedDeliveryTime ≤ 0 ∧ s.etaMs ≤ baseMillis context ∨
      window * 1000 ≤ p.expectedDeliveryTime ∧ baseMillis context + window ≤ s.etaMs := by
  have heta := hp.expectedDeliveryTime
  rw [After] at heta
  rw [Snapshot.etaMs, baseMillis, epochMilli_eq, epochMilli_eq]
  rcases hp.apart (hp.active_iff.mp hactive) with h | h
  · exact .inl ⟨h, by omega⟩
  · exact .inr ⟨h, by omega⟩

lemma RealisesIn.late_iff (hp : RealisesIn context window p s) (hpos : 0 < window) :
    PlannedLate p ↔ Late (baseMillis context) s := by
  rw [PlannedLate, Late, ← hp.active_iff]
  refine and_congr_right fun hactive => ?_
  rcases hp.eta_cases hactive with ⟨h, h'⟩ | ⟨h, h'⟩ <;> omega

lemma ClearFor.realisesIn (hclear : ClearFor window plan)
    (h : List.Forall₂ (Realises context) plan snapshots) :
    List.Forall₂ (RealisesIn context window) plan snapshots :=
  ((List.forall₂_and_left _ _).mpr ⟨hclear.apart, h⟩).imp fun _ _ hps => ⟨hps.2, hps.1⟩

/-- None of the snapshots has its expected delivery time in the window. -/
lemma eta_cases_of_forall₂ (h : List.Forall₂ (RealisesIn context window) plan snapshots) :
    ∀ s ∈ snapshots, s.Active →
      s.etaMs ≤ baseMillis context ∨ baseMillis context + window ≤ s.etaMs := by
  induction h with
  | nil => exact fun _ hs => absurd hs List.not_mem_nil
  | cons hps _ ih =>
      refine List.forall_mem_cons.mpr ⟨fun hactive => ?_, ih⟩
      exact (hps.eta_cases hactive).imp And.right And.right

/-- What is read of the messages of an order. -/
lemma realises_of_messages {messages : List (Json × Json)}
    (h : List.Forall₂ (fun p m => IsPlanned context p m.2) plan messages)
    {read : Json → Option OrderState}
    (hread : ∀ m ∈ messages, ∀ o, OrderState.ofJson m.2 = some o → read m.2 = some o) :
    List.Forall₂ (Realises context) plan ((ordersIn read messages).filterMap Snapshot.of?) := by
  induction h with
  | nil => exact .nil
  | @cons p m plan messages hp _ ih =>
      obtain ⟨d, hd, hrealises⟩ := hp
      have ho : read m.2 = some d.toSnapshot.toOrderState :=
        hread m List.mem_cons_self _ (by rw [OrderState.ofJson, hd, Option.map_some])
      have hcons : (ordersIn read (m :: messages)).filterMap Snapshot.of?
          = d.toSnapshot :: (ordersIn read messages).filterMap Snapshot.of? := by
        simp [ordersIn, ho]
      rw [hcons]
      exact .cons hrealises (ih fun m hm => hread m (List.mem_cons_of_mem _ hm))

/-- **What the job emits** for an order whose snapshots, as planned, are processed in time. -/
theorem decided_of_plan (hclear : ClearFor window plan) {stateConfig : StateConfig}
    (hlives : ∀ ttl ∈ stateConfig.ttl, window ≤ ttl)
    {run : List (Entry Job (String × KeyEvent OrderState) DelayedOrderSms.Effect)}
    (hrun : IsRun (JobStep stateConfig) Job.initial run)
    (hintime : ProcessedIn context window (project context.publishedId run))
    (hplanned : List.Forall₂ (Realises context) plan (arrived (project context.publishedId run))) :
    (ExpectsSms plan → (commandsFor context.publishedId run).length = 1) ∧
      (¬ExpectsSms plan → Finishes plan → commandsFor context.publishedId run = []) := by
  have hrealises := hclear.realisesIn hplanned
  have hversion : ∀ (p : Planned) (s : Snapshot) (q : Planned) (t : Snapshot),
      RealisesIn context window p s → RealisesIn context window q t →
      (p.lastUpdatedAt < q.lastUpdatedAt ↔ s.lastUpdatedAt < t.lastUpdatedAt) :=
    fun _ _ _ _ hp hq => hp.lt_iff hq
  have hlate : ExpectsSms plan ↔
      EverLate (baseMillis context) (arrived (project context.publishedId run)) :=
    everNewest_congr _ hversion (fun _ _ hps => hps.late_iff hclear.pos) hrealises .none
  have hnewest := newest_congr _ hversion hrealises .none
  have hpunctual : Punctual (baseMillis context) (baseMillis context + window)
      (project context.publishedId run) :=
    ⟨hintime.chronological, hintime.within, eta_cases_of_forall₂ hrealises⟩
  have houtlives : Outlives stateConfig.ttl (baseMillis context) (baseMillis context + window) :=
    fun ttl httl => by have := hlives ttl httl; omega
  obtain ⟨trun, slot, hproj, hcommands, hsettles⟩ := exists_settles hrun hpunctual houtlives
  rw [hproj, arrived_map] at hlate hnewest
  rw [hcommands, hlate]
  refine ⟨hsettles.decides.1, fun hnot hfinishes => hsettles.decides.2 hnot fun s hs hactive => ?_⟩
  -- the newest snapshot is of a finished order
  obtain ⟨p, hp, hps⟩ : ∃ p ∈ newest Document.lastUpdatedAt none plan,
      RealisesIn context window p s := by
    rw [Option.mem_def.mp hs] at hnewest
    generalize newest Document.lastUpdatedAt none plan = known at hnewest
    cases hnewest with
    | some hps => exact ⟨_, rfl, hps⟩
  exact absurd (hps.active_iff.mp hactive) (by simp [hfinishes p hp])

end Decided

/-- **What the job is given of an order**: the messages that have been received of it, as they are
read, and in time. -/
structure Processed (read : Json → Option OrderState) (received : List (Json × Json))
    (context : OrderContext) (window : ℤ)
    (run : List (Entry Job (String × KeyEvent OrderState) DelayedOrderSms.Effect)) : Prop where
  reads : ∀ m ∈ received, ∀ o, OrderState.ofJson m.2 = some o → read m.2 = some o
  given : (project context.publishedId run).filterMap (·.label.incoming?) = ordersIn read received
  inTime : ProcessedIn context window (project context.publishedId run)

/-- What the job emits for an order of which it has been given some planned messages. -/
lemma decided_of_processed {context : OrderContext} {window : ℤ} {plan : List Planned}
    (hclear : ClearFor window plan) {received : List (Json × Json)}
    (hplanned : List.Forall₂ (fun p m => IsPlanned context p m.2) plan received)
    {stateConfig : StateConfig} (hlives : ∀ ttl ∈ stateConfig.ttl, window ≤ ttl)
    {run : List (Entry Job (String × KeyEvent OrderState) DelayedOrderSms.Effect)}
    (hrun : IsRun (JobStep stateConfig) Job.initial run) {read : Json → Option OrderState}
    (hprocessed : Processed read received context window run) :
    (ExpectsSms plan → (commandsFor context.publishedId run).length = 1) ∧
      (¬ExpectsSms plan → Finishes plan → commandsFor context.publishedId run = []) := by
  refine decided_of_plan hclear hlives hrun hprocessed.inTime ?_
  rw [arrived, hprocessed.given]
  exact realises_of_messages hplanned hprocessed.reads

/-- **The scenario file decides.**  For all scenario files that name their orders by the placeholder,
in the values and in the keys, any interleaving of the simulator's threads and its producer, which
neither repeats nor reorders the records of a partition, and any partitioner: if the run of the
simulator is completed with all its messages delivered, the task of the order ends without an error,
and the job has been given its messages in time, in any interleaving with those of other orders and
with its timers, then it emits one command for the order if its scenario file plans a late snapshot
to be the newest at some time, and none if the file plans none so and ends in a finished order. -/
theorem scenario_decides {load : String → Except Exception ScenarioFile}
    {config : SimulatorConfig} {now : ℕ → Datetime} {draws : ℕ → ℕ} {tasks : List Task}
    {hash : Json → ℕ} {maxWorkers : ℤ}
    {srun : List (Entry Simulation SimulationEvent OrderSimulator.Effect)}
    (hcompleted : CompletedRun load config now draws tasks hash maxWorkers srun)
    (hlabelled : ∀ name file, load name = .ok file → Labelled file.toScenario)
    (hkeys : ∀ name file, load name = .ok file → KeyedByOrder file.toScenario)
    {task : Task} (htask : task ∈ tasks)
    (hok : (runSingleOrder config task.context task.scenario).outcome = .ok ())
    {plan : List Planned} (hplan : planEvents [] task.scenario.events = some plan)
    {window : ℤ} (hclear : ClearFor window plan)
    {stateConfig : StateConfig} (hlives : ∀ ttl ∈ stateConfig.ttl, window ≤ ttl)
    {run : List (Entry Job (String × KeyEvent OrderState) DelayedOrderSms.Effect)}
    (hrun : IsRun (JobStep stateConfig) Job.initial run) {read : Json → Option OrderState}
    (hprocessed : Processed read
      ((final (Simulation.submitted config tasks) srun).received hash task) task.context window run) :
    (ExpectsSms plan → (commandsFor task.context.publishedId run).length = 1) ∧
      (¬ExpectsSms plan → Finishes plan → commandsFor task.context.publishedId run = []) := by
  rw [hcompleted.received_eq hlabelled hkeys htask] at hprocessed
  have hplanned := isPlanned_of_task ((run_generated hcompleted.tasks_eq).1 task htask) hok hplan
  exact decided_of_processed hclear hplanned hlives hrun hprocessed

/-- The job processes its two messages, one and two seconds after noon. -/
def delayedRun : List (Entry (Slot OrderDelayState) (KeyEvent OrderState) DelayedOrderSms.Effect) :=
  [⟨.element (.of 1778587201000) (.ofEpochMilli (.of 0)) (delayedSnapshot .CREATED 0).toOrderState,
      (delayedSnapshot .CREATED 0).notification (.of 1778587201000),
      (wrote ⟨delayedSnapshot .CREATED 0, true, none⟩ (.of 1778587201000) ∅).map
        Tracked.toDelayState⟩,
    ⟨.element (.of 1778587202000) (.ofEpochMilli (.of 0)) (delayedSnapshot .ACCEPTED 10).toOrderState,
      [],
      (wrote ⟨delayedSnapshot .ACCEPTED 10, true, none⟩ (.of 1778587202000) ∅).map
        Tracked.toDelayState⟩]

/-- What is planned for it. -/
def delayedPlan : List Planned :=
  [⟨placeholder "orderId", placeholder "customerId", placeholder "storeId", .CREATED, -30000000, 0⟩,
    ⟨placeholder "orderId", placeholder "customerId", placeholder "storeId", .ACCEPTED, -30000000,
      10000000⟩]

lemma publishedId_delayedTask : delayedTask.context.publishedId = "ord-delayed-orders-0001" := by
  decide +kernel

lemma isRun_delayedRun : IsRun (JobStep (stateConfig 7)) Job.initial
    (atKey "ord-delayed-orders-0001" Job.initial delayedRun) :=
  isRun_atKey _ delayedRun Job.initial ⟨.element rfl rfl, .element rfl rfl, trivial⟩

lemma processed_delayedRun : Processed OrderState.ofJson (delayedTask.messages oneOrder)
    delayedTask.context 30000 (atKey "ord-delayed-orders-0001" Job.initial delayedRun) := by
  have hproject : project "ord-delayed-orders-0001"
      (atKey "ord-delayed-orders-0001" Job.initial delayedRun) = delayedRun := by rfl
  refine ⟨fun _ _ _ h => h, ?_, ?_⟩
  · rw [messages_delayedTask, publishedId_delayedTask, hproject]
    rfl
  · rw [publishedId_delayedTask, hproject]
    have hbase : baseMillis delayedTask.context = 1778587200000 := by decide
    refine ⟨by simp [delayedRun, KeyEvent.now]; decide, ?_⟩
    rw [hbase]
    simp only [delayedRun, List.forall_mem_cons]
    exact ⟨fun _ => by decide, fun _ => by decide, by simp⟩

lemma lives_delayedRun : ∀ ttl ∈ (stateConfig 7).ttl, (30000 : ℤ) ≤ ttl := by
  rintro _ ⟨⟩
  decide

/-- One command is emitted for it. -/
theorem scenario_decides_delayed :
    (commandsFor "ord-delayed-orders-0001"
      (atKey "ord-delayed-orders-0001" Job.initial delayedRun)).length = 1 := by
  obtain ⟨srun, hcompleted⟩ := @exists_completedRun _ _ _ _ _ (fun _ => 0) 1 tasks_oneOrder
  have htask : delayedTask ∈ [delayedTask] := List.mem_singleton.mpr rfl
  have hprocessed := processed_delayedRun
  rw [← hcompleted.received_eq labelled_onlyDelayed keyedByOrder_onlyDelayed htask] at hprocessed
  have hplan : planEvents [] delayedTask.scenario.events = some delayedPlan := by decide +kernel
  have hclear : ClearFor 30000 delayedPlan := ⟨by decide, by decide⟩
  have hdecided := scenario_decides hcompleted labelled_onlyDelayed keyedByOrder_onlyDelayed htask
    (by decide +kernel) hplan hclear lives_delayedRun isRun_delayedRun hprocessed
  rw [publishedId_delayedTask] at hdecided
  exact hdecided.1 (by decide +kernel)

end EndToEnd
