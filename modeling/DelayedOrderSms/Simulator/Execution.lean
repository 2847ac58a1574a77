import DelayedOrderSms.Kafka.Topic
import DelayedOrderSms.Simulator.ScenarioRun
import DelayedOrderSms.Systems.Pool

/-!
# Executing the orders

`_execute_tasks` submits one task for each order to a thread pool; every task publishes its
messages through the one producer, which sends them in the background.  `run` flushes the producer
when all tasks are done and none has raised.

* `SimulationStep` — a turn of the pool, with what it publishes, or a delivery of the producer.
* `onItsWay_eq` — the messages of an order in the topic and in the queue of the producer are those
  its task has published.
* `delivered_in_order` — what that says of the topic, in every state and at the end.
* `simulation_completes` — the run does come to its end.
-/

namespace OrderSimulator

open Python Systems Kafka

/-- `max_workers` of `_execute_tasks`. -/
def workers (maxWorkers : ℤ) : ℕ := (max 1 maxWorkers).toNat

/-- What the thread of a task does to the outside. -/
def taskEffects (config : SimulatorConfig) (tasks : List Task) (i : ℕ) : List Effect :=
  match tasks[i]? with
  | some task => (runSingleOrder config task.context task.scenario).effects
  | none => []

/-- The pool and the topic; a record is a key with a value. -/
structure Simulation where
  pool : Pool Effect
  topic : Topic (Json × Json)

/-- All tasks are submitted, and the topic is empty. -/
def Simulation.submitted (config : SimulatorConfig) (tasks : List Task) : Simulation :=
  ⟨Pool.submitted (taskEffects config tasks), Topic.empty⟩

/-- What can happen: a turn of the pool or a delivery. -/
inductive SimulationEvent where
  | turn (l : ℕ × Turn)
  | delivery (d : Delivery)

/-- **A step of the simulation**: `hash` is the partitioner of the producer. -/
inductive SimulationStep (hash : Json → ℕ) (maxWorkers : ℤ) (n : ℕ) :
    Simulation → SimulationEvent → List Effect → Simulation → Prop
  | turn {s : Simulation} {l : ℕ × Turn} {fx : List Effect} {pool : Pool Effect} :
      PoolStep (workers maxWorkers) n s.pool l fx pool →
      SimulationStep hash maxWorkers n s (.turn l) fx ⟨pool, s.topic.produce (publications fx)⟩
  | delivery {s : Simulation} {d : Delivery} {topic : Topic (Json × Json)} :
      SendStep (fun m => hash m.1) s.topic d topic →
      SimulationStep hash maxWorkers n s (.delivery d) [] { s with topic := topic }

/-- All tasks are done, and the producer is flushed. -/
def Simulation.Completed (n : ℕ) (s : Simulation) : Prop := s.pool.Done n ∧ s.topic.Flushed

/-- No delivery has failed. -/
def NoneFailed (run : List (Entry Simulation SimulationEvent Effect)) : Prop :=
  ∀ e ∈ run, e.label ≠ .delivery .failed

lemma noneFailed_cons {e : Entry Simulation SimulationEvent Effect}
    {run : List (Entry Simulation SimulationEvent Effect)} :
    NoneFailed (e :: run) ↔ e.label ≠ .delivery .failed ∧ NoneFailed run :=
  List.forall_mem_cons

lemma noneFailed_append {r₁ r₂ : List (Entry Simulation SimulationEvent Effect)} :
    NoneFailed (r₁ ++ r₂) ↔ NoneFailed r₁ ∧ NoneFailed r₂ :=
  List.forall_mem_append

/-- The turns of the pool in a run. -/
def poolRun (run : List (Entry Simulation SimulationEvent Effect)) :
    List (Entry (Pool Effect) (ℕ × Turn) Effect) :=
  run.filterMap fun e =>
    match e.label with
    | .turn l => some ⟨l, e.output, e.target.pool⟩
    | .delivery _ => none

section Runs

variable {hash : Json → ℕ} {maxWorkers : ℤ} {n : ℕ} {config : SimulatorConfig} {tasks : List Task}
  {run : List (Entry Simulation SimulationEvent Effect)}

/-- They are a run of the pool. -/
lemma isRun_poolRun {s : Simulation} (h : IsRun (SimulationStep hash maxWorkers n) s run) :
    IsRun (PoolStep (workers maxWorkers) n) s.pool (poolRun run) ∧
      final s.pool (poolRun run) = (final s run).pool := by
  induction run generalizing s with
  | nil => exact ⟨trivial, rfl⟩
  | cons e run ih =>
      obtain ⟨hstep, hrest⟩ := h
      obtain ⟨hrun, hend⟩ := ih hrest
      obtain ⟨l, fx, s'⟩ := e
      dsimp only at hstep hrun hend
      cases hstep with
      | turn hpool => exact ⟨⟨hpool, hrun⟩, hend⟩
      | delivery => exact ⟨hrun, hend⟩

end Runs

/-! ## The keys of the messages -/

/-- The events have the placeholder of the order as the key of their messages, written out or by
default. -/
def KeyedByOrder (scenario : Scenario) : Prop :=
  ∀ eventDefinition ∈ scenario.events,
    eventDefinition.getD "messageKey" (.str (placeholder "orderId")) = .str (placeholder "orderId")

/-- The record has the id of the order as its key. -/
def isKeyedBy (orderId : String) : Json × Json → Bool
  | (.str key, _) => key = orderId
  | _ => false

lemma isKeyedBy_iff {orderId : String} {m : Json × Json} :
    isKeyedBy orderId m = true ↔ m.1 = .str orderId := by
  obtain ⟨key, value⟩ := m
  cases key <;> simp [isKeyedBy]

section Keys

variable {config : SimulatorConfig} {context : OrderContext}

lemma messageKey_eq {eventDefinition : Dict String Json}
    (h : eventDefinition.getD "messageKey" (.str (placeholder "orderId"))
      = .str (placeholder "orderId")) :
    messageKey context eventDefinition = .str context.publishedId := by
  have hkey : eventDefinition.getD "messageKey" (.str "{{orderId}}")
      = .str (placeholder "orderId") := h
  rw [messageKey, hkey]
  rfl

lemma key_of_mem_replay {events : List (Dict String Json)}
    (hkeys : ∀ ev ∈ events, ev.getD "messageKey" (.str (placeholder "orderId"))
      = .str (placeholder "orderId")) {past : List Message} :
    ∀ m ∈ (replay config context past events).1, m.key = .str context.publishedId := by
  induction events generalizing past with
  | nil => intro m hm; simp [replay] at hm
  | cons ev rest ih =>
      intro m hm
      rw [replay] at hm
      cases hmessage : eventMessage config context past ev with
      | error e => simp [hmessage] at hm
      | ok m' =>
          simp only [hmessage, List.mem_cons] at hm
          rcases hm with rfl | hm
          · rw [← (eventMessage_eq_ok_iff.mp hmessage).2.2.1]
            exact messageKey_eq (hkeys ev List.mem_cons_self)
          · exact ih (fun ev' hev' => hkeys ev' (List.mem_cons_of_mem _ hev')) m hm

/-- **Every message of an order has its id as the key.** -/
theorem key_of_mem_publications {scenario : Scenario} (hkeys : KeyedByOrder scenario) :
    ∀ m ∈ publications (runSingleOrder config context scenario).effects,
      m.1 = .str context.publishedId := by
  intro message hmessage
  rw [runSingleOrder] at hmessage
  split_ifs at hmessage with hempty
  · simp [Program.lift, publications] at hmessage
  · have hrecords : Records [] [] := fun _ => rfl
    rw [(runEvents_replays hrecords scenario.events).1] at hmessage
    obtain ⟨m, hm, rfl⟩ := List.mem_map.mp hmessage
    exact key_of_mem_replay hkeys m hm

end Keys

/-- **What the messages of the tasks have in common**: each has the id of its order as the key and
carries it, and no two orders have the same. -/
structure Addressed (config : SimulatorConfig) (tasks : List Task) : Prop where
  key : ∀ task ∈ tasks, ∀ m ∈ publications (runSingleOrder config task.context task.scenario).effects,
    m.1 = .str task.context.publishedId
  carries : ∀ task ∈ tasks,
    ∀ m ∈ publications (runSingleOrder config task.context task.scenario).effects,
      Carries task.context m.2
  nodup : (tasks.map (·.context.publishedId)).Nodup

/-- The tasks of `run` have it. -/
theorem addressed_of_run {load : String → Except Exception ScenarioFile} {config : SimulatorConfig}
    {now : ℕ → Datetime} {draws : ℕ → ℕ} {tasks : List Task}
    (hlabelled : ∀ name file, load name = .ok file → Labelled file.toScenario)
    (hkeys : ∀ name file, load name = .ok file → KeyedByOrder file.toScenario)
    (h : SimulatorRunner.run load config now draws = .ok tasks) : Addressed config tasks where
  key := by
    intro task htask
    obtain ⟨name, file, hfile, hscenario⟩ := ((run_generated h).1 task htask).scenario
    exact key_of_mem_publications (hscenario ▸ hkeys name file hfile)
  carries := fun task htask => ((run_generated h).1 task htask).carries hlabelled
  nodup := nodup_publishedIds h

/-! ## The messages of one order -/

section Orders

variable {hash : Json → ℕ} {maxWorkers : ℤ} {config : SimulatorConfig} {tasks : List Task}
  {task : Task} {i : ℕ}

lemma mem_publications {fx fx' : List Effect} (h : ∀ a ∈ fx, a ∈ fx') :
    ∀ m ∈ publications fx, m ∈ publications fx' := by
  intro m hm
  obtain ⟨a, ha, hpublish⟩ := List.mem_filterMap.mp hm
  exact List.mem_filterMap.mpr ⟨a, h a ha, hpublish⟩

/-- The messages with the key of an order are those its own task publishes. -/
lemma filter_publications (h : Addressed config tasks) (htask : tasks[i]? = some task) {j : ℕ}
    {fx : List Effect} (hj : ∀ a ∈ fx, a ∈ taskEffects config tasks j) :
    (publications fx).filter (isKeyedBy task.context.publishedId) =
      if j = i then publications fx else [] := by
  have hmem := mem_publications hj
  split_ifs with hij
  · subst hij
    refine List.filter_eq_self.mpr fun m hm => isKeyedBy_iff.mpr ?_
    have hown := hmem m hm
    rw [taskEffects, htask] at hown
    exact h.key task (List.mem_of_getElem? htask) m hown
  · refine List.filter_eq_nil_iff.mpr fun m hm hkeyed => hij ?_
    have hother := hmem m hm
    rw [taskEffects] at hother
    cases hget : tasks[j]? with
    | none =>
        rw [hget] at hother
        exact absurd hother List.not_mem_nil
    | some task' =>
        rw [hget] at hother
        have hkey := h.key task' (List.mem_of_getElem? hget) m hother
        rw [isKeyedBy_iff.mp hkeyed] at hkey
        -- Two tasks with the same id are the same.
        have hid : (tasks.map (·.context.publishedId))[j]? =
            (tasks.map (·.context.publishedId))[i]? := by
          rw [List.getElem?_map, List.getElem?_map, hget, htask]
          exact congrArg some (Json.str.inj hkey).symm
        have hlt : j < (tasks.map (·.context.publishedId)).length := by
          rw [List.length_map]
          exact (List.getElem?_eq_some_iff.mp hget).1
        exact (List.getElem?_inj hlt h.nodup).mp hid

/-- The messages a task publishes. -/
def Task.messages (config : SimulatorConfig) (task : Task) : List (Json × Json) :=
  publications (runSingleOrder config task.context task.scenario).effects

/-- The messages of an order that have been received in its partition. -/
def Simulation.received (hash : Json → ℕ) (task : Task) (s : Simulation) : List (Json × Json) :=
  s.topic.received (isKeyedBy task.context.publishedId) (hash (.str task.context.publishedId))

/-- Those received or still queued. -/
def Simulation.onItsWay (hash : Json → ℕ) (task : Task) (s : Simulation) : List (Json × Json) :=
  s.topic.onItsWay (isKeyedBy task.context.publishedId) (hash (.str task.context.publishedId))

lemma hash_of_isKeyedBy (hash : Json → ℕ) (orderId : String) :
    ∀ m : Json × Json, isKeyedBy orderId m = true → hash m.1 = hash (.str orderId) :=
  fun _ hm => congrArg hash (isKeyedBy_iff.mp hm)

variable {run : List (Entry Simulation SimulationEvent Effect)}

lemma poolRun_append (r₁ r₂ : List (Entry Simulation SimulationEvent Effect)) :
    poolRun (r₁ ++ r₂) = poolRun r₁ ++ poolRun r₂ := List.filterMap_append

/-- **The messages of an order in the topic and in the queue** are those its task has published, in
the order of the scenario; a failed delivery leaves some of them out. -/
theorem onItsWay_eq (h : Addressed config tasks) (htask : tasks[i]? = some task)
    (hrun : IsRun (SimulationStep hash maxWorkers tasks.length) (Simulation.submitted config tasks)
      run) :
    ((final (Simulation.submitted config tasks) run).onItsWay hash task).Sublist
        (publications (outputs (project i (poolRun run)))) ∧
      (NoneFailed run → (final (Simulation.submitted config tasks) run).onItsWay hash task =
        publications (outputs (project i (poolRun run)))) := by
  have hkind := hash_of_isKeyedBy hash task.context.publishedId
  refine IsRun.history_induction
    (P := fun run s => (s.onItsWay hash task).Sublist
        (publications (outputs (project i (poolRun run)))) ∧
      (NoneFailed run → s.onItsWay hash task = publications (outputs (project i (poolRun run)))))
    ⟨List.Sublist.refl _, fun _ => rfl⟩ ?_ run hrun
  rintro run _ ⟨l, fx, s'⟩ hsofar rfl ⟨hsub, heq⟩ hstep
  have hmore := isRun_concat.mpr ⟨hsofar, hstep⟩
  have hnone : NoneFailed (run ++ [⟨l, fx, s'⟩]) → NoneFailed run :=
    fun hall => (noneFailed_append.mp hall).1
  dsimp only at hstep
  cases hstep with
  | @turn l _ pool hpool =>
      have hscript : ∀ a ∈ fx, a ∈ taskEffects config tasks l.1 := by
        have hpoolrun := (isRun_poolRun hmore).1
        rw [poolRun_append] at hpoolrun
        exact mem_script_of_mem hpoolrun ⟨l, fx, pool⟩ (List.mem_append_right _ List.mem_cons_self)
      have hproject : publications (outputs (project i (poolRun (run ++ [⟨.turn l, fx,
          ⟨pool, (final (Simulation.submitted config tasks) run).topic.produce (publications fx)⟩⟩])))) =
          publications (outputs (project i (poolRun run))) ++
            if l.1 = i then publications fx else [] := by
        rw [poolRun_append, project_append, outputs_append, publications_append]
        congr 1
        show publications (outputs (project i [⟨l, fx, pool⟩])) = _
        split_ifs with hl
        · rw [project_cons_same hl, outputs_cons, project_nil, outputs_nil, List.append_nil]
        · rw [project_cons_other hl, project_nil, outputs_nil]
          rfl
      rw [hproject]
      simp only [Simulation.onItsWay, onItsWay_produce, filter_publications h htask hscript]
      exact ⟨List.Sublist.append hsub (List.Sublist.refl _),
        fun hall => congrArg (· ++ _) (heq (hnone hall))⟩
  | @delivery d topic hsend =>
      have hproject : poolRun (run ++ [⟨.delivery d, [],
          { final (Simulation.submitted config tasks) run with topic := topic }⟩]) = poolRun run := by
        rw [poolRun_append]
        exact List.append_nil _
      rw [hproject]
      cases d with
      | delivered =>
          simp only [Simulation.onItsWay, onItsWay_delivered hkind hsend]
          exact ⟨hsub, fun hall => heq (hnone hall)⟩
      | failed =>
          refine ⟨(onItsWay_failed hsend).trans hsub, fun hall => ?_⟩
          exact absurd rfl (noneFailed_cons.mp (noneFailed_append.mp hall).2).1

/-- What is in the log of a partition has its key there. -/
lemma log_hash (hrun : IsRun (SimulationStep hash maxWorkers tasks.length)
    (Simulation.submitted config tasks) run) :
    ∀ q, ∀ m ∈ (final (Simulation.submitted config tasks) run).topic.log q, hash m.1 = q := by
  refine @IsRun.invariant _ _ _ (SimulationStep hash maxWorkers tasks.length)
    (fun s => ∀ q, ∀ m ∈ s.topic.log q, hash m.1 = q) (fun s e fx s' hlog hstep => ?_) _
    (fun _ _ hm => absurd hm (by simp [Simulation.submitted, Topic.empty])) run hrun
  cases hstep with
  | turn => exact hlog
  | delivery hsend => exact log_partition hlog hsend

/-- Everything in the topic and in the queue is a message of some order. -/
lemma mem_messages (hrun : IsRun (SimulationStep hash maxWorkers tasks.length)
    (Simulation.submitted config tasks) run) :
    (∀ m ∈ (final (Simulation.submitted config tasks) run).topic.queue,
        ∃ task ∈ tasks, m ∈ task.messages config) ∧
      ∀ q, ∀ m ∈ (final (Simulation.submitted config tasks) run).topic.log q,
        ∃ task ∈ tasks, m ∈ task.messages config := by
  refine IsRun.history_induction
    (P := fun _ s => (∀ m ∈ s.topic.queue, ∃ task ∈ tasks, m ∈ task.messages config) ∧
      ∀ q, ∀ m ∈ s.topic.log q, ∃ task ∈ tasks, m ∈ task.messages config)
    ⟨fun _ hm => absurd hm (by simp [Simulation.submitted, Topic.empty]),
      fun _ _ hm => absurd hm (by simp [Simulation.submitted, Topic.empty])⟩ ?_ run hrun
  rintro run _ ⟨l, fx, s'⟩ hsofar rfl ⟨hqueue, hlog⟩ hstep
  have hmore := isRun_concat.mpr ⟨hsofar, hstep⟩
  dsimp only at hstep
  cases hstep with
  | @turn l _ pool hpool =>
      have hscript : ∀ a ∈ fx, a ∈ taskEffects config tasks l.1 := by
        have hpoolrun := (isRun_poolRun hmore).1
        rw [poolRun_append] at hpoolrun
        exact mem_script_of_mem hpoolrun ⟨l, fx, pool⟩ (List.mem_append_right _ List.mem_cons_self)
      refine ⟨fun m hm => ?_, hlog⟩
      rcases List.mem_append.mp hm with hm | hm
      · exact hqueue m hm
      · have hown := mem_publications hscript m hm
        rw [taskEffects] at hown
        cases hget : tasks[l.1]? with
        | none =>
            rw [hget] at hown
            exact absurd hown List.not_mem_nil
        | some task =>
            rw [hget] at hown
            exact ⟨task, List.mem_of_getElem? hget, hown⟩
  | @delivery d topic hsend =>
      refine ⟨fun m hm => hqueue m (mem_queue_of_sendStep hsend hm), fun q m hm => ?_⟩
      rcases mem_log_of_sendStep hsend hm with hm | hm
      · exact hlog q m hm
      · exact hqueue m hm

/-- **What has been received of an order** is a part of the messages of its scenario. -/
theorem received_sublist (h : Addressed config tasks) (htask : task ∈ tasks)
    (hrun : IsRun (SimulationStep hash maxWorkers tasks.length) (Simulation.submitted config tasks)
      run) :
    ((final (Simulation.submitted config tasks) run).received hash task).Sublist
        (task.messages config) ∧
      (NoneFailed run → (final (Simulation.submitted config tasks) run).received hash task
        <+: task.messages config) := by
  obtain ⟨i, hi⟩ := List.getElem?_of_mem htask
  obtain ⟨hsub, heq⟩ := onItsWay_eq h hi hrun
  have hscript : taskEffects config tasks i =
      (runSingleOrder config task.context task.scenario).effects := by rw [taskEffects, hi]
  have hfirst : publications (outputs (project i (poolRun run))) <+: task.messages config := by
    rw [Task.messages, ← hscript, ← script_eq (isRun_poolRun hrun).1 i, publications_append]
    exact List.prefix_append _ _
  have hreceived : (final (Simulation.submitted config tasks) run).received hash task <+:
      (final (Simulation.submitted config tasks) run).onItsWay hash task := received_prefix _ _ _
  refine ⟨(hreceived.sublist.trans hsub).trans hfirst.sublist, fun hnone => ?_⟩
  rw [heq hnone] at hreceived
  exact hreceived.trans hfirst

/-- **At the end all of them have been received.** -/
theorem received_of_completed (h : Addressed config tasks) (htask : task ∈ tasks)
    (hrun : IsRun (SimulationStep hash maxWorkers tasks.length) (Simulation.submitted config tasks)
      run) (hnone : NoneFailed run)
    (hcompleted : (final (Simulation.submitted config tasks) run).Completed tasks.length) :
    (final (Simulation.submitted config tasks) run).received hash task = task.messages config := by
  obtain ⟨i, hi⟩ := List.getElem?_of_mem htask
  obtain ⟨hpool, hend⟩ := isRun_poolRun hrun
  have hdone : (final (Simulation.submitted config tasks).pool (poolRun run) i).phase = .done := by
    rw [hend]
    exact hcompleted.1 i (List.getElem?_eq_some_iff.mp hi).1
  have hway := (onItsWay_eq h hi hrun).2 hnone
  rw [Simulation.onItsWay, hcompleted.2.onItsWay_eq, script_of_done hpool hdone, taskEffects, hi]
    at hway
  exact hway

end Orders

/-- **The messages of an order arrive in order.**  Whatever the scenario files, the number of
workers, the partitioner, the interleaving of the tasks and the pace of the producer: in every state
of the run, what has been received of an order is in one partition and is a part of the messages of
its scenario, in their order.  While no delivery fails it is a first part of them; and when the run
is completed it is all of them, each once. -/
theorem delivered_in_order {load : String → Except Exception ScenarioFile}
    {config : SimulatorConfig} {now : ℕ → Datetime} {draws : ℕ → ℕ} {tasks : List Task}
    (hlabelled : ∀ name file, load name = .ok file → Labelled file.toScenario)
    (hkeys : ∀ name file, load name = .ok file → KeyedByOrder file.toScenario)
    (h : SimulatorRunner.run load config now draws = .ok tasks) {hash : Json → ℕ} {maxWorkers : ℤ}
    {run : List (Entry Simulation SimulationEvent Effect)}
    (hrun : IsRun (SimulationStep hash maxWorkers tasks.length) (Simulation.submitted config tasks)
      run) {task : Task} (htask : task ∈ tasks) :
    (∀ q, ∀ m ∈ (final (Simulation.submitted config tasks) run).topic.log q,
        m.1 = .str task.context.publishedId → q = hash (.str task.context.publishedId)) ∧
      ((final (Simulation.submitted config tasks) run).received hash task).Sublist
        (task.messages config) ∧
      (NoneFailed run →
        (final (Simulation.submitted config tasks) run).received hash task
            <+: task.messages config ∧
          ((final (Simulation.submitted config tasks) run).Completed tasks.length →
            (final (Simulation.submitted config tasks) run).received hash task
              = task.messages config)) := by
  have haddressed := addressed_of_run hlabelled hkeys h
  obtain ⟨hsub, hfirst⟩ := received_sublist haddressed htask hrun
  refine ⟨fun q m hm hkey => ?_, hsub, fun hnone => ⟨hfirst hnone, fun hcompleted => ?_⟩⟩
  · rw [← log_hash hrun q m hm, hkey]
  · exact received_of_completed haddressed htask hrun hnone hcompleted

/-! ## The end of a run -/

section Completion

lemma workers_pos (maxWorkers : ℤ) : 0 < workers maxWorkers := by
  rw [workers]
  omega

variable (hash : Json → ℕ) (maxWorkers : ℤ) (n : ℕ)

/-- The pool goes on, whatever the producer does. -/
lemma exists_simulation_of_pool {prun : List (Entry (Pool Effect) (ℕ × Turn) Effect)}
    {s : Simulation} (h : IsRun (PoolStep (workers maxWorkers) n) s.pool prun) :
    ∃ run, IsRun (SimulationStep hash maxWorkers n) s run ∧ NoneFailed run ∧
      (final s run).pool = final s.pool prun := by
  induction prun generalizing s with
  | nil => exact ⟨[], trivial, fun _ he => absurd he List.not_mem_nil, rfl⟩
  | cons e prun ih =>
      obtain ⟨hstep, hrest⟩ := h
      obtain ⟨run, hrun, hnone, hend⟩ :=
        @ih ⟨e.target, s.topic.produce (publications e.output)⟩ hrest
      have hturn : SimulationEvent.turn e.label ≠ .delivery .failed := by simp
      exact ⟨⟨.turn e.label, e.output, _⟩ :: run, ⟨.turn hstep, hrun⟩,
        noneFailed_cons.mpr ⟨hturn, hnone⟩, hend⟩

/-- The producer can deliver what it has queued. -/
lemma exists_flushed (s : Simulation) :
    ∃ run, IsRun (SimulationStep hash maxWorkers n) s run ∧ NoneFailed run ∧
      (final s run).pool = s.pool ∧ (final s run).topic.Flushed := by
  induction hqueue : s.topic.queue generalizing s with
  | nil => exact ⟨[], trivial, fun _ he => absurd he List.not_mem_nil, rfl, hqueue⟩
  | cons m rest ih =>
      have hsend : SendStep (fun m : Json × Json => hash m.1) s.topic .delivered
          ⟨rest, Function.update s.topic.log (hash m.1) (s.topic.log (hash m.1) ++ [m])⟩ :=
        @SendStep.delivered _ _ s.topic m [] rest hqueue fun _ hm => absurd hm List.not_mem_nil
      obtain ⟨run, hrun, hnone, hpool, hflushed⟩ := ih ⟨s.pool, ⟨rest, _⟩⟩ rfl
      have hdelivered : SimulationEvent.delivery .delivered ≠ .delivery .failed := by simp
      exact ⟨⟨.delivery .delivered, [], _⟩ :: run, ⟨.delivery hsend, hrun⟩,
        noneFailed_cons.mpr ⟨hdelivered, hnone⟩, hpool, hflushed⟩

/-- The run can go on to its end. -/
lemma exists_completed (s : Simulation) :
    ∃ more, IsRun (SimulationStep hash maxWorkers n) s more ∧ NoneFailed more ∧
      (final s more).Completed n := by
  obtain ⟨prun, hprun, hdone⟩ := exists_done n (workers_pos maxWorkers) s.pool
  obtain ⟨work, hwork, hnone, hend⟩ := exists_simulation_of_pool hash maxWorkers n hprun
  obtain ⟨sent, hsent, hnone', hpool, hflushed⟩ := exists_flushed hash maxWorkers n (final s work)
  refine ⟨work ++ sent, isRun_append.mpr ⟨hwork, hsent⟩, noneFailed_append.mpr ⟨hnone, hnone'⟩,
    ?_, ?_⟩
  · rw [final_append, hpool, hend]
    exact hdone
  · rw [final_append]
    exact hflushed

end Completion

/-- **The run comes to its end.**  Whatever `max_workers` is, zero and negative numbers included, no
more than `max(1, max_workers)` orders run at a time, and from every state the run can go on until
all tasks are done and the producer is flushed. -/
theorem simulation_completes {hash : Json → ℕ} {maxWorkers : ℤ} {config : SimulatorConfig}
    {tasks : List Task} {run : List (Entry Simulation SimulationEvent Effect)}
    (hrun : IsRun (SimulationStep hash maxWorkers tasks.length) (Simulation.submitted config tasks)
      run) :
    ((final (Simulation.submitted config tasks) run).pool.runningCount tasks.length : ℤ)
        ≤ max 1 maxWorkers ∧
      ∃ more, IsRun (SimulationStep hash maxWorkers tasks.length)
          (final (Simulation.submitted config tasks) run) more ∧ NoneFailed more ∧
        (final (final (Simulation.submitted config tasks) run) more).Completed tasks.length := by
  refine ⟨?_, exists_completed hash maxWorkers tasks.length _⟩
  obtain ⟨hpool, hend⟩ := isRun_poolRun hrun
  have hzero : (Simulation.submitted config tasks).pool.runningCount tasks.length = 0 := by
    rw [Pool.runningCount, Finset.card_eq_zero, Finset.filter_eq_empty_iff]
    exact fun _ _ hrunning => absurd hrunning (by simp [Simulation.submitted, Pool.submitted])
  have hle : (final (Simulation.submitted config tasks).pool (poolRun run)).runningCount
      tasks.length ≤ workers maxWorkers :=
    @IsRun.invariant _ _ _ (PoolStep (workers maxWorkers) tasks.length)
      (fun pool => pool.runningCount tasks.length ≤ workers maxWorkers)
      (fun _ _ _ _ hle hs => runningCount_le hle hs) _ (hzero ▸ Nat.zero_le _) _ hpool
  rw [hend, workers] at hle
  omega

/-! ## Completed runs -/

section Completed

/-- **A completed run of the simulator.**  The tasks are those of its scenario, all of them are done,
the producer is flushed, and no delivery has failed. -/
structure CompletedRun (load : String → Except Exception ScenarioFile) (config : SimulatorConfig)
    (now : ℕ → Datetime) (draws : ℕ → ℕ) (tasks : List Task) (hash : Json → ℕ) (maxWorkers : ℤ)
    (run : List (Entry Simulation SimulationEvent Effect)) : Prop where
  tasks_eq : SimulatorRunner.run load config now draws = .ok tasks
  isRun : IsRun (SimulationStep hash maxWorkers tasks.length) (Simulation.submitted config tasks) run
  noneFailed : NoneFailed run
  completed : (final (Simulation.submitted config tasks) run).Completed tasks.length

variable {load : String → Except Exception ScenarioFile} {config : SimulatorConfig}
  {now : ℕ → Datetime} {draws : ℕ → ℕ} {tasks : List Task} {hash : Json → ℕ} {maxWorkers : ℤ}

/-- Then all messages of an order have been received. -/
lemma CompletedRun.received_eq {run : List (Entry Simulation SimulationEvent Effect)}
    (h : CompletedRun load config now draws tasks hash maxWorkers run)
    (hlabelled : ∀ name file, load name = .ok file → Labelled file.toScenario)
    (hkeys : ∀ name file, load name = .ok file → KeyedByOrder file.toScenario)
    {task : Task} (htask : task ∈ tasks) :
    (final (Simulation.submitted config tasks) run).received hash task = task.messages config :=
  received_of_completed (addressed_of_run hlabelled hkeys h.tasks_eq) htask h.isRun h.noneFailed
    h.completed

/-- Every scenario has one. -/
lemma exists_completedRun (h : SimulatorRunner.run load config now draws = .ok tasks) :
    ∃ run, CompletedRun load config now draws tasks hash maxWorkers run := by
  obtain ⟨run, hrun, hnone, hcompleted⟩ := exists_completed hash maxWorkers tasks.length
    (Simulation.submitted config tasks)
  exact ⟨run, h, hrun, hnone, hcompleted⟩

end Completed

/-! ## Two orders -/

/-- A file with one event. -/
def createdOrders : ScenarioFile where
  scenarioName := some "created-orders"
  events := [[("step", .int 1), ("value", .dict [("orderId", .str (placeholder "orderId")),
    ("status", .str "CREATED"), ("expectedDeliveryTime", .str "now")])]]
  includedScenarios := []
  distribution := .dict []

def onlyCreated (_name : String) : Except Exception ScenarioFile := .ok createdOrders

def twoOrders : SimulatorConfig :=
  { scenario := "created-orders", ordersCount := 2, orderIdPrefix := "ord", scaleDelay := .ok
    pauseAfterStep := 0, pauseDurationSeconds := 0 }

/-- The two tasks. -/
def createdTasks : List Task := runSingleScenario twoOrders (fun _ => noon) createdOrders

def firstCreated : Task where
  scenarioName := "created-orders"
  context := createOrderContext twoOrders noon 1 "created-orders"
  scenario := createdOrders.toScenario

/-- Two workers run the two orders to the end, and the message of the first one has arrived. -/
theorem delivered_in_order_twoOrders :
    ∃ run, IsRun (SimulationStep (fun _ => 0) 2 createdTasks.length)
        (Simulation.submitted twoOrders createdTasks) run ∧
      ((final (Simulation.submitted twoOrders createdTasks) run).received (fun _ => 0)
        firstCreated).map (fun m => orderIdOf m.2) = [some "ord-created-orders-0001"] := by
  obtain ⟨run, hrun, hnone, hcompleted⟩ := exists_completed (fun _ => 0) 2 createdTasks.length
    (Simulation.submitted twoOrders createdTasks)
  have hlabelled : ∀ name file, onlyCreated name = .ok file → Labelled file.toScenario := by
    rintro _ _ ⟨⟩ ev hev valueTemplate hvalue
    obtain rfl := List.mem_singleton.mp hev
    cases hvalue
    rfl
  have hkeys : ∀ name file, onlyCreated name = .ok file → KeyedByOrder file.toScenario := by
    rintro _ _ ⟨⟩ ev hev
    obtain rfl := List.mem_singleton.mp hev
    rfl
  have htasks : SimulatorRunner.run onlyCreated twoOrders (fun _ => noon) id = .ok createdTasks := rfl
  have hmem : firstCreated ∈ createdTasks := List.mem_cons_self
  have hall := (delivered_in_order hlabelled hkeys htasks hrun hmem).2.2 hnone
  refine ⟨run, hrun, ?_⟩
  rw [hall.2 hcompleted]
  decide +kernel

/-- The same from the start, with `MAX_WORKERS=0`: one worker does it. -/
theorem simulation_completes_noWorkers :
    ∃ more, IsRun (SimulationStep (fun _ => 0) 0 createdTasks.length)
        (Simulation.submitted twoOrders createdTasks) more ∧
      (final (Simulation.submitted twoOrders createdTasks) more).Completed createdTasks.length := by
  have hstart : IsRun (SimulationStep (fun _ => 0) 0 createdTasks.length)
      (Simulation.submitted twoOrders createdTasks) [] := trivial
  obtain ⟨more, hmore, _, hcompleted⟩ := (simulation_completes hstart).2
  exact ⟨more, hmore, hcompleted⟩

end OrderSimulator
