import DelayedOrderSms.Pipeline.Reading
import DelayedOrderSms.Recovery.ExactlyOnce
import DelayedOrderSms.Simulator.Scenarios

/-!
# From the scenario file to the state of the job

The simulator publishes its orders from a pool of threads, the topic keeps them in partitions, and
the job reads these through crashes and restarts.  Of all that interleaving nothing is left in the
state of an order: it is the newest of some messages of the scenario file that follow each other.

* `FedBy` — the job has been given a first part of what is in the topic.
* `onlyIn_of_fedBy` — the messages of an order come from one partition;
  `exists_seen` — those that the job has seen are messages of its scenario in their order.
* `stored_newest_published` — what the job stores of an order.
-/

namespace EndToEnd

open Python Java Systems Flink DelayedOrderSms Kafka
open OrderSimulator (SimulatorConfig ScenarioFile Scenario Task Simulation SimulationEvent
  SimulationStep NoneFailed Addressed isKeyedBy isKeyedBy_iff orderIdOf orderIdOf_eq_some_iff
  createOrderContext delayedFile noon)

/-- The orders in some messages, as `read` has them: what is no order is dropped. -/
def ordersIn (read : Json → Option OrderState) (messages : List (Json × Json)) : List OrderState :=
  messages.filterMap fun m => read m.2

/-- What the parser reads as an order has the order id of the message. -/
def ReadsOrderId (read : Json → Option OrderState) : Prop :=
  ∀ value o, read value = some o → ∀ orderId, orderIdOf value = some orderId →
    o.orderId = some orderId

/-- **The job has been given a first part of what is in the topic**, partition by partition. -/
def FedBy (read : Json → Option OrderState) (s : Simulation) (d : Deployed) : Prop :=
  ∀ q, d.input q <+: ordersIn read (s.topic.log q)

section Fed

variable {read : Json → Option OrderState} (hread : ReadsOrderId read)
  {hash : Json → ℕ} {maxWorkers : ℤ} {config : SimulatorConfig} {tasks : List Task}
  (haddressed : Addressed config tasks)
  {srun : List (Entry Simulation SimulationEvent OrderSimulator.Effect)}
  (hsrun : IsRun (SimulationStep hash maxWorkers tasks.length)
    (Simulation.submitted config tasks) srun)
include hread haddressed hsrun

/-- A message in the topic that is read as an order of some id has that id as its key. -/
lemma isKeyedBy_of_read {q : ℕ} {m : Json × Json}
    (hm : m ∈ (final (Simulation.submitted config tasks) srun).topic.log q) {o : OrderState}
    (ho : read m.2 = some o) (orderId : String) :
    o.orderId = some orderId ↔ isKeyedBy orderId m = true := by
  obtain ⟨task, htask, hmessage⟩ := (OrderSimulator.mem_messages hsrun).2 q m hm
  have hid := hread m.2 o ho _ (haddressed.carries task htask m hmessage)
  rw [hid, isKeyedBy_iff, haddressed.key task htask m hmessage, Option.some.injEq, Json.str.injEq]

variable {d : Deployed} (hfed : FedBy read (final (Simulation.submitted config tasks) srun) d)
include hfed

/-- The messages of an order come from one partition. -/
lemma onlyIn_of_fedBy (orderId : String) : OnlyIn (hash (.str orderId)) orderId d.input := by
  intro q hq o ho hid
  obtain ⟨m, hm, hreads⟩ := List.mem_filterMap.mp ((hfed q).subset ho)
  have hkeyed := (isKeyedBy_of_read hread haddressed hsrun hm hreads orderId).mp hid
  refine hq ?_
  rw [← OrderSimulator.log_hash hsrun q m hm, isKeyedBy_iff.mp hkeyed]

/-- The snapshots of an order in a stretch of its partition are those in some messages that follow
each other among the received ones. -/
lemma exists_seen (orderId : String) (start stop : ℕ) :
    ∃ seen, seen <:+: (final (Simulation.submitted config tasks) srun).topic.received
        (isKeyedBy orderId) (hash (.str orderId)) ∧
      snapshotsOf orderId (stretch (d.input (hash (.str orderId))) start stop) =
        (ordersIn read seen).filterMap Snapshot.of? := by
  have hstretch : stretch (d.input (hash (.str orderId))) start stop <:+:
      ordersIn read ((final (Simulation.submitted config tasks) srun).topic.log
        (hash (.str orderId))) :=
    (List.drop_suffix start _).isInfix.trans
      ((List.take_prefix stop _).isInfix.trans (hfed _).isInfix)
  have hfilter : (ordersIn read ((final (Simulation.submitted config tasks) srun).topic.log
      (hash (.str orderId)))).filter (·.orderId = some orderId) =
      ordersIn read ((final (Simulation.submitted config tasks) srun).topic.received
        (isKeyedBy orderId) (hash (.str orderId))) := by
    rw [ordersIn, ordersIn, Topic.received, List.filterMap_filter, ← List.filterMap_eq_filter,
      List.filterMap_filterMap]
    refine List.filterMap_congr fun m hm => ?_
    cases hreads : read m.2 with
    | none => simp
    | some o =>
        have hiff := isKeyedBy_of_read hread haddressed hsrun hm hreads orderId
        by_cases hkeyed : isKeyedBy orderId m = true
        · simp [hkeyed, hiff.mpr hkeyed, Option.guard]
        · have hother : ¬o.orderId = some orderId := fun h => hkeyed (hiff.mp h)
          simp [hkeyed, hother, Option.guard]
  have hinfix := hstretch.filter (·.orderId = some orderId)
  rw [hfilter, ordersIn, List.infix_filterMap_iff] at hinfix
  obtain ⟨seen, hseen, heq⟩ := hinfix
  exact ⟨seen, hseen, by rw [snapshotsOf, heq, ordersIn]⟩

end Fed

/-- **What the job stores of a simulated order.**  For all scenario files that name their orders by
the placeholder, in the values and in the keys, any interleaving of the simulator's threads and
its producer, any partitioner, and any deployment of the job on the topic, with crashes and
restarts: the running job, the triggered checkpoint and the completed one each store of every order
the newest of the snapshots that they have consumed of it, and these are the ones in some of the
messages of its scenario, in their order.  While no delivery fails these are messages that follow
each other. -/
theorem stored_newest_published {load : String → Except Exception ScenarioFile}
    {config : SimulatorConfig} {now : ℕ → Datetime} {draws : ℕ → ℕ} {tasks : List Task}
    (hlabelled : ∀ name file, load name = .ok file → OrderSimulator.Labelled file.toScenario)
    (hkeys : ∀ name file, load name = .ok file → OrderSimulator.KeyedByOrder file.toScenario)
    (htasks : OrderSimulator.SimulatorRunner.run load config now draws = .ok tasks)
    {hash : Json → ℕ} {maxWorkers : ℤ}
    {srun : List (Entry Simulation SimulationEvent OrderSimulator.Effect)}
    (hsrun : IsRun (SimulationStep hash maxWorkers tasks.length)
      (Simulation.submitted config tasks) srun)
    {guarantee : DeliveryGuarantee} {backend : Backend}
    {drun : List (Entry Deployed DeployedEvent SmsCommand)}
    (hdrun : IsRun (DeployStep (pipeline guarantee ⟨backend, none⟩)) Deployment.initial drun)
    {read : Json → Option OrderState} (hread : ReadsOrderId read)
    (hfed : FedBy read (final (Simulation.submitted config tasks) srun)
      (final Deployment.initial drun))
    {task : Task} (htask : task ∈ tasks) :
    ∀ c, (final Deployment.initial drun).Position c → ∃ seen : List (Json × Json),
      seen.Sublist (task.messages config) ∧ (NoneFailed srun → seen <:+: task.messages config) ∧
        consumedSnapshots drun (hash (.str task.context.publishedId)) task.context.publishedId c
          = (ordersIn read seen).filterMap Snapshot.of? ∧
        ∀ s, (∃ current ∈ (c.state task.context.publishedId).kept, Stores current s) ↔
          newest Snapshot.lastUpdatedAt none ((ordersIn read seen).filterMap Snapshot.of?)
            = some s := by
  intro c hc
  have haddressed := OrderSimulator.addressed_of_run hlabelled hkeys htasks
  have hpartition := onlyIn_of_fedBy hread haddressed hsrun hfed task.context.publishedId
  obtain ⟨seen, hseen, heq⟩ := exists_seen hread haddressed hsrun hfed task.context.publishedId
    (begunAt (fun _ => 0) Deployment.initial drun (hash (.str task.context.publishedId)))
    (c.offsets (hash (.str task.context.publishedId)))
  obtain ⟨hsub, hnone⟩ := OrderSimulator.received_sublist haddressed htask hsrun
  refine ⟨seen, hseen.sublist.trans hsub, fun hall => hseen.trans (hnone hall).isInfix, heq,
    fun s => ?_⟩
  rw [stored_iff_of_lineage hpartition (from_begunAt (from_initial _ _) hdrun c hc) s, heq]

/-! ## One order -/

/-- One order of `delayed-orders.json`, at noon. -/
def oneOrder : SimulatorConfig where
  scenario := "delayed-orders"
  ordersCount := 1
  orderIdPrefix := "ord"
  scaleDelay := .ok
  pauseAfterStep := 0
  pauseDurationSeconds := 0

def onlyDelayed (_name : String) : Except Exception ScenarioFile := .ok delayedFile

def delayedTask : Task where
  scenarioName := "delayed-orders"
  context := createOrderContext oneOrder noon 1 "delayed-orders"
  scenario := delayedFile.toScenario

/-- A snapshot of the order, updated some seconds after noon. -/
def delayedSnapshot (status : OrderStatus) (seconds : ℤ) : Snapshot where
  orderId := "ord-delayed-orders-0001"
  customerId := some "cus-0001"
  storeId := some "store-001"
  status := status
  expectedDeliveryTime := .ofEpochMilli (.of 1778587170000)
  lastUpdatedAt := .ofEpochMilli (.of (1778587200000 + seconds * 1000))

lemma tasks_oneOrder : OrderSimulator.SimulatorRunner.run onlyDelayed oneOrder (fun _ => noon) id
    = .ok [delayedTask] := rfl

lemma labelled_onlyDelayed (name : String) (file : ScenarioFile) (h : onlyDelayed name = .ok file) :
    OrderSimulator.Labelled file.toScenario := by
  cases h
  exact fun ev hev => (OrderSimulator.shippedEvent_of_mem ("delayed-orders", delayedFile)
    (by simp [OrderSimulator.scenarioFiles]) ev hev).value

lemma keyedByOrder_onlyDelayed (name : String) (file : ScenarioFile)
    (h : onlyDelayed name = .ok file) : OrderSimulator.KeyedByOrder file.toScenario := by
  cases h
  exact fun ev hev => (OrderSimulator.shippedEvent_of_mem ("delayed-orders", delayedFile)
    (by simp [OrderSimulator.scenarioFiles]) ev hev).getD_key

lemma messages_delayedTask : ordersIn OrderState.ofJson (delayedTask.messages oneOrder)
    = [(delayedSnapshot .CREATED 0).toOrderState, (delayedSnapshot .ACCEPTED 10).toOrderState] := by
  decide +kernel

lemma readsOrderId_ofJson : ReadsOrderId OrderState.ofJson := by
  intro value o ho orderId hid
  obtain ⟨d, hd, rfl⟩ := Option.map_eq_some_iff.mp ho
  obtain ⟨entries, rfl, hdocuments⟩ := exists_dict_of_readDocument hd
  have horder : OrderSimulator.orderIdOf (.dict entries) = textAt entries "orderId" := rfl
  rw [← hid, horder, hdocuments.orderId]
  rfl

/-- The topic with the first of its messages, and the job that has consumed it. -/
def delayedInput : ℕ → List OrderState :=
  Function.update (fun _ => []) 0 [(delayedSnapshot .CREATED 0).toOrderState]

def notifiedJob : Running Job ℕ SmsCommand where
  position := ⟨Function.update Job.initial "ord-delayed-orders-0001"
    ((wrote ⟨delayedSnapshot .CREATED 0, true, none⟩ (.of 1778587201000) ∅).map
      Tracked.toDelayState), Function.update (fun _ => 0) 0 1⟩
  buffer := [(delayedSnapshot .CREATED 0).delayCommand (.of 1778587201000)]
  pending := none

/-- The job is started and consumes the first message. -/
def createdConsumed : List (Entry Deployed DeployedEvent SmsCommand) :=
  [⟨.restore, [], ⟨some starting1, none, fun _ => [], []⟩⟩,
   ⟨.publish 0 (delayedSnapshot .CREATED 0).toOrderState, [],
    ⟨some starting1, none, delayedInput, []⟩⟩,
   ⟨.consume 0 ("ord-delayed-orders-0001", .element (.of 1778587201000) (.ofEpochMilli (.of 0))
      (delayedSnapshot .CREATED 0).toOrderState), [],
    ⟨some notifiedJob, none, delayedInput, []⟩⟩]

lemma isRun_createdConsumed :
    IsRun (DeployStep (pipeline .none ⟨.rocksDB, none⟩)) Deployment.initial createdConsumed := by
  have hstep : JobStep ⟨.rocksDB, none⟩ Job.initial ("ord-delayed-orders-0001",
      .element (.of 1778587201000) (.ofEpochMilli (.of 0)) (delayedSnapshot .CREATED 0).toOrderState)
      ((delayedSnapshot .CREATED 0).notification (.of 1778587201000)) notifiedJob.position.state :=
    .at_key (.element rfl rfl)
  have hconsume : DeployStep (pipeline .none ⟨.rocksDB, none⟩)
      ⟨some starting1, none, delayedInput, []⟩
      (.consume 0 ("ord-delayed-orders-0001", .element (.of 1778587201000) (.ofEpochMilli (.of 0))
        (delayedSnapshot .CREATED 0).toOrderState)) []
      ⟨some notifiedJob, none, delayedInput, []⟩ :=
    @DeployStep.consume _ _ _ _ _ _ _ (pipeline .none ⟨.rocksDB, none⟩) _ starting1 _ _
      (delayedSnapshot .CREATED 0).toOrderState
      ((delayedSnapshot .CREATED 0).notification (.of 1778587201000)) _ rfl rfl rfl hstep
  exact ⟨.restore rfl, .publish, hconsume, trivial⟩

/-- It has consumed the first message of the file, and stores it. -/
theorem stored_newest_published_created :
    ∃ current ∈ (notifiedJob.position.state delayedTask.context.publishedId).kept,
      Stores current (delayedSnapshot .CREATED 0) := by
  obtain ⟨srun, hcompleted⟩ :=
    @OrderSimulator.exists_completedRun _ _ _ _ _ (fun _ => 0) 1 tasks_oneOrder
  have htask : delayedTask ∈ [delayedTask] := List.mem_singleton.mpr rfl
  have haddressed := OrderSimulator.addressed_of_run labelled_onlyDelayed keyedByOrder_onlyDelayed
    tasks_oneOrder
  have hlog : (final (Simulation.submitted oneOrder [delayedTask]) srun).topic.log 0
      = delayedTask.messages oneOrder := by
    rw [← hcompleted.received_eq labelled_onlyDelayed keyedByOrder_onlyDelayed htask]
    refine (List.filter_eq_self.mpr fun m hm => ?_).symm
    obtain ⟨task, ht, hmessage⟩ := (OrderSimulator.mem_messages hcompleted.isRun).2 0 m hm
    obtain rfl := List.mem_singleton.mp ht
    exact isKeyedBy_iff.mpr (haddressed.key _ htask m hmessage)
  have hfed : FedBy OrderState.ofJson (final (Simulation.submitted oneOrder [delayedTask]) srun)
      (final Deployment.initial createdConsumed) := by
    intro q
    by_cases hq : q = 0
    · subst hq
      rw [hlog, messages_delayedTask]
      exact ⟨[(delayedSnapshot .ACCEPTED 10).toOrderState], rfl⟩
    · have hempty : (final Deployment.initial createdConsumed).input q = [] := by
        show delayedInput q = []
        rw [delayedInput, Function.update_of_ne hq]
      rw [hempty]
      exact List.nil_prefix
  obtain ⟨seen, _, _, hseen, hstored⟩ := stored_newest_published labelled_onlyDelayed
    keyedByOrder_onlyDelayed tasks_oneOrder hcompleted.isRun isRun_createdConsumed readsOrderId_ofJson
    hfed htask
    notifiedJob.position (.running (t := notifiedJob) rfl)
  have hconsumed : consumedSnapshots createdConsumed 0 "ord-delayed-orders-0001"
      notifiedJob.position = [delayedSnapshot .CREATED 0] := rfl
  have hid : delayedTask.context.publishedId = "ord-delayed-orders-0001" := by decide +kernel
  rw [hid] at hseen hstored ⊢
  refine (hstored _).mpr ?_
  rw [← hseen, hconsumed]
  rfl

end EndToEnd
