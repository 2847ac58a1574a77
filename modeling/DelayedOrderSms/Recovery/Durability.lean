import DelayedOrderSms.Processor.Steps
import DelayedOrderSms.Flink.Checkpoint

/-!
# Commands across failures

The job as `DelayedOrderSmsJob` deploys it: checkpoints in mode `EXACTLY_ONCE`, which cover the
state and the timers of the operator and the offsets of the source, and a `KafkaSink` for the
commands on whose builder no delivery guarantee is set.

The flag `delaySmsEmitted` is in the checkpoint, the command is with the producer.

* `notified_durable_iff` — orders that the last completed checkpoint marks as notified have a
  command in the topic, all along, exactly when no checkpoint completes while the command of such
  an order is only in the buffer of the producer.
* `command_lost` — a run in which one does, and the job crashes.
* `notified_durable_at_least_once` — with `AT_LEAST_ONCE` it cannot happen.
-/

namespace DelayedOrderSms

open Java Flink Systems

/-- The guarantee of the commands' sink: `main` calls `setBootstrapServers` and
`setRecordSerializer` on the builder, whose default is `NONE`. -/
def smsSinkGuarantee : DeliveryGuarantee := .none

/-- The operator between its source and a sink for its commands. -/
def pipeline (guarantee : DeliveryGuarantee) (config : StateConfig) :
    Pipeline Job (String × KeyEvent OrderState) OrderState Effect SmsCommand where
  initial := Job.initial
  step := JobStep config
  incoming? := fun l => l.2.incoming?
  collected? := Effect.command?
  sinkGuarantee := guarantee

/-- The job as `main` builds it, with the partitions of the orders topic numbered. -/
def delayedOrderSmsJob (stateTtlDays : ℕ) :
    Pipeline Job (String × KeyEvent OrderState) OrderState Effect SmsCommand :=
  pipeline smsSinkGuarantee (stateConfig stateTtlDays)

/-- The job and the two topics. -/
abbrev Deployed : Type := Deployment Job ℕ OrderState SmsCommand

/-- What happens to them. -/
abbrev DeployedEvent : Type := DeployEvent (String × KeyEvent OrderState) ℕ OrderState SmsCommand

/-- The stored state records that the order has been notified. -/
def RecordsNotified (job : Job) (k : String) : Prop :=
  ∃ current ∈ (job k).kept, current.delaySmsEmitted = true

/-- The command has the command id of the order. -/
def IsCommandOf (command : SmsCommand) (k : String) : Prop := command.commandId = k ++ ":DELAY_SMS"

/-- What is stored under a key is the order with that id. -/
def StoredUnder (k : String) (r : Slot OrderDelayState) : Prop :=
  ∃ slot : Slot Tracked, HasKey k slot ∧ r = slot.map Tracked.toDelayState

/-- Every order is stored under its id. -/
def KeyedById (job : Job) : Prop := ∀ k, StoredUnder k (job k)

lemma recordsNotified_iff {job : Job} {k : String} {slot : Slot Tracked}
    (h : job k = slot.map Tracked.toDelayState) :
    RecordsNotified job k ↔ notified slot.kept = true := by
  rw [RecordsNotified, h, Slot.map_kept]
  cases slot.kept with
  | none => simp
  | some t => simp

lemma keyedById_initial : KeyedById Job.initial := fun k => ⟨Slot.empty, hasKey_empty k, rfl⟩

section Step

variable {config : StateConfig} {job job' : Job} {l : String × KeyEvent OrderState}
  {fx : List Effect}

lemma KeyedById.step (h : KeyedById job) (hs : JobStep config job l fx job') :
    KeyedById job' := by
  have keep : ∀ k r e fx r', StoredUnder k r → KeyStep delayedOrderOperator config k r e fx r' →
      StoredUnder k r' := by
    rintro k _ e fx _ ⟨slot, hk, rfl⟩ hstep
    obtain ⟨slot', hts, rfl⟩ := (keyStep_embeds config k _ _ _ _).mp hstep
    exact ⟨slot', hts.hasKey hk, rfl⟩
  exact KeyedStep.invariant keep h hs

/-- **A step that marks an order as notified emits its command.** -/
theorem recordsNotified_step {k : String} (h : KeyedById job) (hs : JobStep config job l fx job')
    (hn : RecordsNotified job' k) :
    RecordsNotified job k ∨ ∃ c ∈ commands fx, IsCommandOf c k := by
  obtain ⟨slot, hkey, hslot⟩ := h k
  by_cases hk : k = l.1
  · subst hk
    have hstep := hs.at_same
    rw [hslot] at hstep
    obtain ⟨slot', hts, hslot'⟩ := (keyStep_embeds config l.1 _ _ _ _).mp hstep
    rw [recordsNotified_iff hslot'] at hn
    rw [recordsNotified_iff hslot]
    exact hts.notified_or_command hkey hn
  · have hsame : job' k = job k := hs.at_other hk
    rw [RecordsNotified, hsame] at hn
    exact .inl hn

end Step

/-- The flags of the orders are a ledger of the commands. -/
lemma ledger_notified (guarantee : DeliveryGuarantee) (config : StateConfig) :
    Ledger (pipeline guarantee config) KeyedById RecordsNotified IsCommandOf where
  valid_initial := keyedById_initial
  unmarked_initial := by
    rintro k ⟨current, hcur, _⟩
    exact absurd hcur (by simp [pipeline, Job.initial, Slot.empty, Slot.kept])
  valid_step := fun h hs => h.step hs
  marked_step := fun h hs hn => recordsNotified_step h hs hn

/-- **When no notified order is without a command.**  Under any interleaving of the operator, its
timers, the producer, checkpoints, crashes and restarts: in every state reached, every order the
last completed checkpoint records as notified has a command in the topic, exactly when no
checkpoint completes while a command of an order it records as notified is in the buffer of the
producer and none is in the topic. -/
theorem notified_durable_iff {stateTtlDays : ℕ} {run : List (Entry Deployed DeployedEvent SmsCommand)}
    (h : IsRun (DeployStep (delayedOrderSmsJob stateTtlDays)) Deployment.initial run) :
    (∀ r, r <+: run →
      Durable RecordsNotified IsCommandOf (final (Deployment.initial : Deployed) r)) ↔
      ∀ x ∈ transitions Deployment.initial run,
        Settled RecordsNotified IsCommandOf x.1 x.2.label :=
  durable_iff (ledger_notified smsSinkGuarantee (stateConfig stateTtlDays)) h

/-- **`AT_LEAST_ONCE` keeps the contract**: with that guarantee on the sink, in every state
reached every order that the last completed checkpoint records as notified has a command in the
topic. -/
theorem notified_durable_at_least_once {config : StateConfig}
    {run : List (Entry Deployed DeployedEvent SmsCommand)}
    (h : IsRun (DeployStep (pipeline .atLeastOnce config)) Deployment.initial run) :
    Durable RecordsNotified IsCommandOf (final (Deployment.initial : Deployed) run) :=
  durable_of_flush (ledger_notified .atLeastOnce config) rfl h

/-! ## Order 1 is notified and the job crashes -/

/-- The command of order 1. -/
def command1 : SmsCommand := order1.delayCommand (.of 601000)

/-- Order 1 waits. -/
def jobWaiting1 : Job := Function.update Job.initial "order-1" waiting1

/-- It has been notified. -/
def jobNotified1 : Job := Function.update jobWaiting1 "order-1" fired1.target

/-- The topic of the orders with the snapshot of order 1 in its first partition. -/
def orders1 : ℕ → List OrderState := Function.update (fun _ => []) 0 [order1.toOrderState]

/-- The offsets when that has been read. -/
def offsets1 : ℕ → ℕ := Function.update (fun _ => 0) 0 1

/-- The job before it has read the snapshot, and after. -/
def starting1 : Running Job ℕ SmsCommand := ⟨⟨Job.initial, fun _ => 0⟩, [], none⟩

def waitingRun1 : Running Job ℕ SmsCommand := ⟨⟨jobWaiting1, offsets1⟩, [], none⟩

/-- The job when order 1 has been notified. -/
def notifiedRun1 (buffer : List SmsCommand) (pending : Option (Checkpoint Job ℕ)) :
    Running Job ℕ SmsCommand :=
  ⟨⟨jobNotified1, offsets1⟩, buffer, pending⟩

/-- The checkpoint that is taken then. -/
def checkpoint1 : Checkpoint Job ℕ := ⟨jobNotified1, offsets1⟩

/-- The job is started, consumes the snapshot of order 1, and its timer fires. -/
def notifying1 : List (Entry Deployed DeployedEvent SmsCommand) :=
  [⟨.restore, [], ⟨some starting1, none, fun _ => [], []⟩⟩,
   ⟨.publish 0 order1.toOrderState, [], ⟨some starting1, none, orders1, []⟩⟩,
   ⟨.consume 0 ("order-1", accepted1.label), [], ⟨some waitingRun1, none, orders1, []⟩⟩,
   ⟨.internal ("order-1", fired1.label), [],
    ⟨some (notifiedRun1 [command1] none), none, orders1, []⟩⟩,
   ⟨.trigger, [], ⟨some (notifiedRun1 [command1] (some checkpoint1)), none, orders1, []⟩⟩]

lemma isRun_notifying1 :
    IsRun (DeployStep (delayedOrderSmsJob 7)) Deployment.initial notifying1 := by
  have haccepted : JobStep (stateConfig 7) Job.initial ("order-1", accepted1.label) []
      jobWaiting1 := .at_key (.element rfl rfl)
  have hfired : JobStep (stateConfig 7) jobWaiting1 ("order-1", fired1.label) fired1.output
      jobNotified1 := .at_key (.timer (by decide) (by decide) rfl)
  have hconsume : DeployStep (delayedOrderSmsJob 7) ⟨some starting1, none, orders1, []⟩
      (.consume 0 ("order-1", accepted1.label)) [] ⟨some waitingRun1, none, orders1, []⟩ :=
    @DeployStep.consume _ _ _ _ _ _ _ (delayedOrderSmsJob 7) _ starting1 _ _ order1.toOrderState
      [] _ rfl rfl rfl haccepted
  have hinternal : DeployStep (delayedOrderSmsJob 7) ⟨some waitingRun1, none, orders1, []⟩
      (.internal ("order-1", fired1.label)) []
      ⟨some (notifiedRun1 [command1] none), none, orders1, []⟩ :=
    @DeployStep.internal _ _ _ _ _ _ _ (delayedOrderSmsJob 7) _ waitingRun1 _ fired1.output _
      rfl rfl hfired
  have htrigger : DeployStep (delayedOrderSmsJob 7)
      ⟨some (notifiedRun1 [command1] none), none, orders1, []⟩ .trigger []
      ⟨some (notifiedRun1 [command1] (some checkpoint1)), none, orders1, []⟩ :=
    .trigger (t := notifiedRun1 [command1] none) rfl rfl fun h => absurd h (by decide)
  exact ⟨.restore rfl, .publish, hconsume, hinternal, htrigger, trivial⟩

/-- The checkpoint completes before the producer has sent the command, the job crashes and is
restored. -/
def lost1 : List (Entry Deployed DeployedEvent SmsCommand) :=
  [⟨.complete, [], ⟨some (notifiedRun1 [command1] none), some checkpoint1, orders1, []⟩⟩,
   ⟨.crash, [], ⟨none, some checkpoint1, orders1, []⟩⟩,
   ⟨.restore, [], ⟨some (notifiedRun1 [] none), some checkpoint1, orders1, []⟩⟩]

/-- **A command is lost**: after the restart order 1 is recorded as notified, and no command is in
the topic or on its way to it. -/
theorem command_lost :
    IsRun (DeployStep (delayedOrderSmsJob 7)) Deployment.initial (notifying1 ++ lost1) ∧
      ¬ Durable RecordsNotified IsCommandOf (final Deployment.initial (notifying1 ++ lost1)) ∧
      (∀ t ∈ (final Deployment.initial (notifying1 ++ lost1)).job,
        RecordsNotified t.position.state "order-1" ∧ t.buffer = []) := by
  have hnotified : RecordsNotified jobNotified1 "order-1" :=
    ⟨(⟨order1, true, none⟩ : Tracked).toDelayState, rfl, rfl⟩
  refine ⟨isRun_append.mpr ⟨isRun_notifying1, ?_⟩, fun hdurable => ?_, ?_⟩
  · exact ⟨.complete (t := notifiedRun1 [command1] (some checkpoint1)) rfl rfl, .crash,
      .restore rfl, trivial⟩
  · obtain ⟨_, hmem, _⟩ := hdurable checkpoint1 rfl "order-1" hnotified
    exact absurd hmem List.not_mem_nil
  · rintro _ ⟨⟩
    exact ⟨hnotified, rfl⟩

/-- The producer sends the command before the checkpoint completes. -/
def sent1 : List (Entry Deployed DeployedEvent SmsCommand) :=
  [⟨.send command1, [command1],
    ⟨some (notifiedRun1 [] (some checkpoint1)), none, orders1, [command1]⟩⟩,
   ⟨.complete, [], ⟨some (notifiedRun1 [] none), some checkpoint1, orders1, [command1]⟩⟩,
   ⟨.crash, [], ⟨none, some checkpoint1, orders1, [command1]⟩⟩]

/-- Then the checkpoint is backed by the topic. -/
theorem notified_durable_iff_sent :
    Durable RecordsNotified IsCommandOf
      (final (Deployment.initial : Deployed) (notifying1 ++ sent1)) := by
  have hsent : IsRun (DeployStep (delayedOrderSmsJob 7)) (final Deployment.initial notifying1)
      sent1 :=
    ⟨@DeployStep.send _ _ _ _ _ _ _ _ _ (notifiedRun1 [command1] (some checkpoint1)) _ [] [] rfl
        rfl,
      .complete (t := notifiedRun1 [] (some checkpoint1)) rfl rfl, .crash, trivial⟩
  refine (notified_durable_iff (isRun_append.mpr ⟨isRun_notifying1, hsent⟩)).mpr
    (fun x hx => ?_) _ List.prefix_rfl
  simp only [notifying1, sent1, List.cons_append, List.nil_append, transitions_cons,
    transitions_nil, List.mem_cons, List.not_mem_nil, or_false] at hx
  rcases hx with rfl | rfl | rfl | rfl | rfl | rfl | rfl | rfl
  · trivial
  · trivial
  · trivial
  · trivial
  · trivial
  · trivial
  · rintro _ ⟨⟩ _ _ _ _ _ hbuffered
    exact absurd hbuffered List.not_mem_nil
  · trivial

end DelayedOrderSms
