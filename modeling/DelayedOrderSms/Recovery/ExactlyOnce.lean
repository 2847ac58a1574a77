import DelayedOrderSms.Arrival.Latest
import DelayedOrderSms.Flink.Lineage
import DelayedOrderSms.Recovery.Durability

/-!
# The state across failures

What the job stores does not show how often it has crashed.

* `state_exactly_once` — every state the deployed job is in, or takes a checkpoint of, is that of an
  uninterrupted job that has processed every message from some offsets on exactly once.
* `stored_newest_consumed` — so without state expiry it stores of an order the newest of those
  messages, if the messages of the order are in one partition.
-/

namespace DelayedOrderSms

open Java Flink Systems

/-- The uninterrupted job, between the orders topic and the sink. -/
abbrev Reading : Type :=
  List (Entry (Checkpoint Job ℕ) (ReadEvent (String × KeyEvent OrderState) ℕ) Effect)

/-- **Messages count exactly once.**  In every state of every deployment there are offsets `start`
such that each of its checkpoints (where the job is, what has been triggered, what has completed)
is that of an uninterrupted job that has taken from every partition the messages from `start` up to
the offset of the checkpoint, one by one in the order of the log.  Once a checkpoint has completed,
`start` stays the same through all crashes and restarts to come. -/
theorem state_exactly_once {stateTtlDays : ℕ}
    {run : List (Entry Deployed DeployedEvent SmsCommand)}
    (h : IsRun (DeployStep (delayedOrderSmsJob stateTtlDays)) Deployment.initial run) :
    ∃ start : ℕ → ℕ, ∀ more : List (Entry Deployed DeployedEvent SmsCommand),
      IsRun (DeployStep (delayedOrderSmsJob stateTtlDays)) (final Deployment.initial run) more →
      more = [] ∨ (final Deployment.initial run).completed.isSome →
      ∀ c, (final Deployment.initial (run ++ more)).Position c → ∃ reading : Reading,
        IsRun (ReadStep (delayedOrderSmsJob stateTtlDays)
          (final Deployment.initial (run ++ more)).input) ⟨Job.initial, start⟩ reading ∧
        final ⟨Job.initial, start⟩ reading = c ∧
        ∀ p, consumed (delayedOrderSmsJob stateTtlDays) p reading =
          stretch ((final Deployment.initial (run ++ more)).input p) (start p) (c.offsets p) := by
  obtain ⟨start, hstart⟩ := exists_lineage h
  refine ⟨start, fun more hmore hgoes c hc => ?_⟩
  have hfrom : (final Deployment.initial (run ++ more)).From
      (delayedOrderSmsJob stateTtlDays) start := by
    rw [final_append]
    rcases hgoes with rfl | hcompleted
    · exact hstart
    · exact lineage_of_completed hstart hcompleted hmore
  obtain ⟨reading, hreading, rfl⟩ := hfrom c hc
  exact ⟨reading, hreading, rfl, fun p => consumed_eq hreading p⟩

/-- Order 1 is notified, the checkpoint completes, and the job crashes and is restored. -/
lemma isRun_lost1 :
    IsRun (DeployStep (delayedOrderSmsJob 7)) Deployment.initial (notifying1 ++ lost1) :=
  isRun_append.mpr ⟨isRun_notifying1,
    .complete (t := notifiedRun1 [command1] (some checkpoint1)) rfl rfl, .crash, .restore rfl,
    trivial⟩

/-- The job that runs then is where an uninterrupted job would be. -/
theorem state_exactly_once_lost :
    ∃ (start : ℕ → ℕ) (reading : Reading),
      IsRun (ReadStep (delayedOrderSmsJob 7) orders1) ⟨Job.initial, start⟩ reading ∧
        final ⟨Job.initial, start⟩ reading = checkpoint1 := by
  obtain ⟨start, hstart⟩ := state_exactly_once isRun_lost1
  obtain ⟨reading, hreading, hend, _⟩ :=
    hstart [] trivial (.inl rfl) checkpoint1 (.running (t := notifiedRun1 [] none) rfl)
  exact ⟨start, reading, hreading, hend⟩

/-! ## What is stored -/

/-- The valid snapshots of an order among the messages. -/
def snapshotsOf (k : String) (messages : List OrderState) : List Snapshot :=
  (messages.filter (·.orderId = some k)).filterMap Snapshot.of?

/-- The messages of the order are in one partition. -/
def OnlyIn (p : ℕ) (k : String) (input : ℕ → List OrderState) : Prop :=
  ∀ q, q ≠ p → ∀ o ∈ input q, o.orderId ≠ some k

section Stored

variable {guarantee : DeliveryGuarantee} {config : StateConfig} {input : ℕ → List OrderState}
  {c c' : Checkpoint Job ℕ} {e : ReadEvent (String × KeyEvent OrderState) ℕ} {fx : List Effect}
  {k : String} {p : ℕ}

/-- What an order sees of a step is what the step takes from its partition. -/
lemma arrived_project_operated (hpartition : OnlyIn p k input)
    (hs : ReadStep (pipeline guarantee config) input c e fx c') :
    arrived (project k [operated (⟨e, fx, c'⟩ : Entry (Checkpoint Job ℕ) _ Effect)]) =
      snapshotsOf k (e.taken? (pipeline guarantee config) p).toList := by
  cases hs with
  | @internal i _ _ hin =>
      obtain ⟨key, event⟩ := i
      have hnone : event.incoming? = none := hin
      by_cases hk : key = k
      · simp [operated, ReadEvent.operation, project, hk, arrived, hnone, ReadEvent.taken?,
          snapshotsOf]
      · simp [operated, ReadEvent.operation, project, hk, arrived, ReadEvent.taken?, snapshotsOf]
  | @consume q i o _ _ hin hget hstep =>
      obtain ⟨key, event⟩ := i
      have hsome : event.incoming? = some o := hin
      have hkey : o.orderId = some key := by
        cases event with
        | timer => exact absurd hsome (by simp [KeyEvent.incoming?])
        | element now wall o' =>
            obtain rfl := Option.some.inj hsome
            cases hstep.at_same with
            | element hkey => exact hkey
      have hmem : o ∈ input q := List.mem_of_getElem? hget
      by_cases hk : key = k
      · subst hk
        obtain rfl : q = p := by
          by_contra hq
          exact hpartition q hq o hmem hkey
        simp [operated, ReadEvent.operation, project, arrived, hsome, ReadEvent.taken?,
          snapshotsOf, pipeline, hkey]
      · have hother : ¬ o.orderId = some k := fun h => hk (Option.some.inj (hkey.symm.trans h))
        by_cases hq : q = p
        · simp [operated, ReadEvent.operation, project, hk, arrived, hsome, ReadEvent.taken?,
            snapshotsOf, pipeline, hother, hq]
        · simp [operated, ReadEvent.operation, project, hk, arrived, ReadEvent.taken?,
            snapshotsOf, hq]

/-- What an order sees of a reading are its snapshots among what is taken from its partition. -/
lemma arrived_reading (hpartition : OnlyIn p k input) {reading : Reading}
    (h : IsRun (ReadStep (pipeline guarantee config) input) c reading) :
    arrived (project k (reading.map operated)) =
      snapshotsOf k (consumed (pipeline guarantee config) p reading) := by
  induction reading generalizing c with
  | nil => rfl
  | cons e reading ih =>
      obtain ⟨hstep, hrest⟩ := h
      have hhead := arrived_project_operated hpartition hstep
      rw [List.map_cons, ← List.singleton_append, project_append, arrived_append, ih hrest, hhead,
        snapshotsOf, snapshotsOf, snapshotsOf, ← List.filterMap_append, ← List.filter_append,
        consumed, consumed, List.filterMap_cons]
      cases e.label.taken? (pipeline guarantee config) p <;> rfl

/-- **What a checkpoint stores of an order** is the newest of what it stands for. -/
theorem stored_iff_of_lineage {backend : Backend} {start : ℕ → ℕ}
    (hpartition : OnlyIn p k input)
    (h : Lineage (pipeline guarantee ⟨backend, none⟩) input start c) (s : Snapshot) :
    (∃ current ∈ (c.state k).kept, Stores current s) ↔
      newest Snapshot.lastUpdatedAt none
        (snapshotsOf k (stretch (input p) (start p) (c.offsets p))) = some s := by
  obtain ⟨reading, hreading, rfl⟩ := h
  obtain ⟨hrun, hend⟩ := isRun_operated hreading
  obtain ⟨slot, hslot, hkept⟩ := exists_kept hrun k
  have harrived := arrived_reading hpartition hreading
  rw [consumed_eq hreading p] at harrived
  have hstored := stored_iff hslot s
  rw [hkept, harrived] at hstored
  rw [← hstored, ← hend]
  rfl

end Stored

/-- The snapshots of an order that a checkpoint stands for: those that the job has consumed since its
last start without a completed checkpoint. -/
def consumedSnapshots (run : List (Entry Deployed DeployedEvent SmsCommand)) (p : ℕ) (k : String)
    (c : Checkpoint Job ℕ) : List Snapshot :=
  snapshotsOf k (stretch ((final Deployment.initial run).input p)
    (begunAt (fun _ => 0) Deployment.initial run p) (c.offsets p))

/-- **What is stored across failures is the newest snapshot.**  Without state expiry: in every
state of every deployment, and for every order whose messages are in one partition, the running job,
the triggered checkpoint and the completed one each store of the order the newest of its valid
snapshots between the offset of the job's last start without a completed checkpoint and their
own. -/
theorem stored_newest_consumed {guarantee : DeliveryGuarantee} {backend : Backend}
    {run : List (Entry Deployed DeployedEvent SmsCommand)}
    (h : IsRun (DeployStep (pipeline guarantee ⟨backend, none⟩)) Deployment.initial run)
    {k : String} {p : ℕ} (hpartition : OnlyIn p k (final Deployment.initial run).input) :
    ∀ c, (final Deployment.initial run).Position c → ∀ s,
      (∃ current ∈ (c.state k).kept, Stores current s) ↔
        newest Snapshot.lastUpdatedAt none (consumedSnapshots run p k c) = some s := by
  intro c hc s
  exact stored_iff_of_lineage hpartition (from_begunAt (from_initial _ _) h c hc) s

/-- The checkpoint taken while order 1 waits. -/
def waitingCheckpoint1 : Checkpoint Job ℕ := ⟨jobWaiting1, offsets1⟩

/-- Order 1 waits, and a checkpoint completes. -/
def checkpointed1 : List (Entry Deployed DeployedEvent SmsCommand) :=
  [⟨.restore, [], ⟨some starting1, none, fun _ => [], []⟩⟩,
   ⟨.publish 0 order1.toOrderState, [], ⟨some starting1, none, orders1, []⟩⟩,
   ⟨.consume 0 ("order-1", accepted1.label), [], ⟨some waitingRun1, none, orders1, []⟩⟩,
   ⟨.trigger, [],
    ⟨some { waitingRun1 with pending := some waitingCheckpoint1 }, none, orders1, []⟩⟩,
   ⟨.complete, [], ⟨some waitingRun1, some waitingCheckpoint1, orders1, []⟩⟩]

lemma isRun_checkpointed1 (ttl : Option ℕ) :
    IsRun (DeployStep (pipeline .none ⟨.rocksDB, ttl⟩)) Deployment.initial checkpointed1 := by
  have haccepted : JobStep ⟨.rocksDB, ttl⟩ Job.initial ("order-1", accepted1.label) []
      jobWaiting1 := .at_key (.element rfl rfl)
  have hconsume : DeployStep (pipeline .none ⟨.rocksDB, ttl⟩) ⟨some starting1, none, orders1, []⟩
      (.consume 0 ("order-1", accepted1.label)) [] ⟨some waitingRun1, none, orders1, []⟩ :=
    @DeployStep.consume _ _ _ _ _ _ _ (pipeline .none ⟨.rocksDB, ttl⟩) _ starting1 _ _
      order1.toOrderState [] _ rfl rfl rfl haccepted
  have hguarantee : DeliveryGuarantee.none ≠ .atLeastOnce := by decide
  exact ⟨.restore rfl, .publish, hconsume,
    .trigger (t := waitingRun1) rfl rfl fun h => absurd h hguarantee,
    .complete (t := { waitingRun1 with pending := some waitingCheckpoint1 }) rfl rfl, trivial⟩

/-- Then the job crashes and is restored. -/
def restored1Run : List (Entry Deployed DeployedEvent SmsCommand) :=
  [⟨.crash, [], ⟨none, some waitingCheckpoint1, orders1, []⟩⟩,
   ⟨.restore, [], ⟨some waitingRun1, some waitingCheckpoint1, orders1, []⟩⟩]

/-- The restored job stores order 1, the newest of what it has consumed. -/
theorem stored_newest_consumed_restored :
    ∃ current ∈ (waitingCheckpoint1.state "order-1").kept, Stores current order1 := by
  have hrun : IsRun (DeployStep (pipeline .none ⟨.rocksDB, none⟩)) Deployment.initial
      (checkpointed1 ++ restored1Run) :=
    isRun_append.mpr ⟨isRun_checkpointed1 none, .crash, .restore rfl, trivial⟩
  have hpartition : OnlyIn 0 "order-1" orders1 := by
    intro q hq o ho
    rw [orders1, Function.update_of_ne hq] at ho
    exact absurd ho List.not_mem_nil
  have hconsumed : newest Snapshot.lastUpdatedAt none
      (consumedSnapshots (checkpointed1 ++ restored1Run) 0 "order-1" waitingCheckpoint1)
        = some order1 := rfl
  exact (stored_newest_consumed hrun hpartition waitingCheckpoint1
    (.running (t := waitingRun1) rfl) order1).mpr hconsumed

end DelayedOrderSms
