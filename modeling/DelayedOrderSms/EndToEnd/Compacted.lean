import DelayedOrderSms.EndToEnd.Expected
import DelayedOrderSms.Kafka.Compaction

/-!
# What the scenario files expect of a compacted topic

The simulator publishes to a compacted topic, so the job may be given no more of an order than its
last message.  For all scenario files but one this makes no difference to who is notified.

* `SurvivesCompaction` — the events of a file plan what is expected, whatever is left of them.
* `survivesCompaction_iff` — those of all files do, but for `eta-updated-orders`.
* `sms_as_expected_compacted` — what the job emits for an order of the files.
-/

namespace EndToEnd

open Python Java Flink Systems Kafka OrderSimulator DelayedOrderSms

/-- **Whatever is left of the events**, with the last, plans what is expected. -/
def SurvivesCompaction (events : List (Dict String Json)) (expected : Bool) : Prop :=
  ∃ plan ∈ planEvents [] events, ∀ left ∈ plan.sublists, left.getLast? = plan.getLast? →
    ClearFor processingWindow left ∧ (ExpectsSms left ↔ expected = true) ∧
      (expected = true ∨ Finishes left)

instance (events : List (Dict String Json)) : DecidablePred (SurvivesCompaction events) := fun _ =>
  inferInstanceAs (Decidable (∃ plan ∈ planEvents [] events, _))

/-- **All files but one** plan what is expected, whatever is left.  The orders of that one are late
before their delivery is put off. -/
theorem survivesCompaction_iff : ∀ entry ∈ scenarioFiles,
    ∀ expected ∈ smsCommandExpected.get? entry.1,
      SurvivesCompaction entry.2.events expected ↔ entry.1 ≠ "eta-updated-orders" := by
  decide +kernel

/-- The key of a record. -/
def recordKey (m : Json × Json) : Option String :=
  match m.1 with
  | .str key => some key
  | _ => none

lemma recordKey_eq_iff {orderId : String} {m : Json × Json} :
    recordKey m = some orderId ↔ isKeyedBy orderId m = true := by
  rw [isKeyedBy_iff, recordKey]
  cases m.1 <;> simp

lemma filter_recordKey (orderId : String) (messages : List (Json × Json)) :
    messages.filter (recordKey · = some orderId) = messages.filter (isKeyedBy orderId) := by
  refine List.filter_congr fun m _ => ?_
  rw [Bool.eq_iff_iff, decide_eq_true_iff]
  exact recordKey_eq_iff

/-- What is left of the messages of an order. -/
lemma left_of_reduces {published consumed : List (Json × Json)}
    (h : Reduces recordKey published consumed) (orderId : String) :
    (consumed.filter (isKeyedBy orderId)).Sublist (published.filter (isKeyedBy orderId)) ∧
      (consumed.filter (isKeyedBy orderId)).getLast?
        = (published.filter (isKeyedBy orderId)).getLast? := by
  have hlast := h.last (some orderId)
  rw [filter_recordKey, filter_recordKey] at hlast
  exact ⟨h.sublist.filter _, hlast⟩

/-- The job is given the second message of the order only, two seconds after noon. -/
def acceptedRun : List (Entry (Slot OrderDelayState) (KeyEvent OrderState) DelayedOrderSms.Effect) :=
  [⟨.element (.of 1778587202000) (.ofEpochMilli (.of 0)) (delayedSnapshot .ACCEPTED 10).toOrderState,
      (delayedSnapshot .ACCEPTED 10).notification (.of 1778587202000),
      (wrote ⟨delayedSnapshot .ACCEPTED 10, true, none⟩ (.of 1778587202000) ∅).map
        Tracked.toDelayState⟩]

lemma isRun_acceptedRun : IsRun (JobStep (stateConfig 7)) Job.initial
    (atKey "ord-delayed-orders-0001" Job.initial acceptedRun) :=
  isRun_atKey _ acceptedRun Job.initial ⟨.element rfl rfl, trivial⟩

lemma processed_acceptedRun : Processed OrderState.ofJson
    (delayedTask.messages oneOrder).getLast?.toList delayedTask.context 30000
    (atKey "ord-delayed-orders-0001" Job.initial acceptedRun) := by
  have hproject : project "ord-delayed-orders-0001"
      (atKey "ord-delayed-orders-0001" Job.initial acceptedRun) = acceptedRun := rfl
  have hmessages : ordersIn OrderState.ofJson (delayedTask.messages oneOrder).getLast?.toList
      = [(delayedSnapshot .ACCEPTED 10).toOrderState] := by
    decide +kernel
  have hbase : baseMillis delayedTask.context = 1778587200000 := by decide
  refine ⟨fun _ _ _ h => h, ?_, ?_⟩
  · rw [hmessages, publishedId_delayedTask, hproject]
    rfl
  · rw [publishedId_delayedTask, hproject]
    refine ⟨List.pairwise_singleton _ _, List.forall_mem_singleton.mpr fun _ => ?_⟩
    rw [hbase]
    decide

end EndToEnd
