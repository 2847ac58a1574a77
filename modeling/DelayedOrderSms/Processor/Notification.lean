import DelayedOrderSms.Processor.Steps

/-!
# At most one command per order

Without state expiry the flag `delaySmsEmitted` is the record of what has been collected: it is
set exactly when a command for the order is among the outputs (`Recorded`), it is never reset,
and a step that emits needs it unset.  Commands of different orders have different ids
(`commandId_injective`), so no id is ever collected twice.

* `command_processed` — a command is for an order of which a message has been processed.
* `recorded_step` — every step of the job keeps the record.
* `at_most_one_command` — what follows for every run.
-/

namespace DelayedOrderSms

open Java Flink Systems

/-- The field `delaySmsEmitted` of what the job keeps under `k`; `false` when it keeps nothing. -/
def Job.delaySmsEmitted (j : Job) (k : String) : Bool := (j k).kept.any (·.delaySmsEmitted)

lemma Job.delaySmsEmitted_of_eq {j : Job} {k : String} {slot : Slot Tracked}
    (h : j k = slot.map Tracked.toDelayState) : j.delaySmsEmitted k = notified slot.kept := by
  rw [Job.delaySmsEmitted, h, Slot.map_kept]
  cases slot.kept with
  | none => rfl
  | some t => rfl

/-- The id of a command determines the order it is for. -/
lemma commandId_injective {k k' : String} (h : k ++ ":DELAY_SMS" = k' ++ ":DELAY_SMS") :
    k = k' := by
  have hlist := congrArg String.toList h
  rw [String.toList_append, String.toList_append] at hlist
  exact String.toList_injective (List.append_cancel_right hlist)

/-- A command is for a certain order and has the id of that order. -/
def ForOrder (k : String) (c : SmsCommand) : Prop :=
  c.orderId = some k ∧ c.commandId = k ++ ":DELAY_SMS"

lemma forOrder_delayCommand (s : Snapshot) (now : Long) :
    ForOrder s.orderId (s.delayCommand now) := ⟨rfl, rfl⟩

/-! ## Where commands come from -/

/-- The orders a run has processed messages of. -/
def processedOrders (run : List (Entry Job (String × KeyEvent OrderState) Effect)) : List String :=
  run.filterMap fun e => e.label.2.incoming?.bind OrderState.orderId

/-- The order of a step has had a message, with this step or before it: without one it has no
timers. -/
lemma mem_processedOrders_of_step {ttl : Option ℕ} {k : String} {slot slot' : Slot Tracked}
    {e : KeyEvent OrderState} {fx : List Effect} (hstep : TrackedStep ttl k slot e fx slot')
    {run : List (Entry Job (String × KeyEvent OrderState) Effect)} {j : Job}
    (hrun : slot.map Tracked.toDelayState ≠ Slot.empty → k ∈ processedOrders run) :
    k ∈ processedOrders (run ++ [⟨(k, e), fx, j⟩]) := by
  rw [processedOrders, List.filterMap_append, List.mem_append]
  cases hstep with
  | invalid hkey => exact .inr (by simp [KeyEvent.incoming?, hkey])
  | delivered hkey => exact .inr (by simp [KeyEvent.incoming?, Snapshot.toOrderState, hkey])
  | fired hmem =>
      refine .inl (hrun fun hempty => ?_)
      have htimers := congrArg Slot.timers hempty
      rw [Slot.map_timers] at htimers
      rw [htimers] at hmem
      exact absurd hmem (by simp [Slot.empty])

/-- **Every command is for an order of which a message has been processed.** -/
theorem command_processed {config : StateConfig}
    {run : List (Entry Job (String × KeyEvent OrderState) Effect)}
    (h : IsRun (JobStep config) Job.initial run) :
    ∀ c ∈ commands (outputs run), ∃ k ∈ processedOrders run, ForOrder k c := by
  have hall : (∀ k, final Job.initial run k ≠ Slot.empty → k ∈ processedOrders run) ∧
      ∀ c ∈ commands (outputs run), ∃ k ∈ processedOrders run, ForOrder k c := by
    refine IsRun.history_induction
      (P := fun run j => (∀ k, j k ≠ Slot.empty → k ∈ processedOrders run) ∧
        ∀ c ∈ commands (outputs run), ∃ k ∈ processedOrders run, ForOrder k c)
      ⟨fun k hk => absurd rfl hk, by simp⟩ ?_ run h
    rintro run j ⟨⟨k, e⟩, fx, j'⟩ hrun rfl ⟨hslots, hcommands⟩ hstep
    obtain ⟨slot, slot', hoccurs, hslot, hts, _, hother⟩ := tracked_step hrun hstep
    have hk : k ∈ processedOrders (run ++ [⟨(k, e), fx, j'⟩]) :=
      mem_processedOrders_of_step hts (hslot ▸ hslots k)
    have hmono : ∀ k', k' ∈ processedOrders run →
        k' ∈ processedOrders (run ++ [⟨(k, e), fx, j'⟩]) := by
      intro k' hk'
      rw [processedOrders, List.filterMap_append]
      exact List.mem_append_left _ hk'
    constructor
    · intro k' hk'
      by_cases heq : k' = k
      · rw [heq]
        exact hk
      · rw [hother k' heq] at hk'
        exact hmono k' (hslots k' hk')
    · intro c hc
      rw [outputs_append, commands_append, List.mem_append] at hc
      rcases hc with hc | hc
      · obtain ⟨k', hk', hfor⟩ := hcommands c hc
        exact ⟨k', hmono k' hk', hfor⟩
      · rw [outputs_cons, outputs_nil, List.append_nil] at hc
        rcases hts.quiet_or_emission with hquiet | ⟨s, hemit⟩
        · rw [hquiet] at hc
          exact absurd hc List.not_mem_nil
        · rw [hemit.command, List.mem_singleton] at hc
          have hid : s.orderId = k := hts.hasKey hoccurs.hasKey _ hemit.written
          exact ⟨k, hk, hc ▸ hid ▸ forOrder_delayCommand s _⟩
  exact hall.2

/-! ## The record of the commands -/

/-- The commands `cs` collected so far, and the job's record of them: each is for an order, no
id occurs twice, and the flag is set for the orders that have one. -/
structure Recorded (cs : List SmsCommand) (j : Job) : Prop where
  forOrder : ∀ c ∈ cs, ∃ k, ForOrder k c
  nodup : (cs.map SmsCommand.commandId).Nodup
  flag : ∀ k, j.delaySmsEmitted k = true ↔ ∃ c ∈ cs, c.orderId = some k

lemma recorded_initial : Recorded [] Job.initial where
  forOrder := fun c hc => absurd hc List.not_mem_nil
  nodup := List.nodup_nil
  flag := fun k => by simp [Job.initial, Job.delaySmsEmitted, Slot.empty, Slot.kept]

/-- A quiet step of a key leaves the record as it is. -/
lemma Recorded.of_flags {cs : List SmsCommand} {j j' : Job} (h : Recorded cs j)
    (hflag : ∀ k, j'.delaySmsEmitted k = j.delaySmsEmitted k) : Recorded cs j' where
  forOrder := h.forOrder
  nodup := h.nodup
  flag := fun k => by rw [hflag]; exact h.flag k

/-- A command for an order without one is recorded by setting the flag of that order. -/
lemma Recorded.concat {cs : List SmsCommand} {j j' : Job} {k : String} {c : SmsCommand}
    (h : Recorded cs j) (hc : ForOrder k c) (hunset : j.delaySmsEmitted k = false)
    (hset : j'.delaySmsEmitted k = true)
    (hother : ∀ k', k' ≠ k → j'.delaySmsEmitted k' = j.delaySmsEmitted k') :
    Recorded (cs ++ [c]) j' where
  forOrder := by
    intro d hd
    rcases List.mem_append.mp hd with hd | hd
    · exact h.forOrder d hd
    · obtain rfl := List.mem_singleton.mp hd
      exact ⟨k, hc⟩
  nodup := by
    have hfresh : c.commandId ∉ cs.map SmsCommand.commandId := by
      intro hmem
      obtain ⟨d, hd, hid⟩ := List.mem_map.mp hmem
      obtain ⟨k', hk', hid'⟩ := h.forOrder d hd
      have hk : k' = k := commandId_injective (by rw [← hid', hid, hc.2])
      have hflag := (h.flag k).mpr ⟨d, hd, by rw [hk', hk]⟩
      rw [hunset] at hflag
      exact absurd hflag (by decide)
    rw [List.map_append, List.map_singleton]
    exact List.nodup_append.mpr ⟨h.nodup, List.nodup_singleton _, by
      intro a ha b hb
      obtain rfl := List.mem_singleton.mp hb
      rintro rfl
      exact hfresh ha⟩
  flag := by
    intro k'
    by_cases hk : k' = k
    · subst hk
      exact ⟨fun _ => ⟨c, by simp, hc.1⟩, fun _ => hset⟩
    · rw [hother k' hk, h.flag k']
      constructor
      · rintro ⟨d, hd, hid⟩
        exact ⟨d, List.mem_append_left _ hd, hid⟩
      · rintro ⟨d, hd, hid⟩
        rcases List.mem_append.mp hd with hd | hd
        · exact ⟨d, hd, hid⟩
        · obtain rfl := List.mem_singleton.mp hd
          exact absurd (Option.some.inj (hid.symm.trans hc.1)) hk

section Runs

variable {backend : Backend} {run : List (Entry Job (String × KeyEvent OrderState) Effect)}

/-- **Every step keeps the record.** -/
theorem recorded_step (hrun : IsRun (JobStep ⟨backend, none⟩) Job.initial run)
    {e : Entry Job (String × KeyEvent OrderState) Effect}
    (h : Recorded (commands (outputs run)) (final Job.initial run))
    (hstep : JobStep ⟨backend, none⟩ (final Job.initial run) e.label e.output e.target) :
    Recorded (commands (outputs run) ++ commands e.output) e.target := by
  obtain ⟨slot, slot', hoccurs, hslot, htracked, hslot', hothers⟩ := tracked_step hrun hstep
  have hother : ∀ k, k ≠ e.label.1 →
      e.target.delaySmsEmitted k = (final Job.initial run).delaySmsEmitted k := by
    intro k hk
    rw [Job.delaySmsEmitted, hothers k hk]
    rfl
  have hbefore := Job.delaySmsEmitted_of_eq hslot
  have hafter := Job.delaySmsEmitted_of_eq hslot'
  rcases htracked.quiet_or_emission with hquiet | ⟨s, hemit⟩
  · rw [hquiet, List.append_nil]
    refine h.of_flags fun k => ?_
    by_cases hk : k = e.label.1
    · rw [hk, hafter, hbefore]
      exact htracked.notified_of_quiet hquiet
    · exact hother k hk
  · have hid : s.orderId = e.label.1 := htracked.hasKey hoccurs.hasKey _ hemit.written
    rw [hemit.command]
    refine h.concat (hid ▸ forOrder_delayCommand s _) ?_ ?_ hother
    · rw [hbefore, ← Slot.value_none]
      exact hemit.unnotified
    · rw [hafter, Slot.kept, hemit.written]
      rfl

/-- **At most one command per order.**  Whatever snapshots arrive and however late timers fire,
no two collected commands have the same id, and in the state reached the flag of an order is set
exactly when a command for it has been collected. -/
theorem at_most_one_command (h : IsRun (JobStep ⟨backend, none⟩) Job.initial run) :
    ((commands (outputs run)).map SmsCommand.commandId).Nodup ∧
      ∀ k, (final Job.initial run).delaySmsEmitted k = true ↔
        ∃ c ∈ commands (outputs run), c.orderId = some k := by
  have hrec : Recorded (commands (outputs run)) (final Job.initial run) := by
    refine IsRun.history_induction (P := fun run j => Recorded (commands (outputs run)) j)
      recorded_initial ?_ run h
    intro run j e hrun hj hrec hstep
    subst hj
    simpa using recorded_step hrun hrec hstep
  exact ⟨hrec.nodup, hrec.flag⟩

end Runs

/-- The order of the run `isRun_lateTimer` has its one command, and its flag is set. -/
theorem at_most_one_command_lateTimer :
    (["order-1:DELAY_SMS"] : List String).Nodup ∧
      ∀ k, (final Job.initial lateTimer).delaySmsEmitted k = true ↔
        ∃ c ∈ [order1.delayCommand (.of 601000)], c.orderId = some k :=
  at_most_one_command isRun_lateTimer

end DelayedOrderSms
