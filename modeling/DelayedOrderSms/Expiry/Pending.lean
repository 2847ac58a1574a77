import DelayedOrderSms.Processor.History

/-!
# Expiry and pending notifications

The state of an order expires `stateTtlDays` after it was last written; its timers do not.  As
long as an order has no command, the last write is the acceptance of its last snapshot
(`RemembersWrite`), so whether a timer still finds the order depends on how long ago that was.

* `RemembersWrite.step` — a step without a command keeps the time of the last write in step
  with the history.
* `timer_emits_while_kept` — a timer that has reached the expected delivery time emits the
  command if fewer than `stateTtlDays` have passed since, and nothing otherwise.
-/

namespace DelayedOrderSms

open Java Flink Systems

/-- What is kept of an order is the message `last`, written when it was applied, and the order has
not been notified. -/
def RemembersWrite (last : Option (OrderState × Long)) (slot : Slot Tracked) : Prop :=
  last = slot.cell.map (fun c => (c.userValue.snapshot.toOrderState, c.lastAccessTimestamp)) ∧
    notified slot.kept = false

section Step

variable {ttl : Option ℕ} {k : String} {slot slot' : Slot Tracked}
  {last : Option (OrderState × Long)}

lemma RemembersWrite.delivered {now : Long} {wall : Instant} {s : Snapshot} {fx : List Effect}
    {r : Slot OrderDelayState} (h : RemembersWrite last slot)
    (hd : Delivered ttl now s slot fx slot') (hquiet : commands fx = []) :
    RemembersWrite (applied ttl last (slot.map Tracked.toDelayState,
      ⟨.event (.element now wall s.toOrderState), fx, r⟩)) slot' := by
  have hun : notified (slot.value ttl now) = false := notified_value h.2
  rw [applied, accepts_toOrderState]
  cases hd with
  | stale hv hlt =>
      have hstale : ¬ Fresh s (slot.value ttl now) := fun hf => hf _ hv hlt
      simpa [hstale] using h
  | terminal hf => simp [hf, RemembersWrite, wrote, Slot.kept, hun]
  | silent _ _ hn => exact absurd (hn.symm.trans hun) (by decide)
  | due => exact absurd hquiet (by simp)
  | pending hf => simp [hf, RemembersWrite, wrote, Slot.kept]

/-- **Without a command, the last write is the last application.** -/
theorem RemembersWrite.step {l : Fault (KeyEvent OrderState)} {fx : List Effect}
    {r : Slot OrderDelayState} (h : RemembersWrite last slot)
    (hs : ExpiringStep (TrackedStep ttl k) slot l fx slot') (hquiet : commands fx = []) :
    RemembersWrite (applied ttl last (slot.map Tracked.toDelayState, ⟨l, fx, r⟩)) slot' := by
  cases hs with
  | expire => exact ⟨rfl, rfl⟩
  | event hs =>
      cases hs with
      | invalid _ hinvalid =>
          rw [applied, accepts_of_invalid hinvalid]
          exact h
      | delivered _ hd => exact h.delivered hd hquiet
      | fired _ _ hf =>
          cases hf with
          | idle => exact h
          | notify => exact absurd hquiet (by simp)

lemma exists_remembersWrite {config : StateConfig}
    {run : List (Entry (Slot OrderDelayState) (Fault (KeyEvent OrderState)) Effect)}
    (h : IsRun (ExpiringStep (KeyStep delayedOrderOperator config k)) Slot.empty run)
    (hquiet : commands (outputs run) = []) :
    ∃ slot, final Slot.empty run = slot.map Tracked.toDelayState ∧
      RemembersWrite (lastApplied config.ttl run) slot := by
  refine IsRun.history_induction (P := fun run s => commands (outputs run) = [] →
      ∃ slot, s = slot.map Tracked.toDelayState ∧ RemembersWrite (lastApplied config.ttl run) slot)
    (fun _ => ⟨Slot.empty, rfl, rfl, rfl⟩) ?_ run h hquiet
  intro run s e _ hend ih hstep hquiet
  rw [outputs_append, commands_append, List.append_eq_nil_iff] at hquiet
  obtain ⟨slot, rfl, hwrite⟩ := ih hquiet.1
  obtain ⟨slot', hts, htarget⟩ :=
    (ExpiringStep.embeds (keyStep_embeds config k) _ _ _ _).mp hstep
  refine ⟨slot', htarget, ?_⟩
  rw [lastApplied_concat, hend]
  exact hwrite.step hts (by simpa using hquiet.2)

end Step

/-! ## The timer of a pending order -/

/-- A timer that fires for an active, un-notified order written at `w`. -/
lemma Fired.commands_eq {d : ℕ} {now ts w : Long} {s : Snapshot} {m : Option Long}
    {slot slot' : Slot Tracked} {fx : List Effect} (hcell : slot.cell = some ⟨⟨s, false, m⟩, w⟩)
    (hactive : s.Active) (heta : s.etaMs ≤ ts.val) (hf : Fired (some d) now ts slot fx slot') :
    commands fx = if now.val < w.val + d then [s.delayCommand now] else [] := by
  split_ifs with hlive
  · have hread : slot.value (some d) now = some ⟨s, false, m⟩ :=
      Slot.value_some.mpr ⟨w, hcell, hlive⟩
    cases hf with
    | idle hguard => exact absurd (hguard _ hread hactive rfl).2 (not_lt.mpr heta)
    | notify hv =>
        obtain rfl := Option.some.inj (hread.symm.trans hv)
        rfl
  · cases hf with
    | idle => rfl
    | notify hv =>
        obtain ⟨w', hcell', hlive'⟩ := Slot.value_some.mp hv
        obtain rfl : w = w' := (TtlValue.mk.inj (Option.some.inj (hcell.symm.trans hcell'))).2
        exact absurd hlive' hlive

/-- The last message applied to an order of the job, and when. -/
def lastAccepted (ttl : Option ℕ) (k : String)
    (run : List (Entry Job (String × KeyEvent OrderState) Effect)) : Option (OrderState × Long) :=
  lastApplied ttl (project k (run.map asEvent))

/-- What is kept of a pending order is the last snapshot accepted for it. -/
lemma RemembersWrite.cell_eq {s : Snapshot} {w : Long} {slot : Slot Tracked}
    (h : RemembersWrite (some (s.toOrderState, w)) slot) :
    ∃ m, slot.cell = some ⟨⟨s, false, m⟩, w⟩ := by
  obtain ⟨hcell, hun⟩ := h
  obtain ⟨⟨⟨s', b, m⟩, w'⟩, hc, hpair⟩ := Option.map_eq_some_iff.mp hcell.symm
  obtain ⟨hs, rfl⟩ := Prod.mk.inj hpair
  obtain rfl := Snapshot.toOrderState_injective hs
  rw [Slot.kept, hc] at hun
  obtain rfl : b = false := hun
  exact ⟨m, hc⟩

/-- **A pending notification survives for `stateTtlDays`.**  Suppose the last snapshot accepted
for an order is active and was accepted at `w`, and no command for the order has been emitted.
When a timer of the order that has reached its expected delivery time fires, the command is
emitted if fewer than `stateTtlDays` have passed since `w`, and nothing is otherwise. -/
theorem timer_emits_while_kept {backend : Backend} {stateTtlDays : ℕ}
    {run : List (Entry Job (String × KeyEvent OrderState) Effect)} {k : String} {s : Snapshot}
    {now ts w : Long} {wall : Instant} {fx : List Effect} {j : Job}
    (h : IsRun (JobStep ⟨backend, some (ttlMillis stateTtlDays)⟩) Job.initial
      (run ++ [⟨(k, .timer now wall ts), fx, j⟩]))
    (hlast : lastAccepted (some (ttlMillis stateTtlDays)) k run = some (s.toOrderState, w))
    (hactive : s.Active) (heta : s.etaMs ≤ ts.val) (hnone : commandsFor k run = []) :
    commands fx =
      if now.val < w.val + ttlMillis stateTtlDays then [s.delayCommand now] else [] := by
  obtain ⟨hrun, hstep⟩ := isRun_concat.mp h
  obtain ⟨hkrun, hkend⟩ := isRun_project k _ _ (isRun_asEvent run _ hrun)
  have hquiet : commands (outputs (project k (run.map asEvent))) = [] := by
    rw [outputs_project_asEvent, ← commandsFor_eq k (command_orderId hrun)]
    exact hnone
  obtain ⟨slot, hend, hwrite⟩ := exists_remembersWrite hkrun hquiet
  have hwritten : RemembersWrite (some (s.toOrderState, w)) slot := hlast ▸ hwrite
  obtain ⟨m, hcell⟩ := hwritten.cell_eq
  have hslot : final Job.initial run k = slot.map Tracked.toDelayState := by
    rw [← hend, ← final_asEvent run Job.initial]
    exact hkend.symm
  have hkstep := hstep.at_same
  rw [hslot] at hkstep
  obtain ⟨slot', hts, _⟩ := (keyStep_embeds _ k _ _ _ _).mp hkstep
  cases hts with
  | fired _ _ hf =>
      have hpop : (slot.pop ts).cell = some ⟨⟨s, false, m⟩, w⟩ := hcell
      exact hf.commands_eq hpop hactive heta

/-- Order 1 expected in two days. -/
def slow1 : Snapshot :=
  .createOrder "order-1" .ACCEPTED (.ofEpochMilli (.of 172800000)) (.ofEpochMilli (.of 0))

/-- It is accepted and waits. -/
def slowAccepted1 : Entry (Slot OrderDelayState) (KeyEvent OrderState) Effect where
  label := .element (.of 0) (.ofEpochMilli (.of 0)) slow1.toOrderState
  output := []
  target := (wrote ⟨slow1, false, some (.of 172800000)⟩ (.of 0)
    {.of 172800000}).map Tracked.toDelayState

/-- When its timer fires the state has been gone for a day. -/
def slowFired1 : Entry (Slot OrderDelayState) (KeyEvent OrderState) Effect where
  label := .timer (.of 172800000) (.ofEpochMilli (.of 0)) (.of 172800000)
  output := []
  target := (wrote ⟨slow1, false, some (.of 172800000)⟩ (.of 0) ∅).map Tracked.toDelayState

/-- With `stateTtlDays = 1` the order is never notified. -/
theorem timer_finds_nothing :
    IsRun (JobStep (stateConfig 1)) Job.initial
        (atKey "order-1" Job.initial [slowAccepted1, slowFired1]) ∧
      lastAccepted (some (ttlMillis 1)) "order-1" (atKey "order-1" Job.initial [slowAccepted1]) =
        some (slow1.toOrderState, .of 0) ∧
      slow1.Active ∧ slow1.etaMs = 172800000 ∧
      commandsFor "order-1" (atKey "order-1" Job.initial [slowAccepted1, slowFired1]) = [] :=
  ⟨isRun_atKey "order-1" [slowAccepted1, slowFired1] Job.initial
      ⟨.element rfl rfl, .timer (by decide) (by decide) rfl, trivial⟩,
    rfl, by decide, rfl, rfl⟩

/-- Order 1, expected after ten minutes, is notified with a time to live of seven days. -/
theorem timer_emits_while_kept_late :
    commands fired1.output = if (601000 : ℤ) < 0 + ttlMillis 7 then
      [order1.delayCommand (.of 601000)] else [] := by
  have hrun : IsRun (JobStep (stateConfig 7)) Job.initial
      (atKey "order-1" Job.initial [accepted1, fired1]) :=
    isRun_atKey "order-1" [accepted1, fired1] Job.initial
      ⟨.element rfl rfl, .timer (by decide) (by decide) rfl, trivial⟩
  have hlast : lastAccepted (some (ttlMillis 7)) "order-1"
      (atKey "order-1" Job.initial [accepted1]) = some (order1.toOrderState, .of 0) := rfl
  exact timer_emits_while_kept hrun hlast (by decide) (le_refl _) rfl

end DelayedOrderSms
