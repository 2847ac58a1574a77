import DelayedOrderSms.Processor.Steps

/-!
# The last applied snapshot

What a run says about an order without looking at the state: `lastApplied` reads the history of
a key and answers the last message `processElement` accepted since the state of the order was
last created, with the time of the call.  Expiry forgets it; timers do not touch it.

* `Remembers.step` — what the operator keeps is the last applied snapshot, whatever expires.
* `command_for_last_applied` — so a command is always for that snapshot, which is active and
  due, however many timers are left over from earlier ones.
-/

namespace DelayedOrderSms

open Java Flink Systems

/-- The message is accepted: it is valid and not older than what is kept of its order. -/
def accepts (ttl : Option ℕ) (now : Long) (slot : Slot OrderDelayState) (o : OrderState) : Bool :=
  isValid o && match storedIsNewer o (slot.value ttl now) with
    | .ok stale => !stale
    | .error _ => false

/-- A step in the history of a key, with the slot it is taken in. -/
abbrev KeyTransition : Type :=
  Slot OrderDelayState × Entry (Slot OrderDelayState) (Fault (KeyEvent OrderState)) Effect

/-- How a step changes the last applied message. -/
def applied (ttl : Option ℕ) (last : Option (OrderState × Long)) :
    KeyTransition → Option (OrderState × Long)
  | (slot, ⟨.event (.element now _ o), _, _⟩) =>
      if accepts ttl now slot o then some (o, now) else last
  | (_, ⟨.event (.timer _ _ _), _, _⟩) => last
  | (_, ⟨.expire, _, _⟩) => none

/-- **The last message applied to an order since its state was last created**, with the
processing time at which it was. -/
def lastApplied (ttl : Option ℕ)
    (run : List (Entry (Slot OrderDelayState) (Fault (KeyEvent OrderState)) Effect)) :
    Option (OrderState × Long) :=
  (transitions Slot.empty run).foldl (applied ttl) none

lemma lastApplied_concat (ttl : Option ℕ)
    (run : List (Entry (Slot OrderDelayState) (Fault (KeyEvent OrderState)) Effect))
    (e : Entry (Slot OrderDelayState) (Fault (KeyEvent OrderState)) Effect) :
    lastApplied ttl (run ++ [e]) =
      applied ttl (lastApplied ttl run) (final Slot.empty run, e) := by
  simp [lastApplied, transitions_append, List.foldl_append]

lemma accepts_toOrderState (ttl : Option ℕ) (now : Long) (slot : Slot Tracked) (s : Snapshot) :
    accepts ttl now (slot.map Tracked.toDelayState) s.toOrderState =
      decide (Fresh s (slot.value ttl now)) := by
  rw [accepts, storedIsNewer_toOrderState]
  simp

lemma accepts_of_invalid {o : OrderState} (h : isValid o = false) (ttl : Option ℕ) (now : Long)
    (slot : Slot OrderDelayState) : accepts ttl now slot o = false := by
  simp [accepts, h]

/-- What is kept of an order is the message `last`. -/
def Remembers (last : Option (OrderState × Long)) (slot : Slot Tracked) : Prop :=
  last.map Prod.fst = slot.kept.map (·.snapshot.toOrderState)

section Step

variable {ttl : Option ℕ} {k : String} {slot slot' : Slot Tracked}
  {last : Option (OrderState × Long)}

lemma Remembers.delivered {now : Long} {wall : Instant} {s : Snapshot} {fx : List Effect}
    {r : Slot OrderDelayState} (h : Remembers last slot) (hd : Delivered ttl now s slot fx slot') :
    Remembers (applied ttl last (slot.map Tracked.toDelayState,
      ⟨.event (.element now wall s.toOrderState), fx, r⟩)) slot' := by
  rw [applied, accepts_toOrderState]
  cases hd with
  | stale hv hlt =>
      have hstale : ¬ Fresh s (slot.value ttl now) := fun hf => hf _ hv hlt
      simpa [hstale] using h
  | terminal hf => simp [hf, Remembers, wrote]
  | silent hf => simp [hf, Remembers, wrote]
  | due hf => simp [hf, Remembers, wrote]
  | pending hf => simp [hf, Remembers, wrote]

/-- **What is kept is the last applied message**: every step of an order, and its expiry, keeps
the two together. -/
theorem Remembers.step {l : Fault (KeyEvent OrderState)} {fx : List Effect}
    {r : Slot OrderDelayState} (h : Remembers last slot)
    (hs : ExpiringStep (TrackedStep ttl k) slot l fx slot') :
    Remembers (applied ttl last (slot.map Tracked.toDelayState, ⟨l, fx, r⟩)) slot' := by
  cases hs with
  | expire => rfl
  | event hs =>
      cases hs with
      | invalid _ hinvalid =>
          rw [applied, accepts_of_invalid hinvalid]
          exact h
      | delivered _ hd => exact h.delivered hd
      | fired _ _ hf =>
          cases hf with
          | idle => exact h
          | notify hv =>
              obtain ⟨w, hw⟩ := Slot.value_eq_some hv
              rw [Slot.pop_cell] at hw
              have hkept : last.map Prod.fst = _ := h
              rw [Slot.kept, hw] at hkept
              exact hkept

/-- The history of a key that has reached `slot`. -/
structure Reached (ttl : Option ℕ) (k : String)
    (run : List (Entry (Slot OrderDelayState) (Fault (KeyEvent OrderState)) Effect))
    (slot : Slot Tracked) : Prop where
  hasKey : HasKey k slot
  remembers : Remembers (lastApplied ttl run) slot

/-- One more step of a key. -/
lemma Reached.step {config : StateConfig}
    {run : List (Entry (Slot OrderDelayState) (Fault (KeyEvent OrderState)) Effect)}
    (h : Reached config.ttl k run slot)
    (hend : final Slot.empty run = slot.map Tracked.toDelayState)
    {e : Entry (Slot OrderDelayState) (Fault (KeyEvent OrderState)) Effect}
    (hs : ExpiringStep (KeyStep delayedOrderOperator config k) (slot.map Tracked.toDelayState)
      e.label e.output e.target) :
    ∃ slot', ExpiringStep (TrackedStep config.ttl k) slot e.label e.output slot' ∧
      e.target = slot'.map Tracked.toDelayState ∧ Reached config.ttl k (run ++ [e]) slot' := by
  obtain ⟨slot', hts, htarget⟩ := (ExpiringStep.embeds (keyStep_embeds config k) _ _ _ _).mp hs
  refine ⟨slot', hts, htarget, hasKey_expiring hts h.hasKey, ?_⟩
  rw [lastApplied_concat, hend]
  exact h.remembers.step hts

/-- Every history of a key reaches a slot. -/
lemma exists_reached {config : StateConfig}
    {run : List (Entry (Slot OrderDelayState) (Fault (KeyEvent OrderState)) Effect)}
    (h : IsRun (ExpiringStep (KeyStep delayedOrderOperator config k)) Slot.empty run) :
    ∃ slot, final Slot.empty run = slot.map Tracked.toDelayState ∧ Reached config.ttl k run slot := by
  refine IsRun.history_induction
    (P := fun run s => ∃ slot, s = slot.map Tracked.toDelayState ∧ Reached config.ttl k run slot)
    ⟨Slot.empty, rfl, hasKey_empty k, rfl⟩ ?_ run h
  rintro run _ e _ hend ⟨slot, rfl, hreached⟩ hstep
  obtain ⟨slot', _, htarget, hreached'⟩ := hreached.step hend hstep
  exact ⟨slot', htarget, hreached'⟩

end Step

/-! ## Commands -/

/-- The command is for the message `o`, which is active and due at the event. -/
structure DueCommand (o : OrderState) (e : KeyEvent OrderState) (c : SmsCommand) : Prop where
  active : ∃ status, o.status = some status ∧ status.isTerminal = false
  due : ∃ eta, o.expectedDeliveryTime = some eta ∧ eta.epochMilli ≤ e.reached.val ∧
    e.reached ≤ e.now
  orderId : c.orderId = o.orderId
  customerId : c.customerId = o.customerId
  storeId : c.storeId = o.storeId
  expectedDeliveryTime : c.expectedDeliveryTime = o.expectedDeliveryTime
  createdAt : c.createdAt = Instant.ofEpochMilli e.now

lemma Emission.dueCommand {ttl : Option ℕ} {slot slot' : Slot Tracked} {e : KeyEvent OrderState}
    {fx : List Effect} {s : Snapshot} (h : Emission ttl slot e fx slot' s) {c : SmsCommand}
    (hc : c ∈ commands fx) : DueCommand s.toOrderState e c := by
  rw [h.command, List.mem_singleton] at hc
  subst hc
  exact ⟨⟨s.status, rfl, h.active⟩, ⟨s.expectedDeliveryTime, rfl, h.reached, h.reached_now⟩,
    rfl, rfl, rfl, rfl, rfl⟩

/-- **A command is for the last applied snapshot, active and due.**  Whenever a step of a run
emits a command, values of any orders having expired at any moments, the step is an event of the
order; the command is for the last message applied to it since its state was last created; and
that message is active with its expected delivery time reached — by the timestamp of the timer
too, if it is one that fired. -/
theorem command_for_last_applied {config : StateConfig}
    {run : List (Entry Job (String × Fault (KeyEvent OrderState)) Effect)} {k : String}
    {l : Fault (KeyEvent OrderState)} {fx : List Effect} {j : Job}
    (h : IsRun (ExpiringJobStep config) Job.initial (run ++ [⟨(k, l), fx, j⟩])) {c : SmsCommand}
    (hc : c ∈ commands fx) :
    ∃ e o now, l = .event e ∧ o.orderId = some k ∧
      lastApplied config.ttl (project k (run ++ [⟨(k, l), fx, j⟩])) = some (o, now) ∧
      DueCommand o e c := by
  have hproj := (isRun_project k _ _ h).1
  rw [project_concat_same] at hproj ⊢
  obtain ⟨hrun, hstep⟩ := isRun_concat.mp hproj
  obtain ⟨slot, hend, hreached⟩ := exists_reached hrun
  rw [show Job.initial k = Slot.empty from rfl, hend] at hstep
  obtain ⟨slot', hts, _, hreached'⟩ := hreached.step hend hstep
  cases hts with
  | expire => exact absurd hc (by simp)
  | @event _ e _ hts =>
      rcases hts.quiet_or_emission with hquiet | ⟨s, hemit⟩
      · rw [hquiet] at hc
        exact absurd hc List.not_mem_nil
      · have hlast := hreached'.remembers
        rw [Remembers, Slot.kept, hemit.written] at hlast
        obtain ⟨⟨o, now⟩, hlast, rfl⟩ := Option.map_eq_some_iff.mp hlast
        refine ⟨e, s.toOrderState, now, rfl, ?_, hlast, hemit.dueCommand hc⟩
        exact congrArg some (hreached'.hasKey _ hemit.written)

/-- Order 1 picked up, expected five minutes later than before. -/
def later1 : Snapshot :=
  .createOrder "order-1" .PICKED_UP (.ofEpochMilli (.of 900000)) (.ofEpochMilli (.of 1))

/-- Order 1 is forgotten while it waits and recreated with a later expected delivery time, next
to its old timer, which fires in vain. -/
def recreated : List (Entry (Slot OrderDelayState) (Fault (KeyEvent OrderState)) Effect) :=
  [⟨.event accepted1.label, [], waiting1⟩,
   ⟨.expire, [], ⟨none, {.of 600000}⟩⟩,
   ⟨.event (.element (.of 1000) (.ofEpochMilli (.of 0)) later1.toOrderState), [],
    (wrote ⟨later1, false, some (.of 900000)⟩ (.of 1000)
      {.of 900000, .of 600000}).map Tracked.toDelayState⟩,
   ⟨.event (.timer (.of 601000) (.ofEpochMilli (.of 0)) (.of 600000)), [],
    (wrote ⟨later1, false, some (.of 900000)⟩ (.of 1000) {.of 900000}).map Tracked.toDelayState⟩,
   ⟨.event (.timer (.of 901000) (.ofEpochMilli (.of 0)) (.of 900000)),
    later1.notification (.of 901000),
    (wrote ⟨later1, true, none⟩ (.of 901000) ∅).map Tracked.toDelayState⟩]

/-- The command is for the later expected delivery time. -/
theorem command_for_last_applied_recreated :
    ∃ e o now, Fault.event (.timer (.of 901000) (.ofEpochMilli (.of 0)) (.of 900000)) = .event e ∧
      o.orderId = some "order-1" ∧
      lastApplied none (project "order-1" (atKey "order-1" Job.initial recreated)) =
        some (o, now) ∧
      DueCommand o e (later1.delayCommand (.of 901000)) := by
  have hrun : IsRun (ExpiringJobStep ⟨.rocksDB, none⟩) Job.initial
      (atKey "order-1" Job.initial recreated) :=
    isRun_atKey "order-1" recreated Job.initial
      ⟨.event (.element rfl rfl), .expire, .event (.element rfl rfl),
        .event (.timer (by decide) (by decide) rfl), .event (.timer (by decide) (by decide) rfl),
        trivial⟩
  exact @command_for_last_applied _ ((atKey "order-1" Job.initial recreated).take 4) _ _ _ _ hrun _
    (List.mem_singleton_self _)

end DelayedOrderSms
