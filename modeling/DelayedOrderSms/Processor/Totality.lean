import DelayedOrderSms.Processor.Steps

/-!
# Which messages make the operator throw

The only operation of the operator that can throw is `Instant.toEpochMilli`.  `processElement`
reaches it with the expected delivery time of an accepted, active, un-notified snapshot, which
nothing has checked; `onTimer` reaches it only with one that `processElement` has already
converted (`Convertible`).

* `processElement_returns_iff` — in every reachable state, with values expiring at any moment,
  `processElement` returns exactly on the messages that are `Harmless`, and `onTimer` returns on
  every registered timer.
* `processElement_far_eta` — a message that is not.
-/

namespace DelayedOrderSms

open Java Flink Systems

/-- The ways a message can be treated: it becomes a dead-letter event, it is dropped as stale, or
what is kept of the order is updated from it. -/
inductive Treated (ttl : Option ℕ) (now : Long) (wall : Instant) (o : OrderState)
    (slot : Slot OrderDelayState) : List Effect → Slot OrderDelayState → Prop
  | deadLetter : isValid o = false →
      Treated ttl now wall o slot [.output (invalidOrderEvent o wall), .inc .invalid_messages] slot
  | dropped : isValid o = true → storedIsNewer o (slot.value ttl now) = .ok true →
      Treated ttl now wall o slot [.inc .stale_updates_ignored] slot
  | applied {current : OrderDelayState} {timers : Finset Long} {fx : List Effect} :
      isValid o = true → current.updateFrom o = current →
      Treated ttl now wall o slot fx ⟨some ⟨current, now⟩, timers⟩

/-- **The messages `processElement` copes with**: those it rejects or drops, those that finish
the order or come after its notification, and those whose expected delivery time fits in 64-bit
epoch milliseconds. -/
def Harmless (ttl : Option ℕ) (now : Long) (slot : Slot OrderDelayState) (o : OrderState) : Prop :=
  isValid o = false ∨ storedIsNewer o (slot.value ttl now) = .ok true ∨
    (∃ status ∈ o.status, status.isTerminal = true) ∨
    (∃ current ∈ slot.value ttl now, current.delaySmsEmitted = true) ∨
    ∃ eta ∈ o.expectedDeliveryTime, eta.FitsMillis

/-! ## Messages -/

section Messages

variable {ttl : Option ℕ} {now : Long} {s : Snapshot} {slot slot' : Slot Tracked}
  {fx : List Effect}

lemma storedIsNewer_iff : storedIsNewer s.toOrderState
      ((slot.map Tracked.toDelayState).value ttl now) = .ok true ↔
    ¬ Fresh s (slot.value ttl now) := by
  rw [storedIsNewer_toOrderState]
  simp

lemma Delivered.treated (h : Delivered ttl now s slot fx slot') (wall : Instant) :
    Treated ttl now wall s.toOrderState (slot.map Tracked.toDelayState) fx
      (slot'.map Tracked.toDelayState) := by
  cases h with
  | stale hv hlt => exact .dropped rfl (storedIsNewer_iff.mpr fun hf => hf _ hv hlt)
  | terminal => exact .applied rfl rfl
  | silent => exact .applied rfl rfl
  | due => exact .applied rfl rfl
  | pending => exact .applied rfl rfl

/-- For a valid message, being harmless is not meeting the case in which it overflows. -/
lemma harmless_iff : Harmless ttl now (slot.map Tracked.toDelayState) s.toOrderState ↔
    ¬ Overflows ttl now s slot := by
  have hterminal : (∃ status ∈ s.toOrderState.status, status.isTerminal = true) ↔ ¬ s.Active := by
    simp [Snapshot.toOrderState, Snapshot.Active]
  have hemitted : (∃ current ∈ (slot.map Tracked.toDelayState).value ttl now,
      current.delaySmsEmitted = true) ↔ ¬ notified (slot.value ttl now) = false := by
    rw [Slot.value_map]
    cases slot.value ttl now with
    | none => simp
    | some t => simp
  have hfits : (∃ eta ∈ s.toOrderState.expectedDeliveryTime, eta.FitsMillis) ↔ s.Fits := by
    simp [Snapshot.toOrderState, Snapshot.Fits]
  have hvalid : isValid s.toOrderState ≠ false := by simp
  rw [Harmless, storedIsNewer_iff, hterminal, hemitted, hfits, Overflows]
  tauto

end Messages

/-! ## Timers -/

/-- What is kept of an active, un-notified order has been converted to milliseconds before. -/
def Convertible (slot : Slot Tracked) : Prop :=
  ∀ c ∈ slot.cell, c.userValue.snapshot.Active → c.userValue.delaySmsEmitted = false →
    c.userValue.snapshot.Fits

section Timers

variable {ttl : Option ℕ} {k : String} {slot slot' : Slot Tracked} {e : KeyEvent OrderState}
  {fx : List Effect}

lemma convertible_wrote {t : Tracked} (h : t.snapshot.Active → t.delaySmsEmitted = false →
    t.snapshot.Fits) (w : Long) (T : Finset Long) : Convertible (wrote t w T) := by
  intro c hc
  obtain rfl := Option.some.inj hc
  exact h

lemma Convertible.step (h : Convertible slot) (hs : TrackedStep ttl k slot e fx slot') :
    Convertible slot' := by
  cases hs with
  | invalid => exact h
  | @delivered _ now _ s _ _ hd =>
      cases hd with
      | stale => exact h
      | terminal _ ha => exact convertible_wrote (fun ha' _ => absurd ha' ha) _ _
      | silent => exact convertible_wrote (fun _ hun => absurd hun (by simp)) _ _
      | due => exact convertible_wrote (fun _ hun => absurd hun (by simp)) _ _
      | @pending time _ _ _ htime _ =>
          refine convertible_wrote (fun _ _ => ?_) _ _
          have hlong : IsLong s.etaMs := by rw [htime]; exact time.property
          exact hlong
  | fired _ _ hf =>
      cases hf with
      | idle => exact h
      | notify => exact convertible_wrote (fun _ hun => absurd hun (by simp)) _ _

lemma Convertible.not_timerOverflows (h : Convertible slot) (now : Long) :
    ¬ TimerOverflows ttl now slot := by
  rintro ⟨t, hv, ha, hun, hfit⟩
  obtain ⟨w, hw⟩ := Slot.value_eq_some hv
  exact hfit (h _ hw ha hun)

lemma convertible_final
    {trun : List (Entry (Slot Tracked) (Fault (KeyEvent OrderState)) Effect)}
    (h : IsRun (ExpiringStep (TrackedStep ttl k)) Slot.empty trun) :
    Convertible (final Slot.empty trun) := by
  refine h.invariant ?_ (fun c hc => absurd hc (by simp [Slot.empty]))
  intro slot l fx slot' hc hs
  cases hs with
  | event hs => exact hc.step hs
  | expire => exact fun c hc' => absurd hc' (by simp)

end Timers

/-! ## The operator -/

/-- **When the operator returns normally.**  In every state the job can reach, values expiring at
any moment, and at any clock value: on a message with an order id `processElement` returns, having
treated the message in one of the three ways, exactly when the message is harmless; and `onTimer`
returns on every registered timer. -/
theorem processElement_returns_iff {config : StateConfig}
    {run : List (Entry Job (String × Fault (KeyEvent OrderState)) Effect)}
    (h : IsRun (ExpiringJobStep config) Job.initial run) (k : String) (o : OrderState)
    (now : Long) (wall : Instant) :
    ((∃ fx r, (processElement ⟨config, now, wall⟩ o).runOn (final Job.initial run k) =
          .ok (r, fx) ∧ Treated config.ttl now wall o (final Job.initial run k) fx r) ↔
        Harmless config.ttl now (final Job.initial run k) o) ∧
      ∀ ts ∈ (final Job.initial run k).timers, ∃ fx r,
        (onTimer ⟨config, now, wall⟩ ts).runOn ((final Job.initial run k).pop ts) =
          .ok (r, fx) := by
  obtain ⟨trun, htrun, _, hend⟩ := tracked_expiring_run h k
  have hconv := convertible_final htrun
  rw [hend]
  generalize final Slot.empty trun = slot at hconv
  constructor
  · cases hvalid : isValid o with
    | false =>
        exact ⟨fun _ => .inl hvalid,
          fun _ => ⟨_, _, processElement_invalid hvalid _, .deadLetter hvalid⟩⟩
    | true =>
        obtain ⟨s, rfl⟩ := isValid_iff.mp hvalid
        rw [harmless_iff]
        constructor
        · rintro ⟨fx, r, hrun, _⟩ hover
          have hthrows := @Overflows.runOn ⟨config, now, wall⟩ _ _ hover
          exact absurd (hrun.symm.trans hthrows) (by simp)
        · intro hnot
          rcases delivered_or_overflows config.ttl now s slot with ⟨fx, slot', hd⟩ | hover
          · exact ⟨fx, _, processElement_ok_iff.mpr ⟨slot', hd, rfl⟩, hd.treated wall⟩
          · exact absurd hover hnot
  · intro ts _
    rw [Slot.pop_map]
    have hpop : Convertible (slot.pop ts) := hconv
    rcases fired_or_overflows config.ttl now ts (slot.pop ts) with ⟨fx, slot', hf⟩ | hover
    · exact ⟨fx, _, onTimer_ok_iff.mpr ⟨slot', hf, rfl⟩⟩
    · exact absurd hover (hpop.not_timerOverflows now)

/-- `Instant.MAX`, as an expected delivery time of order 1. -/
def farOrder (status : OrderStatus) : Snapshot :=
  .createOrder "order-1" status
    ⟨31556889864403199, 999999999, by decide, by decide, by decide⟩ (.ofEpochMilli (.of 1))

/-- A new order expected at `Instant.MAX` makes `processElement` throw. -/
theorem processElement_far_eta : (farOrder .ACCEPTED).toOrderState.orderId = some "order-1" ∧
    ¬ ∃ fx r, (processElement ⟨stateConfig 7, .of 0, .ofEpochMilli (.of 0)⟩
      (farOrder .ACCEPTED).toOrderState).runOn (Job.initial "order-1") = .ok (r, fx) := by
  refine ⟨rfl, ?_⟩
  rintro ⟨fx, r, hrun⟩
  have hthrows : (processElement ⟨stateConfig 7, .of 0, .ofEpochMilli (.of 0)⟩
      (farOrder .ACCEPTED).toOrderState).runOn (Job.initial "order-1") =
        .error (.arithmeticException "long overflow") := rfl
  exact absurd (hthrows.symm.trans hrun) (by simp)

/-- The same expected delivery time on a delivered order is never converted. -/
theorem processElement_far_delivered :
    ∃ fx r, (processElement ⟨⟨.rocksDB, none⟩, .of 0, .ofEpochMilli (.of 0)⟩
        (farOrder .DELIVERED).toOrderState).runOn
          (final Job.initial (lateTimer.map asEvent) "order-1") = .ok (r, fx) ∧
      Treated none (.of 0) (.ofEpochMilli (.of 0)) (farOrder .DELIVERED).toOrderState
        (final Job.initial (lateTimer.map asEvent) "order-1") fx r := by
  have hrun := isRun_asEvent lateTimer _ isRun_lateTimer
  have hstatus : ∃ status ∈ (farOrder .DELIVERED).toOrderState.status, status.isTerminal = true :=
    ⟨.DELIVERED, rfl, rfl⟩
  exact (processElement_returns_iff hrun "order-1" _ _ _).1.mpr (.inr (.inr (.inl hstatus)))

end DelayedOrderSms
