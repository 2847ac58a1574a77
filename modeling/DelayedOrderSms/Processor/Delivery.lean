import DelayedOrderSms.Processor.Snapshot

/-!
# What one call of the operator can do

The inversion lemmas everything else is derived from.

* `Delivered` — the five ways in which `processElement` can treat a valid snapshot, each with
  its guard, its outputs and the slot it leaves; `processElement_ok_iff` says that it returns
  normally exactly in those ways.
* `Fired` — the two ways in which `onTimer` can treat a timer; `onTimer_ok_iff`.
* `Overflows`, `TimerOverflows` — the one way in which each of them throws.

None of them mentions the backend of the state: every path that changes the object also writes
it back, so a call that returns normally leaves the same slot under both.
-/

namespace DelayedOrderSms

open Java Flink

/-- The snapshot is not older than the one kept, so it is not stale. -/
def Fresh (s : Snapshot) (kept : Option Tracked) : Prop :=
  ∀ t ∈ kept, ¬ s.lastUpdatedAt < t.snapshot.lastUpdatedAt

instance (s : Snapshot) (kept : Option Tracked) : Decidable (Fresh s kept) :=
  inferInstanceAs (Decidable (∀ t ∈ kept, ¬ s.lastUpdatedAt < t.snapshot.lastUpdatedAt))

lemma fresh_none (s : Snapshot) : Fresh s none := fun _ h => absurd h (by simp)

lemma fresh_some {s : Snapshot} {t : Tracked} :
    Fresh s (some t) ↔ ¬ s.lastUpdatedAt < t.snapshot.lastUpdatedAt := by
  simp [Fresh]

/-- The staleness check, read on what is kept. -/
lemma storedIsNewer_toOrderState (s : Snapshot) (slot : Slot Tracked) (ttl : Option ℕ)
    (now : Long) :
    storedIsNewer s.toOrderState ((slot.map Tracked.toDelayState).value ttl now) =
      .ok (!decide (Fresh s (slot.value ttl now))) := by
  rw [Slot.value_map]
  cases slot.value ttl now with
  | none => simp [storedIsNewer, fresh_none]
  | some t =>
      have hbefore : s.lastUpdatedAt.isBefore t.snapshot.lastUpdatedAt =
          decide (s.lastUpdatedAt < t.snapshot.lastUpdatedAt) := by
        rw [← Bool.coe_iff_coe, Instant.isBefore_iff, decide_eq_true_iff]
      simp only [Option.map_some, storedIsNewer, Tracked.isStaleUpdate_toDelayState, hbefore,
        fresh_some, decide_not, Bool.not_not]

/-- The order has been notified, as far as is known. -/
def notified (kept : Option Tracked) : Bool := kept.any (·.delaySmsEmitted)

/-- The timer the kept state remembers. -/
def timerOf (kept : Option Tracked) : Option Long := kept.bind (·.registeredTimerTime)

@[simp] lemma notified_none : notified none = false := rfl
@[simp] lemma notified_some (t : Tracked) : notified (some t) = t.delaySmsEmitted := rfl
@[simp] lemma timerOf_none : timerOf none = none := rfl
@[simp] lemma timerOf_some (t : Tracked) : timerOf (some t) = t.registeredTimerTime := rfl

/-- The timers after `deleteRegisteredTimer`. -/
def dropTimer (timers : Finset Long) : Option Long → Finset Long
  | none => timers
  | some time => timers.erase time

/-- The timers after `registerOrUpdateTimer`. -/
def moveTimer (timers : Finset Long) (old : Option Long) (time : Long) : Finset Long :=
  if old = some time then timers else insert time (dropTimer timers old)

/-- The slot in which `t` has just been written. -/
def wrote (t : Tracked) (now : Long) (timers : Finset Long) : Slot Tracked := ⟨some ⟨t, now⟩, timers⟩

/-- **What `processElement` does with a valid snapshot**: drop it as stale, or keep it in place
of what was known — and then settle a finished order, keep quiet about a notified one, notify
one that is due, or move the timer of one that is not. -/
inductive Delivered (ttl : Option ℕ) (now : Long) (s : Snapshot) (slot : Slot Tracked) :
    List Effect → Slot Tracked → Prop
  | stale {t : Tracked} : slot.value ttl now = some t →
      s.lastUpdatedAt < t.snapshot.lastUpdatedAt →
      Delivered ttl now s slot [.inc .stale_updates_ignored] slot
  | terminal : Fresh s (slot.value ttl now) → ¬ s.Active →
      Delivered ttl now s slot []
        (wrote ⟨s, notified (slot.value ttl now), none⟩ now
          (dropTimer slot.timers (timerOf (slot.value ttl now))))
  | silent : Fresh s (slot.value ttl now) → s.Active → notified (slot.value ttl now) = true →
      Delivered ttl now s slot []
        (wrote ⟨s, true, timerOf (slot.value ttl now)⟩ now slot.timers)
  | due : Fresh s (slot.value ttl now) → s.Active → notified (slot.value ttl now) = false →
      s.Fits → s.etaMs ≤ now.val →
      Delivered ttl now s slot (s.notification now)
        (wrote ⟨s, true, none⟩ now (dropTimer slot.timers (timerOf (slot.value ttl now))))
  | pending {time : Long} : Fresh s (slot.value ttl now) → s.Active →
      notified (slot.value ttl now) = false → s.etaMs = time.val → now < time →
      Delivered ttl now s slot []
        (wrote ⟨s, false, some time⟩ now
          (moveTimer slot.timers (timerOf (slot.value ttl now)) time))

/-- **What `onTimer` does**, in a slot from which the timer has been taken: nothing, or notify
an active, un-notified order whose expected delivery time the timer has reached. -/
inductive Fired (ttl : Option ℕ) (now ts : Long) (slot : Slot Tracked) :
    List Effect → Slot Tracked → Prop
  | idle : (∀ t ∈ slot.value ttl now, t.snapshot.Active → t.delaySmsEmitted = false →
        t.snapshot.Fits ∧ ts.val < t.snapshot.etaMs) →
      Fired ttl now ts slot [] slot
  | notify {t : Tracked} : slot.value ttl now = some t → t.snapshot.Active →
      t.delaySmsEmitted = false → t.snapshot.Fits → t.snapshot.etaMs ≤ ts.val →
      Fired ttl now ts slot (t.snapshot.notification now)
        (wrote ⟨t.snapshot, true, none⟩ now slot.timers)

/-! ## Running the bodies -/

lemma toEpochMilli_of_not_fits {s : Snapshot} (h : ¬ s.Fits) :
    s.expectedDeliveryTime.toEpochMilli = .error (.arithmeticException "long overflow") := by
  rw [Instant.toEpochMilli_eq]
  exact exact_of_not_isLong h

/-- A call in progress whose local variable points to the object of `t`. -/
def holding (t : Tracked) (cell : Option (TtlValue OrderDelayState)) (timers : Finset Long)
    (live : Bool) (fx : List Effect) : Invocation OrderDelayState Effect :=
  ⟨⟨cell, timers⟩, some t.toDelayState, live, fx⟩

/-- The same call right after an `update`. -/
def saved (context : Context) (t : Tracked) (timers : Finset Long) (fx : List Effect) :
    Invocation OrderDelayState Effect :=
  holding t (some ⟨t.toDelayState, context.currentProcessingTime⟩) timers
    (context.config.backend == .heap) fx

section Run

variable {context : Context} (t : Tracked) (c : Option (TtlValue OrderDelayState))
  (T : Finset Long) (l : Bool) (fx : List Effect)

@[simp] lemma deref_holding : (Op.deref : Body _).run (holding t c T l fx) =
    .ok (t.toDelayState, holding t c T l fx) := rfl

@[simp] lemma update_holding : (Op.update context : Body _).run (holding t c T l fx) =
    .ok ((), saved context t T fx) := rfl

@[simp] lemma delete_holding (time : Long) :
    (Op.deleteProcessingTimeTimer time : Body _).run (holding t c T l fx) =
      .ok ((), holding t c (T.erase time) l fx) := rfl

@[simp] lemma register_holding (time : Long) :
    (Op.registerProcessingTimeTimer time : Body _).run (holding t c T l fx) =
      .ok ((), holding t c (insert time T) l fx) := rfl

@[simp] lemma emit_holding (f : Effect) : (Op.emit f : Body _).run (holding t c T l fx) =
    .ok ((), holding t c T l (fx ++ [f])) := rfl

/-- Setters leave the cell alone or change the object in it; which one will not matter, since
an `update` follows. -/
lemma mutate_holding {f : OrderDelayState → OrderDelayState} {t t' : Tracked}
    (h : f t.toDelayState = t'.toDelayState) :
    ∃ c', (Op.mutate f : Body _).run (holding t c T l fx) = .ok ((), holding t' c' T l fx) := by
  refine ⟨if l then c.map fun c => { c with userValue := t'.toDelayState } else c, ?_⟩
  simp only [Op.mutate, holding, h]

lemma deleteRegisteredTimer_holding : ∃ c', deleteRegisteredTimer.run (holding t c T l fx) =
    .ok ((), holding { t with registeredTimerTime := none } c'
      (dropTimer T t.registeredTimerTime) l fx) := by
  rcases t with ⟨s, b, _ | time⟩
  · exact ⟨c, rfl⟩
  · exact ⟨_, rfl⟩

lemma registerOrUpdateTimer_holding (time : Long) :
    ∃ c', (registerOrUpdateTimer time).run (holding t c T l fx) =
      .ok ((), holding { t with registeredTimerTime := some time } c'
        (moveTimer T t.registeredTimerTime time) l fx) := by
  rcases t with ⟨s, b, _ | old⟩
  · exact ⟨_, rfl⟩
  · by_cases h : old = time
    · subst h
      exact ⟨c, by simp [registerOrUpdateTimer, Op.run_bind, moveTimer]⟩
    · obtain ⟨c', hm⟩ := mutate_holding c (insert time (T.erase old)) l fx
        (Tracked.setRegisteredTimerTime_toDelayState ⟨s, b, some old⟩ (some time))
      exact ⟨c', by simp [registerOrUpdateTimer, Op.run_bind, moveTimer, dropTimer, h, hm]⟩

lemma emitDelaySms_holding :
    (emitDelaySms context context.currentProcessingTime).run (holding t c T l fx) =
      .ok ((), saved context ⟨t.snapshot, true, none⟩ T
        (fx ++ t.snapshot.notification context.currentProcessingTime)) := by
  simp only [emitDelaySms, Op.run_bind, deref_holding, emit_holding]
  simp [saved, holding, Op.mutate, Op.update, Snapshot.notification]

/-! The second half of `processElement`, from an object in hand. -/

lemma processUpdated_terminal (h : ¬ t.snapshot.Active) :
    (processUpdated context).run (holding t c T l fx) =
      .ok ((), saved context { t with registeredTimerTime := none }
        (dropTimer T t.registeredTimerTime) fx) := by
  obtain ⟨c', hd⟩ := deleteRegisteredTimer_holding t c T l fx
  simp only [Snapshot.Active, Bool.not_eq_false] at h
  simp [processUpdated, Op.run_bind, h, hd]

lemma processUpdated_silent (h : t.snapshot.Active) (he : t.delaySmsEmitted = true) :
    (processUpdated context).run (holding t c T l fx) = .ok ((), saved context t T fx) := by
  simp only [Snapshot.Active] at h
  simp [processUpdated, Op.run_bind, h, he]

lemma processUpdated_due (h : t.snapshot.Active) (he : t.delaySmsEmitted = false) {ms : Long}
    (hms : t.snapshot.expectedDeliveryTime.toEpochMilli = .ok ms)
    (hdue : ms ≤ context.currentProcessingTime) :
    (processUpdated context).run (holding t c T l fx) =
      .ok ((), saved context ⟨t.snapshot, true, none⟩ (dropTimer T t.registeredTimerTime)
        (fx ++ t.snapshot.notification context.currentProcessingTime)) := by
  obtain ⟨c', hd⟩ := deleteRegisteredTimer_holding t c T l fx
  simp only [Snapshot.Active] at h
  simp [processUpdated, Op.run_bind, h, he, hms, hdue, hd, emitDelaySms_holding]

lemma processUpdated_pending (h : t.snapshot.Active) (he : t.delaySmsEmitted = false) {ms : Long}
    (hms : t.snapshot.expectedDeliveryTime.toEpochMilli = .ok ms)
    (hdue : context.currentProcessingTime < ms) :
    (processUpdated context).run (holding t c T l fx) =
      .ok ((), saved context { t with registeredTimerTime := some ms }
        (moveTimer T t.registeredTimerTime ms) fx) := by
  obtain ⟨c', hr⟩ := registerOrUpdateTimer_holding t c T l fx ms
  simp only [Snapshot.Active] at h
  simp [processUpdated, Op.run_bind, h, he, hms, not_le.mpr hdue, hr]

lemma processUpdated_throws (h : t.snapshot.Active) (he : t.delaySmsEmitted = false)
    (hfit : ¬ t.snapshot.Fits) :
    (processUpdated context).run (holding t c T l fx) =
      .error (.arithmeticException "long overflow") := by
  have hms := toEpochMilli_of_not_fits hfit
  simp only [Snapshot.Active] at h
  simp [processUpdated, Op.run_bind, h, he, hms]

end Run

/-- A valid snapshot that is not stale reaches the second half with the updated object in hand:
what was known of the order, with the snapshot in place of the old one. -/
lemma processElement_fresh (context : Context) {s : Snapshot} {slot : Slot Tracked}
    (h : Fresh s (slot.value context.config.ttl context.currentProcessingTime)) :
    ∃ c' l', (processElement context s.toOrderState).run
        ⟨slot.map Tracked.toDelayState, none, false, []⟩ =
      (processUpdated context).run
        (holding
          ⟨s, notified (slot.value context.config.ttl context.currentProcessingTime),
            timerOf (slot.value context.config.ttl context.currentProcessingTime)⟩
          c' slot.timers l' []) := by
  cases hv : slot.value context.config.ttl context.currentProcessingTime with
  | none =>
      refine ⟨(slot.map Tracked.toDelayState).cell, false, ?_⟩
      simp [processElement, Op.run_bind, hv, storedIsNewer]
      rfl
  | some t =>
      rw [hv] at h
      have hnew : s.lastUpdatedAt.isBefore t.snapshot.lastUpdatedAt = false := by
        rw [← Bool.not_eq_true, Instant.isBefore_iff]
        exact h t rfl
      obtain ⟨c', hm⟩ := mutate_holding (slot.map Tracked.toDelayState).cell slot.timers
        (context.config.backend == .heap) [] (Tracked.updateFrom_toDelayState s t)
      have hm' : (Op.mutate (OrderDelayState.updateFrom s.toOrderState) : Body _).run
          ⟨slot.map Tracked.toDelayState, some t.toDelayState, context.config.backend == .heap, []⟩
          = .ok ((), holding ⟨s, t.delaySmsEmitted, t.registeredTimerTime⟩ c' slot.timers
            (context.config.backend == .heap) []) := hm
      refine ⟨c', context.config.backend == .heap, ?_⟩
      simp [processElement, Op.run_bind, hv, storedIsNewer, hnew, hm']

/-! ## The callbacks, case by case -/

/-- The call returns normally with the slot `slot'`, the outputs `fx` and nothing unwritten. -/
def Returns (op : Body Unit) (slot : Slot OrderDelayState) (fx : List Effect)
    (slot' : Slot OrderDelayState) : Prop :=
  ∃ s, op.run ⟨slot, none, false, []⟩ = .ok ((), s) ∧ s.toSlot = slot' ∧ s.effects = fx ∧ s.Written

lemma Returns.runOn {op : Body Unit} {slot slot' : Slot OrderDelayState} {fx : List Effect}
    (h : Returns op slot fx slot') : op.runOn slot = .ok (slot', fx) := by
  obtain ⟨s, hrun, rfl, rfl, _⟩ := h
  rw [Op.runOn, hrun]

lemma returns_saved {op : Body Unit} {context : Context} {slot : Slot OrderDelayState} {t : Tracked}
    {T : Finset Long} {fx : List Effect}
    (h : op.run ⟨slot, none, false, []⟩ = .ok ((), saved context t T fx)) :
    Returns op slot fx ((wrote t context.currentProcessingTime T).map Tracked.toDelayState) :=
  ⟨_, h, rfl, rfl, fun _ hv => hv⟩

/-- A call that only reads leaves the object it read as it is stored. -/
lemma returns_read {op : Body Unit} {context : Context} {slot : Slot Tracked} {fx : List Effect}
    {live : Bool}
    (h : op.run ⟨slot.map Tracked.toDelayState, none, false, []⟩ = .ok ((),
      ⟨slot.map Tracked.toDelayState, (slot.value context.config.ttl
        context.currentProcessingTime).map Tracked.toDelayState, live, fx⟩)) :
    Returns op (slot.map Tracked.toDelayState) fx (slot.map Tracked.toDelayState) := by
  refine ⟨_, h, rfl, rfl, fun v hv => ?_⟩
  obtain ⟨t, ht, rfl⟩ := Option.map_eq_some_iff.mp hv
  obtain ⟨w, hw⟩ := Slot.value_eq_some ht
  rw [Slot.map_kept, Slot.kept, hw]
  rfl

section Cases

variable {context : Context} {s : Snapshot} {slot : Slot Tracked}

/-- Every way of treating a snapshot is one `processElement` takes. -/
lemma Delivered.returns {fx : List Effect} {slot' : Slot Tracked}
    (h : Delivered context.config.ttl context.currentProcessingTime s slot fx slot') :
    Returns (processElement context s.toOrderState) (slot.map Tracked.toDelayState) fx
      (slot'.map Tracked.toDelayState) := by
  cases h with
  | stale hv hlt =>
      have hold := Instant.isBefore_iff.mpr hlt
      refine @returns_read _ context slot _ (context.config.backend == .heap) ?_
      simp [processElement, Op.run_bind, hv, storedIsNewer, hold, Op.emit]
  | terminal hf ha =>
      obtain ⟨c', l', hrun⟩ := processElement_fresh context hf
      rw [processUpdated_terminal _ _ _ _ _ ha] at hrun
      exact returns_saved hrun
  | silent hf ha hn =>
      obtain ⟨c', l', hrun⟩ := processElement_fresh context hf
      rw [processUpdated_silent _ _ _ _ _ ha hn, hn] at hrun
      exact returns_saved hrun
  | due hf ha hn hfit hle =>
      obtain ⟨c', l', hrun⟩ := processElement_fresh context hf
      obtain ⟨ms, hms⟩ := Instant.exists_toEpochMilli_iff.mpr hfit
      have hdue : ms.val ≤ context.currentProcessingTime.val :=
        Instant.toEpochMilli_eq_ok_iff.mp hms ▸ hle
      rw [processUpdated_due _ _ _ _ _ ha hn hms hdue] at hrun
      exact returns_saved hrun
  | pending hf ha hn htime hlt =>
      obtain ⟨c', l', hrun⟩ := processElement_fresh context hf
      have hms := Instant.toEpochMilli_eq_ok_iff.mpr htime
      rw [processUpdated_pending _ _ _ _ _ ha hn hms hlt, hn] at hrun
      exact returns_saved hrun

lemma Delivered.runOn {fx : List Effect} {slot' : Slot Tracked}
    (h : Delivered context.config.ttl context.currentProcessingTime s slot fx slot') :
    (processElement context s.toOrderState).runOn (slot.map Tracked.toDelayState) =
      .ok (slot'.map Tracked.toDelayState, fx) := h.returns.runOn

/-- The snapshot makes `processElement` throw: it is accepted, active and un-notified, and its
expected delivery time does not fit in a `long` of milliseconds. -/
def Overflows (ttl : Option ℕ) (now : Long) (s : Snapshot) (slot : Slot Tracked) : Prop :=
  Fresh s (slot.value ttl now) ∧ s.Active ∧ notified (slot.value ttl now) = false ∧ ¬ s.Fits

lemma Overflows.runOn (h : Overflows context.config.ttl context.currentProcessingTime s slot) :
    (processElement context s.toOrderState).runOn (slot.map Tracked.toDelayState) =
      .error (.arithmeticException "long overflow") := by
  obtain ⟨hf, ha, hn, hfit⟩ := h
  obtain ⟨c', l', hrun⟩ := processElement_fresh context hf
  rw [processUpdated_throws _ _ _ _ _ ha hn hfit] at hrun
  rw [Op.runOn, hrun]

/-- There is no further way. -/
lemma delivered_or_overflows (ttl : Option ℕ) (now : Long) (s : Snapshot) (slot : Slot Tracked) :
    (∃ fx slot', Delivered ttl now s slot fx slot') ∨ Overflows ttl now s slot := by
  by_cases hf : Fresh s (slot.value ttl now)
  · by_cases ha : s.Active
    · cases hn : notified (slot.value ttl now) with
      | true => exact .inl ⟨_, _, .silent hf ha hn⟩
      | false =>
          by_cases hfit : s.Fits
          · rcases le_or_gt s.etaMs now.val with hle | hlt
            · exact .inl ⟨_, _, .due hf ha hn hfit hle⟩
            · obtain ⟨ms, hms⟩ := Instant.exists_toEpochMilli_iff.mpr hfit
              have heta : s.etaMs = ms.val := Instant.toEpochMilli_eq_ok_iff.mp hms
              exact .inl ⟨_, _, .pending hf ha hn heta (show now.val < ms.val from heta ▸ hlt)⟩
          · exact .inr ⟨hf, ha, hn, hfit⟩
    · exact .inl ⟨_, _, .terminal hf ha⟩
  · simp only [Fresh, not_forall, not_not] at hf
    obtain ⟨t, hv, hlt⟩ := hf
    exact .inl ⟨_, _, .stale hv hlt⟩

/-- A call that returns in known ways, or throws, is inverted. -/
lemma ok_iff_of_ways {call : Except Throwable (Slot OrderDelayState × List Effect)}
    {ways : List Effect → Slot Tracked → Prop}
    (hways : ∀ fx slot', ways fx slot' → call = .ok (slot'.map Tracked.toDelayState, fx))
    (htotal : (∃ fx slot', ways fx slot') ∨ ∃ e, call = .error e)
    {r : Slot OrderDelayState} {fx : List Effect} :
    call = .ok (r, fx) ↔ ∃ slot', ways fx slot' ∧ r = slot'.map Tracked.toDelayState := by
  constructor
  · intro h
    rcases htotal with ⟨fx', slot', hd⟩ | ⟨e, he⟩
    · obtain ⟨hr, rfl⟩ := Prod.mk.inj (Except.ok.inj (h.symm.trans (hways fx' slot' hd)))
      exact ⟨slot', hd, hr⟩
    · exact absurd (h.symm.trans he) (by simp)
  · rintro ⟨slot', hd, rfl⟩
    exact hways fx slot' hd

/-- **`processElement` on a valid snapshot, inverted.** -/
theorem processElement_ok_iff {r : Slot OrderDelayState} {fx : List Effect} :
    (processElement context s.toOrderState).runOn (slot.map Tracked.toDelayState) = .ok (r, fx) ↔
      ∃ slot', Delivered context.config.ttl context.currentProcessingTime s slot fx slot' ∧
        r = slot'.map Tracked.toDelayState :=
  ok_iff_of_ways (fun _ _ hd => hd.runOn)
    ((delivered_or_overflows _ _ s slot).imp_right fun ho => ⟨_, ho.runOn⟩)

/-- There is one way at a time. -/
lemma Delivered.unique {ttl : Option ℕ} {now : Long} {fx fx' : List Effect}
    {slot₁ slot₂ : Slot Tracked} (h : Delivered ttl now s slot fx slot₁)
    (h' : Delivered ttl now s slot fx' slot₂) : fx = fx' ∧ slot₁ = slot₂ := by
  have hrun := @Delivered.runOn ⟨⟨.rocksDB, ttl⟩, now, Instant.ofEpochMilli now⟩ s slot fx slot₁ h
  have hrun' := @Delivered.runOn ⟨⟨.rocksDB, ttl⟩, now, Instant.ofEpochMilli now⟩ s slot fx' slot₂ h'
  obtain ⟨hslot, hfx⟩ := Prod.mk.inj (Except.ok.inj (hrun.symm.trans hrun'))
  exact ⟨hfx, Slot.map_injective Tracked.toDelayState_injective hslot⟩

/-! ### `onTimer` -/

variable {ts : Long}

/-- Every way of treating a timer is one `onTimer` takes. -/
lemma Fired.returns {fx : List Effect} {slot' : Slot Tracked}
    (h : Fired context.config.ttl context.currentProcessingTime ts slot fx slot') :
    Returns (onTimer context ts) (slot.map Tracked.toDelayState) fx
      (slot'.map Tracked.toDelayState) := by
  cases h with
  | idle hidle =>
      refine @returns_read _ context slot _ (context.config.backend == .heap) ?_
      cases hv : slot.value context.config.ttl context.currentProcessingTime with
      | none => simp [onTimer, Op.run_bind, hv]
      | some t =>
          rw [hv] at hidle
          by_cases ha : t.snapshot.status.isTerminal = true
          · simp [onTimer, Op.run_bind, hv, ha]
          · cases he : t.delaySmsEmitted with
            | true => simp [onTimer, Op.run_bind, hv, ha, he]
            | false =>
                obtain ⟨hfit, hlt⟩ := hidle t rfl (by simpa [Snapshot.Active] using ha) he
                obtain ⟨ms, hms⟩ := Instant.exists_toEpochMilli_iff.mpr hfit
                have hlt' : ts < ms :=
                  show ts.val < ms.val from Instant.toEpochMilli_eq_ok_iff.mp hms ▸ hlt
                simp [onTimer, Op.run_bind, hv, ha, he, hms, not_le.mpr hlt']
  | @notify t hv ha he hfit hle =>
      obtain ⟨ms, hms⟩ := Instant.exists_toEpochMilli_iff.mpr hfit
      have hle' : ms ≤ ts :=
        show ms.val ≤ ts.val from Instant.toEpochMilli_eq_ok_iff.mp hms ▸ hle
      have hrun : (onTimer context ts).run ⟨slot.map Tracked.toDelayState, none, false, []⟩ =
          (emitDelaySms context context.currentProcessingTime).run
            (holding t (slot.map Tracked.toDelayState).cell slot.timers
              (context.config.backend == .heap) []) := by
        simp only [Snapshot.Active] at ha
        simp [onTimer, Op.run_bind, hv, ha, he, hms, hle']
        rfl
      rw [emitDelaySms_holding] at hrun
      exact returns_saved hrun

lemma Fired.runOn {fx : List Effect} {slot' : Slot Tracked}
    (h : Fired context.config.ttl context.currentProcessingTime ts slot fx slot') :
    (onTimer context ts).runOn (slot.map Tracked.toDelayState) =
      .ok (slot'.map Tracked.toDelayState, fx) := h.returns.runOn

/-- The timer makes `onTimer` throw: the order kept is active and un-notified, and its expected
delivery time does not fit in a `long` of milliseconds. -/
def TimerOverflows (ttl : Option ℕ) (now : Long) (slot : Slot Tracked) : Prop :=
  ∃ t, slot.value ttl now = some t ∧ t.snapshot.Active ∧ t.delaySmsEmitted = false ∧
    ¬ t.snapshot.Fits

lemma TimerOverflows.runOn
    (h : TimerOverflows context.config.ttl context.currentProcessingTime slot) :
    (onTimer context ts).runOn (slot.map Tracked.toDelayState) =
      .error (.arithmeticException "long overflow") := by
  obtain ⟨t, hv, ha, he, hfit⟩ := h
  have hms := toEpochMilli_of_not_fits hfit
  simp only [Snapshot.Active] at ha
  simp [Op.runOn, onTimer, Op.run_bind, hv, ha, he, hms]

/-- There is no further way. -/
lemma fired_or_overflows (ttl : Option ℕ) (now ts : Long) (slot : Slot Tracked) :
    (∃ fx slot', Fired ttl now ts slot fx slot') ∨ TimerOverflows ttl now slot := by
  by_cases ho : TimerOverflows ttl now slot
  · exact .inr ho
  · left
    by_cases hn : ∃ t, slot.value ttl now = some t ∧ t.snapshot.Active ∧
        t.delaySmsEmitted = false ∧ t.snapshot.etaMs ≤ ts.val
    · obtain ⟨t, hv, ha, he, hle⟩ := hn
      have hfit : t.snapshot.Fits := not_not.mp fun hf => ho ⟨t, hv, ha, he, hf⟩
      exact ⟨_, _, .notify hv ha he hfit hle⟩
    · refine ⟨_, _, .idle fun t hv ha he => ⟨?_, ?_⟩⟩
      · exact not_not.mp fun hf => ho ⟨t, hv, ha, he, hf⟩
      · exact not_le.mp fun hle => hn ⟨t, hv, ha, he, hle⟩

/-- **`onTimer`, inverted.** -/
theorem onTimer_ok_iff {r : Slot OrderDelayState} {fx : List Effect} :
    (onTimer context ts).runOn (slot.map Tracked.toDelayState) = .ok (r, fx) ↔
      ∃ slot', Fired context.config.ttl context.currentProcessingTime ts slot fx slot' ∧
        r = slot'.map Tracked.toDelayState :=
  ok_iff_of_ways (fun _ _ hd => hd.runOn)
    ((fired_or_overflows _ _ ts slot).imp_right fun ho => ⟨_, ho.runOn⟩)

/-! ### Invalid orders -/

/-- An invalid order goes to the side output and changes nothing. -/
lemma processElement_invalid {o : OrderState} (h : isValid o = false)
    (slot : Slot OrderDelayState) :
    (processElement context o).runOn slot =
      .ok (slot, [.output (invalidOrderEvent o context.instantNow), .inc .invalid_messages]) := by
  simp [Op.runOn, processElement, Op.run_bind, h, Op.emit]

end Cases

end DelayedOrderSms
