import DelayedOrderSms.Processor.Steps
import Mathlib.Data.Finset.Option

/-!
# Timers and state agree

Without state expiry an order is, at any time, in one of three shapes (`Coherent`): nothing is
kept of it; it is settled, that is finished or notified, and has no timer; or it is waiting, and
has exactly the timer at its expected delivery time, which is also the one it remembers.

* `Coherent.step` — every step keeps the shapes.
* `timers_coherent` — what that says about the classes of the job.
-/

namespace DelayedOrderSms

open Java Flink Systems

/-- **The three shapes of an order.** -/
inductive Coherent : Slot Tracked → Prop
  | nothing : Coherent Slot.empty
  | settled {s : Snapshot} {b : Bool} {w : Long} : (s.Active → b = true) →
      Coherent (wrote ⟨s, b, none⟩ w ∅)
  | waiting {s : Snapshot} {w time : Long} : s.Active → s.etaMs = time.val →
      Coherent (wrote ⟨s, false, some time⟩ w {time})

@[simp] lemma kept_wrote (t : Tracked) (w : Long) (T : Finset Long) :
    (wrote t w T).kept = some t := rfl

@[simp] lemma timers_wrote (t : Tracked) (w : Long) (T : Finset Long) :
    (wrote t w T).timers = T := rfl

section Step

variable {k : String} {slot slot' : Slot Tracked} {e : KeyEvent OrderState} {fx : List Effect}

/-- Dropping the remembered timer leaves none. -/
lemma Coherent.dropTimer (h : Coherent slot) : dropTimer slot.timers (timerOf slot.kept) = ∅ := by
  cases h with
  | nothing => rfl
  | settled => rfl
  | waiting => exact Finset.erase_singleton _

/-- Moving the remembered timer leaves the new one. -/
lemma Coherent.moveTimer (h : Coherent slot) (time : Long) :
    moveTimer slot.timers (timerOf slot.kept) time = {time} := by
  rw [DelayedOrderSms.moveTimer, h.dropTimer]
  split_ifs with hold
  · cases h with
    | nothing => exact absurd hold (by simp [Slot.empty, Slot.kept])
    | settled => exact absurd hold (by simp)
    | waiting => rw [Option.some.inj hold, timers_wrote]
  · exact insert_empty_eq time

/-- A notified order has no timer. -/
lemma Coherent.of_notified (h : Coherent slot) (hn : notified slot.kept = true) :
    slot.timers = ∅ ∧ timerOf slot.kept = none := by
  cases h with
  | nothing => exact ⟨rfl, rfl⟩
  | settled => exact ⟨rfl, rfl⟩
  | waiting => exact absurd hn (by simp)

/-- The remembered timer is registered. -/
lemma Coherent.timerOf_mem (h : Coherent slot) {ts : Long} (hts : timerOf slot.kept = some ts) :
    ts ∈ slot.timers := by
  cases h with
  | nothing => exact absurd hts (by simp [Slot.empty, Slot.kept])
  | settled => exact absurd hts (by simp)
  | waiting =>
      obtain rfl := Option.some.inj hts
      exact Finset.mem_singleton_self _

/-- A timer belongs to the order that waits for it. -/
lemma Coherent.of_timer (h : Coherent slot) {ts : Long} (hts : ts ∈ slot.timers) :
    ∃ s w, s.Active ∧ s.etaMs = ts.val ∧ slot = wrote ⟨s, false, some ts⟩ w {ts} := by
  cases h with
  | nothing => exact absurd hts (Finset.notMem_empty ts)
  | settled => exact absurd hts (Finset.notMem_empty ts)
  | @waiting s w time ha heta =>
      obtain rfl := Finset.mem_singleton.mp hts
      exact ⟨s, w, ha, heta, rfl⟩

lemma Coherent.delivered {now : Long} {s : Snapshot} (h : Coherent slot)
    (hd : Delivered none now s slot fx slot') : Coherent slot' := by
  cases hd with
  | stale => exact h
  | terminal _ ha =>
      rw [Slot.value_none, h.dropTimer]
      exact .settled fun ha' => absurd ha' ha
  | silent _ _ hn =>
      rw [Slot.value_none] at hn ⊢
      obtain ⟨htimers, hnone⟩ := h.of_notified hn
      rw [htimers, hnone]
      exact .settled fun _ => rfl
  | due =>
      rw [Slot.value_none, h.dropTimer]
      exact .settled fun _ => rfl
  | pending _ ha _ htime =>
      rw [Slot.value_none, h.moveTimer]
      exact .waiting ha htime

/-- When the timer of a waiting order fires, the order is notified. -/
lemma Coherent.fired {now ts : Long} (h : Coherent slot) (hts : ts ∈ slot.timers)
    (hf : Fired none now ts (slot.pop ts) fx slot') :
    ∃ s w, s.Active ∧ s.etaMs = ts.val ∧ slot = wrote ⟨s, false, some ts⟩ w {ts} ∧
      fx = s.notification now ∧ slot' = wrote ⟨s, true, none⟩ now ∅ := by
  obtain ⟨s, w, ha, heta, rfl⟩ := h.of_timer hts
  refine ⟨s, w, ha, heta, rfl, ?_⟩
  have hempty : ((wrote ⟨s, false, some ts⟩ w {ts}).pop ts).timers = ∅ :=
    Finset.erase_singleton ts
  cases hf with
  | idle hguard =>
      have hlt := (hguard ⟨s, false, some ts⟩ rfl ha rfl).2
      rw [heta] at hlt
      exact absurd hlt (lt_irrefl _)
  | notify hv =>
      rw [Slot.value_none, Slot.kept_pop, kept_wrote] at hv
      obtain rfl := Option.some.inj hv
      rw [hempty]
      exact ⟨rfl, rfl⟩

/-- **Every step keeps the shapes.** -/
theorem Coherent.step (h : Coherent slot) (hs : TrackedStep none k slot e fx slot') :
    Coherent slot' := by
  cases hs with
  | invalid => exact h
  | delivered _ hd => exact h.delivered hd
  | fired hts _ hf =>
      obtain ⟨s, w, _, _, _, _, rfl⟩ := h.fired hts hf
      exact .settled fun _ => rfl

/-- Every reachable state of an order has one of the shapes. -/
lemma Occurs.coherent (h : Occurs none k slot) : Coherent slot := by
  obtain ⟨trun, htrun, rfl⟩ := h
  exact htrun.invariant (fun _ _ _ _ hc hs => hc.step hs) .nothing

end Step

/-! ## On the classes of the job -/

/-- The field `registeredTimerTime` of what the job keeps under `k`; `none` when it keeps
nothing. -/
def Job.registeredTimerTime (j : Job) (k : String) : Option Long :=
  (j k).kept.bind (·.registeredTimerTime)

/-- The timers registered for `k`, the field that remembers them and the order kept agree. -/
structure Job.Coherent (j : Job) (k : String) : Prop where
  timers : (j k).timers = (j.registeredTimerTime k).toFinset
  isSome_iff : (j.registeredTimerTime k).isSome = true ↔ ∃ current, (j k).kept = some current ∧
    current.isTerminal = false ∧ current.delaySmsEmitted = false
  at_eta : ∀ current time, (j k).kept = some current →
    current.registeredTimerTime = some time → expectedDeliveryTimeMs current = .ok time

lemma Job.coherent_of_eq {j : Job} {k : String} {slot : Slot Tracked}
    (h : j k = slot.map Tracked.toDelayState) (hc : DelayedOrderSms.Coherent slot) :
    j.Coherent k := by
  have hreg : j.registeredTimerTime k = timerOf slot.kept := by
    rw [Job.registeredTimerTime, h, Slot.map_kept]
    cases slot.kept with
    | none => rfl
    | some t => rfl
  refine ⟨?_, ?_, ?_⟩
  · rw [hreg, h, Slot.map_timers]
    cases hc with
    | nothing => rfl
    | settled => rfl
    | waiting => rfl
  · rw [hreg, h, Slot.map_kept]
    cases hc with
    | nothing => simp [Slot.empty, Slot.kept]
    | @settled s b w hb =>
        simp only [kept_wrote, timerOf_some, Option.isSome_none, Bool.false_eq_true, false_iff]
        rintro ⟨current, hcur, hterm, hunset⟩
        obtain rfl := Option.some.inj hcur
        exact absurd (hb hterm) (by simpa using hunset)
    | @waiting s w time ha heta =>
        exact ⟨fun _ => ⟨_, rfl, ha, rfl⟩, fun _ => rfl⟩
  · intro current time hcur htime
    rw [h, Slot.map_kept] at hcur
    obtain ⟨t, ht, rfl⟩ := Option.map_eq_some_iff.mp hcur
    cases hc with
    | nothing => exact absurd ht (by simp [Slot.empty, Slot.kept])
    | settled =>
        obtain rfl := Option.some.inj ht
        exact absurd htime (by simp)
    | waiting ha heta =>
        obtain rfl := Option.some.inj ht
        obtain rfl := Option.some.inj htime
        exact Instant.toEpochMilli_eq_ok_iff.mpr heta

/-- **Timers and state agree.**  In every state a run reaches and for every order, the registered
timers are exactly the one `registeredTimerTime` remembers; it remembers one exactly while the
order is active and not notified; and that one is at the expected delivery time. -/
theorem timers_coherent {backend : Backend}
    {run : List (Entry Job (String × KeyEvent OrderState) Effect)}
    (h : IsRun (JobStep ⟨backend, none⟩) Job.initial run) (k : String) :
    (final Job.initial run).Coherent k := by
  obtain ⟨trun, htrun, _, hend⟩ := tracked_run h k
  exact Job.coherent_of_eq hend (Occurs.coherent ⟨trun, htrun, rfl⟩)

/-- While order 1 is waiting its timer and its state agree. -/
theorem timers_coherent_waiting :
    (final Job.initial (atKey "order-1" Job.initial [accepted1])).Coherent "order-1" := by
  have hrun : IsRun (JobStep ⟨.rocksDB, none⟩) Job.initial (atKey "order-1" Job.initial [accepted1]) :=
    isRun_atKey "order-1" [accepted1] Job.initial ⟨.element rfl rfl, trivial⟩
  exact timers_coherent hrun "order-1"

end DelayedOrderSms
