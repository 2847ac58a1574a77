import DelayedOrderSms.Processor.Backends
import DelayedOrderSms.Processor.History

/-!
# When a command is stamped, and the deadline it reports

Both paths compare the expected delivery time with the clock after `toEpochMilli` has rounded it
down, and a command carries the time of the clock next to the unrounded expected delivery time.
So a command may be stamped up to a millisecond before the deadline it reports.

* `OnTime` — the command is not stamped before its deadline.
* `Strikes` — the event notifies an order in the very millisecond of an expected delivery time
  that has digits below the millisecond.
* `onTime_iff` — those are the events to blame, and the only ones.
-/

namespace DelayedOrderSms

open Java Flink Systems

/-- The command is not stamped before the expected delivery time it carries. -/
def OnTime (c : SmsCommand) : Prop := ∀ eta ∈ c.expectedDeliveryTime, eta ≤ c.createdAt

/-- The clock shows the millisecond of the expected delivery time, which is not over yet. -/
def InMillisecondOf (now : Long) (eta : Option Instant) : Prop :=
  ∃ i ∈ eta, i.epochMilli = now.val ∧ i.HasSubMillis

/-- **An event that notifies too early**: a message that is accepted, active and the first to be
due, or a timer that finds an active order which has not been notified — in the millisecond of an
expected delivery time with digits below the millisecond. -/
def Strikes (ttl : Option ℕ) (slot : Slot OrderDelayState) : Fault (KeyEvent OrderState) → Prop
  | .event (.element now _ o) =>
      accepts ttl now slot o = true ∧ (∃ status ∈ o.status, status.isTerminal = false) ∧
        (∀ current ∈ slot.value ttl now, current.delaySmsEmitted = false) ∧
        InMillisecondOf now o.expectedDeliveryTime
  | .event (.timer now _ ts) =>
      ts = now ∧ ∃ current ∈ slot.value ttl now, current.isTerminal = false ∧
        current.delaySmsEmitted = false ∧ InMillisecondOf now current.expectedDeliveryTime
  | .expire => False

/-- A command for a snapshot whose millisecond has come. -/
lemma onTime_delayCommand {s : Snapshot} {now : Long} (h : s.etaMs ≤ now.val) :
    OnTime (s.delayCommand now) ↔ ¬ InMillisecondOf now (some s.expectedDeliveryTime) := by
  have hlt := Instant.ofEpochMilli_lt_iff h
  constructor
  · rintro hle ⟨i, hi, hin⟩
    obtain rfl := Option.some.inj hi
    exact absurd (hle _ rfl) (not_le.mpr (hlt.mpr hin))
  · intro hout i hi
    obtain rfl := Option.some.inj hi
    exact not_lt.mp fun h' => hout ⟨_, rfl, hlt.mp h'⟩

section Step

variable {ttl : Option ℕ} {k : String} {slot slot' : Slot Tracked} {e : KeyEvent OrderState}
  {fx : List Effect}

/-- Strikes of a snapshot, on what is kept. -/
lemma strikes_element {now : Long} {wall : Instant} {s : Snapshot} :
    Strikes ttl (slot.map Tracked.toDelayState) (.event (.element now wall s.toOrderState)) ↔
      Fresh s (slot.value ttl now) ∧ s.Active ∧ notified (slot.value ttl now) = false ∧
        InMillisecondOf now (some s.expectedDeliveryTime) := by
  have hstatus : (∃ status ∈ s.toOrderState.status, status.isTerminal = false) ↔ s.Active := by
    simp [Snapshot.toOrderState, Snapshot.Active]
  have hflag : (∀ current ∈ (slot.map Tracked.toDelayState).value ttl now,
      current.delaySmsEmitted = false) ↔ notified (slot.value ttl now) = false := by
    rw [Slot.value_map]
    cases slot.value ttl now with
    | none => simp
    | some t => simp
  simp only [Strikes, accepts_toOrderState, decide_eq_true_iff, hstatus, hflag]
  exact Iff.rfl

/-- Strikes of a timer, on what is kept. -/
lemma strikes_timer {now ts : Long} {wall : Instant} :
    Strikes ttl (slot.map Tracked.toDelayState) (.event (.timer now wall ts)) ↔
      ts = now ∧ ∃ t ∈ slot.value ttl now, t.snapshot.Active ∧ t.delaySmsEmitted = false ∧
        InMillisecondOf now (some t.snapshot.expectedDeliveryTime) := by
  rw [Strikes, Slot.value_map]
  cases slot.value ttl now with
  | none => simp
  | some t => simp [Snapshot.Active]

/-- What `processElement` does with a snapshot is on time unless it strikes. -/
lemma Delivered.meetsDeadline_iff {now : Long} {wall : Instant} {s : Snapshot}
    (hd : Delivered ttl now s slot fx slot') : (∀ c ∈ commands fx, OnTime c) ↔
      ¬ Strikes ttl (slot.map Tracked.toDelayState) (.event (.element now wall s.toOrderState)) := by
  rw [strikes_element]
  cases hd with
  | stale hv hlt =>
      refine ⟨fun _ hstrikes => hstrikes.1 _ hv hlt, fun _ c hc => ?_⟩
      simp [commands, Effect.command?] at hc
  | terminal _ ha => simp [ha]
  | silent _ _ hn => simp [hn]
  | due hf ha hn _ hle => simp [hf, ha, hn, onTime_delayCommand hle]
  | @pending time _ _ _ htime hlt =>
      have hout : ¬ InMillisecondOf now (some s.expectedDeliveryTime) := by
        rintro ⟨i, hi, hin, _⟩
        obtain rfl := Option.some.inj hi
        have hlt' : now.val < time.val := hlt
        have heta : s.expectedDeliveryTime.epochMilli = time.val := htime
        omega
      simp [hout]

/-- What `onTimer` does is on time unless it strikes. -/
lemma Fired.meetsDeadline_iff {now ts : Long} {wall : Instant} (hdue : ts ≤ now)
    (hf : Fired ttl now ts (slot.pop ts) fx slot') : (∀ c ∈ commands fx, OnTime c) ↔
      ¬ Strikes ttl (slot.map Tracked.toDelayState) (.event (.timer now wall ts)) := by
  rw [strikes_timer]
  cases hf with
  | idle hguard =>
      refine ⟨fun _ => ?_, fun _ c hc => absurd hc (by simp)⟩
      rintro ⟨rfl, t, ht, ha, he, i, hi, hin, _⟩
      obtain rfl := Option.some.inj hi
      have hlt := (hguard t ht ha he).2
      exact absurd hin (ne_of_gt hlt)
  | @notify t hv ha he _ hle =>
      rw [Slot.value_pop] at hv
      have hle' : t.snapshot.etaMs ≤ now.val := le_trans hle hdue
      simp only [commands_notification, List.mem_singleton, forall_eq, onTime_delayCommand hle', hv]
      refine not_congr ⟨fun hin => ?_, ?_⟩
      · refine ⟨?_, t, rfl, ha, he, hin⟩
        obtain ⟨i, hi, hms, _⟩ := hin
        obtain rfl := Option.some.inj hi
        exact Subtype.ext (le_antisymm hdue (hms ▸ hle))
      · rintro ⟨_, u, hu, _, _, hin⟩
        obtain rfl := Option.some.inj hu
        exact hin

/-- **The commands of a step are on time unless it strikes.** -/
theorem onTime_step {l : Fault (KeyEvent OrderState)}
    (hs : ExpiringStep (TrackedStep ttl k) slot l fx slot') :
    (∀ c ∈ commands fx, OnTime c) ↔ ¬ Strikes ttl (slot.map Tracked.toDelayState) l := by
  cases hs with
  | expire => simp [Strikes]
  | event hs =>
      cases hs with
      | invalid _ hinvalid => simp [Strikes, accepts_of_invalid hinvalid, commands, Effect.command?]
      | delivered _ hd => exact hd.meetsDeadline_iff
      | fired _ hdue hf => exact hf.meetsDeadline_iff hdue

end Step

/-! ## Runs -/

lemma expiringJobStep_embeds (config : StateConfig) :
    Embeds (mapKeys (Slot.map Tracked.toDelayState))
      (KeyedStep fun k => ExpiringStep (TrackedStep config.ttl k)) (ExpiringJobStep config) :=
  KeyedStep.embeds fun k => ExpiringStep.embeds (keyStep_embeds config k)

lemma mem_commands {fx : List Effect} {c : SmsCommand} :
    c ∈ commands fx ↔ ∃ x ∈ fx, x.command? = some c := List.mem_filterMap

/-- **When commands are stamped before their deadline.**  In every run, values of any orders
having expired at any moments: no command is stamped before the expected delivery time it carries
exactly if no event notifies an order in the very millisecond of an expected delivery time that
has digits below the millisecond. -/
theorem onTime_iff {config : StateConfig}
    {run : List (Entry Job (String × Fault (KeyEvent OrderState)) Effect)}
    (h : IsRun (ExpiringJobStep config) Job.initial run) :
    (∀ c ∈ commands (outputs run), OnTime c) ↔
      ∀ p ∈ transitions Job.initial run,
        ¬ Strikes config.ttl (p.1 p.2.label.1) p.2.label.2 := by
  have hgood : ∀ fx : List Effect, (∀ c ∈ commands fx, OnTime c) ↔
      ∀ x ∈ fx, ∀ c, x.command? = some c → OnTime c := by
    intro fx
    simp only [mem_commands]
    exact ⟨fun hall x hx c hc => hall c ⟨x, hx, hc⟩, fun hall c ⟨x, hx, hc⟩ => hall x hx c hc⟩
  rw [hgood]
  refine @IsRun.forall_outputs_iff _ _ _ (ExpiringJobStep config) Job.Readable _
    (fun j l => ¬ Strikes config.ttl (j l.1) l.2) ?_ ?_ run _ readable_initial h
  · rintro _ l fx j' ⟨slots, rfl⟩ hs
    obtain ⟨slots', _, rfl⟩ := (expiringJobStep_embeds config slots l fx j').mp hs
    exact ⟨slots', rfl⟩
  · rintro _ l fx j' ⟨slots, rfl⟩ hs
    obtain ⟨slots', hts, rfl⟩ := (expiringJobStep_embeds config slots l fx j').mp hs
    rw [← hgood]
    exact onTime_step hts.at_same

/-- The late timer's command is on time, since no event strikes. -/
theorem onTime_lateTimer :
    order1.delayCommand (.of 601000) ∈ commands (outputs (lateTimer.map asEvent)) ∧
      OnTime (order1.delayCommand (.of 601000)) := by
  have hquiet : ∀ p ∈ transitions Job.initial (lateTimer.map asEvent),
      ¬ Strikes none (p.1 p.2.label.1) p.2.label.2 := by
    intro p hp
    simp only [lateTimer, atKey, List.map_cons, List.map_nil, transitions_cons, transitions_nil,
      List.mem_cons, List.not_mem_nil, or_false] at hp
    rcases hp with rfl | rfl
    · rintro ⟨_, _, _, i, hi, hmillisecond, _⟩
      obtain rfl := Option.some.inj hi
      exact absurd hmillisecond (by decide)
    · rintro ⟨hts, _⟩
      exact absurd hts (by decide)
  have hcommand : order1.delayCommand (.of 601000) ∈ commands (outputs (lateTimer.map asEvent)) :=
    List.mem_singleton_self _
  exact ⟨hcommand, (onTime_iff (isRun_asEvent lateTimer _ isRun_lateTimer)).mpr hquiet _ hcommand⟩

/-! A command ahead of its deadline: the expected delivery time carries microseconds, as the
simulator writes them, and the timer fires on time. -/

/-- Order 1, expected half a millisecond later. -/
def microOrder : Snapshot :=
  .createOrder "order-1" .ACCEPTED ⟨600, 500000, by decide, by decide, by decide⟩
    (.ofEpochMilli (.of 0))

/-- It waits for the start of the millisecond, and is notified then. -/
def earlyCommand : List (Entry Job (String × Fault (KeyEvent OrderState)) Effect) :=
  atKey "order-1" Job.initial
    [⟨.event (.element (.of 0) (.ofEpochMilli (.of 0)) microOrder.toOrderState), [],
      (wrote ⟨microOrder, false, some (.of 600000)⟩ (.of 0) {.of 600000}).map
        Tracked.toDelayState⟩,
     ⟨.event (.timer (.of 600000) (.ofEpochMilli (.of 600000)) (.of 600000)),
      microOrder.notification (.of 600000),
      (wrote ⟨microOrder, true, none⟩ (.of 600000) ∅).map Tracked.toDelayState⟩]

/-- The command is stamped before its deadline. -/
theorem onTime_earlyCommand :
    IsRun (ExpiringJobStep ⟨.rocksDB, none⟩) Job.initial earlyCommand ∧
      microOrder.delayCommand (.of 600000) ∈ commands (outputs earlyCommand) ∧
      ¬ OnTime (microOrder.delayCommand (.of 600000)) := by
  refine ⟨isRun_atKey "order-1" _ Job.initial
    ⟨.event (.element rfl rfl), .event (.timer (by decide) (by decide) rfl), trivial⟩,
    List.mem_singleton_self _, ?_⟩
  intro htime
  exact absurd (htime _ rfl) (by decide)

end DelayedOrderSms
