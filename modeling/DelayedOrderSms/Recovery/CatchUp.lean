import DelayedOrderSms.Processor.Steps
import DelayedOrderSms.Systems.Newest

/-!
# Catching up after an outage

After a restore the job consumes the backlog of an order one snapshot at a time, at a clock that
is past the outage, while timers that have become due fire in between.  Whether a command is
emitted is decided at every single step, on what has been consumed up to there; that a later
entry of the backlog finishes the order makes no difference.

* `Known`, `learn` — what a prefix of the backlog tells about the order: its newest snapshot and
  whether it had been notified, unless they have expired.
* `Quiet`, `CaughtUp` — the events that do not find an active order overdue.
* `catchUp_iff` — those are exactly the backlogs without a command.
-/

namespace DelayedOrderSms

open Java Flink Systems

/-- What is known of an order: its newest snapshot and whether it has been notified, with the
time this was last written. -/
abbrev Known : Type := Option (TtlValue (Snapshot × Bool))

/-- What is known and has not expired. -/
def Known.read (ttl : Option ℕ) (now : Long) : Known → Option (Snapshot × Bool)
  | none => none
  | some c => if c.expired ttl now then none else some c.userValue

/-- What a slot knows of its order. -/
def known (slot : Slot Tracked) : Known :=
  slot.cell.map fun c => ⟨(c.userValue.snapshot, c.userValue.delaySmsEmitted), c.lastAccessTimestamp⟩

/-- What is known after an event. -/
def learn (ttl : Option ℕ) (known : Known) : KeyEvent OrderState → Known
  | .element now _ o =>
      match Snapshot.of? o with
      | none => known
      | some s =>
          match known.read ttl now with
          | none => some ⟨(s, false), now⟩
          | some (u, notified) =>
              if s.lastUpdatedAt < u.lastUpdatedAt then known else some ⟨(s, notified), now⟩
  | .timer _ _ _ => known

/-- The event does not find the order active, un-notified and overdue: a snapshot that becomes
the newest one is not overdue when it is consumed, and a timer does not reach the expected
delivery time of the newest one. -/
def Quiet (ttl : Option ℕ) (known : Known) : KeyEvent OrderState → Prop
  | .element now _ o => ∀ s, Snapshot.of? o = some s →
      (∀ p ∈ known.read ttl now, ¬ s.lastUpdatedAt < p.1.lastUpdatedAt ∧ p.2 = false) →
        s.Active → now.val < s.etaMs
  | .timer now _ ts => ∀ p ∈ known.read ttl now, p.2 = false → p.1.Active → ts.val < p.1.etaMs

/-- **No event finds the order active, un-notified and overdue.** -/
def CaughtUp (ttl : Option ℕ) : Known → List (KeyEvent OrderState) → Prop
  | _, [] => True
  | known, e :: events => Quiet ttl known e ∧ CaughtUp ttl (learn ttl known e) events

lemma read_known (ttl : Option ℕ) (now : Long) (slot : Slot Tracked) :
    (known slot).read ttl now =
      (slot.value ttl now).map fun t => (t.snapshot, t.delaySmsEmitted) := by
  rcases slot with ⟨_ | c, T⟩
  · rfl
  · have hexp : (⟨(c.userValue.snapshot, c.userValue.delaySmsEmitted), c.lastAccessTimestamp⟩ :
        TtlValue (Snapshot × Bool)).expired ttl now = c.expired ttl now := by
      cases ttl <;> rfl
    simp only [known, Option.map_some, Known.read, Slot.value, hexp]
    split_ifs <;> rfl

section Step

variable {ttl : Option ℕ} {k : String} {slot slot' : Slot Tracked} {e : KeyEvent OrderState}
  {fx : List Effect}

/-- A snapshot that is not stale is learnt, next to what was known of the notification. -/
lemma learn_of_fresh {now : Long} {wall : Instant} {s : Snapshot}
    (hf : Fresh s (slot.value ttl now)) :
    learn ttl (known slot) (.element now wall s.toOrderState) =
      some ⟨(s, notified (slot.value ttl now)), now⟩ := by
  simp only [learn, Snapshot.of?_toOrderState, read_known]
  cases hv : slot.value ttl now with
  | none => rfl
  | some t =>
      rw [hv] at hf
      simp [fresh_some.mp hf]

lemma quiet_element {now : Long} {wall : Instant} {s : Snapshot} :
    Quiet ttl (known slot) (.element now wall s.toOrderState) ↔
      (Fresh s (slot.value ttl now) → notified (slot.value ttl now) = false → s.Active →
        now.val < s.etaMs) := by
  simp only [Quiet, Snapshot.of?_toOrderState, Option.some.injEq, forall_eq', read_known]
  cases slot.value ttl now with
  | none => simp [fresh_none]
  | some t => simp [fresh_some]

/-- **One step of catching up**: it is without commands exactly if the event is quiet, and then
what the slot knows is what the event tells. -/
theorem TrackedStep.quiet_iff (hs : TrackedStep ttl k slot e fx slot') :
    (commands fx = [] ↔ Quiet ttl (known slot) e) ∧
      (commands fx = [] → known slot' = learn ttl (known slot) e) := by
  cases hs with
  | @invalid _ _ o _ hinvalid =>
      have hnone := Snapshot.of?_of_invalid hinvalid
      refine ⟨⟨fun _ s hs => ?_, fun _ => rfl⟩, fun _ => by simp [learn, hnone]⟩
      exact absurd (hnone.symm.trans hs) (by simp)
  | @delivered _ now wall s _ _ hd =>
      rw [quiet_element]
      cases hd with
      | stale hv hlt =>
          refine ⟨⟨fun _ hf => absurd hlt (hf _ hv), fun _ => rfl⟩, fun _ => ?_⟩
          simp [learn, read_known, hv, hlt]
      | terminal hf hdone =>
          refine ⟨⟨fun _ _ _ ha => absurd ha hdone, fun _ => rfl⟩, fun _ => ?_⟩
          rw [learn_of_fresh hf]
          rfl
      | silent hf ha hn =>
          refine ⟨⟨fun _ _ hun => absurd (hn.symm.trans hun) (by decide), fun _ => rfl⟩, fun _ => ?_⟩
          rw [learn_of_fresh hf, hn]
          rfl
      | due hf ha hun _ hle =>
          refine ⟨⟨fun h => absurd h (by simp), fun h => ?_⟩, fun h => absurd h (by simp)⟩
          exact absurd (h hf hun ha) (not_lt.mpr hle)
      | @pending time hf ha hun htime hlt =>
          have hlt' : now.val < s.etaMs := htime ▸ hlt
          refine ⟨⟨fun _ _ _ _ => hlt', fun _ => rfl⟩, fun _ => ?_⟩
          rw [learn_of_fresh hf, hun]
          rfl
  | @fired _ now wall ts _ _ _ hf =>
      cases hf with
      | idle hguard =>
          refine ⟨⟨fun _ p hp hun ha => ?_, fun _ => rfl⟩, fun _ => rfl⟩
          rw [read_known] at hp
          obtain ⟨t, ht, rfl⟩ := Option.map_eq_some_iff.mp hp
          exact (hguard t ht ha hun).2
      | @notify t hv ha hun _ hle =>
          refine ⟨⟨fun h => absurd h (by simp), fun h => ?_⟩, fun h => absurd h (by simp)⟩
          have hread : (known slot).read ttl now = some (t.snapshot, t.delaySmsEmitted) := by
            rw [read_known, ← Slot.value_pop ttl now slot ts, hv]
            rfl
          exact absurd (h _ hread hun ha) (not_lt.mpr hle)

end Step

/-- A whole backlog. -/
theorem caughtUp_iff {ttl : Option ℕ} {k : String} :
    ∀ {run : List (Entry (Slot Tracked) (KeyEvent OrderState) Effect)} {slot : Slot Tracked},
      IsRun (TrackedStep ttl k) slot run →
        (commands (outputs run) = [] ↔ CaughtUp ttl (known slot) (run.map Entry.label))
  | [], _, _ => by simp [CaughtUp]
  | e :: run, slot, h => by
      obtain ⟨hquiet, hknown⟩ := h.1.quiet_iff
      have ih := caughtUp_iff h.2
      rw [outputs_cons, commands_append, List.append_eq_nil_iff, List.map_cons, CaughtUp, ih]
      constructor
      · rintro ⟨hhead, htail⟩
        exact ⟨hquiet.mp hhead, hknown hhead ▸ htail⟩
      · rintro ⟨hhead, htail⟩
        have hnil := hquiet.mpr hhead
        exact ⟨hnil, (hknown hnil).symm ▸ htail⟩

/-! ## The backlog of an order -/

/-- The snapshots among the events, in the order of the log. -/
def backlog (events : List (KeyEvent OrderState)) : List Snapshot :=
  events.filterMap fun e => e.incoming?.bind Snapshot.of?

/-- The newest of the restored snapshot and the backlog finishes the order. -/
def EndsFinished (restored : Slot Tracked) (events : List (KeyEvent OrderState)) : Prop :=
  ∃ s, newest Snapshot.lastUpdatedAt (restored.kept.map (·.snapshot)) (backlog events) = some s ∧
    ¬ s.Active

/-- **Which backlogs are consumed without a command.**  From any restored state and timers of an
order, under any interleaving of its backlog with timers firing: that an order which ends finished
gets no command while the backlog is consumed means exactly that no event on the way finds it
active, un-notified and overdue. -/
theorem catchUp_iff {config : StateConfig} {k : String} {restored : Slot Tracked}
    {run : List (Entry (Slot OrderDelayState) (KeyEvent OrderState) Effect)}
    (h : IsRun (KeyStep delayedOrderOperator config k) (restored.map Tracked.toDelayState) run) :
    (EndsFinished restored (run.map Entry.label) → commands (outputs run) = []) ↔
      (EndsFinished restored (run.map Entry.label) →
        CaughtUp config.ttl (known restored) (run.map Entry.label)) := by
  obtain ⟨trun, htrun, rfl, hout, _⟩ := (keyStep_embeds config k).pullback h
  rw [hout, labels_map, caughtUp_iff htrun]

/-- Order 1, waiting when the job went down. -/
def restored1 : Slot Tracked :=
  wrote ⟨order1, false, some (.of 600000)⟩ (.of 0) {.of 600000}

/-- Order 1 delivered during the outage. -/
def arrived1 : Snapshot :=
  .createOrder "order-1" .DELIVERED (.ofEpochMilli (.of 600000)) (.ofEpochMilli (.of 500000))

/-- After the outage the overdue timer fires before the backlog is consumed. -/
def timerFirst : List (Entry (Slot OrderDelayState) (KeyEvent OrderState) Effect) :=
  [⟨.timer (.of 700000) (.ofEpochMilli (.of 0)) (.of 600000), order1.notification (.of 700000),
    (wrote ⟨order1, true, none⟩ (.of 700000) ∅).map Tracked.toDelayState⟩,
   ⟨.element (.of 700001) (.ofEpochMilli (.of 0)) arrived1.toOrderState, [],
    (wrote ⟨arrived1, true, none⟩ (.of 700001) ∅).map Tracked.toDelayState⟩]

/-- A delivered order is notified while its backlog is consumed. -/
theorem catchUp_timer_first :
    IsRun (KeyStep delayedOrderOperator (stateConfig 7) "order-1")
        (restored1.map Tracked.toDelayState) timerFirst ∧
      EndsFinished restored1 (timerFirst.map Entry.label) ∧
      commands (outputs timerFirst) = [order1.delayCommand (.of 700000)] :=
  ⟨⟨.timer (by decide) (by decide) rfl, .element rfl rfl, trivial⟩,
    ⟨arrived1, rfl, by decide⟩, rfl⟩

/-- After the outage the backlog is consumed before the overdue timer can fire. -/
def backlogFirst : List (Entry (Slot OrderDelayState) (KeyEvent OrderState) Effect) :=
  [⟨.element (.of 700000) (.ofEpochMilli (.of 0)) arrived1.toOrderState, [],
    (wrote ⟨arrived1, false, none⟩ (.of 700000) ∅).map Tracked.toDelayState⟩]

/-- The delivered order is not notified. -/
theorem catchUp_backlog_first : commands (outputs backlogFirst) = [] := by
  have hrun : IsRun (KeyStep delayedOrderOperator (stateConfig 7) "order-1")
      (restored1.map Tracked.toDelayState) backlogFirst := ⟨.element rfl rfl, trivial⟩
  refine (catchUp_iff hrun).mpr (fun _ => ⟨?_, trivial⟩) ⟨arrived1, rfl, by decide⟩
  intro s hs _ ha
  obtain rfl := Option.some.inj ((Snapshot.of?_toOrderState arrived1).symm.trans hs)
  exact absurd ha (by decide)

end DelayedOrderSms
