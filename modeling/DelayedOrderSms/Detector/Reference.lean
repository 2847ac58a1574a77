import DelayedOrderSms.Detector.Firing
import DelayedOrderSms.Systems.Newest
import DelayedOrderSms.Systems.Simulation

/-!
# The reference detector

What the job is for, without timers: keep the newest snapshot of an order and notify the delay
once, as soon as the clock has reached the expected delivery time of a snapshot that is active.
`Detector` states this as a function that looks at the newest snapshot and the clock after every
step.  The operator implements it under the test harness, because its timer is always the one the
newest snapshot calls for (`Tracks`).

* `tracks_deliver`, `tracks_advance` — the two simulation steps.
* `detection_refines_reference` — every run of the harness emits exactly the commands of the
  detector.
-/

namespace DelayedOrderSms

open Java Flink Systems

/-- The reference detector: the clock, the newest snapshot and whether it has notified. -/
structure Detector where
  clock : Long
  newest : Option Snapshot
  notified : Bool

namespace Detector

/-- A detector that has seen nothing. -/
def initial (clock : Long) : Detector := ⟨clock, none, false⟩

/-- The newest snapshot is active and due, and has not been notified. -/
def due (d : Detector) (s : Snapshot) : Prop :=
  s.Active ∧ s.etaMs ≤ d.clock.val ∧ d.notified = false

instance (d : Detector) (s : Snapshot) : Decidable (d.due s) :=
  inferInstanceAs (Decidable (_ ∧ _))

/-- Notify if there is a reason to. -/
def check (d : Detector) : Detector × List SmsCommand :=
  match d.newest with
  | none => (d, [])
  | some s =>
      if d.due s then ({ d with notified := true }, [s.delayCommand d.clock]) else (d, [])

/-- One step: take in a snapshot or move the clock, then check. -/
def next (d : Detector) : Move Snapshot → Detector × List SmsCommand
  | .deliver s => check { d with newest := some (newer Snapshot.lastUpdatedAt d.newest s) }
  | .advance time => check { d with clock := time }

lemma check_due {d : Detector} {s : Snapshot} (hs : d.newest = some s) (hdue : d.due s) :
    d.check = ({ d with notified := true }, [s.delayCommand d.clock]) := by
  simp only [check, hs, if_pos hdue]

lemma check_quiet {d : Detector} (h : ∀ s, d.newest = some s → ¬ d.due s) : d.check = (d, []) := by
  rw [check]
  cases hs : d.newest with
  | none => rfl
  | some s => exact if_neg (h s hs)

end Detector

/-! ## The correspondence -/

/-- What is kept of an order, at a clock, is what the detector knows of it; the order has one of
its three shapes, and its timer lies ahead. -/
structure Tracks (clock : Long) (slot : Slot Tracked) (d : Detector) : Prop where
  clock_eq : d.clock = clock
  newest_eq : d.newest = slot.kept.map (·.snapshot)
  notified_eq : d.notified = notified slot.kept
  coherent : Coherent slot
  ahead : ∀ ts ∈ slot.timers, clock < ts

section Tracks

variable {k : String} {clock : Long} {slot slot' : Slot Tracked} {d : Detector}
  {fx : List Effect}

/-- A detector that tracks a slot has nothing to say. -/
lemma Tracks.check_eq (h : Tracks clock slot d) : d.check = (d, []) := by
  refine Detector.check_quiet ?_
  rintro s hs ⟨hact, hdue, hun⟩
  rw [h.newest_eq] at hs
  rw [h.notified_eq] at hun
  rw [h.clock_eq] at hdue
  exact not_due_of_ahead h.coherent h.ahead hs hact hun hdue

/-- A detector and a slot that both hold the new snapshot `s` without having notified. -/
lemma tracks_wrote {s : Snapshot} {b : Bool} {m : Option Long} {w : Long} {T : Finset Long}
    (hc : Coherent (wrote ⟨s, b, m⟩ w T)) (hahead : ∀ ts ∈ T, clock < ts) :
    Tracks clock (wrote ⟨s, b, m⟩ w T) ⟨clock, some s, b⟩ :=
  ⟨rfl, rfl, rfl, hc, hahead⟩

/-- **Taking in a snapshot.** -/
theorem tracks_deliver (h : Tracks clock slot d) {s : Snapshot}
    (hd : Delivered none clock s slot fx slot') :
    Tracks clock slot' (d.next (.deliver s)).1 ∧ commands fx = (d.next (.deliver s)).2 := by
  have hcoh := h.coherent.delivered hd
  have hknown : d = ⟨clock, slot.kept.map (·.snapshot), notified slot.kept⟩ := by
    rw [← h.clock_eq, ← h.newest_eq, ← h.notified_eq]
  have hkeep : Fresh s slot.kept →
      newer Snapshot.lastUpdatedAt (slot.kept.map (·.snapshot)) s = s := by
    intro hf
    refine newer_of_le _ fun u hu => ?_
    obtain ⟨t, ht, rfl⟩ := Option.map_eq_some_iff.mp hu
    exact hf t ht
  rw [Detector.next]
  cases hd with
  | @stale t hv hlt =>
      rw [Slot.value_none] at hv
      have hold : ({ d with newest := some (newer Snapshot.lastUpdatedAt d.newest s) } : Detector)
          = d := by
        rw [hknown, hv, Option.map_some, newer_of_lt _ hlt]
      rw [hold, h.check_eq]
      exact ⟨h, rfl⟩
  | terminal hf hdone =>
      rw [Slot.value_none] at hf hcoh ⊢
      rw [h.coherent.dropTimer] at hcoh ⊢
      have htrack : Tracks clock _ _ := tracks_wrote hcoh fun ts hts => absurd hts (by simp)
      rw [hknown, hkeep hf, htrack.check_eq]
      exact ⟨htrack, rfl⟩
  | silent hf _ hn =>
      rw [Slot.value_none] at hf hn hcoh ⊢
      have htrack : Tracks clock _ _ := tracks_wrote hcoh h.ahead
      rw [hknown, hkeep hf, hn, htrack.check_eq]
      exact ⟨htrack, rfl⟩
  | due hf hact hun _ hle =>
      rw [Slot.value_none] at hf hun hcoh ⊢
      rw [h.coherent.dropTimer] at hcoh ⊢
      rw [hknown, hkeep hf, Detector.check_due rfl ⟨hact, hle, hun⟩]
      exact ⟨tracks_wrote hcoh fun ts hts => absurd hts (by simp), rfl⟩
  | @pending time hf hact hun heta hlt =>
      rw [Slot.value_none] at hf hun hcoh ⊢
      rw [h.coherent.moveTimer] at hcoh ⊢
      have htrack : Tracks clock _ _ := tracks_wrote hcoh fun ts hts => by
        rw [Finset.mem_singleton.mp hts]
        exact hlt
      rw [hknown, hkeep hf, hun, htrack.check_eq]
      exact ⟨htrack, rfl⟩

/-- **Moving the clock.** -/
theorem tracks_advance (h : Tracks clock slot d) {time : Long}
    (hd : Drains (TrackedStep none k) time time slot fx slot') :
    Tracks time slot' (d.next (.advance time)).1 ∧ commands fx = (d.next (.advance time)).2 := by
  have hknown : ({ d with clock := time } : Detector) =
      ⟨time, slot.kept.map (·.snapshot), notified slot.kept⟩ := by
    rw [← h.newest_eq, ← h.notified_eq]
  rw [Detector.next, hknown]
  rcases drains_of_coherent h.coherent hd with
    ⟨hahead, rfl, rfl⟩ | ⟨s, w, ts, hact, heta, hdue, rfl, rfl, rfl⟩
  · have htrack : Tracks time slot' ⟨time, slot'.kept.map (·.snapshot), notified slot'.kept⟩ :=
      ⟨rfl, rfl, rfl, h.coherent, hahead⟩
    rw [htrack.check_eq]
    exact ⟨htrack, rfl⟩
  · have hle : s.etaMs ≤ time.val := heta ▸ hdue
    rw [Detector.check_due rfl ⟨hact, hle, rfl⟩]
    exact ⟨tracks_wrote (.settled fun _ => rfl) fun ts hts => absurd hts (by simp), rfl⟩

end Tracks

/-! ## The operator under the harness -/

/-- The operator under the harness, on valid snapshots of one order. -/
def SnapshotStep (config : StateConfig) (k : String) (h : Harness OrderDelayState)
    (m : Move Snapshot) (fx : List Effect) (h' : Harness OrderDelayState) : Prop :=
  HarnessStep (KeyStep delayedOrderOperator config k) h (m.map Snapshot.toOrderState) fx h'

/-- The moves a test of one order makes: it delivers snapshots of that order, whose expected
delivery times fit in 64-bit epoch milliseconds, and never moves the clock back. -/
def Schedule (k : String) : Long → List (Move Snapshot) → Prop
  | _, [] => True
  | clock, .deliver s :: moves => s.orderId = k ∧ s.Fits ∧ Schedule k clock moves
  | clock, .advance time :: moves => clock ≤ time ∧ Schedule k time moves

/-- What the detector allows at each move. -/
def Allowed (k : String) (d : Detector) : Move Snapshot → Prop
  | .deliver s => s.orderId = k ∧ s.Fits
  | .advance time => d.clock ≤ time

lemma Detector.check_clock (d : Detector) : d.check.1.clock = d.clock := by
  rw [Detector.check]
  cases d.newest with
  | none => rfl
  | some s =>
      dsimp only
      split_ifs <;> rfl

lemma admits_of_schedule {k : String} : ∀ {moves : List (Move Snapshot)} {d : Detector},
    Schedule k d.clock moves → Admits Detector.next (Allowed k) d moves
  | [], _, _ => trivial
  | .deliver s :: moves, d, ⟨hid, hfits, hrest⟩ => by
      have hclock : (d.next (.deliver s)).1.clock = d.clock := Detector.check_clock _
      exact ⟨⟨hid, hfits⟩, admits_of_schedule (by rw [hclock]; exact hrest)⟩
  | .advance time :: moves, d, ⟨hle, hrest⟩ => by
      have hclock : (d.next (.advance time)).1.clock = time := Detector.check_clock _
      exact ⟨hle, admits_of_schedule (by rw [hclock]; exact hrest)⟩

/-- **The operator implements the detector.** -/
theorem snapshotStep_implements (backend : Backend) (k : String) :
    Implements (SnapshotStep ⟨backend, none⟩ k) commands Detector.next (Allowed k)
      (fun h d => ∃ slot, h.slot = slot.map Tracked.toDelayState ∧ Tracks h.clock slot d) := by
  have hemb := keyStep_embeds ⟨backend, none⟩ k
  constructor
  · rintro ⟨clock, _⟩ d m ⟨slot, rfl, htrack⟩ hallowed
    cases m with
    | deliver s =>
        obtain ⟨hid, hfits⟩ := hallowed
        rcases delivered_or_overflows none clock s slot with ⟨fx, slot', hd⟩ | ⟨_, _, _, hover⟩
        · have hstep : KeyStep delayedOrderOperator ⟨backend, none⟩ k _
              (.element clock (Instant.ofEpochMilli clock) s.toOrderState) fx _ :=
            (hemb slot _ _ _).mpr ⟨slot', .delivered hid hd, rfl⟩
          exact ⟨fx, _, .deliver hstep⟩
        · exact absurd hfits hover
    | advance time =>
        obtain ⟨fx, slot', hd⟩ := exists_drains htrack.coherent k time
        have hle : d.clock ≤ time := hallowed
        rw [htrack.clock_eq] at hle
        exact ⟨fx, _, .advance hle (hd.of_embeds hemb)⟩
  · rintro ⟨clock, _⟩ d m fx h' ⟨slot, rfl, htrack⟩ _ hs
    obtain ⟨⟨clock', slot'⟩, hts, rfl⟩ :=
      (HarnessStep.embeds hemb ⟨clock, slot⟩ _ _ _).mp hs
    cases m with
    | deliver s =>
        obtain ⟨rfl, _, hd⟩ := HarnessStep.deliver_inv hts
        obtain ⟨htrack', hcmd⟩ := tracks_deliver htrack hd.delivered_of_snapshot
        exact ⟨⟨slot', rfl, htrack'⟩, hcmd⟩
    | advance time =>
        obtain ⟨rfl, _, hd⟩ := HarnessStep.advance_inv hts
        obtain ⟨htrack', hcmd⟩ := tracks_advance htrack hd
        exact ⟨⟨slot', rfl, htrack'⟩, hcmd⟩

/-- **Detection is what the reference detector does.**  The operator gets through every schedule
of deliveries and clock advances of an order, and however it does so, at every move it emits
exactly the commands the detector emits. -/
theorem detection_refines_reference {backend : Backend} {k : String} {clock : Long}
    {moves : List (Move Snapshot)} (h : Schedule k clock moves) :
    (∃ run, IsRun (SnapshotStep ⟨backend, none⟩ k) (Harness.opened clock) run ∧
        run.map Entry.label = moves) ∧
      ∀ run, IsRun (SnapshotStep ⟨backend, none⟩ k) (Harness.opened clock) run →
        run.map Entry.label = moves →
          run.map (fun e => commands e.output) =
            answers Detector.next (Detector.initial clock) moves := by
  have himp := snapshotStep_implements backend k
  have hadm : Admits Detector.next (Allowed k) (Detector.initial clock) moves :=
    admits_of_schedule h
  have hstart : ∃ slot, (Harness.opened clock : Harness OrderDelayState).slot =
      slot.map Tracked.toDelayState ∧ Tracks clock slot (Detector.initial clock) :=
    ⟨Slot.empty, rfl, rfl, rfl, rfl, .nothing, fun ts hts => absurd hts (Finset.notMem_empty ts)⟩
  refine ⟨himp.exists_run hstart hadm, ?_⟩
  rintro run hrun rfl
  exact himp.answers_eq hstart hadm hrun

/-- Order 1 is accepted, the clock moves past its expected delivery time, and the snapshot is
redelivered. -/
def moves1 : List (Move Snapshot) :=
  [.deliver order1, .advance (.of 599999), .advance (.of 601000), .deliver order1]

/-- The command is emitted when the clock has passed the expected delivery time, and only then. -/
theorem detection_refines_reference_late :
    (∃ run, IsRun (SnapshotStep ⟨.rocksDB, none⟩ "order-1") (Harness.opened (.of 0)) run ∧
        run.map Entry.label = moves1) ∧
      ∀ run, IsRun (SnapshotStep ⟨.rocksDB, none⟩ "order-1") (Harness.opened (.of 0)) run →
        run.map Entry.label = moves1 →
          run.map (fun e => commands e.output) =
            [[], [], [order1.delayCommand (.of 601000)], []] := by
  have hschedule : Schedule "order-1" (.of 0) moves1 :=
    ⟨rfl, by decide, by decide, by decide, rfl, by decide, trivial⟩
  have hanswers : answers Detector.next (Detector.initial (.of 0)) moves1 =
      [[], [], [order1.delayCommand (.of 601000)], []] := rfl
  rw [← hanswers]
  exact detection_refines_reference hschedule

end DelayedOrderSms
