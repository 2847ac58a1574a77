import DelayedOrderSms.Detector.Firing
import DelayedOrderSms.Recovery.CatchUp
import DelayedOrderSms.Systems.Simulation
import Mathlib.Data.Finset.Max

/-!
# The reference detector of the deployed job

The job as it runs: what it keeps of an order expires, and the timer service gets its turn at any
moment, so timers may be late and those of an expired state still fire.  `TaskDetector` says
without timers what becomes of an order then.  It knows the newest snapshot and whether it has
notified, forgets both when they expire, and looks at the clock when it takes in a snapshot and
when the timer service has its turn.

* `Armed` — what is read of an order has its timer registered, whatever other timers there are.
* `follows_deliver`, `follows_fire` — the two simulation steps.
* `deployed_refines_reference` — every run of the task emits exactly the commands of the detector.
-/

namespace DelayedOrderSms

open Java Flink Systems

/-- The reference detector: the clock, and what is known of the order. -/
structure TaskDetector where
  clock : Long
  known : Known

/-- The snapshot is active, and its expected delivery time has come by `upTo` without a
notification. -/
def Overdue (upTo : Long) (s : Snapshot) (notified : Bool) : Prop :=
  s.Active ∧ notified = false ∧ s.etaMs ≤ upTo.val

instance (upTo : Long) (s : Snapshot) (notified : Bool) : Decidable (Overdue upTo s notified) :=
  inferInstanceAs (Decidable (_ ∧ _))

namespace TaskDetector

/-- A detector that has seen nothing. -/
def initial (clock : Long) : TaskDetector := ⟨clock, none⟩

/-- What is known is written down anew, next to whether the order has been notified. -/
def write (d : TaskDetector) (s : Snapshot) (notified : Bool) : TaskDetector :=
  { d with known := some ⟨(s, notified), d.clock⟩ }

/-- A snapshot that is news is written down, and the delay notified if it is overdue. -/
def accept (d : TaskDetector) (s : Snapshot) (notified : Bool) : TaskDetector × List SmsCommand :=
  if Overdue d.clock s notified then (d.write s true, [s.delayCommand d.clock])
  else (d.write s notified, [])

/-- One move: an element, time that passes, or the timer service firing what is due up to some
time. -/
def next (ttl : Option ℕ) (d : TaskDetector) :
    TaskMove OrderState → TaskDetector × List SmsCommand
  | .deliver o =>
      match Snapshot.of? o with
      | none => (d, [])
      | some s =>
          match d.known.read ttl d.clock with
          | none => d.accept s false
          | some (u, notified) =>
              if s.lastUpdatedAt < u.lastUpdatedAt then (d, []) else d.accept s notified
  | .pass time => ({ d with clock := time }, [])
  | .fire upTo =>
      match d.known.read ttl d.clock with
      | none => (d, [])
      | some (s, notified) =>
          if Overdue upTo s notified then (d.write s true, [s.delayCommand d.clock]) else (d, [])

end TaskDetector

/-! ## The correspondence -/

/-- The order is settled and remembers no timer, or it is waiting and the timer it remembers, at
its expected delivery time, is among the registered ones. -/
inductive Armed (timers : Finset Long) : Tracked → Prop
  | settled {s : Snapshot} {b : Bool} : (s.Active → b = true) → Armed timers ⟨s, b, none⟩
  | waiting {s : Snapshot} {ts : Long} : s.Active → s.etaMs = ts.val → ts ∈ timers →
      Armed timers ⟨s, false, some ts⟩

/-- What the task stores is what the detector knows, and what is read of it is armed. -/
structure Follows (ttl : Option ℕ) (clock : Long) (slot : Slot Tracked) (d : TaskDetector) :
    Prop where
  clock_eq : d.clock = clock
  known_eq : d.known = known slot
  armed : ∀ t ∈ slot.value ttl clock, Armed slot.timers t

section Follows

variable {ttl : Option ℕ} {k : String} {clock upTo : Long} {slot slot' : Slot Tracked}
  {d : TaskDetector} {fx : List Effect}

lemma Follows.read (h : Follows ttl clock slot d) :
    d.known.read ttl d.clock = (slot.value ttl clock).map fun t => (t.snapshot, t.delaySmsEmitted) := by
  rw [h.known_eq, h.clock_eq, read_known]

/-- What has just been written. -/
lemma follows_wrote (hclock : d.clock = clock) {s : Snapshot} {b : Bool} {m : Option Long}
    {timers : Finset Long} (harmed : Armed timers ⟨s, b, m⟩) :
    Follows ttl clock (wrote ⟨s, b, m⟩ clock timers) (d.write s b) where
  clock_eq := hclock
  known_eq := by rw [TaskDetector.write, hclock]; rfl
  armed := by
    intro t ht
    obtain ⟨w, hw⟩ := Slot.value_eq_some ht
    obtain rfl := (TtlValue.mk.inj (Option.some.inj hw)).1
    exact harmed

/-- The detector takes in what the task does not find stale. -/
lemma Follows.next_deliver (h : Follows ttl clock slot d) {s : Snapshot}
    (hf : Fresh s (slot.value ttl clock)) :
    d.next ttl (.deliver s.toOrderState) = d.accept s (notified (slot.value ttl clock)) := by
  simp only [TaskDetector.next, Snapshot.of?_toOrderState, h.read]
  cases hv : slot.value ttl clock with
  | none => rfl
  | some t =>
      rw [hv, fresh_some] at hf
      simp only [Option.map_some, if_neg hf, notified_some]

/-- A notified order remembers no timer. -/
lemma Follows.timerOf_eq_none (h : Follows ttl clock slot d)
    (hn : notified (slot.value ttl clock) = true) : timerOf (slot.value ttl clock) = none := by
  cases hv : slot.value ttl clock with
  | none => rfl
  | some t =>
      rw [hv, notified_some] at hn
      cases h.armed t hv with
      | settled => rfl
      | waiting => exact absurd hn (by simp)

/-- The timer of a pending order is registered. -/
lemma Follows.mem_moveTimer (h : Follows ttl clock slot d) (time : Long) :
    time ∈ moveTimer slot.timers (timerOf (slot.value ttl clock)) time := by
  rw [moveTimer]
  split_ifs with hold
  · cases hv : slot.value ttl clock with
    | none => simp [hv] at hold
    | some t =>
        rw [hv, timerOf_some] at hold
        cases h.armed t hv with
        | settled => simp at hold
        | waiting _ _ hmem =>
            obtain rfl := Option.some.inj hold
            exact hmem
  · exact Finset.mem_insert_self _ _

/-- **Taking in a snapshot.** -/
theorem follows_deliver (h : Follows ttl clock slot d) {s : Snapshot}
    (hd : Delivered ttl clock s slot fx slot') :
    Follows ttl clock slot' (d.next ttl (.deliver s.toOrderState)).1 ∧
      commands fx = (d.next ttl (.deliver s.toOrderState)).2 := by
  have hclock := h.clock_eq
  cases hd with
  | @stale t hv hlt =>
      have hsame : d.next ttl (.deliver s.toOrderState) = (d, []) := by
        simp only [TaskDetector.next, Snapshot.of?_toOrderState, h.read, hv, Option.map_some,
          if_pos hlt]
      rw [hsame]
      exact ⟨h, rfl⟩
  | terminal hf hdone =>
      have hnot : ¬ Overdue d.clock s (notified (slot.value ttl clock)) := fun ho => hdone ho.1
      rw [h.next_deliver hf, TaskDetector.accept, if_neg hnot]
      exact ⟨follows_wrote hclock (.settled fun hact => absurd hact hdone), rfl⟩
  | silent hf _ hn =>
      have hnot : ¬ Overdue d.clock s true := fun ho => absurd ho.2.1 (by decide)
      rw [h.next_deliver hf, hn, TaskDetector.accept, if_neg hnot, h.timerOf_eq_none hn]
      exact ⟨follows_wrote hclock (.settled fun _ => rfl), rfl⟩
  | due hf hact hun _ hle =>
      have hover : Overdue d.clock s false := ⟨hact, rfl, hclock ▸ hle⟩
      rw [h.next_deliver hf, hun, TaskDetector.accept, if_pos hover, hclock]
      exact ⟨follows_wrote hclock (.settled fun _ => rfl), rfl⟩
  | @pending time hf hact hun heta hlt =>
      have hnot : ¬ Overdue d.clock s false := by
        rintro ⟨_, _, hle⟩
        rw [hclock, heta] at hle
        exact absurd hle (not_le.mpr hlt)
      rw [h.next_deliver hf, hun, TaskDetector.accept, if_neg hnot]
      exact ⟨follows_wrote hclock (.waiting hact heta (h.mem_moveTimer time)), rfl⟩

/-- **A turn of the timer service.** -/
theorem follows_fire (h : Follows ttl clock slot d)
    (hd : Drains (TrackedStep ttl k) clock upTo slot fx slot') :
    Follows ttl clock slot' (d.next ttl (.fire upTo)).1 ∧
      commands fx = (d.next ttl (.fire upTo)).2 := by
  have hread := h.read
  by_cases hover : ∃ t ∈ slot.value ttl clock, Overdue upTo t.snapshot t.delaySmsEmitted
  · obtain ⟨t, hv, hover⟩ := hover
    cases h.armed t hv with
    | settled hb => exact absurd (hb hover.1) (by simpa using hover.2.1)
    | @waiting s ts hact heta hmem =>
        have hdue : ts ≤ upTo := by
          have hle := hover.2.2
          rw [heta] at hle
          exact hle
        obtain ⟨hcommands, hcell⟩ := drains_notifies hv hact heta hdue hmem hd
        have hknown : d.known.read ttl d.clock = some (s, false) := by
          rw [hread, hv]
          rfl
        have hnext : d.next ttl (.fire upTo) = (d.write s true, [s.delayCommand d.clock]) := by
          simp only [TaskDetector.next, hknown, if_pos hover]
        rw [hnext, h.clock_eq]
        obtain ⟨c, timers⟩ := slot'
        obtain rfl : c = _ := hcell
        exact ⟨follows_wrote h.clock_eq (.settled fun _ => rfl), hcommands⟩
  · have hquiet : ∀ t ∈ slot.value ttl clock, t.snapshot.Active → t.delaySmsEmitted = false →
        upTo.val < t.snapshot.etaMs :=
      fun t ht hact hun => not_le.mp fun hle => hover ⟨t, ht, hact, hun, hle⟩
    obtain ⟨hnil, hcell, htimers⟩ := drains_quiet hquiet hd
    have hsame : d.next ttl (.fire upTo) = (d, []) := by
      simp only [TaskDetector.next, hread]
      cases hv : slot.value ttl clock with
      | none => rfl
      | some t => exact if_neg fun ho => hover ⟨t, hv, ho⟩
    rw [hsame]
    refine ⟨⟨h.clock_eq, ?_, fun t ht => ?_⟩, hnil⟩
    · rw [h.known_eq, known, known, hcell]
    · rw [Slot.value_congr hcell] at ht
      cases h.armed t ht with
      | settled hb => exact .settled hb
      | @waiting s ts hact heta hmem =>
          have hlater : upTo.val < s.etaMs := hquiet _ ht hact rfl
          rw [heta] at hlater
          exact .waiting hact heta (htimers ts hmem hlater)

/-- Time that passes may make what is known expire. -/
lemma Follows.pass (h : Follows ttl clock slot d) {time : Long} (hle : clock ≤ time) :
    Follows ttl time slot { d with clock := time } where
  clock_eq := rfl
  known_eq := h.known_eq
  armed := by
    intro t ht
    cases ttl with
    | none =>
        rw [Slot.value_none, ← Slot.value_none clock] at ht
        exact h.armed t ht
    | some ttl =>
        rcases Slot.value_later hle slot with hnone | hsame
        · rw [hnone] at ht
          exact absurd ht (by simp)
        · exact h.armed t (hsame ▸ ht)

end Follows

/-! ## The operator at a running task -/

/-- The timer service always comes to an end with what is due. -/
lemma exists_drains_of_fits {ttl : Option ℕ} (k : String) {now upTo : Long} (hle : upTo ≤ now)
    {slot : Slot Tracked} (h : ∀ t ∈ slot.value ttl now, t.snapshot.Active →
      t.delaySmsEmitted = false → t.snapshot.Fits) :
    ∃ fx slot', Drains (TrackedStep ttl k) now upTo slot fx slot' := by
  induction hn : slot.timers.card generalizing slot with
  | zero =>
      rw [Finset.card_eq_zero] at hn
      exact ⟨[], slot, .done fun ts hts => absurd (hn ▸ hts) (Finset.notMem_empty ts)⟩
  | succ n ih =>
      have hne : slot.timers.Nonempty := Finset.card_pos.mp (by omega)
      have hmem := slot.timers.min'_mem hne
      generalize hfirst : slot.timers.min' hne = ts at hmem
      have hleast : ∀ ts' ∈ slot.timers, ts ≤ ts' :=
        fun ts' hts' => hfirst ▸ slot.timers.min'_le ts' hts'
      by_cases hdue : ts ≤ upTo
      · have hcard : (slot.pop ts).timers.card = n := by
          rw [Slot.pop_timers, Finset.card_erase_of_mem hmem, hn, Nat.add_sub_cancel]
        rcases fired_or_overflows ttl now ts (slot.pop ts) with ⟨fx, slot', hf⟩ | hover
        · have hfits : ∀ t ∈ slot'.value ttl now, t.snapshot.Active →
              t.delaySmsEmitted = false → t.snapshot.Fits := by
            cases hf with
            | idle => exact h
            | notify =>
                intro t ht _ hun
                obtain ⟨w, hw⟩ := Slot.value_eq_some ht
                obtain rfl := (TtlValue.mk.inj (Option.some.inj hw)).1
                exact absurd hun (by simp)
          have hcard' : slot'.timers.card = n := by cases hf <;> exact hcard
          obtain ⟨fx', slot'', hrest⟩ := ih hfits hcard'
          have hstep : TrackedStep ttl k slot (.timer now (Instant.ofEpochMilli now) ts) fx slot' :=
            .fired hmem (hdue.trans hle) hf
          exact ⟨_, slot'', .fire hmem hdue hleast hstep hrest⟩
        · obtain ⟨t, hv, hact, hun, hfits⟩ := hover
          exact absurd (h t hv hact hun) hfits
      · exact ⟨[], slot, .done fun ts' hts' => (not_le.mp hdue).trans_le (hleast ts' hts')⟩

/-- What the detector allows at each move: messages of the order, whose expected delivery times
fit in 64-bit epoch milliseconds, a clock that does not go back, and timers that are due. -/
def TaskAllowed (k : String) (d : TaskDetector) : TaskMove OrderState → Prop
  | .deliver o => o.orderId = some k ∧ ∀ s, Snapshot.of? o = some s → s.Fits
  | .pass time => d.clock ≤ time
  | .fire upTo => upTo ≤ d.clock

/-- **The operator implements the detector.** -/
theorem taskStep_implements (config : StateConfig) (k : String) :
    Implements (TaskStep (KeyStep delayedOrderOperator config k)) commands
      (TaskDetector.next config.ttl) (TaskAllowed k)
      (fun h d => ∃ slot, h.slot = slot.map Tracked.toDelayState ∧
        Follows config.ttl h.clock slot d) := by
  have hemb := keyStep_embeds config k
  constructor
  · rintro ⟨clock, _⟩ d m ⟨slot, rfl, hfollows⟩ hallowed
    cases m with
    | deliver o =>
        obtain ⟨hid, hfits⟩ := hallowed
        have hwall := Instant.ofEpochMilli clock
        obtain ⟨fx, slot', hstep⟩ : ∃ fx slot', TrackedStep config.ttl k slot
            (.element clock hwall o) fx slot' := by
          cases hvalid : isValid o with
          | false => exact ⟨_, _, .invalid hid hvalid⟩
          | true =>
              obtain ⟨s, rfl⟩ := isValid_iff.mp hvalid
              rcases delivered_or_overflows config.ttl clock s slot with
                ⟨fx, slot', hd⟩ | ⟨_, _, _, hover⟩
              · exact ⟨fx, slot', .delivered (Option.some.inj hid) hd⟩
              · exact absurd (hfits s (Snapshot.of?_toOrderState s)) hover
        exact ⟨fx, _, .deliver ((hemb slot _ _ _).mpr ⟨slot', hstep, rfl⟩)⟩
    | pass time =>
        have hle : d.clock ≤ time := hallowed
        rw [hfollows.clock_eq] at hle
        exact ⟨[], _, .pass hle⟩
    | fire upTo =>
        have hle : upTo ≤ d.clock := hallowed
        rw [hfollows.clock_eq] at hle
        obtain ⟨fx, slot', hd⟩ := exists_drains_of_fits k hle fun t ht hact hun => by
          cases hfollows.armed t ht with
          | settled hb => exact absurd (hb hact) (by simpa using hun)
          | @waiting s ts _ heta =>
              have hlong : IsLong s.etaMs := heta ▸ ts.property
              exact hlong
        exact ⟨fx, _, .fire hle (hd.of_embeds hemb)⟩
  · rintro ⟨clock, _⟩ d m fx h' ⟨slot, rfl, hfollows⟩ _ hs
    obtain ⟨⟨clock', slot'⟩, hts, rfl⟩ := (TaskStep.embeds hemb ⟨clock, slot⟩ _ _ _).mp hs
    cases m with
    | deliver o =>
        obtain ⟨rfl, wall, hd⟩ := TaskStep.deliver_inv hts
        cases hvalid : isValid o with
        | false =>
            obtain ⟨rfl, hnil⟩ := hd.of_invalid hvalid
            have hsame : d.next config.ttl (.deliver o) = (d, []) := by
              simp only [TaskDetector.next, Snapshot.of?_of_invalid hvalid]
            rw [hsame]
            exact ⟨⟨_, rfl, hfollows⟩, hnil⟩
        | true =>
            obtain ⟨s, rfl⟩ := isValid_iff.mp hvalid
            obtain ⟨hfollows', hcmd⟩ := follows_deliver hfollows hd.delivered_of_snapshot
            exact ⟨⟨slot', rfl, hfollows'⟩, hcmd⟩
    | pass time =>
        obtain ⟨rfl, hle, rfl, rfl⟩ := TaskStep.pass_inv hts
        exact ⟨⟨_, rfl, hfollows.pass hle⟩, rfl⟩
    | fire upTo =>
        obtain ⟨rfl, hd⟩ := TaskStep.fire_inv hts
        obtain ⟨hfollows', hcmd⟩ := follows_fire hfollows hd
        exact ⟨⟨slot', rfl, hfollows'⟩, hcmd⟩

/-- The moves of a running task, from a clock on: messages of the order `k`, time that passes, and
turns of the timer service up to the present at the latest. -/
def TaskSchedule (k : String) : Long → List (TaskMove OrderState) → Prop
  | _, [] => True
  | clock, .deliver o :: moves =>
      (o.orderId = some k ∧ ∀ s, Snapshot.of? o = some s → s.Fits) ∧ TaskSchedule k clock moves
  | clock, .pass time :: moves => clock ≤ time ∧ TaskSchedule k time moves
  | clock, .fire upTo :: moves => upTo ≤ clock ∧ TaskSchedule k clock moves

lemma TaskDetector.accept_clock (d : TaskDetector) (s : Snapshot) (notified : Bool) :
    (d.accept s notified).1.clock = d.clock := by
  rw [TaskDetector.accept]
  split_ifs <;> rfl

lemma admits_of_taskSchedule {ttl : Option ℕ} {k : String} {moves : List (TaskMove OrderState)}
    {d : TaskDetector} (h : TaskSchedule k d.clock moves) :
    Admits (TaskDetector.next ttl) (TaskAllowed k) d moves := by
  induction moves generalizing d with
  | nil => trivial
  | cons m moves ih =>
      cases m with
      | deliver o =>
          have hclock : (d.next ttl (.deliver o)).1.clock = d.clock := by
            simp only [TaskDetector.next]
            split
            · rfl
            · split
              · exact d.accept_clock _ _
              · split_ifs
                · rfl
                · exact d.accept_clock _ _
          exact ⟨h.1, ih (by rw [hclock]; exact h.2)⟩
      | pass time => exact ⟨h.1, ih h.2⟩
      | fire upTo =>
          have hclock : (d.next ttl (.fire upTo)).1.clock = d.clock := by
            simp only [TaskDetector.next]
            split
            · rfl
            · split_ifs <;> rfl
          exact ⟨h.1, ih (by rw [hclock]; exact h.2)⟩

/-- **The deployed job does what its reference detector does.**  A running task gets through every
schedule of messages, passing time and turns of the timer service, however late these are and
whatever has expired, and at every move it emits exactly the commands the detector emits. -/
theorem deployed_refines_reference {config : StateConfig} {k : String} {clock : Long}
    {moves : List (TaskMove OrderState)} (h : TaskSchedule k clock moves) :
    (∃ run, IsRun (TaskStep (KeyStep delayedOrderOperator config k)) (Harness.opened clock) run ∧
        run.map Entry.label = moves) ∧
      ∀ run, IsRun (TaskStep (KeyStep delayedOrderOperator config k)) (Harness.opened clock) run →
        run.map Entry.label = moves →
          run.map (fun e => commands e.output) =
            answers (TaskDetector.next config.ttl) (TaskDetector.initial clock) moves := by
  have himp := taskStep_implements config k
  have hadm : Admits (TaskDetector.next config.ttl) (TaskAllowed k) (TaskDetector.initial clock)
      moves := admits_of_taskSchedule h
  have hstart : ∃ slot, (Harness.opened clock : Harness OrderDelayState).slot =
      slot.map Tracked.toDelayState ∧ Follows config.ttl clock slot (TaskDetector.initial clock) :=
    ⟨Slot.empty, rfl, rfl, rfl, fun t ht => absurd ht (by simp [Slot.empty, Slot.value])⟩
  refine ⟨himp.exists_run hstart hadm, ?_⟩
  rintro run hrun rfl
  exact himp.answers_eq hstart hadm hrun

/-- Order 1 is accepted, its timer is late, the order is notified and forgotten after seven days,
and the snapshot is redelivered. -/
def forgotten1 : List (TaskMove OrderState) :=
  [.deliver order1.toOrderState, .pass (.of 601000), .fire (.of 599999), .fire (.of 601000),
    .pass (.of 605401000), .deliver order1.toOrderState]

/-- It is notified at the turn of the timer service that its timer is due in, and once more when it
has been forgotten. -/
theorem deployed_refines_reference_forgotten :
    (∃ run, IsRun (TaskStep (KeyStep delayedOrderOperator (stateConfig 7) "order-1"))
        (Harness.opened (.of 0)) run ∧ run.map Entry.label = forgotten1) ∧
      ∀ run, IsRun (TaskStep (KeyStep delayedOrderOperator (stateConfig 7) "order-1"))
          (Harness.opened (.of 0)) run → run.map Entry.label = forgotten1 →
        run.map (fun e => commands e.output) =
          [[], [], [], [order1.delayCommand (.of 601000)], [],
            [order1.delayCommand (.of 605401000)]] := by
  have hfits : ∀ s, Snapshot.of? order1.toOrderState = some s → s.Fits := by
    rintro s ⟨⟩
    decide
  have hschedule : TaskSchedule "order-1" (.of 0) forgotten1 :=
    ⟨⟨rfl, hfits⟩, by decide, by decide, by decide, by decide, ⟨rfl, hfits⟩, trivial⟩
  have hanswers : answers (TaskDetector.next (stateConfig 7).ttl) (TaskDetector.initial (.of 0))
      forgotten1 = [[], [], [], [order1.delayCommand (.of 601000)], [],
        [order1.delayCommand (.of 605401000)]] := rfl
  rw [← hanswers]
  exact deployed_refines_reference hschedule

end DelayedOrderSms
