import DelayedOrderSms.Processor.Coherence
import DelayedOrderSms.Processor.History

/-!
# Finished orders and late snapshots

Once a snapshot with a terminal status has been accepted, snapshots older than it are dropped as
stale.  A snapshot with the very same `lastUpdatedAt` is not: `isStaleUpdate` is a strict
comparison, so such a snapshot is accepted, and when its status is active the order is active
again.

* `finished_step_iff` — among the late snapshots these are the ones that reopen an order.
* `finished_iff` — the run version: the order stays finished, without timers and without
  commands, exactly when none of them arrives.
* `reopened_by_tie` — a run in which one does.
-/

namespace DelayedOrderSms

open Java Flink Systems

/-- What is kept of the order is terminal, and it has no timer. -/
def Finished (slot : Slot Tracked) : Prop :=
  (∃ t, slot.kept = some t ∧ ¬ t.snapshot.Active) ∧ slot.timers = ∅

/-- What is kept of the order was last updated at `u`. -/
def UpdatedAt (u : Instant) (slot : Slot Tracked) : Prop :=
  ∃ t, slot.kept = some t ∧ t.snapshot.lastUpdatedAt = u

/-- The event brings no snapshot updated after `u`. -/
def LateEvent (u : Instant) (e : KeyEvent OrderState) : Prop :=
  ∀ s : Snapshot, e.incoming? = some s.toOrderState → s.lastUpdatedAt ≤ u

/-- The event brings no active snapshot updated exactly at `u`. -/
def NoTie (u : Instant) (e : KeyEvent OrderState) : Prop :=
  ∀ s : Snapshot, e.incoming? = some s.toOrderState → s.lastUpdatedAt = u → ¬ s.Active

lemma noTie_element {u : Instant} {now : Long} {wall : Instant} {s : Snapshot} :
    NoTie u (.element now wall s.toOrderState) ↔ (s.lastUpdatedAt = u → ¬ s.Active) := by
  refine ⟨fun h => h s rfl, fun h s' hs' => ?_⟩
  obtain rfl := Snapshot.toOrderState_injective (Option.some.inj hs')
  exact h

section Step

variable {k : String} {u : Instant} {slot slot' : Slot Tracked} {e : KeyEvent OrderState}
  {fx : List Effect}

lemma not_finished_of_active {s : Snapshot} {b : Bool} {m : Option Long} {w : Long}
    {T : Finset Long} (h : s.Active) : ¬ Finished (wrote ⟨s, b, m⟩ w T) := by
  rintro ⟨⟨t, ht, hdone⟩, _⟩
  obtain rfl := Option.some.inj ht
  exact hdone h

/-- A late snapshot that is accepted is a tie. -/
lemma tie_of_fresh {s : Snapshot} (hu : UpdatedAt u slot) (hlate : s.lastUpdatedAt ≤ u)
    (hf : Fresh s slot.kept) : s.lastUpdatedAt = u := by
  obtain ⟨t, ht, rfl⟩ := hu
  exact le_antisymm hlate (not_lt.mp (hf t ht))

/-- Late events do not move the time of the last update. -/
lemma UpdatedAt.step (hu : UpdatedAt u slot) (hlate : LateEvent u e)
    (hs : TrackedStep none k slot e fx slot') : UpdatedAt u slot' := by
  cases hs with
  | invalid => exact hu
  | @delivered _ now _ s _ _ hd =>
      have hle : s.lastUpdatedAt ≤ u := hlate s rfl
      cases hd with
      | stale => exact hu
      | terminal hf => exact ⟨_, rfl, tie_of_fresh hu hle (Slot.value_none now slot ▸ hf)⟩
      | silent hf => exact ⟨_, rfl, tie_of_fresh hu hle (Slot.value_none now slot ▸ hf)⟩
      | due hf => exact ⟨_, rfl, tie_of_fresh hu hle (Slot.value_none now slot ▸ hf)⟩
      | pending hf => exact ⟨_, rfl, tie_of_fresh hu hle (Slot.value_none now slot ▸ hf)⟩
  | fired _ _ hf =>
      cases hf with
      | idle => exact hu
      | notify hv =>
          obtain ⟨t, ht, htu⟩ := hu
          rw [Slot.value_none, Slot.kept_pop, ht] at hv
          obtain rfl := Option.some.inj hv
          exact ⟨_, rfl, htu⟩

/-- **What a late event does to a finished order**: it stays finished unless the event brings an
active snapshot with the same update time. -/
theorem finished_step_iff (hc : Coherent slot) (hu : UpdatedAt u slot) (hfin : Finished slot)
    (hlate : LateEvent u e) (hs : TrackedStep none k slot e fx slot') :
    Finished slot' ↔ NoTie u e := by
  cases hs with
  | @invalid _ _ o _ hinvalid =>
      refine ⟨fun _ s hs => ?_, fun _ => hfin⟩
      obtain rfl := Option.some.inj hs
      exact absurd hinvalid (by simp)
  | @delivered _ now _ s _ _ hd =>
      have hle : s.lastUpdatedAt ≤ u := hlate s rfl
      rw [noTie_element]
      cases hd with
      | stale hv hlt =>
          obtain ⟨t, ht, htu⟩ := hu
          rw [Slot.value_none, ht] at hv
          obtain rfl := Option.some.inj hv
          exact ⟨fun _ htie => absurd (htie.trans htu.symm) hlt.ne, fun _ => hfin⟩
      | terminal _ hdone =>
          rw [Slot.value_none, hc.dropTimer]
          exact ⟨fun _ _ => hdone, fun _ => ⟨⟨_, rfl, hdone⟩, rfl⟩⟩
      | silent hf ha =>
          have htie := tie_of_fresh hu hle (Slot.value_none now slot ▸ hf)
          exact ⟨fun h => absurd h (not_finished_of_active ha), fun h => absurd ha (h htie)⟩
      | due hf ha =>
          have htie := tie_of_fresh hu hle (Slot.value_none now slot ▸ hf)
          exact ⟨fun h => absurd h (not_finished_of_active ha), fun h => absurd ha (h htie)⟩
      | pending hf ha =>
          have htie := tie_of_fresh hu hle (Slot.value_none now slot ▸ hf)
          exact ⟨fun h => absurd h (not_finished_of_active ha), fun h => absurd ha (h htie)⟩
  | fired hmem =>
      rw [hfin.2] at hmem
      exact absurd hmem (Finset.notMem_empty _)

/-- A step that leaves the order finished emits no command. -/
lemma quiet_of_finished (hs : TrackedStep none k slot e fx slot') (hfin : Finished slot') :
    commands fx = [] := by
  rcases hs.quiet_or_emission with hquiet | ⟨s, hemit⟩
  · exact hquiet
  · obtain ⟨⟨t, ht, hdone⟩, _⟩ := hfin
    rw [Slot.kept, hemit.written] at ht
    obtain rfl := Option.some.inj ht
    exact absurd hemit.active hdone

end Step

/-! ## Runs of late events -/

/-- A step whose event is late. -/
def LateStep (k : String) (u : Instant) (slot : Slot Tracked) (e : KeyEvent OrderState)
    (fx : List Effect) (slot' : Slot Tracked) : Prop :=
  TrackedStep none k slot e fx slot' ∧ LateEvent u e

section Run

variable {k : String} {u : Instant}

lemma isRun_lateStep : ∀ {run : List (Entry (Slot Tracked) (KeyEvent OrderState) Effect)}
    {slot : Slot Tracked}, IsRun (TrackedStep none k) slot run →
      (∀ e ∈ run, LateEvent u e.label) → IsRun (LateStep k u) slot run
  | [], _, _, _ => trivial
  | e :: _, _, h, hlate => ⟨⟨h.1, hlate e List.mem_cons_self⟩,
      isRun_lateStep h.2 fun d hd => hlate d (List.mem_cons_of_mem _ hd)⟩

lemma quiet_of_finished_run : ∀ {run : List (Entry (Slot Tracked) (KeyEvent OrderState) Effect)}
    {slot : Slot Tracked}, IsRun (LateStep k u) slot run →
      (∀ r, r <+: run → Finished (final slot r)) → commands (outputs run) = []
  | [], _, _, _ => rfl
  | e :: run, slot, h, hfin => by
      have hhead : Finished e.target := hfin [e] ((List.prefix_cons_inj e).mpr List.nil_prefix)
      have htail := quiet_of_finished_run h.2
        fun r hr => hfin (e :: r) ((List.prefix_cons_inj e).mpr hr)
      rw [outputs_cons, commands_append, htail, quiet_of_finished h.1.1 hhead, List.append_nil]

/-- One finished order under late events. -/
theorem finished_run_iff {run : List (Entry (Slot Tracked) (KeyEvent OrderState) Effect)}
    {slot : Slot Tracked} (hc : Coherent slot) (hu : UpdatedAt u slot) (hfin : Finished slot)
    (h : IsRun (LateStep k u) slot run) :
    (∀ r, r <+: run → Finished (final slot r) ∧ commands (outputs r) = []) ↔
      ∀ e ∈ run, NoTie u e.label := by
  have hstates := @IsRun.forall_iff _ _ _ (LateStep k u)
    (fun slot => Coherent slot ∧ UpdatedAt u slot) Finished (fun _ e => NoTie u e)
    (fun _ _ _ _ hi _ hs => ⟨hi.1.step hs.1, hi.2.step hs.2 hs.1⟩)
    (fun _ _ _ _ hi hg hs => finished_step_iff hi.1 hi.2 hg hs.2 hs.1) run slot ⟨hc, hu⟩ hfin h
  rw [← forall_transitions (C := fun e => NoTie u e.label), ← hstates]
  constructor
  · exact fun hall r hr => (hall r hr).1
  · exact fun hall r hr => ⟨hall r hr,
      quiet_of_finished_run (h.of_isPrefix hr) fun q hq => hall q (hq.trans hr)⟩

end Run

/-! ## Runs of the job -/

/-- What is kept of the order is terminal, and no timer is registered for it. -/
def IsFinished (slot : Slot OrderDelayState) : Prop :=
  (∃ current, slot.kept = some current ∧ current.isTerminal = true) ∧ slot.timers = ∅

lemma isFinished_map {slot : Slot Tracked} :
    IsFinished (slot.map Tracked.toDelayState) ↔ Finished slot := by
  rw [IsFinished, Slot.map_timers, Slot.map_kept, Finished]
  cases slot.kept with
  | none => simp
  | some t => simp [Snapshot.Active]

/-- Accepting a terminal snapshot finishes the order. -/
lemma finished_of_accepted {k : String} {slot slot' : Slot Tracked} {s₀ : Snapshot} {now : Long}
    {wall : Instant} {fx : List Effect} (hc : Coherent slot) (hf : Fresh s₀ slot.kept)
    (hdone : ¬ s₀.Active) (hs : TrackedStep none k slot (.element now wall s₀.toOrderState) fx slot') :
    Finished slot' ∧ UpdatedAt s₀.lastUpdatedAt slot' := by
  cases hs.delivered_of_snapshot with
  | stale hv hlt =>
      rw [Slot.value_none] at hv
      exact absurd hlt (hf _ hv)
  | terminal =>
      rw [Slot.value_none, hc.dropTimer]
      exact ⟨⟨⟨_, rfl, hdone⟩, rfl⟩, _, rfl, rfl⟩
  | silent _ ha => exact absurd ha hdone
  | due _ ha => exact absurd ha hdone
  | pending _ ha => exact absurd ha hdone

/-- **When a finished order stays finished.**  A run accepts the terminal snapshot `s₀` of an
order, and none of the snapshots of that order it delivers afterwards is updated later.  Then the
order stays terminal, without timers and without commands, in every state reached afterwards
exactly when no active snapshot with the update time of `s₀` is among them. -/
theorem finished_iff {backend : Backend}
    {pre post : List (Entry Job (String × KeyEvent OrderState) Effect)} {k : String}
    {s₀ : Snapshot} {now : Long} {wall : Instant} {fx : List Effect} {j : Job}
    (h : IsRun (JobStep ⟨backend, none⟩) Job.initial
      (pre ++ ⟨(k, .element now wall s₀.toOrderState), fx, j⟩ :: post))
    (haccepted : accepts none now (final Job.initial pre k) s₀.toOrderState = true)
    (hdone : ¬ s₀.Active)
    (hlate : ∀ s : Snapshot, s.toOrderState ∈ deliveries k post →
      s.lastUpdatedAt ≤ s₀.lastUpdatedAt) :
    (∀ r, r <+: post → IsFinished (final j r k) ∧ commandsFor k r = []) ↔
      ∀ s : Snapshot, s.toOrderState ∈ deliveries k post →
        s.lastUpdatedAt = s₀.lastUpdatedAt → ¬ s.Active := by
  obtain ⟨hpre, hstep, hpost⟩ := isRun_append.mp h
  obtain ⟨slot, slot', hoccurs, hslot, hts, hslot', _⟩ := tracked_step hpre hstep
  have hc := hoccurs.coherent
  have hf : Fresh s₀ slot.kept := by
    rw [hslot, accepts_toOrderState, Slot.value_none] at haccepted
    exact of_decide_eq_true haccepted
  obtain ⟨hfin, hu⟩ := finished_of_accepted hc hf hdone hts
  have hproj : IsRun _ (j k) (project k post) := (isRun_project k post j hpost).1
  rw [show j k = slot'.map Tracked.toDelayState from hslot'] at hproj
  obtain ⟨trun, htrun, hmap, _, _⟩ := (keyStep_embeds _ k).pullback hproj
  have hmem : ∀ C : Snapshot → Prop, (∀ s : Snapshot, s.toOrderState ∈ deliveries k post → C s) ↔
      ∀ e ∈ trun, ∀ s : Snapshot, e.label.incoming? = some s.toOrderState → C s := by
    intro C
    simp only [deliveries, hmap, List.mem_filterMap, List.mem_map, Entry.map]
    constructor
    · exact fun hall e he s hs => hall s ⟨_, ⟨e, he, rfl⟩, hs⟩
    · rintro hall s ⟨_, ⟨e, he, rfl⟩, hs⟩
      exact hall e he s hs
  have hlateRun := isRun_lateStep htrun ((hmem _).mp hlate)
  calc (∀ r, r <+: post → IsFinished (final j r k) ∧ commandsFor k r = [])
      ↔ ∀ r, r <+: post → IsFinished (final j r k) ∧ commands (outputs (project k r)) = [] := by
        refine forall₂_congr fun r hr => ?_
        rw [commandsFor_eq k fun e he => command_orderId h e (by simp [hr.subset he])]
    _ ↔ ∀ q, q <+: project k post → IsFinished (final (j k) q) ∧ commands (outputs q) = [] :=
        forall_prefix_project (P := fun q s => IsFinished s ∧ commands (outputs q) = []) k hpost
    _ ↔ ∀ r, r <+: trun → Finished (final slot' r) ∧ commands (outputs r) = [] := by
        rw [hmap, show j k = slot'.map Tracked.toDelayState from hslot',
          forall_prefix_map (P := fun q s => IsFinished s ∧ commands (outputs q) = [])]
        simp only [isFinished_map, outputs_map]
    _ ↔ ∀ e ∈ trun, NoTie s₀.lastUpdatedAt e.label :=
        finished_run_iff (hc.step hts) hu hfin hlateRun
    _ ↔ ∀ s : Snapshot, s.toOrderState ∈ deliveries k post →
          s.lastUpdatedAt = s₀.lastUpdatedAt → ¬ s.Active := (hmem _).symm

/-- Order 1 delivered at the instant of its first update. -/
def delivered1 : Snapshot :=
  .createOrder "order-1" .DELIVERED (.ofEpochMilli (.of 600000)) (.ofEpochMilli (.of 0))

/-- Its delivery, at time 1000. -/
def finished1 : Entry (Slot OrderDelayState) (KeyEvent OrderState) Effect :=
  ⟨.element (.of 1000) (.ofEpochMilli (.of 0)) delivered1.toOrderState, [],
    (wrote ⟨delivered1, false, none⟩ (.of 1000) ∅).map Tracked.toDelayState⟩

/-- The accepted snapshot with the same update time arrives when it is overdue. -/
def reopened1 : Entry (Slot OrderDelayState) (KeyEvent OrderState) Effect :=
  ⟨.element (.of 601000) (.ofEpochMilli (.of 0)) order1.toOrderState,
    order1.notification (.of 601000),
    (wrote ⟨order1, true, none⟩ (.of 601000) ∅).map Tracked.toDelayState⟩

/-- **A tie reopens a finished order**: the order is active again and its command is emitted. -/
theorem reopened_by_tie :
    IsRun (JobStep ⟨.rocksDB, none⟩) Job.initial
        (atKey "order-1" Job.initial [finished1, reopened1]) ∧
      accepts none (.of 1000) (Job.initial "order-1") delivered1.toOrderState = true ∧
      ¬ delivered1.Active ∧ order1.lastUpdatedAt ≤ delivered1.lastUpdatedAt ∧
      ¬ IsFinished (final Job.initial (atKey "order-1" Job.initial [finished1, reopened1])
        "order-1") ∧
      commandsFor "order-1" (atKey "order-1" Job.initial [finished1, reopened1]) =
        [order1.delayCommand (.of 601000)] := by
  refine ⟨?_, rfl, by decide, le_refl _, ?_, rfl⟩
  · exact isRun_atKey "order-1" [finished1, reopened1] Job.initial
      ⟨.element rfl rfl, .element rfl rfl, trivial⟩
  · rintro ⟨⟨current, hcur, hterm⟩, _⟩
    obtain rfl := Option.some.inj hcur
    exact absurd hterm (by decide)

/-- An older snapshot, redelivered after the order was finished. -/
def older1 : Snapshot :=
  .createOrder "order-1" .ACCEPTED (.ofEpochMilli (.of 600000)) (.ofEpochMilli (.of (-1)))

def redelivered1 : Entry (Slot OrderDelayState) (KeyEvent OrderState) Effect :=
  ⟨.element (.of 601000) (.ofEpochMilli (.of 0)) older1.toOrderState,
    [.inc .stale_updates_ignored],
    (wrote ⟨delivered1, false, none⟩ (.of 1000) ∅).map Tracked.toDelayState⟩

/-- The older snapshot leaves the order finished. -/
theorem finished_iff_redelivered :
    IsFinished (final (Function.update Job.initial "order-1" finished1.target)
        (atKey "order-1" (Function.update Job.initial "order-1" finished1.target) [redelivered1])
        "order-1") ∧
      commandsFor "order-1" (atKey "order-1"
        (Function.update Job.initial "order-1" finished1.target) [redelivered1]) = [] := by
  have hrun : IsRun (JobStep ⟨.rocksDB, none⟩) Job.initial
      (atKey "order-1" Job.initial [finished1, redelivered1]) :=
    isRun_atKey "order-1" [finished1, redelivered1] Job.initial
      ⟨.element rfl rfl, .element rfl rfl, trivial⟩
  have hmem : ∀ s : Snapshot, s.toOrderState ∈ deliveries "order-1"
      (atKey "order-1" (Function.update Job.initial "order-1" finished1.target) [redelivered1]) →
        s = older1 := fun s hs => Snapshot.toOrderState_injective (List.mem_singleton.mp hs)
  refine (@finished_iff .rocksDB [] _ _ _ _ _ _ _ hrun rfl (by decide) fun s hs => ?_).mpr
    (fun s hs htie => ?_) _ List.prefix_rfl
  · rw [hmem s hs]
    decide
  · rw [hmem s hs] at htie
    exact absurd htie (by decide)

end DelayedOrderSms
