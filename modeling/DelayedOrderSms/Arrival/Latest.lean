import DelayedOrderSms.Processor.History
import DelayedOrderSms.Systems.Newest

/-!
# What is stored is the newest snapshot

Without state expiry the operator is a newest-wins register: whatever order the snapshots of an
order arrive in, at whatever times and with whatever timers in between, what is stored of them is
the last arrival among those of the largest `lastUpdatedAt`.

* `Delivered.kept_newer`, `TrackedStep.kept_newer` — one step is one arrival at the register.
* `kept_newest` — a run is a list of them.
* `stored_newest` — what that says about the classes of the job, and about two runs on the same
  snapshots in different orders.
-/

namespace DelayedOrderSms

open Java Flink Systems

/-- The valid snapshots a run of one order delivers, in the order of their arrival. -/
def arrived {σ : Type} (run : List (Entry σ (KeyEvent OrderState) Effect)) : List Snapshot :=
  (run.filterMap (·.label.incoming?)).filterMap Snapshot.of?

/-- The snapshot that is kept. -/
def snapshotOf (slot : Slot Tracked) : Option Snapshot := slot.kept.map (·.snapshot)

@[simp] lemma snapshotOf_wrote (t : Tracked) (now : Long) (T : Finset Long) :
    snapshotOf (wrote t now T) = some t.snapshot := rfl

@[simp] lemma snapshotOf_pop (slot : Slot Tracked) (ts : Long) :
    snapshotOf (slot.pop ts) = snapshotOf slot := rfl

/-- Which of two snapshots is kept: the newer one. -/
abbrev newerSnapshot (known : Option Snapshot) (s : Snapshot) : Snapshot :=
  newer Snapshot.lastUpdatedAt known s

section Step

variable {k : String} {slot slot' : Slot Tracked} {e : KeyEvent OrderState} {fx : List Effect}

lemma newerSnapshot_of_fresh {s : Snapshot} (h : Fresh s slot.kept) :
    newerSnapshot (snapshotOf slot) s = s := by
  refine newer_of_le _ fun b hb => ?_
  obtain ⟨t, ht, rfl⟩ := Option.map_eq_some_iff.mp hb
  exact h t ht

/-- One arrival. -/
lemma Delivered.kept_newer {now : Long} {s : Snapshot} (h : Delivered none now s slot fx slot') :
    snapshotOf slot' = some (newerSnapshot (snapshotOf slot) s) := by
  cases h with
  | stale hv hlt =>
      rw [Slot.value_none] at hv
      simp [snapshotOf, hv, newer, hlt]
  | terminal hf =>
      rw [Slot.value_none] at hf
      rw [snapshotOf_wrote, newerSnapshot_of_fresh hf]
  | silent hf =>
      rw [Slot.value_none] at hf
      rw [snapshotOf_wrote, newerSnapshot_of_fresh hf]
  | due hf =>
      rw [Slot.value_none] at hf
      rw [snapshotOf_wrote, newerSnapshot_of_fresh hf]
  | pending hf =>
      rw [Slot.value_none] at hf
      rw [snapshotOf_wrote, newerSnapshot_of_fresh hf]

/-- Timers do not touch the snapshot. -/
lemma Fired.snapshotOf_eq {now ts : Long} (h : Fired none now ts slot fx slot') :
    snapshotOf slot' = snapshotOf slot := by
  cases h with
  | idle => rfl
  | notify hv =>
      rw [Slot.value_none] at hv
      rw [snapshotOf_wrote, snapshotOf, hv]
      rfl

/-- **One step is one arrival at the register**, or none. -/
theorem TrackedStep.kept_newer (h : TrackedStep none k slot e fx slot') :
    snapshotOf slot' = match e.incoming?.bind Snapshot.of? with
      | none => snapshotOf slot
      | some s => some (newerSnapshot (snapshotOf slot) s) := by
  cases h with
  | invalid _ hinvalid => simp [KeyEvent.incoming?, Snapshot.of?_of_invalid hinvalid]
  | delivered _ hd => simp [KeyEvent.incoming?, hd.kept_newer]
  | fired _ _ hf => simp [KeyEvent.incoming?, hf.snapshotOf_eq]

end Step

lemma arrived_concat {σ : Type} (run : List (Entry σ (KeyEvent OrderState) Effect))
    (e : Entry σ (KeyEvent OrderState) Effect) :
    arrived (run ++ [e]) = arrived run ++ (e.label.incoming?.bind Snapshot.of?).toList := by
  cases h : e.label.incoming? with
  | none => simp [arrived, h]
  | some o => cases h' : Snapshot.of? o <;> simp [arrived, h, h']

lemma arrived_append {σ : Type} (r₁ r₂ : List (Entry σ (KeyEvent OrderState) Effect)) :
    arrived (r₁ ++ r₂) = arrived r₁ ++ arrived r₂ := by
  simp [arrived]

lemma arrived_map {σ τ : Type} (f : σ → τ) (run : List (Entry σ (KeyEvent OrderState) Effect)) :
    arrived (run.map (Entry.map f)) = arrived run := by
  simp [arrived, List.filterMap_map, Function.comp_def, Entry.map]

/-- **A run is a list of arrivals at the register.** -/
theorem kept_newest {k : String} {trun : List (Entry (Slot Tracked) (KeyEvent OrderState) Effect)}
    (h : IsRun (TrackedStep none k) Slot.empty trun) :
    snapshotOf (final Slot.empty trun) =
      newest Snapshot.lastUpdatedAt none (arrived trun) := by
  refine IsRun.history_induction
    (P := fun run slot => snapshotOf slot = newest Snapshot.lastUpdatedAt none (arrived run))
    rfl ?_ trun h
  intro run slot e _ _ ih hstep
  rw [hstep.kept_newer, arrived_concat]
  cases e.label.incoming?.bind Snapshot.of? with
  | none => simpa using ih
  | some s => simp only [ih, Option.toList_some, newest_concat]

/-! ## On the classes of the job -/

/-- The state holds the fields of the snapshot. -/
structure Stores (current : OrderDelayState) (s : Snapshot) : Prop where
  orderId : current.orderId = some s.orderId
  customerId : current.customerId = s.customerId
  storeId : current.storeId = s.storeId
  currentStatus : current.currentStatus = some s.status
  expectedDeliveryTime : current.expectedDeliveryTime = some s.expectedDeliveryTime
  lastUpdatedAt : current.lastUpdatedAt = some s.lastUpdatedAt

lemma stores_toDelayState {t : Tracked} {s : Snapshot} :
    Stores t.toDelayState s ↔ t.snapshot = s := by
  constructor
  · rintro ⟨horder, hcustomer, hstore, hstatus, heta, hupdated⟩
    rcases t with ⟨⟨o, c, r, st, e, u⟩, b, m⟩
    rcases s with ⟨o', c', r', st', e', u'⟩
    obtain rfl : o = o' := Option.some.inj horder
    obtain rfl : c = c' := hcustomer
    obtain rfl : r = r' := hstore
    obtain rfl : st = st' := Option.some.inj hstatus
    obtain rfl : e = e' := Option.some.inj heta
    obtain rfl : u = u' := Option.some.inj hupdated
    rfl
  · rintro rfl
    exact ⟨rfl, rfl, rfl, rfl, rfl, rfl⟩

/-- Different snapshots have different `lastUpdatedAt`. -/
def DistinctUpdates (ss : List Snapshot) : Prop :=
  ∀ s ∈ ss, ∀ s' ∈ ss, s.lastUpdatedAt = s'.lastUpdatedAt → s = s'

instance (ss : List Snapshot) : Decidable (DistinctUpdates ss) :=
  inferInstanceAs (Decidable (∀ s ∈ ss, ∀ s' ∈ ss, s.lastUpdatedAt = s'.lastUpdatedAt → s = s'))

section Runs

variable {backend : Backend} {run : List (Entry Job (String × KeyEvent OrderState) Effect)}

/-- What the job stores of an order, as the register has it. -/
lemma exists_kept (h : IsRun (JobStep ⟨backend, none⟩) Job.initial run) (k : String) :
    ∃ slot : Slot Tracked, final Job.initial run k = slot.map Tracked.toDelayState ∧
      snapshotOf slot = newest Snapshot.lastUpdatedAt none (arrived (project k run)) := by
  obtain ⟨trun, htrun, hproj, hend⟩ := tracked_run h k
  exact ⟨_, hend, by rw [kept_newest htrun, hproj, arrived_map]⟩

/-- Whether a snapshot is stored. -/
lemma stored_iff {k : String} {slot : Slot Tracked}
    (hend : final Job.initial run k = slot.map Tracked.toDelayState) (s : Snapshot) :
    (∃ current ∈ (final Job.initial run k).kept, Stores current s) ↔ snapshotOf slot = some s := by
  rw [hend, Slot.map_kept, snapshotOf]
  cases slot.kept with
  | none => simp
  | some t => simp [stores_toDelayState]

/-- **The stored snapshot is the newest one seen.**  Of an order of which nothing valid has arrived
nothing is stored; otherwise all stored fields are those of one snapshot, the last arrival among
those of the largest `lastUpdatedAt`.  The stored `lastUpdatedAt` never decreases along a run, and
any other run — on any backend, with any timers and commands — to which the same snapshots arrive
in another order stores the same one, if different snapshots have different `lastUpdatedAt`. -/
theorem stored_newest (h : IsRun (JobStep ⟨backend, none⟩) Job.initial run) (k : String) :
    ((final Job.initial run k).kept = none ↔ arrived (project k run) = []) ∧
      (∀ current ∈ (final Job.initial run k).kept, ∃ s,
        LastOfNewest Snapshot.lastUpdatedAt (arrived (project k run)) s ∧ Stores current s) ∧
      (∀ r, r <+: run → ∀ earlier ∈ (final Job.initial r k).kept,
        ∃ current ∈ (final Job.initial run k).kept, ∃ u ∈ earlier.lastUpdatedAt,
          ∃ u' ∈ current.lastUpdatedAt, u ≤ u') ∧
      (DistinctUpdates (arrived (project k run)) → ∀ backend' run',
        IsRun (JobStep ⟨backend', none⟩) Job.initial run' →
        (arrived (project k run)).Perm (arrived (project k run')) →
        ∀ s, (∃ current ∈ (final Job.initial run k).kept, Stores current s) ↔
          ∃ current ∈ (final Job.initial run' k).kept, Stores current s) := by
  obtain ⟨slot, hend, hkept⟩ := exists_kept h k
  have hspec := newest_spec Snapshot.lastUpdatedAt (arrived (project k run))
  refine ⟨?_, ?_, ?_, ?_⟩
  · rw [← hspec.1, ← hkept, hend, Slot.map_kept, snapshotOf, Option.map_eq_none_iff,
      Option.map_eq_none_iff]
  · intro current hcurrent
    rw [hend, Slot.map_kept] at hcurrent
    obtain ⟨t, ht, rfl⟩ := Option.map_eq_some_iff.mp hcurrent
    have hsnapshot : snapshotOf slot = some t.snapshot := by rw [snapshotOf, ht]; rfl
    rw [hkept] at hsnapshot
    exact ⟨t.snapshot, hspec.2 _ hsnapshot, stores_toDelayState.mpr rfl⟩
  · intro r hr earlier hearlier
    obtain ⟨slotr, hendr, hkeptr⟩ := exists_kept (h.of_isPrefix hr) k
    rw [hendr, Slot.map_kept] at hearlier
    obtain ⟨t, ht, rfl⟩ := Option.map_eq_some_iff.mp hearlier
    have hsnapshot : snapshotOf slotr = some t.snapshot := by rw [snapshotOf, ht]; rfl
    rw [hkeptr] at hsnapshot
    obtain ⟨rest, hrest⟩ := project_isPrefix (k := k) hr
    have hmono := @newest_mono _ _ _ Snapshot.lastUpdatedAt _ _ (arrived rest) _ hsnapshot
    rw [← arrived_append, hrest, ← hkept] at hmono
    obtain ⟨s, hs, hle⟩ := hmono
    obtain ⟨current, hcurrent, hstores⟩ := (stored_iff hend s).mpr hs
    exact ⟨current, hcurrent, _, rfl, _, hstores.lastUpdatedAt, hle⟩
  · intro hdistinct backend' run' h' hperm s
    obtain ⟨slot', hend', hkept'⟩ := exists_kept h' k
    rw [stored_iff hend, stored_iff hend', hkept, hkept', newest_perm _ hperm hdistinct]

end Runs

/-! Order 1 and its later update, in both orders of arrival. -/

/-- The order waits, and its timer is moved. -/
def inOrder : List (Entry (Slot OrderDelayState) (KeyEvent OrderState) Effect) :=
  [accepted1,
   ⟨.element (.of 1000) (.ofEpochMilli (.of 0)) later1.toOrderState, [],
    (wrote ⟨later1, false, some (.of 900000)⟩ (.of 1000) {.of 900000}).map Tracked.toDelayState⟩]

/-- The update comes first, and the order itself is stale. -/
def outOfOrder : List (Entry (Slot OrderDelayState) (KeyEvent OrderState) Effect) :=
  [⟨.element (.of 0) (.ofEpochMilli (.of 0)) later1.toOrderState, [],
    (wrote ⟨later1, false, some (.of 900000)⟩ (.of 0) {.of 900000}).map Tracked.toDelayState⟩,
   ⟨.element (.of 1000) (.ofEpochMilli (.of 0)) order1.toOrderState, [.inc .stale_updates_ignored],
    (wrote ⟨later1, false, some (.of 900000)⟩ (.of 0) {.of 900000}).map Tracked.toDelayState⟩]

lemma isRun_inOrder :
    IsRun (JobStep ⟨.rocksDB, none⟩) Job.initial (atKey "order-1" Job.initial inOrder) :=
  isRun_atKey "order-1" inOrder Job.initial ⟨.element rfl rfl, .element rfl rfl, trivial⟩

lemma isRun_outOfOrder :
    IsRun (JobStep ⟨.heap, none⟩) Job.initial (atKey "order-1" Job.initial outOfOrder) :=
  isRun_atKey "order-1" outOfOrder Job.initial ⟨.element rfl rfl, .element rfl rfl, trivial⟩

/-- Both store the later update. -/
theorem stored_newest_outOfOrder :
    ((∃ current ∈ (final Job.initial (atKey "order-1" Job.initial inOrder) "order-1").kept,
        Stores current later1) ↔
      ∃ current ∈ (final Job.initial (atKey "order-1" Job.initial outOfOrder) "order-1").kept,
        Stores current later1) ∧
      ∃ current ∈ (final Job.initial (atKey "order-1" Job.initial outOfOrder) "order-1").kept,
        Stores current later1 := by
  refine ⟨(stored_newest isRun_inOrder "order-1").2.2.2 ?_ .heap _ isRun_outOfOrder ?_ later1,
    _, rfl, rfl, rfl, rfl, rfl, rfl, rfl⟩
  · show DistinctUpdates [order1, later1]
    decide
  · exact List.Perm.swap later1 order1 []

end DelayedOrderSms
