import DelayedOrderSms.Arrival.Latest
import DelayedOrderSms.Processor.Backends
import DelayedOrderSms.Processor.Coherence
import DelayedOrderSms.Systems.Insertion

/-!
# Redelivery is invisible

A message that is delivered again meets an order that has moved on: its snapshot may have been
superseded, the order may be finished, notified or waiting at its timer.  In each case the repeat
changes nothing that can be seen, provided the timers that are due have fired before it.

* `Delivered.repeated` — a repeated snapshot is a no-op, in each shape an order can have.
* `TrackedStep.congr` — without expiry a step depends on the stored value and the timers only.
* `Mirrors` — the state of a run with repeats next to the state of the run without them.
* `redelivery_invisible` — what follows for whole runs, by `Inserts.mirror`.
-/

namespace DelayedOrderSms

open Java Flink Systems

/-- The same value and the same timers; the time of the last update may differ. -/
def SameStored {V : Type} (slot slot' : Slot V) : Prop :=
  slot'.kept = slot.kept ∧ slot'.timers = slot.timers

section Step

variable {k : String} {slot slot' r r' : Slot Tracked} {e : KeyEvent OrderState}
  {fx fx' : List Effect}

lemma Delivered.congr {now : Long} {s : Snapshot} (h : Delivered none now s slot fx r)
    (ha : SameStored slot slot') : ∃ r', Delivered none now s slot' fx r' ∧ SameStored r r' := by
  obtain ⟨hkept, htimers⟩ := ha
  have hvalue : slot.value none now = slot'.value none now := by simp [hkept]
  cases h with
  | stale hv hlt => exact ⟨slot', .stale (hvalue ▸ hv) hlt, hkept, htimers⟩
  | terminal hf ha =>
      rw [hvalue, ← htimers]
      exact ⟨_, .terminal (hvalue ▸ hf) ha, rfl, rfl⟩
  | silent hf ha hn =>
      rw [hvalue, ← htimers]
      exact ⟨_, .silent (hvalue ▸ hf) ha (hvalue ▸ hn), rfl, rfl⟩
  | due hf ha hn hfit hle =>
      rw [hvalue, ← htimers]
      exact ⟨_, .due (hvalue ▸ hf) ha (hvalue ▸ hn) hfit hle, rfl, rfl⟩
  | pending hf ha hn htime hlt =>
      rw [hvalue, ← htimers]
      exact ⟨_, .pending (hvalue ▸ hf) ha (hvalue ▸ hn) htime hlt, rfl, rfl⟩

lemma Fired.congr {now ts : Long} (h : Fired none now ts slot fx r) (ha : SameStored slot slot') :
    ∃ r', Fired none now ts slot' fx r' ∧ SameStored r r' := by
  obtain ⟨hkept, htimers⟩ := ha
  have hvalue : slot.value none now = slot'.value none now := by simp [hkept]
  cases h with
  | idle hguard =>
      rw [hvalue] at hguard
      exact ⟨slot', .idle hguard, hkept, htimers⟩
  | notify hv ha he hfit hle =>
      rw [← htimers]
      exact ⟨_, .notify (hvalue ▸ hv) ha he hfit hle, rfl, rfl⟩

/-- Without expiry a step depends on the stored value and the timers only. -/
lemma TrackedStep.congr (h : TrackedStep none k slot e fx r) (ha : SameStored slot slot') :
    ∃ r', TrackedStep none k slot' e fx r' ∧ SameStored r r' := by
  cases h with
  | invalid hid hinvalid => exact ⟨slot', .invalid hid hinvalid, ha⟩
  | delivered hid hd =>
      obtain ⟨r', hd', hr⟩ := hd.congr ha
      exact ⟨r', .delivered hid hd', hr⟩
  | @fired _ now wall ts _ hts hdue hf =>
      have hpop : SameStored (slot.pop ts) (slot'.pop ts) := by
        refine ⟨by simpa using ha.1, ?_⟩
        rw [Slot.pop_timers, Slot.pop_timers, ha.2]
      obtain ⟨r', hf', hr⟩ := hf.congr hpop
      exact ⟨r', .fired (ha.2 ▸ hts) hdue hf', hr⟩

/-- One step of an order is determined by the event. -/
lemma trackedStep_deterministic (ttl : Option ℕ) (k : String) :
    Deterministic (TrackedStep ttl k) := by
  intro s e fx t fx' t' h h'
  have hstep := (keyStep_embeds ⟨.rocksDB, ttl⟩ k s e fx _).mpr ⟨t, h, rfl⟩
  have hstep' := (keyStep_embeds ⟨.rocksDB, ttl⟩ k s e fx' _).mpr ⟨t', h', rfl⟩
  obtain ⟨hfx, ht⟩ := keyStep_deterministic _ k _ _ _ _ _ _ hstep hstep'
  exact ⟨hfx, Slot.map_injective Tracked.toDelayState_injective ht⟩

/-- The same event from alike slots: the same outputs, and alike slots again. -/
lemma TrackedStep.sameStored (h : TrackedStep none k slot e fx r)
    (h' : TrackedStep none k slot' e fx' r') (ha : SameStored slot slot') : fx' = fx ∧ SameStored r r' := by
  obtain ⟨r'', hcongr, hr⟩ := h.congr ha
  obtain ⟨rfl, rfl⟩ := trackedStep_deterministic none k _ _ _ _ _ _ h' hcongr
  exact ⟨rfl, hr⟩

/-- A repeat that is not stale is the stored snapshot itself. -/
lemma eq_of_fresh {s : Snapshot} {ss : List Snapshot} {t : Tracked}
    (hnewest : snapshotOf slot = newest Snapshot.lastUpdatedAt none ss) (hs : s ∈ ss)
    (hdistinct : DistinctUpdates ss) (hf : Fresh s slot.kept) (ht : slot.kept = some t) :
    s = t.snapshot := by
  have hsome : newest Snapshot.lastUpdatedAt none ss = some t.snapshot := by
    rw [← hnewest, snapshotOf, ht]
    rfl
  have hle : s.lastUpdatedAt ≤ t.snapshot.lastUpdatedAt := le_of_mem_newest _ hsome hs
  have hmem : t.snapshot ∈ ss := mem_of_mem_newest _ hsome
  exact hdistinct s hs _ hmem (le_antisymm hle (not_lt.mp (hf t ht)))

/-- **A repeated snapshot is a no-op.**  If it is among those an order has seen, and no timer of
the order is due, then it changes neither what is stored nor the timers and emits no command. -/
theorem Delivered.repeated {now : Long} {s : Snapshot} {ss : List Snapshot}
    (h : Delivered none now s slot fx r) (hc : Coherent slot)
    (hnewest : snapshotOf slot = newest Snapshot.lastUpdatedAt none ss) (hs : s ∈ ss)
    (hdistinct : DistinctUpdates ss) (hprompt : ∀ ts ∈ slot.timers, now < ts) :
    commands fx = [] ∧ SameStored slot r := by
  have hself : Fresh s slot.kept → ∀ t, slot.kept = some t → s = t.snapshot :=
    fun hf t ht => eq_of_fresh hnewest hs hdistinct hf ht
  cases hc with
  | nothing =>
      -- Something has arrived, so something is stored.
      obtain rfl := (newest_spec Snapshot.lastUpdatedAt ss).1.mp hnewest.symm
      exact absurd hs List.not_mem_nil
  | @settled u b w hb =>
      cases h with
      | stale => exact ⟨rfl, rfl, rfl⟩
      | terminal hf =>
          obtain rfl := hself (by simpa using hf) _ rfl
          exact ⟨rfl, rfl, rfl⟩
      | silent hf _ hn =>
          obtain rfl := hself (by simpa using hf) _ rfl
          obtain rfl : b = true := by simpa using hn
          exact ⟨rfl, rfl, rfl⟩
      | due hf ha hn =>
          obtain rfl := hself (by simpa using hf) _ rfl
          obtain rfl : b = false := by simpa using hn
          exact absurd (hb ha) (by decide)
      | pending hf ha hn =>
          obtain rfl := hself (by simpa using hf) _ rfl
          obtain rfl : b = false := by simpa using hn
          exact absurd (hb ha) (by decide)
  | @waiting u w time ha heta =>
      cases h with
      | stale => exact ⟨rfl, rfl, rfl⟩
      | terminal hf hdone =>
          obtain rfl := hself (by simpa using hf) _ rfl
          exact absurd ha hdone
      | silent _ _ hn => exact absurd hn (by simp)
      | due hf _ _ _ hle =>
          obtain rfl := hself (by simpa using hf) _ rfl
          have hlt : now.val < time.val := hprompt time (by simp)
          omega
      | @pending time' hf _ _ htime =>
          obtain rfl := hself (by simpa using hf) _ rfl
          obtain rfl : time' = time := Subtype.ext (by omega)
          exact ⟨rfl, by simp [SameStored, moveTimer]⟩

/-- A repeated snapshot never makes `processElement` throw. -/
lemma delivered_of_repeated {s : Snapshot} {ss : List Snapshot} (now : Long) (hc : Coherent slot)
    (hnewest : snapshotOf slot = newest Snapshot.lastUpdatedAt none ss) (hs : s ∈ ss)
    (hdistinct : DistinctUpdates ss) : ∃ fx r, Delivered none now s slot fx r := by
  rcases delivered_or_overflows none now s slot with hd | ⟨hf, ha, hn, hfit⟩
  · exact hd
  · rw [Slot.value_none] at hf hn
    cases hc with
    | nothing =>
        obtain rfl := (newest_spec Snapshot.lastUpdatedAt ss).1.mp hnewest.symm
        exact absurd hs List.not_mem_nil
    | settled hb =>
        obtain rfl := eq_of_fresh hnewest hs hdistinct hf rfl
        rw [kept_wrote, notified_some, hb ha] at hn
        exact absurd hn (by simp)
    | @waiting u w time _ heta =>
        -- Its timer is registered, so its expected delivery time fits.
        have hself : s = u := eq_of_fresh hnewest hs hdistinct hf rfl
        have hlong : IsLong s.etaMs := by
          rw [hself, heta]
          exact time.property
        exact absurd hlong hfit

/-- The same of any message, valid or not. -/
lemma TrackedStep.repeated {now : Long} {wall : Instant} {o : OrderState} {ss : List Snapshot}
    (h : TrackedStep none k slot (.element now wall o) fx r) (hc : Coherent slot)
    (hnewest : snapshotOf slot = newest Snapshot.lastUpdatedAt none ss)
    (hs : ∀ s ∈ Snapshot.of? o, s ∈ ss) (hdistinct : DistinctUpdates ss)
    (hprompt : ∀ ts ∈ slot.timers, now < ts) : commands fx = [] ∧ SameStored slot r := by
  cases h with
  | invalid => exact ⟨rfl, rfl, rfl⟩
  | delivered _ hd => exact hd.repeated hc hnewest (hs _ rfl) hdistinct hprompt

end Step

/-! ## Runs with repeats -/

/-- The snapshot of the order `k` that an event of the job delivers. -/
def snapshotAt (k : String) (l : String × KeyEvent OrderState) : Option Snapshot :=
  if l.1 = k then l.2.incoming?.bind Snapshot.of? else none

lemma arrived_project (k : String) (run : List (Entry Job (String × KeyEvent OrderState) Effect)) :
    arrived (project k run) = (run.map Entry.label).filterMap (snapshotAt k) := by
  induction run with
  | nil => rfl
  | cons e run ih =>
      by_cases hk : e.label.1 = k
      · rw [project_cons_same hk, List.map_cons, List.filterMap_cons, ← ih, snapshotAt, if_pos hk]
        cases h : e.label.2.incoming? with
        | none => simp [arrived, h]
        | some o => cases h' : Snapshot.of? o <;> simp [arrived, h, h']
      · rw [project_cons_other hk, ih, List.map_cons, List.filterMap_cons, snapshotAt, if_neg hk]

/-- The event delivers again, at whatever time, a message that has been delivered before. -/
inductive Redelivery (seen : List (String × KeyEvent OrderState)) :
    String × KeyEvent OrderState → Prop
  | again {k : String} {now now' : Long} {wall wall' : Instant} {o : OrderState} :
      (k, .element now' wall' o) ∈ seen → Redelivery seen (k, .element now wall o)

/-- When an element is processed no timer of its order is due. -/
def Prompt (j : Job) : String × KeyEvent OrderState → Prop
  | (k, .element now _ _) => ∀ ts ∈ (j k).timers, now < ts
  | (_, .timer _ _ _) => True

/-- What the orders store in a run (`slots`) and in one with repeats (`slots'`), which has made the
steps `seen`. -/
structure Mirrors (seen : List (String × KeyEvent OrderState)) (slots slots' : String → Slot Tracked) :
    Prop where
  alike : ∀ k, SameStored (slots k) (slots' k)
  coherent : ∀ k, Coherent (slots' k)
  newest : ∀ k, snapshotOf (slots' k) =
    newest Snapshot.lastUpdatedAt none (seen.filterMap (snapshotAt k))

lemma mirrors_initial : Mirrors [] (fun _ => Slot.empty) (fun _ => Slot.empty) where
  alike := fun _ => ⟨rfl, rfl⟩
  coherent := fun _ => .nothing
  newest := fun _ => rfl

/-- The orders of the job, each with its tracked steps. -/
abbrev OrdersStep : (String → Slot Tracked) → String × KeyEvent OrderState → List Effect →
    (String → Slot Tracked) → Prop := KeyedStep (TrackedStep none)

section Mirrors

variable {seen : List (String × KeyEvent OrderState)} {l : String × KeyEvent OrderState}
  {slots slots' r r' : String → Slot Tracked} {fx fx' : List Effect}

/-- Whatever the longer run does, it stays coherent and stores the newest snapshot. -/
lemma Mirrors.of_alike (h : Mirrors seen slots slots') (hs' : OrdersStep slots' l fx' r')
    (halike : ∀ k, SameStored (r k) (r' k)) : Mirrors (seen ++ [l]) r r' where
  alike := halike
  coherent := by
    intro k
    by_cases hk : k = l.1
    · subst hk
      exact (h.coherent _).step hs'.at_same
    · rw [hs'.at_other hk]
      exact h.coherent k
  newest := by
    intro k
    rw [List.filterMap_append]
    by_cases hk : k = l.1
    · subst hk
      rw [hs'.at_same.kept_newer, h.newest]
      cases hsnap : l.2.incoming?.bind Snapshot.of? with
      | none => simp [snapshotAt, hsnap]
      | some s => simp [snapshotAt, hsnap]
    · rw [hs'.at_other hk, h.newest]
      simp [snapshotAt, Ne.symm hk]

/-- A common step. -/
lemma Mirrors.keep (h : Mirrors seen slots slots') (hs : OrdersStep slots l fx r)
    (hs' : OrdersStep slots' l fx' r') : Mirrors (seen ++ [l]) r r' ∧ fx' = fx := by
  obtain ⟨hfx, halike⟩ := hs.at_same.sameStored hs'.at_same (h.alike l.1)
  refine ⟨h.of_alike hs' fun k => ?_, hfx⟩
  by_cases hk : k = l.1
  · rw [hk]
    exact halike
  · rw [hs.at_other hk, hs'.at_other hk]
    exact h.alike k

/-- A repeat. -/
lemma Mirrors.skip (h : Mirrors seen slots slots')
    (hdistinct : ∀ k, DistinctUpdates (seen.filterMap (snapshotAt k)))
    (hre : Redelivery seen l) (hprompt : Prompt (mapKeys (Slot.map Tracked.toDelayState) slots') l)
    (hs' : OrdersStep slots' l fx' r') : Mirrors (seen ++ [l]) slots r' ∧ commands fx' = [] := by
  obtain ⟨k, e⟩ := l
  cases hre with
  | @again _ now now' wall wall' o hseen =>
      have hnoop : commands fx' = [] ∧ SameStored (slots' k) (r' k) := by
        refine hs'.at_same.repeated (h.coherent k) (h.newest k) (fun s hs => ?_) (hdistinct k)
          fun ts hts => hprompt ts (by simpa using hts)
        exact List.mem_filterMap.mpr ⟨_, hseen, by simpa [snapshotAt, KeyEvent.incoming?] using hs⟩
      refine ⟨h.of_alike hs' fun k' => ?_, hnoop.1⟩
      by_cases hk : k' = k
      · rw [hk]
        exact ⟨hnoop.2.1.trans (h.alike k).1, hnoop.2.2.trans (h.alike k).2⟩
      · rw [hs'.at_other hk]
        exact h.alike k'

/-- A repeat of a message that was processed under its key can be processed. -/
lemma Mirrors.repeat_enabled (h : Mirrors seen slots slots') {backend : Backend}
    (hdistinct : ∀ k, DistinctUpdates (seen.filterMap (snapshotAt k))) (hre : Redelivery seen l)
    (hkey : ∀ {k now wall o}, (k, KeyEvent.element now wall o) ∈ seen → o.orderId = some k) :
    ∃ fx j, JobStep ⟨backend, none⟩ (mapKeys (Slot.map Tracked.toDelayState) slots') l fx j := by
  cases hre with
  | @again k now now' wall wall' o hseen =>
      cases hvalid : isValid o with
      | false => exact ⟨_, _, .at_key (.element (hkey hseen) (processElement_invalid hvalid _))⟩
      | true =>
          obtain ⟨s, rfl⟩ := isValid_iff.mp hvalid
          have hmem : s ∈ seen.filterMap (snapshotAt k) :=
            List.mem_filterMap.mpr ⟨_, hseen, by simp [snapshotAt, KeyEvent.incoming?]⟩
          obtain ⟨fx, r, hd⟩ :=
            delivered_of_repeated now (h.coherent k) (h.newest k) hmem (hdistinct k)
          have hid : s.orderId = k := Option.some.inj (hkey hseen)
          exact ⟨fx, _, .at_key
            ((keyStep_embeds ⟨backend, none⟩ k _ _ _ _).mpr ⟨r, .delivered hid hd, rfl⟩)⟩

end Mirrors

lemma DistinctUpdates.mono {ss ss' : List Snapshot} (h : DistinctUpdates ss)
    (hsub : ∀ s ∈ ss', s ∈ ss) : DistinctUpdates ss' :=
  fun s hs s' hs' => h s (hsub s hs) s' (hsub s' hs')

lemma mem_snapshots_of_redelivery {seen : List (String × KeyEvent OrderState)}
    {l : String × KeyEvent OrderState} {k : String} {s : Snapshot} (h : Redelivery seen l)
    (hs : snapshotAt k l = some s) : s ∈ seen.filterMap (snapshotAt k) := by
  cases h with
  | again hseen => exact List.mem_filterMap.mpr ⟨_, hseen, hs⟩

/-- Repeats bring no new snapshots, so they leave the snapshots distinct. -/
lemma distinct_of_inserts {ls ls' : List (String × KeyEvent OrderState)}
    (h : Inserts Redelivery [] ls ls') {k : String}
    (hdistinct : DistinctUpdates (ls.filterMap (snapshotAt k))) :
    DistinctUpdates (ls'.filterMap (snapshotAt k)) :=
  hdistinct.mono (h.mem_of_mem mem_snapshots_of_redelivery)

/-- An element is processed under its key. -/
lemma orderId_of_mem {config : StateConfig} {j : Job}
    {run : List (Entry Job (String × KeyEvent OrderState) Effect)}
    (h : IsRun (JobStep config) j run) {k : String} {now : Long} {wall : Instant} {o : OrderState}
    (hmem : (k, KeyEvent.element now wall o) ∈ run.map Entry.label) : o.orderId = some k := by
  obtain ⟨e, he, hlabel⟩ := List.mem_map.mp hmem
  obtain ⟨before, after, rfl⟩ := List.append_of_mem he
  have hstep := (isRun_append.mp h).2.1
  rw [hlabel] at hstep
  cases hstep.at_same with
  | element hkey => exact hkey

section Runs

variable {backend : Backend} {run run' : List (Entry Job (String × KeyEvent OrderState) Effect)}

/-- **Redelivery is invisible.**  Take a run, and a run on the same events with any messages
delivered again at any later points, any number of times.  If different snapshots of an order have
different `lastUpdatedAt`, and no timer of an order is due when one of its elements is processed,
then the two runs collect the same commands, with the same times on them, and store the same
values and timers for every order; and no further repeat would make the job fail. -/
theorem redelivery_invisible (h : IsRun (JobStep ⟨backend, none⟩) Job.initial run)
    (h' : IsRun (JobStep ⟨backend, none⟩) Job.initial run')
    (hinserts : Inserts Redelivery [] (run.map Entry.label) (run'.map Entry.label))
    (hdistinct : ∀ k, DistinctUpdates (arrived (project k run)))
    (hprompt : ∀ p ∈ transitions Job.initial run', Prompt p.1 p.2.label) :
    commands (outputs run') = commands (outputs run) ∧
      (∀ k, SameStored (final Job.initial run k) (final Job.initial run' k)) ∧
      ∀ l, Redelivery (run'.map Entry.label) l →
        ∃ fx j, JobStep ⟨backend, none⟩ (final Job.initial run') l fx j := by
  have hembeds := jobStep_embeds ⟨backend, none⟩
  have hstart : Job.initial =
      mapKeys (Slot.map Tracked.toDelayState) fun _ : String => Slot.empty := rfl
  rw [hstart] at h h' hprompt ⊢
  obtain ⟨orun, horun, rfl, hout, hend⟩ := hembeds.pullback h
  obtain ⟨orun', horun', rfl, hout', hend'⟩ := hembeds.pullback h'
  rw [labels_map, labels_map] at hinserts
  have hall : ∀ k, DistinctUpdates ((orun'.map Entry.label).filterMap (snapshotAt k)) := by
    intro k
    have hk := hdistinct k
    rw [arrived_project, labels_map] at hk
    exact distinct_of_inserts hinserts hk
  have hcond : ∀ x ∈ transitions (fun _ => Slot.empty) orun',
      Prompt (mapKeys (Slot.map Tracked.toDelayState) x.1) x.2.label := by
    intro x hx
    have hmap := transitions_map (mapKeys (Slot.map Tracked.toDelayState))
      (fun _ : String => (Slot.empty : Slot Tracked)) orun'
    exact hprompt _ (hmap ▸ List.mem_map_of_mem hx)
  obtain ⟨hmirrors, hcommands⟩ := @Inserts.mirror _ _ _ _ OrdersStep Redelivery Mirrors
    (fun ls => ∀ k, DistinctUpdates (ls.filterMap (snapshotAt k)))
    (fun slots l => Prompt (mapKeys (Slot.map Tracked.toDelayState) slots) l) Effect.command?
    (fun hok k => (hok k).mono fun s hs => by
      rw [List.filterMap_append]
      exact List.mem_append_left _ hs)
    (fun hrel hs hs' => by
      obtain ⟨hrel', rfl⟩ := hrel.keep hs hs'
      exact ⟨hrel', rfl⟩)
    (fun hok hrel hre hpr hs' => hrel.skip hok hre hpr hs') _ _ _ hinserts orun orun' _ _ rfl rfl
    hall mirrors_initial horun horun' hcond
  refine ⟨by rw [hout, hout']; exact hcommands, ?_, ?_⟩
  · intro k
    have halike := hmirrors.alike k
    rw [hend, hend', mapKeys_apply, mapKeys_apply]
    exact ⟨by rw [Slot.map_kept, Slot.map_kept, halike.1], halike.2⟩
  · intro l hre
    rw [labels_map] at hre
    rw [hend']
    exact hmirrors.repeat_enabled hall hre fun hmem => orderId_of_mem h' (by rwa [labels_map])

end Runs

/-! Order 1, delivered again while it waits and once more after its timer has fired. -/

def repeated : List (Entry (Slot OrderDelayState) (KeyEvent OrderState) Effect) :=
  [accepted1,
   ⟨.element (.of 1000) (.ofEpochMilli (.of 0)) order1.toOrderState, [],
    (wrote ⟨order1, false, some (.of 600000)⟩ (.of 1000) {.of 600000}).map Tracked.toDelayState⟩,
   fired1,
   ⟨.element (.of 602000) (.ofEpochMilli (.of 0)) order1.toOrderState, [],
    (wrote ⟨order1, true, none⟩ (.of 602000) ∅).map Tracked.toDelayState⟩]

lemma isRun_repeated :
    IsRun (JobStep ⟨.rocksDB, none⟩) Job.initial (atKey "order-1" Job.initial repeated) :=
  isRun_atKey "order-1" repeated Job.initial
    ⟨.element rfl rfl, .element rfl rfl, .timer (by decide) (by decide) rfl, .element rfl rfl,
      trivial⟩

lemma distinct_lateTimer (k : String) : DistinctUpdates (arrived (project k lateTimer)) := by
  rw [arrived_project]
  by_cases hk : k = "order-1"
  · subst hk
    show DistinctUpdates [order1]
    decide
  · have hnone : (lateTimer.map Entry.label).filterMap (snapshotAt k) = [] := by
      simp [lateTimer, atKey, snapshotAt, Ne.symm hk]
    rw [hnone]
    decide

lemma prompt_repeated : ∀ p ∈ transitions Job.initial (atKey "order-1" Job.initial repeated),
    Prompt p.1 p.2.label := by
  refine List.forall_mem_cons.mpr ⟨?_, List.forall_mem_cons.mpr ⟨?_, List.forall_mem_cons.mpr
    ⟨trivial, List.forall_mem_singleton.mpr ?_⟩⟩⟩
  · show ∀ ts ∈ (∅ : Finset Long), Long.of 0 < ts
    decide
  · show ∀ ts ∈ ({.of 600000} : Finset Long), Long.of 1000 < ts
    decide
  · show ∀ ts ∈ (∅ : Finset Long), Long.of 602000 < ts
    decide

/-- The repeats leave the one command of the order and what is stored of it as they were. -/
theorem redelivery_invisible_lateTimer :
    commands (outputs (atKey "order-1" Job.initial repeated)) = commands (outputs lateTimer) ∧
      SameStored (final Job.initial lateTimer "order-1")
        (final Job.initial (atKey "order-1" Job.initial repeated) "order-1") := by
  have hinserts : Inserts Redelivery [] (lateTimer.map Entry.label)
      ((atKey "order-1" Job.initial repeated).map Entry.label) :=
    .keep (.insert (.again List.mem_cons_self)
      (.keep (.insert (.again List.mem_cons_self) .nil)))
  have hsame := redelivery_invisible isRun_lateTimer isRun_repeated hinserts distinct_lateTimer
    prompt_repeated
  exact ⟨hsame.1, hsame.2.1 "order-1"⟩

end DelayedOrderSms
