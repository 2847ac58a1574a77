import DelayedOrderSms.Arrival.Latest

/-!
# The outcome of an order

All snapshots of an order arrive within some time in which none of their expected delivery times
lies.  Then it does not matter when exactly they arrive, when the timer service gets its turn, or
what expires: whether the order is notified is decided by the order of arrival alone.

* `Late` — the expected delivery time of an active snapshot lies before all of that time.
* `Settles` — what is stored of an order and what has been emitted for it, in such a run.
* `outcome_decided` — one command if a late snapshot was ever the newest; none if none was, once
  the newest is that of a finished order.
-/

namespace DelayedOrderSms

open Java Flink Systems

/-- The snapshot is active, and its expected delivery time has come by `start`. -/
def Late (start : ℤ) (s : Snapshot) : Prop := s.Active ∧ s.etaMs ≤ start

instance (start : ℤ) (s : Snapshot) : Decidable (Late start s) :=
  inferInstanceAs (Decidable (_ ∧ _))

/-- Some late snapshot has been the newest. -/
abbrev EverLate (start : ℤ) (snapshots : List Snapshot) : Prop :=
  EverNewest Snapshot.lastUpdatedAt (Late start) none snapshots

/-- The events of an order, and the times from `start` up to `stop` in which its snapshots arrive:
the clock of the task does not go back, and no expected delivery time of an active snapshot lies
in between. -/
structure Punctual {σ : Type} (start stop : ℤ)
    (run : List (Entry σ (KeyEvent OrderState) Effect)) : Prop where
  chronological : run.Pairwise fun e e' => e.label.now ≤ e'.label.now
  within : ∀ e ∈ run, e.label.incoming?.isSome → start ≤ e.label.now.val ∧ e.label.now.val < stop
  apart : ∀ s ∈ arrived run, s.Active → s.etaMs ≤ start ∨ stop ≤ s.etaMs

/-- What expires lives longer than that. -/
def Outlives (ttl : Option ℕ) (start stop : ℤ) : Prop := ∀ d ∈ ttl, stop ≤ start + (d : ℤ)

section Run

variable {σ : Type} {start stop : ℤ} {run : List (Entry σ (KeyEvent OrderState) Effect)}
  {e : Entry σ (KeyEvent OrderState) Effect}

/-- The last event is not before the others. -/
lemma Punctual.concat (h : Punctual start stop (run ++ [e])) :
    Punctual start stop run ∧ (∀ d ∈ run, d.label.now ≤ e.label.now) ∧
      (e.label.incoming?.isSome → start ≤ e.label.now.val ∧ e.label.now.val < stop) ∧
      ∀ s, e.label.incoming?.bind Snapshot.of? = some s → s.Active →
        s.etaMs ≤ start ∨ stop ≤ s.etaMs := by
  obtain ⟨hchron, hlast⟩ := List.pairwise_append.mp h.chronological
  refine ⟨⟨hchron, fun d hd => h.within d (List.mem_append_left _ hd), fun s hs => ?_⟩,
    fun d hd => hlast.2 d hd e List.mem_cons_self,
    h.within e (List.mem_append_right _ List.mem_cons_self), fun s hs => ?_⟩
  · exact h.apart s (by rw [arrived_concat]; exact List.mem_append_left _ hs)
  · exact h.apart s (by rw [arrived_concat, hs]; exact List.mem_append_right _ List.mem_cons_self)

end Run

/-- **What is stored and what has been emitted**: nothing, or the newest snapshot.  If a late one
has been the newest, the order is notified, and with one command.  Otherwise it is not, unless its
newest snapshot is active and the time is over. -/
inductive Settles {σ : Type} (start stop : ℤ)
    (run : List (Entry σ (KeyEvent OrderState) Effect)) (slot : Slot Tracked) : Prop
  | empty : slot.cell = none → arrived run = [] → commands (outputs run) = [] →
      Settles start stop run slot
  | stored {s : Snapshot} {b : Bool} {m : Option Long} {w : Long} :
      slot.cell = some ⟨⟨s, b, m⟩, w⟩ → start ≤ w.val →
      newest Snapshot.lastUpdatedAt none (arrived run) = some s →
      (EverLate start (arrived run) → b = true ∧ (commands (outputs run)).length = 1) →
      (¬EverLate start (arrived run) → (s.Active → ∀ e ∈ run, e.label.now.val < stop) →
        b = false ∧ commands (outputs run) = []) →
      Settles start stop run slot

/-- What is known of an order while the time is not over. -/
structure Informed {σ : Type} (start : ℤ) (run : List (Entry σ (KeyEvent OrderState) Effect))
    (kept : Option Tracked) : Prop where
  newest_eq : newest Snapshot.lastUpdatedAt none (arrived run) = kept.map (·.snapshot)
  late : EverLate start (arrived run) →
    notified kept = true ∧ (commands (outputs run)).length = 1
  quiet : ¬EverLate start (arrived run) → notified kept = false ∧ commands (outputs run) = []

section Step

variable {σ : Type} {start stop : ℤ} {run : List (Entry σ (KeyEvent OrderState) Effect)}
  {ttl : Option ℕ} {slot slot' : Slot Tracked} {now : Long} {wall : Instant} {fx : List Effect}
  {target : σ} {s : Snapshot}

/-- What is stored is read until the time is over. -/
lemma Outlives.value (h : Outlives ttl start stop) {t : Tracked} {w : Long}
    (hcell : slot.cell = some ⟨t, w⟩) (hw : start ≤ w.val) (hnow : now.val < stop) :
    slot.value ttl now = some t := by
  cases ttl with
  | none => rw [Slot.value_none, Slot.kept, hcell, Option.map_some]
  | some d =>
      have hlong := h d rfl
      exact Slot.value_some.mpr ⟨w, hcell, by omega⟩

lemma Settles.informed (h : Settles start stop run slot) (hlives : Outlives ttl start stop)
    (hbefore : ∀ d ∈ run, d.label.now.val < stop) (hnow : now.val < stop) :
    Informed start run (slot.value ttl now) := by
  cases h with
  | empty hcell hnone hquiet =>
      have hvalue : slot.value ttl now = none := by rw [Slot.value, hcell]
      rw [hvalue]
      exact ⟨by rw [hnone]; rfl, by rw [hnone]; exact False.elim, fun _ => ⟨rfl, hquiet⟩⟩
  | stored hcell hw hnewest hlate hquiet =>
      rw [hlives.value hcell hw hnow]
      exact ⟨hnewest, hlate, fun hnot => hquiet hnot fun _ => hbefore⟩

/-- An event that brings nothing and of which nothing comes. -/
lemma Settles.unchanged {e : Entry σ (KeyEvent OrderState) Effect} (h : Settles start stop run slot)
    (hcell : slot'.cell = slot.cell) (hnone : e.label.incoming?.bind Snapshot.of? = none)
    (hnil : commands e.output = []) : Settles start stop (run ++ [e]) slot' := by
  have harrived : arrived (run ++ [e]) = arrived run := by
    rw [arrived_concat, hnone]
    exact List.append_nil _
  have hcommands : commands (outputs (run ++ [e])) = commands (outputs run) := by
    rw [outputs_append, commands_append, outputs_cons, outputs_nil, List.append_nil, hnil,
      List.append_nil]
  cases h with
  | empty hempty hnever hquiet =>
      exact .empty (hcell.trans hempty) (harrived.trans hnever) (hcommands.trans hquiet)
  | stored hstored hw hnewest hlate hquiet =>
      refine .stored (hcell.trans hstored) hw (harrived ▸ hnewest) ?_ ?_
      · rw [harrived, hcommands]
        exact hlate
      · rw [harrived, hcommands]
        exact fun hnot hopen =>
          hquiet hnot fun hact d hd => hopen hact d (List.mem_append_left _ hd)

/-- A snapshot that is not stale is written down. -/
lemma Informed.wrote (h : Informed start run (slot.value ttl now))
    (hfresh : Fresh s (slot.value ttl now)) (hnow : start ≤ now.val) {b : Bool} {m : Option Long}
    {timers : Finset Long}
    (hlate : EverLate start (arrived run) ∨ Late start s →
      b = true ∧ (commands (outputs run) ++ commands fx).length = 1)
    (hquiet : ¬EverLate start (arrived run) → ¬Late start s →
      b = false ∧ commands (outputs run) ++ commands fx = []) :
    Settles start stop (run ++ [⟨.element now wall s.toOrderState, fx, target⟩])
      (wrote ⟨s, b, m⟩ now timers) := by
  have hnewest : newer Snapshot.lastUpdatedAt
      (newest Snapshot.lastUpdatedAt none (arrived run)) s = s := by
    rw [h.newest_eq]
    refine newer_of_le _ fun u hu => ?_
    obtain ⟨t, ht, rfl⟩ := Option.map_eq_some_iff.mp hu
    exact hfresh t ht
  have harrived : arrived (run ++ [⟨.element now wall s.toOrderState, fx, target⟩])
      = arrived run ++ [s] := arrived_concat _ _
  have hcommands : commands (outputs (run ++ [⟨.element now wall s.toOrderState, fx, target⟩]))
      = commands (outputs run) ++ commands fx := by simp
  refine .stored rfl hnow ?_ ?_ ?_
  · rw [harrived, newest_concat, hnewest]
  · rw [harrived, hcommands, EverLate, everNewest_concat, hnewest]
    exact hlate
  · rw [harrived, hcommands, EverLate, everNewest_concat, hnewest, not_or]
    exact fun hnot _ => hquiet hnot.1 hnot.2

/-- **A snapshot arrives.** -/
theorem Settles.delivered (h : Settles start stop run slot) (hlives : Outlives ttl start stop)
    (hbefore : ∀ d ∈ run, d.label.now ≤ now) (hnow : start ≤ now.val) (hstop : now.val < stop)
    (hapart : s.Active → s.etaMs ≤ start ∨ stop ≤ s.etaMs)
    (hd : Delivered ttl now s slot fx slot') :
    Settles start stop (run ++ [⟨.element now wall s.toOrderState, fx, target⟩]) slot' := by
  have hinformed := h.informed hlives (fun d hd => lt_of_le_of_lt (hbefore d hd) hstop) hstop
  have hnever : notified (slot.value ttl now) = false → ¬EverLate start (arrived run) :=
    fun hun hever => absurd (hun.symm.trans (hinformed.late hever).1) (by decide)
  cases hd with
  | @stale t hv hlt =>
      cases h with
      | empty hcell => exact absurd hv (by simp [Slot.value, hcell])
      | @stored s₀ b m w hcell hw hnewest hlate hquiet =>
          obtain rfl := Option.some.inj ((hlives.value hcell hw hstop).symm.trans hv)
          have hkeep : newer Snapshot.lastUpdatedAt (some s₀) s = s₀ := newer_of_lt _ hlt
          have hsame : EverLate start (arrived run ++ [s]) ↔ EverLate start (arrived run) := by
            rw [EverLate, everNewest_concat, hnewest, hkeep]
            exact or_iff_left_of_imp fun hl => everNewest_of_newest _ hnewest hl
          have harrived : arrived (run ++ [⟨.element now wall s.toOrderState,
              [.inc .stale_updates_ignored], target⟩]) = arrived run ++ [s] := arrived_concat _ _
          have hcommands : commands (outputs (run ++ [⟨.element now wall s.toOrderState,
              [.inc .stale_updates_ignored], target⟩])) = commands (outputs run) := by
            rw [outputs_append, commands_append]
            exact List.append_nil _
          refine .stored hcell hw ?_ ?_ ?_
          · rw [harrived, newest_concat, hnewest, hkeep]
          · rw [harrived, hsame, hcommands]
            exact hlate
          · rw [harrived, hsame, hcommands]
            exact fun hnot hopen =>
              hquiet hnot fun hact d hd => hopen hact d (List.mem_append_left _ hd)
  | terminal hfresh hdone =>
      refine hinformed.wrote hfresh hnow (fun hl => ?_) fun hnot _ => ?_
      · simpa using hinformed.late (hl.resolve_right fun hl => hdone hl.1)
      · simpa using hinformed.quiet hnot
  | silent hfresh hact hn =>
      have hever : EverLate start (arrived run) := by
        by_contra hnot
        exact absurd (hn.symm.trans (hinformed.quiet hnot).1) (by decide)
      refine hinformed.wrote hfresh hnow (fun _ => ?_) fun hnot _ => absurd hever hnot
      simpa using (hinformed.late hever).2
  | due hfresh hact hun _ hle =>
      have hlate : Late start s := ⟨hact, (hapart hact).resolve_right (by omega)⟩
      refine hinformed.wrote hfresh hnow (fun _ => ?_) fun _ hnot => absurd hlate hnot
      simp [(hinformed.quiet (hnever hun)).2]
  | @pending time hfresh hact hun heta hlt =>
      have hahead : now.val < s.etaMs := by
        rw [heta]
        exact hlt
      refine hinformed.wrote hfresh hnow (fun hl => ?_) fun hnot _ => ?_
      · rcases hl with hever | hlate
        · exact absurd hever (hnever hun)
        · exact absurd hlate.2 (by omega)
      · simpa using (hinformed.quiet hnot).2

/-- **A timer fires.**  It finds a late order notified and an active one ahead of its expected
delivery time, unless the time is over. -/
theorem Settles.fired (h : Settles start stop run slot) (hbefore : ∀ d ∈ run, d.label.now ≤ now)
    (hpunctual : Punctual start stop run) {ts : Long} (hdue : ts ≤ now)
    (hf : Fired ttl now ts (slot.pop ts) fx slot') :
    Settles start stop (run ++ [⟨.timer now wall ts, fx, target⟩]) slot' := by
  cases hf with
  | idle => exact h.unchanged rfl rfl rfl
  | @notify t hv hact hun _ hle =>
      obtain ⟨w', hcell'⟩ := Slot.value_eq_some hv
      rw [Slot.pop_cell] at hcell'
      cases h with
      | empty hcell => exact absurd (hcell.symm.trans hcell') (by simp)
      | @stored s₀ b m w hcell hw hnewest hlate hquiet =>
          obtain ⟨rfl, rfl⟩ := TtlValue.mk.inj (Option.some.inj (hcell.symm.trans hcell'))
          have hnot : ¬EverLate start (arrived run) := fun hever =>
            absurd ((hlate hever).1.symm.trans hun) (by decide)
          have hmem : s₀ ∈ arrived run := mem_of_mem_newest _ hnewest
          -- the order has been delivered, so its time has begun
          obtain ⟨o, ho, _⟩ := List.mem_filterMap.mp hmem
          obtain ⟨d, hd, hincoming⟩ := List.mem_filterMap.mp ho
          have hbegun := (hpunctual.within d hd (by rw [hincoming]; rfl)).1
          have hbegun' : d.label.now.val ≤ now.val := hbefore d hd
          have hdue' : ts.val ≤ now.val := hdue
          have harrived : arrived (run ++ [⟨.timer now wall ts, s₀.notification now, target⟩])
              = arrived run := by
            rw [arrived_concat]
            exact List.append_nil _
          have hover : ¬now.val < stop := by
            intro hstop
            rcases hpunctual.apart s₀ hmem hact with hpast | hahead
            · exact hnot (everNewest_of_newest _ hnewest ⟨hact, hpast⟩)
            · exact absurd hle (by dsimp only; omega)
          refine .stored rfl (by omega) (harrived ▸ hnewest) ?_ ?_
          · rw [harrived]
            exact fun hever => absurd hever hnot
          · intro _ hopen
            exact absurd (hopen hact _ (List.mem_append_right _ List.mem_cons_self)) hover

/-- **Every step keeps it.** -/
theorem Settles.step {k : String} {e : Entry σ (KeyEvent OrderState) Effect}
    (h : Settles start stop run slot) (hlives : Outlives ttl start stop)
    (hpunctual : Punctual start stop (run ++ [e]))
    (hs : TrackedStep ttl k slot e.label e.output slot') :
    Settles start stop (run ++ [e]) slot' := by
  obtain ⟨hsofar, hbefore, hwithin, hapart⟩ := hpunctual.concat
  obtain ⟨l, fx, target⟩ := e
  cases hs with
  | invalid _ hinvalid => exact h.unchanged rfl (Snapshot.of?_of_invalid hinvalid) rfl
  | delivered _ hd =>
      obtain ⟨hnow, hstop⟩ := hwithin rfl
      exact h.delivered hlives hbefore hnow hstop (hapart _ rfl) hd
  | fired _ hdue hf => exact h.fired hbefore hsofar hdue hf

end Step

lemma punctual_map {σ τ : Type} {f : σ → τ} {start stop : ℤ}
    {run : List (Entry σ (KeyEvent OrderState) Effect)} :
    Punctual start stop (run.map (Entry.map f)) ↔ Punctual start stop run := by
  constructor
  · rintro ⟨hchron, hwithin, hapart⟩
    rw [List.pairwise_map] at hchron
    rw [arrived_map] at hapart
    exact ⟨hchron, fun e he => hwithin _ (List.mem_map_of_mem he), hapart⟩
  · rintro ⟨hchron, hwithin, hapart⟩
    refine ⟨List.pairwise_map.mpr hchron, ?_, by rwa [arrived_map]⟩
    rw [List.forall_mem_map]
    exact hwithin

/-- What has been emitted then. -/
lemma Settles.decides {σ : Type} {start stop : ℤ}
    {run : List (Entry σ (KeyEvent OrderState) Effect)} {slot : Slot Tracked}
    (h : Settles start stop run slot) :
    (EverLate start (arrived run) → (commands (outputs run)).length = 1) ∧
      (¬EverLate start (arrived run) →
        (∀ s ∈ newest Snapshot.lastUpdatedAt none (arrived run), s.Active →
          ∀ e ∈ run, e.label.now.val < stop) →
        commands (outputs run) = []) := by
  cases h with
  | empty _ hnone hquiet =>
      rw [hnone, hquiet]
      exact ⟨False.elim, fun _ _ => rfl⟩
  | stored _ _ hnewest hlate hquiet =>
      exact ⟨fun hever => (hlate hever).2, fun hnot hopen => (hquiet hnot (hopen _ hnewest)).2⟩

/-- **Every order settles** in a run of the job. -/
theorem exists_settles {config : StateConfig}
    {run : List (Entry Job (String × KeyEvent OrderState) Effect)}
    (h : IsRun (JobStep config) Job.initial run) {k : String} {start stop : ℤ}
    (hpunctual : Punctual start stop (project k run)) (hlives : Outlives config.ttl start stop) :
    ∃ (trun : List (Entry (Slot Tracked) (KeyEvent OrderState) Effect)) (slot : Slot Tracked),
      project k run = trun.map (Entry.map (Slot.map Tracked.toDelayState)) ∧
        commandsFor k run = commands (outputs trun) ∧ Settles start stop trun slot := by
  obtain ⟨trun, htrun, hproj, _⟩ := tracked_run h k
  refine ⟨trun, final Slot.empty trun, hproj, ?_, ?_⟩
  · rw [commandsFor_eq k (command_orderId h), hproj, outputs_map]
  · rw [hproj, punctual_map] at hpunctual
    refine IsRun.history_induction
      (P := fun run slot => Punctual start stop run → Settles start stop run slot)
      (fun _ => .empty rfl rfl rfl) ?_ trun htrun hpunctual
    intro r slot e _ _ ih hstep hpunctual
    exact (ih hpunctual.concat.1).step hlives hpunctual hstep

/-- Order 1 is delivered when its expected delivery time has come, and once more. -/
def overdue1 : List (Entry (Slot OrderDelayState) (KeyEvent OrderState) Effect) :=
  [⟨.element (.of 600000) (.ofEpochMilli (.of 0)) order1.toOrderState, order1.notification (.of 600000),
    (wrote ⟨order1, true, none⟩ (.of 600000) ∅).map Tracked.toDelayState⟩,
   ⟨.element (.of 601000) (.ofEpochMilli (.of 0)) order1.toOrderState, [],
    (wrote ⟨order1, true, none⟩ (.of 601000) ∅).map Tracked.toDelayState⟩]

lemma isRun_overdue1 :
    IsRun (JobStep (stateConfig 7)) Job.initial (atKey "order-1" Job.initial overdue1) :=
  isRun_atKey "order-1" overdue1 Job.initial ⟨.element rfl rfl, .element rfl rfl, trivial⟩

lemma project_overdue1 : project "order-1" (atKey "order-1" Job.initial overdue1) = overdue1 := rfl

lemma punctual_overdue1 :
    Punctual 600000 630000 (project "order-1" (atKey "order-1" Job.initial overdue1)) := by
  rw [project_overdue1]
  refine ⟨by simp [overdue1, KeyEvent.now]; decide, ?_, ?_⟩
  · simp only [overdue1, List.forall_mem_cons]
    exact ⟨fun _ => by decide, fun _ => by decide, by simp⟩
  · rintro s hs _
    simp only [overdue1, arrived, List.filterMap_cons, KeyEvent.incoming?,
      Snapshot.of?_toOrderState, List.filterMap_nil, List.mem_cons, List.not_mem_nil, or_false,
      or_self] at hs
    subst hs
    exact .inl (by decide)

lemma outlives_overdue1 : Outlives (stateConfig 7).ttl 600000 630000 := by
  rintro _ ⟨⟩
  decide

end DelayedOrderSms
