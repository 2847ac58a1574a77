import DelayedOrderSms.Flink.Harness
import DelayedOrderSms.Processor.Coherence

/-!
# Firing timers

What happens to an order when the timers that are due up to some time fire, in order.

* `drains_of_coherent`, `exists_drains` — an order in one of its three shapes has at most one
  timer: nothing happens, or that timer fires and the order is notified.
* `drains_quiet` — whatever timers an order has, nothing is emitted unless its expected delivery
  time is reached.
* `drains_notifies` — if it is reached, and its timer is among them, one command is emitted.
-/

namespace DelayedOrderSms

open Java Flink Systems

section Drains

variable {ttl : Option ℕ} {k : String} {slot slot' : Slot Tracked} {fx : List Effect}

/-- Nothing is due when the timer lies ahead. -/
lemma not_due_of_ahead {clock : Long} (hc : Coherent slot)
    (hahead : ∀ ts ∈ slot.timers, clock < ts) {s : Snapshot}
    (hs : slot.kept.map (·.snapshot) = some s) (hact : s.Active)
    (hun : notified slot.kept = false) : ¬ s.etaMs ≤ clock.val := by
  cases hc with
  | nothing => exact absurd hs (by simp [Slot.empty, Slot.kept])
  | settled hb =>
      obtain rfl := Option.some.inj hs
      exact absurd (hb hact) (by simpa using hun)
  | @waiting s' w time _ heta =>
      obtain rfl := Option.some.inj hs
      have hlt : clock.val < time.val := hahead time (Finset.mem_singleton_self time)
      exact not_le.mpr (heta ▸ hlt)

/-- What firing does to an order in one of its shapes: nothing, or its timer fires. -/
lemma drains_of_coherent (hc : Coherent slot) {now upTo : Long}
    (hd : Drains (TrackedStep none k) now upTo slot fx slot') :
    ((∀ ts ∈ slot.timers, upTo < ts) ∧ fx = [] ∧ slot' = slot) ∨
      ∃ s w ts, s.Active ∧ s.etaMs = ts.val ∧ ts ≤ upTo ∧
        slot = wrote ⟨s, false, some ts⟩ w {ts} ∧ fx = s.notification now ∧
        slot' = wrote ⟨s, true, none⟩ now ∅ := by
  cases hd with
  | done hahead => exact .inl ⟨hahead, rfl, rfl⟩
  | @fire _ _ _ _ ts fx₁ fx₂ hmem hdue _ hs hrest =>
      cases hs with
      | fired _ _ hf =>
          obtain ⟨s, w, hact, heta, hslot, rfl, rfl⟩ := hc.fired hmem hf
          cases hrest with
          | done => exact .inr ⟨s, w, ts, hact, heta, hdue, hslot, List.append_nil _, rfl⟩
          | fire hmem' => exact absurd hmem' (Finset.notMem_empty _)

/-- It stays in one of its shapes. -/
lemma coherent_of_drains (hc : Coherent slot) {now upTo : Long}
    (hd : Drains (TrackedStep none k) now upTo slot fx slot') : Coherent slot' := by
  rcases drains_of_coherent hc hd with ⟨_, _, rfl⟩ | ⟨_, _, _, _, _, _, _, _, rfl⟩
  · exact hc
  · exact .settled fun _ => rfl

/-- Firing always comes to an end. -/
lemma exists_drains (hc : Coherent slot) (k : String) (time : Long) :
    ∃ fx slot', Drains (TrackedStep none k) time time slot fx slot' := by
  cases hc with
  | nothing => exact ⟨[], _, .done fun ts hts => absurd hts (Finset.notMem_empty ts)⟩
  | settled => exact ⟨[], _, .done fun ts hts => absurd hts (Finset.notMem_empty ts)⟩
  | @waiting s w ts hact heta =>
      by_cases hdue : ts ≤ time
      · have hfits : s.Fits := by
          have hlong : IsLong s.etaMs := heta ▸ ts.property
          exact hlong
        have hfired : Fired none time ts ((wrote ⟨s, false, some ts⟩ w {ts}).pop ts) _ _ :=
          .notify (t := ⟨s, false, some ts⟩) rfl hact rfl hfits heta.le
        have hstep : TrackedStep none k (wrote ⟨s, false, some ts⟩ w {ts})
            (.timer time (Instant.ofEpochMilli time) ts) _ _ :=
          .fired (Finset.mem_singleton_self ts) hdue hfired
        refine ⟨_, _, .fire (Finset.mem_singleton_self ts) hdue ?_ hstep (.done ?_)⟩
        · exact fun ts' hts' => (Finset.mem_singleton.mp hts').ge
        · intro ts' hts'
          rw [timers_wrote, Slot.pop_timers, timers_wrote, Finset.erase_singleton] at hts'
          exact absurd hts' (Finset.notMem_empty ts')
      · refine ⟨[], _, .done fun ts' hts' => ?_⟩
        rw [Finset.mem_singleton.mp hts']
        exact not_le.mp hdue

/-- No timer that fires emits a command unless the expected delivery time is reached. -/
theorem drains_quiet {now upTo : Long}
    (h : ∀ t ∈ slot.value ttl now, t.snapshot.Active → t.delaySmsEmitted = false →
      upTo.val < t.snapshot.etaMs)
    (hd : Drains (TrackedStep ttl k) now upTo slot fx slot') :
    commands fx = [] ∧ slot'.cell = slot.cell ∧
      ∀ ts ∈ slot.timers, upTo < ts → ts ∈ slot'.timers := by
  induction hd with
  | done => exact ⟨rfl, rfl, fun _ hts _ => hts⟩
  | @fire s _ _ _ ts fx₁ fx₂ hmem hdue _ hs _ ih =>
      cases hs with
      | fired _ _ hf =>
          cases hf with
          | idle =>
              obtain ⟨hquiet, hcell, htimers⟩ := ih h
              refine ⟨hquiet, hcell, fun ts' hts' hlater => htimers ts' ?_ hlater⟩
              rw [Slot.pop_timers, Finset.mem_erase]
              exact ⟨fun heq => absurd hdue (not_le.mpr (heq ▸ hlater)), hts'⟩
          | @notify t hv hact hun _ hle =>
              have hlt := h t hv hact hun
              have hdue' : ts.val ≤ upTo.val := hdue
              exact absurd hlt (by omega)

/-- A waiting order whose expected delivery time is reached is notified once, by its own timer,
whatever other timers it has. -/
theorem drains_notifies {now upTo eta : Long} {s : Snapshot}
    (hv : slot.value ttl now = some ⟨s, false, some eta⟩) (hact : s.Active)
    (heta : s.etaMs = eta.val) (hdue : eta ≤ upTo) (hmem : eta ∈ slot.timers)
    (hd : Drains (TrackedStep ttl k) now upTo slot fx slot') :
    commands fx = [s.delayCommand now] ∧ slot'.cell = some ⟨⟨s, true, none⟩, now⟩ := by
  induction hd with
  | done hnone => exact absurd (hnone eta hmem) (not_lt.mpr hdue)
  | @fire slot _ _ _ ts fx₁ fx₂ _ _ _ hs hrest ih =>
      cases hs with
      | fired _ _ hf =>
          cases hf with
          | idle hguard =>
              have hlt : ts.val < eta.val := heta ▸ (hguard _ hv hact rfl).2
              refine ih hv ?_
              rw [Slot.pop_timers, Finset.mem_erase]
              exact ⟨fun heq => absurd hlt (heq ▸ lt_irrefl _), hmem⟩
          | @notify t hv' =>
              rw [Slot.value_pop, hv] at hv'
              obtain rfl := Option.some.inj hv'
              have hsilent : ∀ t ∈ (wrote ⟨s, true, none⟩ now (slot.pop ts).timers).value ttl now,
                  t.snapshot.Active → t.delaySmsEmitted = false → upTo.val < t.snapshot.etaMs := by
                intro t ht _ hun
                obtain ⟨w, hw⟩ := Slot.value_eq_some ht
                obtain rfl : _ = t := (TtlValue.mk.inj (Option.some.inj hw)).1
                exact absurd hun (by simp)
              obtain ⟨hquiet, hcell, _⟩ := drains_quiet hsilent hrest
              rw [commands_append, hquiet, hcell]
              exact ⟨rfl, rfl⟩

end Drains

end DelayedOrderSms
