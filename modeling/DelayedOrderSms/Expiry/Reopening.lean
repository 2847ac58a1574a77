import DelayedOrderSms.Detector.Firing
import DelayedOrderSms.Systems.Lockstep

/-!
# Expiry and closed orders

The job with its time to live next to the same job without one, on the same input.  What an
order has been through — that it was notified, that it was finished, how new its last snapshot
was — is remembered only in the value that expires, so a snapshot that arrives afterwards is
taken for the first one of a new order.

* `Alike` — the two agree on an order as long as the value has not expired.
* `alike_deliver`, `Alike.later`, `alike_fire` — they go on agreeing, or the value expires, unless
  a snapshot arrives that the job without expiry would not treat as news (`News`).
* `expiry_adds_nothing` — without such snapshots expiry never adds a command.
* `expiry_notifies_again` — with one it does.
-/

namespace DelayedOrderSms

open Java Flink Systems

/-- With a time to live of `d` nothing is read of the order, or what is read is what the job
without expiry keeps, and the timer it remembers is registered. -/
def Alike (d : ℕ) (now : Long) (expiring lasting : Slot Tracked) : Prop :=
  expiring.value (some d) now = none ∨
    expiring.value (some d) now = lasting.kept ∧
      ∀ ts ∈ timerOf lasting.kept, ts ∈ expiring.timers

/-- The snapshot is news: what the job without expiry keeps of its order has not been notified and
is not newer. -/
def News (s : Snapshot) (lasting : Slot Tracked) : Prop :=
  ∀ t ∈ lasting.kept, t.delaySmsEmitted = false ∧ Fresh s (some t)

section Deliver

variable {d : ℕ} {now : Long} {s : Snapshot} {expiring expiring' lasting lasting' : Slot Tracked}
  {fx fx' : List Effect}

/-- What has just been written is read, or has a time to live of zero. -/
lemma value_wrote (t : Tracked) (w : Long) (T : Finset Long) :
    (wrote t w T).value (some d) now = none ∨ (wrote t w T).value (some d) now = some t := by
  by_cases h : now.val < w.val + d
  · exact .inr (Slot.value_some.mpr ⟨w, rfl, h⟩)
  · left
    cases hv : (wrote t w T).value (some d) now with
    | none => rfl
    | some u =>
        obtain ⟨w', hcell, hlive⟩ := Slot.value_some.mp hv
        obtain rfl : w = w' := (TtlValue.mk.inj (Option.some.inj hcell)).2
        exact absurd hlive h

lemma alike_wrote {t : Tracked} {w w' : Long} {T T' : Finset Long}
    (h : ∀ ts ∈ t.registeredTimerTime, ts ∈ T) : Alike d now (wrote t w T) (wrote t w' T') := by
  rcases value_wrote t w T with hv | hv
  · exact .inl hv
  · exact .inr ⟨hv, h⟩

/-- The two jobs judge the snapshot alike. -/
lemma Alike.judge (ha : Alike d now expiring lasting)
    (hnews : expiring.value (some d) now = none → News s lasting) :
    (Fresh s (expiring.value (some d) now) ↔ Fresh s lasting.kept) ∧
      notified (expiring.value (some d) now) = notified lasting.kept := by
  rcases ha with hnone | ⟨heq, _⟩
  · have hn := hnews hnone
    rw [hnone]
    cases hkept : lasting.kept with
    | none => exact ⟨Iff.rfl, rfl⟩
    | some t =>
        obtain ⟨hun, hfresh⟩ := hn t hkept
        exact ⟨⟨fun _ => hfresh, fun _ => fresh_none s⟩, hun.symm⟩
  · rw [heq]
    exact ⟨Iff.rfl, rfl⟩

/-- The timer of a pending order is registered. -/
lemma Alike.mem_moveTimer (ha : Alike d now expiring lasting) (time : Long) :
    time ∈ moveTimer expiring.timers (timerOf (expiring.value (some d) now)) time := by
  rw [moveTimer]
  split_ifs with hold
  · rcases ha with hnone | ⟨heq, hmem⟩
    · rw [hnone] at hold
      exact absurd hold (by simp)
    · rw [heq] at hold
      exact hmem time hold
  · exact Finset.mem_insert_self _ _

/-- **The two jobs treat a snapshot alike** if, in case the value has expired, it is news. -/
theorem alike_deliver (hc : Coherent lasting) (ha : Alike d now expiring lasting)
    (hnews : expiring.value (some d) now = none → News s lasting)
    (he : Delivered (some d) now s expiring fx expiring')
    (hl : Delivered none now s lasting fx' lasting') :
    Alike d now expiring' lasting' ∧ commands fx = commands fx' := by
  obtain ⟨hfresh, hnot⟩ := ha.judge hnews
  cases hl with
  | @stale t hv hlt =>
      rw [Slot.value_none] at hv
      have hstale : ¬ Fresh s (expiring.value (some d) now) := fun hf =>
        hfresh.mp hf t hv hlt
      have heq : expiring.value (some d) now = some t := by
        rcases ha with hnone | ⟨heq, _⟩
        · rw [hnone] at hstale
          exact absurd (fresh_none s) hstale
        · rw [heq, hv]
      obtain ⟨rfl, rfl⟩ := he.unique (.stale heq hlt)
      exact ⟨ha, rfl⟩
  | terminal hf hdone =>
      rw [Slot.value_none] at hf ⊢
      obtain ⟨rfl, rfl⟩ := he.unique (.terminal (hfresh.mpr hf) hdone)
      rw [hnot]
      exact ⟨alike_wrote fun ts hts => absurd hts (by simp), rfl⟩
  | silent hf hact hn =>
      rw [Slot.value_none] at hf hn ⊢
      obtain ⟨rfl, rfl⟩ := he.unique (.silent (hfresh.mpr hf) hact (hnot.trans hn))
      rw [(hc.of_notified hn).2]
      have htimer : timerOf (expiring.value (some d) now) = none := by
        rcases ha with hnone | ⟨heq, _⟩
        · rw [hnone]
          rfl
        · rw [heq, (hc.of_notified hn).2]
      rw [htimer]
      exact ⟨alike_wrote fun ts hts => absurd hts (by simp), rfl⟩
  | due hf hact hun hfits hle =>
      rw [Slot.value_none] at hf hun ⊢
      obtain ⟨rfl, rfl⟩ := he.unique (.due (hfresh.mpr hf) hact (hnot.trans hun) hfits hle)
      exact ⟨alike_wrote fun ts hts => absurd hts (by simp), rfl⟩
  | @pending time hf hact hun htime hlt =>
      rw [Slot.value_none] at hf hun ⊢
      obtain ⟨rfl, rfl⟩ := he.unique (.pending (hfresh.mpr hf) hact (hnot.trans hun) htime hlt)
      refine ⟨alike_wrote fun ts hts => ?_, rfl⟩
      obtain rfl := Option.some.inj hts
      exact ha.mem_moveTimer _

end Deliver

section Clock

variable {d : ℕ} {k : String} {now time upTo : Long}
  {expiring expiring' lasting lasting' : Slot Tracked} {fx fx' : List Effect}

/-- The two jobs stay alike while time passes, or the value expires. -/
lemma Alike.later (ha : Alike d now expiring lasting) (hle : now ≤ time) :
    Alike d time expiring lasting := by
  rcases Slot.value_later hle expiring with hnone | hsame
  · exact .inl hnone
  · rcases ha with hnone | ⟨heq, hmem⟩
    · exact .inl (hsame.trans hnone)
    · exact .inr ⟨hsame.trans heq, hmem⟩

/-- When nothing is read of the order, or its timer is not due, no timer of the expiring job does
anything. -/
lemma alike_of_quiet (ha : Alike d now expiring lasting)
    (hquiet : ∀ t ∈ expiring.value (some d) now, t.snapshot.Active → t.delaySmsEmitted = false →
      upTo.val < t.snapshot.etaMs)
    (hahead : expiring.value (some d) now = none ∨ ∀ ts ∈ timerOf lasting.kept, upTo < ts)
    (he : Drains (TrackedStep (some d) k) now upTo expiring fx expiring') :
    Alike d now expiring' lasting ∧ commands fx = [] := by
  obtain ⟨hnil, hcell, htimers⟩ := drains_quiet hquiet he
  rw [Alike, Slot.value_congr hcell]
  refine ⟨?_, hnil⟩
  rcases ha with hnone | ⟨heq, hmem⟩
  · exact .inl hnone
  · rcases hahead with hnone | hahead
    · exact .inl hnone
    · exact .inr ⟨heq, fun ts hts => htimers ts (hmem ts hts) (hahead ts hts)⟩

/-- **The two jobs stay alike while timers fire**, and the one with expiry adds no command. -/
theorem alike_fire (hc : Coherent lasting) (ha : Alike d now expiring lasting)
    (he : Drains (TrackedStep (some d) k) now upTo expiring fx expiring')
    (hl : Drains (TrackedStep none k) now upTo lasting fx' lasting') :
    Alike d now expiring' lasting' ∧ (commands fx).Sublist (commands fx') := by
  by_cases hnone : expiring.value (some d) now = none
  · have hquiet : ∀ t ∈ expiring.value (some d) now, t.snapshot.Active →
        t.delaySmsEmitted = false → upTo.val < t.snapshot.etaMs := fun t ht => by
      rw [hnone] at ht
      exact absurd ht (by simp)
    have hexpired : Alike d now expiring lasting' := .inl hnone
    obtain ⟨halike, hnil⟩ := alike_of_quiet hexpired hquiet (.inl hnone) he
    rw [hnil]
    exact ⟨halike, List.nil_sublist _⟩
  · obtain ⟨heq, hmem⟩ := ha.resolve_left hnone
    rcases drains_of_coherent hc hl with
      ⟨hahead, rfl, rfl⟩ | ⟨s, w, eta, hact, heta, hdue, rfl, rfl, rfl⟩
    · -- The lasting job has no timer that is due, so the order is not.
      have hquiet : ∀ t ∈ expiring.value (some d) now, t.snapshot.Active →
          t.delaySmsEmitted = false → upTo.val < t.snapshot.etaMs := fun t ht hact hun => by
        rw [heq] at ht
        refine not_le.mp (not_due_of_ahead hc hahead ?_ hact ?_)
        · rw [show lasting'.kept = some t from ht]
          rfl
        · rw [show lasting'.kept = some t from ht]
          exact hun
      have htimer : ∀ ts ∈ timerOf lasting'.kept, upTo < ts := fun ts hts =>
        hahead ts (hc.timerOf_mem hts)
      obtain ⟨halike, hnil⟩ := alike_of_quiet ha hquiet (.inr htimer) he
      rw [hnil]
      exact ⟨halike, List.Sublist.refl _⟩
    · obtain ⟨hcmd, hcell⟩ := drains_notifies heq hact heta hdue (hmem eta rfl) he
      rw [hcmd]
      refine ⟨?_, List.Sublist.refl _⟩
      have hread : expiring'.value (some d) now =
          (wrote ⟨s, true, none⟩ now ∅).value (some d) now := Slot.value_congr hcell _ _
      rw [Alike, hread]
      exact (value_wrote ⟨s, true, none⟩ now ∅).imp_right
        fun hv => ⟨hv, fun ts hts => absurd hts (by simp)⟩

end Clock

/-! ## The two jobs on the same input -/

/-- The job with a time to live of `stateTtlDays` days and the job without one: the same elements
of one order are delivered, the same time passes and the timer services run at the same moments. -/
def TwinStep (backend : Backend) (stateTtlDays : ℕ) (k : String) :
    Harness OrderDelayState × Harness OrderDelayState → TaskMove OrderState →
      List (Effect ⊕ Effect) → Harness OrderDelayState × Harness OrderDelayState → Prop :=
  Lockstep
    (TaskStep (KeyStep delayedOrderOperator ⟨backend, some (ttlMillis stateTtlDays)⟩ k))
    (TaskStep (KeyStep delayedOrderOperator ⟨backend, none⟩ k))

/-- A valid snapshot that finds the value of its order expired is news: what the job without
expiry keeps of the order has not been notified and is not newer. -/
def NewsIfExpired (ttl : Option ℕ) (p : Harness OrderDelayState × Harness OrderDelayState) :
    TaskMove OrderState → Prop
  | .deliver o => isValid o = true → p.1.slot.value ttl p.1.clock = none →
      ∀ current ∈ p.2.slot.kept,
        current.delaySmsEmitted = false ∧ storedIsNewer o (some current) = .ok false
  | .pass _ => True
  | .fire _ => True

/-- The two jobs show the same time and agree on the order. -/
structure Agree (d : ℕ) (p : Harness Tracked × Harness Tracked) : Prop where
  clock_eq : p.1.clock = p.2.clock
  coherent : Coherent p.2.slot
  alike : Alike d p.1.clock p.1.slot p.2.slot

/-- The two jobs, on what is kept of the order. -/
def bothStored : Harness Tracked × Harness Tracked →
    Harness OrderDelayState × Harness OrderDelayState :=
  Prod.map (Harness.map Tracked.toDelayState) (Harness.map Tracked.toDelayState)

lemma news_of_newsIfExpired {d : ℕ} {p : Harness Tracked × Harness Tracked} {s : Snapshot}
    (h : NewsIfExpired (some d) (bothStored p) (.deliver s.toOrderState))
    (hnone : p.1.slot.value (some d) p.1.clock = none) : News s p.2.slot := by
  intro t ht
  have hread : ((p.1.slot).map Tracked.toDelayState).value (some d) p.1.clock = none := by
    rw [Slot.value_map, hnone]
    rfl
  have hkept : t.toDelayState ∈ ((p.2.slot).map Tracked.toDelayState).kept := by
    rw [Slot.map_kept, ht]
    rfl
  obtain ⟨hun, hnew⟩ := h rfl hread _ hkept
  refine ⟨hun, fresh_some.mpr ?_⟩
  rw [← Instant.isBefore_iff, Bool.not_eq_true]
  exact Except.ok.inj hnew

/-- **One move of the two jobs.** -/
theorem agree_step {d : ℕ} {k : String} {h₁ h₁' h₂ h₂' : Harness Tracked}
    {m : TaskMove OrderState}
    {fx fx' : List Effect} (hagree : Agree d (h₁, h₂))
    (hcond : NewsIfExpired (some d) (bothStored (h₁, h₂)) m)
    (hs₁ : TaskStep (TrackedStep (some d) k) h₁ m fx h₁')
    (hs₂ : TaskStep (TrackedStep none k) h₂ m fx' h₂') :
    Agree d (h₁', h₂') ∧ (commands fx).Sublist (commands fx') := by
  obtain ⟨hclock, hcoh, halike⟩ := hagree
  simp only at hclock hcoh halike
  cases m with
  | deliver o =>
      obtain ⟨hc₁, _, hd₁⟩ := hs₁.deliver_inv
      obtain ⟨hc₂, _, hd₂⟩ := hs₂.deliver_inv
      cases hvalid : isValid o with
      | false =>
          obtain ⟨hslot₁, hnil⟩ := hd₁.of_invalid hvalid
          obtain ⟨hslot₂, _⟩ := hd₂.of_invalid hvalid
          rw [hnil]
          refine ⟨⟨?_, ?_, ?_⟩, List.nil_sublist _⟩
          · rw [hc₁, hc₂, hclock]
          · rw [hslot₂]
            exact hcoh
          · rw [hc₁, hslot₁, hslot₂]
            exact halike
      | true =>
          obtain ⟨s, rfl⟩ := isValid_iff.mp hvalid
          rw [← hclock] at hd₂
          obtain ⟨halike', hcmd⟩ := alike_deliver hcoh halike (news_of_newsIfExpired hcond)
            hd₁.delivered_of_snapshot hd₂.delivered_of_snapshot
          rw [hcmd]
          refine ⟨⟨?_, ?_, ?_⟩, List.Sublist.refl _⟩
          · rw [hc₁, hc₂, hclock]
          · exact hcoh.delivered hd₂.delivered_of_snapshot
          · rw [hc₁]
            exact halike'
  | pass time =>
      obtain ⟨hc₁, hle, hnil, hslot₁⟩ := hs₁.pass_inv
      obtain ⟨hc₂, _, _, hslot₂⟩ := hs₂.pass_inv
      rw [hnil]
      refine ⟨⟨?_, ?_, ?_⟩, List.nil_sublist _⟩
      · rw [hc₁, hc₂]
      · rw [hslot₂]
        exact hcoh
      · rw [hc₁, hslot₁, hslot₂]
        exact halike.later hle
  | fire upTo =>
      obtain ⟨hc₁, hd₁⟩ := hs₁.fire_inv
      obtain ⟨hc₂, hd₂⟩ := hs₂.fire_inv
      rw [← hclock] at hd₂
      obtain ⟨halike', hsub⟩ := alike_fire hcoh halike hd₁ hd₂
      refine ⟨⟨?_, ?_, ?_⟩, hsub⟩
      · rw [hc₁, hc₂, hclock]
      · exact coherent_of_drains hcoh hd₂
      · rw [hc₁]
        exact halike'

/-- **Expiry adds no command**, as long as every valid snapshot that finds the value of its order
expired is news: however elements, time and timers interleave, what the job with expiry emits is
a sublist of what the same job without expiry emits. -/
theorem expiry_adds_nothing {backend : Backend} {stateTtlDays : ℕ} {k : String} {clock : Long}
    {run : List (Entry (Harness OrderDelayState × Harness OrderDelayState) (TaskMove OrderState)
      (Effect ⊕ Effect))}
    (h : IsRun (TwinStep backend stateTtlDays k)
      (Harness.opened clock, Harness.opened clock) run)
    (hnews : ∀ x ∈ transitions (Harness.opened clock, Harness.opened clock) run,
      NewsIfExpired (some (ttlMillis stateTtlDays)) x.1 x.2.label) :
    (commands (lefts (outputs run))).Sublist (commands (rights (outputs run))) := by
  have hemb := Lockstep.embeds
    (TaskStep.embeds (keyStep_embeds ⟨backend, some (ttlMillis stateTtlDays)⟩ k))
    (TaskStep.embeds (keyStep_embeds ⟨backend, none⟩ k))
  have hstart : (Harness.opened clock, Harness.opened clock) =
      bothStored (Harness.opened clock, Harness.opened clock) := rfl
  rw [hstart] at h hnews
  obtain ⟨trun, htrun, rfl, hout, _⟩ := hemb.pullback h
  rw [bothStored, transitions_map, List.forall_mem_map] at hnews
  have hnews' : ∀ x ∈ transitions (Harness.opened clock, Harness.opened clock) trun,
      NewsIfExpired (some (ttlMillis stateTtlDays)) (bothStored x.1) x.2.label := hnews
  have hinit : Agree (ttlMillis stateTtlDays) (Harness.opened clock, Harness.opened clock) :=
    ⟨rfl, .nothing, .inl rfl⟩
  rw [hout]
  exact @lockstep_sublist _ _ _ _ _ _ _ _
    (fun p m => NewsIfExpired (some (ttlMillis stateTtlDays)) (bothStored p) m) _ agree_step
    trun _ hinit htrun hnews'

/-- What is kept of order 1 when it was notified at `now`. -/
def notified1 (now : Long) : Slot OrderDelayState :=
  (wrote ⟨order1, true, none⟩ now ∅).map Tracked.toDelayState

/-- Order 1 is accepted and notified, and a time to live of one day passes. -/
def notifiedAndExpired : List (Entry (Harness OrderDelayState × Harness OrderDelayState)
    (TaskMove OrderState) (Effect ⊕ Effect)) :=
  [⟨.deliver order1.toOrderState, [].map .inl ++ [].map .inr, ⟨.of 0, waiting1⟩, ⟨.of 0, waiting1⟩⟩,
   ⟨.pass (.of 601000), [].map .inl ++ [].map .inr,
    ⟨.of 601000, waiting1⟩, ⟨.of 601000, waiting1⟩⟩,
   ⟨.fire (.of 600000), (order1.notification (.of 601000) ++ []).map .inl ++
      (order1.notification (.of 601000) ++ []).map .inr,
    ⟨.of 601000, notified1 (.of 601000)⟩, ⟨.of 601000, notified1 (.of 601000)⟩⟩,
   ⟨.pass (.of 87001000), [].map .inl ++ [].map .inr,
    ⟨.of 87001000, notified1 (.of 601000)⟩, ⟨.of 87001000, notified1 (.of 601000)⟩⟩]

/-- Then its snapshot is redelivered. -/
def redelivered : Entry (Harness OrderDelayState × Harness OrderDelayState) (TaskMove OrderState)
    (Effect ⊕ Effect) :=
  ⟨.deliver order1.toOrderState, (order1.notification (.of 87001000)).map .inl ++ [].map .inr,
    ⟨.of 87001000, notified1 (.of 87001000)⟩, ⟨.of 87001000, notified1 (.of 87001000)⟩⟩

lemma isRun_notifiedAndExpired : IsRun (TwinStep .rocksDB 1 "order-1")
    (Harness.opened (.of 0), Harness.opened (.of 0)) notifiedAndExpired :=
  ⟨.both (.of_runOn rfl rfl) (.of_runOn rfl rfl),
    .both (.pass (by decide)) (.pass (by decide)),
    .both (.fire (by decide) (.of_runOn rfl (by decide) (by decide) rfl rfl))
      (.fire (by decide) (.of_runOn rfl (by decide) (by decide) rfl rfl)),
    .both (.pass (by decide)) (.pass (by decide)),
    trivial⟩

/-- **A notified order is notified again** when its snapshot is redelivered after its state has
expired; the job without expiry stays silent. -/
theorem expiry_notifies_again :
    IsRun (TwinStep .rocksDB 1 "order-1") (Harness.opened (.of 0), Harness.opened (.of 0))
        (notifiedAndExpired ++ [redelivered]) ∧
      ¬ (commands (lefts (outputs (notifiedAndExpired ++ [redelivered])))).Sublist
        (commands (rights (outputs (notifiedAndExpired ++ [redelivered])))) := by
  refine ⟨isRun_concat.mpr ⟨isRun_notifiedAndExpired, ?_⟩, fun hsub => ?_⟩
  · exact .both (.of_runOn rfl rfl) (.of_runOn rfl rfl)
  · have hlength := hsub.length_le
    have htwo : (commands (lefts (outputs (notifiedAndExpired ++ [redelivered])))).length = 2 := rfl
    have hone : (commands (rights (outputs (notifiedAndExpired ++ [redelivered])))).length = 1 := rfl
    omega

/-! A pending order whose state has expired when a newer snapshot of it arrives. -/

/-- Order 1, expected on the next day, as of some milliseconds after the epoch. -/
def tomorrow1 (lastUpdatedAt : ℤ) : Snapshot :=
  .createOrder "order-1" .ACCEPTED (.ofEpochMilli (.of 100000000)) (.ofEpochMilli (.of lastUpdatedAt))

/-- What is kept of it while it waits. -/
def waitingTomorrow (lastUpdatedAt now : ℤ) : Slot OrderDelayState :=
  (wrote ⟨tomorrow1 lastUpdatedAt, false, some (.of 100000000)⟩ (.of now) {.of 100000000}).map
    Tracked.toDelayState

/-- What is kept of it when it was notified. -/
def notifiedTomorrow : Slot OrderDelayState :=
  (wrote ⟨tomorrow1 86400000, true, none⟩ (.of 100000000) ∅).map Tracked.toDelayState

/-- It is accepted, a time to live of one day passes, and a newer snapshot of it arrives.  Its timer
fires on the next day. -/
def renewedAndNotified : List (Entry (Harness OrderDelayState × Harness OrderDelayState)
    (TaskMove OrderState) (Effect ⊕ Effect)) :=
  [⟨.deliver (tomorrow1 0).toOrderState, [].map .inl ++ [].map .inr,
    ⟨.of 0, waitingTomorrow 0 0⟩, ⟨.of 0, waitingTomorrow 0 0⟩⟩,
   ⟨.pass (.of 86400000), [].map .inl ++ [].map .inr,
    ⟨.of 86400000, waitingTomorrow 0 0⟩, ⟨.of 86400000, waitingTomorrow 0 0⟩⟩,
   ⟨.deliver (tomorrow1 86400000).toOrderState, [].map .inl ++ [].map .inr,
    ⟨.of 86400000, waitingTomorrow 86400000 86400000⟩,
    ⟨.of 86400000, waitingTomorrow 86400000 86400000⟩⟩,
   ⟨.pass (.of 100000000), [].map .inl ++ [].map .inr,
    ⟨.of 100000000, waitingTomorrow 86400000 86400000⟩,
    ⟨.of 100000000, waitingTomorrow 86400000 86400000⟩⟩,
   ⟨.fire (.of 100000000), ((tomorrow1 86400000).notification (.of 100000000) ++ []).map .inl ++
      ((tomorrow1 86400000).notification (.of 100000000) ++ []).map .inr,
    ⟨.of 100000000, notifiedTomorrow⟩, ⟨.of 100000000, notifiedTomorrow⟩⟩]

lemma isRun_renewedAndNotified : IsRun (TwinStep .rocksDB 1 "order-1")
    (Harness.opened (.of 0), Harness.opened (.of 0)) renewedAndNotified :=
  ⟨.both (.of_runOn rfl rfl) (.of_runOn rfl rfl),
    .both (.pass (by decide)) (.pass (by decide)),
    .both (.of_runOn rfl rfl) (.of_runOn rfl rfl),
    .both (.pass (by decide)) (.pass (by decide)),
    .both (.fire (by decide) (.of_runOn rfl (by decide) (by decide) rfl rfl))
      (.fire (by decide) (.of_runOn rfl (by decide) (by decide) rfl rfl)),
    trivial⟩

/-- The state of the order has expired when the second snapshot arrives, which is news: the command
that is emitted with expiry is the one that is emitted without. -/
theorem expiry_adds_nothing_renewed :
    (waitingTomorrow 0 0).value (some (ttlMillis 1)) (.of 86400000) = none ∧
      (commands (lefts (outputs renewedAndNotified))).length = 1 ∧
      (commands (lefts (outputs renewedAndNotified))).Sublist
        (commands (rights (outputs renewedAndNotified))) := by
  refine ⟨rfl, rfl, expiry_adds_nothing isRun_renewedAndNotified fun x hx => ?_⟩
  simp only [renewedAndNotified, transitions_cons, transitions_nil, List.mem_cons,
    List.not_mem_nil, or_false] at hx
  rcases hx with rfl | rfl | rfl | rfl | rfl
  · exact fun _ _ current hcur => absurd hcur (by simp [Harness.opened, Slot.empty, Slot.kept])
  · trivial
  · intro _ _ current hcur
    obtain rfl := Option.some.inj hcur
    exact ⟨rfl, rfl⟩
  · trivial
  · trivial

end DelayedOrderSms
