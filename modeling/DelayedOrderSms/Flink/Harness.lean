import DelayedOrderSms.Flink.KeyedProcess

/-!
# The operator with its timer service

One key of an operator together with the clock it runs at and the service that fires its timers.

* `Drains` — the loop of the timer service: as long as the first registered timer is due, it is
  taken out and fired.
* `HarnessStep` — `KeyedOneInputStreamOperatorTestHarness`: a test delivers elements at the
  current processing time and moves the clock with `setProcessingTime`, which fires the timers
  that have become due before it returns.
* `TaskStep` — a running task: the clock moves by itself and the timer service gets its turn at
  any moment, so elements may be processed while timers are overdue.
* `HarnessStep.embeds`, `TaskStep.embeds` — a rewriting of the stored values that steps respect is
  respected by both.
-/

namespace Flink

open Java Systems

/-- What a test can do: `processElement` or `setProcessingTime`. -/
inductive Move (E : Type) where
  | deliver (incoming : E)
  | advance (time : Long)

def Move.map {E E' : Type} (f : E → E') : Move E → Move E'
  | .deliver incoming => .deliver (f incoming)
  | .advance time => .advance time

/-- What can happen at a running task: an element is processed, time passes, or the timer service
fires what is due up to some time. -/
inductive TaskMove (E : Type) where
  | deliver (incoming : E)
  | pass (time : Long)
  | fire (upTo : Long)

/-- The operator with its clock and what is stored for the key. -/
structure Harness (V : Type) where
  clock : Long
  slot : Slot V

/-- A harness that has just been opened. -/
def Harness.opened {V : Type} (clock : Long) : Harness V := ⟨clock, Slot.empty⟩

/-- The harness with its stored value rewritten. -/
def Harness.map {V W : Type} (f : V → W) (h : Harness V) : Harness W := ⟨h.clock, h.slot.map f⟩

variable {V W E F : Type}

/-- **Firing what is due**: while the first timer is due up to `upTo`, it fires, at the processing
time `now`. -/
inductive Drains (step : Slot V → KeyEvent E → List F → Slot V → Prop) (now upTo : Long) :
    Slot V → List F → Slot V → Prop
  | done {s : Slot V} : (∀ ts ∈ s.timers, upTo < ts) → Drains step now upTo s [] s
  | fire {s s' s'' : Slot V} {wall : Instant} {ts : Long} {fx fx' : List F} :
      ts ∈ s.timers → ts ≤ upTo → (∀ ts' ∈ s.timers, ts ≤ ts') →
      step s (.timer now wall ts) fx s' → Drains step now upTo s' fx' s'' →
      Drains step now upTo s (fx ++ fx') s''

/-- **One call of a test.**  An element is processed at the current time; moving the clock, never
backwards, fires what has become due with the clock already moved. -/
inductive HarnessStep (step : Slot V → KeyEvent E → List F → Slot V → Prop) :
    Harness V → Move E → List F → Harness V → Prop
  | deliver {h : Harness V} {s' : Slot V} {wall : Instant} {incoming : E} {fx : List F} :
      step h.slot (.element h.clock wall incoming) fx s' →
      HarnessStep step h (.deliver incoming) fx ⟨h.clock, s'⟩
  | advance {h : Harness V} {s' : Slot V} {time : Long} {fx : List F} :
      h.clock ≤ time → Drains step time time h.slot fx s' →
      HarnessStep step h (.advance time) fx ⟨time, s'⟩

/-- **One move of a running task.** -/
inductive TaskStep (step : Slot V → KeyEvent E → List F → Slot V → Prop) :
    Harness V → TaskMove E → List F → Harness V → Prop
  | deliver {h : Harness V} {s' : Slot V} {wall : Instant} {incoming : E} {fx : List F} :
      step h.slot (.element h.clock wall incoming) fx s' →
      TaskStep step h (.deliver incoming) fx ⟨h.clock, s'⟩
  | pass {h : Harness V} {time : Long} :
      h.clock ≤ time → TaskStep step h (.pass time) [] ⟨time, h.slot⟩
  | fire {h : Harness V} {s' : Slot V} {upTo : Long} {fx : List F} :
      upTo ≤ h.clock → Drains step h.clock upTo h.slot fx s' →
      TaskStep step h (.fire upTo) fx ⟨h.clock, s'⟩

section Inversion

variable {step : Slot V → KeyEvent E → List F → Slot V → Prop} {h h' : Harness V} {fx : List F}

lemma HarnessStep.deliver_inv {incoming : E} (hs : HarnessStep step h (.deliver incoming) fx h') :
    h'.clock = h.clock ∧ ∃ wall, step h.slot (.element h.clock wall incoming) fx h'.slot := by
  cases hs with
  | deliver hs => exact ⟨rfl, _, hs⟩

lemma HarnessStep.advance_inv {time : Long} (hs : HarnessStep step h (.advance time) fx h') :
    h'.clock = time ∧ h.clock ≤ time ∧ Drains step time time h.slot fx h'.slot := by
  cases hs with
  | advance hle hd => exact ⟨rfl, hle, hd⟩

lemma TaskStep.deliver_inv {incoming : E} (hs : TaskStep step h (.deliver incoming) fx h') :
    h'.clock = h.clock ∧ ∃ wall, step h.slot (.element h.clock wall incoming) fx h'.slot := by
  cases hs with
  | deliver hs => exact ⟨rfl, _, hs⟩

lemma TaskStep.pass_inv {time : Long} (hs : TaskStep step h (.pass time) fx h') :
    h'.clock = time ∧ h.clock ≤ time ∧ fx = [] ∧ h'.slot = h.slot := by
  cases hs with
  | pass hle => exact ⟨rfl, hle, rfl, rfl⟩

lemma TaskStep.fire_inv {upTo : Long} (hs : TaskStep step h (.fire upTo) fx h') :
    h'.clock = h.clock ∧ Drains step h.clock upTo h.slot fx h'.slot := by
  cases hs with
  | fire _ hd => exact ⟨rfl, hd⟩

end Inversion

/-! Running an operator. -/

section Running

variable {K : Type} {op : Operator K E V F} {config : StateConfig} {k : K}

lemma TaskStep.of_runOn {h : Harness V} {s' : Slot V} {incoming : E} {fx : List F}
    (hkey : op.keyOf incoming = some k)
    (hrun : (op.processElement ⟨config, h.clock, Instant.ofEpochMilli h.clock⟩ incoming).runOn h.slot
      = .ok (s', fx)) :
    TaskStep (KeyStep op config k) h (.deliver incoming) fx ⟨h.clock, s'⟩ :=
  .deliver (.element hkey hrun)

/-- A single timer that is due. -/
lemma Drains.of_runOn {s s' : Slot V} {now upTo ts : Long} {fx : List F} (htimers : s.timers = {ts})
    (hdue : ts ≤ upTo) (hnow : ts ≤ now)
    (hrun : (op.onTimer ⟨config, now, Instant.ofEpochMilli now⟩ ts).runOn (s.pop ts) = .ok (s', fx))
    (hdone : s'.timers = ∅) : Drains (KeyStep op config k) now upTo s (fx ++ []) s' := by
  have hmem : ts ∈ s.timers := htimers ▸ Finset.mem_singleton_self ts
  refine .fire hmem hdue (fun ts' hts' => ?_) (.timer hmem hnow hrun) (.done fun ts' hts' => ?_)
  · rw [htimers] at hts'
    exact (Finset.mem_singleton.mp hts').ge
  · rw [hdone] at hts'
    exact absurd hts' (Finset.notMem_empty ts')

end Running

section Embedding

variable {f : V → W} {step : Slot V → KeyEvent E → List F → Slot V → Prop}
  {step' : Slot W → KeyEvent E → List F → Slot W → Prop}

lemma Drains.of_embeds (h : Embeds (Slot.map f) step step') {now upTo : Long}
    {s s' : Slot V} {fx : List F} (hd : Drains step now upTo s fx s') :
    Drains step' now upTo (s.map f) fx (s'.map f) := by
  induction hd with
  | done hnone => exact .done hnone
  | fire hmem hdue hfirst hs _ ih => exact .fire hmem hdue hfirst ((h _ _ _ _).mpr ⟨_, hs, rfl⟩) ih

lemma Drains.exists_of_embeds (h : Embeds (Slot.map f) step step') {now upTo : Long}
    {r r' : Slot W} {fx : List F} (hd : Drains step' now upTo r fx r') :
    ∀ s : Slot V, r = s.map f → ∃ s', Drains step now upTo s fx s' ∧ r' = s'.map f := by
  induction hd with
  | done hnone =>
      rintro s rfl
      exact ⟨s, .done hnone, rfl⟩
  | fire hmem hdue hfirst hs _ ih =>
      rintro s rfl
      obtain ⟨s', hs', rfl⟩ := (h s _ _ _).mp hs
      obtain ⟨s'', hd', rfl⟩ := ih s' rfl
      exact ⟨s'', .fire hmem hdue hfirst hs' hd', rfl⟩

/-- A rewriting of the stored values that steps respect is respected by the harness. -/
lemma HarnessStep.embeds (h : Embeds (Slot.map f) step step') :
    Embeds (Harness.map f) (HarnessStep step) (HarnessStep step') := by
  intro s m fx r
  constructor
  · intro hs
    cases hs with
    | deliver hs =>
        obtain ⟨s', hs', rfl⟩ := (h s.slot _ _ _).mp hs
        exact ⟨⟨s.clock, s'⟩, .deliver hs', rfl⟩
    | @advance _ time _ hle hd =>
        obtain ⟨s', hd', rfl⟩ := hd.exists_of_embeds h s.slot rfl
        exact ⟨⟨time, s'⟩, .advance hle hd', rfl⟩
  · rintro ⟨s', hs', rfl⟩
    cases hs' with
    | deliver hs => exact .deliver ((h _ _ _ _).mpr ⟨_, hs, rfl⟩)
    | advance hle hd => exact .advance hle (hd.of_embeds h)

lemma TaskStep.embeds (h : Embeds (Slot.map f) step step') :
    Embeds (Harness.map f) (TaskStep step) (TaskStep step') := by
  intro s m fx r
  constructor
  · intro hs
    cases hs with
    | deliver hs =>
        obtain ⟨s', hs', rfl⟩ := (h s.slot _ _ _).mp hs
        exact ⟨⟨s.clock, s'⟩, .deliver hs', rfl⟩
    | @pass time hle => exact ⟨⟨time, s.slot⟩, .pass hle, rfl⟩
    | fire hle hd =>
        obtain ⟨s', hd', rfl⟩ := hd.exists_of_embeds h s.slot rfl
        exact ⟨⟨s.clock, s'⟩, .fire hle hd', rfl⟩
  · rintro ⟨s', hs', rfl⟩
    cases hs' with
    | deliver hs => exact .deliver ((h _ _ _ _).mpr ⟨_, hs, rfl⟩)
    | pass hle => exact .pass hle
    | fire hle hd => exact .fire hle (hd.of_embeds h)

end Embedding

end Flink
