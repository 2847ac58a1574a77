import DelayedOrderSms.Systems.Keyed
import DelayedOrderSms.Systems.Embedding

/-!
# Systems whose steps are determined by their labels

* `Deterministic` — state and label determine what a step puts out and where it leads;
  `Deterministic.run_unique` lifts it to runs, `KeyedStep.deterministic` to products.
* `isRun_congr` — two systems that make the same steps from every state satisfying an invariant
  have the same runs.
* `KeyedStep.embeds` — embeddings of the components embed the product.
-/

namespace Systems

variable {K σ τ ι ο : Type}

/-- At most one step from each state on each label. -/
def Deterministic (Step : σ → ι → List ο → σ → Prop) : Prop :=
  ∀ s i o t o' t', Step s i o t → Step s i o' t' → o = o' ∧ t = t'

/-- **A run is determined by its labels.** -/
theorem Deterministic.run_unique {Step : σ → ι → List ο → σ → Prop} (h : Deterministic Step) :
    ∀ {run run' : List (Entry σ ι ο)} {s : σ}, IsRun Step s run → IsRun Step s run' →
      run.map Entry.label = run'.map Entry.label → run = run'
  | [], [], _, _, _, _ => rfl
  | [], e :: run', _, _, _, hl => absurd hl (by simp)
  | e :: run, [], _, _, _, hl => absurd hl (by simp)
  | ⟨i, o, t⟩ :: run, ⟨i', o', t'⟩ :: run', s, ⟨hstep, hrest⟩, ⟨hstep', hrest'⟩, hl => by
      obtain ⟨rfl, htail⟩ := List.cons.inj hl
      obtain ⟨rfl, rfl⟩ := h _ _ _ _ _ _ hstep hstep'
      rw [h.run_unique hrest hrest' htail]

/-- Two systems that agree wherever the invariant of the first holds have the same runs there. -/
theorem isRun_congr {Step Step' : σ → ι → List ο → σ → Prop} {Inv : σ → Prop}
    (keep : ∀ s i o t, Inv s → Step s i o t → Inv t)
    (agree : ∀ s i o t, Inv s → (Step s i o t ↔ Step' s i o t)) :
    ∀ (run : List (Entry σ ι ο)) (s : σ), Inv s → (IsRun Step s run ↔ IsRun Step' s run)
  | [], _, _ => Iff.rfl
  | e :: run, s, hs => by
      rw [isRun_cons, isRun_cons, ← agree s _ _ _ hs]
      exact and_congr_right fun hstep => isRun_congr keep agree run _ (keep s _ _ _ hs hstep)

/-- The states of all keys, rewritten. -/
def mapKeys (f : σ → τ) (j : K → σ) : K → τ := fun k => f (j k)

@[simp] lemma mapKeys_apply (f : σ → τ) (j : K → σ) (k : K) : mapKeys f j k = f (j k) := rfl

section Keyed

variable [DecidableEq K]

/-- A product of deterministic components is deterministic. -/
lemma KeyedStep.deterministic {step : K → σ → ι → List ο → σ → Prop}
    (h : ∀ k, Deterministic (step k)) : Deterministic (KeyedStep step) := by
  intro j l o j₁ o' j₂ h₁ h₂
  obtain ⟨k, i⟩ := l
  obtain ⟨ho, hk⟩ := h k _ _ _ _ _ _ h₁.at_same h₂.at_same
  refine ⟨ho, funext fun k' => ?_⟩
  by_cases hkk : k' = k
  · rw [hkk, hk]
  · rw [h₁.at_other hkk, h₂.at_other hkk]

/-- Embeddings of the components embed the product. -/
theorem KeyedStep.embeds {f : σ → τ} {step : K → σ → ι → List ο → σ → Prop}
    {step' : K → τ → ι → List ο → τ → Prop} (h : ∀ k, Embeds f (step k) (step' k)) :
    Embeds (mapKeys f) (KeyedStep step) (KeyedStep step') := by
  intro j l o r
  obtain ⟨k, i⟩ := l
  constructor
  · intro hs
    obtain ⟨s', hs', hr⟩ := (h k _ _ _ _).mp hs.at_same
    refine ⟨Function.update j k s', .at_key hs', funext fun k' => ?_⟩
    by_cases hk : k' = k
    · rw [hk, mapKeys_apply, Function.update_self, hr]
    · rw [mapKeys_apply, Function.update_of_ne hk, hs.at_other hk, mapKeys_apply]
  · rintro ⟨j', hs, rfl⟩
    have hupdate : mapKeys f j' = Function.update (mapKeys f j) k (f (j' k)) := by
      funext k'
      by_cases hk : k' = k
      · rw [hk, Function.update_self, mapKeys_apply]
      · rw [Function.update_of_ne hk, mapKeys_apply, mapKeys_apply, hs.at_other hk]
    rw [hupdate]
    exact .at_key ((h k _ _ _ _).mpr ⟨j' k, hs.at_same, rfl⟩)

end Keyed

end Systems
