import DelayedOrderSms.Systems.Trace
import Mathlib.Logic.Function.Basic

/-!
# Independent components indexed by keys

A keyed system is a product: one component per key, each step a step of one component, the
others untouched.  Every property of a single component's runs transfers to the product through
`project`, the steps of one key.

* `KeyedStep` — the product; the label carries the key.
* `isRun_project` — the projection of a run of the product is a run of the component;
  `isRun_atKey` — and every run of a component is one.
* `forall_prefix_project` — what holds of a key at every point of a run.
* `KeyedStep.invariant` — an invariant of every component is an invariant of the product.
-/

namespace Systems

variable {K σ ι ο : Type} [DecidableEq K]

/-- A step of the product of the components `step k`. -/
inductive KeyedStep (step : K → σ → ι → List ο → σ → Prop) :
    (K → σ) → K × ι → List ο → (K → σ) → Prop
  | at_key {j : K → σ} {k : K} {i : ι} {o : List ο} {s : σ} :
      step k (j k) i o s → KeyedStep step j (k, i) o (Function.update j k s)

/-- What key `k` sees of a run of the product: its own steps. -/
def project (k : K) : List (Entry (K → σ) (K × ι) ο) → List (Entry σ ι ο)
  | [] => []
  | e :: run =>
      if e.label.1 = k then ⟨e.label.2, e.output, e.target k⟩ :: project k run
      else project k run

variable {step : K → σ → ι → List ο → σ → Prop}

lemma KeyedStep.at_same {j j' : K → σ} {k : K} {i : ι} {o : List ο}
    (h : KeyedStep step j (k, i) o j') : step k (j k) i o (j' k) := by
  cases h with
  | at_key hs => rwa [Function.update_self]

lemma KeyedStep.at_other {j j' : K → σ} {k k' : K} {i : ι} {o : List ο}
    (h : KeyedStep step j (k, i) o j') (hk : k' ≠ k) : j' k' = j k' := by
  cases h with
  | at_key _ => exact Function.update_of_ne hk _ _

/-- A step that leaves its own component as it was changes nothing. -/
lemma KeyedStep.eq_of_same {j j' : K → σ} {k : K} {i : ι} {o : List ο}
    (h : KeyedStep step j (k, i) o j') (hk : j' k = j k) : j' = j := by
  funext k'
  by_cases hkk : k' = k
  · rw [hkk, hk]
  · exact h.at_other hkk

@[simp] lemma project_nil (k : K) : project k ([] : List (Entry (K → σ) (K × ι) ο)) = [] := rfl

lemma project_cons_same {k : K} {e : Entry (K → σ) (K × ι) ο} (h : e.label.1 = k)
    (run : List (Entry (K → σ) (K × ι) ο)) :
    project k (e :: run) = ⟨e.label.2, e.output, e.target k⟩ :: project k run := if_pos h

lemma project_cons_other {k : K} {e : Entry (K → σ) (K × ι) ο} (h : e.label.1 ≠ k)
    (run : List (Entry (K → σ) (K × ι) ο)) : project k (e :: run) = project k run := if_neg h

lemma project_append (k : K) (r₁ r₂ : List (Entry (K → σ) (K × ι) ο)) :
    project k (r₁ ++ r₂) = project k r₁ ++ project k r₂ := by
  induction r₁ with
  | nil => rfl
  | cons e r₁ ih =>
      by_cases h : e.label.1 = k
      · simp only [List.cons_append, project_cons_same h, ih]
      · simp only [List.cons_append, project_cons_other h, ih]

lemma project_concat_same (k : K) (run : List (Entry (K → σ) (K × ι) ο)) (i : ι) (o : List ο)
    (j : K → σ) : project k (run ++ [⟨(k, i), o, j⟩]) = project k run ++ [⟨i, o, j k⟩] := by
  rw [project_append, project_cons_same (e := ⟨(k, i), o, j⟩) rfl, project_nil]

/-- **Projection.**  What key `k` sees of a run of the product is a run of its component, from
its part of the first state to its part of the last one. -/
theorem isRun_project (k : K) : ∀ (run : List (Entry (K → σ) (K × ι) ο)) (j : K → σ),
    IsRun (KeyedStep step) j run →
      IsRun (step k) (j k) (project k run) ∧ final (j k) (project k run) = final j run k
  | [], _, _ => ⟨trivial, rfl⟩
  | e :: run, j, ⟨hstep, hrest⟩ => by
      obtain ⟨ih₁, ih₂⟩ := isRun_project k run e.target hrest
      by_cases h : e.label.1 = k
      · subst h
        rw [project_cons_same rfl]
        exact ⟨⟨hstep.at_same, ih₁⟩, ih₂⟩
      · rw [project_cons_other h]
        have hsame : e.target k = j k := hstep.at_other (Ne.symm h)
        rw [hsame] at ih₁ ih₂
        exact ⟨ih₁, ih₂⟩

/-- What a key has seen at some point is what it has seen of some prefix. -/
lemma exists_prefix_of_project {k : K} : ∀ {run : List (Entry (K → σ) (K × ι) ο)}
    {q : List (Entry σ ι ο)}, q <+: project k run → ∃ r, r <+: run ∧ project k r = q
  | [], q, h => ⟨[], List.nil_prefix, (List.prefix_nil.mp h).symm⟩
  | e :: run, q, h => by
      by_cases hk : e.label.1 = k
      · rw [project_cons_same hk] at h
        rcases List.prefix_cons_iff.mp h with rfl | ⟨q, rfl, hq⟩
        · exact ⟨[], List.nil_prefix, rfl⟩
        · obtain ⟨r, hr, rfl⟩ := exists_prefix_of_project hq
          exact ⟨e :: r, (List.prefix_cons_inj e).mpr hr, project_cons_same hk r⟩
      · rw [project_cons_other hk] at h
        obtain ⟨r, hr, rfl⟩ := exists_prefix_of_project h
        exact ⟨e :: r, (List.prefix_cons_inj e).mpr hr, project_cons_other hk r⟩

lemma project_isPrefix {k : K} {r run : List (Entry (K → σ) (K × ι) ο)} (h : r <+: run) :
    project k r <+: project k run := by
  obtain ⟨t, rfl⟩ := h
  rw [project_append]
  exact List.prefix_append _ _

/-- **What is true of a key all along.**  A property of the history and the state of one key
holds at every point of a run of the product exactly when it does at every point of the run that
the key sees. -/
theorem forall_prefix_project {P : List (Entry σ ι ο) → σ → Prop} (k : K)
    {run : List (Entry (K → σ) (K × ι) ο)} {j : K → σ} (h : IsRun (KeyedStep step) j run) :
    (∀ r, r <+: run → P (project k r) (final j r k)) ↔
      ∀ q, q <+: project k run → P q (final (j k) q) := by
  constructor
  · intro hall q hq
    obtain ⟨r, hr, rfl⟩ := exists_prefix_of_project hq
    rw [(isRun_project k r j (h.of_isPrefix hr)).2]
    exact hall r hr
  · intro hall r hr
    rw [← (isRun_project k r j (h.of_isPrefix hr)).2]
    exact hall _ (project_isPrefix hr)

/-- A run of one component, as a run of the product. -/
def atKey (k : K) : (K → σ) → List (Entry σ ι ο) → List (Entry (K → σ) (K × ι) ο)
  | _, [] => []
  | j, e :: run =>
      ⟨(k, e.label), e.output, Function.update j k e.target⟩ ::
        atKey k (Function.update j k e.target) run

/-- Every run of a component is the part of a run of the product. -/
theorem isRun_atKey (k : K) : ∀ (run : List (Entry σ ι ο)) (j : K → σ),
    IsRun (step k) (j k) run → IsRun (KeyedStep step) j (atKey k j run)
  | [], _, _ => trivial
  | e :: run, j, ⟨hstep, hrest⟩ => by
      refine ⟨.at_key hstep, isRun_atKey k run _ ?_⟩
      show IsRun (step k) (Function.update j k e.target k) run
      rwa [Function.update_self]

/-- An invariant of every component is an invariant of the product. -/
theorem KeyedStep.invariant {Inv : K → σ → Prop}
    (keep : ∀ k s i o t, Inv k s → step k s i o t → Inv k t) {j j' : K → σ} {l : K × ι}
    {o : List ο} (hj : ∀ k, Inv k (j k)) (h : KeyedStep step j l o j') : ∀ k, Inv k (j' k) := by
  intro k
  by_cases hk : k = l.1
  · subst hk
    exact keep _ _ _ _ _ (hj _) h.at_same
  · rw [h.at_other hk]
    exact hj k

end Systems
