import DelayedOrderSms.Systems.Trace

/-!
# Embedding one system in another

A map `f` of states embeds the system `Step` in `Step'` when, on the image of `f`, the two make
the same steps with the same outputs.  Then they have the same runs there: what is proved of the
runs of the first — whose states may carry more structure — holds of the second.

* `Embeds` — the correspondence of steps; `Embeds.isRun_iff` lifts it to runs.
* `Embeds.pullback` — the way it is used: a run of the second system from an embedded state is
  the image of a run of the first.
-/

namespace Systems

variable {σ τ ι ο : Type}

/-- On the image of `f`, the steps of `Step'` are the images of the steps of `Step`. -/
def Embeds (f : σ → τ) (Step : σ → ι → List ο → σ → Prop) (Step' : τ → ι → List ο → τ → Prop) :
    Prop :=
  ∀ s i o r, Step' (f s) i o r ↔ ∃ s', Step s i o s' ∧ r = f s'

/-- The image of one entry of a run. -/
def Entry.map (f : σ → τ) (e : Entry σ ι ο) : Entry τ ι ο := ⟨e.label, e.output, f e.target⟩

@[simp] lemma outputs_map (f : σ → τ) (run : List (Entry σ ι ο)) :
    outputs (run.map (Entry.map f)) = outputs run := by
  induction run with
  | nil => rfl
  | cons e run ih => simp [ih, Entry.map]

@[simp] lemma labels_map (f : σ → τ) (run : List (Entry σ ι ο)) :
    (run.map (Entry.map f)).map Entry.label = run.map Entry.label := by
  induction run with
  | nil => rfl
  | cons e run ih => rw [List.map_cons, List.map_cons, ih]; rfl

@[simp] lemma final_map (f : σ → τ) (s : σ) (run : List (Entry σ ι ο)) :
    final (f s) (run.map (Entry.map f)) = f (final s run) := by
  induction run generalizing s with
  | nil => rfl
  | cons e run ih => exact ih e.target

lemma transitions_map (f : σ → τ) (s : σ) (run : List (Entry σ ι ο)) :
    transitions (f s) (run.map (Entry.map f)) =
      (transitions s run).map fun x => (f x.1, Entry.map f x.2) := by
  induction run generalizing s with
  | nil => rfl
  | cons e run ih =>
      rw [List.map_cons, transitions_cons, transitions_cons, List.map_cons]
      exact congrArg _ (ih e.target)

variable {f : σ → τ} {Step : σ → ι → List ο → σ → Prop} {Step' : τ → ι → List ο → τ → Prop}

/-- **Runs correspond.** -/
theorem Embeds.isRun_iff (h : Embeds f Step Step') : ∀ (run' : List (Entry τ ι ο)) (s : σ),
    IsRun Step' (f s) run' ↔ ∃ run, IsRun Step s run ∧ run' = run.map (Entry.map f)
  | [], s => by
      refine ⟨fun _ => ⟨[], trivial, rfl⟩, fun _ => trivial⟩
  | e :: run', s => by
      constructor
      · rintro ⟨hstep, hrest⟩
        obtain ⟨s', hs', ht⟩ := (h s _ _ _).mp hstep
        rw [ht] at hrest
        obtain ⟨run, hrun, rfl⟩ := (isRun_iff h run' s').mp hrest
        refine ⟨⟨e.label, e.output, s'⟩ :: run, ⟨hs', hrun⟩, ?_⟩
        rw [List.map_cons, Entry.map, ← ht]
      · rintro ⟨_ | ⟨e₀, run⟩, hrun, heq⟩
        · simp at heq
        · obtain ⟨rfl, rfl⟩ := List.cons.inj heq
          exact ⟨(h s _ _ _).mpr ⟨_, hrun.1, rfl⟩, (isRun_iff h _ _).mpr ⟨run, hrun.2, rfl⟩⟩

/-- A run of the second system from an embedded state is the image of a run of the first, with
the same outputs and an embedded last state. -/
theorem Embeds.pullback (h : Embeds f Step Step') {s : σ} {run' : List (Entry τ ι ο)}
    (hrun : IsRun Step' (f s) run') :
    ∃ run, IsRun Step s run ∧ run' = run.map (Entry.map f) ∧ outputs run' = outputs run ∧
      final (f s) run' = f (final s run) := by
  obtain ⟨run, hr, rfl⟩ := (h.isRun_iff run' s).mp hrun
  exact ⟨run, hr, rfl, outputs_map f run, final_map f s run⟩

/-- What holds at every point of the image of a run is what holds of the image at every point. -/
lemma forall_prefix_map {P : List (Entry τ ι ο) → τ → Prop} {s : σ} {run : List (Entry σ ι ο)} :
    (∀ q, q <+: run.map (Entry.map f) → P q (final (f s) q)) ↔
      ∀ r, r <+: run → P (r.map (Entry.map f)) (f (final s r)) := by
  constructor
  · intro hall r hr
    rw [← final_map f s r]
    exact hall _ (List.prefix_map_iff.mpr ⟨r, hr, rfl⟩)
  · intro hall q hq
    obtain ⟨r, hr, rfl⟩ := List.prefix_map_iff.mp hq
    rw [final_map]
    exact hall r hr

end Systems
