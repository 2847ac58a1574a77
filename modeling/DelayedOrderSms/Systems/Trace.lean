import Mathlib.Data.List.Induction
import Mathlib.Tactic.Lemma

/-!
# Runs of labelled transition systems with outputs

A transition system is a relation `Step s i o t`: in state `s`, label `i` is possible, produces
the outputs `o` and leads to `t`.  A run is the list of its entries, each with the state it
reaches, so a property of *every state reached* is a property of the final state of every
prefix, and histories are functions of the run itself — no ghost state is threaded through the
system.

* `IsRun` — the list of entries is a run from the given state; `isRun_append` splits runs.
* `IsRun.history_induction` — the induction rule everything is proved with: an assertion about
  the run so far and the state it has reached holds initially and is kept by every step.
* `transitions` — the steps of a run, each with the state before it; `IsRun.forall_iff` relates
  a property of every state reached to a condition on every step taken.
-/

namespace Systems

variable {σ ι ο : Type}

/-- One step of a run: its label, its outputs and the state it leads to. -/
structure Entry (σ ι ο : Type) where
  label : ι
  output : List ο
  target : σ

/-- `run` is a run of `Step` from `s`. -/
def IsRun (Step : σ → ι → List ο → σ → Prop) : σ → List (Entry σ ι ο) → Prop
  | _, [] => True
  | s, e :: run => Step s e.label e.output e.target ∧ IsRun Step e.target run

/-- The state a run from `s` ends in. -/
def final : σ → List (Entry σ ι ο) → σ
  | s, [] => s
  | _, e :: run => final e.target run

/-- Everything a run puts out, in order. -/
def outputs (run : List (Entry σ ι ο)) : List ο := run.flatMap Entry.output

/-- The steps of a run from `s`, each with the state it is taken in. -/
def transitions : σ → List (Entry σ ι ο) → List (σ × Entry σ ι ο)
  | _, [] => []
  | s, e :: run => (s, e) :: transitions e.target run

section Basic

variable {Step : σ → ι → List ο → σ → Prop}

@[simp] lemma isRun_nil (s : σ) : IsRun Step s [] := trivial

@[simp] lemma isRun_cons {s : σ} {e : Entry σ ι ο} {run : List (Entry σ ι ο)} :
    IsRun Step s (e :: run) ↔ Step s e.label e.output e.target ∧ IsRun Step e.target run :=
  Iff.rfl

@[simp] lemma final_nil (s : σ) : final s ([] : List (Entry σ ι ο)) = s := rfl

@[simp] lemma final_cons (s : σ) (e : Entry σ ι ο) (run : List (Entry σ ι ο)) :
    final s (e :: run) = final e.target run := rfl

@[simp] lemma outputs_nil : outputs ([] : List (Entry σ ι ο)) = [] := rfl

@[simp] lemma outputs_cons (e : Entry σ ι ο) (run : List (Entry σ ι ο)) :
    outputs (e :: run) = e.output ++ outputs run := rfl

@[simp] lemma transitions_nil (s : σ) : transitions s ([] : List (Entry σ ι ο)) = [] := rfl

@[simp] lemma transitions_cons (s : σ) (e : Entry σ ι ο) (run : List (Entry σ ι ο)) :
    transitions s (e :: run) = (s, e) :: transitions e.target run := rfl

@[simp] lemma outputs_append (r₁ r₂ : List (Entry σ ι ο)) :
    outputs (r₁ ++ r₂) = outputs r₁ ++ outputs r₂ := by
  simp [outputs]

lemma final_append (s : σ) (r₁ r₂ : List (Entry σ ι ο)) :
    final s (r₁ ++ r₂) = final (final s r₁) r₂ := by
  induction r₁ generalizing s with
  | nil => rfl
  | cons e r₁ ih => exact ih e.target

@[simp] lemma final_concat (s : σ) (run : List (Entry σ ι ο)) (e : Entry σ ι ο) :
    final s (run ++ [e]) = e.target := by
  rw [final_append]
  rfl

/-- A run splits at any point into a run and a run from where the first one ended. -/
lemma isRun_append {s : σ} {r₁ r₂ : List (Entry σ ι ο)} :
    IsRun Step s (r₁ ++ r₂) ↔ IsRun Step s r₁ ∧ IsRun Step (final s r₁) r₂ := by
  induction r₁ generalizing s with
  | nil => simp
  | cons e r₁ ih => simp only [List.cons_append, isRun_cons, final_cons, ih, and_assoc]

lemma isRun_concat {s : σ} {run : List (Entry σ ι ο)} {e : Entry σ ι ο} :
    IsRun Step s (run ++ [e]) ↔
      IsRun Step s run ∧ Step (final s run) e.label e.output e.target := by
  simp [isRun_append]

/-- A run of a system is a run of any system with more steps. -/
lemma IsRun.mono {Step' : σ → ι → List ο → σ → Prop}
    (hsub : ∀ s i o t, Step s i o t → Step' s i o t) :
    ∀ {s : σ} {run : List (Entry σ ι ο)}, IsRun Step s run → IsRun Step' s run
  | _, [], _ => trivial
  | _, _ :: _, ⟨hstep, hrest⟩ => ⟨hsub _ _ _ _ hstep, hrest.mono hsub⟩

/-- What a run has done at some point is a run. -/
lemma IsRun.of_isPrefix {s : σ} {r run : List (Entry σ ι ο)} (h : IsRun Step s run)
    (hr : r <+: run) : IsRun Step s r := by
  obtain ⟨t, rfl⟩ := hr
  exact (isRun_append.mp h).1

lemma transitions_append (s : σ) (r₁ r₂ : List (Entry σ ι ο)) :
    transitions s (r₁ ++ r₂) = transitions s r₁ ++ transitions (final s r₁) r₂ := by
  induction r₁ generalizing s with
  | nil => rfl
  | cons e r₁ ih => simp [ih]

lemma transitions_snd (s : σ) (run : List (Entry σ ι ο)) :
    (transitions s run).map Prod.snd = run := by
  induction run generalizing s with
  | nil => rfl
  | cons e run ih => rw [transitions_cons, List.map_cons, ih]

lemma forall_transitions {C : Entry σ ι ο → Prop} {s : σ} {run : List (Entry σ ι ο)} :
    (∀ p ∈ transitions s run, C p.2) ↔ ∀ e ∈ run, C e := by
  conv_rhs => rw [← transitions_snd s run]
  exact List.forall_mem_map.symm

end Basic

/-! ## Proving things about runs -/

/-- **Induction on runs.**  `P` speaks about the run so far and the state it has reached; it
holds of the empty run and every further step keeps it. -/
theorem IsRun.history_induction {Step : σ → ι → List ο → σ → Prop} {s₀ : σ}
    {P : List (Entry σ ι ο) → σ → Prop} (start : P [] s₀)
    (step : ∀ run s e, IsRun Step s₀ run → final s₀ run = s → P run s →
      Step s e.label e.output e.target → P (run ++ [e]) e.target) :
    ∀ run, IsRun Step s₀ run → P run (final s₀ run) := by
  intro run
  induction run using List.reverseRecOn with
  | nil => exact fun _ => start
  | append_singleton run e ih =>
      intro h
      obtain ⟨hrun, hstep⟩ := isRun_concat.mp h
      rw [final_concat]
      exact step run _ e hrun rfl (ih hrun) hstep

/-- **Invariants.**  What the first state satisfies and every step keeps, the last state
satisfies. -/
theorem IsRun.invariant {Step : σ → ι → List ο → σ → Prop} {Inv : σ → Prop}
    (keep : ∀ s i o t, Inv s → Step s i o t → Inv t) {s₀ : σ} (start : Inv s₀)
    {run : List (Entry σ ι ο)} (h : IsRun Step s₀ run) : Inv (final s₀ run) :=
  IsRun.history_induction (P := fun _ s => Inv s) start
    (fun _ _ _ _ _ hs hstep => keep _ _ _ _ hs hstep) run h

/-- **States against steps.**  Suppose `Inv` is kept by steps from good states, `Good` holds at
the start, and a step from a good state leads to a good state exactly when `Cond` holds of it.
Then every state a run reaches is good exactly when `Cond` holds of every step it takes. -/
theorem IsRun.forall_iff {Step : σ → ι → List ο → σ → Prop} {Inv Good : σ → Prop}
    {Cond : σ → ι → Prop} (keep : ∀ s i o t, Inv s → Good s → Step s i o t → Inv t)
    (local_iff : ∀ s i o t, Inv s → Good s → Step s i o t → (Good t ↔ Cond s i)) :
    ∀ (run : List (Entry σ ι ο)) (s₀ : σ), Inv s₀ → Good s₀ → IsRun Step s₀ run →
      ((∀ r, r <+: run → Good (final s₀ r)) ↔
        ∀ p ∈ transitions s₀ run, Cond p.1 p.2.label)
  | [], s₀, _, hg, _ => by
      refine ⟨fun _ p hp => absurd hp List.not_mem_nil, fun _ r hr => ?_⟩
      rw [List.prefix_nil.mp hr]
      exact hg
  | e :: run, s₀, hi, hg, hrun => by
      obtain ⟨hstep, hrest⟩ := hrun
      have hi' := keep _ _ _ _ hi hg hstep
      have hl := local_iff _ _ _ _ hi hg hstep
      constructor
      · intro hall
        have hg' : Good e.target := hall [e] ((List.prefix_cons_inj e).mpr List.nil_prefix)
        have ih := (forall_iff keep local_iff run e.target hi' hg' hrest).mp
          fun r hr => hall (e :: r) ((List.prefix_cons_inj e).mpr hr)
        intro p hp
        rw [transitions_cons, List.mem_cons] at hp
        rcases hp with rfl | hp
        · exact hl.mp hg'
        · exact ih p hp
      · intro hall r hr
        have hg' : Good e.target := hl.mpr (hall (s₀, e) List.mem_cons_self)
        have ih := (forall_iff keep local_iff run e.target hi' hg' hrest).mpr
          fun p hp => hall p (List.mem_cons_of_mem _ hp)
        rcases List.prefix_cons_iff.mp hr with rfl | ⟨r', rfl, hr'⟩
        · exact hg
        · exact ih r' hr'

/-- **What every step of a run satisfies.**  If `Inv` is kept by steps and holds at the start, then
what it implies of a single step holds of every step of the run. -/
theorem IsRun.forall_transitions {Step : σ → ι → List ο → σ → Prop} {Inv : σ → Prop}
    {Good : σ → Entry σ ι ο → Prop} (keep : ∀ s i o t, Inv s → Step s i o t → Inv t)
    (good : ∀ s i o t, Inv s → Step s i o t → Good s ⟨i, o, t⟩) :
    ∀ (run : List (Entry σ ι ο)) (s₀ : σ), Inv s₀ → IsRun Step s₀ run →
      ∀ p ∈ transitions s₀ run, Good p.1 p.2 := by
  intro run
  induction run with
  | nil => intro s₀ _ _ p hp; simp at hp
  | cons e run ih =>
      intro s₀ hs hrun
      obtain ⟨hstep, hrest⟩ := hrun
      rw [transitions_cons, List.forall_mem_cons]
      exact ⟨good _ _ _ _ hs hstep, ih e.target (keep _ _ _ _ hs hstep) hrest⟩

/-- **Outputs against steps.**  Suppose `Inv` is kept by steps and holds at the start, and what a
step puts out is good exactly when `Cond` holds of it.  Then everything a run puts out is good
exactly when `Cond` holds of every step it takes. -/
theorem IsRun.forall_outputs_iff {Step : σ → ι → List ο → σ → Prop} {Inv : σ → Prop}
    {Good : ο → Prop} {Cond : σ → ι → Prop} (keep : ∀ s i o t, Inv s → Step s i o t → Inv t)
    (local_iff : ∀ s i o t, Inv s → Step s i o t → ((∀ x ∈ o, Good x) ↔ Cond s i)) :
    ∀ (run : List (Entry σ ι ο)) (s₀ : σ), Inv s₀ → IsRun Step s₀ run →
      ((∀ x ∈ outputs run, Good x) ↔ ∀ p ∈ transitions s₀ run, Cond p.1 p.2.label) := by
  intro run
  induction run with
  | nil => intro s₀ _ _; simp
  | cons e run ih =>
      intro s₀ hs hrun
      obtain ⟨hstep, hrest⟩ := hrun
      have hhead := local_iff _ _ _ _ hs hstep
      have htail := ih e.target (keep _ _ _ _ hs hstep) hrest
      simp only [outputs_cons, List.forall_mem_append, transitions_cons, List.forall_mem_cons,
        hhead, htail]

end Systems
