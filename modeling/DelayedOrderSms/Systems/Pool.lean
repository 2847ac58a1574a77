import DelayedOrderSms.Systems.Keyed
import Mathlib.Algebra.BigOperators.Group.Finset.Basic
import Mathlib.Algebra.Order.BigOperators.Group.Finset

/-!
# A pool of workers

A pool runs `n` tasks, each a script of effects, on a number of workers: the tasks are taken in the
order they were submitted in, no more than there are workers run at a time, and the effects of
those that run come in any order.

* `PoolStep` — a turn of the pool: a task starts, does its next effect, or ends.
* `script_eq` — what a task has done and what is left of it make up its script.
* `runningCount_le` — no more tasks run than there are workers.
* `exists_poolStep` — a pool with a worker is never stuck before all tasks are done, and every turn
  is work done (`PoolStep.work_eq`); so it always can come to an end (`exists_done`).
-/

namespace Systems

/-- Where a task is. -/
inductive Phase where
  | queued
  | running
  | done
  deriving DecidableEq, Repr

/-- A task, with what is left of its script. -/
structure Progress (α : Type) where
  phase : Phase
  rest : List α

/-- What a task can do. -/
inductive Turn where
  | start
  | act
  | finish
  deriving DecidableEq, Repr

variable {α : Type}

/-- A turn of one task. -/
inductive ScriptStep : Progress α → Turn → List α → Progress α → Prop
  | start {script : List α} : ScriptStep ⟨.queued, script⟩ .start [] ⟨.running, script⟩
  | act {a : α} {rest : List α} : ScriptStep ⟨.running, a :: rest⟩ .act [a] ⟨.running, rest⟩
  | finish : ScriptStep ⟨.running, []⟩ .finish [] ⟨.done, []⟩

/-- The tasks of a pool, by the order they were submitted in. -/
abbrev Pool (α : Type) : Type := ℕ → Progress α

/-- All tasks are submitted. -/
def Pool.submitted (script : ℕ → List α) : Pool α := fun i => ⟨.queued, script i⟩

/-- How many of the first `n` tasks are running. -/
def Pool.runningCount (n : ℕ) (pool : Pool α) : ℕ :=
  ((Finset.range n).filter fun i => (pool i).phase = .running).card

/-- **A turn of the pool.**  A task is started when a worker is free and the tasks before it have
been. -/
inductive PoolStep (workers n : ℕ) : Pool α → ℕ × Turn → List α → Pool α → Prop
  | turn {pool pool' : Pool α} {i : ℕ} {t : Turn} {o : List α} :
      i < n → KeyedStep (fun _ => ScriptStep) pool (i, t) o pool' →
      (t = .start → pool.runningCount n < workers ∧ ∀ j < i, (pool j).phase ≠ .queued) →
      PoolStep workers n pool (i, t) o pool'

/-- All tasks are done. -/
def Pool.Done (n : ℕ) (pool : Pool α) : Prop := ∀ i < n, (pool i).phase = .done

section Scripts

variable {workers n : ℕ} {script : ℕ → List α} {pool pool' : Pool α} {l : ℕ × Turn} {o : List α}
  {run : List (Entry (Pool α) (ℕ × Turn) α)}

lemma PoolStep.keyed (h : PoolStep workers n pool l o pool') :
    KeyedStep (fun _ => ScriptStep) pool l o pool' := by
  cases h with
  | turn _ hs _ => exact hs

lemma ScriptStep.rest_eq {p p' : Progress α} {t : Turn} (h : ScriptStep p t o p') :
    o ++ p'.rest = p.rest := by
  cases h with
  | start => rfl
  | act => rfl
  | finish => rfl

/-- A task does its script. -/
lemma outputs_append_rest {p : Progress α} {trun : List (Entry (Progress α) Turn α)}
    (h : IsRun ScriptStep p trun) : outputs trun ++ (final p trun).rest = p.rest := by
  induction trun generalizing p with
  | nil => rfl
  | cons e trun ih =>
      obtain ⟨hstep, hrest⟩ := h
      rw [outputs_cons, final_cons, List.append_assoc, ih hrest, hstep.rest_eq]

/-- A run of the pool is a run of its tasks, each on its own. -/
lemma isRun_tasks (h : IsRun (PoolStep workers n) pool run) :
    IsRun (KeyedStep fun _ => ScriptStep) pool run :=
  h.mono fun _ _ _ _ hs => hs.keyed

/-- **What a task has done and what is left of it make up its script**, whatever the other tasks
do in between. -/
theorem script_eq (h : IsRun (PoolStep workers n) (Pool.submitted script) run) (i : ℕ) :
    outputs (project i run) ++ (final (Pool.submitted script) run i).rest = script i := by
  obtain ⟨hrun, hend⟩ := isRun_project i run _ (isRun_tasks h)
  rw [← hend]
  exact outputs_append_rest hrun

/-- A task that is done has nothing left. -/
def Emptied (p : Progress α) : Prop := p.phase = .done → p.rest = []

lemma ScriptStep.emptied {p p' : Progress α} {t : Turn} (h : ScriptStep p t o p') : Emptied p' := by
  cases h with
  | start => exact fun hdone => absurd hdone (by simp)
  | act => exact fun hdone => absurd hdone (by simp)
  | finish => exact fun _ => rfl

/-- **A task that is done has done its script.** -/
theorem script_of_done (h : IsRun (PoolStep workers n) (Pool.submitted script) run) {i : ℕ}
    (hdone : (final (Pool.submitted script) run i).phase = .done) :
    outputs (project i run) = script i := by
  have hemptied : ∀ i, Emptied (final (Pool.submitted script) run i) :=
    @IsRun.invariant _ _ _ (PoolStep workers n) (fun pool => ∀ i, Emptied (pool i))
      (fun _ _ _ _ hall hs => KeyedStep.invariant (fun _ _ _ _ _ _ hs' => hs'.emptied) hall hs.keyed)
      _ (fun _ hqueued => absurd hqueued (by simp [Pool.submitted])) run h
  have hscript := script_eq h i
  rwa [hemptied i hdone, List.append_nil] at hscript

/-- An effect of a step is in the script of its task. -/
lemma mem_script_of_mem (h : IsRun (PoolStep workers n) (Pool.submitted script) run) :
    ∀ e ∈ run, ∀ a ∈ e.output, a ∈ script e.label.1 := by
  intro e he a ha
  have hproject : a ∈ outputs (project e.label.1 run) := by
    obtain ⟨before, after, rfl⟩ := List.append_of_mem he
    rw [project_append, project_cons_same rfl, outputs_append, outputs_cons]
    exact List.mem_append_right _ (List.mem_append_left _ ha)
  rw [← script_eq h e.label.1]
  exact List.mem_append_left _ hproject

end Scripts

/-! ## Workers -/

section Workers

variable {workers n : ℕ} {pool pool' : Pool α} {l : ℕ × Turn} {o : List α}

/-- A turn starts at most its own task. -/
lemma runningCount_le_succ {i : ℕ} (hother : ∀ j, j ≠ i → pool' j = pool j) :
    pool'.runningCount n ≤ pool.runningCount n + 1 := by
  refine le_trans (Finset.card_le_card ?_) (Finset.card_insert_le i _)
  intro j hj
  rw [Finset.mem_filter] at hj
  by_cases hji : j = i
  · rw [hji]
    exact Finset.mem_insert_self _ _
  · rw [hother j hji] at hj
    exact Finset.mem_insert_of_mem (Finset.mem_filter.mpr hj)

/-- A turn of a running task starts none. -/
lemma runningCount_le_of_running {i : ℕ} (hother : ∀ j, j ≠ i → pool' j = pool j)
    (hrunning : (pool i).phase = .running) : pool'.runningCount n ≤ pool.runningCount n := by
  refine Finset.card_le_card fun j hj => ?_
  rw [Finset.mem_filter] at hj ⊢
  by_cases hji : j = i
  · rw [hji]
    exact ⟨hji ▸ hj.1, hrunning⟩
  · rwa [hother j hji] at hj

/-- **No more tasks run than there are workers.** -/
theorem runningCount_le (hle : pool.runningCount n ≤ workers) (h : PoolStep workers n pool l o pool') :
    pool'.runningCount n ≤ workers := by
  obtain ⟨i, t⟩ := l
  cases h with
  | turn _ hs hstart =>
      have hother : ∀ j, j ≠ i → pool' j = pool j := fun j hj => hs.at_other hj
      have hsame := hs.at_same
      generalize hp : pool i = p at hsame
      generalize pool' i = p' at hsame
      cases hsame with
      | start => exact le_trans (runningCount_le_succ hother) (hstart rfl).1
      | act =>
          exact le_trans (runningCount_le_of_running hother (by rw [hp])) hle
      | finish =>
          exact le_trans (runningCount_le_of_running hother (by rw [hp])) hle

/-- **A pool with a worker is never stuck** before all tasks are done. -/
theorem exists_poolStep (hworkers : 0 < workers) (hdone : ¬pool.Done n) :
    ∃ l o pool', PoolStep workers n pool l o pool' := by
  by_cases hrunning : ∃ i < n, (pool i).phase = .running
  · obtain ⟨i, hlt, hphase⟩ := hrunning
    cases hp : pool i with
    | mk phase rest =>
        rw [hp] at hphase
        obtain rfl : phase = .running := hphase
        cases rest with
        | nil =>
            have hstep : ScriptStep (pool i) .finish [] ⟨.done, []⟩ := by rw [hp]; exact .finish
            exact ⟨_, _, _, .turn hlt (.at_key hstep) fun h => absurd h (by decide)⟩
        | cons a rest =>
            have hstep : ScriptStep (pool i) .act [a] ⟨.running, rest⟩ := by rw [hp]; exact .act
            exact ⟨_, _, _, .turn hlt (.at_key hstep) fun h => absurd h (by decide)⟩
  · -- Nothing runs, so the first task that is queued can start.
    have hnone : pool.runningCount n = 0 := by
      rw [Pool.runningCount, Finset.card_eq_zero, Finset.filter_eq_empty_iff]
      intro i hi hphase
      exact hrunning ⟨i, Finset.mem_range.mp hi, hphase⟩
    have hqueued : ∃ i, i < n ∧ (pool i).phase = .queued := by
      by_contra hall
      refine hdone fun i hlt => ?_
      cases hphase : (pool i).phase with
      | queued => exact absurd ⟨i, hlt, hphase⟩ hall
      | running => exact absurd ⟨i, hlt, hphase⟩ hrunning
      | done => rfl
    obtain ⟨hlt, hphase⟩ := Nat.find_spec hqueued
    have hfirst : ∀ j < Nat.find hqueued, (pool j).phase ≠ .queued :=
      fun j hj hq => Nat.find_min hqueued hj ⟨hj.trans hlt, hq⟩
    generalize Nat.find hqueued = i at hlt hphase hfirst
    have hstep : ScriptStep (pool i) .start [] ⟨.running, (pool i).rest⟩ := by
      cases hp : pool i with
      | mk phase rest =>
          rw [hp] at hphase
          obtain rfl : phase = .queued := hphase
          exact .start
    exact ⟨_, _, _, .turn hlt (.at_key hstep) fun _ => ⟨hnone ▸ hworkers, hfirst⟩⟩

/-- The turns a task still has. -/
def Progress.work (p : Progress α) : ℕ :=
  match p.phase with
  | .queued => p.rest.length + 2
  | .running => p.rest.length + 1
  | .done => 0

/-- The turns a pool still has. -/
def Pool.work (n : ℕ) (pool : Pool α) : ℕ := ∑ i ∈ Finset.range n, (pool i).work

lemma ScriptStep.work_eq {p p' : Progress α} {t : Turn} (h : ScriptStep p t o p') :
    p'.work + 1 = p.work := by
  cases h with
  | start => rfl
  | act => rfl
  | finish => rfl

/-- **Every turn is work done.** -/
theorem PoolStep.work_eq (h : PoolStep workers n pool l o pool') : pool'.work n + 1 = pool.work n := by
  obtain ⟨i, t⟩ := l
  cases h with
  | turn hlt hs _ =>
      have hsplit := Finset.add_sum_erase (Finset.range n) (fun j => (pool j).work)
        (Finset.mem_range.mpr hlt)
      have hsplit' := Finset.add_sum_erase (Finset.range n) (fun j => (pool' j).work)
        (Finset.mem_range.mpr hlt)
      have hothers : ∑ j ∈ (Finset.range n).erase i, (pool' j).work =
          ∑ j ∈ (Finset.range n).erase i, (pool j).work := by
        refine Finset.sum_congr rfl fun j hj => ?_
        rw [hs.at_other (Finset.ne_of_mem_erase hj)]
      have hown : (pool' i).work + 1 = (pool i).work := hs.at_same.work_eq
      rw [Pool.work, Pool.work, ← hsplit, ← hsplit', hothers]
      omega

/-- **The pool can always come to an end.** -/
theorem exists_done (n : ℕ) (hworkers : 0 < workers) (pool : Pool α) :
    ∃ run, IsRun (PoolStep workers n) pool run ∧ (final pool run).Done n := by
  induction hwork : pool.work n using Nat.strong_induction_on generalizing pool with
  | _ w ih =>
      by_cases hdone : pool.Done n
      · exact ⟨[], trivial, hdone⟩
      · obtain ⟨l, o, pool', hstep⟩ := exists_poolStep hworkers hdone
        have hless := hstep.work_eq
        obtain ⟨run, hrun, hend⟩ := ih (pool'.work n) (by omega) pool' rfl
        exact ⟨⟨l, o, pool'⟩ :: run, ⟨hstep, hrun⟩, hend⟩

end Workers

end Systems
