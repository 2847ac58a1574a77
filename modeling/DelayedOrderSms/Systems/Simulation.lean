import DelayedOrderSms.Systems.Trace

/-!
# Implementing a reference

A reference is a function: from its state and an input it computes its next state and an answer.
A transition system implements it when, on the inputs that are allowed, it can always make a step
and every step it makes gives the answer of the reference.

* `answers`, `Admits` — what the reference answers to a list of inputs, and that each of them is
  allowed when it comes.
* `Implements` — the correspondence of single steps through a relation of states.
* `Implements.exists_run`, `Implements.answers_eq` — runs: the system gets through every admitted
  list of inputs, and however it does so, step by step its answers are those of the reference.
-/

namespace Systems

variable {σ τ ι ο ω : Type}

/-- The answers of the reference to a list of inputs. -/
def answers (next : τ → ι → τ × ω) : τ → List ι → List ω
  | _, [] => []
  | d, i :: is => (next d i).2 :: answers next (next d i).1 is

/-- Every input of the list is allowed when it comes. -/
def Admits (next : τ → ι → τ × ω) (Allowed : τ → ι → Prop) : τ → List ι → Prop
  | _, [] => True
  | d, i :: is => Allowed d i ∧ Admits next Allowed (next d i).1 is

/-- On allowed inputs, `Step` can make a step, and all its steps answer like the reference. -/
structure Implements (Step : σ → ι → List ο → σ → Prop) (view : List ο → ω)
    (next : τ → ι → τ × ω) (Allowed : τ → ι → Prop) (R : σ → τ → Prop) : Prop where
  enabled : ∀ {s d i}, R s d → Allowed d i → ∃ o t, Step s i o t
  agrees : ∀ {s d i o t}, R s d → Allowed d i → Step s i o t →
    R t (next d i).1 ∧ view o = (next d i).2

section Implements

variable {Step : σ → ι → List ο → σ → Prop} {view : List ο → ω} {next : τ → ι → τ × ω}
  {Allowed : τ → ι → Prop} {R : σ → τ → Prop}

/-- **The system gets through every admitted list of inputs.** -/
theorem Implements.exists_run (h : Implements Step view next Allowed R) :
    ∀ {is : List ι} {s : σ} {d : τ}, R s d → Admits next Allowed d is →
      ∃ run, IsRun Step s run ∧ run.map Entry.label = is
  | [], _, _, _, _ => ⟨[], trivial, rfl⟩
  | i :: is, s, d, hR, hadm => by
      obtain ⟨o, t, hstep⟩ := h.enabled hR hadm.1
      obtain ⟨run, hrun, hlabels⟩ := h.exists_run (h.agrees hR hadm.1 hstep).1 hadm.2
      exact ⟨⟨i, o, t⟩ :: run, ⟨hstep, hrun⟩, by rw [List.map_cons, hlabels]⟩

/-- **Its answers are those of the reference**, step by step. -/
theorem Implements.answers_eq (h : Implements Step view next Allowed R) :
    ∀ {run : List (Entry σ ι ο)} {s : σ} {d : τ}, R s d →
      Admits next Allowed d (run.map Entry.label) → IsRun Step s run →
        run.map (fun e => view e.output) = answers next d (run.map Entry.label)
  | [], _, _, _, _, _ => rfl
  | e :: run, s, d, hR, hadm, hrun => by
      obtain ⟨hR', hview⟩ := h.agrees hR hadm.1 hrun.1
      have ih := h.answers_eq hR' hadm.2 hrun.2
      rw [List.map_cons, List.map_cons, answers, hview, ih]

end Implements

end Systems
