import DelayedOrderSms.Flink.Lineage
import Mathlib.Order.Basic

/-!
# Where duplicates come from

A restart gives up the records of the steps since the checkpoint only as far as they were still in
the buffer; the operator makes these steps again, and so puts out some of them a second time.

An operator that marks what it has put out a record for, and puts out none for what is marked
(`Once`), spends an allowance: every restart from a checkpoint without the mark grants one record,
and so does every step at which the mark lapses.

* `Granted` — what the records put out and the allowance of the running job add up to.
* `granted_step` — a step spends no more than it is granted.
* `records_le` — so no more records are in the topic and the buffer than the restarts and the
  lapses of a run account for.
-/

namespace Flink

open Systems

variable {σ ι P E F R κ : Type}

/-- **One record for one mark**: a step that puts out a record about `k` finds `k` unmarked and
marks it, and a mark only goes at a step at which it lapses. -/
structure Once (pl : Pipeline σ ι E F R) (Valid : σ → Prop) (marked : σ → κ → Bool)
    (about : R → κ → Bool) (lapses : σ → ι → κ → Bool) : Prop where
  valid_initial : Valid pl.initial
  valid_step : ∀ s i fx s', Valid s → pl.step s i fx s' → Valid s'
  spent : ∀ s i fx s' k, Valid s → pl.step s i fx s' →
    (fx.filterMap pl.collected?).countP (about · k) + (marked s k).toNat ≤
      (marked s' k).toNat + (lapses s i k).toNat

/-- The records in the topic and in the buffer. -/
def Deployment.records (d : Deployment σ P E R) : List R :=
  d.topic ++ match d.job with
    | none => []
    | some t => t.buffer

/-- The records about `k` that the running job may still put out. -/
def Deployment.allowance (marked : σ → κ → Bool) (k : κ) (d : Deployment σ P E R) : ℕ :=
  match d.job with
  | none => 0
  | some t => (!marked t.position.state k).toNat

/-- A restart from a state without the mark. -/
def grants (pl : Pipeline σ ι E F R) (marked : σ → κ → Bool) (k : κ)
    (x : Deployment σ P E R × Entry (Deployment σ P E R) (DeployEvent ι P E R) R) : Bool :=
  match x.2.label with
  | .restore => !marked (x.1.resume pl).state k
  | _ => false

/-- A step of the operator at which the mark lapses. -/
def lapsed (lapses : σ → ι → κ → Bool) (k : κ)
    (x : Deployment σ P E R × Entry (Deployment σ P E R) (DeployEvent ι P E R) R) : Bool :=
  match x.2.label, x.1.job with
  | .consume _ i, some t => lapses t.position.state i k
  | .internal i, some t => lapses t.position.state i k
  | _, _ => false

/-- The records put out about `k` and the allowance are within `total`. -/
def Granted (marked : σ → κ → Bool) (about : R → κ → Bool) (k : κ) (total : ℕ)
    (d : Deployment σ P E R) : Prop :=
  d.records.countP (about · k) + d.allowance marked k ≤ total

section Step

variable {pl : Pipeline σ ι E F R} {Valid : σ → Prop} {marked : σ → κ → Bool}
  {about : R → κ → Bool} {lapses : σ → ι → κ → Bool} {k : κ} {total : ℕ}
  {d d' : Deployment σ P E R}

lemma toNat_not_add_toNat (b : Bool) : (!b).toNat + b.toNat = 1 := by cases b <;> rfl

lemma countP_one {α : Type} (p : α → Bool) (a : α) : [a].countP p = (p a).toNat := by
  cases h : p a <;> simp [h]

lemma granted_running {t : Running σ P R} (hjob : d.job = some t) :
    Granted marked about k total d ↔
      d.topic.countP (about · k) + t.buffer.countP (about · k) +
        (!marked t.position.state k).toNat ≤ total := by
  simp only [Granted, Deployment.records, Deployment.allowance, hjob, List.countP_append]

/-- A step of the operator spends what it puts out. -/
lemma Granted.operated (ho : Once pl Valid marked about lapses) {t : Running σ P R}
    (hjob : d.job = some t) (hv : Valid t.position.state) (h : Granted marked about k total d)
    {i : ι} {fx : List F} {s : σ} (hs : pl.step t.position.state i fx s) (offsets : P → ℕ) :
    Granted marked about k (total + (lapses t.position.state i k).toNat) { d with
      job := some { t with
        position := ⟨s, offsets⟩
        buffer := t.buffer ++ fx.filterMap pl.collected? } } := by
  rw [granted_running hjob] at h
  rw [granted_running rfl, List.countP_append]
  have hspent := ho.spent _ _ _ _ k hv hs
  have hbefore := toNat_not_add_toNat (marked t.position.state k)
  have hafter := toNat_not_add_toNat (marked s k)
  dsimp only
  omega

/-- What happens to the job otherwise does not touch its state, and loses no record. -/
lemma Granted.kept {t t' : Running σ P R} (hjob : d.job = some t)
    (h : Granted marked about k total d) (hjob' : d'.job = some t')
    (hposition : t'.position = t.position)
    (hcount : d'.topic.countP (about · k) + t'.buffer.countP (about · k) =
      d.topic.countP (about · k) + t.buffer.countP (about · k)) :
    Granted marked about k total d' := by
  rw [granted_running hjob] at h
  rw [granted_running hjob', hposition, hcount]
  exact h

variable [DecidableEq P]

/-- **A step spends no more than it is granted.** -/
theorem granted_step (ho : Once pl Valid marked about lapses) (h : Granted marked about k total d)
    (hv : ∀ t ∈ d.job, Valid t.position.state) {e : DeployEvent ι P E R} {o : List R}
    (hs : DeployStep pl d e o d') :
    Granted marked about k (total + (grants pl marked k (d, ⟨e, o, d'⟩)).toNat +
      (lapsed lapses k (d, ⟨e, o, d'⟩)).toNat) d' := by
  cases hs with
  | publish => exact h
  | @consume t _ _ _ _ _ hjob _ _ hstep =>
      simp only [grants, lapsed, hjob]
      exact h.operated ho hjob (hv t hjob) hstep _
  | @internal t _ _ _ hjob _ hstep =>
      simp only [grants, lapsed, hjob]
      exact h.operated ho hjob (hv t hjob) hstep _
  | send hjob hbuffer =>
      refine Granted.kept hjob h rfl rfl ?_
      simp only [hbuffer, List.countP_append, List.countP_cons, List.countP_nil]
      omega
  | trigger hjob => exact h.kept hjob rfl rfl rfl
  | complete hjob => exact h.kept hjob rfl rfl rfl
  | abort hjob => exact h.kept hjob rfl rfl rfl
  | crash =>
      have hle : d.topic.countP (about · k) ≤ total := by
        rw [Granted, Deployment.records, List.countP_append] at h
        omega
      simpa [Granted, Deployment.records, Deployment.allowance, grants, lapsed] using hle
  | restore hjob =>
      rw [Granted, Deployment.records, Deployment.allowance, hjob, List.append_nil] at h
      rw [granted_running rfl, List.countP_nil]
      simp only [grants, lapsed, Bool.toNat_false]
      omega

/-- **No record is put out but at the expense of a restart or a lapse.**  In every state of every
deployment, the records about `k` in the topic and in the buffer are no more than the restarts from
a state without the mark and the steps at which it lapses. -/
theorem records_le (ho : Once pl Valid marked about lapses) (k : κ)
    {run : List (Entry (Deployment σ P E R) (DeployEvent ι P E R) R)}
    (h : IsRun (DeployStep pl) Deployment.initial run) :
    (final Deployment.initial run).records.countP (about · k) ≤
      (transitions Deployment.initial run).countP (grants pl marked k) +
        (transitions Deployment.initial run).countP (lapsed lapses k) := by
  have hall : Granted marked about k
      ((transitions Deployment.initial run).countP (grants pl marked k) +
        (transitions Deployment.initial run).countP (lapsed lapses k))
      (final Deployment.initial run) := by
    refine IsRun.history_induction
      (P := fun run d => Granted marked about k
        ((transitions Deployment.initial run).countP (grants pl marked k) +
          (transitions Deployment.initial run).countP (lapsed lapses k)) d) ?_ ?_ run h
    · exact Nat.le_refl _
    · rintro run _ ⟨e, o, d'⟩ hrun rfl ih (hstep : DeployStep pl _ e o d')
      have hv : ∀ t ∈ (final Deployment.initial run).job, Valid t.position.state :=
        fun t ht => position_invariant ho.valid_step ho.valid_initial hrun (.running ht)
      have hnext := granted_step ho ih hv hstep
      rw [Granted] at hnext ⊢
      dsimp only
      simp only [transitions_append, transitions_cons, transitions_nil, List.countP_append,
        countP_one]
      omega
  rw [Granted] at hall
  omega

end Step

end Flink
