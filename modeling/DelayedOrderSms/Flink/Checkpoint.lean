import DelayedOrderSms.Systems.Trace
import Mathlib.Logic.Function.Basic

/-!
# Checkpoints, crashes and a Kafka sink

A job with an operator between a Kafka source and a Kafka sink, deployed on a cluster that takes
checkpoints and restarts the job from the last completed one.

A checkpoint holds the state of the operator (with its timers) and the offsets of the source, and
a restart takes all of them back together.  The sink is another matter: its writer hands records
to a producer that sends them in the background, and what the producer still buffers when the
job crashes is gone.  `DeliveryGuarantee` says whether a checkpoint waits for the buffer.

* `Deployment`, `DeployStep` — the job, the last completed checkpoint and the topics, and
  everything that can happen to them.
* `Ledger` — an operator that marks in its state what it has put out a record for.
* `Durable` — what the last completed checkpoint marks has a record in the topic.
* `durable_iff` — a deployment is durable all along exactly when no checkpoint that completes
  marks what only the buffer has a record for; `durable_of_flush` — with `AT_LEAST_ONCE` it always
  is.
-/

namespace Flink

open Systems

/-- `DeliveryGuarantee`, for the sinks without transactions. -/
inductive DeliveryGuarantee where
  | none
  | atLeastOnce
  deriving DecidableEq, Repr

/-- What is deployed: an operator, which of its steps take a record from the source, which of its
outputs go to the sink, and the guarantee the sink was built with. -/
structure Pipeline (σ ι E F R : Type) where
  initial : σ
  step : σ → ι → List F → σ → Prop
  incoming? : ι → Option E
  collected? : F → Option R
  sinkGuarantee : DeliveryGuarantee

/-- The state of the operator and the position in every partition of the source. -/
structure Checkpoint (σ P : Type) where
  state : σ
  offsets : P → ℕ

/-- A running job: where it is, what its producer has not sent, and the checkpoint that has been
triggered but is not complete. -/
structure Running (σ P R : Type) where
  position : Checkpoint σ P
  buffer : List R
  pending : Option (Checkpoint σ P)

/-- The cluster and the two topics; `job` is `none` while the job is down. -/
structure Deployment (σ P E R : Type) where
  job : Option (Running σ P R)
  completed : Option (Checkpoint σ P)
  input : P → List E
  topic : List R

/-- What can happen. -/
inductive DeployEvent (ι P E R : Type) where
  | publish (partition : P) (record : E)
  | consume (partition : P) (i : ι)
  | internal (i : ι)
  | send (record : R)
  | trigger
  | complete
  | abort
  | crash
  | restore

/-- Nothing has run, and the topics are empty. -/
def Deployment.initial {σ P E R : Type} : Deployment σ P E R := ⟨none, none, fun _ => [], []⟩

section Step

variable {σ ι P E F R : Type} [DecidableEq P]

/-- Where the job starts: at the last completed checkpoint, or with nothing stored at the end of
the source, as `OffsetsInitializer.latest()` asks for. -/
def Deployment.resume (pl : Pipeline σ ι E F R) (d : Deployment σ P E R) : Checkpoint σ P :=
  match d.completed with
  | some checkpoint => checkpoint
  | none => ⟨pl.initial, fun p => (d.input p).length⟩

/-- **One step of a deployment.**  The operator and the writer of the sink are one task, so what a
step of the operator collects is in the buffer of the producer when the step is done. -/
inductive DeployStep (pl : Pipeline σ ι E F R) :
    Deployment σ P E R → DeployEvent ι P E R → List R → Deployment σ P E R → Prop
  | publish {d : Deployment σ P E R} {p : P} {e : E} :
      DeployStep pl d (.publish p e) []
        { d with input := Function.update d.input p (d.input p ++ [e]) }
  | consume {d : Deployment σ P E R} {t : Running σ P R} {p : P} {i : ι} {e : E} {fx : List F}
      {s : σ} :
      d.job = some t → pl.incoming? i = some e → (d.input p)[t.position.offsets p]? = some e →
      pl.step t.position.state i fx s →
      DeployStep pl d (.consume p i) []
        { d with job := some { t with
            position := ⟨s, Function.update t.position.offsets p (t.position.offsets p + 1)⟩
            buffer := t.buffer ++ fx.filterMap pl.collected? } }
  | internal {d : Deployment σ P E R} {t : Running σ P R} {i : ι} {fx : List F} {s : σ} :
      d.job = some t → pl.incoming? i = none → pl.step t.position.state i fx s →
      DeployStep pl d (.internal i) []
        { d with job := some { t with
            position := { t.position with state := s }
            buffer := t.buffer ++ fx.filterMap pl.collected? } }
  | send {d : Deployment σ P E R} {t : Running σ P R} {r : R} {before after : List R} :
      d.job = some t → t.buffer = before ++ r :: after →
      DeployStep pl d (.send r) [r]
        { d with job := some { t with buffer := before ++ after }, topic := d.topic ++ [r] }
  | trigger {d : Deployment σ P E R} {t : Running σ P R} :
      d.job = some t → t.pending = none → (pl.sinkGuarantee = .atLeastOnce → t.buffer = []) →
      DeployStep pl d .trigger [] { d with job := some { t with pending := some t.position } }
  | complete {d : Deployment σ P E R} {t : Running σ P R} {c : Checkpoint σ P} :
      d.job = some t → t.pending = some c →
      DeployStep pl d .complete []
        { d with job := some { t with pending := none }, completed := some c }
  | abort {d : Deployment σ P E R} {t : Running σ P R} :
      d.job = some t →
      DeployStep pl d .abort [] { d with job := some { t with pending := none } }
  | crash {d : Deployment σ P E R} : DeployStep pl d .crash [] { d with job := none }
  | restore {d : Deployment σ P E R} :
      d.job = none →
      DeployStep pl d .restore [] { d with job := some ⟨d.resume pl, [], none⟩ }

end Step

/-! ## Marks and the records they stand for -/

section Marks

variable {σ ι P E F R κ : Type} {pl : Pipeline σ ι E F R}
  {Valid : σ → Prop} {Marked : σ → κ → Prop} {About : R → κ → Prop}

/-- **A ledger**: nothing is marked at first, and a step that marks `k` puts out a record about
`k`. -/
structure Ledger (pl : Pipeline σ ι E F R) (Valid : σ → Prop) (Marked : σ → κ → Prop)
    (About : R → κ → Prop) : Prop where
  valid_initial : Valid pl.initial
  unmarked_initial : ∀ k, ¬ Marked pl.initial k
  valid_step : ∀ {s i fx s'}, Valid s → pl.step s i fx s' → Valid s'
  marked_step : ∀ {s i fx s' k}, Valid s → pl.step s i fx s' → Marked s' k →
    Marked s k ∨ ∃ r ∈ fx.filterMap pl.collected?, About r k

/-- Everything the state marks has a record. -/
def Backed (Marked : σ → κ → Prop) (About : R → κ → Prop) (records : List R) (s : σ) : Prop :=
  ∀ k, Marked s k → ∃ r ∈ records, About r k

/-- **What the last completed checkpoint marks has a record in the topic.** -/
def Durable (Marked : σ → κ → Prop) (About : R → κ → Prop) (d : Deployment σ P E R) : Prop :=
  ∀ c ∈ d.completed, Backed Marked About d.topic c.state

/-- When a checkpoint completes, no record in the buffer is about something it marks, unless
there is one in the topic already. -/
def Settled (Marked : σ → κ → Prop) (About : R → κ → Prop) (d : Deployment σ P E R) :
    DeployEvent ι P E R → Prop
  | .complete => ∀ t ∈ d.job, ∀ c ∈ t.pending, ∀ k, Marked c.state k →
      ∀ r ∈ t.buffer, About r k → ∃ r' ∈ d.topic, About r' k
  | _ => True

lemma Backed.mono {records records' : List R} {s : σ} (h : Backed Marked About records s)
    (hsub : records ⊆ records') : Backed Marked About records' s := by
  intro k hk
  obtain ⟨r, hr, habout⟩ := h k hk
  exact ⟨r, hsub hr, habout⟩

lemma Ledger.backed_initial (hl : Ledger pl Valid Marked About) (records : List R) :
    Backed Marked About records pl.initial := fun k hk => absurd hk (hl.unmarked_initial k)

/-- A step of the operator, with what it collects in the buffer. -/
lemma Ledger.backed_step (hl : Ledger pl Valid Marked About) {s s' : σ} {i : ι} {fx : List F}
    {topic buffer : List R} (hv : Valid s) (h : Backed Marked About (topic ++ buffer) s)
    (hs : pl.step s i fx s') :
    Backed Marked About (topic ++ (buffer ++ fx.filterMap pl.collected?)) s' := by
  intro k hk
  rw [← List.append_assoc]
  rcases hl.marked_step hv hs hk with hold | ⟨r, hr, habout⟩
  · obtain ⟨r, hr, habout⟩ := h k hold
    exact ⟨r, List.mem_append_left _ hr, habout⟩
  · exact ⟨r, List.mem_append_right _ hr, habout⟩

/-- Sending a record loses none. -/
lemma subset_of_send {topic before after : List R} {r : R} :
    topic ++ (before ++ r :: after) ⊆ (topic ++ [r]) ++ (before ++ after) := by
  intro x hx
  simp only [List.mem_append, List.mem_cons, List.not_mem_nil, or_false] at hx ⊢
  tauto

/-- Every state in a deployment is valid, and what the running job and its pending checkpoint mark
has a record in the topic or in the buffer. -/
structure Accounted (Valid : σ → Prop) (Marked : σ → κ → Prop) (About : R → κ → Prop)
    (d : Deployment σ P E R) : Prop where
  completed : ∀ c ∈ d.completed, Valid c.state
  running : ∀ t ∈ d.job, Valid t.position.state ∧
    Backed Marked About (d.topic ++ t.buffer) t.position.state
  pending : ∀ t ∈ d.job, ∀ c ∈ t.pending, Valid c.state ∧
    Backed Marked About (d.topic ++ t.buffer) c.state

lemma accounted_initial :
    Accounted Valid Marked About (Deployment.initial : Deployment σ P E R) where
  completed := fun _ hc => absurd hc (by simp [Deployment.initial])
  running := fun _ ht => absurd ht (by simp [Deployment.initial])
  pending := fun _ ht => absurd ht (by simp [Deployment.initial])

lemma durable_initial : Durable Marked About (Deployment.initial : Deployment σ P E R) :=
  fun _ hc => absurd hc (by simp [Deployment.initial])

/-! One step. -/

variable {d d' : Deployment σ P E R} {e : DeployEvent ι P E R} {o : List R}

/-- A step of the operator keeps the accounts, wherever it leaves the source. -/
lemma Accounted.operated (hl : Ledger pl Valid Marked About) (h : Accounted Valid Marked About d)
    {t : Running σ P R} {i : ι} {fx : List F} {s : σ} (hjob : d.job = some t)
    (hs : pl.step t.position.state i fx s) (offsets : P → ℕ) :
    Accounted Valid Marked About { d with job := some { t with
      position := ⟨s, offsets⟩
      buffer := t.buffer ++ fx.filterMap pl.collected? } } := by
  obtain ⟨hv, hb⟩ := h.running t hjob
  have hgrow : d.topic ++ t.buffer ⊆ d.topic ++ (t.buffer ++ fx.filterMap pl.collected?) := by
    rw [← List.append_assoc]
    exact List.subset_append_left _ _
  refine ⟨h.completed, ?_, ?_⟩
  · rintro _ ⟨⟩
    exact ⟨hl.valid_step hv hs, hl.backed_step hv hb hs⟩
  · rintro _ ⟨⟩ c hc
    obtain ⟨hvc, hbc⟩ := h.pending t hjob c hc
    exact ⟨hvc, hbc.mono hgrow⟩

/-- A restart from a durable checkpoint leaves nothing unaccounted for. -/
lemma Accounted.resumed (hl : Ledger pl Valid Marked About) (h : Accounted Valid Marked About d)
    (hd : Durable Marked About d) :
    Accounted Valid Marked About { d with job := some ⟨d.resume pl, [], none⟩ } := by
  refine ⟨h.completed, ?_, fun _ ht c hc => ?_⟩
  · rintro _ ⟨⟩
    rw [Deployment.resume, List.append_nil]
    cases hc : d.completed with
    | none => exact ⟨hl.valid_initial, hl.backed_initial _⟩
    | some c => exact ⟨h.completed c hc, hd c hc⟩
  · obtain rfl := Option.some.inj ht
    exact absurd hc (by simp)

/-- A checkpoint that completes is durable exactly if nothing it marks is only in the buffer. -/
lemma Accounted.complete_iff (h : Accounted Valid Marked About d) {t : Running σ P R}
    {c : Checkpoint σ P} (hjob : d.job = some t) (hpending : t.pending = some c) :
    Backed Marked About d.topic c.state ↔
      Settled Marked About d (.complete : DeployEvent ι P E R) := by
  constructor
  · rintro hb t' ht' c' hc' k hk _ _ _
    obtain rfl := Option.some.inj (hjob.symm.trans ht')
    obtain rfl := Option.some.inj (hpending.symm.trans hc')
    exact hb k hk
  · intro hsettled k hk
    obtain ⟨r, hr, habout⟩ := (h.pending t hjob c hpending).2 k hk
    rcases List.mem_append.mp hr with htopic | hbuffer
    · exact ⟨r, htopic, habout⟩
    · exact hsettled t hjob c hpending k hk r hbuffer habout

variable [DecidableEq P]

/-- **Steps of a durable deployment keep the accounts.** -/
theorem Accounted.step (hl : Ledger pl Valid Marked About) (h : Accounted Valid Marked About d)
    (hd : Durable Marked About d) (hs : DeployStep pl d e o d') :
    Accounted Valid Marked About d' := by
  cases hs with
  | publish => exact ⟨h.completed, h.running, h.pending⟩
  | consume hjob _ _ hstep => exact h.operated hl hjob hstep _
  | internal hjob _ hstep => exact h.operated hl hjob hstep _
  | @send t r before after hjob hbuffer =>
      have hsub : d.topic ++ t.buffer ⊆ (d.topic ++ [r]) ++ (before ++ after) :=
        hbuffer ▸ subset_of_send
      refine ⟨h.completed, ?_, ?_⟩
      · rintro _ ⟨⟩
        exact (h.running t hjob).imp_right fun hb => hb.mono hsub
      · rintro _ ⟨⟩ c hc
        exact (h.pending t hjob c hc).imp_right fun hb => hb.mono hsub
  | @trigger t hjob =>
      refine ⟨h.completed, ?_, ?_⟩
      · rintro _ ⟨⟩
        exact h.running t hjob
      · rintro _ ⟨⟩ _ ⟨⟩
        exact h.running t hjob
  | @complete t c hjob hpending =>
      refine ⟨?_, ?_, ?_⟩
      · rintro _ ⟨⟩
        exact (h.pending t hjob c hpending).1
      · rintro _ ⟨⟩
        exact h.running t hjob
      · rintro _ ⟨⟩ _ ⟨⟩
  | @abort t hjob =>
      refine ⟨h.completed, ?_, ?_⟩
      · rintro _ ⟨⟩
        exact h.running t hjob
      · rintro _ ⟨⟩ _ ⟨⟩
  | crash => exact ⟨h.completed, fun _ ht => absurd ht (by simp), fun _ ht => absurd ht (by simp)⟩
  | restore => exact h.resumed hl hd

/-- **Only the completion of a checkpoint can lose a record.** -/
theorem durable_step_iff (h : Accounted Valid Marked About d) (hd : Durable Marked About d)
    (hs : DeployStep pl d e o d') : Durable Marked About d' ↔ Settled Marked About d e := by
  cases hs with
  | complete hjob hpending =>
      rw [← h.complete_iff hjob hpending]
      constructor
      · exact fun hb => hb _ rfl
      · rintro hb _ ⟨⟩
        exact hb
  | send =>
      exact ⟨fun _ => trivial, fun _ c hc => (hd c hc).mono (List.subset_append_left _ _)⟩
  | publish => exact ⟨fun _ => trivial, fun _ => hd⟩
  | consume => exact ⟨fun _ => trivial, fun _ => hd⟩
  | internal => exact ⟨fun _ => trivial, fun _ => hd⟩
  | trigger => exact ⟨fun _ => trivial, fun _ => hd⟩
  | abort => exact ⟨fun _ => trivial, fun _ => hd⟩
  | crash => exact ⟨fun _ => trivial, fun _ => hd⟩
  | restore => exact ⟨fun _ => trivial, fun _ => hd⟩

/-- **When a deployment is durable.**  In every state it reaches, what the last completed
checkpoint marks has a record in the topic, exactly when it is settled at every step. -/
theorem durable_iff (hl : Ledger pl Valid Marked About)
    {run : List (Entry (Deployment σ P E R) (DeployEvent ι P E R) R)}
    (h : IsRun (DeployStep pl) Deployment.initial run) :
    (∀ r, r <+: run → Durable Marked About (final Deployment.initial r)) ↔
      ∀ x ∈ transitions Deployment.initial run, Settled Marked About x.1 x.2.label :=
  @IsRun.forall_iff _ _ _ (DeployStep pl) (Accounted Valid Marked About) (Durable Marked About)
    (Settled Marked About) (fun _ _ _ _ hi hg hs => hi.step hl hg hs)
    (fun _ _ _ _ hi hg hs => durable_step_iff hi hg hs) run _ accounted_initial durable_initial h

/-! With `AT_LEAST_ONCE` the buffer is empty whenever a checkpoint is triggered. -/

/-- The pending checkpoint is durable as well. -/
def Flushed (Marked : σ → κ → Prop) (About : R → κ → Prop) (d : Deployment σ P E R) : Prop :=
  Durable Marked About d ∧ ∀ t ∈ d.job, ∀ c ∈ t.pending, Backed Marked About d.topic c.state

lemma Flushed.step (hflush : pl.sinkGuarantee = .atLeastOnce) (h : Accounted Valid Marked About d)
    (hd : Flushed Marked About d) (hs : DeployStep pl d e o d') : Flushed Marked About d' := by
  obtain ⟨hd, hp⟩ := hd
  cases hs with
  | publish => exact ⟨hd, hp⟩
  | @consume t _ _ _ _ _ hjob =>
      refine ⟨hd, ?_⟩
      rintro _ ⟨⟩
      exact hp t hjob
  | @internal t _ _ _ hjob =>
      refine ⟨hd, ?_⟩
      rintro _ ⟨⟩
      exact hp t hjob
  | @send t _ _ _ hjob =>
      refine ⟨fun c hc => (hd c hc).mono (List.subset_append_left _ _), ?_⟩
      rintro _ ⟨⟩ c hc
      exact (hp t hjob c hc).mono (List.subset_append_left _ _)
  | @trigger t hjob _ hempty =>
      refine ⟨hd, ?_⟩
      rintro _ ⟨⟩ _ ⟨⟩
      have hb := (h.running t hjob).2
      rwa [hempty hflush, List.append_nil] at hb
  | @complete t c hjob hpending =>
      refine ⟨?_, ?_⟩
      · rintro _ ⟨⟩
        exact hp t hjob c hpending
      · rintro _ ⟨⟩ _ ⟨⟩
  | abort =>
      refine ⟨hd, ?_⟩
      rintro _ ⟨⟩ _ ⟨⟩
  | crash => exact ⟨hd, fun _ ht => absurd ht (by simp)⟩
  | restore =>
      refine ⟨hd, ?_⟩
      rintro _ ⟨⟩ _ ⟨⟩

/-- **A sink that is flushed for every checkpoint makes every deployment durable.** -/
theorem durable_of_flush (hl : Ledger pl Valid Marked About)
    (hflush : pl.sinkGuarantee = .atLeastOnce)
    {run : List (Entry (Deployment σ P E R) (DeployEvent ι P E R) R)}
    (h : IsRun (DeployStep pl) Deployment.initial run) :
    Durable Marked About (final Deployment.initial run) := by
  have hboth : Accounted Valid Marked About (final Deployment.initial run) ∧
      Flushed Marked About (final Deployment.initial run) :=
    @IsRun.invariant _ _ _ (DeployStep pl)
      (fun d => Accounted Valid Marked About d ∧ Flushed Marked About d)
      (fun _ _ _ _ hi hs => ⟨hi.1.step hl hi.2.1 hs, hi.2.step hflush hi.1 hs⟩) _
      ⟨accounted_initial, durable_initial, fun _ ht => absurd ht (by simp [Deployment.initial])⟩
      run h
  exact hboth.2.1

end Marks

end Flink
