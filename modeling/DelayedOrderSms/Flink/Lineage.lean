import DelayedOrderSms.Flink.Checkpoint

/-!
# What a checkpoint stands for

The operator of a deployment reads the source without a crash as `ReadStep` says.  A restart takes
the state and the offsets back together, so every checkpoint of a deployment, however often the
job has crashed, is one that an uninterrupted reading leads to.

* `consumed_eq` — an uninterrupted reading has taken in exactly the records between two offsets,
  in the order of the source.
* `Lineage` — the checkpoint is the end of an uninterrupted reading from the offsets `start`.
* `lineage_step` — a step of the deployment keeps the lineage of all its checkpoints; only a
  restart without a completed checkpoint begins a new one.
* `from_begunAt`, `lineage_of_completed` — what follows for runs; `begunAt` are the offsets that the
  present lineage has begun at.
-/

namespace Flink

open Systems

variable {σ ι P E F R : Type} [DecidableEq P]

/-- What the operator does between two crashes. -/
inductive ReadEvent (ι P : Type) where
  | consume (partition : P) (i : ι)
  | internal (i : ι)

/-- **A step of the operator on a source that holds the records `input`.** -/
inductive ReadStep (pl : Pipeline σ ι E F R) (input : P → List E) :
    Checkpoint σ P → ReadEvent ι P → List F → Checkpoint σ P → Prop
  | consume {c : Checkpoint σ P} {p : P} {i : ι} {e : E} {fx : List F} {s : σ} :
      pl.incoming? i = some e → (input p)[c.offsets p]? = some e → pl.step c.state i fx s →
      ReadStep pl input c (.consume p i) fx
        ⟨s, Function.update c.offsets p (c.offsets p + 1)⟩
  | internal {c : Checkpoint σ P} {i : ι} {fx : List F} {s : σ} :
      pl.incoming? i = none → pl.step c.state i fx s →
      ReadStep pl input c (.internal i) fx { c with state := s }

/-- The operation of the operator that an event is. -/
def ReadEvent.operation : ReadEvent ι P → ι
  | .consume _ i => i
  | .internal i => i

/-- The record an event takes from a partition. -/
def ReadEvent.taken? (pl : Pipeline σ ι E F R) (p : P) : ReadEvent ι P → Option E
  | .consume q i => if q = p then pl.incoming? i else none
  | .internal _ => none

/-- The records a reading has taken from a partition. -/
def consumed (pl : Pipeline σ ι E F R) (p : P)
    (reading : List (Entry (Checkpoint σ P) (ReadEvent ι P) F)) : List E :=
  reading.filterMap fun e => e.label.taken? pl p

/-- The records of a partition from one offset to another. -/
def stretch (records : List E) (start stop : ℕ) : List E := (records.take stop).drop start

/-- **The checkpoint is the end of an uninterrupted reading** of `input` from the offsets
`start`. -/
def Lineage (pl : Pipeline σ ι E F R) (input : P → List E) (start : P → ℕ)
    (c : Checkpoint σ P) : Prop :=
  ∃ reading, IsRun (ReadStep pl input) ⟨pl.initial, start⟩ reading ∧
    final ⟨pl.initial, start⟩ reading = c

/-- The checkpoints of a deployment: where the job is, and those triggered and completed. -/
inductive Deployment.Position (d : Deployment σ P E R) : Checkpoint σ P → Prop
  | completed {c : Checkpoint σ P} : d.completed = some c → d.Position c
  | running {t : Running σ P R} : d.job = some t → d.Position t.position
  | pending {t : Running σ P R} {c : Checkpoint σ P} :
      d.job = some t → t.pending = some c → d.Position c

/-! ## Uninterrupted readings -/

section Reading

variable {pl : Pipeline σ ι E F R} {input input' : P → List E} {start : P → ℕ}
  {c c' : Checkpoint σ P} {e : ReadEvent ι P} {fx : List F}

/-- A step of the operator, without the source. -/
lemma ReadStep.step (h : ReadStep pl input c e fx c') :
    pl.step c.state e.operation fx c'.state := by
  cases h with
  | consume _ _ hs => exact hs
  | internal _ hs => exact hs

/-- Records that are published do not disturb a reading. -/
lemma ReadStep.mono (h : ReadStep pl input c e fx c') (hgrow : ∀ p, input p <+: input' p) :
    ReadStep pl input' c e fx c' := by
  cases h with
  | @consume p _ _ _ _ hin hget hs =>
      obtain ⟨records, hrecords⟩ := hgrow p
      refine .consume hin ?_ hs
      rw [← hrecords, List.getElem?_append_left (List.getElem?_eq_some_iff.mp hget).1, hget]
  | internal hin hs => exact .internal hin hs

lemma Lineage.mono (h : Lineage pl input start c) (hgrow : ∀ p, input p <+: input' p) :
    Lineage pl input' start c := by
  obtain ⟨reading, hrun, hend⟩ := h
  exact ⟨reading, hrun.mono fun _ _ _ _ hs => hs.mono hgrow, hend⟩

lemma lineage_start (pl : Pipeline σ ι E F R) (input : P → List E) (start : P → ℕ) :
    Lineage pl input start ⟨pl.initial, start⟩ := ⟨[], trivial, rfl⟩

lemma Lineage.step (h : Lineage pl input start c) (hs : ReadStep pl input c e fx c') :
    Lineage pl input start c' := by
  obtain ⟨reading, hrun, rfl⟩ := h
  exact ⟨reading ++ [⟨e, fx, c'⟩], isRun_concat.mpr ⟨hrun, hs⟩, final_concat _ _ _⟩

/-- The operator's part of a reading. -/
def operated (e : Entry (Checkpoint σ P) (ReadEvent ι P) F) : Entry σ ι F :=
  ⟨e.label.operation, e.output, e.target.state⟩

/-- It is a run of the operator, to the same state. -/
lemma isRun_operated : ∀ {reading : List (Entry (Checkpoint σ P) (ReadEvent ι P) F)}
    {c : Checkpoint σ P}, IsRun (ReadStep pl input) c reading →
      IsRun pl.step c.state (reading.map operated) ∧
        final c.state (reading.map operated) = (final c reading).state
  | [], _, _ => ⟨trivial, rfl⟩
  | e :: reading, _, ⟨hstep, hrest⟩ => by
      obtain ⟨hrun, hend⟩ := isRun_operated hrest
      exact ⟨⟨hstep.step, hrun⟩, hend⟩

/-- An invariant of the operator holds at every checkpoint of a reading. -/
lemma Lineage.invariant {Valid : σ → Prop} (keep : ∀ s i o s', Valid s → pl.step s i o s' → Valid s')
    (h0 : Valid pl.initial) (h : Lineage pl input start c) : Valid c.state := by
  obtain ⟨reading, hrun, rfl⟩ := h
  obtain ⟨hoperated, hend⟩ := isRun_operated hrun
  rw [← hend]
  exact hoperated.invariant keep h0

/-- One step takes in the record at its offset, or none. -/
lemma ReadStep.stretch_eq (h : ReadStep pl input c e fx c') {p : P} (hle : start p ≤ c.offsets p) :
    stretch (input p) (start p) (c'.offsets p) =
      stretch (input p) (start p) (c.offsets p) ++ (e.taken? pl p).toList ∧
    start p ≤ c'.offsets p := by
  cases h with
  | internal => exact ⟨by simp [ReadEvent.taken?], hle⟩
  | @consume q _ _ _ _ hin hget =>
      by_cases hq : q = p
      · subst hq
        have hlt : c.offsets q < (input q).length := (List.getElem?_eq_some_iff.mp hget).1
        have hlength : ((input q).take (c.offsets q)).length = c.offsets q :=
          List.length_take_of_le (Nat.le_of_lt hlt)
        simp only [ReadEvent.taken?, if_true, hin, Option.toList_some, Function.update_self]
        refine ⟨?_, Nat.le_succ_of_le hle⟩
        rw [stretch, stretch, List.take_add_one, hget, Option.toList_some,
          List.drop_append_of_le_length (hlength.symm ▸ hle)]
      · have hsame : Function.update c.offsets q (c.offsets q + 1) p = c.offsets p :=
          Function.update_of_ne (Ne.symm hq) _ _
        simp only [ReadEvent.taken?, if_neg hq, Option.toList_none, List.append_nil, hsame, true_and]
        exact hle

/-- **Every record once, in the order of the source.**  A reading takes from a partition the
records between the offset it begins at and the offset it ends at. -/
theorem consumed_eq {reading : List (Entry (Checkpoint σ P) (ReadEvent ι P) F)}
    (h : IsRun (ReadStep pl input) c reading) (p : P) :
    consumed pl p reading =
      stretch (input p) (c.offsets p) ((final c reading).offsets p) := by
  have hall : stretch (input p) (c.offsets p) ((final c reading).offsets p) =
      consumed pl p reading ∧ c.offsets p ≤ (final c reading).offsets p := by
    refine IsRun.history_induction
      (P := fun reading c' => stretch (input p) (c.offsets p) (c'.offsets p) =
        consumed pl p reading ∧ c.offsets p ≤ c'.offsets p) ⟨?_, Nat.le_refl _⟩ ?_ reading h
    · rw [stretch, List.drop_eq_nil_of_le (List.length_take_le _ _)]
      rfl
    · intro reading c' e _ _ ⟨ih, hle⟩ hstep
      obtain ⟨hmore, hle'⟩ := hstep.stretch_eq hle
      refine ⟨?_, hle'⟩
      rw [hmore, ih, consumed, consumed, List.filterMap_append, List.filterMap_cons]
      cases e.label.taken? pl p <;> rfl
  exact hall.1.symm

end Reading

/-! ## Deployments -/

section Deployments

variable {pl : Pipeline σ ι E F R} {start : P → ℕ} {d d' : Deployment σ P E R}
  {e : DeployEvent ι P E R} {o : List R}

/-- All checkpoints of the deployment have their lineage from `start`. -/
def Deployment.From (pl : Pipeline σ ι E F R) (start : P → ℕ) (d : Deployment σ P E R) : Prop :=
  ∀ c, d.Position c → Lineage pl d.input start c

/-- The operator makes a step, and the rest of the job stays as it was. -/
lemma Deployment.From.operated (h : d.From pl start) {t : Running σ P R} (hjob : d.job = some t)
    {r : ReadEvent ι P} {fx : List F} {position : Checkpoint σ P} {buffer : List R}
    (hs : ReadStep pl d.input t.position r fx position) :
    Deployment.From pl start { d with job := some ⟨position, buffer, t.pending⟩ } := by
  rintro c (hc | hc | ⟨hc, hpending⟩)
  · exact h c (.completed hc)
  · obtain rfl := Option.some.inj hc
    exact (h _ (.running hjob)).step hs
  · obtain rfl := Option.some.inj hc
    exact h c (.pending hjob hpending)

/-- **One step.**  Without a completed checkpoint a restart begins anew; nothing else does. -/
theorem lineage_step (h : d.From pl start) (hs : DeployStep pl d e o d')
    (hrestore : e = .restore → d.completed.isSome) : d'.From pl start := by
  cases hs with
  | @publish p r =>
      have hgrow : ∀ q, d.input q <+: Function.update d.input p (d.input p ++ [r]) q := by
        intro q
        by_cases hq : q = p
        · subst hq
          rw [Function.update_self]
          exact List.prefix_append _ _
        · have hsame : Function.update d.input p (d.input p ++ [r]) q = d.input q :=
            Function.update_of_ne hq _ _
          exact hsame ▸ List.prefix_rfl
      rintro c (hc | hc | ⟨hc, hpending⟩)
      · exact (h c (.completed hc)).mono hgrow
      · exact (h _ (.running hc)).mono hgrow
      · exact (h c (.pending hc hpending)).mono hgrow
  | consume hjob hin hget hstep => exact h.operated hjob (.consume hin hget hstep)
  | internal hjob hin hstep => exact h.operated hjob (.internal hin hstep)
  | @send t r before after hjob =>
      rintro c (hc | hc | ⟨hc, hpending⟩)
      · exact h c (.completed hc)
      · obtain rfl := Option.some.inj hc
        exact h t.position (.running hjob)
      · obtain rfl := Option.some.inj hc
        exact h c (.pending hjob hpending)
  | @trigger t hjob =>
      rintro c (hc | hc | ⟨hc, hpending⟩)
      · exact h c (.completed hc)
      · obtain rfl := Option.some.inj hc
        exact h t.position (.running hjob)
      · obtain rfl := Option.some.inj hc
        obtain rfl := Option.some.inj hpending
        exact h t.position (.running hjob)
  | @complete t c hjob hpending =>
      rintro c (hc | hc | ⟨hc, hnone⟩)
      · obtain rfl := Option.some.inj hc
        exact h _ (.pending hjob hpending)
      · obtain rfl := Option.some.inj hc
        exact h t.position (.running hjob)
      · obtain rfl := Option.some.inj hc
        exact absurd hnone (by simp)
  | @abort t hjob =>
      rintro c (hc | hc | ⟨hc, hnone⟩)
      · exact h c (.completed hc)
      · obtain rfl := Option.some.inj hc
        exact h t.position (.running hjob)
      · obtain rfl := Option.some.inj hc
        exact absurd hnone (by simp)
  | crash =>
      rintro c (hc | hc | ⟨hc, _⟩)
      · exact h c (.completed hc)
      · exact absurd hc (by simp)
      · exact absurd hc (by simp)
  | restore hjob =>
      obtain ⟨c₀, hc₀⟩ := Option.isSome_iff_exists.mp (hrestore rfl)
      rintro c (hc | hc | ⟨hc, hnone⟩)
      · exact h c (.completed hc)
      · obtain rfl := Option.some.inj hc
        rw [Deployment.resume, hc₀]
        exact h _ (.completed hc₀)
      · obtain rfl := Option.some.inj hc
        exact absurd hnone (by simp)

/-- A restart without a completed checkpoint begins at the end of the source. -/
lemma from_restored (hcompleted : d.completed = none) :
    Deployment.From pl (fun p => (d.input p).length)
      { d with job := some ⟨d.resume pl, [], none⟩ } := by
  have hresume : d.resume pl = ⟨pl.initial, fun p => (d.input p).length⟩ := by
    rw [Deployment.resume, hcompleted]
  rintro c (hc | hc | ⟨hc, hnone⟩)
  · exact absurd (hcompleted.symm.trans hc) (by simp)
  · obtain rfl := Option.some.inj hc
    exact hresume ▸ lineage_start _ _ _
  · obtain rfl := Option.some.inj hc
    exact absurd hnone (by simp)

/-- A completed checkpoint is never given up. -/
lemma DeployStep.isSome_completed (hs : DeployStep pl d e o d') (h : d.completed.isSome) :
    d'.completed.isSome := by
  cases hs with
  | complete => rfl
  | publish => exact h
  | consume => exact h
  | internal => exact h
  | send => exact h
  | trigger => exact h
  | abort => exact h
  | crash => exact h
  | restore => exact h

/-- **The offsets that the job has begun at**: those of its last start without a completed
checkpoint, and `start` before any. -/
def begunAt (start : P → ℕ) (d : Deployment σ P E R) :
    List (Entry (Deployment σ P E R) (DeployEvent ι P E R) R) → P → ℕ
  | [] => start
  | e :: rest =>
      begunAt
        (match e.label, d.completed with
          | .restore, none => fun p => (d.input p).length
          | _, _ => start)
        e.target rest

/-- **Every checkpoint of a deployment has its lineage from there**, whatever crashed before. -/
theorem from_begunAt (hstart : d.From pl start)
    {run : List (Entry (Deployment σ P E R) (DeployEvent ι P E R) R)}
    (h : IsRun (DeployStep pl) d run) : (final d run).From pl (begunAt start d run) := by
  induction run generalizing d start with
  | nil => exact hstart
  | cons e run ih =>
      obtain ⟨hstep, hrest⟩ := h
      obtain ⟨l, o, d'⟩ := e
      refine ih ?_ hrest
      split
      · next hlabel hcompleted =>
          obtain rfl : l = .restore := hlabel
          dsimp only at hstep ⊢
          cases hstep with
          | restore => exact from_restored hcompleted
      · next hother =>
          refine lineage_step hstart hstep fun he => ?_
          exact Option.isSome_iff_ne_none.mpr fun hnone => hother he hnone

lemma from_initial (pl : Pipeline σ ι E F R) (start : P → ℕ) :
    Deployment.initial.From pl start := by
  rintro c (hc | hc | ⟨hc, _⟩)
  · exact absurd hc (by simp [Deployment.initial])
  · exact absurd hc (by simp [Deployment.initial])
  · exact absurd hc (by simp [Deployment.initial])

lemma exists_lineage {run : List (Entry (Deployment σ P E R) (DeployEvent ι P E R) R)}
    (h : IsRun (DeployStep pl) Deployment.initial run) :
    ∃ start, (final Deployment.initial run).From pl start :=
  ⟨_, from_begunAt (from_initial pl fun _ => 0) h⟩

/-- **Once a checkpoint has completed, the lineage goes on through every crash.** -/
theorem lineage_of_completed (hstart : d.From pl start) (hcompleted : d.completed.isSome)
    {run : List (Entry (Deployment σ P E R) (DeployEvent ι P E R) R)}
    (h : IsRun (DeployStep pl) d run) : (final d run).From pl start :=
  (@IsRun.invariant _ _ _ (DeployStep pl)
    (fun d => Deployment.From pl start d ∧ d.completed.isSome)
    (fun _ _ _ _ hd hs => ⟨lineage_step hd.1 hs fun _ => hd.2, hs.isSome_completed hd.2⟩) _
    ⟨hstart, hcompleted⟩ run h).1

/-- An invariant of the operator holds of every checkpoint of a deployment. -/
theorem position_invariant {Valid : σ → Prop}
    (keep : ∀ s i o s', Valid s → pl.step s i o s' → Valid s') (h0 : Valid pl.initial)
    {run : List (Entry (Deployment σ P E R) (DeployEvent ι P E R) R)}
    (h : IsRun (DeployStep pl) Deployment.initial run) {c : Checkpoint σ P}
    (hc : (final Deployment.initial run).Position c) : Valid c.state := by
  obtain ⟨start, hstart⟩ := exists_lineage h
  exact (hstart c hc).invariant keep h0

end Deployments

end Flink
