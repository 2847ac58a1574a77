import DelayedOrderSms.Processor.Steps
import DelayedOrderSms.Systems.Determinism

/-!
# The two state backends agree

The unit tests run the operator on the heap backend, where `value()` answers the stored object
and every setter takes effect at once; the job runs on RocksDB, where `value()` answers a copy and
setters take effect at the next `update`.

* `jobStep_backend_iff` — from the states the job can be in, both make the same steps.
* `jobStep_deterministic` — a step is determined by its label, so runs on the same labels coincide.
* `returns_written` — the reason: a call that returns normally leaves nothing unwritten.
* `backends_agree` — what that says about runs.
-/

namespace DelayedOrderSms

open Java Flink Systems

/-- Everything that is stored has the required fields. -/
def Job.Readable (j : Job) : Prop := ∃ slots : String → Slot Tracked,
  j = mapKeys (Slot.map Tracked.toDelayState) slots

lemma readable_initial : Job.initial.Readable := ⟨fun _ => Slot.empty, rfl⟩

/-- The steps of the job are those of `TrackedStep`, key by key. -/
lemma jobStep_embeds (config : StateConfig) :
    Embeds (mapKeys (Slot.map Tracked.toDelayState)) (KeyedStep (TrackedStep config.ttl))
      (JobStep config) :=
  KeyedStep.embeds (keyStep_embeds config)

section Steps

variable {config : StateConfig} {j j' : Job} {l : String × KeyEvent OrderState} {fx : List Effect}

lemma Job.Readable.step (h : j.Readable) (hs : JobStep config j l fx j') : j'.Readable := by
  obtain ⟨slots, rfl⟩ := h
  obtain ⟨slots', _, rfl⟩ := (jobStep_embeds config slots l fx j').mp hs
  exact ⟨slots', rfl⟩

/-- The backend makes no difference to a step. -/
lemma jobStep_backend_iff (h : j.Readable) (b b' : Backend) (ttl : Option ℕ) :
    JobStep ⟨b, ttl⟩ j l fx j' ↔ JobStep ⟨b', ttl⟩ j l fx j' := by
  obtain ⟨slots, rfl⟩ := h
  rw [jobStep_embeds ⟨b, ttl⟩ slots l fx j', jobStep_embeds ⟨b', ttl⟩ slots l fx j']

/-- One step of a key is determined by the event. -/
lemma keyStep_deterministic (config : StateConfig) (k : String) :
    Deterministic (KeyStep delayedOrderOperator config k) := by
  intro s e fx t fx' t' h h'
  cases h with
  | element _ hrun =>
      cases h' with
      | element _ hrun' =>
          obtain ⟨rfl, rfl⟩ := Prod.mk.inj (Except.ok.inj (hrun.symm.trans hrun'))
          exact ⟨rfl, rfl⟩
  | timer _ _ hrun =>
      cases h' with
      | timer _ _ hrun' =>
          obtain ⟨rfl, rfl⟩ := Prod.mk.inj (Except.ok.inj (hrun.symm.trans hrun'))
          exact ⟨rfl, rfl⟩

lemma jobStep_deterministic (config : StateConfig) : Deterministic (JobStep config) :=
  KeyedStep.deterministic (keyStep_deterministic config)

end Steps

/-! ## Nothing is left unwritten -/

/-- A call that returns normally ends as `Returns` describes. -/
lemma Returns.written {op : Body Unit} {slot slot' : Slot OrderDelayState} {fx : List Effect}
    {s : Invocation OrderDelayState Effect} (h : Returns op slot fx slot')
    (hrun : op.run ⟨slot, none, false, []⟩ = .ok ((), s)) : s.Written := by
  obtain ⟨s', hrun', _, _, hwritten⟩ := h
  have hs : s = s' := congrArg Prod.snd (Except.ok.inj (hrun.symm.trans hrun'))
  rw [hs]
  exact hwritten

/-- **Every call writes back what it changed**: when `processElement` returns normally, the object
it holds is the one that is stored. -/
lemma processElement_written {context : Context} {o : OrderState} {slot : Slot Tracked}
    {s : Invocation OrderDelayState Effect}
    (h : (processElement context o).run ⟨slot.map Tracked.toDelayState, none, false, []⟩ =
      .ok ((), s)) : s.Written := by
  cases hvalid : isValid o with
  | false =>
      simp [processElement, Op.run_bind, hvalid, Op.emit] at h
      intro v hv
      rw [← h] at hv
      exact absurd hv (by simp)
  | true =>
      obtain ⟨snapshot, rfl⟩ := isValid_iff.mp hvalid
      rcases delivered_or_overflows context.config.ttl context.currentProcessingTime snapshot slot
        with ⟨fx, slot', hd⟩ | hover
      · exact hd.returns.written h
      · have hthrows := hover.runOn
        rw [Op.runOn, h] at hthrows
        exact absurd hthrows (by simp)

/-- The same of `onTimer`. -/
lemma onTimer_written {context : Context} {ts : Long} {slot : Slot Tracked}
    {s : Invocation OrderDelayState Effect}
    (h : (onTimer context ts).run ⟨slot.map Tracked.toDelayState, none, false, []⟩ = .ok ((), s)) :
    s.Written := by
  rcases fired_or_overflows context.config.ttl context.currentProcessingTime ts slot
    with ⟨fx, slot', hf⟩ | hover
  · exact hf.returns.written h
  · have hthrows := @TimerOverflows.runOn context slot ts hover
    rw [Op.runOn, h] at hthrows
    exact absurd hthrows (by simp)

/-! ## Runs -/

/-- No call from the state `j` leaves an object it holds unwritten. -/
def Job.WritesBack (config : StateConfig) (j : Job) : Prop :=
  ∀ k now wall s,
    (∀ o, (processElement ⟨config, now, wall⟩ o).run ⟨j k, none, false, []⟩ = .ok ((), s) →
      s.Written) ∧
    ∀ ts, (onTimer ⟨config, now, wall⟩ ts).run ⟨(j k).pop ts, none, false, []⟩ = .ok ((), s) →
      s.Written

lemma Job.Readable.writesBack {config : StateConfig} {j : Job} (h : j.Readable) :
    j.WritesBack config := by
  obtain ⟨slots, rfl⟩ := h
  intro k now wall s
  constructor
  · intro o hrun
    exact processElement_written hrun
  · intro ts hrun
    rw [mapKeys_apply, Slot.pop_map] at hrun
    exact onTimer_written hrun

/-- **The test backend and the production backend agree.**  Every run on the one is a run on the
other; runs of both on the same snapshots and timer firings have the same outputs and pass
through the same states, stored values and timers of every order; and in the state reached no
call that returns normally leaves an object it has changed unwritten. -/
theorem backends_agree (ttl : Option ℕ)
    (run : List (Entry Job (String × KeyEvent OrderState) Effect)) :
    (IsRun (JobStep ⟨.rocksDB, ttl⟩) Job.initial run ↔
        IsRun (JobStep ⟨.heap, ttl⟩) Job.initial run) ∧
      (IsRun (JobStep ⟨.rocksDB, ttl⟩) Job.initial run →
        (∀ run', IsRun (JobStep ⟨.heap, ttl⟩) Job.initial run' →
          run'.map Entry.label = run.map Entry.label → run' = run) ∧
        ∀ backend, (final Job.initial run).WritesBack ⟨backend, ttl⟩) := by
  have hiff : ∀ r, IsRun (JobStep ⟨.rocksDB, ttl⟩) Job.initial r ↔
      IsRun (JobStep ⟨.heap, ttl⟩) Job.initial r := by
    intro r
    exact isRun_congr (fun _ _ _ _ hj hs => Job.Readable.step hj hs)
      (fun _ _ _ _ hj => jobStep_backend_iff hj _ _ _) r _ readable_initial
  refine ⟨hiff run, fun hrun => ⟨?_, ?_⟩⟩
  · intro run' hrun' hlabels
    exact (jobStep_deterministic _).run_unique hrun' ((hiff run).mp hrun) hlabels
  · intro backend
    have hreadable : (final Job.initial run).Readable :=
      hrun.invariant (fun _ _ _ _ hj hs => hj.step hs) readable_initial
    exact hreadable.writesBack

/-- The run `isRun_lateTimer`, made on the heap. -/
theorem backends_agree_lateTimer :
    IsRun (JobStep ⟨.heap, none⟩) Job.initial lateTimer ∧
      (final Job.initial lateTimer).WritesBack ⟨.rocksDB, none⟩ :=
  ⟨(backends_agree none lateTimer).1.mp isRun_lateTimer,
    ((backends_agree none lateTimer).2 isRun_lateTimer).2 .rocksDB⟩

end DelayedOrderSms
