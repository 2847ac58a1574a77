import DelayedOrderSms.Processor.Delivery

/-!
# Runs of the operator

The job is the product of its orders: one slot a key, the operator run on each (`JobStep`), with
or without values expiring at any moment (`ExpiringJobStep`).

`TrackedStep` is the same step on `Tracked` values, one constructor a way in which an element or
a timer can be treated.  `keyStep_embeds` shows that the operator's slots make exactly these
steps, so a run of the job, seen from one key, is the image of a run of `TrackedStep`
(`tracked_run`, `tracked_expiring_run`): invariants are proved by cases on `TrackedStep`.
-/

namespace DelayedOrderSms

open Java Flink Systems

/-- What the job stores, key by key. -/
abbrev Job : Type := String → Slot OrderDelayState

/-- A job that has seen nothing. -/
def Job.initial : Job := fun _ => Slot.empty

/-- **A step of the job**: an element is processed under its key or a timer of a key fires. -/
def JobStep (config : StateConfig) :
    Job → String × KeyEvent OrderState → List Effect → Job → Prop :=
  KeyedStep (KeyStep delayedOrderOperator config)

/-- A step of the job, or the value of an order expiring. -/
def ExpiringJobStep (config : StateConfig) :
    Job → String × Fault (KeyEvent OrderState) → List Effect → Job → Prop :=
  KeyedStep fun k => ExpiringStep (KeyStep delayedOrderOperator config k)

/-- A step in which nothing expires. -/
def asEvent (e : Entry Job (String × KeyEvent OrderState) Effect) :
    Entry Job (String × Fault (KeyEvent OrderState)) Effect :=
  ⟨(e.label.1, .event e.label.2), e.output, e.target⟩

/-- The runs without expiry are among the runs with it. -/
lemma isRun_asEvent {config : StateConfig} : ∀ (run : List (Entry Job _ Effect)) (j : Job),
    IsRun (JobStep config) j run → IsRun (ExpiringJobStep config) j (run.map asEvent)
  | [], _, _ => trivial
  | ⟨(k, e), fx, j'⟩ :: run, j, ⟨hstep, hrest⟩ => by
      refine ⟨?_, isRun_asEvent run j' hrest⟩
      cases hstep with
      | at_key hs => exact .at_key (.event hs)

lemma project_asEvent (k : String) :
    ∀ run : List (Entry Job (String × KeyEvent OrderState) Effect), project k (run.map asEvent) =
      (project k run).map fun e => ⟨.event e.label, e.output, e.target⟩
  | [] => rfl
  | e :: run => by
      have ih := project_asEvent k run
      by_cases hk : e.label.1 = k
      · rw [List.map_cons, project_cons_same hk, project_cons_same (e := asEvent e) hk, ih]
        rfl
      · rw [List.map_cons, project_cons_other hk, project_cons_other (e := asEvent e) hk, ih]

lemma outputs_project_asEvent (k : String)
    (run : List (Entry Job (String × KeyEvent OrderState) Effect)) :
    outputs (project k (run.map asEvent)) = outputs (project k run) := by
  rw [project_asEvent]
  simp [outputs, List.flatMap_map]

lemma final_asEvent : ∀ (run : List (Entry Job (String × KeyEvent OrderState) Effect)) (j : Job),
    final j (run.map asEvent) = final j run
  | [], _ => rfl
  | e :: run, _ => final_asEvent run e.target

/-- The command an output carries, if it is one. -/
def Effect.command? : Effect → Option SmsCommand
  | .collect c => some c
  | .output _ => none
  | .inc _ => none

/-- The commands among the outputs, in order. -/
def commands (fx : List Effect) : List SmsCommand := fx.filterMap Effect.command?

@[simp] lemma commands_nil : commands [] = [] := rfl

@[simp] lemma commands_append (fx fx' : List Effect) :
    commands (fx ++ fx') = commands fx ++ commands fx' := List.filterMap_append

@[simp] lemma commands_notification (s : Snapshot) (now : Long) :
    commands (s.notification now) = [s.delayCommand now] := rfl

/-- **One step of one order**, on what is kept of it. -/
inductive TrackedStep (ttl : Option ℕ) (k : String) :
    Slot Tracked → KeyEvent OrderState → List Effect → Slot Tracked → Prop
  | invalid {slot : Slot Tracked} {now : Long} {wall : Instant} {o : OrderState} :
      o.orderId = some k → isValid o = false →
      TrackedStep ttl k slot (.element now wall o)
        [.output (invalidOrderEvent o wall), .inc .invalid_messages] slot
  | delivered {slot slot' : Slot Tracked} {now : Long} {wall : Instant} {s : Snapshot}
      {fx : List Effect} : s.orderId = k → Delivered ttl now s slot fx slot' →
      TrackedStep ttl k slot (.element now wall s.toOrderState) fx slot'
  | fired {slot slot' : Slot Tracked} {now : Long} {wall : Instant} {ts : Long}
      {fx : List Effect} : ts ∈ slot.timers → ts ≤ now → Fired ttl now ts (slot.pop ts) fx slot' →
      TrackedStep ttl k slot (.timer now wall ts) fx slot'

/-- **The operator's slots make exactly the steps of `TrackedStep`.** -/
theorem keyStep_embeds (config : StateConfig) (k : String) :
    Embeds (Slot.map Tracked.toDelayState) (TrackedStep config.ttl k)
      (KeyStep delayedOrderOperator config k) := by
  intro slot e fx r
  constructor
  · intro h
    cases h with
    | @element _ now wall o _ hkey hrun =>
        cases hvalid : isValid o with
        | false =>
            have hinv := @processElement_invalid ⟨config, now, wall⟩ o hvalid
              (slot.map Tracked.toDelayState)
            obtain ⟨rfl, rfl⟩ := Prod.mk.inj (Except.ok.inj (hinv.symm.trans hrun))
            exact ⟨slot, .invalid hkey hvalid, rfl⟩
        | true =>
            obtain ⟨s, rfl⟩ := isValid_iff.mp hvalid
            obtain ⟨slot', hd, rfl⟩ := processElement_ok_iff.mp hrun
            exact ⟨slot', .delivered (Option.some.inj hkey) hd, rfl⟩
    | timer hmem hle hrun =>
        rw [Slot.pop_map] at hrun
        obtain ⟨slot', hf, rfl⟩ := onTimer_ok_iff.mp hrun
        exact ⟨slot', .fired hmem hle hf, rfl⟩
  · rintro ⟨slot', h, rfl⟩
    cases h with
    | invalid hkey hvalid => exact .element hkey (processElement_invalid hvalid _)
    | delivered hkey hd =>
        exact .element (congrArg some hkey) (processElement_ok_iff.mpr ⟨slot', hd, rfl⟩)
    | fired hmem hle hf =>
        exact .timer hmem hle (by
          rw [Slot.pop_map]
          exact onTimer_ok_iff.mpr ⟨slot', hf, rfl⟩)

/-! ## What every step has in common -/

/-- What is kept under a key is the order with that id. -/
def HasKey (k : String) (slot : Slot Tracked) : Prop :=
  ∀ c ∈ slot.cell, c.userValue.snapshot.orderId = k

lemma hasKey_empty (k : String) : HasKey k Slot.empty := fun _ h => by simp [Slot.empty] at h

lemma hasKey_wrote {k : String} {t : Tracked} (h : t.snapshot.orderId = k) (now : Long)
    (T : Finset Long) : HasKey k (wrote t now T) := by
  rintro c ⟨⟩
  exact h

lemma HasKey.of_value {k : String} {slot : Slot Tracked} (h : HasKey k slot) {ttl : Option ℕ}
    {now : Long} {t : Tracked} (hv : slot.value ttl now = some t) : t.snapshot.orderId = k := by
  obtain ⟨w, hw⟩ := Slot.value_eq_some hv
  exact h _ hw

/-- What has expired is not read as notified either. -/
lemma notified_value {slot : Slot Tracked} {ttl : Option ℕ} {now : Long}
    (h : notified slot.kept = false) : notified (slot.value ttl now) = false := by
  cases hv : slot.value ttl now with
  | none => rfl
  | some t =>
      obtain ⟨w, hw⟩ := Slot.value_eq_some hv
      rw [Slot.kept, hw] at h
      exact h

section Common

variable {ttl : Option ℕ} {k : String} {slot slot' : Slot Tracked} {e : KeyEvent OrderState}
  {fx : List Effect}

/-- The key of an order never changes. -/
lemma TrackedStep.hasKey (h : TrackedStep ttl k slot e fx slot') (hk : HasKey k slot) :
    HasKey k slot' := by
  cases h with
  | invalid => exact hk
  | delivered hid hd =>
      cases hd with
      | stale => exact hk
      | terminal => exact hasKey_wrote hid _ _
      | silent => exact hasKey_wrote hid _ _
      | due => exact hasKey_wrote hid _ _
      | pending => exact hasKey_wrote hid _ _
  | fired _ _ hf =>
      cases hf with
      | idle => exact hk
      | @notify t hv =>
          rw [Slot.value_pop] at hv
          have hid : t.snapshot.orderId = k := hk.of_value hv
          exact hasKey_wrote (t := ⟨t.snapshot, true, none⟩) hid _ _

lemma hasKey_expiring {l : Fault (KeyEvent OrderState)}
    (h : ExpiringStep (TrackedStep ttl k) slot l fx slot') (hk : HasKey k slot) :
    HasKey k slot' := by
  cases h with
  | event h => exact h.hasKey hk
  | expire => exact fun c hc => absurd hc (by simp)

/-- The step an invalid order makes. -/
lemma TrackedStep.of_invalid {now : Long} {wall : Instant} {o : OrderState}
    (h : TrackedStep ttl k slot (.element now wall o) fx slot') (hinvalid : isValid o = false) :
    slot' = slot ∧ commands fx = [] := by
  cases h with
  | invalid => exact ⟨rfl, rfl⟩
  | delivered => exact absurd hinvalid (by simp)

/-- The step a valid snapshot makes. -/
lemma TrackedStep.delivered_of_snapshot {now : Long} {wall : Instant} {s : Snapshot}
    (h : TrackedStep ttl k slot (.element now wall s.toOrderState) fx slot') :
    Delivered ttl now s slot fx slot' := by
  generalize he : KeyEvent.element now wall s.toOrderState = e at h
  cases h with
  | invalid _ hinvalid =>
      cases he
      exact absurd hinvalid (by simp)
  | fired => cases he
  | delivered _ hd =>
      obtain ⟨rfl, rfl, ho⟩ := KeyEvent.element.inj he
      obtain rfl := Snapshot.toOrderState_injective ho
      exact hd

/-- **What it takes to emit a command**: the snapshot `s` just written is active, its expected
delivery time is reached, and the order had not been notified. -/
structure Emission (ttl : Option ℕ) (slot : Slot Tracked) (e : KeyEvent OrderState)
    (fx : List Effect) (slot' : Slot Tracked) (s : Snapshot) : Prop where
  command : commands fx = [s.delayCommand e.now]
  active : s.Active
  reached : s.etaMs ≤ e.reached.val
  reached_now : e.reached ≤ e.now
  unnotified : notified (slot.value ttl e.now) = false
  written : slot'.cell = some ⟨⟨s, true, none⟩, e.now⟩

/-- **A step emits nothing, or one command on these conditions.** -/
theorem TrackedStep.quiet_or_emission (h : TrackedStep ttl k slot e fx slot') :
    commands fx = [] ∨ ∃ s, Emission ttl slot e fx slot' s := by
  cases h with
  | invalid => exact .inl rfl
  | @delivered _ now wall s _ hid hd =>
      cases hd with
      | stale => exact .inl rfl
      | terminal => exact .inl rfl
      | silent => exact .inl rfl
      | due _ ha hn _ hle => exact .inr ⟨s, rfl, ha, hle, le_refl _, hn, rfl⟩
      | pending => exact .inl rfl
  | @fired _ now wall ts _ hmem hdue hf =>
      cases hf with
      | idle => exact .inl rfl
      | @notify t hv ha he _ hle =>
          rw [Slot.value_pop] at hv
          exact .inr ⟨t.snapshot, rfl, ha, hle, hdue, by rw [KeyEvent.now, hv]; exact he, rfl⟩

/-- Without a command an order stays un-notified. -/
lemma TrackedStep.unnotified_of_quiet (h : TrackedStep ttl k slot e fx slot')
    (hun : notified slot.kept = false) (hq : commands fx = []) : notified slot'.kept = false := by
  cases h with
  | invalid => exact hun
  | delivered _ hd =>
      have hread : ∀ now, notified (slot.value ttl now) = false := fun _ => notified_value hun
      cases hd with
      | stale => exact hun
      | terminal => exact hread _
      | silent _ _ hn => exact absurd (hn.symm.trans (hread _)) (by decide)
      | due => exact absurd hq (by simp)
      | pending => rfl
  | fired _ _ hf =>
      cases hf with
      | idle => exact hun
      | notify => exact absurd hq (by simp)

/-- The flag, as far as it is kept, only changes with a command. -/
lemma TrackedStep.notified_of_quiet (h : TrackedStep none k slot e fx slot')
    (hq : commands fx = []) : notified slot'.kept = notified slot.kept := by
  cases h with
  | invalid => rfl
  | delivered hid hd =>
      cases hd with
      | stale => rfl
      | terminal => simp [wrote, Slot.kept]
      | silent _ _ hn =>
          rw [Slot.value_none] at hn
          simp [wrote, Slot.kept_mk, hn]
      | due => simp at hq
      | pending _ _ hn =>
          rw [Slot.value_none] at hn
          simp [wrote, Slot.kept_mk, hn]
  | fired _ _ hf =>
      cases hf with
      | idle => rfl
      | notify => simp at hq

/-- An order is marked as notified only with a command that carries its id. -/
lemma TrackedStep.notified_or_command (h : TrackedStep ttl k slot e fx slot')
    (hk : HasKey k slot) (hn : notified slot'.kept = true) :
    notified slot.kept = true ∨ ∃ c ∈ commands fx, c.commandId = k ++ ":DELAY_SMS" := by
  rcases h.quiet_or_emission with hquiet | ⟨s, hemit⟩
  · left
    by_contra hold
    have hun := Bool.not_eq_true _ ▸ hold
    exact absurd (hn.symm.trans (h.unnotified_of_quiet hun hquiet)) (by decide)
  · have hid : s.orderId = k := h.hasKey hk _ hemit.written
    refine .inr ⟨s.delayCommand e.now, ?_, ?_⟩
    · rw [hemit.command]
      exact List.mem_singleton_self _
    · rw [← hid]
      rfl

end Common

/-! ## Runs of the job, key by key -/

section Runs

variable {config : StateConfig}

/-- A run of the job, seen from one key. -/
theorem tracked_run {run : List (Entry Job (String × KeyEvent OrderState) Effect)}
    (h : IsRun (JobStep config) Job.initial run) (k : String) :
    ∃ trun, IsRun (TrackedStep config.ttl k) Slot.empty trun ∧
      project k run = trun.map (Entry.map (Slot.map Tracked.toDelayState)) ∧
      final Job.initial run k = (final Slot.empty trun).map Tracked.toDelayState := by
  obtain ⟨hproj, hfinal⟩ := isRun_project k run Job.initial h
  obtain ⟨trun, htrun, hmap, _, hend⟩ :=
    (keyStep_embeds config k).pullback (s := (Slot.empty : Slot Tracked)) hproj
  exact ⟨trun, htrun, hmap, by rw [← hfinal]; exact hend⟩

/-- A run of the job in which values expire, seen from one key. -/
theorem tracked_expiring_run
    {run : List (Entry Job (String × Fault (KeyEvent OrderState)) Effect)}
    (h : IsRun (ExpiringJobStep config) Job.initial run) (k : String) :
    ∃ trun, IsRun (ExpiringStep (TrackedStep config.ttl k)) Slot.empty trun ∧
      project k run = trun.map (Entry.map (Slot.map Tracked.toDelayState)) ∧
      final Job.initial run k = (final Slot.empty trun).map Tracked.toDelayState := by
  obtain ⟨hproj, hfinal⟩ := isRun_project k run Job.initial h
  obtain ⟨trun, htrun, hmap, _, hend⟩ :=
    (ExpiringStep.embeds (keyStep_embeds config k)).pullback (s := (Slot.empty : Slot Tracked)) hproj
  exact ⟨trun, htrun, hmap, by rw [← hfinal]; exact hend⟩

/-- The slot occurs in a run of the order. -/
def Occurs (ttl : Option ℕ) (k : String) (slot : Slot Tracked) : Prop :=
  ∃ trun, IsRun (TrackedStep ttl k) Slot.empty trun ∧ final Slot.empty trun = slot

/-- Under every key of a reachable state is the order with that id. -/
lemma Occurs.hasKey {ttl : Option ℕ} {k : String} {slot : Slot Tracked} (h : Occurs ttl k slot) :
    HasKey k slot := by
  obtain ⟨trun, htrun, rfl⟩ := h
  exact htrun.invariant (fun _ _ _ _ hk hs => hs.hasKey hk) (hasKey_empty k)

/-- **The next step of a run of the job**: its key makes a tracked step, the others stay. -/
theorem tracked_step {run : List (Entry Job (String × KeyEvent OrderState) Effect)}
    (h : IsRun (JobStep config) Job.initial run) {k : String} {e : KeyEvent OrderState}
    {fx : List Effect} {j : Job} (hs : JobStep config (final Job.initial run) (k, e) fx j) :
    ∃ slot slot', Occurs config.ttl k slot ∧
      final Job.initial run k = slot.map Tracked.toDelayState ∧
      TrackedStep config.ttl k slot e fx slot' ∧ j k = slot'.map Tracked.toDelayState ∧
      ∀ k', k' ≠ k → j k' = final Job.initial run k' := by
  obtain ⟨trun, htrun, _, hend⟩ := tracked_run h k
  have hstep := hs.at_same
  rw [hend] at hstep
  obtain ⟨slot', hts, htarget⟩ := (keyStep_embeds config k _ _ _ _).mp hstep
  exact ⟨final Slot.empty trun, slot', ⟨trun, htrun, rfl⟩, hend, hts, htarget,
    fun k' hk => hs.at_other hk⟩

/-- A step emits commands for the order it is a step of. -/
lemma command_orderId {run : List (Entry Job (String × KeyEvent OrderState) Effect)}
    (h : IsRun (JobStep config) Job.initial run) :
    ∀ e ∈ run, ∀ c ∈ commands e.output, c.orderId = some e.label.1 := by
  refine IsRun.history_induction
    (P := fun run _ => ∀ e ∈ run, ∀ c ∈ commands e.output, c.orderId = some e.label.1)
    (fun _ he => absurd he List.not_mem_nil) ?_ run h
  intro run j e hrun hj hall hstep d hd c hc
  rcases List.mem_append.mp hd with hd | hd
  · exact hall d hd c hc
  · obtain rfl := List.mem_singleton.mp hd
    subst hj
    obtain ⟨slot, slot', hoccurs, _, hts, _, _⟩ := tracked_step hrun hstep
    rcases hts.quiet_or_emission with hquiet | ⟨s, hemit⟩
    · rw [hquiet] at hc
      exact absurd hc List.not_mem_nil
    · rw [hemit.command, List.mem_singleton] at hc
      rw [hc]
      exact congrArg some (hts.hasKey hoccurs.hasKey _ hemit.written)

/-- The commands collected for one order. -/
def commandsFor (k : String) (run : List (Entry Job (String × KeyEvent OrderState) Effect)) :
    List SmsCommand :=
  (commands (outputs run)).filter (·.orderId = some k)

/-- They are the commands of its own steps. -/
lemma commandsFor_eq (k : String) :
    ∀ {run : List (Entry Job (String × KeyEvent OrderState) Effect)},
      (∀ e ∈ run, ∀ c ∈ commands e.output, c.orderId = some e.label.1) →
        commandsFor k run = commands (outputs (project k run))
  | [], _ => rfl
  | e :: run, h => by
      have ih := commandsFor_eq k fun d hd => h d (List.mem_cons_of_mem _ hd)
      have hhead := h e List.mem_cons_self
      rw [commandsFor] at ih
      rw [commandsFor, outputs_cons, commands_append, List.filter_append, ih]
      by_cases hk : e.label.1 = k
      · rw [project_cons_same hk, outputs_cons, commands_append]
        congr 1
        exact List.filter_eq_self.mpr fun c hc => by simp [hhead c hc, hk]
      · rw [project_cons_other hk]
        have hnone : (commands e.output).filter (·.orderId = some k) = [] :=
          List.filter_eq_nil_iff.mpr fun c hc => by simp [hhead c hc, hk]
        rw [hnone, List.nil_append]

/-- The messages of one order among those a run delivers. -/
def deliveries (k : String) (run : List (Entry Job (String × KeyEvent OrderState) Effect)) :
    List OrderState :=
  (project k run).filterMap (·.label.incoming?)

end Runs

/-! ## A run

The last test of the repository's suite: an accepted order gets a timer at its expected delivery
time, and the timer fires — here a little late. -/

/-- An accepted order, expected ten minutes after its last update. -/
def order1 : Snapshot :=
  .createOrder "order-1" .ACCEPTED (.ofEpochMilli (.of 600000)) (.ofEpochMilli (.of 0))

/-- It is delivered at time 0 and waits. -/
def waiting1 : Slot OrderDelayState :=
  (wrote ⟨order1, false, some (.of 600000)⟩ (.of 0) {.of 600000}).map Tracked.toDelayState

def accepted1 : Entry (Slot OrderDelayState) (KeyEvent OrderState) Effect :=
  ⟨.element (.of 0) (.ofEpochMilli (.of 0)) order1.toOrderState, [], waiting1⟩

/-- Its timer fires a second late. -/
def fired1 : Entry (Slot OrderDelayState) (KeyEvent OrderState) Effect where
  label := .timer (.of 601000) (.ofEpochMilli (.of 0)) (.of 600000)
  output := order1.notification (.of 601000)
  target := (wrote ⟨order1, true, none⟩ (.of 601000) ∅).map Tracked.toDelayState

/-- The two steps as a run of the job. -/
def lateTimer : List (Entry Job (String × KeyEvent OrderState) Effect) :=
  atKey "order-1" Job.initial [accepted1, fired1]

lemma isRun_lateTimer : IsRun (JobStep ⟨.rocksDB, none⟩) Job.initial lateTimer :=
  isRun_atKey "order-1" [accepted1, fired1] Job.initial
    ⟨.element rfl rfl, .timer (by decide) (by decide) rfl, trivial⟩

end DelayedOrderSms
