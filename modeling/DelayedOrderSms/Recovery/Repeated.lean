import DelayedOrderSms.Flink.Duplicates
import DelayedOrderSms.Processor.Notification
import DelayedOrderSms.Recovery.ExactlyOnce

/-!
# Repeated commands

The commands are delivered at least once at best: after a crash the job makes the steps since the
last checkpoint again, and an order that has expired is notified anew.  These are the only ways to
a second command.

* `TrackedStep.spent` — the flag `delaySmsEmitted` is spent with one command.
* `once_notified` — so the operator puts out one command for one mark.
* `commands_le_restarts` — the commands of an order, over a whole deployment.
-/

namespace DelayedOrderSms

open Java Flink Systems

instance (command : SmsCommand) (k : String) : Decidable (IsCommandOf command k) :=
  inferInstanceAs (Decidable (_ = _))

/-- A valid message of the order finds that what is kept of it, a notification among it, has
expired. -/
def forgets (config : StateConfig) (job : Job) (l : String × KeyEvent OrderState) (k : String) :
    Bool :=
  l.1 == k && job.delaySmsEmitted k && match l.2 with
    | .element now _ o => isValid o && ((job k).value config.ttl now).isNone
    | .timer _ _ _ => false

section Step

variable {ttl : Option ℕ} {k : String} {slot slot' : Slot Tracked} {e : KeyEvent OrderState}
  {fx : List Effect}

/-- The flag is lost with this step. -/
def Lapses (ttl : Option ℕ) (slot : Slot Tracked) : KeyEvent OrderState → Prop
  | .element now _ o =>
      notified slot.kept = true ∧ isValid o = true ∧ slot.value ttl now = none
  | .timer _ _ _ => False

/-- What is read and not notified, though it is kept as notified, has expired. -/
lemma value_eq_none_of_notified {now : Long} (hkept : notified slot.kept = true)
    (hvalue : notified (slot.value ttl now) = false) : slot.value ttl now = none := by
  cases hv : slot.value ttl now with
  | none => rfl
  | some t =>
      obtain ⟨w, hw⟩ := Slot.value_eq_some hv
      rw [Slot.kept, hw] at hkept
      rw [hv] at hvalue
      exact absurd (hkept.symm.trans hvalue) (by decide)

/-- A delivery that leaves the order un-notified has found it so, or expired. -/
lemma Delivered.lapses {now : Long} {wall : Instant} {s : Snapshot}
    (hd : Delivered ttl now s slot fx slot') (hkept : notified slot.kept = true)
    (hlost : notified slot'.kept = false ∨ commands fx ≠ []) :
    Lapses ttl slot (.element now wall s.toOrderState) := by
  have hexpired : notified (slot.value ttl now) = false →
      Lapses ttl slot (.element now wall s.toOrderState) :=
    fun hvalue => ⟨hkept, rfl, value_eq_none_of_notified hkept hvalue⟩
  cases hd with
  | stale =>
      rcases hlost with hlost | hlost
      · exact absurd (hkept.symm.trans hlost) (by decide)
      · exact absurd rfl hlost
  | terminal =>
      rcases hlost with hlost | hlost
      · exact hexpired hlost
      · exact absurd rfl hlost
  | silent =>
      rcases hlost with hlost | hlost
      · exact absurd hlost (by simp [wrote, Slot.kept])
      · exact absurd rfl hlost
  | due _ _ hn => exact hexpired hn
  | pending _ _ hn => exact hexpired hn

/-- **A notified order keeps its flag and gets no command**, unless the flag lapses. -/
theorem TrackedStep.lapses (h : TrackedStep ttl k slot e fx slot')
    (hkept : notified slot.kept = true) (hlost : notified slot'.kept = false ∨ commands fx ≠ []) :
    Lapses ttl slot e := by
  cases h with
  | invalid =>
      rcases hlost with hlost | hlost
      · exact absurd (hkept.symm.trans hlost) (by decide)
      · exact absurd rfl hlost
  | delivered _ hd => exact hd.lapses hkept hlost
  | @fired _ now _ ts _ _ _ hf =>
      cases hf with
      | idle =>
          rcases hlost with hlost | hlost
          · exact absurd (hkept.symm.trans hlost) (by decide)
          · exact absurd rfl hlost
      | @notify t hv _ hn =>
          have hunset : notified ((slot.pop ts).value ttl now) = false := by
            rw [hv]
            exact hn
          rw [Slot.value_pop] at hunset hv
          exact absurd (hv.symm.trans (value_eq_none_of_notified hkept hunset)) (by simp)

/-- **The flag is spent with one command.** -/
theorem TrackedStep.spent (h : TrackedStep ttl k slot e fx slot') :
    (commands fx).length + (notified slot.kept).toNat ≤ (notified slot'.kept).toNat ∨
      Lapses ttl slot e ∧
        (commands fx).length + (notified slot.kept).toNat ≤ (notified slot'.kept).toNat + 1 := by
  rcases h.quiet_or_emission with hquiet | ⟨s, hemit⟩
  · rw [hquiet]
    cases hkept : notified slot.kept with
    | false => exact .inl (by simp)
    | true =>
        cases hkept' : notified slot'.kept with
        | true => exact .inl (by simp)
        | false => exact .inr ⟨h.lapses hkept (.inl hkept'), by simp⟩
  · have hset : notified slot'.kept = true := by rw [Slot.kept, hemit.written]; rfl
    rw [hemit.command, hset]
    cases hkept : notified slot.kept with
    | false => exact .inl (by simp)
    | true =>
        refine .inr ⟨h.lapses hkept (.inr ?_), by simp⟩
        rw [hemit.command]
        exact List.cons_ne_nil _ _

end Step

/-! ## On the job -/

section Jobs

variable {config : StateConfig} {job job' : Job} {l : String × KeyEvent OrderState}
  {fx : List Effect}

/-- The commands of a step are those of its order. -/
lemma isCommandOf_step (h : KeyedById job) (hs : JobStep config job l fx job') :
    ∀ c ∈ commands fx, IsCommandOf c l.1 := by
  obtain ⟨slot, hkey, hslot⟩ := h l.1
  have hstep := hs.at_same
  rw [hslot] at hstep
  obtain ⟨slot', hts, _⟩ := (keyStep_embeds config l.1 _ _ _ _).mp hstep
  intro c hc
  rcases hts.quiet_or_emission with hquiet | ⟨s, hemit⟩
  · rw [hquiet] at hc
    exact absurd hc List.not_mem_nil
  · rw [hemit.command, List.mem_singleton] at hc
    have hid : s.orderId = l.1 := hts.hasKey hkey _ hemit.written
    rw [IsCommandOf, hc, ← hid]
    rfl

lemma forgets_of_lapses {k : String} {e : KeyEvent OrderState} {slot : Slot Tracked}
    (hslot : job k = slot.map Tracked.toDelayState) (h : Lapses config.ttl slot e) :
    forgets config job (k, e) k = true := by
  cases e with
  | timer => exact absurd h not_false
  | element now wall o =>
      obtain ⟨hkept, hvalid, hvalue⟩ := h
      simp only [forgets, Job.delaySmsEmitted_of_eq hslot, hkept, hvalid, hslot, Slot.value_map,
        hvalue, Option.map_none, Option.isNone_none, beq_self_eq_true, Bool.and_self]

/-- **The operator puts out one command for one mark.** -/
lemma once_notified (guarantee : DeliveryGuarantee) (config : StateConfig) :
    Once (pipeline guarantee config) KeyedById Job.delaySmsEmitted
      (fun c k => decide (IsCommandOf c k)) (forgets config) where
  valid_initial := keyedById_initial
  valid_step := fun _ _ _ _ h hs => h.step hs
  spent := by
    rintro job ⟨key, e⟩ fx job' k h hs
    have hof := isCommandOf_step h hs
    show (commands fx).countP _ + _ ≤ _
    by_cases hk : k = key
    · subst hk
      obtain ⟨slot, hkey, hslot⟩ := h k
      have hstep := hs.at_same
      rw [hslot] at hstep
      obtain ⟨slot', hts, hslot'⟩ := (keyStep_embeds config k _ _ _ _).mp hstep
      have hcount : (commands fx).countP (fun c => decide (IsCommandOf c k)) ≤
          (commands fx).length := List.countP_le_length
      rw [Job.delaySmsEmitted_of_eq hslot, Job.delaySmsEmitted_of_eq hslot']
      rcases hts.spent with hspent | ⟨hlapses, hspent⟩
      · omega
      · rw [forgets_of_lapses hslot hlapses, Bool.toNat_true]
        omega
    · have hsame : job' k = job k := hs.at_other hk
      have hnone : (commands fx).countP (fun c => decide (IsCommandOf c k)) = 0 := by
        refine List.countP_eq_zero.mpr fun c hc hck => hk ?_
        exact commandId_injective ((of_decide_eq_true hck).symm.trans (hof c hc))
      rw [Job.delaySmsEmitted, Job.delaySmsEmitted, hsame, hnone]
      omega

end Jobs

/-- The job is started from a state that does not record the order as notified. -/
def restartsUnnotified (stateTtlDays : ℕ) (k : String) :
    Deployed × Entry Deployed DeployedEvent SmsCommand → Bool :=
  grants (delayedOrderSmsJob stateTtlDays) Job.delaySmsEmitted k

/-- A message of the order is processed after its notification has expired. -/
def notificationForgotten (stateTtlDays : ℕ) (k : String) :
    Deployed × Entry Deployed DeployedEvent SmsCommand → Bool :=
  lapsed (forgets (stateConfig stateTtlDays)) k

/-- **A repeated command has its restart, or its expiry.**  In every state of every deployment of
the job, the commands of an order in the topic and in the buffer of the producer are no more than
the starts of the job from a state that does not record the order as notified and the messages
processed after its notification has expired: if the job was started once and kept the order, there
is one command at most, and from a checkpoint that records the order as notified no restart sends a
second. -/
theorem commands_le_restarts {stateTtlDays : ℕ}
    {run : List (Entry Deployed DeployedEvent SmsCommand)}
    (h : IsRun (DeployStep (delayedOrderSmsJob stateTtlDays)) Deployment.initial run) (k : String) :
    (final Deployment.initial run).records.countP (fun c => decide (IsCommandOf c k)) ≤
      (transitions Deployment.initial run).countP (restartsUnnotified stateTtlDays k) +
        (transitions Deployment.initial run).countP (notificationForgotten stateTtlDays k) :=
  records_le (once_notified smsSinkGuarantee (stateConfig stateTtlDays)) k h

/-- Order 1 is notified after the checkpoint, the job crashes, and order 1 is notified again. -/
def repeated1 : List (Entry Deployed DeployedEvent SmsCommand) :=
  [⟨.internal ("order-1", fired1.label), [],
    ⟨some (notifiedRun1 [command1] none), some waitingCheckpoint1, orders1, []⟩⟩,
   ⟨.send command1, [command1],
    ⟨some (notifiedRun1 [] none), some waitingCheckpoint1, orders1, [command1]⟩⟩,
   ⟨.crash, [], ⟨none, some waitingCheckpoint1, orders1, [command1]⟩⟩,
   ⟨.restore, [], ⟨some waitingRun1, some waitingCheckpoint1, orders1, [command1]⟩⟩,
   ⟨.internal ("order-1", fired1.label), [],
    ⟨some (notifiedRun1 [command1] none), some waitingCheckpoint1, orders1, [command1]⟩⟩]

lemma isRun_repeated1 :
    IsRun (DeployStep (delayedOrderSmsJob 7)) Deployment.initial (checkpointed1 ++ repeated1) := by
  have hfired : JobStep (stateConfig 7) jobWaiting1 ("order-1", fired1.label) fired1.output
      jobNotified1 := .at_key (.timer (by decide) (by decide) rfl)
  have hinternal : ∀ topic : List SmsCommand, DeployStep (delayedOrderSmsJob 7)
      ⟨some waitingRun1, some waitingCheckpoint1, orders1, topic⟩
      (.internal ("order-1", fired1.label)) []
      ⟨some (notifiedRun1 [command1] none), some waitingCheckpoint1, orders1, topic⟩ :=
    fun topic => @DeployStep.internal _ _ _ _ _ _ _ (delayedOrderSmsJob 7)
      ⟨some waitingRun1, some waitingCheckpoint1, orders1, topic⟩ waitingRun1 _ fired1.output _
      rfl rfl hfired
  have hsend : DeployStep (delayedOrderSmsJob 7)
      ⟨some (notifiedRun1 [command1] none), some waitingCheckpoint1, orders1, []⟩
      (.send command1) [command1]
      ⟨some (notifiedRun1 [] none), some waitingCheckpoint1, orders1, [command1]⟩ :=
    @DeployStep.send _ _ _ _ _ _ _ _ _ (notifiedRun1 [command1] none) _ [] [] rfl rfl
  exact isRun_append.mpr ⟨isRun_checkpointed1 _, hinternal [], hsend, .crash, .restore rfl,
    hinternal [command1], trivial⟩

/-- The two commands have their two restarts. -/
theorem commands_le_restarts_repeated :
    2 ≤ (transitions Deployment.initial (checkpointed1 ++ repeated1)).countP
        (restartsUnnotified 7 "order-1") +
      (transitions Deployment.initial (checkpointed1 ++ repeated1)).countP
        (notificationForgotten 7 "order-1") :=
  commands_le_restarts isRun_repeated1 "order-1"

end DelayedOrderSms
