import DelayedOrderSms.Arrival.Latest
import DelayedOrderSms.Pipeline.Deserialization
import DelayedOrderSms.Processor.Coherence

/-!
# Every message is accounted for

Between the parser and the keyed operator a message ends in one of four ways (`Outcome`), each with
what it puts out and what it leaves of the job (`Accounted`).

* `PipelineStep.accounted`, `Accounted.unique` — a message has one outcome, and only one.
* `PipelineStep.balanced` — what a step adds to the counters, the dead letters and the commands.
* `every_message_accounted` — totals over whole runs.
-/

namespace DelayedOrderSms

open Java Flink Systems

/-- How a message ends. -/
inductive Outcome where
  | parseError
  | invalid
  | stale
  | applied
  deriving DecidableEq, Repr

/-- **The outcomes of a message**, with what is put out and the state of the job afterwards: only a
message that is applied changes it, and only what is stored of its own order. -/
inductive Accounted (p : Platform) (j : Job) (now : Long) (parsedAt wall : Instant)
    (value : String) : Outcome → List PipelineEffect → Job → Prop
  | parseError {event : DeadLetterEvent} :
      OrderStateDeserializationFunction.processElement p parsedAt value = .deadLetter event →
      Accounted p j now parsedAt wall value .parseError [.parse_errors, .parseFailure event] j
  | invalid {key : String} {o : OrderState} :
      OrderStateDeserializationFunction.processElement p parsedAt value = .collected key o →
      isValid o = false →
      Accounted p j now parsedAt wall value .invalid
        [.order (.output (invalidOrderEvent o wall)), .order (.inc .invalid_messages)] j
  | stale {key : String} {o : OrderState} :
      OrderStateDeserializationFunction.processElement p parsedAt value = .collected key o →
      isValid o = true → accepts none now (j key) o = false →
      Accounted p j now parsedAt wall value .stale [.order (.inc .stale_updates_ignored)] j
  | applied {key : String} {s : Snapshot} {fx : List Effect} {j' : Job} :
      OrderStateDeserializationFunction.processElement p parsedAt value =
        .collected key s.toOrderState →
      accepts none now (j key) s.toOrderState = true →
      (fx = [] ∨ fx = s.notification now) →
      (∃ current ∈ (j' key).kept, Stores current s) → (∀ k, k ≠ key → j' k = j k) →
      Accounted p j now parsedAt wall value .applied (fx.map .order) j'

/-- The outcome a message will have, read off the message and the state before it. -/
def outcomeOf (p : Platform) (j : Job) (now : Long) (parsedAt : Instant) (value : String) : Outcome :=
  match OrderStateDeserializationFunction.processElement p parsedAt value with
  | .deadLetter _ => .parseError
  | .collected key o =>
      if isValid o then if accepts none now (j key) o then .applied else .stale else .invalid

/-- There is only one. -/
lemma Accounted.eq_outcomeOf {p : Platform} {j j' : Job} {now : Long} {parsedAt wall : Instant}
    {value : String} {outcome : Outcome} {fx : List PipelineEffect}
    (h : Accounted p j now parsedAt wall value outcome fx j') :
    outcome = outcomeOf p j now parsedAt value := by
  cases h with
  | parseError hparse => simp [outcomeOf, hparse]
  | invalid hparse hinvalid => simp [outcomeOf, hparse, hinvalid]
  | stale hparse hvalid hstale => simp [outcomeOf, hparse, hvalid, hstale]
  | applied hparse haccepts => simp [outcomeOf, hparse, haccepts]

/-- Only a message that is applied changes anything. -/
lemma Accounted.unchanged {p : Platform} {j j' : Job} {now : Long} {parsedAt wall : Instant}
    {value : String} {outcome : Outcome} {fx : List PipelineEffect}
    (h : Accounted p j now parsedAt wall value outcome fx j') (hout : outcome ≠ .applied) :
    j' = j ∧ collectedCommands fx = [] := by
  cases h with
  | parseError => exact ⟨rfl, rfl⟩
  | invalid => exact ⟨rfl, rfl⟩
  | stale => exact ⟨rfl, rfl⟩
  | applied => exact absurd rfl hout

section Step

variable {p : Platform} {backend : Backend} {j j' : Job} {e : PipelineEvent}
  {fx : List PipelineEffect}

/-- What `processElement` does with a valid snapshot, as an outcome. -/
lemma Delivered.outcome {now : Long} {s : Snapshot} {slot slot' : Slot Tracked} {fx : List Effect}
    (h : Delivered none now s slot fx slot') :
    (¬ Fresh s (slot.value none now) ∧ fx = [.inc .stale_updates_ignored] ∧ slot' = slot) ∨
      (Fresh s (slot.value none now) ∧ (fx = [] ∨ fx = s.notification now) ∧
        snapshotOf slot' = some s) := by
  cases h with
  | stale hv hlt => exact .inl ⟨fun hf => hf _ hv hlt, rfl, rfl⟩
  | terminal hf => exact .inr ⟨hf, .inl rfl, rfl⟩
  | silent hf => exact .inr ⟨hf, .inl rfl, rfl⟩
  | due hf => exact .inr ⟨hf, .inr rfl, rfl⟩
  | pending hf => exact .inr ⟨hf, .inl rfl, rfl⟩

/-- What it does with an invalid order. -/
lemma TrackedStep.invalid_inv {ttl : Option ℕ} {k : String} {now : Long} {wall : Instant}
    {o : OrderState} {slot slot' : Slot Tracked} {fx : List Effect}
    (h : TrackedStep ttl k slot (.element now wall o) fx slot') (hinvalid : isValid o = false) :
    fx = [.output (invalidOrderEvent o wall), .inc .invalid_messages] ∧ slot' = slot := by
  cases h with
  | invalid => exact ⟨rfl, rfl⟩
  | delivered => exact absurd hinvalid (by simp)

/-- What a timer puts out. -/
lemma TrackedStep.timer_effects {k : String} {now ts : Long} {wall : Instant}
    {slot slot' : Slot Tracked} {fx : List Effect}
    (h : TrackedStep none k slot (.timer now wall ts) fx slot') :
    fx = [] ∨ ∃ s : Snapshot, fx = s.notification now := by
  cases h with
  | fired _ _ hf =>
      cases hf with
      | idle => exact .inl rfl
      | notify => exact .inr ⟨_, rfl⟩

/-- **A message has an outcome.** -/
theorem PipelineStep.accounted {now : Long} {parsedAt wall : Instant} {value : String}
    (hj : j.Readable)
    (h : PipelineStep p ⟨backend, none⟩ j (.message now parsedAt wall value) fx j') :
    ∃ outcome, Accounted p j now parsedAt wall value outcome fx j' := by
  cases h with
  | deadLetter hparse => exact ⟨_, .parseError hparse⟩
  | @processed _ _ _ _ _ key o fx hparse hs =>
      obtain ⟨slots, rfl⟩ := hj
      obtain ⟨slots', hts, rfl⟩ := (jobStep_embeds ⟨backend, none⟩ slots _ fx j').mp hs
      have hother : ∀ k, k ≠ key → slots' k = slots k := fun k hk => hts.at_other hk
      have hkey : TrackedStep none key (slots key) (.element now wall o) fx (slots' key) :=
        hts.at_same
      cases hvalid : isValid o with
      | false =>
          obtain ⟨rfl, hslot⟩ := hkey.invalid_inv hvalid
          rw [hts.eq_of_same hslot]
          exact ⟨_, .invalid hparse hvalid⟩
      | true =>
          obtain ⟨s, rfl⟩ := isValid_iff.mp hvalid
          rcases hkey.delivered_of_snapshot.outcome with ⟨hstale, rfl, hslot⟩ | ⟨hf, hfx, hsnap⟩
          · rw [hts.eq_of_same hslot]
            refine ⟨_, .stale hparse hvalid ?_⟩
            rw [mapKeys_apply, accepts_toOrderState]
            exact decide_eq_false hstale
          · obtain ⟨t, ht, rfl⟩ := Option.map_eq_some_iff.mp hsnap
            refine ⟨_, .applied hparse ?_ hfx ⟨t.toDelayState, ?_, stores_toDelayState.mpr rfl⟩ ?_⟩
            · rw [mapKeys_apply, accepts_toOrderState]
              exact decide_eq_true hf
            · simp [ht]
            · intro k hk
              rw [mapKeys_apply, mapKeys_apply, hother k hk]

end Step

/-! ## Totals -/

/-- The output is an event on one of the two dead-letter outputs. -/
def PipelineEffect.isDeadLetter : PipelineEffect → Bool
  | .parseFailure _ => true
  | .order (.output _) => true
  | .order (.collect _) => false
  | .order (.inc _) => false
  | .parse_errors => false

/-- The event is a message. -/
def PipelineEvent.isMessage : PipelineEvent → Bool
  | .message _ _ _ _ => true
  | .timer _ _ _ _ => false

/-- The event is a message that will be applied. -/
def PipelineEvent.isApplied (p : Platform) (j : Job) : PipelineEvent → Bool
  | .message now parsedAt _ value => outcomeOf p j now parsedAt value = .applied
  | .timer _ _ _ _ => false

/-- **The books balance** for a number of messages, of which `applied` are applied, and everything
that is put out for them. -/
structure Balanced (messages applied : ℕ) (fx : List PipelineEffect) : Prop where
  consumed : messages = fx.count .parse_errors + fx.count (.order (.inc .invalid_messages)) +
    fx.count (.order (.inc .stale_updates_ignored)) + applied
  deadLetters : fx.countP PipelineEffect.isDeadLetter =
    fx.count .parse_errors + fx.count (.order (.inc .invalid_messages))
  detected : fx.count (.order (.inc .delayed_orders_detected)) = (collectedCommands fx).length
  emitted : fx.count (.order (.inc .sms_commands_emitted)) = (collectedCommands fx).length

lemma balanced_nil : Balanced 0 0 [] := ⟨rfl, rfl, rfl, rfl⟩

lemma Balanced.append {m a m' a' : ℕ} {fx fx' : List PipelineEffect} (h : Balanced m a fx)
    (h' : Balanced m' a' fx') : Balanced (m + m') (a + a') (fx ++ fx') := by
  constructor
  · simp only [List.count_append, h.consumed, h'.consumed]
    omega
  · simp only [List.count_append, List.countP_append, h.deadLetters, h'.deadLetters]
    omega
  · simp [h.detected, h'.detected]
  · simp [h.emitted, h'.emitted]

lemma balanced_notification (s : Snapshot) (now : Long) :
    Balanced 0 0 ((s.notification now).map .order) := ⟨rfl, rfl, rfl, rfl⟩

lemma Accounted.balanced {p : Platform} {j j' : Job} {now : Long} {parsedAt wall : Instant}
    {value : String} {outcome : Outcome} {fx : List PipelineEffect}
    (h : Accounted p j now parsedAt wall value outcome fx j') :
    Balanced 1 (if outcome = .applied then 1 else 0) fx := by
  cases h with
  | parseError => exact ⟨rfl, rfl, rfl, rfl⟩
  | invalid => exact ⟨rfl, rfl, rfl, rfl⟩
  | stale => exact ⟨rfl, rfl, rfl, rfl⟩
  | @applied _ s _ _ _ _ hfx =>
      have hone : Balanced 1 1 [] := ⟨rfl, rfl, rfl, rfl⟩
      rcases hfx with rfl | rfl
      · exact hone
      · exact hone.append (balanced_notification s now)

section Totals

variable {p : Platform} {backend : Backend} {j j' : Job} {e : PipelineEvent}
  {fx : List PipelineEffect}

/-- A step balances. -/
theorem PipelineStep.balanced (hj : j.Readable)
    (h : PipelineStep p ⟨backend, none⟩ j e fx j') :
    Balanced (if e.isMessage then 1 else 0) (if e.isApplied p j then 1 else 0) fx := by
  cases e with
  | message now parsedAt wall value =>
      obtain ⟨outcome, hacc⟩ := h.accounted hj
      have hout := hacc.eq_outcomeOf
      simpa [PipelineEvent.isMessage, PipelineEvent.isApplied, ← hout] using hacc.balanced
  | timer key now wall ts =>
      obtain ⟨slots, rfl⟩ := hj
      cases h with
      | timer hs =>
          obtain ⟨slots', hts, rfl⟩ := (jobStep_embeds ⟨backend, none⟩ slots _ _ j').mp hs
          rcases hts.at_same.timer_effects with rfl | ⟨s, rfl⟩
          · exact balanced_nil
          · exact balanced_notification s now

/-- The messages of a run. -/
def messages (run : List (Entry Job PipelineEvent PipelineEffect)) : ℕ :=
  run.countP (·.label.isMessage)

/-- The messages of a run from `j` that are applied. -/
def updatesApplied (p : Platform) (j : Job) (run : List (Entry Job PipelineEvent PipelineEffect)) :
    ℕ :=
  (transitions j run).countP fun x => x.2.label.isApplied p x.1

/-- **The totals of a run balance.** -/
theorem balanced_run : ∀ (run : List (Entry Job PipelineEvent PipelineEffect)) (j : Job),
    j.Readable → IsRun (PipelineStep p ⟨backend, none⟩) j run →
      Balanced (messages run) (updatesApplied p j run) (outputs run) := by
  intro run
  induction run with
  | nil => intro j _ _; exact balanced_nil
  | cons e run ih =>
      intro j hj hrun
      obtain ⟨hstep, hrest⟩ := hrun
      have hsum := (hstep.balanced hj).append (ih e.target (hj.pipelineStep hstep) hrest)
      simpa [messages, updatesApplied, List.countP_cons, Nat.add_comm] using hsum

/-- The message parses to nothing, or to an order whose expected delivery time fits in a `long` of
milliseconds. -/
def FitsMillis (p : Platform) (value : String) : Prop :=
  ∀ o, p.readValue value = .ok (some o) → ∀ eta ∈ o.expectedDeliveryTime, eta.FitsMillis

/-- The job gets through such a message. -/
lemma exists_message_step (hj : j.Readable) {value : String} (hfits : FitsMillis p value)
    (now : Long) (parsedAt wall : Instant) :
    ∃ fx j', PipelineStep p ⟨backend, none⟩ j (.message now parsedAt wall value) fx j' := by
  cases hparse : OrderStateDeserializationFunction.processElement p parsedAt value with
  | deadLetter event => exact ⟨_, _, .deadLetter hparse⟩
  | collected key o =>
      obtain ⟨hread, hkey⟩ := processElement_collected_iff.mp hparse
      cases hvalid : isValid o with
      | false =>
          exact ⟨_, _, .processed hparse
            (.at_key (.element hkey (processElement_invalid hvalid _)))⟩
      | true =>
          obtain ⟨s, rfl⟩ := isValid_iff.mp hvalid
          obtain ⟨slots, rfl⟩ := hj
          rcases delivered_or_overflows none now s (slots key) with ⟨fx, slot', hd⟩ | hover
          · have hid : s.orderId = key := Option.some.inj hkey
            exact ⟨_, _, .processed hparse (.at_key
              ((keyStep_embeds ⟨backend, none⟩ key _ _ _ _).mpr ⟨slot', .delivered hid hd, rfl⟩))⟩
          · exact absurd (hfits _ hread _ rfl) hover.2.2.2

/-- And through the firing of a registered timer that is due. -/
lemma exists_timer_step {run : List (Entry Job (String × KeyEvent OrderState) Effect)}
    (h : IsRun (JobStep ⟨backend, none⟩) Job.initial run) {key : String} {ts now : Long}
    (hts : ts ∈ (final Job.initial run key).timers) (hdue : ts ≤ now) (wall : Instant) :
    ∃ fx j', PipelineStep p ⟨backend, none⟩ (final Job.initial run) (.timer key now wall ts) fx j' := by
  obtain ⟨trun, htrun, _, hend⟩ := tracked_run h key
  rw [hend] at hts
  obtain ⟨s, w, ha, heta, hslot⟩ := (Occurs.coherent ⟨trun, htrun, rfl⟩).of_timer hts
  rcases fired_or_overflows none now ts ((final Slot.empty trun).pop ts) with
    ⟨fx, slot', hf⟩ | ⟨t, ht, _, _, hfit⟩
  · have hs : KeyStep delayedOrderOperator ⟨backend, none⟩ key (final Job.initial run key)
        (.timer now wall ts) fx (slot'.map Tracked.toDelayState) := by
      rw [hend]
      exact (keyStep_embeds ⟨backend, none⟩ key _ _ _ _).mpr ⟨slot', .fired hts hdue hf, rfl⟩
    exact ⟨_, _, .timer (.at_key hs)⟩
  · rw [Slot.value_pop, Slot.value_none, hslot, kept_wrote] at ht
    obtain rfl := Option.some.inj ht
    exact absurd (show IsLong s.etaMs from heta ▸ ts.property) hfit

/-- A step that is a message has exactly one outcome, and changes nothing unless it is applied. -/
def AccountedOnce (p : Platform) (j : Job) (e : Entry Job PipelineEvent PipelineEffect) : Prop :=
  ∀ now parsedAt wall value, e.label = .message now parsedAt wall value →
    ∃ outcome, Accounted p j now parsedAt wall value outcome e.output e.target ∧
      (∀ outcome', Accounted p j now parsedAt wall value outcome' e.output e.target →
        outcome' = outcome) ∧
      (outcome ≠ .applied → e.target = j ∧ collectedCommands e.output = [])

/-- **Every message is accounted for, once.**  In every run of the pipeline without expiry: any
further message whose expected delivery time fits, and any registered timer that is due, can be
processed; every message has had exactly one of the four outcomes, and all but `applied` leave
the values and timers of every order as they were and collect no command; and the totals balance. -/
theorem every_message_accounted {run : List (Entry Job PipelineEvent PipelineEffect)}
    (h : IsRun (PipelineStep p ⟨backend, none⟩) Job.initial run) :
    ((∀ value, FitsMillis p value → ∀ now parsedAt wall, ∃ fx j',
          PipelineStep p ⟨backend, none⟩ (final Job.initial run)
            (.message now parsedAt wall value) fx j') ∧
        ∀ key, ∀ ts ∈ (final Job.initial run key).timers, ∀ now wall, ts ≤ now → ∃ fx j',
          PipelineStep p ⟨backend, none⟩ (final Job.initial run) (.timer key now wall ts) fx j') ∧
      (∀ x ∈ transitions Job.initial run, AccountedOnce p x.1 x.2) ∧
      Balanced (messages run) (updatesApplied p Job.initial run) (outputs run) := by
  have hkeep : ∀ (j : Job) (e : PipelineEvent) (fx : List PipelineEffect) (j' : Job), j.Readable →
      PipelineStep p ⟨backend, none⟩ j e fx j' → j'.Readable :=
    fun _ _ _ _ hj hs => hj.pipelineStep hs
  refine ⟨⟨?_, ?_⟩, ?_, balanced_run run _ readable_initial h⟩
  · intro value hfits now parsedAt wall
    exact exists_message_step (h.invariant hkeep readable_initial) hfits now parsedAt wall
  · intro key ts hts now wall hdue
    obtain ⟨jrun, hjrun, hend, _⟩ := exists_jobRun run _ h
    rw [← hend] at hts ⊢
    exact exists_timer_step hjrun hts hdue wall
  · refine IsRun.forall_transitions hkeep ?_ run _ readable_initial h
    intro j e fx j' hj hs now parsedAt wall value hlabel
    subst hlabel
    obtain ⟨outcome, hacc⟩ := hs.accounted hj
    refine ⟨outcome, hacc, ?_, hacc.unchanged⟩
    intro outcome' hacc'
    rw [hacc'.eq_outcomeOf, hacc.eq_outcomeOf]

end Totals

/-! Three messages: order 1, the JSON value `null`, and an empty message. -/

def order1Json : String :=
  r#"{"orderId":"order-1","customerId":"cust-order-1","storeId":"store-1","status":"ACCEPTED","# ++
    r#""expectedDeliveryTime":"1970-01-01T00:10:00Z","lastUpdatedAt":"1970-01-01T00:00:00Z"}"#

/-- What the libraries answer on them. -/
def libraries : Platform where
  readValue json :=
    if json = order1Json then .ok (some order1.toOrderState)
    else if json = "null" then .ok none
    else .error (some "No content to map due to end-of-input")
  nullRecord := some "Could not extract key from null"
  nullKey _ := some "Assigned key must not be null!"

/-- The order is applied; the other two end on the dead letters of the parser. -/
def threeMessages : List (Entry Job PipelineEvent PipelineEffect) :=
  [⟨.message (.of 0) (.ofEpochMilli (.of 0)) (.ofEpochMilli (.of 0)) order1Json, [],
    Function.update Job.initial "order-1" waiting1⟩,
   ⟨.message (.of 1) (.ofEpochMilli (.of 1)) (.ofEpochMilli (.of 1)) "null",
    [.parse_errors, .parseFailure (parseErrorEvent "null" (some "Could not extract key from null")
      (.ofEpochMilli (.of 1)))],
    Function.update Job.initial "order-1" waiting1⟩,
   ⟨.message (.of 2) (.ofEpochMilli (.of 2)) (.ofEpochMilli (.of 2)) "",
    [.parse_errors, .parseFailure (parseErrorEvent ""
      (some "No content to map due to end-of-input") (.ofEpochMilli (.of 2)))],
    Function.update Job.initial "order-1" waiting1⟩]

/-- The first is parsed. -/
lemma processElement_order1Json : OrderStateDeserializationFunction.processElement libraries
    (.ofEpochMilli (.of 0)) order1Json = .collected "order-1" order1.toOrderState := by
  have hread : libraries.readValue order1Json = .ok (some order1.toOrderState) := by
    simp [libraries]
  exact processElement_collected_iff.mpr ⟨hread, rfl⟩

lemma isRun_threeMessages :
    IsRun (PipelineStep libraries ⟨.rocksDB, none⟩) Job.initial threeMessages := by
  have hfirst : JobStep ⟨.rocksDB, none⟩ Job.initial
      ("order-1", .element (.of 0) (.ofEpochMilli (.of 0)) order1.toOrderState) []
      (Function.update Job.initial "order-1" waiting1) := .at_key (.element rfl rfl)
  exact ⟨.processed processElement_order1Json hfirst, .deadLetter rfl, .deadLetter rfl, trivial⟩

/-- The books of the three messages balance. -/
theorem every_message_accounted_three :
    Balanced (messages threeMessages) (updatesApplied libraries Job.initial threeMessages)
        (outputs threeMessages) ∧
      ∀ x ∈ transitions Job.initial threeMessages, AccountedOnce libraries x.1 x.2 := by
  have hall := every_message_accounted isRun_threeMessages
  exact ⟨hall.2.2, hall.2.1⟩

end DelayedOrderSms
