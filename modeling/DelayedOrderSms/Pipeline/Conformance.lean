import DelayedOrderSms.Pipeline.Accounting

/-!
# Commands and the schema they are published under

`send-delay-sms-command.schema.json` asks for three non-empty ids and an expected delivery time.
`isValid` checks that the order id and the expected delivery time are present; an empty order id,
and a customer or store id that is missing or empty, pass it and end up in a command.

* `Conforms` — what the schema asks of a command, `Complete` — what a message must have for it.
* `TrackedStep.conforms` — from complete messages only conforming commands.
* `meetsSchema_iff` — the messages on which the job keeps to the schema, and routes to the invalid
  orders what lacks something.
-/

namespace DelayedOrderSms

open Java Flink Systems

/-- A string that is present and not empty. -/
def Filled (field : Option String) : Prop := ∃ v ∈ field, v ≠ ""

instance (field : Option String) : Decidable (Filled field) :=
  match field with
  | none => isFalse (by simp [Filled])
  | some v => if h : v = "" then isFalse (by simp [Filled, h]) else isTrue ⟨v, rfl, h⟩

/-- **The schema of the command.**  Its `createdAt` is present by its type. -/
structure Conforms (c : SmsCommand) : Prop where
  commandId : ∃ id ∈ c.orderId, id ≠ "" ∧ c.commandId = id ++ ":DELAY_SMS"
  commandType : c.commandType = "SEND_DELAY_SMS"
  orderId : Filled c.orderId
  customerId : Filled c.customerId
  storeId : Filled c.storeId
  reason : c.reason = "ORDER_DELAYED"
  expectedDeliveryTime : c.expectedDeliveryTime.isSome = true
  schemaVersion : c.schemaVersion = 1

/-- The message has what a conforming command needs. -/
structure Complete (o : OrderState) : Prop where
  orderId : Filled o.orderId
  customerId : Filled o.customerId
  storeId : Filled o.storeId
  expectedDeliveryTime : o.expectedDeliveryTime.isSome = true

lemma Complete.conforms {s : Snapshot} (h : Complete s.toOrderState) (now : Long) :
    Conforms (s.delayCommand now) := by
  obtain ⟨id, hid, hne⟩ := h.orderId
  obtain rfl : s.orderId = id := Option.some.inj hid
  exact ⟨⟨s.orderId, rfl, hne, rfl⟩, rfl, h.orderId, h.customerId, h.storeId, rfl, rfl, rfl⟩

/-- What is kept of an order is complete. -/
def KeptComplete (slot : Slot Tracked) : Prop :=
  ∀ t ∈ slot.kept, Complete t.snapshot.toOrderState

section Step

variable {ttl : Option ℕ} {k : String} {slot slot' : Slot Tracked} {e : KeyEvent OrderState}
  {fx : List Effect}

/-- If what is valid is complete, what is kept stays complete. -/
lemma TrackedStep.keptComplete (h : TrackedStep ttl k slot e fx slot') (hkept : KeptComplete slot)
    (hin : ∀ o ∈ e.incoming?, isValid o = true → Complete o) : KeptComplete slot' := by
  have hwrote : ∀ (s : Snapshot) (b : Bool) (m : Option Long) (w : Long) (T : Finset Long),
      Complete s.toOrderState → KeptComplete (wrote ⟨s, b, m⟩ w T) := by
    intro s b m w T hs t ht
    obtain rfl := Option.some.inj ht
    exact hs
  cases h with
  | invalid => exact hkept
  | @delivered _ now wall s _ _ hd =>
      have hs : Complete s.toOrderState := hin _ rfl rfl
      cases hd with
      | stale => exact hkept
      | terminal => exact hwrote _ _ _ _ _ hs
      | silent => exact hwrote _ _ _ _ _ hs
      | due => exact hwrote _ _ _ _ _ hs
      | pending => exact hwrote _ _ _ _ _ hs
  | fired _ _ hf =>
      cases hf with
      | idle => exact hkept
      | notify hv =>
          obtain ⟨w, hw⟩ := Slot.value_eq_some hv
          refine hwrote _ _ _ _ _ (hkept _ ?_)
          rw [Slot.pop_cell] at hw
          rw [Slot.kept, hw]
          rfl

/-- **From complete messages come conforming commands.** -/
theorem TrackedStep.conforms (h : TrackedStep ttl k slot e fx slot') (hkept : KeptComplete slot')
    {c : SmsCommand} (hc : c ∈ commands fx) : Conforms c := by
  rcases h.quiet_or_emission with hquiet | ⟨s, hemit⟩
  · rw [hquiet] at hc
    exact absurd hc List.not_mem_nil
  · rw [hemit.command, List.mem_singleton] at hc
    rw [hc]
    refine (hkept ⟨s, true, none⟩ ?_).conforms e.now
    rw [Slot.kept, hemit.written]
    rfl

/-- A valid snapshot causes no dead letter. -/
lemma Delivered.no_deadLetter {now : Long} {s : Snapshot} (h : Delivered ttl now s slot fx slot')
    (event : DeadLetterEvent) : .output event ∉ fx := by
  cases h with
  | stale => simp
  | terminal => simp
  | silent => simp
  | due => simp [Snapshot.notification]
  | pending => simp

end Step

/-! ## Runs of the pipeline -/

/-- A message that lacks something is routed to the invalid orders and changes nothing. -/
def RoutesIncomplete (p : Platform) (j : Job) (e : Entry Job PipelineEvent PipelineEffect) : Prop :=
  ∀ now parsedAt wall value o, e.label = .message now parsedAt wall value →
    p.readValue value = .ok (some o) → ¬ Complete o →
      e.output = [.order (.output (invalidOrderEvent o wall)), .order (.inc .invalid_messages)] ∧
        e.target = j

/-- **The run keeps to the schema**: its commands conform, and what lacks something is routed to
the invalid orders. -/
structure MeetsSchema (p : Platform) (run : List (Entry Job PipelineEvent PipelineEffect)) : Prop where
  conforms : ∀ c ∈ collectedCommands (outputs run), Conforms c
  routes : ∀ x ∈ transitions Job.initial run, RoutesIncomplete p x.1 x.2

/-- A message that parses to an order parses to a complete one, or to one that has an id but
lacks another field `isValid` asks for. -/
def Acceptable (p : Platform) : PipelineEvent → Prop
  | .message _ _ _ value => ∀ o, p.readValue value = .ok (some o) →
      Complete o ∨ (o.orderId.isSome = true ∧ isValid o = false)
  | .timer _ _ _ _ => True

/-- Everything that is stored is complete. -/
def Job.Complete (j : Job) : Prop := ∃ slots : String → Slot Tracked,
  j = mapKeys (Slot.map Tracked.toDelayState) slots ∧ ∀ k, KeptComplete (slots k)

lemma complete_initial : Job.initial.Complete :=
  ⟨fun _ => Slot.empty, rfl, fun _ _ ht => absurd ht (by simp [Slot.empty, Slot.kept])⟩

section Pipeline

variable {p : Platform} {config : StateConfig} {j j' : Job} {e : PipelineEvent}
  {fx : List PipelineEffect}

/-- A step of the job on an acceptable message. -/
lemma Job.Complete.jobStep {key : String} {ke : KeyEvent OrderState} {ofx : List Effect}
    (h : j.Complete) (hs : JobStep config j (key, ke) ofx j')
    (hin : ∀ o ∈ ke.incoming?, isValid o = true → DelayedOrderSms.Complete o) :
    j'.Complete ∧ ∀ c ∈ commands ofx, Conforms c := by
  obtain ⟨slots, rfl, hkept⟩ := h
  obtain ⟨slots', hts, rfl⟩ := (jobStep_embeds config slots _ ofx j').mp hs
  have hkey := hts.at_same.keptComplete (hkept key) hin
  refine ⟨⟨slots', rfl, fun k => ?_⟩, fun c hc => hts.at_same.conforms hkey hc⟩
  by_cases hk : k = key
  · rw [hk]
    exact hkey
  · rw [hts.at_other hk]
    exact hkept k

/-- A step of the pipeline on an acceptable message. -/
lemma Job.Complete.pipelineStep (h : j.Complete) (hs : PipelineStep p config j e fx j')
    (hacc : Acceptable p e) : j'.Complete ∧ ∀ c ∈ collectedCommands fx, Conforms c := by
  cases hs with
  | deadLetter => exact ⟨h, fun c hc => absurd hc (by simp [collectedCommands,
      PipelineEffect.command?])⟩
  | processed hparse hs =>
      rw [collectedCommands_order]
      refine h.jobStep hs fun o ho hvalid => ?_
      obtain rfl := Option.some.inj ho
      rcases hacc _ (processElement_collected_iff.mp hparse).1 with hcomplete | ⟨_, hinvalid⟩
      · exact hcomplete
      · exact absurd (hvalid.symm.trans hinvalid) (by decide)
  | timer hs =>
      rw [collectedCommands_order]
      exact h.jobStep hs fun o ho => absurd ho (by simp [KeyEvent.incoming?])

/-- **Routing.**  A message that parses to an order goes to the invalid orders exactly if the order
has an id and lacks another field `isValid` asks for. -/
theorem PipelineStep.routed_iff (hj : j.Readable) {now : Long} {parsedAt wall : Instant}
    {value : String} (hs : PipelineStep p config j (.message now parsedAt wall value) fx j')
    {o : OrderState} (hread : p.readValue value = .ok (some o)) :
    (fx = [.order (.output (invalidOrderEvent o wall)), .order (.inc .invalid_messages)] ∧ j' = j) ↔
      o.orderId.isSome = true ∧ isValid o = false := by
  cases hs with
  | deadLetter hparse =>
      refine iff_of_false (by simp) ?_
      rintro ⟨hid, _⟩
      obtain ⟨key, hkey⟩ := Option.isSome_iff_exists.mp hid
      rw [processElement_collected_iff.mpr ⟨hread, hkey⟩] at hparse
      exact absurd hparse (by simp)
  | @processed _ _ _ _ _ key o' ofx hparse hs =>
      obtain ⟨hread', hkey⟩ := processElement_collected_iff.mp hparse
      obtain rfl : o = o' := Option.some.inj (Except.ok.inj (hread.symm.trans hread'))
      obtain ⟨slots, rfl⟩ := hj
      obtain ⟨slots', hts, rfl⟩ := (jobStep_embeds config slots _ ofx j').mp hs
      have hstep := hts.at_same
      cases hvalid : isValid o with
      | false =>
          obtain ⟨rfl, hslot⟩ := hstep.invalid_inv hvalid
          rw [hts.eq_of_same hslot]
          simp [hkey]
      | true =>
          -- A valid snapshot is never put on the dead letters.
          refine iff_of_false ?_ (by simp)
          rintro ⟨hfx, _⟩
          obtain ⟨s, rfl⟩ := isValid_iff.mp hvalid
          have hmem : PipelineEffect.order (.output (invalidOrderEvent s.toOrderState wall)) ∈
              ofx.map .order := by
            rw [hfx]
            exact List.mem_cons_self
          obtain ⟨x, hx, heq⟩ := List.mem_map.mp hmem
          obtain rfl := PipelineEffect.order.inj heq
          exact hstep.delivered_of_snapshot.no_deadLetter _ hx

/-- So a step routes what lacks something exactly if its message is acceptable. -/
lemma PipelineStep.routesIncomplete_iff (hj : j.Readable) (hs : PipelineStep p config j e fx j') :
    RoutesIncomplete p j ⟨e, fx, j'⟩ ↔ Acceptable p e := by
  cases e with
  | timer => exact iff_of_true (fun _ _ _ _ _ hlabel => absurd hlabel (by simp)) trivial
  | message now parsedAt wall value =>
      constructor
      · intro hroutes o hread
        by_cases hc : Complete o
        · exact .inl hc
        · exact .inr ((hs.routed_iff hj hread).mp (hroutes now parsedAt wall value o rfl hread hc))
      · intro hacc now' parsedAt' wall' value' o hlabel hread hc
        obtain ⟨rfl, rfl, rfl, rfl⟩ := PipelineEvent.message.inj hlabel
        exact (hs.routed_iff hj hread).mpr ((hacc o hread).resolve_left hc)

/-- Acceptable messages lead to conforming commands only. -/
lemma conforms_run : ∀ (run : List (Entry Job PipelineEvent PipelineEffect)) (j : Job),
    j.Complete → IsRun (PipelineStep p config) j run → (∀ e ∈ run, Acceptable p e.label) →
      ∀ c ∈ collectedCommands (outputs run), Conforms c := by
  intro run
  induction run with
  | nil => intro j _ _ _ c hc; exact absurd hc (by simp [collectedCommands])
  | cons e run ih =>
      intro j hj hrun hacc c hc
      obtain ⟨hstep, hrest⟩ := hrun
      obtain ⟨hj', hhead⟩ := hj.pipelineStep hstep (hacc e List.mem_cons_self)
      rw [outputs_cons, collectedCommands_append, List.mem_append] at hc
      rcases hc with hc | hc
      · exact hhead c hc
      · exact ih e.target hj' hrest (fun d hd => hacc d (List.mem_cons_of_mem _ hd)) c hc

/-- **When the commands keep to their schema.**  In every run of the pipeline, at any clock and on
any schedule of timers and any time to live: all commands conform to the schema and everything
that lacks something is routed to the invalid orders, without changing what is stored, exactly if
every message that parses to an order parses to a complete one, or to one with an id that `isValid`
rejects. -/
theorem meetsSchema_iff {run : List (Entry Job PipelineEvent PipelineEffect)}
    (h : IsRun (PipelineStep p config) Job.initial run) :
    MeetsSchema p run ↔ ∀ e ∈ run, Acceptable p e.label := by
  have hsteps : ∀ x ∈ transitions Job.initial run,
      (RoutesIncomplete p x.1 x.2 ↔ Acceptable p x.2.label) :=
    @IsRun.forall_transitions _ _ _ _ Job.Readable
      (fun j e => RoutesIncomplete p j e ↔ Acceptable p e.label)
      (fun _ _ _ _ hj hs => hj.pipelineStep hs)
      (fun _ _ _ _ hj hs => hs.routesIncomplete_iff hj) run _ readable_initial h
  have hentries : (∀ x ∈ transitions Job.initial run, Acceptable p x.2.label) ↔
      ∀ e ∈ run, Acceptable p e.label :=
    forall_transitions (C := fun e => Acceptable p e.label)
  constructor
  · intro hmeets
    exact hentries.mp fun x hx => (hsteps x hx).mp (hmeets.routes x hx)
  · intro hacc
    exact ⟨conforms_run run _ complete_initial h hacc,
      fun x hx => (hsteps x hx).mpr (hentries.mpr hacc x hx)⟩

end Pipeline

/-- Order 1 is due when it arrives. -/
def dueMessage : List (Entry Job PipelineEvent PipelineEffect) :=
  [⟨.message (.of 700000) (.ofEpochMilli (.of 0)) (.ofEpochMilli (.of 0)) order1Json,
    (order1.notification (.of 700000)).map .order,
    Function.update Job.initial "order-1"
      ((wrote ⟨order1, true, none⟩ (.of 700000) ∅).map Tracked.toDelayState)⟩]

lemma isRun_dueMessage : IsRun (PipelineStep libraries (stateConfig 7)) Job.initial dueMessage :=
  ⟨.processed processElement_order1Json (.at_key (.element rfl rfl)), trivial⟩

/-- It is complete, so its command keeps to the schema. -/
theorem meetsSchema_due :
    order1.delayCommand (.of 700000) ∈ collectedCommands (outputs dueMessage) ∧
      Conforms (order1.delayCommand (.of 700000)) := by
  have hcomplete : Complete order1.toOrderState :=
    ⟨⟨_, rfl, by decide⟩, ⟨_, rfl, by decide⟩, ⟨_, rfl, by decide⟩, rfl⟩
  have hacceptable : ∀ e ∈ dueMessage, Acceptable libraries e.label := by
    refine List.forall_mem_singleton.mpr fun o ho => ?_
    rw [(processElement_collected_iff.mp processElement_order1Json).1] at ho
    obtain rfl := Option.some.inj (Except.ok.inj ho)
    exact .inl hcomplete
  have hcommand : order1.delayCommand (.of 700000) ∈ collectedCommands (outputs dueMessage) :=
    List.mem_singleton_self _
  exact ⟨hcommand, ((meetsSchema_iff isRun_dueMessage).mpr hacceptable).conforms _ hcommand⟩

/-! An order without a customer id, which is due when it arrives. -/

def anonymousOrder : Snapshot := { order1 with customerId := none }

def anonymousJson : String :=
  r#"{"orderId":"order-1","storeId":"store-1","status":"ACCEPTED","# ++
    r#""expectedDeliveryTime":"1970-01-01T00:10:00Z","lastUpdatedAt":"1970-01-01T00:00:00Z"}"#

/-- What the libraries answer on it. -/
def anonymousLibraries : Platform :=
  { libraries with readValue := fun _ => .ok (some anonymousOrder.toOrderState) }

/-- It is valid, so its command has no customer id. -/
def anonymousMessage : List (Entry Job PipelineEvent PipelineEffect) :=
  [⟨.message (.of 700000) (.ofEpochMilli (.of 0)) (.ofEpochMilli (.of 0)) anonymousJson,
    (anonymousOrder.notification (.of 700000)).map .order,
    Function.update Job.initial "order-1"
      ((wrote ⟨anonymousOrder, true, none⟩ (.of 700000) ∅).map Tracked.toDelayState)⟩]

theorem meetsSchema_anonymous :
    IsRun (PipelineStep anonymousLibraries (stateConfig 7)) Job.initial anonymousMessage ∧
      anonymousOrder.delayCommand (.of 700000) ∈ collectedCommands (outputs anonymousMessage) ∧
      ¬ Conforms (anonymousOrder.delayCommand (.of 700000)) ∧
      ¬ MeetsSchema anonymousLibraries anonymousMessage := by
  have hcommand : anonymousOrder.delayCommand (.of 700000) ∈
      collectedCommands (outputs anonymousMessage) := List.mem_singleton_self _
  have hnot : ¬ Conforms (anonymousOrder.delayCommand (.of 700000)) := by
    intro hc
    obtain ⟨v, hv, _⟩ := hc.customerId
    exact absurd hv (by simp [Snapshot.delayCommand, anonymousOrder])
  exact ⟨⟨.processed rfl (.at_key (.element rfl rfl)), trivial⟩, hcommand, hnot,
    fun hmeets => hnot (hmeets.conforms _ hcommand)⟩

end DelayedOrderSms
