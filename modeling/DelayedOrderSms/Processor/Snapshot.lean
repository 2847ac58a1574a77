import DelayedOrderSms.Processor.ProcessFunction

/-!
# Valid snapshots and what is kept of them

The classes of the job allow every field to be `null`; `processElement` lets through only
snapshots whose four required fields are present, and stores nothing else.  `Snapshot` is a
snapshot with those fields, so it cannot be invalid (`isValid_iff`), and `Tracked` is what is
kept of an order: one snapshot and the two fields the operator adds.  `toOrderState` and
`toDelayState` embed both into the classes; everything above this file reasons about `Tracked`
and is carried back through `Slot.map Tracked.toDelayState`.
-/

namespace DelayedOrderSms

open Java Flink

/-- A snapshot that has the fields `isValid` asks for. -/
structure Snapshot where
  orderId : String
  customerId : Option String
  storeId : Option String
  status : OrderStatus
  expectedDeliveryTime : Instant
  lastUpdatedAt : Instant
  deriving DecidableEq

/-- What is kept of an order. -/
structure Tracked where
  snapshot : Snapshot
  delaySmsEmitted : Bool
  registeredTimerTime : Option Long
  deriving DecidableEq

namespace Snapshot

def toOrderState (s : Snapshot) : OrderState where
  orderId := some s.orderId
  customerId := s.customerId
  storeId := s.storeId
  status := some s.status
  expectedDeliveryTime := some s.expectedDeliveryTime
  lastUpdatedAt := some s.lastUpdatedAt

/-- The status is not one an order ends in. -/
def Active (s : Snapshot) : Prop := s.status.isTerminal = false

instance (s : Snapshot) : Decidable s.Active := inferInstanceAs (Decidable (_ = _))

/-- The expected delivery time in epoch milliseconds. -/
def etaMs (s : Snapshot) : ℤ := s.expectedDeliveryTime.epochMilli

/-- Its expected delivery time fits in a `long` of epoch milliseconds. -/
def Fits (s : Snapshot) : Prop := s.expectedDeliveryTime.FitsMillis

instance (s : Snapshot) : Decidable s.Fits := inferInstanceAs (Decidable (Instant.FitsMillis _))

/-- The command that notifies the delay of this snapshot's order at time `now`. -/
def delayCommand (s : Snapshot) (now : Long) : SmsCommand where
  commandId := s.orderId ++ ":DELAY_SMS"
  commandType := "SEND_DELAY_SMS"
  orderId := some s.orderId
  customerId := s.customerId
  storeId := s.storeId
  reason := "ORDER_DELAYED"
  expectedDeliveryTime := some s.expectedDeliveryTime
  createdAt := Instant.ofEpochMilli now
  schemaVersion := 1

/-- Everything the operator puts out when it notifies the delay. -/
def notification (s : Snapshot) (now : Long) : List Effect :=
  [.inc .delayed_orders_detected, .inc .sms_commands_emitted, .collect (s.delayCommand now)]

/-- The order the tests of the repository build: `createOrder`. -/
def createOrder (orderId : String) (status : OrderStatus) (eta lastUpdatedAt : Instant) :
    Snapshot where
  orderId := orderId
  customerId := some ("cust-" ++ orderId)
  storeId := some "store-1"
  status := status
  expectedDeliveryTime := eta
  lastUpdatedAt := lastUpdatedAt

/-- The snapshot in a message, if it has the required fields. -/
def of? (o : OrderState) : Option Snapshot :=
  match o.orderId, o.status, o.expectedDeliveryTime, o.lastUpdatedAt with
  | some orderId, some status, some eta, some lastUpdatedAt =>
      some ⟨orderId, o.customerId, o.storeId, status, eta, lastUpdatedAt⟩
  | _, _, _, _ => none

@[simp] lemma of?_toOrderState (s : Snapshot) : of? s.toOrderState = some s := rfl

lemma of?_of_invalid {o : OrderState} (h : isValid o = false) : of? o = none := by
  rcases o with ⟨_ | i, c, r, _ | st, _ | e, _ | u⟩ <;> first | rfl | exact absurd h (by simp [isValid])

lemma toOrderState_injective : Function.Injective toOrderState := by
  rintro ⟨o, c, r, st, e, u⟩ ⟨o', c', r', st', e', u'⟩ h
  simp only [toOrderState, OrderState.mk.injEq, Option.some.injEq] at h
  obtain ⟨rfl, rfl, rfl, rfl, rfl, rfl⟩ := h
  rfl

end Snapshot

/-- **What `isValid` accepts** are the snapshots with all required fields. -/
theorem isValid_iff {o : OrderState} : isValid o = true ↔ ∃ s : Snapshot, s.toOrderState = o := by
  constructor
  · intro h
    rcases o with ⟨_ | o, c, r, _ | st, _ | e, _ | u⟩ <;> simp only [isValid, Option.isSome_none,
      Option.isSome_some, Bool.and_false, Bool.and_true, Bool.false_eq_true] at h
    exact ⟨⟨o, c, r, st, e, u⟩, rfl⟩
  · rintro ⟨s, rfl⟩
    rfl

@[simp] lemma isValid_toOrderState (s : Snapshot) : isValid s.toOrderState = true := rfl

namespace Tracked

def toDelayState (t : Tracked) : OrderDelayState where
  orderId := some t.snapshot.orderId
  customerId := t.snapshot.customerId
  storeId := t.snapshot.storeId
  currentStatus := some t.snapshot.status
  expectedDeliveryTime := some t.snapshot.expectedDeliveryTime
  lastUpdatedAt := some t.snapshot.lastUpdatedAt
  delaySmsEmitted := t.delaySmsEmitted
  registeredTimerTime := t.registeredTimerTime

@[simp] lemma updateFrom_toDelayState (s : Snapshot) (t : Tracked) :
    t.toDelayState.updateFrom s.toOrderState =
      toDelayState ⟨s, t.delaySmsEmitted, t.registeredTimerTime⟩ := rfl

@[simp] lemma isTerminal_toDelayState (t : Tracked) :
    t.toDelayState.isTerminal = t.snapshot.status.isTerminal := rfl

@[simp] lemma delaySmsEmitted_toDelayState (t : Tracked) :
    t.toDelayState.delaySmsEmitted = t.delaySmsEmitted := rfl

@[simp] lemma registeredTimerTime_toDelayState (t : Tracked) :
    t.toDelayState.registeredTimerTime = t.registeredTimerTime := rfl

@[simp] lemma expectedDeliveryTime_toDelayState (t : Tracked) :
    t.toDelayState.expectedDeliveryTime = some t.snapshot.expectedDeliveryTime := rfl

@[simp] lemma expectedDeliveryTimeMs_toDelayState (t : Tracked) :
    expectedDeliveryTimeMs t.toDelayState = t.snapshot.expectedDeliveryTime.toEpochMilli := rfl

@[simp] lemma isStaleUpdate_toDelayState (s : Snapshot) (t : Tracked) :
    isStaleUpdate s.toOrderState t.toDelayState =
      .ok (s.lastUpdatedAt.isBefore t.snapshot.lastUpdatedAt) := rfl

@[simp] lemma setRegisteredTimerTime_toDelayState (t : Tracked) (time : Option Long) :
    t.toDelayState.setRegisteredTimerTime time =
      toDelayState { t with registeredTimerTime := time } := rfl

@[simp] lemma setDelaySmsEmitted_toDelayState (t : Tracked) (b : Bool) :
    t.toDelayState.setDelaySmsEmitted b = toDelayState { t with delaySmsEmitted := b } := rfl

@[simp] lemma delaySms_toDelayState (t : Tracked) (now : Long) :
    SmsCommand.delaySms t.toDelayState (Instant.ofEpochMilli now) =
      t.snapshot.delayCommand now := rfl

lemma toDelayState_injective : Function.Injective toDelayState := by
  rintro ⟨⟨o, c, r, st, e, u⟩, b, m⟩ ⟨⟨o', c', r', st', e', u'⟩, b', m'⟩ h
  simp only [toDelayState, OrderDelayState.mk.injEq, Option.some.injEq] at h
  obtain ⟨rfl, rfl, rfl, rfl, rfl, rfl, rfl, rfl⟩ := h
  rfl

end Tracked

end DelayedOrderSms
