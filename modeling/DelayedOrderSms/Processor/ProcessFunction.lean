import DelayedOrderSms.Flink.KeyedProcess
import DelayedOrderSms.Model.Order

/-!
# `DelayedOrderProcessFunction`

The operator, method by method, in the order of the Java class.  The methods that take the
object `current` work on the object of the call in progress (`Op.deref`, `Op.mutate`).

`open` registers the state with a time to live of `stateTtlDays` days (`stateConfig`) and the
four counters (`Counter`); the callbacks are packaged as `delayedOrderOperator`, keyed by
`OrderState::getOrderId` as the job wires it.
-/

namespace DelayedOrderSms

open Java Flink

/-- The operator's counters, under the names they are registered with. -/
inductive Counter where
  | delayed_orders_detected
  | sms_commands_emitted
  | stale_updates_ignored
  | invalid_messages
  deriving DecidableEq, Repr

/-- What a call of the operator puts out. -/
inductive Effect where
  | collect (command : SmsCommand)
  | output (event : DeadLetterEvent)
  | inc (counter : Counter)
  deriving DecidableEq

/-- A piece of the operator's body. -/
abbrev Body (α : Type) : Type := Op OrderDelayState Effect α

/-- Milliseconds in `Time.days(stateTtlDays)`. -/
def ttlMillis (stateTtlDays : ℕ) : ℕ := stateTtlDays * 86400000

/-- The state of the operator as `open` configures it, on the job's backend. -/
def stateConfig (stateTtlDays : ℕ) : StateConfig := ⟨.rocksDB, some (ttlMillis stateTtlDays)⟩

def isValid (incoming : OrderState) : Bool :=
  incoming.orderId.isSome
    && incoming.status.isSome
    && incoming.expectedDeliveryTime.isSome
    && incoming.lastUpdatedAt.isSome

def isStaleUpdate (incoming : OrderState) (current : OrderDelayState) : Except Throwable Bool :=
  match current.lastUpdatedAt with
  | none => .ok false
  | some currentUpdatedAt =>
      match incoming.lastUpdatedAt with
      | none => .error (.nullPointerException "incoming.getLastUpdatedAt()")
      | some incomingUpdatedAt => .ok (incomingUpdatedAt.isBefore currentUpdatedAt)

/-- `current.getExpectedDeliveryTime().toEpochMilli()`. -/
def expectedDeliveryTimeMs (current : OrderDelayState) : Except Throwable Long :=
  match current.expectedDeliveryTime with
  | none => .error (.nullPointerException "current.getExpectedDeliveryTime()")
  | some eta => eta.toEpochMilli

/-- The event `processElement` sends to the side output for an invalid order. -/
def invalidOrderEvent (incoming : OrderState) (occurredAt : Instant) : DeadLetterEvent where
  originalPayload := "orderId=" ++ showNullable incoming.orderId
    ++ ", status=" ++ showNullable (incoming.status.map OrderStatus.name)
  errorReason := "Invalid order state: missing required fields " ++
    "(orderId, status, expectedDeliveryTime, lastUpdatedAt)"
  sourceTopic := "Orders"
  occurredAt := occurredAt

def deleteRegisteredTimer : Body Unit := do
  let current ← Op.deref
  match current.registeredTimerTime with
  | some existingTimerTime =>
      Op.deleteProcessingTimeTimer existingTimerTime
      Op.mutate (·.setRegisteredTimerTime none)
  | none => pure ()

def registerOrUpdateTimer (newTimerTime : Long) : Body Unit := do
  let current ← Op.deref
  if current.registeredTimerTime = some newTimerTime then
    return
  match current.registeredTimerTime with
  | some existingTimerTime => Op.deleteProcessingTimeTimer existingTimerTime
  | none => pure ()
  Op.registerProcessingTimeTimer newTimerTime
  Op.mutate (·.setRegisteredTimerTime (some newTimerTime))

def emitDelaySms (context : Context) (currentProcessingTimeMs : Long) : Body Unit := do
  let current ← Op.deref
  let command := SmsCommand.delaySms current (Instant.ofEpochMilli currentProcessingTimeMs)
  Op.emit (.inc .delayed_orders_detected)
  Op.emit (.inc .sms_commands_emitted)
  Op.emit (.collect command)
  Op.mutate (·.setDelaySmsEmitted true)
  Op.mutate (·.setRegisteredTimerTime none)
  Op.update context

/-- `current != null && isStaleUpdate(incoming, current)`. -/
def storedIsNewer (incoming : OrderState) (current : Option OrderDelayState) :
    Except Throwable Bool :=
  match current with
  | none => .ok false
  | some c => isStaleUpdate incoming c

/-- The second half of `processElement`, from `if (current.isTerminal())` on: `current` already
holds the accepted update. -/
def processUpdated (context : Context) : Body Unit := do
  let current ← Op.deref
  if current.isTerminal then
    deleteRegisteredTimer
    Op.update context
    return
  if current.delaySmsEmitted then
    Op.update context
    return
  let now := context.currentProcessingTime
  let etaMs ← Op.ofExcept (expectedDeliveryTimeMs current)
  if etaMs ≤ now then
    deleteRegisteredTimer
    emitDelaySms context context.currentProcessingTime
    return
  registerOrUpdateTimer etaMs
  Op.update context

def processElement (context : Context) (incoming : OrderState) : Body Unit := do
  if !isValid incoming then
    Op.emit (.output (invalidOrderEvent incoming context.instantNow))
    Op.emit (.inc .invalid_messages)
    return
  let stored ← Op.value context
  if ← Op.ofExcept (storedIsNewer incoming stored) then
    Op.emit (.inc .stale_updates_ignored)
    return
  match stored with
  | none => Op.assign (OrderDelayState.fromOrderState incoming)
  | some _ => Op.mutate (OrderDelayState.updateFrom incoming)
  processUpdated context

def onTimer (context : Context) (timestamp : Long) : Body Unit := do
  let stored ← Op.value context
  match stored with
  | none => return
  | some current =>
      if current.isTerminal then
        return
      if current.delaySmsEmitted then
        return
      if current.expectedDeliveryTime.isNone then
        return
      let etaMs ← Op.ofExcept (expectedDeliveryTimeMs current)
      if timestamp ≥ etaMs then
        emitDelaySms context context.currentProcessingTime

/-- The operator as the job wires it: `keyBy(OrderState::getOrderId)`. -/
def delayedOrderOperator : Operator String OrderState OrderDelayState Effect where
  keyOf := OrderState.orderId
  processElement := processElement
  onTimer := onTimer

end DelayedOrderSms
