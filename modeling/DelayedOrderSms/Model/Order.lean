import DelayedOrderSms.Java.Instant

/-!
# The job's data

The classes of the package `model`, field by field.  A Java reference that may be `null` is an
`Option`.  Left out are the fields of `OrderState` that nothing in the job reads after parsing
(`createdAt`, `eventTime`, `stateLogs`, `schemaVersion`).
-/

namespace DelayedOrderSms

open Java

/-- `OrderStatus`. -/
inductive OrderStatus where
  | CREATED
  | ACCEPTED
  | PICKED_UP
  | DELIVERED
  | CANCELLED
  deriving DecidableEq, Repr

def OrderStatus.isTerminal (s : OrderStatus) : Bool := s == .DELIVERED || s == .CANCELLED

/-- `Enum.name()`, which string concatenation shows. -/
def OrderStatus.name : OrderStatus → String
  | .CREATED => "CREATED"
  | .ACCEPTED => "ACCEPTED"
  | .PICKED_UP => "PICKED_UP"
  | .DELIVERED => "DELIVERED"
  | .CANCELLED => "CANCELLED"

/-- `OrderState`: a snapshot of an order as parsed from the `Orders` topic.  Any field may be
missing. -/
structure OrderState where
  orderId : Option String
  customerId : Option String
  storeId : Option String
  status : Option OrderStatus
  expectedDeliveryTime : Option Instant
  lastUpdatedAt : Option Instant
  deriving DecidableEq

/-- `OrderDelayState`: what the job keeps for an order. -/
structure OrderDelayState where
  orderId : Option String
  customerId : Option String
  storeId : Option String
  currentStatus : Option OrderStatus
  expectedDeliveryTime : Option Instant
  lastUpdatedAt : Option Instant
  delaySmsEmitted : Bool
  registeredTimerTime : Option Long
  deriving DecidableEq

namespace OrderDelayState

def fromOrderState (orderState : OrderState) : OrderDelayState where
  orderId := orderState.orderId
  customerId := orderState.customerId
  storeId := orderState.storeId
  currentStatus := orderState.status
  expectedDeliveryTime := orderState.expectedDeliveryTime
  lastUpdatedAt := orderState.lastUpdatedAt
  delaySmsEmitted := false
  registeredTimerTime := none

def updateFrom (orderState : OrderState) (this : OrderDelayState) : OrderDelayState :=
  { this with
    orderId := orderState.orderId
    customerId := orderState.customerId
    storeId := orderState.storeId
    currentStatus := orderState.status
    expectedDeliveryTime := orderState.expectedDeliveryTime
    lastUpdatedAt := orderState.lastUpdatedAt }

def isTerminal (this : OrderDelayState) : Bool :=
  match this.currentStatus with
  | none => false
  | some status => status.isTerminal

def setDelaySmsEmitted (delaySmsEmitted : Bool) (this : OrderDelayState) : OrderDelayState :=
  { this with delaySmsEmitted := delaySmsEmitted }

def setRegisteredTimerTime (registeredTimerTime : Option Long) (this : OrderDelayState) :
    OrderDelayState :=
  { this with registeredTimerTime := registeredTimerTime }

end OrderDelayState

/-- `SmsCommand`: the record written to the `sms-commands` topic. -/
structure SmsCommand where
  commandId : String
  commandType : String
  orderId : Option String
  customerId : Option String
  storeId : Option String
  reason : String
  expectedDeliveryTime : Option Instant
  createdAt : Instant
  schemaVersion : ℕ
  deriving DecidableEq

/-- How string concatenation shows a reference. -/
def showNullable (s : Option String) : String := s.getD "null"

/-- `SmsCommand.delaySms`. -/
def SmsCommand.delaySms (state : OrderDelayState) (createdAt : Instant) : SmsCommand where
  commandId := showNullable state.orderId ++ ":DELAY_SMS"
  commandType := "SEND_DELAY_SMS"
  orderId := state.orderId
  customerId := state.customerId
  storeId := state.storeId
  reason := "ORDER_DELAYED"
  expectedDeliveryTime := state.expectedDeliveryTime
  createdAt := createdAt
  schemaVersion := 1

/-- `DeadLetterEvent`: the record written to the `dead-letter-events` topic. -/
structure DeadLetterEvent where
  originalPayload : String
  errorReason : String
  sourceTopic : String
  occurredAt : Instant
  deriving DecidableEq

end DelayedOrderSms
