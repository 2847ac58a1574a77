import DelayedOrderSms.Python.Datetime
import DelayedOrderSms.Python.Json

/-!
# Configuration and order contexts

What the runner is configured with, and the identifiers it generates for an order.  The factor on
the delays is a float; it appears as the function `scaleDelay` that it stands for,
`int(delay_ms * event_delay_multiplier)`.
-/

namespace OrderSimulator

open Python

/-- `SimulatorConfig`, without what only the Kafka client reads. -/
structure SimulatorConfig where
  scenario : String
  ordersCount : ℤ
  orderIdPrefix : String
  scaleDelay : ℤ → Except Exception ℤ
  pauseAfterStep : ℤ
  pauseDurationSeconds : ℤ

structure OrderContext where
  orderIndex : ℕ
  orderId : String
  customerId : String
  storeId : String
  baseTime : Datetime
  deriving DecidableEq, Repr

def OrderContext.asTemplateContext (context : OrderContext) : Dict String String :=
  [("orderId", context.orderId), ("customerId", context.customerId), ("storeId", context.storeId)]

/-- The class `[a-zA-Z0-9]`. -/
def isAlnum (c : Char) : Bool := c.isLower || c.isUpper || c.isDigit

/-- `re.sub(r"[^a-zA-Z0-9]+", "-", value)`; `inRun` says that the run is already replaced. -/
def dashRuns (inRun : Bool) : List Char → List Char
  | [] => []
  | c :: cs =>
      if isAlnum c then c :: dashRuns false cs
      else if inRun then dashRuns true cs
      else '-' :: dashRuns true cs

/-- `_normalize_name` -/
def normalizeName (value : String) : String :=
  let stem := if ".json".toList.isSuffixOf value.toList then value.toList.take (value.length - 5)
    else value.toList
  let dashed := (dashRuns false stem).dropWhile (· = '-')
  String.ofList ((dashed.reverse.dropWhile (· = '-')).reverse.map Char.toLower)

/-- `_create_order_context`, at the time `now` -/
def createOrderContext (config : SimulatorConfig) (now : Datetime) (orderIndex : ℕ)
    (scenarioName : String) : OrderContext :=
  let index := String.ofList (Datetime.padded 4 orderIndex)
  let store := (((orderIndex : ℤ) - 1) % 10 + 1).toNat
  { orderIndex
    orderId := config.orderIdPrefix ++ "-" ++ normalizeName scenarioName ++ "-" ++ index
    customerId := "cus-" ++ index
    storeId := "store-" ++ String.ofList (Datetime.padded 3 store)
    baseTime := now }

example : normalizeName "Delayed__orders!.json" = "delayed-orders" := by decide

end OrderSimulator
