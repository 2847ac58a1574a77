import DelayedOrderSms.Processor.Notification
import DelayedOrderSms.Simulator.ScenarioRun
import Mathlib.Data.Finset.Dedup
import Mathlib.Data.Finset.Card

/-!
# `run_e2e.py`

The end-to-end test runs its scenarios one after the other against one job.  After each of them it
counts the commands in the topic, and what has come since the count before is attributed to the
scenario.

* `checkScenario`, `runScenarios` — the loop of `main`, on what it sees of the outside.
* `SessionStep` — a pass of the loop together with the outside: the run of the simulator, what the
  job does until the commands are counted, and what the consumer prints of the topic.
* `runScenarios_of_isRun` — the loop reports the counts of the session.
-/

namespace EndToEnd

open Python Systems Flink DelayedOrderSms
open OrderSimulator (SimulatorConfig ScenarioFile Task)

/-! ## The test -/

/-- What `EXPECTED_SMS` says of a scenario: a number, or a range. -/
inductive Expectation where
  | exactly (count : ℤ)
  | between (low high : ℤ)
  deriving DecidableEq, Repr

/-- `EXPECTED_SMS` -/
def expectedSms : Dict String Expectation :=
  [("delayed-orders", .exactly 5), ("on-time-orders", .exactly 0), ("cancelled-orders", .exactly 0),
    ("duplicate-events", .exactly 5), ("eta-updated-orders", .exactly 5),
    ("mixed-orders", .between 0 2)]

/-- The scenarios of `main`. -/
def scenarios : List String :=
  ["delayed-orders", "on-time-orders", "cancelled-orders", "duplicate-events", "eta-updated-orders",
    "mixed-orders"]

example : scenarios.Nodup ∧ ∀ scenario ∈ scenarios, (expectedSms.get? scenario).isSome := by decide

/-- `validate_sms_count` -/
def validateSmsCount (scenario : String) (actual : ℤ) : Except Exception Bool := do
  match ← expectedSms.getItem scenario with
  | .exactly count => return actual = count
  | .between low high => return low ≤ actual ∧ actual ≤ high

/-- `expected_str` -/
def expectedStr (scenario : String) : Except Exception String := do
  match ← expectedSms.getItem scenario with
  | .exactly count => return toString count
  | .between low high => return toString low ++ "-" ++ toString high

/-- `max_messages` of `consume_sms_count` -/
def maxMessages : ℕ := 100

/-- Jackson writes an escape sequence for the character. -/
def isEscaped (c : Char) : Bool := c.toNat < 32 || c = '"' || c = '\\'

/-- The text is written on one line. -/
def staysOnLine (text : String) : Bool := text.toList.all fun c => isEscaped c || !isLineBreak c

/-- The record of the command is printed as one line, as `str.splitlines` sees it. -/
def isOneLine (c : SmsCommand) : Bool :=
  staysOnLine c.commandId && c.orderId.all staysOnLine && c.customerId.all staysOnLine
    && c.storeId.all staysOnLine

/-- `consume_sms_count`, on the commands the consumer prints.  What else it prints is no JSON, and
neither is a part of a record, so that a record of several lines is skipped. -/
def consumeSmsCount (printed : List SmsCommand) : ℕ :=
  (((printed.filter isOneLine).map SmsCommand.commandId).filter (· ≠ "")).toFinset.card

structure E2EResult where
  scenario : String
  passed : Bool
  expected : String
  actualSmsCount : ℤ
  error : Option String

/-- What a pass of the loop sees of the outside: how the simulator ended, and what the consumer
printed if it was asked. -/
structure Observation where
  scenario : String
  returncode : ℤ
  stderr : String
  printed : List SmsCommand

/-- The body of the loop, with the total of the count before; a failed run leaves it as it is. -/
def checkScenario (previousTotal : ℤ) (seen : Observation) : Except Exception (E2EResult × ℤ) := do
  if seen.returncode ≠ 0 then
    let expected ← expectedStr seen.scenario
    let error := "Simulator exit " ++ toString seen.returncode ++ ": "
      ++ String.ofList (seen.stderr.toList.take 200)
    return ({ scenario := seen.scenario, passed := false, expected, actualSmsCount := -1
              error := some error }, previousTotal)
  else
    let rawCount : ℤ := consumeSmsCount seen.printed
    let smsCount := rawCount - previousTotal
    let passed ← validateSmsCount seen.scenario smsCount
    let expected ← expectedStr seen.scenario
    return ({ scenario := seen.scenario, passed, expected, actualSmsCount := smsCount
              error := none }, rawCount)

/-- The loop of `main`. -/
def runScenarios (previousTotal : ℤ) : List Observation → Except Exception (List E2EResult)
  | [] => return []
  | seen :: rest => do
      let (result, total) ← checkScenario previousTotal seen
      let results ← runScenarios total rest
      return result :: results

/-! ## The session -/

/-- One pass of the loop and the outside: the clock and the draws of the simulator, and the steps
that the job takes until the commands are counted, or until the next run after a failed one. -/
structure Round where
  seen : Observation
  now : ℕ → Datetime
  draws : ℕ → ℕ
  jobRun : List (Entry Job (String × KeyEvent OrderState) DelayedOrderSms.Effect)

/-- What there is between two passes: the scenarios that have been run, their orders and messages,
what the job has done, and what was found at the count before. -/
structure Session where
  ran : List String
  tasks : List Task
  messages : List (Json × Json)
  jobRun : List (Entry Job (String × KeyEvent OrderState) DelayedOrderSms.Effect)
  previousTotal : ℤ
  lastTopic : List SmsCommand
  lastPrinted : List SmsCommand

def Session.initial : Session := ⟨[], [], [], [], 0, [], []⟩

/-- The commands the job has emitted. -/
def Session.topic (s : Session) : List SmsCommand := commands (outputs s.jobRun)

/-- A count, next to what it is about: the orders of the runs before, those of this run, and the
commands there are.  A failed run is not counted. -/
structure Reading where
  earlier : List Task
  tasks : List Task
  topic : List SmsCommand
  smsCount : Option ℤ

/-- What all passes share: the scenario files, whose values name their order by the placeholder,
the environment of the simulator, the number of orders, and the settings of the job. -/
structure Setup where
  load : String → Except Exception ScenarioFile
  labelled : ∀ name file, load name = .ok file → OrderSimulator.Labelled file.toScenario
  config : SimulatorConfig
  ordersCount : ℤ
  stateConfig : StateConfig

section

variable (setup : Setup)

/-- The configuration of the simulator in `run_scenario`. -/
def Round.config (round : Round) : SimulatorConfig :=
  setup.config.override (some round.seen.scenario) (some setup.ordersCount)

/-- The orders of the run. -/
def Round.tasks (round : Round) : List Task :=
  match OrderSimulator.SimulatorRunner.run setup.load (round.config setup) round.now round.draws with
  | .ok tasks => tasks
  | .error _ => []

/-- The session after the run, before the commands are counted. -/
def Session.advance (s : Session) (round : Round) : Session :=
  { s with
    ran := s.ran ++ [round.seen.scenario]
    tasks := s.tasks ++ round.tasks setup
    messages := s.messages
      ++ OrderSimulator.executeTasks (round.config setup) (round.tasks setup)
    jobRun := s.jobRun ++ round.jobRun }

/-- The session after the commands are counted. -/
def Session.count (s : Session) (round : Round) : Session :=
  { s.advance setup round with
    previousTotal := consumeSmsCount round.seen.printed
    lastTopic := (s.advance setup round).topic
    lastPrinted := round.seen.printed }

def Session.reading (s : Session) (round : Round) (smsCount : Option ℤ) : Reading where
  earlier := s.tasks
  tasks := round.tasks setup
  topic := (s.advance setup round).topic
  smsCount := smsCount

/-- **What the outside can do in a pass.**  No scenario is run twice.  What the job processes are
messages that have been published, and the consumer prints commands that are in the topic, no more
of them than it is asked for. -/
structure Session.Admits (s : Session) (round : Round) : Prop where
  distinct : round.seen.scenario ∉ s.ran
  job : IsRun (JobStep setup.stateConfig) Job.initial (s.advance setup round).jobRun
  fed : ∀ k ∈ processedOrders round.jobRun,
    ∃ message ∈ (s.advance setup round).messages, OrderSimulator.orderIdOf message.2 = some k
  printed : round.seen.printed ⊆ (s.advance setup round).topic
  printed_le : round.seen.printed.length ≤ maxMessages

/-- **A pass of the loop.** -/
inductive SessionStep : Session → Round → List Reading → Session → Prop
  | failed {s : Session} {round : Round} :
      s.Admits setup round → round.seen.returncode ≠ 0 →
      SessionStep s round [s.reading setup round none] (s.advance setup round)
  | counted {s : Session} {round : Round} :
      s.Admits setup round → round.seen.returncode = 0 →
      SessionStep s round
        [s.reading setup round (some (consumeSmsCount round.seen.printed - s.previousTotal))]
        (s.count setup round)

end

/-- A pass of the loop reports the count of the session, and passes on its total. -/
lemma checkScenario_of_step {setup : Setup} {s s' : Session} {round : Round}
    {readings : List Reading} {result : E2EResult} {total : ℤ}
    (hstep : SessionStep setup s round readings s')
    (h : checkScenario s.previousTotal round.seen = .ok (result, total)) :
    readings.map (fun reading => reading.smsCount.getD (-1)) = [result.actualSmsCount] ∧
      s'.previousTotal = total := by
  rw [checkScenario] at h
  cases hstep with
  | failed _ hcode =>
      rw [if_pos hcode] at h
      obtain ⟨expected, _, h⟩ := bind_eq_ok_iff.mp h
      cases h
      exact ⟨rfl, rfl⟩
  | counted _ hcode =>
      rw [if_neg (not_not.mpr hcode)] at h
      obtain ⟨passed, _, h⟩ := bind_eq_ok_iff.mp h
      obtain ⟨expected, _, h⟩ := bind_eq_ok_iff.mp h
      cases h
      exact ⟨rfl, rfl⟩

/-- **The loop of `main` reports the counts of the session.** -/
theorem runScenarios_of_isRun {setup : Setup} {run : List (Entry Session Round Reading)}
    {s : Session} (h : IsRun (SessionStep setup) s run) {results : List E2EResult}
    (hresults : runScenarios s.previousTotal (run.map (·.label.seen)) = .ok results) :
    results.map E2EResult.actualSmsCount
      = (outputs run).map fun reading => reading.smsCount.getD (-1) := by
  induction run generalizing s results with
  | nil =>
      cases hresults
      rfl
  | cons e run ih =>
      obtain ⟨hstep, hrest⟩ := h
      obtain ⟨⟨result, total⟩, hcheck, hresults⟩ := bind_eq_ok_iff.mp hresults
      obtain ⟨results', hresults', hcons⟩ := bind_eq_ok_iff.mp hresults
      cases hcons
      obtain ⟨hhead, htotal⟩ := checkScenario_of_step hstep hcheck
      rw [← htotal] at hresults'
      rw [outputs_cons, List.map_append, hhead, List.map_cons, ih hrest hresults']
      rfl

end EndToEnd
