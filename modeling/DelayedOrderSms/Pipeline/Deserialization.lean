import DelayedOrderSms.Processor.Backends
import DelayedOrderSms.Processor.History

/-!
# From the raw message to the order

The pipeline of `DelayedOrderSmsJob.main`: `OrderStateDeserializationFunction` parses a message and
collects the order, the stream is keyed by `OrderState::getOrderId`, and the keyed operator
processes it.  The parser keeps no state, so a message is one step of the job: it ends on the dead
letters of the parser or is processed under its key.

* `Platform` — what Jackson and Flink answer; `Platform.collect` throws for a record without a key.
* `OrderStateDeserializationFunction.processElement` — with its `catch` block, which covers what
  `collect` throws too.
* `PipelineStep` — a message, or a timer of an order.
* `exists_jobRun` — what the keyed operator sees of a run is a run of the job.
-/

namespace DelayedOrderSms

open Java Flink Systems

/-- The libraries under the parser.  An exception is known by the answer of `getMessage()`, which
may be `null`. -/
structure Platform where
  /-- `ObjectMapper.readValue`. -/
  readValue : String → Except (Option String) (Option OrderState)
  /-- What collecting `null` throws. -/
  nullRecord : Option String
  /-- What collecting a record whose key is `null` throws. -/
  nullKey : OrderState → Option String

/-- `out.collect(orderState)` on the stream that is keyed by the order id. -/
def Platform.collect (p : Platform) :
    Option OrderState → Except (Option String) (String × OrderState)
  | none => .error p.nullRecord
  | some orderState =>
      match delayedOrderOperator.keyOf orderState with
      | none => .error (p.nullKey orderState)
      | some key => .ok (key, orderState)

/-- `OrderStateParser.parse`. -/
def OrderStateParser.parse (p : Platform) (json : String) :
    Except (Option String) (Option OrderState) :=
  p.readValue json

/-- How a call of the parser ends: the order is collected under its key, or `parse_errors` is
incremented and an event goes to the dead letters. -/
inductive Parsed where
  | collected (key : String) (orderState : OrderState)
  | deadLetter (event : DeadLetterEvent)
  deriving DecidableEq

/-- The event of the `catch` block. -/
def parseErrorEvent (value : String) (message : Option String) (occurredAt : Instant) :
    DeadLetterEvent where
  originalPayload := value
  errorReason := "JSON parse error: " ++ showNullable message
  sourceTopic := "Orders"
  occurredAt := occurredAt

def OrderStateDeserializationFunction.processElement (p : Platform) (instantNow : Instant)
    (value : String) : Parsed :=
  match OrderStateParser.parse p value >>= p.collect with
  | .ok (key, orderState) => .collected key orderState
  | .error message => .deadLetter (parseErrorEvent value message instantNow)

/-- What can happen to the job: a raw message, with the two answers of `Instant.now()` while it is
parsed and processed, or a timer of an order. -/
inductive PipelineEvent where
  | message (now : Long) (parsedAt wall : Instant) (value : String)
  | timer (key : String) (now : Long) (wall : Instant) (timestamp : Long)

/-- What the job puts out: the counter and the dead letters of the parser, and what the keyed
operator puts out. -/
inductive PipelineEffect where
  | parse_errors
  | parseFailure (event : DeadLetterEvent)
  | order (effect : Effect)
  deriving DecidableEq

/-- **One step of the pipeline.** -/
inductive PipelineStep (p : Platform) (config : StateConfig) :
    Job → PipelineEvent → List PipelineEffect → Job → Prop
  | deadLetter {j : Job} {now : Long} {parsedAt wall : Instant} {value : String}
      {event : DeadLetterEvent} :
      OrderStateDeserializationFunction.processElement p parsedAt value = .deadLetter event →
      PipelineStep p config j (.message now parsedAt wall value)
        [.parse_errors, .parseFailure event] j
  | processed {j j' : Job} {now : Long} {parsedAt wall : Instant} {value key : String}
      {orderState : OrderState} {fx : List Effect} :
      OrderStateDeserializationFunction.processElement p parsedAt value =
        .collected key orderState →
      JobStep config j (key, .element now wall orderState) fx j' →
      PipelineStep p config j (.message now parsedAt wall value) (fx.map .order) j'
  | timer {j j' : Job} {key : String} {now ts : Long} {wall : Instant} {fx : List Effect} :
      JobStep config j (key, .timer now wall ts) fx j' →
      PipelineStep p config j (.timer key now wall ts) (fx.map .order) j'

/-- The command an output carries, if it is one. -/
def PipelineEffect.command? : PipelineEffect → Option SmsCommand
  | .order effect => effect.command?
  | .parse_errors => none
  | .parseFailure _ => none

/-- The commands among the outputs of the pipeline. -/
def collectedCommands (fx : List PipelineEffect) : List SmsCommand :=
  fx.filterMap PipelineEffect.command?

@[simp] lemma collectedCommands_order (fx : List Effect) :
    collectedCommands (fx.map .order) = commands fx := by
  simp [collectedCommands, commands, List.filterMap_map, Function.comp_def,
    PipelineEffect.command?]

@[simp] lemma collectedCommands_append (fx fx' : List PipelineEffect) :
    collectedCommands (fx ++ fx') = collectedCommands fx ++ collectedCommands fx' :=
  List.filterMap_append

section Parser

variable {p : Platform} {instantNow : Instant} {value key : String} {o : OrderState}

/-- **What is collected**: an order the message parses to, under its id. -/
lemma processElement_collected_iff :
    OrderStateDeserializationFunction.processElement p instantNow value = .collected key o ↔
      p.readValue value = .ok (some o) ∧ o.orderId = some key := by
  simp only [OrderStateDeserializationFunction.processElement, OrderStateParser.parse]
  cases p.readValue value with
  | error message => simp [bind, Except.bind]
  | ok parsed =>
      cases parsed with
      | none => simp [bind, Except.bind, Platform.collect]
      | some o' =>
          cases hkey : o'.orderId with
          | none =>
              refine iff_of_false (by simp [bind, Except.bind, Platform.collect,
                delayedOrderOperator, hkey]) ?_
              rintro ⟨ho, hk⟩
              obtain rfl := Option.some.inj (Except.ok.inj ho)
              simp [hkey] at hk
          | some k =>
              simp only [bind, Except.bind, Platform.collect, delayedOrderOperator, hkey]
              constructor
              · intro h
                obtain ⟨rfl, rfl⟩ := Parsed.collected.inj h
                exact ⟨rfl, hkey⟩
              · rintro ⟨ho, hk⟩
                obtain rfl := Option.some.inj (Except.ok.inj ho)
                rw [hkey] at hk
                rw [Option.some.inj hk]

end Parser

/-- The stored values of a job stay readable. -/
lemma Job.Readable.pipelineStep {p : Platform} {config : StateConfig} {j j' : Job}
    {e : PipelineEvent} {fx : List PipelineEffect} (h : j.Readable)
    (hs : PipelineStep p config j e fx j') : j'.Readable := by
  cases hs with
  | deadLetter => exact h
  | processed _ hs => exact h.step hs
  | timer hs => exact h.step hs

/-- **The keyed operator's part of a run of the pipeline is a run of the job**, to the same state
and with the same commands. -/
theorem exists_jobRun {p : Platform} {config : StateConfig} :
    ∀ (run : List (Entry Job PipelineEvent PipelineEffect)) (j : Job),
      IsRun (PipelineStep p config) j run →
        ∃ jrun, IsRun (JobStep config) j jrun ∧ final j jrun = final j run ∧
          commands (outputs jrun) = collectedCommands (outputs run) := by
  intro run
  induction run with
  | nil => intro j _; exact ⟨[], trivial, rfl, rfl⟩
  | cons e run ih =>
      intro j hrun
      obtain ⟨hstep, hrest⟩ := hrun
      obtain ⟨jrun, hjrun, hend, hcommands⟩ := ih e.target hrest
      generalize hlabel : e.label = l at hstep
      generalize hfx : e.output = fx at hstep
      cases hstep with
      | deadLetter =>
          refine ⟨jrun, hjrun, hend, ?_⟩
          rw [hcommands, outputs_cons, hfx]
          rfl
      | processed _ hs =>
          exact ⟨⟨_, _, e.target⟩ :: jrun, ⟨hs, hjrun⟩, hend, by simp [hcommands, hfx]⟩
      | timer hs =>
          exact ⟨⟨_, _, e.target⟩ :: jrun, ⟨hs, hjrun⟩, hend, by simp [hcommands, hfx]⟩

end DelayedOrderSms
