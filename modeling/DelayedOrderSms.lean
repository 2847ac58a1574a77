import DelayedOrderSms.Java.Long
import DelayedOrderSms.Java.Instant
import DelayedOrderSms.Java.IsoInstant
import DelayedOrderSms.Systems.Trace
import DelayedOrderSms.Systems.Keyed
import DelayedOrderSms.Systems.Pool
import DelayedOrderSms.Systems.Embedding
import DelayedOrderSms.Systems.Determinism
import DelayedOrderSms.Systems.Newest
import DelayedOrderSms.Systems.Insertion
import DelayedOrderSms.Systems.Simulation
import DelayedOrderSms.Systems.Lockstep
import DelayedOrderSms.Flink.KeyedProcess
import DelayedOrderSms.Flink.Harness
import DelayedOrderSms.Flink.Checkpoint
import DelayedOrderSms.Flink.Lineage
import DelayedOrderSms.Flink.Duplicates
import DelayedOrderSms.Model.Order
import DelayedOrderSms.Processor.ProcessFunction
import DelayedOrderSms.Processor.Snapshot
import DelayedOrderSms.Processor.Delivery
import DelayedOrderSms.Processor.Steps
import DelayedOrderSms.Processor.Notification
import DelayedOrderSms.Processor.Coherence
import DelayedOrderSms.Processor.Totality
import DelayedOrderSms.Processor.History
import DelayedOrderSms.Processor.Finished
import DelayedOrderSms.Processor.Backends
import DelayedOrderSms.Processor.Deadline
import DelayedOrderSms.Detector.Firing
import DelayedOrderSms.Detector.Reference
import DelayedOrderSms.Arrival.Latest
import DelayedOrderSms.Arrival.Redelivery
import DelayedOrderSms.Recovery.CatchUp
import DelayedOrderSms.Recovery.Durability
import DelayedOrderSms.Detector.Deployed
import DelayedOrderSms.Detector.Outcome
import DelayedOrderSms.Expiry.Pending
import DelayedOrderSms.Expiry.Reopening
import DelayedOrderSms.Pipeline.Deserialization
import DelayedOrderSms.Pipeline.Reading
import DelayedOrderSms.Pipeline.Accounting
import DelayedOrderSms.Pipeline.Conformance
import DelayedOrderSms.Systems.LargestRemainder
import DelayedOrderSms.Systems.Substitution
import DelayedOrderSms.Python.Int
import DelayedOrderSms.Python.Json
import DelayedOrderSms.Python.Str
import DelayedOrderSms.Schema.DateTime
import DelayedOrderSms.Schema.JsonSchema
import DelayedOrderSms.Python.Datetime
import DelayedOrderSms.Python.Regex
import DelayedOrderSms.Python.Program
import DelayedOrderSms.Simulator.TemplateRenderer
import DelayedOrderSms.Simulator.TimeUtils
import DelayedOrderSms.Simulator.TimeGrammar
import DelayedOrderSms.Simulator.TimeReaders
import DelayedOrderSms.Simulator.OrderContext
import DelayedOrderSms.Simulator.Assignment
import DelayedOrderSms.Simulator.Runner
import DelayedOrderSms.Simulator.Replay
import DelayedOrderSms.Simulator.OrderTrace
import DelayedOrderSms.Simulator.EtaOffset
import DelayedOrderSms.Simulator.Rendering
import DelayedOrderSms.Simulator.OrderIds
import DelayedOrderSms.Simulator.Publication
import DelayedOrderSms.Kafka.Topic
import DelayedOrderSms.Simulator.ScenarioRun
import DelayedOrderSms.Simulator.Execution
import DelayedOrderSms.Simulator.Scenarios
import DelayedOrderSms.EndToEnd.Session
import DelayedOrderSms.EndToEnd.Timestamps
import DelayedOrderSms.EndToEnd.Plan
import DelayedOrderSms.EndToEnd.Attribution
import DelayedOrderSms.Recovery.ExactlyOnce
import DelayedOrderSms.Recovery.Repeated
import DelayedOrderSms.EndToEnd.Arrival
import DelayedOrderSms.EndToEnd.Decision
import DelayedOrderSms.EndToEnd.Expected
import DelayedOrderSms.EndToEnd.Verdict
import DelayedOrderSms.Arrival.Compaction
import DelayedOrderSms.EndToEnd.Compacted
import DelayedOrderSms.EndToEnd.Mixed
import DelayedOrderSms.EndToEnd.TimeTexts
import DelayedOrderSms.Pipeline.OrderSchema
import DelayedOrderSms.EndToEnd.Commands
import DelayedOrderSms.EndToEnd.Contract
