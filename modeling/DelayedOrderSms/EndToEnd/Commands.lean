import DelayedOrderSms.EndToEnd.TimeTexts
import DelayedOrderSms.Pipeline.OrderSchema

/-!
# The records of the commands

What `SmsCommandSerializationSchema` writes to the topic of the commands, against the schema that is
published for them.

* `SmsCommandSerializationSchema.serialize` — a record.
* `serialize_injective` — a record tells which command it is.
* `records_of_conforming` — from messages that conform to their schema, which records conform to
  theirs.
-/

namespace EndToEnd

open Python Java Flink Systems JsonSchema DelayedOrderSms

/-! ## Records -/

/-- The `properties` of a command. -/
def sendDelaySmsCommandProperties : List (String × Schema) :=
  [("commandId", .string (.lineEnding ":DELAY_SMS")),
    ("commandType", .string (.const "SEND_DELAY_SMS")), ("orderId", .string (.minLength 1)),
    ("customerId", .string (.minLength 1)), ("storeId", .string (.minLength 1)),
    ("reason", .string (.const "ORDER_DELAYED")), ("expectedDeliveryTime", .string .dateTime),
    ("createdAt", .string .dateTime), ("schemaVersion", .integer 1)]

/-- `send-delay-sms-command.schema.json`: all properties are required. -/
def sendDelaySmsCommandSchema : Schema :=
  .object
    ["commandId", "commandType", "orderId", "customerId", "storeId", "reason",
      "expectedDeliveryTime", "createdAt", "schemaVersion"]
    sendDelaySmsCommandProperties

/-- A text that may be missing. -/
def nullable (text : Option String) : Json := text.elim .null .str

/-- What `writeValueAsBytes` writes: the fields in their order, and the times as texts. -/
def toJson (c : SmsCommand) : Json :=
  .dict [("commandId", .str c.commandId), ("commandType", .str c.commandType),
    ("orderId", nullable c.orderId), ("customerId", nullable c.customerId),
    ("storeId", nullable c.storeId), ("reason", .str c.reason),
    ("expectedDeliveryTime", nullable (c.expectedDeliveryTime.map formatInstant)),
    ("createdAt", .str (formatInstant c.createdAt)), ("schemaVersion", .int c.schemaVersion)]

/-- The key and the value of the record. -/
def SmsCommandSerializationSchema.serialize (command : SmsCommand) : String × Json :=
  (command.commandId, toJson command)

/-! ## A record and its command -/

lemma formatInstant_injective : Function.Injective formatInstant := by
  intro i i' h
  have hparse := parse_formatInstant i
  rw [h, parse_formatInstant] at hparse
  exact (Option.some.inj hparse).symm

lemma nullable_injective : Function.Injective nullable := by
  rintro (_ | text) (_ | text') h
  · rfl
  · cases h
  · cases h
  · cases h
    rfl

/-- **The value of a record tells which command it is**, with its times to the nanosecond. -/
theorem serialize_injective :
    Function.Injective fun c => (SmsCommandSerializationSchema.serialize c).2 := by
  rintro ⟨commandId, commandType, orderId, customerId, storeId, reason, eta, createdAt, version⟩
    ⟨commandId', commandType', orderId', customerId', storeId', reason', eta', createdAt', version'⟩ h
  have hfields := Json.dict.inj h
  simp only [List.cons.injEq, Prod.mk.injEq, true_and, Json.str.injEq, Json.int.injEq,
    nullable_injective.eq_iff, formatInstant_injective.eq_iff,
    (Option.map_injective formatInstant_injective).eq_iff, Int.natCast_inj, and_true] at hfields
  obtain ⟨rfl, rfl, rfl, rfl, rfl, rfl, rfl, rfl, rfl⟩ := hfields
  rfl

/-! ## A record and its schema -/

/-- There is no line terminator in the text. -/
def OneLine (text : String) : Prop := ∀ c ∈ text.toList, isLineTerminator c = false

instance (text : String) : Decidable (OneLine text) :=
  inferInstanceAs (Decidable (∀ c ∈ text.toList, isLineTerminator c = false))

lemma endsLine_append {line suffix : List Char} :
    endsLine suffix (line ++ suffix) = true ↔ line ≠ [] ∧ ∀ c ∈ line, isLineTerminator c = false := by
  have hsuffix : suffix.isSuffixOf (line ++ suffix) = true :=
    List.isSuffixOf_iff_suffix.mpr (List.suffix_append line suffix)
  simp [endsLine, hsuffix]

lemma holds_minLength {text : String} (h : text ≠ "") : TextKeyword.holds (.minLength 1) text = true := by
  have hpos : text.length ≠ 0 := fun hzero => h (String.length_eq_zero_iff.mp hzero)
  exact decide_eq_true (Nat.pos_of_ne_zero hpos)

/-- The record of a command conforms to its schema. -/
def RecordConforms (c : SmsCommand) : Prop :=
  sendDelaySmsCommandSchema.valid TextKeyword.holds (SmsCommandSerializationSchema.serialize c).2 = true

/-- A command with all its fields. -/
def commandOf (orderId customerId storeId : String) (eta createdAt : Instant) : SmsCommand :=
  ⟨orderId ++ ":DELAY_SMS", "SEND_DELAY_SMS", some orderId, some customerId, some storeId,
    "ORDER_DELAYED", some eta, createdAt, 1⟩

/-- A command with what the schema asks for has them all. -/
lemma exists_commandOf {c : SmsCommand} (h : Conforms c) : ∃ orderId customerId storeId eta,
    c = commandOf orderId customerId storeId eta c.createdAt ∧
      orderId ≠ "" ∧ customerId ≠ "" ∧ storeId ≠ "" := by
  obtain ⟨⟨orderId, horder, horderId, hcommandId⟩, htype, _, ⟨customerId, hcustomer, hcustomerId⟩,
    ⟨storeId, hstore, hstoreId⟩, hreason, heta, hversion⟩ := h
  obtain ⟨eta, heta⟩ := Option.isSome_iff_exists.mp heta
  obtain ⟨commandId, commandType, _, _, _, reason, _, createdAt, version⟩ := c
  dsimp only [Option.mem_def] at *
  subst hcommandId htype horder hcustomer hstore hreason heta hversion
  exact ⟨orderId, customerId, storeId, eta, rfl, horderId, hcustomerId, hstoreId⟩

section

variable (orderId customerId storeId : String) (eta createdAt : Instant)

lemma shape_commandOf : sendDelaySmsCommandSchema.shape
    (toJson (commandOf orderId customerId storeId eta createdAt)) = true := by
  rfl

lemma texts_commandOf : sendDelaySmsCommandSchema.texts
    (toJson (commandOf orderId customerId storeId eta createdAt)) =
      [(.lineEnding ":DELAY_SMS", orderId ++ ":DELAY_SMS"),
        (.const "SEND_DELAY_SMS", "SEND_DELAY_SMS"), (.minLength 1, orderId),
        (.minLength 1, customerId), (.minLength 1, storeId),
        (.const "ORDER_DELAYED", "ORDER_DELAYED"), (.dateTime, formatInstant eta),
        (.dateTime, formatInstant createdAt)] := by
  rfl

end

/-- **The record of a command with what the schema asks for** conforms if the order id is one line,
and the times are of the years 0 to 9999. -/
lemma recordConforms_iff {c : SmsCommand} (h : Conforms c) : RecordConforms c ↔
    (∀ orderId ∈ c.orderId, OneLine orderId) ∧
      (∀ eta ∈ c.expectedDeliveryTime, InFourDigits eta) ∧ InFourDigits c.createdAt := by
  obtain ⟨orderId, customerId, storeId, eta, heq, horderId, hcustomerId, hstoreId⟩ :=
    exists_commandOf h
  have hline : TextKeyword.holds (.lineEnding ":DELAY_SMS") (orderId ++ ":DELAY_SMS") = true ↔
      OneLine orderId := by
    have hne : orderId.toList ≠ [] := fun hnil => horderId (String.toList_eq_nil_iff.mp hnil)
    rw [TextKeyword.holds, String.toList_append, endsLine_append, OneLine]
    simp only [hne, ne_eq, not_false_eq_true, true_and]
  have hconst : ∀ value, TextKeyword.holds (.const value) value = true :=
    fun value => decide_eq_true rfl
  have htime : ∀ i, TextKeyword.holds .dateTime (formatInstant i) = true ↔ InFourDigits i :=
    isDateTime_formatInstant
  generalize c.createdAt = createdAt at heq
  subst heq
  rw [RecordConforms, SmsCommandSerializationSchema.serialize, Schema.valid_iff, shape_commandOf,
    texts_commandOf]
  simp only [List.forall_mem_cons, List.not_mem_nil, false_imp_iff, implies_true, true_and, and_true,
    hline, hconst, holds_minLength horderId, holds_minLength hcustomerId, holds_minLength hstoreId,
    htime, commandOf, Option.mem_def, Option.some.injEq, forall_eq']

/-- **The records of conforming messages.**  In every run of the pipeline, at any clock, on any
schedule of timers and with any time to live: if all messages conform to their schema, the records of
the commands conform to theirs, up to order ids of several lines and times of other years. -/
theorem records_of_conforming {p : Platform} {parse : String → Option Json} (hp : p.ReadsJson parse)
    {config : StateConfig} {run : List (Entry Job PipelineEvent PipelineEffect)}
    (hrun : IsRun (PipelineStep p config) Job.initial run)
    (hconforming : ∀ e ∈ run, IsConforming parse e.label) :
    ∀ c ∈ collectedCommands (outputs run), RecordConforms c ↔
      (∀ orderId ∈ c.orderId, OneLine orderId) ∧
        (∀ eta ∈ c.expectedDeliveryTime, InFourDigits eta) ∧ InFourDigits c.createdAt :=
  fun c hc => recordConforms_iff
    (conforms_run run _ complete_initial hrun (fun e he => (hconforming e he).acceptable hp) c hc)

/-- The record of the command for order 1 conforms. -/
theorem records_of_conforming_order1 : RecordConforms (order1.delayCommand (.of 700000)) := by
  refine (records_of_conforming readsJson_order1 isRun_order1Messages isConforming_order1Messages
    _ ?_).mpr ?_
  · have hcommands : collectedCommands (outputs order1Messages) = [order1.delayCommand (.of 700000)] :=
      rfl
    rw [hcommands]
    exact List.mem_cons_self
  · refine ⟨?_, ?_, by decide⟩
    · rintro _ ⟨⟩
      have hid : order1.orderId = "order-1" := rfl
      simp [hid, OneLine, isLineTerminator]
    · rintro _ ⟨⟩
      decide

end EndToEnd
