import DelayedOrderSms.Pipeline.Conformance
import DelayedOrderSms.Pipeline.Reading
import DelayedOrderSms.Schema.JsonSchema

/-!
# Messages that conform to their schema

`order-state.schema.json` is what the topic promises the job.  It leaves the times to the format
`date-time`, of which the job does not read everything.

* `orderStateSchema` — the schema.
* `Conforming.exists_snapshot` — a conforming message whose times are read is a complete order.
* `deadLetters_of_conforming` — from conforming messages, the dead letters are those with a time
  that is not read, and the commands conform.
-/

namespace DelayedOrderSms

open Java Flink Systems Python JsonSchema

/-! ## The schema -/

/-- The `enum` of a status. -/
def statusNames : List String := ["CREATED", "ACCEPTED", "PICKED_UP", "DELIVERED", "CANCELLED"]

/-- An item of `stateLogs`. -/
def stateLogSchema : Schema :=
  .object ["status", "at"] [("status", .string (.enum statusNames)), ("at", .string .dateTime)]

/-- The `properties` of an order. -/
def orderStateProperties : List (String × Schema) :=
  [("orderId", .string (.minLength 1)), ("customerId", .string (.minLength 1)),
    ("storeId", .string (.minLength 1)), ("status", .string (.enum statusNames)),
    ("expectedDeliveryTime", .string .dateTime), ("createdAt", .string .dateTime),
    ("lastUpdatedAt", .string .dateTime), ("eventTime", .string .dateTime),
    ("stateLogs", .array 1 stateLogSchema), ("schemaVersion", .integer 1)]

/-- `order-state.schema.json`: all properties are required. -/
def orderStateSchema : Schema :=
  .object
    ["orderId", "customerId", "storeId", "status", "expectedDeliveryTime", "createdAt",
      "lastUpdatedAt", "eventTime", "stateLogs", "schemaVersion"]
    orderStateProperties

/-- A message that conforms to it. -/
def Conforming (value : Json) : Prop := orderStateSchema.valid TextKeyword.holds value = true

/-- The times of a message. -/
def timesOf (value : Json) : List String :=
  (orderStateSchema.texts value).filterMap fun (keyword, text) =>
    if keyword = .dateTime then some text else none

/-- **A time that the job reads**, among those of the format. -/
def ReadableTime (text : String) : Prop := ∃ d ∈ dateTime text.toList, d.Readable

instance (text : String) : Decidable (ReadableTime text) :=
  inferInstanceAs (Decidable (∃ d ∈ dateTime text.toList, d.Readable))

/-! ## Reading -/

/-- What the job asks of the texts of a message. -/
def arrives : TextKeyword → String → Bool
  | .dateTime, text => (Instant.parse text).isSome
  | keyword, text => keyword.holds text

section Entries

variable {holds : TextKeyword → String → Bool} {required : List String}
  {properties : List (String × Schema)} {entries : Dict String Json}

/-- A required text. -/
lemma exists_textAt (h : (Schema.object required properties).valid holds (.dict entries) = true)
    {key : String} {keyword : TextKeyword} (hkey : key ∈ required)
    (hproperty : (key, Schema.string keyword) ∈ properties) :
    ∃ text, textAt entries key = some text ∧ holds keyword text = true := by
  obtain ⟨_, ⟨⟩, hrequired, _, hvalid⟩ := Schema.valid_object_iff.mp h
  obtain ⟨value, hvalue⟩ := Option.isSome_iff_exists.mp (hrequired key hkey)
  have hstring := hvalid _ hproperty value hvalue
  cases value with
  | str text => exact ⟨text, by rw [textAt, hvalue], hstring⟩
  | _ => cases hstring

end Entries

lemma exists_valueOf {text : String} (h : TextKeyword.holds (.enum statusNames) text = true) :
    ∃ status, OrderStatus.valueOf text = some status := by
  have hnames : ∀ name ∈ statusNames, (OrderStatus.valueOf name).isSome := by decide
  exact Option.isSome_iff_exists.mp (hnames text (of_decide_eq_true h))

lemma ne_empty_of_minLength {text : String} (h : TextKeyword.holds (.minLength 1) text = true) :
    text ≠ "" := by
  rintro rfl
  exact absurd h (by decide)

/-- A number that is one is read as an `int`. -/
lemma isInt_of_isNumber {value : Json} (h : isNumber 1 value = true) : isInt value = true := by
  unfold isNumber at h
  split at h
  · obtain rfl := of_decide_eq_true h
    decide
  · obtain rfl := of_decide_eq_true h
    decide +kernel
  · cases h

lemma isStateLog_of_valid {value : Json} (h : stateLogSchema.valid arrives value = true) :
    isStateLog Instant.parse value = true := by
  obtain ⟨entries, rfl, _, hkeys, _⟩ := Schema.valid_object_iff.mp h
  obtain ⟨status, hstatus, _⟩ := @exists_textAt arrives _ _ entries h "status" _ (by simp)
    (List.mem_cons_self)
  obtain ⟨time, htime, hparse⟩ := @exists_textAt arrives _ _ entries h "at" _ (by simp)
    (List.mem_cons_of_mem _ List.mem_cons_self)
  have hall : (entries.map Prod.fst).all (· ∈ ["status", "at"]) = true := by
    rw [List.all_map, List.all_eq_true]
    exact fun entry hentry => decide_eq_true (hkeys entry hentry)
  simp only [isStateLog, hall, hstatus, timeAt, htime, Option.isSome_some, Option.bind_some,
    Bool.and_self, Bool.true_and]
  exact hparse

/-- What has all the texts that the job asks for is read. -/
lemma exists_document_of_valid {entries : Dict String Json}
    (h : orderStateSchema.valid arrives (.dict entries) = true) :
    ∃ d : Document Instant, Documents Instant.parse entries d ∧ d.orderId ≠ "" ∧
      d.customerId ≠ "" ∧ d.storeId ≠ "" := by
  have htext : ∀ key ∈ orderProperties, ∀ keyword,
      (key, Schema.string keyword) ∈ orderStateProperties →
        ∃ text, textAt entries key = some text ∧ arrives keyword text = true :=
    fun key hkey keyword hproperty => exists_textAt h hkey hproperty
  have htime : ∀ key ∈ orderProperties, (key, Schema.string .dateTime) ∈ orderStateProperties →
      ∃ i, timeAt Instant.parse entries key = some i := by
    intro key hkey hproperty
    obtain ⟨text, htext, hparse⟩ := htext key hkey .dateTime hproperty
    rw [timeAt, htext]
    exact Option.isSome_iff_exists.mp hparse
  obtain ⟨orderId, horder, horderId⟩ := htext "orderId" (by decide) (.minLength 1)
    (by simp [orderStateProperties])
  obtain ⟨customerId, hcustomer, hcustomerId⟩ := htext "customerId" (by decide) (.minLength 1)
    (by simp [orderStateProperties])
  obtain ⟨storeId, hstore, hstoreId⟩ := htext "storeId" (by decide) (.minLength 1)
    (by simp [orderStateProperties])
  obtain ⟨name, hname, henum⟩ := htext "status" (by decide) (.enum statusNames)
    (by simp [orderStateProperties])
  obtain ⟨status, hstatus⟩ := exists_valueOf henum
  obtain ⟨eta, heta⟩ := htime "expectedDeliveryTime" (by decide) (by simp [orderStateProperties])
  obtain ⟨updated, hupdated⟩ := htime "lastUpdatedAt" (by decide) (by simp [orderStateProperties])
  obtain ⟨_, hcreated⟩ := htime "createdAt" (by decide) (by simp [orderStateProperties])
  obtain ⟨_, hevent⟩ := htime "eventTime" (by decide) (by simp [orderStateProperties])
  obtain ⟨_, ⟨⟩, hrequired, hkeys, hvalid⟩ := Schema.valid_object_iff.mp h
  have hlogs : holdsAt entries "stateLogs" (isStateLogs Instant.parse) = true := by
    obtain ⟨value, hvalue⟩ := Option.isSome_iff_exists.mp (hrequired "stateLogs" (by decide))
    have harray := hvalid ("stateLogs", .array 1 stateLogSchema) (by simp [orderStateProperties])
      value hvalue
    rw [holdsAt, hvalue]
    cases value with
    | list items =>
        rw [Schema.valid, Bool.and_eq_true, List.all_eq_true] at harray
        exact List.all_eq_true.mpr fun item hitem => isStateLog_of_valid (harray.2 item hitem)
    | _ => cases harray
  have hversion : holdsAt entries "schemaVersion" isInt = true := by
    obtain ⟨value, hvalue⟩ := Option.isSome_iff_exists.mp (hrequired "schemaVersion" (by decide))
    rw [holdsAt, hvalue]
    have hnumber := hvalid ("schemaVersion", .integer 1) (by simp [orderStateProperties]) value hvalue
    rw [Schema.valid] at hnumber
    exact isInt_of_isNumber hnumber
  have hproperties : (entries.map Prod.fst).all (· ∈ orderProperties) = true := by
    rw [List.all_map, List.all_eq_true]
    exact fun entry hentry => decide_eq_true (hkeys entry hentry)
  have hbind : (textAt entries "status").bind OrderStatus.valueOf = some status := by
    rw [hname, Option.bind_some, hstatus]
  exact ⟨⟨orderId, customerId, storeId, status, eta, updated⟩,
    ⟨horder, hcustomer, hstore, hbind, heta, hupdated, hproperties, by rw [hcreated]; rfl,
      by rw [hevent]; rfl, hlogs, hversion⟩,
    ne_empty_of_minLength horderId, ne_empty_of_minLength hcustomerId,
    ne_empty_of_minLength hstoreId⟩

/-- The times of a message are texts of the format. -/
lemma mem_timesOf_iff {value : Json} {text : String} :
    text ∈ timesOf value ↔ (.dateTime, text) ∈ orderStateSchema.texts value := by
  simp [timesOf]

section

variable {value : Json} (h : Conforming value)
include h

lemma Conforming.isSome_parse_iff {time : String} (htime : time ∈ timesOf value) :
    (Instant.parse time).isSome ↔ ReadableTime time := by
  have hformat : isDateTime time = true :=
    ((Schema.valid_iff _ _).mp h).2 _ (mem_timesOf_iff.mp htime)
  rw [isDateTime] at hformat
  cases hd : dateTime time.toList with
  | none =>
      rw [hd] at hformat
      cases hformat
  | some d =>
      rw [hd] at hformat
      rw [JsonSchema.isSome_parse_iff hd (of_decide_eq_true hformat), ReadableTime, hd]
      simp

/-- Which of them have all the texts that the job asks for. -/
lemma Conforming.arrives (htimes : ∀ time ∈ timesOf value, ReadableTime time) :
    orderStateSchema.valid arrives value = true := by
  obtain ⟨hshape, htexts⟩ := (Schema.valid_iff _ _).mp h
  refine (Schema.valid_iff _ _).mpr ⟨hshape, ?_⟩
  rintro ⟨keyword, text⟩ hmem
  cases keyword with
  | dateTime =>
      have htext := mem_timesOf_iff.mpr hmem
      exact (h.isSome_parse_iff htext).mpr (htimes text htext)
  | _ => exact htexts _ hmem

/-- **A conforming message whose times are read is a complete order.** -/
theorem Conforming.exists_snapshot (htimes : ∀ time ∈ timesOf value, ReadableTime time) :
    ∃ s : Snapshot, OrderState.ofJson value = some s.toOrderState ∧ Complete s.toOrderState := by
  obtain ⟨entries, rfl, _⟩ := Schema.valid_object_iff.mp h
  obtain ⟨d, hd, horder, hcustomer, hstore⟩ := exists_document_of_valid (h.arrives htimes)
  refine ⟨d.toSnapshot, ?_, ⟨_, rfl, horder⟩, ⟨_, rfl, hcustomer⟩, ⟨_, rfl, hstore⟩, rfl⟩
  rw [OrderState.ofJson, readDocument_dict.mpr hd]
  rfl

end

/-! ## Runs of the pipeline -/

/-- **Jackson on JSON texts**: it reads what is an order, and throws if a time of a message is no
instant. -/
structure Platform.ReadsJson (p : Platform) (parse : String → Option Json) : Prop where
  order : ∀ text value o, parse text = some value → OrderState.ofJson value = some o →
    p.readValue text = .ok (some o)
  noInstant : ∀ text value, parse text = some value → Conforming value →
    (∃ time ∈ timesOf value, Instant.parse time = none) → ∃ message, p.readValue text = .error message

/-- The event is no message, or one that conforms. -/
def IsConforming (parse : String → Option Json) : PipelineEvent → Prop
  | .message _ _ _ text => ∃ value, parse text = some value ∧ Conforming value
  | .timer _ _ _ _ => True

/-- What is put out for a message: a dead letter if one of its times is not read, and none
otherwise. -/
def RoutesByTimes (parse : String → Option Json) (e : Entry Job PipelineEvent PipelineEffect) : Prop :=
  ∀ now parsedAt wall text value, e.label = .message now parsedAt wall text →
    parse text = some value →
      ((∀ time ∈ timesOf value, ReadableTime time) → ∀ effect ∈ e.output, ¬effect.isDeadLetter) ∧
        ((∃ time ∈ timesOf value, ¬ReadableTime time) → ∃ message,
          e.output = [.parse_errors, .parseFailure (parseErrorEvent text message parsedAt)])

section

variable {p : Platform} {parse : String → Option Json} (hp : p.ReadsJson parse)
  {config : StateConfig}
include hp

/-- What is read of a conforming message. -/
lemma Platform.ReadsJson.cases {text : String} {value : Json} (hparse : parse text = some value)
    (h : Conforming value) :
    ((∀ time ∈ timesOf value, ReadableTime time) ∧ ∃ s : Snapshot,
        p.readValue text = .ok (some s.toOrderState) ∧ Complete s.toOrderState) ∨
      (∃ time ∈ timesOf value, ¬ReadableTime time) ∧ ∃ message, p.readValue text = .error message := by
  by_cases htimes : ∀ time ∈ timesOf value, ReadableTime time
  · obtain ⟨s, hs, hcomplete⟩ := h.exists_snapshot htimes
    exact .inl ⟨htimes, s, hp.order _ _ _ hparse hs, hcomplete⟩
  · push Not at htimes
    obtain ⟨time, htime, hnot⟩ := htimes
    refine .inr ⟨⟨time, htime, hnot⟩, hp.noInstant _ _ hparse h ⟨time, htime, ?_⟩⟩
    rw [← h.isSome_parse_iff htime] at hnot
    exact Option.not_isSome_iff_eq_none.mp hnot

/-- Conforming messages are acceptable. -/
lemma IsConforming.acceptable {e : PipelineEvent} (h : IsConforming parse e) : Acceptable p e := by
  cases e with
  | timer => trivial
  | message now parsedAt wall text =>
      obtain ⟨value, hparse, hvalue⟩ := h
      intro o ho
      rcases hp.cases hparse hvalue with ⟨_, s, hs, hcomplete⟩ | ⟨_, message, herror⟩
      · obtain rfl := Option.some.inj (Except.ok.inj (hs.symm.trans ho))
        exact .inl hcomplete
      · rw [ho] at herror
        cases herror

/-- **What a step puts out** for a conforming message. -/
lemma PipelineStep.routesByTimes {j j' : Job} {e : PipelineEvent} {fx : List PipelineEffect}
    (hj : j.Readable) (hs : PipelineStep p config j e fx j') (h : IsConforming parse e) :
    RoutesByTimes parse ⟨e, fx, j'⟩ := by
  rintro now parsedAt wall text value rfl hparse
  obtain ⟨value', hparse', hvalue⟩ := h
  obtain rfl := Option.some.inj (hparse.symm.trans hparse')
  rcases hp.cases hparse hvalue with ⟨htimes, s, hread, _⟩ | ⟨⟨time, htime, hnot⟩, message, herror⟩
  · refine ⟨fun _ => ?_, fun ⟨time, htime, hnot⟩ => absurd (htimes time htime) hnot⟩
    have hcollected : OrderStateDeserializationFunction.processElement p parsedAt text
        = .collected s.orderId s.toOrderState := processElement_collected_iff.mpr ⟨hread, rfl⟩
    cases hs with
    | deadLetter hdead => cases hcollected.symm.trans hdead
    | @processed _ _ _ _ _ _ _ ofx hprocessed hstep =>
        obtain ⟨rfl, rfl⟩ := Parsed.collected.inj (hcollected.symm.trans hprocessed)
        obtain ⟨slots, rfl⟩ := hj
        obtain ⟨slots', hts, rfl⟩ := (jobStep_embeds config slots _ ofx j').mp hstep
        -- only `.output` is a dead letter of the operator
        intro effect heffect hdead
        obtain ⟨x, hx, rfl⟩ := List.mem_map.mp heffect
        cases x with
        | output event => exact hts.at_same.delivered_of_snapshot.no_deadLetter event hx
        | _ => cases hdead
  · refine ⟨fun hall => absurd (hall time htime) hnot, fun _ => ⟨message, ?_⟩⟩
    have hdead : OrderStateDeserializationFunction.processElement p parsedAt text
        = .deadLetter (parseErrorEvent text message parsedAt) := by
      simp only [OrderStateDeserializationFunction.processElement, OrderStateParser.parse, herror]
      rfl
    cases hs with
    | deadLetter hdead' =>
        obtain rfl := Parsed.deadLetter.inj (hdead.symm.trans hdead')
        rfl
    | processed hprocessed => cases hdead.symm.trans hprocessed

/-- **The dead letters of conforming messages.**  In every run of the pipeline, at any clock, on any
schedule of timers and with any time to live: if all messages conform to their schema, exactly those
with a time that is not read become dead letters, all of them those of the parser, and all commands
conform. -/
theorem deadLetters_of_conforming {run : List (Entry Job PipelineEvent PipelineEffect)}
    (hrun : IsRun (PipelineStep p config) Job.initial run)
    (hconforming : ∀ e ∈ run, IsConforming parse e.label) :
    (∀ e ∈ run, RoutesByTimes parse e) ∧ ∀ c ∈ collectedCommands (outputs run), Conforms c := by
  have hsteps : ∀ x ∈ transitions Job.initial run,
      IsConforming parse x.2.label → RoutesByTimes parse x.2 :=
    @IsRun.forall_transitions _ _ _ _ Job.Readable
      (fun _ e => IsConforming parse e.label → RoutesByTimes parse e)
      (fun _ _ _ _ hj hs => hj.pipelineStep hs)
      (fun _ _ _ _ hj hs h => hs.routesByTimes hp hj h) run _ readable_initial hrun
  have hentries := (forall_transitions
    (C := fun e => IsConforming parse e.label → RoutesByTimes parse e)).mp hsteps
  exact ⟨fun e he => hentries e he (hconforming e he),
    conforms_run run _ complete_initial hrun fun e he => (hconforming e he).acceptable hp⟩

end

/-! Two messages about order 1, which is expected at the same time in both.  In the one the time is
written in a zone of nineteen hours. -/

def order1Message (eta : String) : Json :=
  .dict [("orderId", .str "order-1"), ("customerId", .str "cust-order-1"),
    ("storeId", .str "store-1"), ("status", .str "ACCEPTED"), ("expectedDeliveryTime", .str eta),
    ("createdAt", .str "1970-01-01T00:00:00Z"), ("lastUpdatedAt", .str "1970-01-01T00:00:00Z"),
    ("eventTime", .str "1970-01-01T00:00:00Z"),
    ("stateLogs", .list [.dict [("status", .str "CREATED"), ("at", .str "1970-01-01T00:00:00Z")]]),
    ("schemaVersion", .int 1)]

/-- Its text. -/
def order1Text (eta : String) : String :=
  r#"{"orderId":"order-1","customerId":"cust-order-1","storeId":"store-1","status":"ACCEPTED","# ++
    r#""expectedDeliveryTime":""# ++ eta ++ r#"","createdAt":"1970-01-01T00:00:00Z","# ++
    r#""lastUpdatedAt":"1970-01-01T00:00:00Z","eventTime":"1970-01-01T00:00:00Z","# ++
    r#""stateLogs":[{"status":"CREATED","at":"1970-01-01T00:00:00Z"}],"schemaVersion":1}"#

def inUtc : String := "1970-01-01T00:10:00Z"

def inFarZone : String := "1969-12-31T05:10:00-19:00"

/-- The two texts. -/
def parseOrder1 (text : String) : Option Json :=
  if text = order1Text inUtc then some (order1Message inUtc)
  else if text = order1Text inFarZone then some (order1Message inFarZone)
  else none

lemma order1Text_ne : order1Text inFarZone ≠ order1Text inUtc := by
  decide +kernel

lemma conforming_order1 : ∀ eta ∈ [inUtc, inFarZone],
    parseOrder1 (order1Text eta) = some (order1Message eta) ∧ Conforming (order1Message eta) := by
  have hvalid : ∀ eta ∈ [inUtc, inFarZone],
      orderStateSchema.valid TextKeyword.holds (order1Message eta) = true := by
    decide +kernel
  rw [List.forall_mem_cons, List.forall_mem_singleton] at hvalid ⊢
  refine ⟨⟨if_pos rfl, hvalid.1⟩, ?_, hvalid.2⟩
  rw [parseOrder1, if_neg order1Text_ne, if_pos rfl]

/-- What the libraries answer on them. -/
def order1Libraries : Platform :=
  { libraries with
    readValue := fun json =>
      if json = order1Text inUtc then .ok (some order1.toOrderState)
      else .error (some "Cannot deserialize value of type java.time.Instant") }

lemma readValue_inUtc :
    order1Libraries.readValue (order1Text inUtc) = .ok (some order1.toOrderState) := by
  simp only [order1Libraries, if_true]

lemma readValue_inFarZone : order1Libraries.readValue (order1Text inFarZone)
    = .error (some "Cannot deserialize value of type java.time.Instant") := by
  simp only [order1Libraries, if_neg order1Text_ne]

lemma readsJson_order1 : order1Libraries.ReadsJson parseOrder1 where
  order := by
    intro text value o hparse ho
    rw [parseOrder1] at hparse
    split_ifs at hparse with hutc hfar
    · obtain rfl := Option.some.inj hparse
      have hread : OrderState.ofJson (order1Message inUtc) = some order1.toOrderState := by
        decide +kernel
      obtain rfl := Option.some.inj (hread.symm.trans ho)
      rw [hutc, readValue_inUtc]
    · obtain rfl := Option.some.inj hparse
      have hnone : OrderState.ofJson (order1Message inFarZone) = none := by decide +kernel
      cases hnone.symm.trans ho
  noInstant := by
    rintro text value hparse _ ⟨time, htime, hnone⟩
    rw [parseOrder1] at hparse
    split_ifs at hparse with hutc hfar
    · obtain rfl := Option.some.inj hparse
      have hall : ∀ time ∈ timesOf (order1Message inUtc), Instant.parse time ≠ none := by
        decide +kernel
      exact absurd hnone (hall time htime)
    · rw [hfar]
      exact ⟨_, readValue_inFarZone⟩

/-- The second of them comes in the zone of the first, and is due. -/
def order1Messages : List (Entry Job PipelineEvent PipelineEffect) :=
  [⟨.message (.of 0) (.ofEpochMilli (.of 0)) (.ofEpochMilli (.of 0)) (order1Text inFarZone),
    [.parse_errors, .parseFailure (parseErrorEvent (order1Text inFarZone)
      (some "Cannot deserialize value of type java.time.Instant") (.ofEpochMilli (.of 0)))],
    Job.initial⟩,
   ⟨.message (.of 700000) (.ofEpochMilli (.of 0)) (.ofEpochMilli (.of 0)) (order1Text inUtc),
    (order1.notification (.of 700000)).map .order,
    Function.update Job.initial "order-1"
      ((wrote ⟨order1, true, none⟩ (.of 700000) ∅).map Tracked.toDelayState)⟩]

lemma isRun_order1Messages :
    IsRun (PipelineStep order1Libraries (stateConfig 7)) Job.initial order1Messages := by
  refine ⟨.deadLetter ?_, .processed (processElement_collected_iff.mpr ⟨readValue_inUtc, rfl⟩)
    (.at_key (.element rfl rfl)), trivial⟩
  simp only [OrderStateDeserializationFunction.processElement, OrderStateParser.parse,
    readValue_inFarZone]
  rfl

lemma isConforming_order1Messages : ∀ e ∈ order1Messages, IsConforming parseOrder1 e.label := by
  simp only [order1Messages, List.forall_mem_cons, List.not_mem_nil, false_imp_iff, implies_true,
    and_true]
  exact ⟨⟨_, conforming_order1 inFarZone (by decide)⟩, ⟨_, conforming_order1 inUtc (by decide)⟩⟩

/-- They are routed by their times. -/
theorem deadLetters_of_conforming_order1 : (∀ e ∈ order1Messages, RoutesByTimes parseOrder1 e) ∧
    ∀ c ∈ collectedCommands (outputs order1Messages), Conforms c :=
  deadLetters_of_conforming readsJson_order1 isRun_order1Messages isConforming_order1Messages

end DelayedOrderSms
