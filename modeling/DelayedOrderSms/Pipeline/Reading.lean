import DelayedOrderSms.Java.IsoInstant
import DelayedOrderSms.Processor.Snapshot
import DelayedOrderSms.Python.Json

/-!
# Objects that are orders

An object with the properties of `OrderState`, all of them there and of their types, is read
property by property.  What its time texts stand for is left to a function, so that a template is
read by the same definition as a message: the one has times relative to something, the other has
instants.

* `readDocument` — reads such an object; `OrderState.ofJson` with the texts of instants.
* `readDocument_of_rel` — objects of one shape are read alike if their texts are.
-/

namespace DelayedOrderSms

open Java Python

/-- `OrderStatus.valueOf`. -/
def OrderStatus.valueOf (name : String) : Option OrderStatus :=
  [.CREATED, .ACCEPTED, .PICKED_UP, .DELIVERED, .CANCELLED].find? fun status => status.name = name

lemma OrderStatus.name_of_valueOf {name : String} {status : OrderStatus}
    (h : OrderStatus.valueOf name = some status) : status.name = name := by
  rw [OrderStatus.valueOf] at h
  have hname := List.find?_some h
  exact of_decide_eq_true hname

/-- An order as a document, with its times of type `T`. -/
structure Document (T : Type) where
  orderId : String
  customerId : String
  storeId : String
  status : OrderStatus
  expectedDeliveryTime : T
  lastUpdatedAt : T
  deriving DecidableEq

/-- The texts of the documents are in the relation `R`, their times in the relation `S`. -/
structure Document.Rel {T T' : Type} (R : String → String → Prop) (S : T → T' → Prop)
    (d : Document T) (d' : Document T') : Prop where
  orderId : R d.orderId d'.orderId
  customerId : R d.customerId d'.customerId
  storeId : R d.storeId d'.storeId
  status : d'.status = d.status
  expectedDeliveryTime : S d.expectedDeliveryTime d'.expectedDeliveryTime
  lastUpdatedAt : S d.lastUpdatedAt d'.lastUpdatedAt

/-- The snapshot of a document. -/
def Document.toSnapshot (d : Document Instant) : Snapshot where
  orderId := d.orderId
  customerId := some d.customerId
  storeId := some d.storeId
  status := d.status
  expectedDeliveryTime := d.expectedDeliveryTime
  lastUpdatedAt := d.lastUpdatedAt

/-- The fields of `OrderState`. -/
def orderProperties : List String :=
  ["orderId", "customerId", "storeId", "status", "expectedDeliveryTime", "createdAt",
    "lastUpdatedAt", "eventTime", "stateLogs", "schemaVersion"]

/-- The text under a key. -/
def textAt (entries : Dict String Json) (key : String) : Option String :=
  match entries.get? key with
  | some (.str text) => some text
  | _ => none

/-- The entry under a key satisfies `p`. -/
def holdsAt (entries : Dict String Json) (key : String) (p : Json → Bool) : Bool :=
  match entries.get? key with
  | some value => p value
  | none => false

/-- The value is read as a Java `int`; the parser takes a number with a fraction, too, and cuts the
fraction off. -/
def isInt : Json → Bool
  | .int n => -2 ^ 31 ≤ n ∧ n < 2 ^ 31
  | .float (.finite q) => -2 ^ 31 ≤ q ∧ q ≤ 2 ^ 31 - 1
  | _ => false

section

variable {T : Type} (time : String → Option T)

def timeAt (entries : Dict String Json) (key : String) : Option T := (textAt entries key).bind time

/-- A `StateLog`. -/
def isStateLog : Json → Bool
  | .dict entries => (entries.map Prod.fst).all (· ∈ ["status", "at"])
      && (textAt entries "status").isSome && (timeAt time entries "at").isSome
  | _ => false

def isStateLogs : Json → Bool
  | .list items => items.all (isStateLog time)
  | _ => false

/-- What is read of the object, if it has the properties of an order and no others. -/
def readDocument : Json → Option (Document T)
  | .dict entries => do
      let orderId ← textAt entries "orderId"
      let customerId ← textAt entries "customerId"
      let storeId ← textAt entries "storeId"
      let status ← (textAt entries "status").bind OrderStatus.valueOf
      let expectedDeliveryTime ← timeAt time entries "expectedDeliveryTime"
      let lastUpdatedAt ← timeAt time entries "lastUpdatedAt"
      if (entries.map Prod.fst).all (· ∈ orderProperties)
          ∧ (timeAt time entries "createdAt").isSome ∧ (timeAt time entries "eventTime").isSome
          ∧ holdsAt entries "stateLogs" (isStateLogs time) ∧ holdsAt entries "schemaVersion" isInt then
        some { orderId, customerId, storeId, status, expectedDeliveryTime, lastUpdatedAt }
      else none
  | _ => none

end

/-- **What the parser reads** of a message that is an order with all its properties. -/
def OrderState.ofJson (value : Json) : Option OrderState :=
  (readDocument Instant.parse value).map fun d => d.toSnapshot.toOrderState

/-- The properties of the entries, one by one. -/
structure Documents {T : Type} (time : String → Option T) (entries : Dict String Json)
    (d : Document T) : Prop where
  orderId : textAt entries "orderId" = some d.orderId
  customerId : textAt entries "customerId" = some d.customerId
  storeId : textAt entries "storeId" = some d.storeId
  status : (textAt entries "status").bind OrderStatus.valueOf = some d.status
  expectedDeliveryTime : timeAt time entries "expectedDeliveryTime" = some d.expectedDeliveryTime
  lastUpdatedAt : timeAt time entries "lastUpdatedAt" = some d.lastUpdatedAt
  properties : (entries.map Prod.fst).all (· ∈ orderProperties)
  createdAt : (timeAt time entries "createdAt").isSome
  eventTime : (timeAt time entries "eventTime").isSome
  stateLogs : holdsAt entries "stateLogs" (isStateLogs time)
  schemaVersion : holdsAt entries "schemaVersion" isInt

section

variable {T T' : Type} {time : String → Option T} {time' : String → Option T'}
  {entries entries' : Dict String Json} {d : Document T}

lemma readDocument_dict : readDocument time (.dict entries) = some d ↔ Documents time entries d := by
  obtain ⟨orderId, customerId, storeId, status, eta, updated⟩ := d
  constructor
  · intro h
    simp only [readDocument, Option.bind_eq_bind, Option.bind_eq_some_iff] at h
    obtain ⟨_, horder, _, hcustomer, _, hstore, _, hstatus, _, heta, _, hupdated, h⟩ := h
    split_ifs at h with hrest
    cases h
    obtain ⟨hkeys, hcreated, hevent, hlogs, hversion⟩ := hrest
    exact ⟨horder, hcustomer, hstore, Option.bind_eq_some_iff.mpr hstatus, heta, hupdated, hkeys,
      hcreated, hevent, hlogs, hversion⟩
  · rintro ⟨horder, hcustomer, hstore, hstatus, heta, hupdated, hkeys, hcreated, hevent, hlogs,
      hversion⟩
    simp only [readDocument, horder, hcustomer, hstore, hstatus, heta, hupdated, Option.bind_eq_bind,
      Option.bind_some]
    rw [if_pos ⟨hkeys, hcreated, hevent, hlogs, hversion⟩]

/-- Only an object is read. -/
lemma exists_dict_of_readDocument {value : Json} (h : readDocument time value = some d) :
    ∃ entries, value = .dict entries ∧ Documents time entries d := by
  cases value with
  | dict entries => exact ⟨entries, rfl, readDocument_dict.mp h⟩
  | _ => cases h

/-! ## Objects of one shape -/

section Rel

variable {R : String → String → Prop} {S : T → T' → Prop}

lemma textAt_of_rel (h : Json.Rel.relEntries R entries entries') {key text : String}
    (htext : textAt entries key = some text) :
    ∃ text', textAt entries' key = some text' ∧ R text text' := by
  rw [textAt] at htext
  cases hvalue : entries.get? key with
  | none => simp [hvalue] at htext
  | some value =>
      obtain ⟨value', hvalue', hrel⟩ := Json.get?_of_relEntries h hvalue
      cases value with
      | str s =>
          cases value' with
          | str s' =>
              simp only [hvalue, Option.some.injEq] at htext
              subst htext
              exact ⟨s', by rw [textAt, hvalue'], hrel⟩
          | _ => exact hrel.elim
      | _ => simp [hvalue] at htext

lemma keys_of_rel : ∀ {entries entries' : Dict String Json},
    Json.Rel.relEntries R entries entries' → entries'.map Prod.fst = entries.map Prod.fst
  | [], [], _ => rfl
  | (_, _) :: _, (_, _) :: _, ⟨hkey, _, hrest⟩ => by
      rw [List.map_cons, List.map_cons, keys_of_rel hrest, hkey]

lemma isInt_of_rel {value value' : Json} (h : Json.Rel R value value') (hint : isInt value) :
    isInt value' := by
  cases value with
  | int n =>
      cases value' with
      | int n' =>
          obtain rfl : n = n' := h
          exact hint
      | _ => exact h.elim
  | float x =>
      cases value' with
      | float x' =>
          obtain rfl : x = x' := h
          exact hint
      | _ => exact h.elim
  | _ => cases hint

lemma holdsAt_of_rel {p q : Json → Bool} (h : Json.Rel.relEntries R entries entries')
    (hpq : ∀ value value', Json.Rel R value value' → p value → q value') {key : String}
    (hp : holdsAt entries key p) : holdsAt entries' key q := by
  rw [holdsAt] at hp ⊢
  cases hvalue : entries.get? key with
  | none => simp [hvalue] at hp
  | some value =>
      obtain ⟨value', hvalue', hrel⟩ := Json.get?_of_relEntries h hvalue
      rw [hvalue] at hp
      rw [hvalue']
      exact hpq value value' hrel hp

section Times

variable (htime : ∀ s s', R s s' → ∀ t, time s = some t → ∃ t', time' s' = some t' ∧ S t t')
include htime

lemma timeAt_of_rel (h : Json.Rel.relEntries R entries entries') {key : String} {t : T}
    (ht : timeAt time entries key = some t) :
    ∃ t', timeAt time' entries' key = some t' ∧ S t t' := by
  obtain ⟨text, htext, ht⟩ := Option.bind_eq_some_iff.mp ht
  obtain ⟨text', htext', hrel⟩ := textAt_of_rel h htext
  obtain ⟨t', ht', hS⟩ := htime text text' hrel t ht
  exact ⟨t', Option.bind_eq_some_iff.mpr ⟨text', htext', ht'⟩, hS⟩

lemma isSome_timeAt_of_rel (h : Json.Rel.relEntries R entries entries') {key : String}
    (ht : (timeAt time entries key).isSome) : (timeAt time' entries' key).isSome := by
  obtain ⟨t, ht⟩ := Option.isSome_iff_exists.mp ht
  obtain ⟨t', ht', _⟩ := timeAt_of_rel htime h ht
  rw [ht']
  rfl

lemma isStateLog_of_rel {value value' : Json} (h : Json.Rel R value value')
    (hlog : isStateLog time value) : isStateLog time' value' := by
  cases value with
  | dict entries =>
      cases value' with
      | dict entries' =>
          simp only [isStateLog, Bool.and_eq_true] at hlog ⊢
          obtain ⟨⟨hkeys, hstatus⟩, hat⟩ := hlog
          obtain ⟨status, hstatus⟩ := Option.isSome_iff_exists.mp hstatus
          obtain ⟨status', hstatus', _⟩ := textAt_of_rel h hstatus
          refine ⟨⟨?_, ?_⟩, isSome_timeAt_of_rel htime h hat⟩
          · rw [keys_of_rel h]
            exact hkeys
          · rw [hstatus']
            rfl
      | _ => exact h.elim
  | _ => cases hlog

lemma isStateLogs_of_rel {value value' : Json} (h : Json.Rel R value value')
    (hlogs : isStateLogs time value) : isStateLogs time' value' := by
  cases value with
  | list items =>
      cases value' with
      | list items' =>
          have hrel : Json.Rel.relItems R items items' := h
          simp only [isStateLogs] at hlogs ⊢
          clear h
          induction items generalizing items' with
          | nil =>
              cases items' with
              | nil => rfl
              | cons item' rest' => exact hrel.elim
          | cons item rest ih =>
              cases items' with
              | nil => exact hrel.elim
              | cons item' rest' =>
                  rw [List.all_cons, Bool.and_eq_true] at hlogs ⊢
                  exact ⟨isStateLog_of_rel htime hrel.1 hlogs.1, ih hlogs.2 rest' hrel.2⟩
      | _ => exact h.elim
  | _ => cases hlogs

/-- **Objects of one shape are read alike**, if a status stays what it is and times go over into
times. -/
theorem readDocument_of_rel
    (hstatus : ∀ s s', R s s' → ∀ status, OrderStatus.valueOf s = some status →
      OrderStatus.valueOf s' = some status)
    (h : Json.Rel.relEntries R entries entries')
    (hd : readDocument time (.dict entries) = some d) :
    ∃ d', readDocument time' (.dict entries') = some d' ∧ Document.Rel R S d d' := by
  have hd := readDocument_dict.mp hd
  obtain ⟨orderId, horder, hRorder⟩ := textAt_of_rel h hd.orderId
  obtain ⟨customerId, hcustomer, hRcustomer⟩ := textAt_of_rel h hd.customerId
  obtain ⟨storeId, hstore, hRstore⟩ := textAt_of_rel h hd.storeId
  obtain ⟨status, htext, hvalue⟩ := Option.bind_eq_some_iff.mp hd.status
  obtain ⟨status', htext', hrel⟩ := textAt_of_rel h htext
  obtain ⟨eta, heta, hSeta⟩ := timeAt_of_rel htime h hd.expectedDeliveryTime
  obtain ⟨updated, hupdated, hSupdated⟩ := timeAt_of_rel htime h hd.lastUpdatedAt
  refine ⟨⟨orderId, customerId, storeId, d.status, eta, updated⟩,
    readDocument_dict.mpr ⟨horder, hcustomer, hstore, ?_, heta, hupdated, ?_, ?_, ?_, ?_, ?_⟩,
    ⟨hRorder, hRcustomer, hRstore, rfl, hSeta, hSupdated⟩⟩
  · exact Option.bind_eq_some_iff.mpr ⟨status', htext', hstatus _ _ hrel _ hvalue⟩
  · rw [keys_of_rel h]
    exact hd.properties
  · exact isSome_timeAt_of_rel htime h hd.createdAt
  · exact isSome_timeAt_of_rel htime h hd.eventTime
  · exact holdsAt_of_rel h (fun _ _ hrel => isStateLogs_of_rel htime hrel) hd.stateLogs
  · exact holdsAt_of_rel h (fun _ _ hrel => isInt_of_rel hrel) hd.schemaVersion

end Times

end Rel

end

end DelayedOrderSms
