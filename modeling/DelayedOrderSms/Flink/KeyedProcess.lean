import DelayedOrderSms.Java.Instant
import DelayedOrderSms.Systems.Keyed
import DelayedOrderSms.Systems.Embedding
import Mathlib.Data.Finset.Basic
import Mathlib.Tactic.Lemma

/-!
# Keyed process functions with a value state and processing-time timers

What Flink gives a `KeyedProcessFunction` for the key it is called for: one `ValueState` cell,
a set of processing-time timers, a clock and outputs.

* `Slot` — what Flink stores for one key.  A value is kept with the time of its last `update`
  (`TtlValue`); `Slot.value` reads it under a time to live, `OnCreateAndWrite` and
  `NeverReturnExpired`.  Timers are not subject to the time to live.
* `Op` — the operations the body of a process function is written in.  The object that the
  local variable of the Java code points to is part of the invocation, so that `mutate` (a call
  of setters on it) can take effect in the store at once under a heap backend and only at the
  next `update` under RocksDB, which hands out copies.
* `KeyStep` — what can happen to one key: an element routed to it, or a registered timer that
  fires at any moment at or after its timestamp.  Flink removes a timer before it calls
  `onTimer`.
* `ExpiringStep` — the same when the stored value may also vanish at any moment.
-/

namespace Flink

open Java Systems

/-- Where the value of a `ValueState` lives: RocksDB serialises it on every access, the heap
backend hands out the stored object itself. -/
inductive Backend where
  | rocksDB
  | heap
  deriving DecidableEq, Repr

/-- A stored value with the time of the `update` that wrote it. -/
structure TtlValue (V : Type) where
  userValue : V
  lastAccessTimestamp : Long
  deriving DecidableEq

/-- The settings of the state: its backend, and the time to live in milliseconds (`none` when
values never expire). -/
structure StateConfig where
  backend : Backend
  ttl : Option ℕ

/-- What one call of the process function sees: the settings, the processing-time clock and
the answer of `Instant.now()`. -/
structure Context where
  config : StateConfig
  currentProcessingTime : Long
  instantNow : Instant

/-- What Flink stores for one key. -/
structure Slot (V : Type) where
  cell : Option (TtlValue V)
  timers : Finset Long

/-- Nothing stored, no timer. -/
def Slot.empty {V : Type} : Slot V := ⟨none, ∅⟩

/-- The time to live of a value has passed. -/
def TtlValue.expired {V : Type} (ttl : Option ℕ) (now : Long) (c : TtlValue V) : Bool :=
  match ttl with
  | none => false
  | some d => c.lastAccessTimestamp.val + d ≤ now.val

/-- `ValueState.value()`: the stored value unless it has expired. -/
def Slot.value {V : Type} (ttl : Option ℕ) (now : Long) (s : Slot V) : Option V :=
  match s.cell with
  | none => none
  | some c => if c.expired ttl now then none else some c.userValue

/-- The stored value, expired or not. -/
def Slot.kept {V : Type} (s : Slot V) : Option V := s.cell.map TtlValue.userValue

/-- The slot with its value rewritten; times and timers are kept. -/
def Slot.map {V W : Type} (f : V → W) (s : Slot V) : Slot W :=
  ⟨s.cell.map fun c => ⟨f c.userValue, c.lastAccessTimestamp⟩, s.timers⟩

/-- A slot with one timer taken out of it. -/
def Slot.pop {V : Type} (s : Slot V) (timestamp : Long) : Slot V :=
  { s with timers := s.timers.erase timestamp }

section Slot

variable {V W : Type}

@[simp] lemma Slot.map_timers (f : V → W) (s : Slot V) : (s.map f).timers = s.timers := rfl

@[simp] lemma Slot.pop_map (f : V → W) (s : Slot V) (ts : Long) :
    (s.map f).pop ts = (s.pop ts).map f := rfl

@[simp] lemma Slot.pop_timers (s : Slot V) (ts : Long) :
    (s.pop ts).timers = s.timers.erase ts := rfl

@[simp] lemma Slot.map_kept (f : V → W) (s : Slot V) : (s.map f).kept = s.kept.map f := by
  rcases s with ⟨_ | c, T⟩ <;> rfl

@[simp] lemma Slot.kept_pop (s : Slot V) (ts : Long) : (s.pop ts).kept = s.kept := rfl

@[simp] lemma Slot.pop_cell (s : Slot V) (ts : Long) : (s.pop ts).cell = s.cell := rfl

@[simp] lemma Slot.value_pop (ttl : Option ℕ) (now : Long) (s : Slot V) (ts : Long) :
    (s.pop ts).value ttl now = s.value ttl now := rfl

@[simp] lemma Slot.value_map (f : V → W) (ttl : Option ℕ) (now : Long) (s : Slot V) :
    (s.map f).value ttl now = (s.value ttl now).map f := by
  rcases s with ⟨_ | c, T⟩
  · rfl
  · cases ttl with
    | none => rfl
    | some d =>
        by_cases h : c.lastAccessTimestamp.val + d ≤ now.val <;>
          simp [Slot.value, Slot.map, TtlValue.expired, h]

/-- Without a time to live the stored value is always read. -/
@[simp] lemma Slot.value_none (now : Long) (s : Slot V) : s.value none now = s.kept := by
  rcases s with ⟨_ | c, T⟩ <;> rfl

@[simp] lemma Slot.kept_mk (c : TtlValue V) (T : Finset Long) :
    (⟨some c, T⟩ : Slot V).kept = some c.userValue := rfl

/-- What is read is what is stored. -/
lemma Slot.value_eq_some {ttl : Option ℕ} {now : Long} {s : Slot V} {v : V}
    (h : s.value ttl now = some v) : ∃ w, s.cell = some ⟨v, w⟩ := by
  rcases s with ⟨_ | ⟨u, w⟩, T⟩
  · simp [Slot.value] at h
  · simp only [Slot.value, Option.ite_none_left_eq_some, Option.some.injEq] at h
    exact ⟨w, by rw [h.2]⟩

/-- With a time to live of `d` milliseconds it is read until `d` have passed since its last
update. -/
lemma Slot.value_some {d : ℕ} {now : Long} {s : Slot V} {v : V} :
    s.value (some d) now = some v ↔
      ∃ w, s.cell = some ⟨v, w⟩ ∧ now.val < w.val + d := by
  rcases s with ⟨_ | ⟨u, w⟩, T⟩
  · simp [Slot.value]
  · by_cases h : w.val + d ≤ now.val
    · simp [Slot.value, TtlValue.expired, h]
    · simp [Slot.value, TtlValue.expired, h, not_le.mp h]

/-- What is read depends on the value alone. -/
lemma Slot.value_congr {s s' : Slot V} (h : s.cell = s'.cell) (ttl : Option ℕ) (now : Long) :
    s.value ttl now = s'.value ttl now := by
  rw [Slot.value, Slot.value, h]

/-- With time what is read is lost, or stays. -/
lemma Slot.value_later {d : ℕ} {now later : Long} (h : now ≤ later) (s : Slot V) :
    s.value (some d) later = none ∨ s.value (some d) later = s.value (some d) now := by
  cases hv : s.value (some d) later with
  | none => exact .inl rfl
  | some v =>
      obtain ⟨w, hcell, hlive⟩ := Slot.value_some.mp hv
      have hle : now.val ≤ later.val := h
      exact .inr (Slot.value_some.mpr ⟨w, hcell, by omega⟩).symm

lemma Slot.map_injective {f : V → W} (hf : Function.Injective f) :
    Function.Injective (Slot.map f) := by
  rintro ⟨c, T⟩ ⟨c', T'⟩ h
  obtain ⟨hcell, rfl⟩ := Slot.mk.inj h
  have hentry : Function.Injective fun c : TtlValue V =>
      (⟨f c.userValue, c.lastAccessTimestamp⟩ : TtlValue W) := by
    rintro ⟨v, w⟩ ⟨v', w'⟩ he
    obtain ⟨hv, rfl⟩ := TtlValue.mk.inj he
    obtain rfl : v = v' := hf hv
    rfl
  obtain rfl : c = c' := Option.map_injective hentry hcell
  rfl

end Slot

/-! ## The body of a process function -/

/-- A call in progress: the slot of its key, the object the local variable points to (`none`
for `null`), whether that object is the stored one, and the outputs so far. -/
structure Invocation (V F : Type) extends Slot V where
  current : Option V
  live : Bool
  effects : List F

/-- The object the local variable points to, if it points to one, is as it is stored. -/
def Invocation.Written {V F : Type} (s : Invocation V F) : Prop :=
  ∀ v ∈ s.current, s.toSlot.kept = some v

/-- A piece of a process function's body: a state transformer that may throw. -/
structure Op (V F α : Type) where
  run : Invocation V F → Except Throwable (α × Invocation V F)

namespace Op

variable {V F α β : Type}

instance : Monad (Op V F) where
  pure a := ⟨fun s => .ok (a, s)⟩
  bind x f := ⟨fun s =>
    match x.run s with
    | .error e => .error e
    | .ok (a, s) => (f a).run s⟩

/-- `current = state.value()`, answering what was read. -/
def value (context : Context) : Op V F (Option V) where
  run s :=
    let v := s.toSlot.value context.config.ttl context.currentProcessingTime
    .ok (v, { s with current := v, live := context.config.backend == .heap })

/-- `current = new …`: a fresh object, not (yet) the stored one. -/
def assign (v : V) : Op V F Unit where
  run s := .ok ((), { s with current := some v, live := false })

/-- Reading through the local variable. -/
def deref : Op V F V where
  run s :=
    match s.current with
    | none => .error (.nullPointerException "current")
    | some v => .ok (v, s)

/-- Setters called on the object the local variable points to.  When it is the stored object,
the stored value changes with it. -/
def mutate (f : V → V) : Op V F Unit where
  run s :=
    match s.current with
    | none => .error (.nullPointerException "current")
    | some v =>
        .ok ((), { s with
          current := some (f v)
          cell := if s.live then s.cell.map fun c => { c with userValue := f v } else s.cell })

/-- `state.update(current)`. -/
def update (context : Context) : Op V F Unit where
  run s := .ok ((), { s with
    cell := s.current.map fun v => ⟨v, context.currentProcessingTime⟩
    live := context.config.backend == .heap })

/-- `timerService().registerProcessingTimeTimer(time)`; a key has at most one timer a time. -/
def registerProcessingTimeTimer (time : Long) : Op V F Unit where
  run s := .ok ((), { s with timers := insert time s.timers })

/-- `timerService().deleteProcessingTimeTimer(time)`. -/
def deleteProcessingTimeTimer (time : Long) : Op V F Unit where
  run s := .ok ((), { s with timers := s.timers.erase time })

/-- An output of the call: a collected record, a side output or a bumped counter. -/
def emit (f : F) : Op V F Unit where
  run s := .ok ((), { s with effects := s.effects ++ [f] })

/-- A method that may throw, called from the body. -/
def ofExcept (r : Except Throwable α) : Op V F α where
  run s :=
    match r with
    | .error e => .error e
    | .ok a => .ok (a, s)

/-- Run a body on the slot of its key.  When it throws, the job fails and nothing of the call
is kept. -/
def runOn (op : Op V F Unit) (slot : Slot V) : Except Throwable (Slot V × List F) :=
  match op.run ⟨slot, none, false, []⟩ with
  | .error e => .error e
  | .ok (_, s) => .ok (s.toSlot, s.effects)

/-! Symbolic execution of a body: every step is an equation about `run`. -/

lemma run_bind (x : Op V F α) (f : α → Op V F β) (s : Invocation V F) :
    (x >>= f).run s = match x.run s with
      | .error e => .error e
      | .ok (a, s) => (f a).run s := rfl

@[simp] lemma run_pure (a : α) (s : Invocation V F) : (pure a : Op V F α).run s = .ok (a, s) := rfl

@[simp] lemma run_ofExcept_ok (a : α) (s : Invocation V F) :
    (ofExcept (.ok a) : Op V F α).run s = .ok (a, s) := rfl

@[simp] lemma run_ofExcept_error (e : Throwable) (s : Invocation V F) :
    (ofExcept (.error e) : Op V F α).run s = .error e := rfl

@[simp] lemma run_value (context : Context) (s : Invocation V F) :
    (value context : Op V F _).run s =
      .ok (s.toSlot.value context.config.ttl context.currentProcessingTime,
        { s with
          current := s.toSlot.value context.config.ttl context.currentProcessingTime
          live := context.config.backend == .heap }) := rfl

end Op

/-! ## One key -/

/-- A keyed process function: how its elements are keyed and its two callbacks. -/
structure Operator (K E V F : Type) where
  keyOf : E → Option K
  processElement : Context → E → Op V F Unit
  onTimer : Context → Long → Op V F Unit

/-- What can happen to a key.  `now` is the processing time of the call, `wall` what
`Instant.now()` answers during it. -/
inductive KeyEvent (E : Type) where
  | element (now : Long) (wall : Instant) (incoming : E)
  | timer (now : Long) (wall : Instant) (timestamp : Long)

/-- The time the event is known to have reached: for an element its processing time, for a
timer its timestamp. -/
def KeyEvent.reached {E : Type} : KeyEvent E → Long
  | .element now _ _ => now
  | .timer _ _ timestamp => timestamp

/-- The processing time at which the event is handled. -/
def KeyEvent.now {E : Type} : KeyEvent E → Long
  | .element now _ _ => now
  | .timer now _ _ => now

/-- The element the event is about, if it is one. -/
def KeyEvent.incoming? {E : Type} : KeyEvent E → Option E
  | .element _ _ incoming => some incoming
  | .timer _ _ _ => none

variable {K E V F : Type}

/-- **One step of one key**: an element with that key is processed, or a registered timer fires
at or after its timestamp. -/
inductive KeyStep (op : Operator K E V F) (config : StateConfig) (k : K) :
    Slot V → KeyEvent E → List F → Slot V → Prop
  | element {s s' : Slot V} {now : Long} {wall : Instant} {incoming : E} {fx : List F} :
      op.keyOf incoming = some k →
      (op.processElement ⟨config, now, wall⟩ incoming).runOn s = .ok (s', fx) →
      KeyStep op config k s (.element now wall incoming) fx s'
  | timer {s s' : Slot V} {now : Long} {wall : Instant} {timestamp : Long} {fx : List F} :
      timestamp ∈ s.timers → timestamp ≤ now →
      (op.onTimer ⟨config, now, wall⟩ timestamp).runOn (s.pop timestamp) = .ok (s', fx) →
      KeyStep op config k s (.timer now wall timestamp) fx s'

/-- An event, or the stored value vanishing. -/
inductive Fault (ι : Type) where
  | event (i : ι)
  | expire

/-- **A step of a slot, or its value expiring at any moment.**  Its timers stay. -/
inductive ExpiringStep {ι : Type} (step : Slot V → ι → List F → Slot V → Prop) :
    Slot V → Fault ι → List F → Slot V → Prop
  | event {s s' : Slot V} {i : ι} {fx : List F} :
      step s i fx s' → ExpiringStep step s (.event i) fx s'
  | expire {s : Slot V} : ExpiringStep step s .expire [] { s with cell := none }

/-- A rewriting of the stored values that steps respect is respected when values expire. -/
lemma ExpiringStep.embeds {W ι : Type} {f : V → W} {step : Slot V → ι → List F → Slot V → Prop}
    {step' : Slot W → ι → List F → Slot W → Prop} (h : Embeds (Slot.map f) step step') :
    Embeds (Slot.map f) (ExpiringStep step) (ExpiringStep step') := by
  intro s i fx r
  constructor
  · intro hs
    cases hs with
    | event hs =>
        obtain ⟨s', hs', rfl⟩ := (h s _ fx r).mp hs
        exact ⟨s', .event hs', rfl⟩
    | expire => exact ⟨{ s with cell := none }, .expire, rfl⟩
  · rintro ⟨s', hs', rfl⟩
    cases hs' with
    | event hs => exact .event ((h s _ fx _).mpr ⟨s', hs, rfl⟩)
    | expire => exact .expire

end Flink
