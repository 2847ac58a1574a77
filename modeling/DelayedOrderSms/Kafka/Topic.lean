import DelayedOrderSms.Systems.Trace
import Mathlib.Logic.Function.Basic

/-!
# A producer and its topic

A producer queues the records it is given and sends them in the background.  The brokers append a
record to the partition of its key, and those of a partition in the order of the queue, as they do
while no request of the producer is retried.  A delivery may fail; the record is then dropped, with
no more than a report.

* `SendStep` — what happens in the background.
* `onItsWay` — the records of one kind in the log of their partition and those still queued.
* `onItsWay_produce`, `onItsWay_delivered`, `onItsWay_failed` — what each step makes of them.
-/

namespace Kafka

variable {M : Type}

/-- What the producer has not sent, and the log of every partition. -/
structure Topic (M : Type) where
  queue : List M
  log : ℕ → List M

/-- Nothing has been produced. -/
def Topic.empty : Topic M := ⟨[], fun _ => []⟩

/-- `produce`, record by record. -/
def Topic.produce (t : Topic M) (records : List M) : Topic M :=
  { t with queue := t.queue ++ records }

/-- The two ends of a delivery. -/
inductive Delivery where
  | delivered
  | failed
  deriving DecidableEq, Repr

/-- **One delivery**, by a producer that neither repeats nor reorders what it sends to a partition:
its requests are not retried, or it is idempotent. -/
inductive SendStep (partitionOf : M → ℕ) : Topic M → Delivery → Topic M → Prop
  | delivered {t : Topic M} {m : M} {before after : List M} :
      t.queue = before ++ m :: after → (∀ m' ∈ before, partitionOf m' ≠ partitionOf m) →
      SendStep partitionOf t .delivered
        ⟨before ++ after, Function.update t.log (partitionOf m) (t.log (partitionOf m) ++ [m])⟩
  | failed {t : Topic M} {m : M} {before after : List M} :
      t.queue = before ++ m :: after →
      SendStep partitionOf t .failed { t with queue := before ++ after }

/-- Everything that is queued has been delivered or has failed: `flush` returns. -/
def Topic.Flushed (t : Topic M) : Prop := t.queue = []

/-- The records of a kind in the log of a partition. -/
def Topic.received (kind : M → Bool) (p : ℕ) (t : Topic M) : List M := (t.log p).filter kind

/-- The records of a kind that have been produced and not dropped, in the order they are received
in. -/
def Topic.onItsWay (kind : M → Bool) (p : ℕ) (t : Topic M) : List M :=
  t.received kind p ++ t.queue.filter kind

section Kinds

variable {partitionOf : M → ℕ} {kind : M → Bool} {p : ℕ} {t t' : Topic M}

lemma onItsWay_produce (records : List M) :
    (t.produce records).onItsWay kind p = t.onItsWay kind p ++ records.filter kind := by
  simp only [Topic.onItsWay, Topic.received, Topic.produce, List.filter_append, List.append_assoc]

/-- **A delivery keeps the order** of the records of a kind, if they are all of one partition. -/
theorem onItsWay_delivered (hkind : ∀ m, kind m → partitionOf m = p)
    (h : SendStep partitionOf t .delivered t') : t'.onItsWay kind p = t.onItsWay kind p := by
  cases h with
  | @delivered m before after hqueue hfirst =>
      simp only [Topic.onItsWay, Topic.received, hqueue, List.filter_append, List.filter_cons]
      cases hm : kind m with
      | true =>
          -- Nothing of the kind is before the record in the queue.
          have hp : partitionOf m = p := hkind m hm
          have hnone : before.filter kind = [] := by
            refine List.filter_eq_nil_iff.mpr fun m' hm' hkind' => hfirst m' hm' ?_
            rw [hkind m' hkind', hp]
          simp [hnone, hp, hm]
      | false =>
          have hlog : (Function.update t.log (partitionOf m) (t.log (partitionOf m) ++ [m]) p).filter
              kind = (t.log p).filter kind := by
            by_cases hp : p = partitionOf m
            · subst hp
              simp [hm]
            · rw [Function.update_of_ne hp]
          simp [hlog]

/-- A failed delivery drops a record. -/
lemma onItsWay_failed (h : SendStep partitionOf t .failed t') :
    (t'.onItsWay kind p).Sublist (t.onItsWay kind p) := by
  cases h with
  | failed hqueue =>
      simp only [Topic.onItsWay, Topic.received, hqueue, List.filter_append]
      refine List.Sublist.append (List.Sublist.refl _) (List.Sublist.append (List.Sublist.refl _) ?_)
      exact (List.sublist_cons_self _ _).filter _

/-- A record is received in the partition of its key. -/
lemma log_partition (h : ∀ q, ∀ m ∈ t.log q, partitionOf m = q) {d : Delivery}
    (hs : SendStep partitionOf t d t') : ∀ q, ∀ m ∈ t'.log q, partitionOf m = q := by
  cases hs with
  | failed => exact h
  | @delivered m =>
      intro q m' hm'
      dsimp only at hm'
      by_cases hq : q = partitionOf m
      · subst hq
        rw [Function.update_self, List.mem_append, List.mem_singleton] at hm'
        rcases hm' with hold | rfl
        · exact h _ m' hold
        · rfl
      · rw [Function.update_of_ne hq] at hm'
        exact h q m' hm'

/-- Nothing is queued by a delivery. -/
lemma mem_queue_of_sendStep {d : Delivery} (h : SendStep partitionOf t d t') {m : M}
    (hm : m ∈ t'.queue) : m ∈ t.queue := by
  cases h with
  | delivered hqueue =>
      rw [hqueue]
      rcases List.mem_append.mp hm with hm | hm
      · exact List.mem_append_left _ hm
      · exact List.mem_append_right _ (List.mem_cons_of_mem _ hm)
  | failed hqueue =>
      rw [hqueue]
      rcases List.mem_append.mp hm with hm | hm
      · exact List.mem_append_left _ hm
      · exact List.mem_append_right _ (List.mem_cons_of_mem _ hm)

/-- What is in the log now was there before, or queued. -/
lemma mem_log_of_sendStep {d : Delivery} (h : SendStep partitionOf t d t') {q : ℕ} {m : M}
    (hm : m ∈ t'.log q) : m ∈ t.log q ∨ m ∈ t.queue := by
  cases h with
  | failed => exact .inl hm
  | @delivered sent before after hqueue =>
      dsimp only at hm
      by_cases hq : q = partitionOf sent
      · subst hq
        rw [Function.update_self, List.mem_append, List.mem_singleton] at hm
        rcases hm with hm | rfl
        · exact .inl hm
        · right
          rw [hqueue]
          exact List.mem_append_right _ List.mem_cons_self
      · rw [Function.update_of_ne hq] at hm
        exact .inl hm

/-- What is flushed has been received. -/
lemma Topic.Flushed.onItsWay_eq (h : t.Flushed) : t.onItsWay kind p = t.received kind p := by
  rw [Topic.onItsWay, h, List.filter_nil, List.append_nil]

/-- What is received is the first part of what is on its way. -/
lemma received_prefix (kind : M → Bool) (p : ℕ) (t : Topic M) :
    t.received kind p <+: t.onItsWay kind p :=
  List.prefix_append _ _

end Kinds

end Kafka
