import DelayedOrderSms.Systems.Trace
import Mathlib.Data.List.Forall2
import Mathlib.Data.List.Pairwise

/-!
# A compacted log

Of the records with one key a compacted log keeps at least the last.  Its cleaner removes earlier
ones at any time, those that its consumer has read and those that it has not.  The others keep their
offsets, and the consumer goes on to the next offset that is still there.

* `LogStep` — producing, cleaning and polling, in any interleaving.
* `Reduces` — what may be left of some records.
* `reduces_of_run` — what a consumer has read and has still to read is left of what was produced.
* `exists_compacted` — it may be left with no more than the last record of every key.
-/

namespace Kafka

open Systems

variable {M κ : Type}

/-- One partition: its records with their offsets, the offset of the next one, and the position of
its consumer. -/
structure CompactedLog (M : Type) where
  records : List (ℕ × M)
  endOffset : ℕ
  position : ℕ

def CompactedLog.empty : CompactedLog M := ⟨[], 0, 0⟩

/-- What the consumer has still to read. -/
def CompactedLog.pending (s : CompactedLog M) : List M :=
  (s.records.filter fun r => s.position ≤ r.1).map Prod.snd

/-- It has read everything. -/
def CompactedLog.CaughtUp (s : CompactedLog M) : Prop := s.pending = []

inductive LogEvent (M : Type) where
  | produce (m : M)
  | clean
  | poll

/-- **One step.**  Its outputs are what the consumer reads. -/
inductive LogStep (key : M → κ) : CompactedLog M → LogEvent M → List M → CompactedLog M → Prop
  | produce {s : CompactedLog M} {m : M} :
      LogStep key s (.produce m) []
        { s with records := s.records ++ [(s.endOffset, m)], endOffset := s.endOffset + 1 }
  | clean {s : CompactedLog M} {before after : List (ℕ × M)} {r later : ℕ × M} :
      s.records = before ++ r :: after → later ∈ after → key later.2 = key r.2 →
      LogStep key s .clean [] { s with records := before ++ after }
  | poll {s : CompactedLog M} {before after : List (ℕ × M)} {offset : ℕ} {m : M} :
      s.records = before ++ (offset, m) :: after → (∀ r ∈ before, r.1 < s.position) →
      s.position ≤ offset →
      LogStep key s .poll [m] { s with position := offset + 1 }

def LogEvent.produced? : LogEvent M → Option M
  | .produce m => some m
  | .clean => none
  | .poll => none

/-- The records that have been produced. -/
def produced (run : List (Entry (CompactedLog M) (LogEvent M) M)) : List M :=
  run.filterMap (·.label.produced?)

lemma produced_concat (run : List (Entry (CompactedLog M) (LogEvent M) M))
    (e : Entry (CompactedLog M) (LogEvent M) M) :
    produced (run ++ [e]) = produced run ++ e.label.produced?.toList := by
  cases h : e.label.produced? <;> simp [produced, h]

/-! ## What may be left -/

section Reduces

variable [DecidableEq κ] {key : M → κ} {as bs : List M}

/-- **What may be left of some records**: of those with one key the last, and any of the others. -/
structure Reduces (key : M → κ) (as bs : List M) : Prop where
  sublist : bs.Sublist as
  last : ∀ k, (bs.filter (key · = k)).getLast? = (as.filter (key · = k)).getLast?

lemma Reduces.refl (as : List M) : Reduces key as as := ⟨List.Sublist.refl _, fun _ => rfl⟩

/-- One more record is produced, and is left. -/
lemma Reduces.concat (h : Reduces key as bs) (a : M) : Reduces key (as ++ [a]) (bs ++ [a]) where
  sublist := h.sublist.append (List.Sublist.refl _)
  last := by
    intro k
    simp only [List.filter_append, List.getLast?_append, h.last k]

/-- A record is removed, with a later one of the same key. -/
lemma Reduces.remove {before after : List M} {b later : M}
    (h : Reduces key as (before ++ b :: after)) (hlater : later ∈ after) (hkey : key later = key b) :
    Reduces key as (before ++ after) where
  sublist := List.Sublist.trans
    ((List.Sublist.refl before).append (List.sublist_cons_self b after)) h.sublist
  last := by
    intro k
    rw [← h.last k, List.filter_append, List.filter_append, List.getLast?_append,
      List.getLast?_append]
    by_cases hk : key b = k
    · have hne : after.filter (key · = k) ≠ [] :=
        List.ne_nil_of_mem (List.mem_filter.mpr ⟨hlater, by simp [hkey, hk]⟩)
      rw [List.filter_cons_of_pos (by simp [hk]), List.getLast?_cons,
        List.getLast?_eq_some_getLast hne]
      rfl
    · rw [List.filter_cons_of_neg (by simp [hk])]

end Reduces

section Corresponding

variable {α β : Type} {R : α → β → Prop} {as : List α} {bs bs' : List β}

lemma exists_sublist_of_forall₂ (h : List.Forall₂ R as bs) (hsub : bs'.Sublist bs) :
    ∃ as', as'.Sublist as ∧ List.Forall₂ R as' bs' := by
  induction hsub generalizing as with
  | slnil => exact ⟨as, List.Sublist.refl _, h⟩
  | cons b _ ih =>
      obtain ⟨a, as, _, hrest, rfl⟩ := List.forall₂_cons_right_iff.mp h
      obtain ⟨as', hsub, has'⟩ := ih hrest
      exact ⟨as', hsub.cons a, has'⟩
  | cons_cons b _ ih =>
      obtain ⟨a, as, hab, hrest, rfl⟩ := List.forall₂_cons_right_iff.mp h
      obtain ⟨as', hsub, has'⟩ := ih hrest
      exact ⟨a :: as', hsub.cons_cons a, .cons hab has'⟩

/-- **What corresponds to some records is left where they are**, the last if the last is. -/
theorem exists_left_of_forall₂ (h : List.Forall₂ R as bs) (hsub : bs'.Sublist bs)
    (hlast : bs'.getLast? = bs.getLast?) :
    ∃ as', as'.Sublist as ∧ as'.getLast? = as.getLast? ∧ List.Forall₂ R as' bs' := by
  cases hb : bs.getLast? with
  | none =>
      obtain rfl := List.getLast?_eq_none_iff.mp hb
      obtain rfl := List.sublist_nil.mp hsub
      exact ⟨as, List.Sublist.refl _, rfl, h⟩
  | some b =>
      obtain ⟨init, rfl⟩ := List.getLast?_eq_some_iff.mp hb
      obtain ⟨init', rfl⟩ := List.getLast?_eq_some_iff.mp (hlast.trans hb)
      have hreverse := List.forall₂_reverse_iff.mpr h
      rw [List.reverse_append, List.reverse_singleton, List.singleton_append] at hreverse
      obtain ⟨a, front, hab, hfront, has⟩ := List.forall₂_cons_right_iff.mp hreverse
      obtain rfl : as = front.reverse ++ [a] := by
        rw [← List.reverse_reverse as, has, List.reverse_cons]
      have hinit : List.Forall₂ R front.reverse init := by
        rw [← List.reverse_reverse init]
        exact List.forall₂_reverse_iff.mpr hfront
      obtain ⟨front', hsub', hfront'⟩ := exists_sublist_of_forall₂ hinit
        ((List.append_sublist_append_right [b]).mp hsub)
      refine ⟨front' ++ [a], (List.append_sublist_append_right [a]).mpr hsub', by simp, ?_⟩
      exact List.rel_append hfront' (.cons hab .nil)

end Corresponding

/-! ## What a consumer reads -/

/-- The offsets increase, and no position is beyond the last. -/
structure CompactedLog.Ordered (s : CompactedLog M) : Prop where
  increasing : s.records.Pairwise fun r r' => r.1 < r'.1
  lt_endOffset : ∀ r ∈ s.records, r.1 < s.endOffset
  position_le : s.position ≤ s.endOffset

lemma ordered_empty : (CompactedLog.empty : CompactedLog M).Ordered :=
  ⟨List.Pairwise.nil, fun _ h => absurd h List.not_mem_nil, Nat.le_refl _⟩

section Step

variable {key : M → κ} {s s' : CompactedLog M} {l : LogEvent M} {o : List M}

lemma CompactedLog.Ordered.step (h : s.Ordered) (hs : LogStep key s l o s') : s'.Ordered := by
  obtain ⟨hincreasing, hlt, hle⟩ := h
  cases hs with
  | produce =>
      refine ⟨?_, ?_, Nat.le_succ_of_le hle⟩
      · refine List.pairwise_append.mpr ⟨hincreasing, List.pairwise_singleton _ _, ?_⟩
        intro r hr r' hr'
        obtain rfl := List.mem_singleton.mp hr'
        exact hlt r hr
      · intro r hr
        rcases List.mem_append.mp hr with hr | hr
        · exact Nat.lt_succ_of_lt (hlt r hr)
        · obtain rfl := List.mem_singleton.mp hr
          exact Nat.lt_succ_self _
  | @clean before after r later hrecords =>
      have hsub : (before ++ after).Sublist s.records := by
        rw [hrecords]
        exact (List.Sublist.refl before).append (List.sublist_cons_self r after)
      exact ⟨hincreasing.sublist hsub, fun r hr => hlt r (hsub.subset hr), hle⟩
  | @poll before after offset m hrecords =>
      refine ⟨hincreasing, hlt, hlt (offset, m) ?_⟩
      rw [hrecords]
      exact List.mem_append_right _ List.mem_cons_self

/-- **What a step leaves to be read**: a new record, too; all but one that a later one replaces; all
but the one that is read. -/
lemma pending_step (h : s.Ordered) (hs : LogStep key s l o s') :
    (∃ m, l = .produce m ∧ o = [] ∧ s'.pending = s.pending ++ [m]) ∨
      (l = .clean ∧ o = [] ∧ (s'.pending = s.pending ∨ ∃ before b after, ∃ later ∈ after,
        key later = key b ∧ s.pending = before ++ b :: after ∧ s'.pending = before ++ after)) ∨
      (∃ m, l = .poll ∧ o = [m] ∧ s.pending = m :: s'.pending) := by
  cases hs with
  | @produce m =>
      refine .inl ⟨m, rfl, rfl, ?_⟩
      have hle := h.position_le
      simp [CompactedLog.pending, hle]
  | @clean before after r later hrecords hlater hkey =>
      refine .inr (.inl ⟨rfl, rfl, ?_⟩)
      by_cases hread : s.position ≤ r.1
      · have hlt : r.1 < later.1 := by
          have hincreasing := h.increasing
          rw [hrecords, List.pairwise_append, List.pairwise_cons] at hincreasing
          exact hincreasing.2.1.1 later hlater
        refine .inr ⟨(before.filter fun r => s.position ≤ r.1).map Prod.snd, r.2,
          (after.filter fun r => s.position ≤ r.1).map Prod.snd, later.2, ?_, hkey, ?_, ?_⟩
        · refine List.mem_map_of_mem (List.mem_filter.mpr ⟨hlater, ?_⟩)
          exact decide_eq_true (by omega)
        · simp [CompactedLog.pending, hrecords, hread]
        · simp [CompactedLog.pending]
      · refine .inl ?_
        simp [CompactedLog.pending, hrecords, hread]
  | @poll before after offset m hrecords hbefore hoffset =>
      have hafter : ∀ r ∈ after, offset < r.1 := by
        have hincreasing := h.increasing
        rw [hrecords, List.pairwise_append, List.pairwise_cons] at hincreasing
        exact hincreasing.2.1.1
      have hgone : before.filter (fun r => s.position ≤ r.1) = [] :=
        List.filter_eq_nil_iff.mpr fun r hr => by simpa using hbefore r hr
      have hgone' : before.filter (fun r => offset + 1 ≤ r.1) = [] :=
        List.filter_eq_nil_iff.mpr fun r hr => by
          have hlt := hbefore r hr
          simp only [decide_eq_true_eq]
          omega
      have hleft : after.filter (fun r => s.position ≤ r.1) = after :=
        List.filter_eq_self.mpr fun r hr => by
          have hlt := hafter r hr
          simp only [decide_eq_true_eq]
          omega
      have hleft' : after.filter (fun r => offset + 1 ≤ r.1) = after :=
        List.filter_eq_self.mpr fun r hr => decide_eq_true (hafter r hr)
      have hbefore' : s.pending = m :: after.map Prod.snd := by
        rw [CompactedLog.pending, hrecords, List.filter_append,
          List.filter_cons_of_pos (by simpa using hoffset), hgone, hleft]
        rfl
      have hafter' : ({ s with position := offset + 1 } : CompactedLog M).pending
          = after.map Prod.snd := by
        show (s.records.filter fun r => offset + 1 ≤ r.1).map Prod.snd = after.map Prod.snd
        rw [hrecords, List.filter_append, List.filter_cons_of_neg (by simp), hgone', hleft']
        rfl
      exact .inr (.inr ⟨m, rfl, rfl, by rw [hbefore', hafter']⟩)

end Step

/-- **What the consumer has read and has still to read** is left of what was produced. -/
theorem reduces_of_run [DecidableEq κ] {key : M → κ} {s : CompactedLog M} (hs : s.Ordered)
    (hcaught : s.CaughtUp) {run : List (Entry (CompactedLog M) (LogEvent M) M)}
    (h : IsRun (LogStep key) s run) :
    (final s run).Ordered ∧ Reduces key (produced run) (outputs run ++ (final s run).pending) := by
  refine IsRun.history_induction
    (P := fun run s => s.Ordered ∧ Reduces key (produced run) (outputs run ++ s.pending)) ?_ ?_ run h
  · rw [hcaught]
    exact ⟨hs, .refl _⟩
  · intro run s e _ _ ⟨hordered, hreduces⟩ hstep
    refine ⟨hordered.step hstep, ?_⟩
    rw [produced_concat, outputs_append, outputs_cons, outputs_nil, List.append_nil]
    rcases pending_step hordered hstep with ⟨m, hl, ho, hpending⟩ | ⟨hl, ho, hpending⟩ |
      ⟨m, hl, ho, hpending⟩
    · rw [hl, ho, hpending, List.append_nil, ← List.append_assoc]
      exact hreduces.concat m
    · rw [hl, ho, List.append_nil]
      rcases hpending with hsame | ⟨before, b, after, later, hlater, hkey, hbefore, hafter⟩
      · rw [hsame]
        simpa [LogEvent.produced?] using hreduces
      · rw [hbefore, ← List.append_assoc] at hreduces
        rw [hafter, ← List.append_assoc]
        simpa [LogEvent.produced?] using hreduces.remove hlater hkey
    · rw [hl, ho]
      rw [hpending] at hreduces
      simpa [LogEvent.produced?] using hreduces

/-! ## The shortest log -/

section Shortest

variable (key : M → κ)

/-- Anything can be produced. -/
lemma exists_produced (as : List M) (s : CompactedLog M) :
    ∃ run, IsRun (LogStep key) s run ∧ produced run = as ∧ outputs run = [] := by
  induction as generalizing s with
  | nil => exact ⟨[], trivial, rfl, rfl⟩
  | cons a as ih =>
      obtain ⟨run, hrun, hproduced, houtputs⟩ := ih
        { s with records := s.records ++ [(s.endOffset, a)], endOffset := s.endOffset + 1 }
      exact ⟨⟨.produce a, [], _⟩ :: run, ⟨.produce, hrun⟩, congrArg (a :: ·) hproduced, houtputs⟩

/-- A log in which two records have the same key can be cleaned. -/
lemma exists_cleaned (s : CompactedLog M) :
    ∃ run, IsRun (LogStep key) s run ∧ produced run = [] ∧ outputs run = [] ∧
      (final s run).records.Pairwise fun r r' => key r.2 ≠ key r'.2 := by
  by_cases hdistinct : s.records.Pairwise fun r r' => key r.2 ≠ key r'.2
  · exact ⟨[], trivial, rfl, rfl, hdistinct⟩
  · obtain ⟨before, r, after, later, hrecords, hlater, hkey⟩ : ∃ before r after later,
        s.records = before ++ r :: after ∧ later ∈ after ∧ key later.2 = key r.2 := by
      rw [List.pairwise_iff_forall_sublist] at hdistinct
      push Not at hdistinct
      obtain ⟨r, later, hsub, hkey⟩ := hdistinct
      obtain ⟨first, rest, hsplit, hr, hrest⟩ := List.cons_sublist_iff.mp hsub
      obtain ⟨before, between, rfl⟩ := List.append_of_mem hr
      refine ⟨before, r, between ++ rest, later, by simp [hsplit], ?_, hkey.symm⟩
      exact List.mem_append_right _ (List.singleton_sublist.mp hrest)
    have hshorter : (before ++ after).length < s.records.length := by
      rw [hrecords, List.length_append, List.length_append, List.length_cons]
      omega
    obtain ⟨run, hrun, hproduced, houtputs, hdistinct⟩ :=
      exists_cleaned { s with records := before ++ after }
    exact ⟨⟨.clean, [], _⟩ :: run, ⟨.clean hrecords hlater hkey, hrun⟩, hproduced, houtputs,
      hdistinct⟩
  termination_by s.records.length
  decreasing_by exact hshorter

/-- A consumer can catch up. -/
lemma exists_caughtUp {s : CompactedLog M} (h : s.Ordered) :
    ∃ run, IsRun (LogStep key) s run ∧ produced run = [] ∧ outputs run = s.pending ∧
      (final s run).CaughtUp := by
  generalize hpending : s.pending = pending
  induction pending generalizing s with
  | nil => exact ⟨[], trivial, rfl, rfl, hpending⟩
  | cons m pending ih =>
      obtain ⟨⟨offset, m⟩, rest, hfilter, rfl, _⟩ := List.map_eq_cons_iff.mp hpending
      obtain ⟨before, after, hrecords, hbefore, hoffset, _⟩ := List.filter_eq_cons_iff.mp hfilter
      have hstep : LogStep key s .poll [m] { s with position := offset + 1 } :=
        .poll hrecords (fun r hr => by simpa using hbefore r hr) (by simpa using hoffset)
      have hleft := pending_step h hstep
      simp only [reduceCtorEq, false_and, exists_false, false_or, true_and] at hleft
      obtain ⟨m', _, hleft⟩ := hleft
      rw [hpending] at hleft
      obtain ⟨run, hrun, hproduced, houtputs, hcaught⟩ := ih (h.step hstep) (List.cons.inj hleft).2.symm
      exact ⟨⟨.poll, [m], _⟩ :: run, ⟨hstep, hrun⟩, hproduced, congrArg (m :: ·) houtputs, hcaught⟩

/-- Records with different keys have one of a key at most. -/
lemma filter_eq_of_pairwise [DecidableEq κ] {bs : List M} (h : bs.Pairwise fun b b' => key b ≠ key b')
    (k : κ) : bs.filter (key · = k) = (bs.filter (key · = k)).getLast?.toList := by
  have hfiltered := h.filter fun b => key b = k
  have hkey : ∀ b ∈ bs.filter (key · = k), key b = k := fun b hb => by
    simpa using (List.mem_filter.mp hb).2
  generalize bs.filter (key · = k) = filtered at hfiltered hkey
  match filtered, hfiltered, hkey with
  | [], _, _ => rfl
  | [b], _, _ => rfl
  | b :: b' :: rest, hfiltered, hkey =>
      have hne := (List.pairwise_cons.mp hfiltered).1 b' List.mem_cons_self
      have heq : key b = key b' := (hkey b (by simp)).trans (hkey b' (by simp)).symm
      exact absurd heq hne

/-- **A consumer may find no more than the last record of every key.** -/
theorem exists_compacted [DecidableEq κ] (as : List M) :
    ∃ run, IsRun (LogStep key) CompactedLog.empty run ∧ produced run = as ∧
      (final CompactedLog.empty run).CaughtUp ∧
      ∀ k, (outputs run).filter (key · = k) = (as.filter (key · = k)).getLast?.toList := by
  obtain ⟨producing, hproducing, hproduced, hquiet⟩ :=
    exists_produced key as (CompactedLog.empty : CompactedLog M)
  obtain ⟨cleaning, hcleaning, hnone, hquiet', hdistinct⟩ :=
    exists_cleaned key (final CompactedLog.empty producing)
  have hfirst := isRun_append.mpr ⟨hproducing, hcleaning⟩
  have hordered := (reduces_of_run ordered_empty rfl hfirst).1
  obtain ⟨reading, hreading, hnone', hread, hcaught⟩ := exists_caughtUp key hordered
  have hrun := isRun_append.mpr ⟨hfirst, hreading⟩
  have hreduces := (reduces_of_run ordered_empty rfl hrun).2
  have houtputs : outputs (producing ++ cleaning ++ reading)
      = (final CompactedLog.empty (producing ++ cleaning)).pending := by
    rw [outputs_append, outputs_append, hquiet, hquiet', hread]
    rfl
  have hall : produced (producing ++ cleaning ++ reading) = as := by
    simp only [produced, List.filterMap_append] at hproduced hnone hnone' ⊢
    rw [hproduced, hnone, hnone', List.append_nil, List.append_nil]
  refine ⟨producing ++ cleaning ++ reading, hrun, hall, ?_, fun k => ?_⟩
  · rw [final_append]
    exact hcaught
  · rw [final_append _ (producing ++ cleaning), hcaught, List.append_nil, hall] at hreduces
    rw [← hreduces.last k]
    refine filter_eq_of_pairwise key ?_ k
    rw [houtputs, CompactedLog.pending, List.pairwise_map, final_append]
    exact hdistinct.filter _

end Shortest

end Kafka
