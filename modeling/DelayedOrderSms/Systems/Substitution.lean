import Mathlib.Data.List.Find
import Mathlib.Data.List.Infix
import Mathlib.Data.List.Induction
import Mathlib.Data.List.Pairwise
import Mathlib.Tactic.Lemma

/-!
# Simultaneous substitution in a text

A table of rules, each a pattern and what stands for it.  `substitute` reads a text from the left
and puts what stands for it in the place of every pattern it meets.

Replacing one pattern after the other gives the same if no replacement makes an occurrence of
another pattern (`Independent`): patterns do not overlap, begin nowhere inside a replacement and do
not run into one.

* `prefix_of_prefix_substitute` — no occurrence is made across the edge of a replacement.
* `foldl_substitute` — one after the other is all at once.
* `substitute_perm` — the order of the rules does not matter.
* `not_infix_substitute`, `substitute_eq_self` — no pattern is left, and a text without patterns
  stays as it is.
-/

namespace Systems

section

variable {α : Type}

/-! ## Rules that do not get in each other's way -/

/-- One of the texts begins with the other. -/
def Compatible (s t : List α) : Prop := s <+: t ∨ t <+: s

lemma compatible_comm {s t : List α} : Compatible s t ↔ Compatible t s := or_comm

lemma compatible_of_prefix_append {p t r : List α} (h : p <+: t ++ r) : Compatible p t :=
  List.prefix_or_prefix_of_prefix h (List.prefix_append t r)

/-- The pattern `p` and the text `w` do not overlap: `p` begins nowhere inside `w`, and does not
run into it from before. -/
structure Clear (p w : List α) : Prop where
  inside : ∀ t, t ≠ [] → t <:+ w → ¬Compatible p t
  across : ∀ t, t ≠ [] → t <:+ p → t ≠ p → ¬Compatible t w

/-- A pattern does not overlap with a text that has neither its first letter nor its last one, and
has a letter that the pattern lacks. -/
lemma clear_of_letters {p w : List α} {a b c : α} (hfirst : p.head? = some a)
    (hlast : p.getLast? = some b) (ha : a ∉ w) (hb : b ∉ w) (hc : c ∈ w) (hc' : c ∉ p) :
    Clear p w := by
  constructor
  · intro t hne ht hcompatible
    obtain ⟨p', rfl⟩ := List.head?_eq_some_iff.mp hfirst
    obtain ⟨d, t', rfl⟩ := List.exists_cons_of_ne_nil hne
    obtain rfl : a = d := by
      rcases hcompatible with h | h
      · exact (List.cons_prefix_cons.mp h).1
      · exact (List.cons_prefix_cons.mp h).1.symm
    exact ha (ht.subset List.mem_cons_self)
  · intro t hne ht _ hcompatible
    rcases hcompatible with h | h
    · -- the last letter of the pattern is in the text
      obtain ⟨u, rfl⟩ := ht
      have hmem : b ∈ t := by
        rw [List.getLast?_append_of_ne_nil u hne] at hlast
        exact List.mem_of_getLast? hlast
      exact hb (h.subset hmem)
    · exact hc' (ht.subset (h.subset hc))

/-- A pattern that begins nowhere in the first part is in the second one if it is anywhere. -/
lemma not_infix_append {p w r : List α} (h : ∀ t, t ≠ [] → t <:+ w → ¬Compatible p t)
    (hr : ¬p <:+: r) : ¬p <:+: w ++ r := by
  induction w with
  | nil => exact hr
  | cons d w ih =>
      rw [List.cons_append, List.infix_cons_iff]
      rintro (hbegins | hinfix)
      · refine h (d :: w) (by simp) (List.suffix_refl _) ?_
        exact compatible_of_prefix_append (by rwa [List.cons_append])
      · exact ih (fun t hne ht => h t hne (ht.trans (List.suffix_cons d w))) hinfix

/-- What lacks a letter ends before it. -/
lemma prefix_append_cons_iff {p u r : List α} {c : α} (h : c ∉ p) :
    p <+: u ++ c :: r ↔ p <+: u := by
  constructor
  · intro hp
    rcases List.prefix_or_prefix_of_prefix hp (List.prefix_append u (c :: r)) with hu | ⟨t, rfl⟩
    · exact hu
    · have ht : t <+: c :: r := (List.prefix_append_right_inj u).mp hp
      cases t with
      | nil => simp
      | cons d t =>
          obtain rfl := (List.cons_prefix_cons.mp ht).1
          exact absurd (List.mem_append_right u List.mem_cons_self) h
  · intro hp
    exact hp.trans (List.prefix_append _ _)

variable {table : List (List α × List α)} {s : List α} {rule : List α × List α}

/-- **The rules are independent**: no pattern begins inside a pattern or where another one begins,
and none overlaps with a replacement. -/
structure Independent (table : List (List α × List α)) : Prop where
  ne_nil : ∀ rule ∈ table, rule.1 ≠ []
  distinct : table.Pairwise fun rule rule' => ¬Compatible rule.1 rule'.1
  apart : ∀ rule ∈ table, ∀ rule' ∈ table,
    ∀ t, t ≠ [] → t <:+ rule'.1 → t ≠ rule'.1 → ¬Compatible rule.1 t
  clear : ∀ rule ∈ table, ∀ rule' ∈ table, Clear rule.1 rule'.2

/-- Some of the rules are independent if all are, as long as none is repeated. -/
lemma Independent.of_subset {table' : List (List α × List α)} (h : Independent table)
    (hsub : table' ⊆ table)
    (hdistinct : table'.Pairwise fun rule rule' => ¬Compatible rule.1 rule'.1) :
    Independent table' where
  ne_nil := fun rule hrule => h.ne_nil rule (hsub hrule)
  distinct := hdistinct
  apart := fun rule hrule rule' hrule' => h.apart rule (hsub hrule) rule' (hsub hrule')
  clear := fun rule hrule rule' hrule' => h.clear rule (hsub hrule) rule' (hsub hrule')

lemma Independent.perm {table' : List (List α × List α)} (h : Independent table)
    (hperm : table.Perm table') : Independent table' := by
  refine h.of_subset hperm.symm.subset ((hperm.pairwise_iff ?_).mp h.distinct)
  intro rule rule' hnot hc
  exact hnot (compatible_comm.mp hc)

lemma Independent.sublist {table' : List (List α × List α)} (h : Independent table)
    (hsub : table'.Sublist table) : Independent table' :=
  h.of_subset hsub.subset (h.distinct.sublist hsub)

/-- Rules that apply at the same place are the same. -/
lemma Independent.eq_of_prefix (h : Independent table) {rule' : List α × List α}
    (hrule : rule ∈ table) (hrule' : rule' ∈ table) (hs : rule.1 <+: s) (hs' : rule'.1 <+: s) :
    rule = rule' := by
  by_contra hne
  have : Std.Symm fun rule rule' : List α × List α => ¬Compatible rule.1 rule'.1 :=
    ⟨fun _ _ hnot hc => hnot (compatible_comm.mp hc)⟩
  exact h.distinct.forall hrule hrule' hne (List.prefix_or_prefix_of_prefix hs hs')

end

section

variable {α : Type} [DecidableEq α]

/-- The rule that applies at the beginning of a text. -/
def ruleAt (table : List (List α × List α)) (s : List α) : Option (List α × List α) :=
  table.find? fun rule => rule.1.isPrefixOf s

/-- The text with its patterns replaced; the first `skip` letters are the rest of a pattern that
has been. -/
def scan (table : List (List α × List α)) (skip : ℕ) : List α → List α
  | [] => []
  | c :: cs =>
      match skip with
      | skip + 1 => scan table skip cs
      | 0 =>
          match ruleAt table (c :: cs) with
          | some rule => rule.2 ++ scan table (rule.1.length - 1) cs
          | none => c :: scan table 0 cs

/-- **Simultaneous substitution.** -/
def substitute (table : List (List α × List α)) (s : List α) : List α := scan table 0 s

example : substitute [("ab".toList, "b".toList), ("b".toList, "a".toList)] "abb".toList
    = "ba".toList := by decide

/-! ## What applies where -/

variable {table : List (List α × List α)} {s : List α} {rule : List α × List α}

lemma ruleAt_eq_none_iff : ruleAt table s = none ↔ ∀ rule ∈ table, ¬rule.1 <+: s := by
  simp [ruleAt, List.isPrefixOf_iff_prefix]

lemma mem_of_ruleAt (h : ruleAt table s = some rule) : rule ∈ table := List.mem_of_find?_eq_some h

lemma prefix_of_ruleAt (h : ruleAt table s = some rule) : rule.1 <+: s :=
  List.isPrefixOf_iff_prefix.mp
    (List.find?_some (p := fun rule : List α × List α => rule.1.isPrefixOf s) h)

lemma scan_eq (skip : ℕ) (s : List α) : scan table skip s = substitute table (s.drop skip) := by
  induction s generalizing skip with
  | nil => simp [scan, substitute]
  | cons c cs ih =>
      cases skip with
      | zero => rfl
      | succ skip => exact ih skip

@[simp] lemma substitute_nil : substitute table [] = [] := rfl

lemma substitute_of_ruleAt {r : List α} (h : ruleAt table (rule.1 ++ r) = some rule)
    (hne : rule.1 ≠ []) : substitute table (rule.1 ++ r) = rule.2 ++ substitute table r := by
  obtain ⟨c, cs, hc⟩ := List.exists_cons_of_ne_nil hne
  rw [hc, List.cons_append] at h
  rw [hc, List.cons_append, substitute, scan, h]
  simp only [scan_eq, hc, List.length_cons, Nat.add_sub_cancel, List.drop_left]

lemma substitute_of_ruleAt_none {c : α} {cs : List α} (h : ruleAt table (c :: cs) = none) :
    substitute table (c :: cs) = c :: substitute table cs := by
  rw [substitute, scan, h]
  rfl

/-- A part of the text in which no rule applies is kept. -/
lemma substitute_append {u r : List α}
    (h : ∀ t, t ≠ [] → t <:+ u → ruleAt table (t ++ r) = none) :
    substitute table (u ++ r) = u ++ substitute table r := by
  induction u with
  | nil => rfl
  | cons c cs ih =>
      have hhead := h (c :: cs) (by simp) (List.suffix_refl _)
      have htail := ih fun t hne ht => h t hne (ht.trans (List.suffix_cons c cs))
      rw [List.cons_append] at hhead ⊢
      rw [substitute_of_ruleAt_none hhead, htail, List.cons_append]

/-- Behind a letter that no pattern has, the reading starts anew. -/
lemma scan_append_cons {c : α} (h : ∀ rule ∈ table, rule.1 ≠ [] ∧ c ∉ rule.1) (r : List α)
    {u : List α} {skip : ℕ} (hskip : skip ≤ u.length) :
    scan table skip (u ++ c :: r) = scan table skip u ++ c :: substitute table r := by
  have hbegins : ∀ u, ruleAt table (u ++ c :: r) = ruleAt table u := by
    intro u
    refine List.find?_congr fun rule hrule => ?_
    rw [Bool.eq_iff_iff, List.isPrefixOf_iff_prefix, List.isPrefixOf_iff_prefix]
    exact prefix_append_cons_iff (h rule hrule).2
  induction u generalizing skip with
  | nil =>
      obtain rfl : skip = 0 := Nat.le_zero.mp hskip
      have hnone : ruleAt table (c :: r) = none := by
        have hempty := hbegins []
        rw [List.nil_append] at hempty
        rw [hempty, ruleAt_eq_none_iff]
        intro rule hrule hnil
        exact (h rule hrule).1 (List.prefix_nil.mp hnil)
      exact substitute_of_ruleAt_none hnone
  | cons d u ih =>
      cases skip with
      | succ skip => exact ih (Nat.le_of_succ_le_succ hskip)
      | zero =>
          have hrule := hbegins (d :: u)
          rw [List.cons_append] at hrule ⊢
          rw [scan, scan, hrule]
          cases happlied : ruleAt table (d :: u) with
          | none => simp [ih (Nat.zero_le _)]
          | some applied =>
              have hlength := (prefix_of_ruleAt happlied).length_le
              rw [List.length_cons] at hlength
              have hskipped : applied.1.length - 1 ≤ u.length := by omega
              simp [ih hskipped]

lemma substitute_append_cons {c : α} (h : ∀ rule ∈ table, rule.1 ≠ [] ∧ c ∉ rule.1)
    (u r : List α) :
    substitute table (u ++ c :: r) = substitute table u ++ c :: substitute table r :=
  scan_append_cons h r (Nat.zero_le _)

/-- **A text without patterns stays as it is.** -/
theorem substitute_eq_self (h : ∀ rule ∈ table, ¬rule.1 <:+: s) : substitute table s = s := by
  have hkept : substitute table (s ++ []) = s ++ substitute table [] := by
    refine substitute_append fun t _ ht => ruleAt_eq_none_iff.mpr fun rule hrule hbegins => ?_
    rw [List.append_nil] at hbegins
    exact h rule hrule (hbegins.isInfix.trans ht.isInfix)
  simpa using hkept

lemma Independent.ruleAt_eq_some_iff (h : Independent table) :
    ruleAt table s = some rule ↔ rule ∈ table ∧ rule.1 <+: s := by
  constructor
  · intro hrule
    exact ⟨mem_of_ruleAt hrule, prefix_of_ruleAt hrule⟩
  · rintro ⟨hmem, hbegins⟩
    cases hrule : ruleAt table s with
    | none => exact absurd hbegins (ruleAt_eq_none_iff.mp hrule rule hmem)
    | some rule' =>
        rw [h.eq_of_prefix hmem (mem_of_ruleAt hrule) hbegins (prefix_of_ruleAt hrule)]

/-- Where a rule applies, it is used and the reading goes on behind its pattern. -/
lemma Independent.substitute_cons (h : Independent table) (hrule : rule ∈ table) (r : List α) :
    substitute table (rule.1 ++ r) = rule.2 ++ substitute table r :=
  substitute_of_ruleAt (h.ruleAt_eq_some_iff.mpr ⟨hrule, List.prefix_append _ _⟩)
    (h.ne_nil rule hrule)

/-- A pattern stands for its replacement. -/
lemma Independent.substitute_pattern (h : Independent table) (hrule : rule ∈ table) :
    substitute table rule.1 = rule.2 := by
  simpa using h.substitute_cons hrule []

/-- **No occurrence is made across the edge of a replacement.**  What begins with the end of a
pattern after the substitution did so before. -/
theorem prefix_of_prefix_substitute {p : List α} (h : ∀ rule ∈ table, Clear p rule.2) {t : List α}
    (hsuffix : t <:+ p) (hne : t ≠ p) (hbegins : t <+: substitute table s) : t <+: s := by
  induction s generalizing t with
  | nil => exact hbegins
  | cons c cs ih =>
      cases t with
      | nil => exact List.nil_prefix
      | cons d t =>
          cases hrule : ruleAt table (c :: cs) with
          | some rule =>
              have hmem := mem_of_ruleAt hrule
              rw [substitute, scan, hrule] at hbegins
              exact absurd (compatible_of_prefix_append hbegins)
                ((h rule hmem).across _ (by simp) hsuffix hne)
          | none =>
              rw [substitute_of_ruleAt_none hrule] at hbegins
              obtain ⟨rfl, htail⟩ := List.cons_prefix_cons.mp hbegins
              refine List.cons_prefix_cons.mpr ⟨rfl, ih ?_ ?_ htail⟩
              · exact (List.suffix_cons d t).trans hsuffix
              · rintro rfl
                exact absurd hsuffix.length_le (by simp)

/-- A pattern at a letter that is kept was there before. -/
lemma prefix_of_prefix_cons {p : List α} (h : ∀ rule ∈ table, Clear p rule.2) {c : α}
    {cs : List α} (hbegins : p <+: c :: substitute table cs) : p <+: c :: cs := by
  cases p with
  | nil => exact List.nil_prefix
  | cons d t =>
      obtain ⟨rfl, htail⟩ := List.cons_prefix_cons.mp hbegins
      refine List.cons_prefix_cons.mpr ⟨rfl, ?_⟩
      exact prefix_of_prefix_substitute h (List.suffix_cons d t) (by simp) htail

/-- **Induction along the reading**: pattern by pattern, and letter by letter where none begins. -/
theorem Independent.reading_induction (h : Independent table) {motive : List α → Prop}
    (nil : motive [])
    (rule : ∀ rule ∈ table, ∀ r, motive r → motive (rule.1 ++ r))
    (kept : ∀ c cs, ruleAt table (c :: cs) = none → motive cs → motive (c :: cs)) :
    ∀ s, motive s := by
  intro s
  induction hn : s.length using Nat.strong_induction_on generalizing s with
  | _ n ih =>
      subst hn
      cases s with
      | nil => exact nil
      | cons c cs =>
          cases hrule : ruleAt table (c :: cs) with
          | none => exact kept c cs hrule (ih _ (by simp) cs rfl)
          | some applied =>
              have hmem := mem_of_ruleAt hrule
              obtain ⟨r, hr⟩ := prefix_of_ruleAt hrule
              have hpos := List.length_pos_of_ne_nil (h.ne_nil applied hmem)
              rw [← hr]
              refine rule applied hmem r (ih _ ?_ r rfl)
              rw [← hr, List.length_append]
              omega

/-- **No pattern is left.** -/
theorem Independent.not_infix_substitute (h : Independent table) (hrule : rule ∈ table)
    (s : List α) : ¬rule.1 <:+: substitute table s := by
  have hclear : ∀ rule' ∈ table, Clear rule.1 rule'.2 := h.clear rule hrule
  induction s using h.reading_induction with
  | nil =>
      rw [substitute_nil, List.infix_nil]
      exact h.ne_nil rule hrule
  | rule applied happlied r ih =>
      rw [h.substitute_cons happlied]
      exact not_infix_append (hclear applied happlied).inside ih
  | kept c cs hnone ih =>
      rw [substitute_of_ruleAt_none hnone, List.infix_cons_iff]
      rintro (hbegins | hinfix)
      · exact ruleAt_eq_none_iff.mp hnone rule hrule (prefix_of_prefix_cons hclear hbegins)
      · exact ih hinfix

/-- **The order of the rules does not matter.** -/
theorem Independent.substitute_perm (h : Independent table) {table' : List (List α × List α)}
    (hperm : table.Perm table') (s : List α) : substitute table' s = substitute table s := by
  have h' := h.perm hperm
  induction s using h.reading_induction with
  | nil => rfl
  | rule applied happlied r ih =>
      rw [h.substitute_cons happlied, h'.substitute_cons (hperm.mem_iff.mp happlied), ih]
  | kept c cs hnone ih =>
      have hnone' : ruleAt table' (c :: cs) = none := by
        rw [ruleAt_eq_none_iff] at hnone ⊢
        intro rule hrule
        exact hnone rule (hperm.mem_iff.mpr hrule)
      rw [substitute_of_ruleAt_none hnone, substitute_of_ruleAt_none hnone', ih]

/-! ## One after the other -/

/-- One more rule, applied to what the others leave. -/
lemma Independent.substitute_concat (h : Independent (table ++ [rule])) (s : List α) :
    substitute [rule] (substitute table s) = substitute (table ++ [rule]) s := by
  have htable : Independent table := h.sublist (List.sublist_append_left _ _)
  have hlast : Independent [rule] := h.sublist (List.sublist_append_right _ _)
  have hrule : rule ∈ table ++ [rule] := by simp
  have hclear : ∀ rule' ∈ table, Clear rule.1 rule'.2 := fun rule' hrule' =>
    h.clear rule hrule rule' (List.mem_append_left _ hrule')
  induction s using h.reading_induction with
  | nil => rfl
  | rule applied happlied r ih =>
      rw [h.substitute_cons happlied, ← ih]
      rcases List.mem_append.mp happlied with hmem | hmem
      · rw [htable.substitute_cons hmem]
        refine substitute_append fun t hne ht => ruleAt_eq_none_iff.mpr ?_
        intro rule' hrule' hbegins
        rw [List.mem_singleton.mp hrule'] at hbegins
        exact (hclear applied hmem).inside t hne ht (compatible_of_prefix_append hbegins)
      · -- the others do not touch the new pattern
        obtain rfl := List.mem_singleton.mp hmem
        have hkept : substitute table (applied.1 ++ r) = applied.1 ++ substitute table r := by
          refine substitute_append fun t hne ht => ruleAt_eq_none_iff.mpr ?_
          intro rule' hrule' hbegins
          have hcompatible := compatible_of_prefix_append hbegins
          by_cases hwhole : t = applied.1
          · rw [hwhole] at hcompatible
            exact (List.pairwise_append.mp h.distinct).2.2 rule' hrule' applied hmem hcompatible
          · exact h.apart rule' (List.mem_append_left _ hrule') applied hrule t hne ht hwhole
              hcompatible
        rw [hkept, hlast.substitute_cons (List.mem_singleton_self _)]
  | kept c cs hnone ih =>
      have hall := ruleAt_eq_none_iff.mp hnone
      have hnone' : ruleAt table (c :: cs) = none :=
        ruleAt_eq_none_iff.mpr fun rule' hrule' => hall rule' (List.mem_append_left _ hrule')
      have hlast' : ruleAt [rule] (c :: substitute table cs) = none := by
        rw [ruleAt_eq_none_iff]
        intro rule' hrule' hbegins
        rw [List.mem_singleton.mp hrule'] at hbegins
        exact hall rule hrule (prefix_of_prefix_cons hclear hbegins)
      rw [substitute_of_ruleAt_none hnone, substitute_of_ruleAt_none hnone',
        substitute_of_ruleAt_none hlast', ih]

/-- **One after the other is all at once.** -/
theorem Independent.foldl_substitute (h : Independent table) (s : List α) :
    table.foldl (fun s rule => substitute [rule] s) s = substitute table s := by
  induction table using List.reverseRecOn with
  | nil => exact (substitute_eq_self (by simp)).symm
  | append_singleton table rule ih =>
      rw [List.foldl_append, ih (h.sublist (List.sublist_append_left _ _))]
      exact h.substitute_concat s

end

end Systems
