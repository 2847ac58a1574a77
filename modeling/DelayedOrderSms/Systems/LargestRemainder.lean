import Mathlib.Algebra.Order.Floor.Ring
import Mathlib.Algebra.Order.BigOperators.Group.List
import Mathlib.Algebra.BigOperators.Group.List.Basic
import Mathlib.Data.List.Count
import Mathlib.Tactic.Linarith
import Mathlib.Tactic.Lemma

/-!
# Apportionment by largest remainders

The exact shares of some parties add up to a whole number `n`.  Each party gets the whole part of
its share, and what is left goes, one to each, to the parties with the largest fractional parts.

`ranked` lists the parties by fractional part, the largest first.  What makes the method exact is
that the leftover is the sum of the fractional parts, each of them less than one: it never
reaches a party whose share is whole (`fract_ne_zero_of_mem_take`).

* `sum_seats` — the seats add up to `n`.
* `seats_eq_floor_or_ceil` — every party gets its share rounded down or up.
* `fract_le_of_seats` — who is rounded up has no smaller fractional part than who is not.
-/

namespace Systems

variable {α K : Type} [Field K] [LinearOrder K] [IsStrictOrderedRing K] [FloorRing K]

/-- What is left of `n` when every share is rounded down. -/
def leftover (n : ℤ) (share : α → K) (parties : List α) : ℤ :=
  n - (parties.map fun a => ⌊share a⌋).sum

/-- The seats of a party: its share rounded down, and one more for the first `k`. -/
def seats [DecidableEq α] (share : α → K) (ranked : List α) (k : ℕ) (a : α) : ℤ :=
  ⌊share a⌋ + if a ∈ ranked.take k then 1 else 0

/-- The parties are listed by fractional part, the largest first. -/
def Ranked (share : α → K) (ranked : List α) : Prop :=
  ranked.Pairwise fun a b => Int.fract (share b) ≤ Int.fract (share a)

section

variable {share : α → K} {ranked : List α} {n : ℤ}

/-- A sum of shares splits into whole and fractional parts. -/
lemma sum_map_eq_floor_add_fract (share : α → K) (parties : List α) :
    (parties.map share).sum
      = ((parties.map fun a => ⌊share a⌋).sum : ℤ) + (parties.map fun a => Int.fract (share a)).sum := by
  induction parties with
  | nil => simp
  | cons a rest ih =>
      have ha := Int.floor_add_fract (share a)
      simp only [List.map_cons, List.sum_cons, ih]
      push_cast
      linarith

/-- The leftover is the sum of the fractional parts. -/
lemma leftover_eq_sum_fract {parties : List α} (hn : (parties.map share).sum = n) :
    (leftover n share parties : K) = (parties.map fun a => Int.fract (share a)).sum := by
  have h := sum_map_eq_floor_add_fract share parties
  rw [leftover, Int.cast_sub]
  linarith

lemma leftover_nonneg {parties : List α} (hn : (parties.map share).sum = n) :
    0 ≤ leftover n share parties := by
  have h : (0 : K) ≤ (parties.map fun a => Int.fract (share a)).sum :=
    List.sum_nonneg (by simp [Int.fract_nonneg])
  rw [← leftover_eq_sum_fract hn] at h
  exact_mod_cast h

/-- Each fractional part is less than one, so their sum is at most the number of those that are
not zero. -/
lemma sum_fract_le_countP (share : α → K) (parties : List α) :
    (parties.map fun a => Int.fract (share a)).sum
      ≤ (parties.countP fun a => Int.fract (share a) ≠ 0 : ℕ) := by
  induction parties with
  | nil => simp
  | cons a rest ih =>
      rw [List.map_cons, List.sum_cons, List.countP_cons]
      by_cases ha : Int.fract (share a) = 0
      · simpa [ha] using ih
      · have hlt := Int.fract_lt_one (share a)
        simp only [ne_eq, ha, not_false_eq_true, decide_true, if_true]
        push_cast
        linarith

lemma leftover_le_countP {parties : List α} (hn : (parties.map share).sum = n) :
    (leftover n share parties).toNat ≤ parties.countP fun a => Int.fract (share a) ≠ 0 := by
  have h := sum_fract_le_countP share parties
  rw [← leftover_eq_sum_fract hn] at h
  have hle : leftover n share parties ≤ (parties.countP fun a => Int.fract (share a) ≠ 0 : ℕ) := by
    exact_mod_cast h
  omega

/-- Of a ranked list, the first `k` have a fractional part, if at least `k` of all have one. -/
lemma fract_ne_zero_of_mem_take (hr : Ranked share ranked) {k : ℕ}
    (hk : k ≤ ranked.countP fun a => Int.fract (share a) ≠ 0) {a : α} (ha : a ∈ ranked.take k) :
    Int.fract (share a) ≠ 0 := by
  induction ranked generalizing k with
  | nil => simp at ha
  | cons b rest ih =>
      obtain ⟨hb, hrest⟩ := List.pairwise_cons.mp hr
      cases k with
      | zero => simp at ha
      | succ k =>
          -- if the first one had no fractional part, none of the others would have one
          have hfirst : Int.fract (share b) ≠ 0 := by
            intro hzero
            have hall : rest.countP (fun a => Int.fract (share a) ≠ 0) = 0 := by
              rw [List.countP_eq_zero]
              intro c hc
              have hle := hb c hc
              have hge := Int.fract_nonneg (share c)
              rw [hzero] at hle
              simpa using le_antisymm hle hge
            rw [List.countP_cons, hall] at hk
            simp [hzero] at hk
          rw [List.take_succ_cons, List.mem_cons] at ha
          rcases ha with rfl | ha
          · exact hfirst
          · refine ih hrest ?_ ha
            rw [List.countP_cons] at hk
            simp only [ne_eq, hfirst, not_false_eq_true, decide_true, if_true] at hk
            simpa using hk

variable [DecidableEq α]

/-- One for each of the first `k` makes `k`. -/
lemma sum_map_mem_take (hnd : ranked.Nodup) {k : ℕ} (hk : k ≤ ranked.length) :
    (ranked.map fun a => if a ∈ ranked.take k then (1 : ℤ) else 0).sum = k := by
  have hsplit : ∀ a ∈ ranked.drop k, a ∉ ranked.take k := by
    intro a hdrop htake
    rw [← List.take_append_drop k ranked, List.nodup_append] at hnd
    exact hnd.2.2 a htake a hdrop rfl
  have htake : (ranked.take k).map (fun a => if a ∈ ranked.take k then (1 : ℤ) else 0)
      = (ranked.take k).map fun _ => 1 := List.map_congr_left fun a ha => if_pos ha
  have hdrop : (ranked.drop k).map (fun a => if a ∈ ranked.take k then (1 : ℤ) else 0)
      = (ranked.drop k).map fun _ => 0 := List.map_congr_left fun a ha => if_neg (hsplit a ha)
  calc (ranked.map fun a => if a ∈ ranked.take k then (1 : ℤ) else 0).sum
      = ((ranked.take k).map fun a => if a ∈ ranked.take k then (1 : ℤ) else 0).sum
          + ((ranked.drop k).map fun a => if a ∈ ranked.take k then (1 : ℤ) else 0).sum := by
        rw [← List.sum_append, ← List.map_append, List.take_append_drop]
    _ = k := by simp [htake, hdrop, hk]

/-- **The seats add up.** -/
theorem sum_seats (hnd : ranked.Nodup) (hn : (ranked.map share).sum = n) :
    (ranked.map (seats share ranked (leftover n share ranked).toNat)).sum = n := by
  have hk : (leftover n share ranked).toNat ≤ ranked.length :=
    (leftover_le_countP hn).trans List.countP_le_length
  have hnonneg := leftover_nonneg hn
  have hsum : (ranked.map (seats share ranked (leftover n share ranked).toNat)).sum
      = (ranked.map fun a => ⌊share a⌋).sum + (leftover n share ranked).toNat := by
    rw [← sum_map_mem_take hnd hk, ← List.sum_map_add]
    rfl
  rw [hsum, Int.toNat_of_nonneg hnonneg, leftover]
  omega

/-- **Every party gets its share rounded down or up.** -/
theorem seats_eq_floor_or_ceil (hr : Ranked share ranked) (hn : (ranked.map share).sum = n)
    (a : α) :
    seats share ranked (leftover n share ranked).toNat a = ⌊share a⌋
      ∨ seats share ranked (leftover n share ranked).toNat a = ⌈share a⌉ := by
  rw [seats]
  split_ifs with ha
  · right
    have hne := fract_ne_zero_of_mem_take hr (leftover_le_countP hn) ha
    refine ((Int.ceil_eq_floor_add_one_iff_notMem _).mpr ?_).symm
    rintro ⟨z, hz⟩
    exact hne (by rw [← hz, Int.fract_intCast])
  · left
    rw [add_zero]

omit [IsStrictOrderedRing K] in
/-- **Rounding up follows the fractional parts.** -/
theorem fract_le_of_seats (hr : Ranked share ranked) {k : ℕ} {a b : α} (hb : b ∈ ranked)
    (hup : share a < seats share ranked k a) (hdown : (seats share ranked k b : K) ≤ share b) :
    Int.fract (share b) ≤ Int.fract (share a) := by
  have ha : a ∈ ranked.take k := by
    by_contra ha
    rw [seats, if_neg ha, add_zero] at hup
    exact absurd (Int.floor_le (share a)) (not_le.mpr hup)
  have hb' : b ∉ ranked.take k := by
    intro htake
    rw [seats, if_pos htake] at hdown
    exact absurd (Int.lt_floor_add_one (share b)) (not_lt.mpr (by exact_mod_cast hdown))
  rw [Ranked, ← List.take_append_drop k ranked, List.pairwise_append] at hr
  rw [← List.take_append_drop k ranked, List.mem_append] at hb
  exact hr.2.2 a ha b (hb.resolve_left hb')

end

end Systems
