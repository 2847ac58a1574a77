import DelayedOrderSms.Python.Float
import DelayedOrderSms.Simulator.OrderContext
import DelayedOrderSms.Systems.LargestRemainder
import Mathlib.Algebra.BigOperators.Ring.Finset
import Mathlib.Data.List.Nodup
import Mathlib.Data.List.Sort

/-!
# Assigning scenarios to orders

`_assign_scenarios` splits the orders of a mixed run among the scenarios of its distribution, by
largest remainders.  How it divides is an argument: the code divides as floats do (`trueDivision`),
and the split is also of interest with the exact quotients.  `random.choice` takes its numbers from
`draws`.

* `Faithful` — what a division has to keep of the quotients: their whole parts, and the order of
  their fractional parts.  The exact one does, and that of floats for small numbers.
* `assignScenarios_eq` — with integer weights of which one counts, the random branches are not
  taken and what is returned are the seats of the ranked scenarios, in that order.
* `assignScenarios_apportioned` — hence the split is exact and fair.
-/

namespace OrderSimulator

open Python Systems

/-- `random.choice(seq)` -/
def choice {α : Type} (draw : ℕ) (seq : List α) : Except Exception α :=
  match seq[draw % seq.length]? with
  | some item => .ok item
  | none => .error { type := .indexError }

/-- `seq[:stop]` -/
def sliceTo {α : Type} (seq : List α) (stop : ℤ) : List α :=
  if 0 ≤ stop then seq.take stop.toNat else seq.take (seq.length - (-stop).toNat)

/-- The keys of a distribution and the scenarios they stand for. -/
def distributionMapping : Dict String String :=
  [("onTimePercentage", "on-time-orders"),
    ("delayedPercentage", "delayed-orders"),
    ("cancelledPercentage", "cancelled-orders"),
    ("etaUpdatedPercentage", "eta-updated-orders"),
    ("duplicatePercentage", "duplicate-events"),
    ("outOfOrderPercentage", "out-of-order-updates")]

/-- A scenario, its share rounded down, and what the rounding cut off. -/
structure FractionalCount where
  scenarioName : String
  floorCount : ℤ
  fraction : ℚ
  deriving DecidableEq

/-- The scenarios of positive weight that are included, with their weights. -/
def weightedScenarios (mapping : Dict String String) (distribution : Dict String Json)
    (includedScenarios : List String) : Except Exception (List (String × ℤ)) :=
  mapping.foldlM
    (fun weighted entry => do
      let weight ← (distribution.getD entry.1 (.int 0)).toInt
      return if 0 < weight ∧ entry.2 ∈ includedScenarios then weighted ++ [(entry.2, weight)]
        else weighted)
    []

/-- `a / b`, without rounding. -/
def exactDivision (a b : ℤ) : Except Exception ℚ := .ok (a / b)

/-- The share of a scenario.  A float less its whole part is a float again, so that the difference is
not rounded. -/
def fractionalCount (divide : ℤ → ℤ → Except Exception ℚ) (ordersCount totalWeight : ℤ)
    (weighted : String × ℤ) : Except Exception FractionalCount := do
  let exact ← divide (ordersCount * weighted.2) totalWeight
  let floorCount := truncate exact
  return { scenarioName := weighted.1, floorCount, fraction := exact - floorCount }

/-- `fractional_counts.sort(key=.., reverse=True)`: stable, the largest fraction first. -/
def sortByFraction (counts : List FractionalCount) : List FractionalCount :=
  counts.insertionSort fun a b => b.fraction ≤ a.fraction

/-- `assigned_counts[scenario_name] += 1` -/
def assignOneMore (assignedCounts : Dict String ℤ) (count : FractionalCount) :
    Except Exception (Dict String ℤ) := do
  let assigned ← assignedCounts.getItem count.scenarioName
  return assignedCounts.set count.scenarioName (assigned + 1)

/-- `assignments.extend([scenario_name] * assigned_counts[scenario_name])` -/
def extendAssignments (assignedCounts : Dict String ℤ) (assignments : List String)
    (count : FractionalCount) : Except Exception (List String) := do
  let assigned ← assignedCounts.getItem count.scenarioName
  return assignments ++ List.replicate assigned.toNat count.scenarioName

/-- The part of `_assign_scenarios` after the weights are known. -/
def splitOrders (divide : ℤ → ℤ → Except Exception ℚ) (ordersCount : ℤ)
    (weighted : List (String × ℤ)) : Except Exception (List String) := do
  let totalWeight := (weighted.map Prod.snd).sum
  let fractionalCounts ← weighted.mapM (fractionalCount divide ordersCount totalWeight)
  let assignedCounts := fractionalCounts.foldl
    (fun assigned count => Dict.set assigned count.scenarioName count.floorCount) []
  let remaining := ordersCount - (fractionalCounts.map FractionalCount.floorCount).sum
  let ranked := sortByFraction fractionalCounts
  let assignedCounts ← (sliceTo ranked remaining).foldlM assignOneMore assignedCounts
  ranked.foldlM (extendAssignments assignedCounts) []

/-- `[self.random.choice(included_scenarios) for _ in range(self.config.orders_count)]` -/
def randomAssignments (config : SimulatorConfig) (draws : ℕ → ℕ) (includedScenarios : List String) :
    Except Exception (List String) :=
  (List.range config.ordersCount.toNat).mapM fun draw => choice (draws draw) includedScenarios

/-- `_assign_scenarios` -/
def assignScenarios (divide : ℤ → ℤ → Except Exception ℚ) (config : SimulatorConfig)
    (draws : ℕ → ℕ) (mixedScenario : Dict String Json) (includedScenarios : List String) :
    Except Exception (List String) :=
  let distribution := mixedScenario.getD "distribution" (.dict [])
  if !distribution.truthy then randomAssignments config draws includedScenarios
  else
    match distribution with
    | .dict distribution => do
        let weighted ← weightedScenarios distributionMapping distribution includedScenarios
        if weighted = [] then randomAssignments config draws includedScenarios
        else if (weighted.map Prod.snd).sum ≤ 0 then randomAssignments config draws includedScenarios
        else splitOrders divide config.ordersCount weighted
    -- only a dictionary has a `get`
    | _ => .error { type := .attributeError }

/-! ## The loops -/

section

variable {w : String → ℤ} {distribution : Dict String Json} {included : List String}

/-- The scenarios that a distribution can name. -/
def recognised : List String := distributionMapping.map Prod.snd

/-- The distribution gives each scenario it can name a weight, `w`. -/
def HasWeights (distribution : Dict String Json) (w : String → ℤ) : Prop :=
  ∀ entry ∈ distributionMapping, (distribution.getD entry.1 (.int 0)).toInt = .ok (w entry.2)

/-- A scenario that takes part: recognised, included, and of positive weight. -/
def Eligible (included : List String) (w : String → ℤ) (s : String) : Prop :=
  s ∈ recognised ∧ s ∈ included ∧ 0 < w s

/-- The scenarios that take part, in the order of the mapping. -/
def parties (included : List String) (w : String → ℤ) : List String :=
  recognised.filter fun s => 0 < w s ∧ s ∈ included

lemma mem_parties_iff {s : String} : s ∈ parties included w ↔ Eligible included w s := by
  simp only [parties, Eligible, List.mem_filter, decide_eq_true_eq]
  tauto

lemma nodup_parties : (parties included w).Nodup :=
  List.Nodup.filter _ (by decide)

lemma weightedScenarios_eq {mapping : Dict String String}
    (hw : ∀ entry ∈ mapping, (distribution.getD entry.1 (.int 0)).toInt = .ok (w entry.2)) :
    weightedScenarios mapping distribution included
      = .ok (((mapping.map Prod.snd).filter fun s => 0 < w s ∧ s ∈ included).map fun s => (s, w s)) := by
  have hloop : ∀ acc : List (String × ℤ),
      mapping.foldlM
        (fun weighted entry => do
          let weight ← (distribution.getD entry.1 (.int 0)).toInt
          return if 0 < weight ∧ entry.2 ∈ included then weighted ++ [(entry.2, weight)]
            else weighted) acc
        = Except.ok (acc ++ ((mapping.map Prod.snd).filter fun s => 0 < w s ∧ s ∈ included).map
            fun s => (s, w s)) := by
    induction mapping with
    | nil =>
        intro acc
        simp [pure, Except.pure]
    | cons entry rest ih =>
        intro acc
        have hentry := hw entry (by simp)
        have hrest := ih fun e he => hw e (by simp [he])
        rw [List.foldlM_cons, hentry]
        show rest.foldlM _ _ = _
        rw [hrest]
        by_cases hin : 0 < w entry.2 ∧ entry.2 ∈ included
        · simp [hin]
        · simp [hin]
  exact hloop []

end

section

variable {counts : List FractionalCount} {d : Dict String ℤ}

/-- The loop over the first `remaining` scenarios. -/
lemma foldlM_assignOneMore (hnd : (counts.map FractionalCount.scenarioName).Nodup)
    (hd : ∀ count ∈ counts, ∃ assigned, d.get? count.scenarioName = some assigned) :
    ∃ d', counts.foldlM assignOneMore d = .ok d' ∧ ∀ s, d'.get? s
      = (d.get? s).map fun assigned =>
          assigned + if s ∈ counts.map FractionalCount.scenarioName then 1 else 0 := by
  induction counts generalizing d with
  | nil => exact ⟨d, rfl, by simp⟩
  | cons count rest ih =>
      obtain ⟨hfresh, hrest⟩ := List.nodup_cons.mp hnd
      obtain ⟨assigned, hassigned⟩ := hd count (by simp)
      have hstep : assignOneMore d count = .ok (d.set count.scenarioName (assigned + 1)) := by
        rw [assignOneMore, Dict.getItem_eq_ok_iff.mpr hassigned]
        rfl
      have hd' : ∀ count' ∈ rest, ∃ assigned',
          (d.set count.scenarioName (assigned + 1)).get? count'.scenarioName = some assigned' := by
        intro count' hcount'
        rw [Dict.get?_set]
        split_ifs
        · exact ⟨_, rfl⟩
        · exact hd count' (by simp [hcount'])
      obtain ⟨d', hloop, hget⟩ := ih hrest hd'
      refine ⟨d', ?_, ?_⟩
      · rw [List.foldlM_cons, hstep]
        exact hloop
      · intro s
        rw [hget, Dict.get?_set]
        by_cases hs : count.scenarioName = s
        · subst hs
          simp [hassigned, hfresh]
        · simp [hs, Ne.symm hs]

/-- The loop that writes the assignments down. -/
lemma foldlM_extendAssignments {v : String → ℤ} {acc : List String}
    (hv : ∀ count ∈ counts, d.get? count.scenarioName = some (v count.scenarioName)) :
    counts.foldlM (extendAssignments d) acc
      = .ok (acc ++ (counts.map FractionalCount.scenarioName).flatMap fun s =>
          List.replicate (v s).toNat s) := by
  induction counts generalizing acc with
  | nil => simp [pure, Except.pure]
  | cons count rest ih =>
      have hcount := Dict.getItem_eq_ok_iff.mpr (hv count (by simp))
      have hstep : extendAssignments d acc count
          = .ok (acc ++ List.replicate (v count.scenarioName).toNat count.scenarioName) := by
        rw [extendAssignments, hcount]
        rfl
      rw [List.foldlM_cons, hstep]
      show rest.foldlM (extendAssignments d) _ = _
      rw [ih fun count' hcount' => hv count' (by simp [hcount'])]
      simp

/-- A scenario occurs as often as it is written down. -/
lemma count_flatMap_replicate {names : List String} (hnd : names.Nodup) (v : String → ℕ)
    (s : String) :
    (names.flatMap fun name => List.replicate (v name) name).count s
      = if s ∈ names then v s else 0 := by
  induction names with
  | nil => simp
  | cons name rest ih =>
      obtain ⟨hfresh, hrest⟩ := List.nodup_cons.mp hnd
      rw [List.flatMap_cons, List.count_append, ih hrest, List.count_replicate]
      by_cases hs : name = s
      · subst hs
        simp [hfresh]
      · simp [hs, Ne.symm hs]

end

/-! ## The split -/

section

variable {w : String → ℤ} {included : List String} {n : ℤ}

/-- The sum of the weights of the scenarios that take part. -/
def totalWeight (included : List String) (w : String → ℤ) : ℤ := ((parties included w).map w).sum

/-- The exact share of a scenario. -/
def quota (n : ℤ) (included : List String) (w : String → ℤ) (s : String) : ℚ :=
  (n * w s : ℤ) / totalWeight included w

/-- **The division keeps what the split depends on**: `share` is what it computes for the scenarios
that take part. -/
structure Faithful (divide : ℤ → ℤ → Except Exception ℚ) (n : ℤ) (included : List String)
    (w : String → ℤ) (share : String → ℚ) : Prop where
  divide_eq : ∀ s, Eligible included w s → divide (n * w s) (totalWeight included w) = .ok (share s)
  nonneg : ∀ s, Eligible included w s → 0 ≤ share s
  floor_eq : ∀ s, Eligible included w s → ⌊share s⌋ = ⌊quota n included w s⌋
  fract_lt : ∀ s t, Eligible included w s → Eligible included w t →
    Int.fract (quota n included w s) < Int.fract (quota n included w t) →
      Int.fract (share s) < Int.fract (share t)

/-- The counts of the scenarios that take part. -/
def partyCounts (included : List String) (w : String → ℤ) (share : String → ℚ) :
    List FractionalCount :=
  (parties included w).map fun s => ⟨s, ⌊share s⌋, Int.fract (share s)⟩

/-- The same, ranked as the code ranks them. -/
def rankedCounts (included : List String) (w : String → ℤ) (share : String → ℚ) :
    List FractionalCount :=
  sortByFraction (partyCounts included w share)

/-- The scenarios in that order. -/
def ranking (included : List String) (w : String → ℤ) (share : String → ℚ) : List String :=
  (rankedCounts included w share).map FractionalCount.scenarioName

lemma totalWeight_pos (hpos : ∃ s, Eligible included w s) : 0 < totalWeight included w := by
  obtain ⟨s, hs⟩ := hpos
  refine List.sum_pos _ ?_ ?_
  · intro x hx
    obtain ⟨t, ht, rfl⟩ := List.mem_map.mp hx
    exact (mem_parties_iff.mp ht).2.2
  · intro h
    have hmem := mem_parties_iff.mpr hs
    rw [List.map_eq_nil_iff.mp h] at hmem
    simp at hmem

lemma quota_nonneg (hn : 0 ≤ n) (hpos : ∃ s, Eligible included w s) {s : String}
    (hs : Eligible included w s) : 0 ≤ quota n included w s := by
  have hw := hs.2.2
  have ht := totalWeight_pos hpos
  rw [quota]
  positivity

/-- The shares add up to the number of orders. -/
lemma sum_quota (hpos : ∃ s, Eligible included w s) :
    ((parties included w).map (quota n included w)).sum = n := by
  have ht : (totalWeight included w : ℚ) ≠ 0 := by
    have := totalWeight_pos hpos
    exact_mod_cast this.ne'
  have hsum : ∀ names : List String, (names.map (quota n included w)).sum
      = (n * (names.map w).sum : ℤ) / totalWeight included w := by
    intro names
    induction names with
    | nil => simp
    | cons name rest ih =>
        rw [List.map_cons, List.sum_cons, ih, quota, List.map_cons, List.sum_cons]
        push_cast
        ring
  rw [hsum, ← totalWeight]
  push_cast
  field_simp

/-- The exact division keeps it. -/
lemma faithful_exactDivision (hn : 0 ≤ n) :
    Faithful exactDivision n included w (quota n included w) where
  divide_eq _ _ := rfl
  nonneg s hs := quota_nonneg hn ⟨s, hs⟩ hs
  floor_eq _ _ := rfl
  fract_lt _ _ _ _ h := h

/-- A scenario that takes part weighs no more than all of them. -/
lemma le_totalWeight {s : String} (hs : Eligible included w s) : w s ≤ totalWeight included w := by
  refine List.single_le_sum ?_ _ (List.mem_map_of_mem (mem_parties_iff.mpr hs))
  intro x hx
  obtain ⟨t, ht, rfl⟩ := List.mem_map.mp hx
  exact (mem_parties_iff.mp ht).2.2.le

/-- **The division of floats keeps it**, too, while the numbers are small. -/
theorem exists_faithful_trueDivision (hn : 0 ≤ n) (hsmall : n * totalWeight included w < 2 ^ 52) :
    ∃ share, Faithful trueDivision n included w share := by
  obtain ⟨total, htotal⟩ : ∃ total : ℕ, (totalWeight included w).toNat = total := ⟨_, rfl⟩
  have hpart : ∀ s, ∃ r, Eligible included w s →
      totalWeight included w = total ∧ 0 < total ∧
        trueDivision (n * w s) (totalWeight included w) = .ok r ∧ ⌊r⌋ = ⌊quota n included w s⌋ ∧
        |Int.fract r - Int.fract (((n * w s : ℤ) : ℚ) / total)| < 1 / (2 * total) := by
    intro s
    by_cases hs : Eligible included w s
    · have hpositive := totalWeight_pos ⟨s, hs⟩
      have hcast : totalWeight included w = total := by omega
      have hweight := le_totalWeight hs
      have hnonneg : 0 ≤ n * w s := mul_nonneg hn hs.2.2.le
      have hle : n * w s ≤ n * totalWeight included w := mul_le_mul_of_nonneg_left hweight hn
      have htotalSmall : 1 ≤ n * w s → total ≤ 2 ^ 1022 := by
        intro hone
        have hnpos : 1 ≤ n := by
          by_contra hzero
          rw [show n = 0 by omega, zero_mul] at hone
          omega
        have hfactor : totalWeight included w ≤ n * totalWeight included w :=
          le_mul_of_one_le_left hpositive.le hnpos
        have hlt : total < 2 ^ 52 := by
          have hlt : (total : ℤ) < 2 ^ 52 := by omega
          exact_mod_cast hlt
        exact hlt.le.trans (pow_le_pow_right₀ one_le_two (by decide))
      obtain ⟨r, hr, hfloor, hnear⟩ := exists_trueDivision hnonneg (hle.trans_lt hsmall)
        (by omega : 0 < total) htotalSmall
      refine ⟨r, fun _ => ⟨hcast, by omega, by rw [hcast, hr], ?_, hnear⟩⟩
      rw [hfloor, quota, hcast, Int.cast_natCast]
    · exact ⟨0, fun hs' => absurd hs' hs⟩
  choose share hshare using hpart
  refine ⟨share, fun s hs => (hshare s hs).2.2.1, fun s hs => ?_, fun s hs => (hshare s hs).2.2.2.1,
    fun s t hs ht hlt => ?_⟩
  · rw [← Int.floor_nonneg, (hshare s hs).2.2.2.1, Int.floor_nonneg]
    exact quota_nonneg hn ⟨s, hs⟩ hs
  · obtain ⟨hcast, hpositive, _, _, hnear⟩ := hshare s hs
    obtain ⟨_, _, _, _, hnear'⟩ := hshare t ht
    rw [quota, quota, hcast, Int.cast_natCast] at hlt
    exact fract_lt_of_near hpositive hnear hnear' hlt

variable {divide : ℤ → ℤ → Except Exception ℚ} {share : String → ℚ}

lemma mapM_eq_ok {α β : Type} {f : α → Except Exception β} {g : α → β} {l : List α}
    (h : ∀ a ∈ l, f a = .ok (g a)) : l.mapM f = .ok (l.map g) := by
  induction l with
  | nil => rfl
  | cons a rest ih =>
      obtain ⟨ha, hrest⟩ := List.forall_mem_cons.mp h
      rw [List.mapM_cons, ha, ok_bind, ih hrest]
      rfl

/-- What the code computes for the scenarios that take part. -/
lemma mapM_fractionalCount (hf : Faithful divide n included w share) :
    ((parties included w).map fun s => (s, w s)).mapM
        (fractionalCount divide n (totalWeight included w))
      = .ok (partyCounts included w share) := by
  have hcount : ∀ entry ∈ (parties included w).map fun s => (s, w s),
      fractionalCount divide n (totalWeight included w) entry
        = .ok ⟨entry.1, ⌊share entry.1⌋, Int.fract (share entry.1)⟩ := by
    intro entry hentry
    obtain ⟨s, hs, rfl⟩ := List.mem_map.mp hentry
    have heligible := mem_parties_iff.mp hs
    rw [fractionalCount, hf.divide_eq s heligible, ok_bind,
      truncate_of_nonneg (hf.nonneg s heligible)]
    rfl
  rw [mapM_eq_ok hcount, List.map_map]
  rfl

lemma rankedCounts_perm : (rankedCounts included w share).Perm (partyCounts included w share) :=
  List.perm_insertionSort _ _

/-- A ranked count is the share of its scenario, split. -/
lemma of_mem_rankedCounts {count : FractionalCount} (hcount : count ∈ rankedCounts included w share) :
    Eligible included w count.scenarioName ∧ count.floorCount = ⌊share count.scenarioName⌋ ∧
      count.fraction = Int.fract (share count.scenarioName) := by
  obtain ⟨s, hs, rfl⟩ := List.mem_map.mp (rankedCounts_perm.mem_iff.mp hcount)
  exact ⟨mem_parties_iff.mp hs, rfl, rfl⟩

lemma ranking_perm : (ranking included w share).Perm (parties included w) := by
  have hnames : (partyCounts included w share).map FractionalCount.scenarioName
      = parties included w := by
    rw [partyCounts, List.map_map]
    exact List.map_id _
  rw [← hnames]
  exact rankedCounts_perm.map FractionalCount.scenarioName

/-- **The ranking is one by the exact quotients.** -/
lemma ranked_ranking (hf : Faithful divide n included w share) :
    Ranked (quota n included w) (ranking included w share) := by
  have : Std.Total fun a b : FractionalCount => b.fraction ≤ a.fraction :=
    ⟨fun a b => le_total b.fraction a.fraction⟩
  have : IsTrans FractionalCount fun a b => b.fraction ≤ a.fraction :=
    ⟨fun a b c hab hbc => le_trans hbc hab⟩
  have hsorted : (rankedCounts included w share).Pairwise fun a b => b.fraction ≤ a.fraction :=
    List.pairwise_insertionSort _ _
  rw [Ranked, ranking, List.pairwise_map]
  refine hsorted.imp_of_mem ?_
  intro a b ha hb hab
  obtain ⟨heligible, _, hfraction⟩ := of_mem_rankedCounts ha
  obtain ⟨heligible', _, hfraction'⟩ := of_mem_rankedCounts hb
  rw [hfraction, hfraction'] at hab
  by_contra hlt
  exact absurd hab (not_le.mpr (hf.fract_lt _ _ heligible heligible' (not_le.mp hlt)))

lemma sum_quota_ranking (hpos : ∃ s, Eligible included w s) :
    ((ranking included w share).map (quota n included w)).sum = n := by
  rw [(ranking_perm.map _).sum_eq, sum_quota hpos]

lemma nodup_ranking : (ranking included w share).Nodup := ranking_perm.nodup_iff.mpr nodup_parties

/-- The number of orders a scenario gets, if they are ranked like this. -/
def assigned (n : ℤ) (included : List String) (w : String → ℤ) (ranked : List String)
    (s : String) : ℤ :=
  seats (quota n included w) ranked (leftover n (quota n included w) ranked).toNat s

/-- The orders of each of them, one scenario after the other. -/
def written (n : ℤ) (included : List String) (w : String → ℤ) (ranked : List String) : List String :=
  ranked.flatMap fun s => List.replicate (assigned n included w ranked s).toNat s

/-- The leftover is the one of the ranked scenarios. -/
lemma sub_sum_floorCount (hf : Faithful divide n included w share) :
    n - ((partyCounts included w share).map FractionalCount.floorCount).sum
      = leftover n (quota n included w) (ranking included w share) := by
  rw [← (rankedCounts_perm.map FractionalCount.floorCount).sum_eq, leftover, ranking, List.map_map]
  congr 2
  refine List.map_congr_left fun count hcount => ?_
  obtain ⟨heligible, hfloor, _⟩ := of_mem_rankedCounts hcount
  exact hfloor.trans (hf.floor_eq _ heligible)

/-- The dictionary after the first loop: the shares rounded down. -/
lemma get?_floorCounts (hf : Faithful divide n included w share) {s : String}
    (hs : s ∈ ranking included w share) :
    ((partyCounts included w share).foldl (fun assigned count =>
        Dict.set assigned count.scenarioName count.floorCount) []).get? s
      = some ⌊quota n included w s⌋ := by
  have hmem : s ∈ (partyCounts included w share).map FractionalCount.scenarioName :=
    (rankedCounts_perm.map _).mem_iff.mp hs
  rw [Dict.get?_foldl_set FractionalCount.scenarioName FractionalCount.floorCount
    (fun s => ⌊quota n included w s⌋), if_pos hmem]
  intro count hcount
  obtain ⟨heligible, hfloor, _⟩ := of_mem_rankedCounts (rankedCounts_perm.mem_iff.mpr hcount)
  exact hfloor.trans (hf.floor_eq _ heligible)

/-- The dictionary after the second loop: the seats. -/
lemma exists_assigned {d : Dict String ℤ}
    (hd : ∀ s ∈ ranking included w share, d.get? s = some ⌊quota n included w s⌋) :
    ∃ d', ((rankedCounts included w share).take
          (leftover n (quota n included w) (ranking included w share)).toNat).foldlM assignOneMore d
        = .ok d' ∧
      ∀ s ∈ ranking included w share,
        d'.get? s = some (assigned n included w (ranking included w share) s) := by
  set k := (leftover n (quota n included w) (ranking included w share)).toNat with hk
  have htake : ((rankedCounts included w share).take k).map FractionalCount.scenarioName
      = (ranking included w share).take k := by rw [ranking, List.map_take]
  have hnd : (((rankedCounts included w share).take k).map FractionalCount.scenarioName).Nodup := by
    rw [htake]
    exact (List.take_sublist _ _).nodup nodup_ranking
  have hpresent : ∀ count ∈ (rankedCounts included w share).take k,
      ∃ assigned, d.get? count.scenarioName = some assigned := by
    intro count hcount
    exact ⟨_, hd _ (List.mem_map_of_mem (List.mem_of_mem_take hcount))⟩
  obtain ⟨d', hloop, hget⟩ := foldlM_assignOneMore hnd hpresent
  refine ⟨d', hloop, ?_⟩
  intro s hs
  rw [hget, hd s hs, htake]
  rfl

/-- **What is written down** are the seats of the ranked scenarios. -/
theorem splitOrders_eq (hf : Faithful divide n included w share)
    (hpos : ∃ s, Eligible included w s) :
    splitOrders divide n ((parties included w).map fun s => (s, w s))
      = .ok (written n included w (ranking included w share)) := by
  have htotal : (((parties included w).map fun s => (s, w s)).map Prod.snd).sum
      = totalWeight included w := by
    rw [List.map_map]
    rfl
  have hslice : sliceTo (rankedCounts included w share)
      (leftover n (quota n included w) (ranking included w share))
      = (rankedCounts included w share).take
          (leftover n (quota n included w) (ranking included w share)).toNat :=
    if_pos (leftover_nonneg (sum_quota_ranking hpos))
  obtain ⟨d', hloop, hget⟩ := @exists_assigned w included n share _ fun s hs => get?_floorCounts hf hs
  have hwritten : (rankedCounts included w share).foldlM (extendAssignments d') []
      = .ok ([] ++ written n included w (ranking included w share)) := by
    refine foldlM_extendAssignments fun count hcount => ?_
    exact hget _ (List.mem_map_of_mem hcount)
  simp only [splitOrders, htotal, mapM_fractionalCount hf, ok_bind, sub_sum_floorCount hf]
  rw [← rankedCounts, hslice, hloop]
  exact hwritten

lemma mem_ranking_iff {s : String} : s ∈ ranking included w share ↔ Eligible included w s :=
  ranking_perm.mem_iff.trans mem_parties_iff

lemma assigned_nonneg (hn : 0 ≤ n) {s : String} (hs : Eligible included w s) (ranked : List String) :
    0 ≤ assigned n included w ranked s := by
  have hfloor : 0 ≤ ⌊quota n included w s⌋ := Int.floor_nonneg.mpr (quota_nonneg hn ⟨s, hs⟩ hs)
  rw [assigned, seats]
  split_ifs <;> omega

end

/-! ## Exact and fair -/

section

variable {config : SimulatorConfig} {draws : ℕ → ℕ} {mixedScenario distribution : Dict String Json}
  {included : List String} {w : String → ℤ} {divide : ℤ → ℤ → Except Exception ℚ}
  {share : String → ℚ}

/-- The branches of `_assign_scenarios` that draw at random are not taken. -/
theorem assignScenarios_eq (hf : Faithful divide config.ordersCount included w share)
    (hd : mixedScenario.get? "distribution" = some (.dict distribution))
    (hw : HasWeights distribution w) (hpos : ∃ s, Eligible included w s) :
    assignScenarios divide config draws mixedScenario included
      = .ok (written config.ordersCount included w (ranking included w share)) := by
  have hweighted : weightedScenarios distributionMapping distribution included
      = .ok ((parties included w).map fun s => (s, w s)) := weightedScenarios_eq hw
  have htruthy : (Json.dict distribution).truthy = true := by
    obtain ⟨s, hs, _, hpositive⟩ := hpos
    obtain ⟨entry, hentry, rfl⟩ := List.mem_map.mp hs
    have hweight := hw entry hentry
    cases distribution with
    | nil =>
        simp [Dict.getD, Json.toInt] at hweight
        omega
    | cons _ _ => rfl
  have hne : (parties included w).map (fun s => (s, w s)) ≠ [] := by
    obtain ⟨s, hs⟩ := hpos
    intro h
    have hmem := mem_parties_iff.mpr hs
    rw [List.map_eq_nil_iff.mp h] at hmem
    simp at hmem
  have htotal : ¬(((parties included w).map fun s => (s, w s)).map Prod.snd).sum ≤ 0 := by
    rw [List.map_map]
    exact not_le.mpr (totalWeight_pos hpos)
  rw [assignScenarios, Dict.getD, hd]
  simp only [Option.getD_some, htruthy, Bool.not_true, Bool.false_eq_true, if_false, hweighted]
  show (if _ then _ else if _ then _ else _) = _
  rw [if_neg hne, if_neg htotal, splitOrders_eq hf hpos]

/-- **An exact and fair split** of `n` orders: all of them are assigned, each scenario that takes
part gets its quota rounded down or up and the others get nothing, and who is rounded up has no
smaller fractional part than who is not. -/
structure Apportioned (n : ℤ) (eligible : String → Prop) (quota : String → ℚ)
    (assignments : List String) : Prop where
  length_eq : (assignments.length : ℤ) = n
  rounded : ∀ s, eligible s →
    (assignments.count s : ℤ) = ⌊quota s⌋ ∨ (assignments.count s : ℤ) = ⌈quota s⌉
  whole : ∀ s, eligible s → ∀ m : ℤ, quota s = m → (assignments.count s : ℤ) = m
  absent : ∀ s, ¬eligible s → assignments.count s = 0
  fair : ∀ s t, eligible s → eligible t → quota s < assignments.count s →
    (assignments.count t : ℚ) ≤ quota t → Int.fract (quota t) ≤ Int.fract (quota s)

/-- The number of times a scenario that takes part is assigned. -/
lemma count_assignments {n : ℤ} (hn : 0 ≤ n) {s : String} (hs : Eligible included w s) :
    ((written n included w (ranking included w share)).count s : ℤ)
      = assigned n included w (ranking included w share) s := by
  rw [written, count_flatMap_replicate nodup_ranking, if_pos (mem_ranking_iff.mpr hs),
    Int.toNat_of_nonneg (assigned_nonneg hn hs _)]

lemma length_assignments {n : ℤ} (hn : 0 ≤ n) (hpos : ∃ s, Eligible included w s) :
    ((written n included w (ranking included w share)).length : ℤ) = n := by
  have hcast : ((ranking included w share).map fun s =>
        ((assigned n included w (ranking included w share) s).toNat : ℤ))
      = (ranking included w share).map (assigned n included w (ranking included w share)) := by
    refine List.map_congr_left fun s hs => ?_
    exact Int.toNat_of_nonneg (assigned_nonneg hn (mem_ranking_iff.mp hs) _)
  have hsum := sum_seats (@nodup_ranking w included share) (@sum_quota_ranking w included n share hpos)
  rw [written, List.length_flatMap]
  simp only [List.length_replicate]
  rw [Nat.cast_list_sum, List.map_map]
  show ((ranking included w share).map fun s =>
    ((assigned n included w (ranking included w share) s).toNat : ℤ)).sum = n
  rw [hcast]
  exact hsum

/-- **A faithful division splits exactly and fairly**, whatever the weights. -/
theorem apportioned_of_faithful {n : ℤ} (hn : 0 ≤ n) (hf : Faithful divide n included w share)
    (hpos : ∃ s, Eligible included w s) :
    Apportioned n (Eligible included w) (quota n included w)
      (written n included w (ranking included w share)) := by
  have hsum := @sum_quota_ranking w included n share hpos
  have hrounded : ∀ s, assigned n included w (ranking included w share) s = ⌊quota n included w s⌋
      ∨ assigned n included w (ranking included w share) s = ⌈quota n included w s⌉ :=
    seats_eq_floor_or_ceil (ranked_ranking hf) hsum
  constructor
  · exact length_assignments hn hpos
  · intro s hs
    rw [count_assignments hn hs]
    exact hrounded s
  · intro s hs m hm
    rw [count_assignments hn hs]
    have h := hrounded s
    rw [hm, Int.floor_intCast, Int.ceil_intCast] at h
    exact h.elim id id
  · intro s hs
    rw [written, count_flatMap_replicate nodup_ranking, if_neg fun h => hs (mem_ranking_iff.mp h)]
  · intro s t hs ht hup hdown
    have hup' : quota n included w s
        < (assigned n included w (ranking included w share) s : ℚ) := by
      rw [← count_assignments hn hs]
      exact_mod_cast hup
    have hdown' : (assigned n included w (ranking included w share) t : ℚ)
        ≤ quota n included w t := by
      rw [← count_assignments hn ht]
      exact_mod_cast hdown
    exact fract_le_of_seats (ranked_ranking hf) (mem_ranking_iff.mpr ht) hup' hdown'

/-- **The split of a mixed run is exact and fair** with exact quotients, whatever the weights and the
number of orders. -/
theorem assignScenarios_apportioned (hn : 0 ≤ config.ordersCount)
    (hd : mixedScenario.get? "distribution" = some (.dict distribution))
    (hw : HasWeights distribution w) (hpos : ∃ s, Eligible included w s) :
    ∃ assignments,
      assignScenarios exactDivision config draws mixedScenario included = .ok assignments ∧
        Apportioned config.ordersCount (Eligible included w) (quota config.ordersCount included w)
          assignments :=
  ⟨_, assignScenarios_eq (faithful_exactDivision hn) hd hw hpos,
    apportioned_of_faithful hn (faithful_exactDivision hn) hpos⟩

/-- The distribution of `mixed-orders.json`. -/
def mixedDistribution : Dict String Json :=
  [("onTimePercentage", .int 35), ("delayedPercentage", .int 25), ("cancelledPercentage", .int 15),
    ("etaUpdatedPercentage", .int 10), ("duplicatePercentage", .int 10),
    ("outOfOrderPercentage", .int 5)]

/-- Its weights, by scenario. -/
def mixedWeights (s : String) : ℤ :=
  Dict.getD [("on-time-orders", 35), ("delayed-orders", 25), ("cancelled-orders", 15),
    ("eta-updated-orders", 10), ("duplicate-events", 10), ("out-of-order-updates", 5)] s 0

/-- Seven orders, split among the two scenarios that are included. -/
def sevenOrders : SimulatorConfig where
  scenario := "mixed-orders"
  ordersCount := 7
  orderIdPrefix := "ord"
  scaleDelay := .ok
  pauseAfterStep := 0
  pauseDurationSeconds := 0

theorem assignScenarios_sevenOrders :
    ∃ assignments,
      assignScenarios exactDivision sevenOrders id [("distribution", .dict mixedDistribution)]
        ["delayed-orders", "cancelled-orders"] = .ok assignments ∧
      Apportioned 7 (Eligible ["delayed-orders", "cancelled-orders"] mixedWeights)
        (quota 7 ["delayed-orders", "cancelled-orders"] mixedWeights) assignments :=
  assignScenarios_apportioned (by decide) rfl (by unfold HasWeights; decide)
    ⟨"delayed-orders", by decide, by decide, by decide⟩

end

end OrderSimulator
