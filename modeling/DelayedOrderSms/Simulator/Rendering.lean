import DelayedOrderSms.Simulator.OrderContext
import DelayedOrderSms.Simulator.TemplateRenderer
import DelayedOrderSms.Simulator.TimeReaders
import DelayedOrderSms.Systems.Substitution

/-!
# Rendering is simultaneous substitution

The renderer replaces one placeholder after the other.  The identifiers it puts in their place have
no braces and contain a dash, so they overlap with no placeholder, and the placeholders do not
overlap with each other: what is rendered is what a simultaneous substitution gives.

* `renderTemplateValue_eq` — for any entries whose rules are independent.
* `independent_rules_of_plain` — those of an order context are.
* `parseDynamicTime_eq_self_of_dashes` — an order id has two dashes, a time expression at most one.
* `rendersSimultaneously` — what follows for the tree of an event.
-/

namespace OrderSimulator

open Python Systems Regex

/-! ## One value -/

/-- What stands for an entry in a template. -/
def placeholder (name : String) : String := r"{{" ++ name ++ r"}}"

/-- The entries of a context as rules on texts. -/
def rules (entries : Dict String String) : List (List Char × List Char) :=
  entries.map fun entry => ((placeholder entry.1).toList, entry.2.toList)

/-- All placeholders replaced at once. -/
def substituteAll (entries : Dict String String) (value : String) : String :=
  String.ofList (substitute (rules entries) value.toList)

lemma replaceChars_eq_scan (old new : List Char) (skip : ℕ) (s : List Char) :
    replaceChars old new skip s = scan [(old, new)] skip s := by
  induction s generalizing skip with
  | nil => rfl
  | cons c cs ih =>
      cases skip with
      | succ skip => exact ih skip
      | zero =>
          rw [replaceChars, scan, ruleAt]
          by_cases h : old.isPrefixOf (c :: cs)
          · simp [h, ih]
          · simp [h, ih]

lemma toList_replace (s old new : String) :
    (replace s old new).toList = substitute [(old.toList, new.toList)] s.toList := by
  rw [replace, String.toList_ofList, replaceChars_eq_scan, substitute]

/-- The loop over the entries, on texts. -/
lemma toList_renderTemplateValue (entries : Dict String String) (value : String) :
    (renderTemplateValue value entries).toList
      = (rules entries).foldl (fun s rule => substitute [rule] s) value.toList := by
  induction entries generalizing value with
  | nil => rfl
  | cons entry rest ih =>
      rw [renderTemplateValue, List.foldl_cons, ← renderTemplateValue, ih, toList_replace]
      rfl

/-- **Successive replacement is simultaneous** where the placeholders are independent. -/
theorem renderTemplateValue_eq {entries : Dict String String} (h : Independent (rules entries))
    (value : String) : renderTemplateValue value entries = substituteAll entries value := by
  rw [substituteAll, ← h.foldl_substitute, ← toList_renderTemplateValue, String.ofList_toList]

/-! ## The identifiers of an order -/

/-- The placeholders of an order context. -/
def placeholders : List (List Char) :=
  ["orderId", "customerId", "storeId"].map fun name => (placeholder name).toList

lemma placeholders_apart : ∀ p ∈ placeholders, ∀ q ∈ placeholders, ∀ t ∈ q.tails,
    t ≠ [] → p <+: t ∨ t <+: p → t = q ∧ p = q := by
  decide +kernel

lemma placeholders_letters : ∀ p ∈ placeholders,
    p.head? = some '{' ∧ p.getLast? = some '}' ∧ '-' ∉ p := by
  decide +kernel

/-- A text that overlaps with no placeholder: it has no braces, and a dash. -/
structure Plain (w : List Char) : Prop where
  no_open : '{' ∉ w
  no_close : '}' ∉ w
  dash : '-' ∈ w

lemma Plain.append {u v : List Char} (hu : ∀ c ∈ u, c ≠ '{' ∧ c ≠ '}') (hv : Plain v) :
    Plain (u ++ v) where
  no_open := by
    rw [List.mem_append, not_or]
    exact ⟨fun hc => (hu _ hc).1 rfl, hv.no_open⟩
  no_close := by
    rw [List.mem_append, not_or]
    exact ⟨fun hc => (hu _ hc).2 rfl, hv.no_close⟩
  dash := List.mem_append_right _ hv.dash

lemma ne_brace_of_isDigit {c : Char} (h : c.isDigit) : c ≠ '{' ∧ c ≠ '}' := by
  constructor
  · rintro rfl
    simp at h
  · rintro rfl
    simp at h

lemma plain_dash_padded (width n : ℕ) : Plain ('-' :: Datetime.padded width n) := by
  have hbrace : ∀ c ∈ '-' :: Datetime.padded width n, c ≠ '{' ∧ c ≠ '}' := by
    rw [List.forall_mem_cons]
    exact ⟨by decide, fun c hc => ne_brace_of_isDigit (Datetime.isDigit_of_mem_padded hc)⟩
  exact ⟨fun hc => (hbrace _ hc).1 rfl, fun hc => (hbrace _ hc).2 rfl, List.mem_cons_self⟩

lemma isAlnum_or_dash_of_mem_dashRuns {inRun : Bool} {s : List Char} {c : Char}
    (h : c ∈ dashRuns inRun s) : isAlnum c ∨ c = '-' := by
  induction s generalizing inRun with
  | nil => simp [dashRuns] at h
  | cons d rest ih =>
      rw [dashRuns] at h
      split_ifs at h with halnum hrun
      · rcases List.mem_cons.mp h with rfl | hrest
        · exact .inl halnum
        · exact ih hrest
      · exact ih h
      · rcases List.mem_cons.mp h with rfl | hrest
        · exact .inr rfl
        · exact ih hrest

lemma toNat_lt_of_isAlnum {c : Char} (h : isAlnum c) : c.toNat < 128 := by
  have hval : c.toNat = c.val.toNat := rfl
  have hz : 'z'.val.toNat = 122 := rfl
  have hZ : 'Z'.val.toNat = 90 := rfl
  have hnine : '9'.val.toNat = 57 := rfl
  rw [isAlnum, Bool.or_eq_true, Bool.or_eq_true] at h
  rcases h with (hlower | hupper) | hdigit
  · have hle := UInt32.le_iff_toNat_le.mp (of_decide_eq_true (Bool.and_eq_true_iff.mp hlower).2)
    omega
  · have hle := UInt32.le_iff_toNat_le.mp (of_decide_eq_true hupper).2
    omega
  · have hle := UInt32.le_iff_toNat_le.mp (of_decide_eq_true (Bool.and_eq_true_iff.mp hdigit).2)
    omega

lemma toLower_ne_brace {c : Char} (h : isAlnum c ∨ c = '-') :
    c.toLower ≠ '{' ∧ c.toLower ≠ '}' := by
  have hall : ∀ n < 128, isAlnum (Char.ofNat n) ∨ Char.ofNat n = '-' →
      (Char.ofNat n).toLower ≠ '{' ∧ (Char.ofNat n).toLower ≠ '}' := by decide +kernel
  have hc : c.toNat < 128 := by
    rcases h with h | rfl
    · exact toNat_lt_of_isAlnum h
    · decide
  rw [← Char.ofNat_toNat c] at h ⊢
  exact hall _ hc h

/-- A normalised name has no braces. -/
lemma ne_brace_of_mem_normalizeName {value : String} {c : Char}
    (h : c ∈ (normalizeName value).toList) : c ≠ '{' ∧ c ≠ '}' := by
  simp only [normalizeName, String.toList_ofList, List.mem_map, List.mem_reverse] at h
  obtain ⟨d, hd, rfl⟩ := h
  have hd' := List.mem_reverse.mp ((List.dropWhile_suffix _).subset hd)
  exact toLower_ne_brace (isAlnum_or_dash_of_mem_dashRuns ((List.dropWhile_suffix _).subset hd'))

section

variable {config : SimulatorConfig}

/-- The order id of a context. -/
lemma toList_orderId (config : SimulatorConfig) (now : Datetime) (orderIndex : ℕ)
    (scenarioName : String) :
    (createOrderContext config now orderIndex scenarioName).orderId.toList
      = config.orderIdPrefix.toList ++ '-' :: ((normalizeName scenarioName).toList
        ++ '-' :: Datetime.padded 4 orderIndex) := by
  simp [createOrderContext, String.toList_append]

/-- **The identifiers of an order are plain**, if the prefix has no braces. -/
theorem plain_of_mem_asTemplateContext
    (hbraces : ∀ c ∈ config.orderIdPrefix.toList, c ≠ '{' ∧ c ≠ '}') (now : Datetime)
    (orderIndex : ℕ) (scenarioName : String) :
    ∀ entry ∈ (createOrderContext config now orderIndex scenarioName).asTemplateContext,
      Plain entry.2.toList := by
  simp only [OrderContext.asTemplateContext, List.forall_mem_cons, List.not_mem_nil, false_imp_iff,
    implies_true, and_true]
  refine ⟨?_, ?_, ?_⟩
  · rw [toList_orderId]
    refine Plain.append hbraces ?_
    rw [← List.cons_append]
    refine Plain.append ?_ (plain_dash_padded 4 orderIndex)
    rw [List.forall_mem_cons]
    exact ⟨by decide, fun c hc => ne_brace_of_mem_normalizeName hc⟩
  · simp only [createOrderContext, String.toList_append, String.toList_ofList]
    exact Plain.append (u := ['c', 'u', 's']) (by simp) (plain_dash_padded 4 orderIndex)
  · simp only [createOrderContext, String.toList_append, String.toList_ofList]
    exact Plain.append (u := ['s', 't', 'o', 'r', 'e']) (by simp) (plain_dash_padded 3 _)

/-- Plain identifiers in the place of the placeholders of an order context. -/
lemma independent_rules_of_plain {context : OrderContext}
    (h : ∀ entry ∈ context.asTemplateContext, Plain entry.2.toList) :
    Independent (rules context.asTemplateContext) := by
  have hmem : ∀ rule ∈ rules context.asTemplateContext,
      rule.1 ∈ placeholders ∧ Plain rule.2 := by
    intro rule hrule
    obtain ⟨entry, hentry, rfl⟩ := List.mem_map.mp hrule
    have hname : entry.1 ∈ ["orderId", "customerId", "storeId"] := by
      simp only [OrderContext.asTemplateContext, List.mem_cons, List.not_mem_nil, or_false]
        at hentry
      rcases hentry with rfl | rfl | rfl <;> simp
    exact ⟨List.mem_map_of_mem hname, h entry hentry⟩
  have hne : ∀ p ∈ placeholders, p ≠ [] := by decide +kernel
  constructor
  · intro rule hrule
    exact hne _ (hmem rule hrule).1
  · have hnames : placeholders.Pairwise fun p q => ¬(p <+: q ∨ q <+: p) := by decide +kernel
    have hfst : (rules context.asTemplateContext).map Prod.fst = placeholders := by
      simp [rules, placeholders, OrderContext.asTemplateContext]
    rw [← hfst, List.pairwise_map] at hnames
    exact hnames
  · intro rule hrule rule' hrule' t ht hsuffix hproper hcompatible
    exact hproper (placeholders_apart _ (hmem rule hrule).1 _ (hmem rule' hrule').1 t
      ((List.mem_tails _ _).mpr hsuffix) ht hcompatible).1
  · intro rule hrule rule' hrule'
    obtain ⟨hfirst, hlast, hdash⟩ := placeholders_letters _ (hmem rule hrule).1
    have hplain := (hmem rule' hrule').2
    exact clear_of_letters hfirst hlast hplain.no_open hplain.no_close hplain.dash hdash

end

/-! ## Time expressions -/

/-- A time expression has no more than one dash, the sign. -/
lemma count_dash_text (e : TimeExpression) {rest : List Char} (hrest : Ending rest) :
    (e.text ++ rest).count '-' ≤ 1 := by
  have hdigits : e.digits.count '-' = 0 := by
    rw [List.count_eq_zero]
    intro hmem
    have hdigit := e.isDigit_of_mem _ hmem
    simp [isDigit, digit?_eq_none (.inr (.inr (.inr rfl)))] at hdigit
  have hsign : (e.sign.elim [] Sign.text).count '-' ≤ 1 := by
    rcases e.sign with _ | _ | _ <;> decide
  have hunit : (e.unit.elim [] TimeUnit.text).count '-' = 0 := by
    rcases e.unit with _ | _ | _ <;> decide
  have hnow : "now".toList.count '-' = 0 := by decide
  have hend : rest.count '-' = 0 := by
    rcases hrest with rfl | rfl <;> decide
  simp only [TimeExpression.text, TimeExpression.body, List.count_append]
  omega

/-- **What has two dashes is no time expression.** -/
theorem parseDynamicTime_eq_self_of_dashes {value : String} (h : 1 < value.toList.count '-')
    (baseTime : Datetime) : parseDynamicTime value baseTime = .ok value := by
  have hexec : timeExpressionPattern.exec value.toList = none := by
    refine exec_eq_none fun e rest hrest htext => ?_
    have hcount := count_dash_text e hrest
    rw [← htext] at hcount
    omega
  simp [parseDynamicTime, hexec]

lemma one_lt_count_dash (u v w : List Char) :
    1 < (u ++ '-' :: (v ++ '-' :: w)).count '-' := by
  simp only [List.count_append, List.count_cons_self]
  omega

/-- Nor is what begins with another letter than `now`. -/
lemma parseDynamicTime_eq_self_of_head {value : String} (h : value.toList.head? ≠ some 'n')
    (baseTime : Datetime) : parseDynamicTime value baseTime = .ok value := by
  have hexec : timeExpressionPattern.exec value.toList = none := by
    refine exec_eq_none fun e rest _ htext => h ?_
    rw [htext]
    rfl
  simp [parseDynamicTime, hexec]

/-- **No generated identifier reads as a time expression.** -/
theorem parseDynamicTime_of_mem_asTemplateContext (config : SimulatorConfig) (now : Datetime)
    (orderIndex : ℕ) (scenarioName : String) (baseTime : Datetime) :
    ∀ entry ∈ (createOrderContext config now orderIndex scenarioName).asTemplateContext,
      parseDynamicTime entry.2 baseTime = .ok entry.2 := by
  simp only [OrderContext.asTemplateContext, List.forall_mem_cons, List.not_mem_nil, false_imp_iff,
    implies_true, and_true]
  refine ⟨?_, ?_, ?_⟩
  · refine parseDynamicTime_eq_self_of_dashes ?_ baseTime
    rw [toList_orderId]
    exact one_lt_count_dash _ _ _
  · refine parseDynamicTime_eq_self_of_head ?_ baseTime
    simp [createOrderContext, String.toList_append]
  · refine parseDynamicTime_eq_self_of_head ?_ baseTime
    simp [createOrderContext, String.toList_append]

/-! ## A tree -/

/-- **Rendering is simultaneous substitution**, in every string of a tree and nowhere else. -/
structure RendersSimultaneously (payload : Json) (context : OrderContext) : Prop where
  substituted : payload.Rel (fun s t => t = substituteAll context.asTemplateContext s)
    (renderTemplate payload context.asTemplateContext)
  anyOrder : ∀ entries, entries.Perm context.asTemplateContext →
    renderTemplate payload entries = renderTemplate payload context.asTemplateContext
  noneLeft : payload.Rel
    (fun _ t => ∀ entry ∈ context.asTemplateContext, ¬(placeholder entry.1).toList <:+: t.toList)
    (renderTemplate payload context.asTemplateContext)
  fixed : renderTemplate (renderTemplate payload context.asTemplateContext)
    context.asTemplateContext = renderTemplate payload context.asTemplateContext
  /-- What was a placeholder comes out of the second pass as the first one left it. -/
  resolved : ∀ baseTime resolved,
    resolveDynamicTimes (renderTemplate payload context.asTemplateContext) baseTime = .ok resolved →
    payload.Rel (fun s t => ∀ entry ∈ context.asTemplateContext,
      s = placeholder entry.1 → t = entry.2) resolved
  generated : ∀ entry ∈ context.asTemplateContext,
    renderTemplateValue (placeholder entry.1) context.asTemplateContext = entry.2 ∧
      ∀ baseTime, parseDynamicTime entry.2 baseTime = .ok entry.2

section

variable {entries : Dict String String}

lemma rule_mem_rules {entry : String × String} (h : entry ∈ entries) :
    ((placeholder entry.1).toList, entry.2.toList) ∈ rules entries :=
  List.mem_map_of_mem h

lemma substituteAll_placeholder (h : Independent (rules entries)) {entry : String × String}
    (hentry : entry ∈ entries) : substituteAll entries (placeholder entry.1) = entry.2 := by
  rw [substituteAll, h.substitute_pattern (rule_mem_rules hentry), String.ofList_toList]

lemma not_infix_substituteAll (h : Independent (rules entries)) {entry : String × String}
    (hentry : entry ∈ entries) (value : String) :
    ¬(placeholder entry.1).toList <:+: (substituteAll entries value).toList := by
  rw [substituteAll, String.toList_ofList]
  exact h.not_infix_substitute (rule_mem_rules hentry) value.toList

lemma substituteAll_substituteAll (h : Independent (rules entries)) (value : String) :
    substituteAll entries (substituteAll entries value) = substituteAll entries value := by
  have hkept : substitute (rules entries) (substituteAll entries value).toList
      = (substituteAll entries value).toList := by
    refine substitute_eq_self fun rule hrule => ?_
    obtain ⟨entry, hentry, rfl⟩ := List.mem_map.mp hrule
    exact not_infix_substituteAll h hentry value
  rw [substituteAll, hkept, String.ofList_toList]

lemma substituteAll_perm {entries' : Dict String String} (h : Independent (rules entries))
    (hperm : entries.Perm entries') (value : String) :
    substituteAll entries' value = substituteAll entries value := by
  have hrules : (rules entries).Perm (rules entries') := hperm.map _
  rw [substituteAll, substituteAll, h.substitute_perm hrules]

/-- A tree, with all placeholders replaced at once in each string. -/
lemma renderTemplate_eq (h : Independent (rules entries)) (payload : Json) :
    renderTemplate payload entries
      = Id.run (payload.mapStrings fun s => pure (substituteAll entries s)) := by
  simp only [renderTemplate, renderTemplateValue_eq h]

/-- The two passes over the tree of an event are one. -/
lemma resolveDynamicTimes_renderTemplate (payload : Json) (baseTime : Datetime) :
    resolveDynamicTimes (renderTemplate payload entries) baseTime
      = payload.mapStrings fun s => parseDynamicTime (renderTemplateValue s entries) baseTime :=
  Json.mapStrings_mapStrings _ _ payload

end

/-- **Rendering with the context of an order is simultaneous substitution.** -/
theorem rendersSimultaneously {config : SimulatorConfig}
    (hbraces : ∀ c ∈ config.orderIdPrefix.toList, c ≠ '{' ∧ c ≠ '}') (payload : Json)
    (now : Datetime) (orderIndex : ℕ) (scenarioName : String) :
    RendersSimultaneously payload (createOrderContext config now orderIndex scenarioName) := by
  have hindependent := independent_rules_of_plain
    (plain_of_mem_asTemplateContext hbraces now orderIndex scenarioName)
  have hstable := parseDynamicTime_of_mem_asTemplateContext config now orderIndex scenarioName
  generalize createOrderContext config now orderIndex scenarioName = context at *
  have hpattern : ∀ entry ∈ context.asTemplateContext,
      renderTemplateValue (placeholder entry.1) context.asTemplateContext = entry.2 := by
    intro entry hentry
    rw [renderTemplateValue_eq hindependent, substituteAll_placeholder hindependent hentry]
  constructor
  · rw [renderTemplate_eq hindependent]
    exact Json.rel_mapStrings (R := fun s t => t = substituteAll context.asTemplateContext s)
      (fun _ => rfl) payload
  · intro entries hperm
    have hentries : Independent (rules entries) := hindependent.perm (hperm.symm.map _)
    simp only [renderTemplate_eq hentries, renderTemplate_eq hindependent,
      substituteAll_perm hindependent hperm.symm]
  · rw [renderTemplate_eq hindependent]
    exact Json.rel_mapStrings
      (fun s entry hentry => not_infix_substituteAll hindependent hentry s) payload
  · rw [renderTemplate_eq hindependent, renderTemplate_eq hindependent, Json.mapStrings_mapStrings]
    simp only [substituteAll_substituteAll hindependent]
  · intro baseTime resolved hresolved
    rw [resolveDynamicTimes_renderTemplate] at hresolved
    refine Json.rel_of_mapStrings (fun s t ht entry hentry hs => ?_) hresolved
    rw [hs, hpattern entry hentry, hstable baseTime entry hentry] at ht
    exact (Except.ok.inj ht).symm
  · intro entry hentry
    exact ⟨hpattern entry hentry, fun baseTime => hstable baseTime entry hentry⟩

/-- An event with two placeholders in one string. -/
theorem rendersSimultaneously_created :
    RendersSimultaneously
      (.dict [("orderId", .str "{{orderId}}"),
        ("tags", .list [.str "{{{{storeId}}customerId}}", .int 1])])
      (createOrderContext
        { scenario := "delayed-orders", ordersCount := 5, orderIdPrefix := "ord"
          scaleDelay := .ok, pauseAfterStep := 0, pauseDurationSeconds := 0 }
        noon 1 "delayed-orders") :=
  rendersSimultaneously (by simp) _ noon 1 "delayed-orders"

end OrderSimulator
