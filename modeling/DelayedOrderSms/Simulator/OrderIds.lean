import DelayedOrderSms.Simulator.Rendering

/-!
# What an order id says

An order id is the prefix, the normalised name of the scenario and the index, with dashes between
them.  The index has no dash, so the id is read from its end.

The job sees the id as a message carries it, in the place of the placeholder (`publishedId`).  A
prefix with placeholders of its own is rendered there; what it is rendered to depends on the
index, so this id says the same.

* `orderId_eq_iff`, `publishedId_eq_iff` — the normalised name and the index, and nothing else.
* `publishedId_eq_orderId` — a prefix without braces is published as it is.
-/

namespace OrderSimulator

open Python Systems Regex

/-- The id under which an order is published. -/
def OrderContext.publishedId (context : OrderContext) : String :=
  renderTemplateValue (placeholder "orderId") context.asTemplateContext

/-! ## Reading from the end -/

lemma ne_dash_of_mem_padded {width n : ℕ} {c : Char} (h : c ∈ Datetime.padded width n) :
    c ≠ '-' := by
  have hdigit := Datetime.isDigit_of_mem_padded h
  rintro rfl
  simp at hdigit

/-- What stands behind the last dash is the index. -/
lemma append_dash_padded_inj {u u' : List Char} {width n n' : ℕ}
    (h : u ++ '-' :: Datetime.padded width n = u' ++ '-' :: Datetime.padded width n') :
    u = u' ∧ n = n' := by
  have hclass : ∀ {n : ℕ}, ∀ c ∈ (Datetime.padded width n).reverse, (c != '-') = true := by
    intro n c hc
    simpa using ne_dash_of_mem_padded (List.mem_reverse.mp hc)
  have hreverse := congrArg List.reverse h
  simp only [List.reverse_append, List.reverse_cons, List.append_assoc, List.singleton_append]
    at hreverse
  obtain ⟨hindex, hrest⟩ := append_inj_of_class (p := (· != '-')) hclass hclass (by simp) (by simp)
    hreverse
  refine ⟨List.reverse_injective (List.cons.inj hrest).2, ?_⟩
  exact Datetime.padded_injective width (List.reverse_injective hindex)

/-- Texts in the form of an order id, with the same beginning if they have the same index. -/
lemma dashed_inj {u u' name name' : List Char} {index index' : ℕ}
    (hu : index = index' → u = u')
    (h : u ++ '-' :: (name ++ '-' :: Datetime.padded 4 index)
      = u' ++ '-' :: (name' ++ '-' :: Datetime.padded 4 index')) :
    name = name' ∧ index = index' := by
  simp only [← List.cons_append, ← List.append_assoc] at h
  obtain ⟨hrest, rfl⟩ := append_dash_padded_inj h
  rw [hu rfl] at hrest
  exact ⟨by simpa using hrest, rfl⟩

/-! ## The id of an order -/

section

variable {config : SimulatorConfig} {now now' : Datetime} {index index' : ℕ} {name name' : String}

/-- **An order id says the normalised name and the index.** -/
theorem orderId_eq_iff :
    (createOrderContext config now index name).orderId
        = (createOrderContext config now' index' name').orderId
      ↔ normalizeName name = normalizeName name' ∧ index = index' := by
  constructor
  · intro h
    have hlist := congrArg String.toList h
    rw [toList_orderId, toList_orderId] at hlist
    obtain ⟨hname, hindex⟩ := dashed_inj (fun _ => rfl) hlist
    exact ⟨String.toList_injective hname, hindex⟩
  · rintro ⟨hname, rfl⟩
    simp only [createOrderContext, hname]

/-- A text with a dash is rendered up to the dash, where nothing behind it has a brace. -/
lemma foldl_substitute_append_dash {table : List (List Char × List Char)}
    (h : ∀ rule ∈ table, '{' ∈ rule.1 ∧ '-' ∉ rule.1) {r : List Char} (hr : '{' ∉ r)
    (u : List Char) :
    table.foldl (fun s rule => substitute [rule] s) (u ++ '-' :: r)
      = table.foldl (fun s rule => substitute [rule] s) u ++ '-' :: r := by
  induction table generalizing u with
  | nil => rfl
  | cons rule rest ih =>
      obtain ⟨hbrace, hdash⟩ := h rule List.mem_cons_self
      have hkept : substitute [rule] r = r := by
        refine substitute_eq_self fun rule' hrule' hinfix => hr ?_
        rw [List.mem_singleton.mp hrule'] at hinfix
        exact hinfix.subset hbrace
      have hsplit : substitute [rule] (u ++ '-' :: r) = substitute [rule] u ++ '-' :: r := by
        rw [substitute_append_cons, hkept]
        intro rule' hrule'
        rw [List.mem_singleton.mp hrule']
        exact ⟨List.ne_nil_of_mem hbrace, hdash⟩
      rw [List.foldl_cons, List.foldl_cons, hsplit]
      exact ih (fun rule' hrule' => h rule' (List.mem_cons_of_mem _ hrule')) _

/-- The prefix with the placeholders it has itself replaced. -/
def renderedPrefix (config : SimulatorConfig) (context : OrderContext) : List Char :=
  (rules [("customerId", context.customerId), ("storeId", context.storeId)]).foldl
    (fun s rule => substitute [rule] s) config.orderIdPrefix.toList

/-- It depends on the index alone. -/
lemma renderedPrefix_congr (h : index = index') :
    renderedPrefix config (createOrderContext config now index name)
      = renderedPrefix config (createOrderContext config now' index' name') := by
  subst h
  simp only [renderedPrefix, createOrderContext]

lemma toList_publishedId (config : SimulatorConfig) (now : Datetime) (index : ℕ) (name : String) :
    (createOrderContext config now index name).publishedId.toList
      = renderedPrefix config (createOrderContext config now index name)
        ++ '-' :: ((normalizeName name).toList ++ '-' :: Datetime.padded 4 index) := by
  have hid := toList_orderId config now index name
  generalize createOrderContext config now index name = context at *
  have hfirst : substitute [((placeholder "orderId").toList, context.orderId.toList)]
      (placeholder "orderId").toList = context.orderId.toList := by
    have hne : (placeholder "orderId").toList ≠ [] := by decide
    generalize (placeholder "orderId").toList = p at *
    have hrule : ruleAt [(p, context.orderId.toList)] ((p, context.orderId.toList).1 ++ [])
        = some (p, context.orderId.toList) := by
      simp [ruleAt]
    simpa using substitute_of_ruleAt hrule hne
  have hbrace : '{' ∉ (normalizeName name).toList ++ '-' :: Datetime.padded 4 index := by
    rw [List.mem_append, List.mem_cons]
    rintro (hname | hdash | hindex)
    · exact (ne_brace_of_mem_normalizeName hname).1 rfl
    · exact absurd hdash (by decide)
    · exact (ne_brace_of_isDigit (Datetime.isDigit_of_mem_padded hindex)).1 rfl
  have hrules : ∀ rule ∈ rules [("customerId", context.customerId), ("storeId", context.storeId)],
      '{' ∈ rule.1 ∧ '-' ∉ rule.1 := by
    simp only [rules, List.map_cons, List.map_nil, List.forall_mem_cons]
    exact ⟨by decide, by decide, by simp⟩
  rw [OrderContext.publishedId, toList_renderTemplateValue, OrderContext.asTemplateContext, rules,
    List.map_cons, List.foldl_cons, hfirst, hid, ← rules]
  exact foldl_substitute_append_dash hrules hbrace _

/-- **So does the id under which it is published.** -/
theorem publishedId_eq_iff :
    (createOrderContext config now index name).publishedId
        = (createOrderContext config now' index' name').publishedId
      ↔ normalizeName name = normalizeName name' ∧ index = index' := by
  constructor
  · intro h
    have hlist := congrArg String.toList h
    rw [toList_publishedId, toList_publishedId] at hlist
    obtain ⟨hname, hindex⟩ := dashed_inj renderedPrefix_congr hlist
    exact ⟨String.toList_injective hname, hindex⟩
  · rintro ⟨hname, hindex⟩
    refine String.toList_injective ?_
    rw [toList_publishedId, toList_publishedId, hname, renderedPrefix_congr hindex, hindex]

/-- No id that is published reads as a time expression. -/
lemma parseDynamicTime_publishedId (config : SimulatorConfig) (now : Datetime) (index : ℕ)
    (name : String) (baseTime : Datetime) :
    parseDynamicTime (createOrderContext config now index name).publishedId baseTime
      = .ok (createOrderContext config now index name).publishedId := by
  refine parseDynamicTime_eq_self_of_dashes ?_ baseTime
  rw [toList_publishedId]
  exact one_lt_count_dash _ _ _

/-- A prefix without braces is published as it is. -/
theorem publishedId_eq_orderId
    (hbraces : ∀ c ∈ config.orderIdPrefix.toList, c ≠ '{' ∧ c ≠ '}') :
    (createOrderContext config now index name).publishedId
      = (createOrderContext config now index name).orderId := by
  have hindependent := independent_rules_of_plain
    (plain_of_mem_asTemplateContext hbraces now index name)
  rw [OrderContext.publishedId, renderTemplateValue_eq hindependent]
  have hentry : ("orderId", (createOrderContext config now index name).orderId)
      ∈ (createOrderContext config now index name).asTemplateContext := by
    simp only [OrderContext.asTemplateContext, List.mem_cons_self]
  simpa only using substituteAll_placeholder hindependent hentry

end

end OrderSimulator
