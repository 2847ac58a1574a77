import DelayedOrderSms.EndToEnd.Session
import Mathlib.Data.Finset.Card
import Mathlib.Tactic.Tauto

/-!
# Whose commands are counted

A count is attributed to the run before it.  It is the number of orders of that run with a command
if their ids are new, and if what the consumer misses now is what it missed before and what has
come late for orders of other runs.

* `Session.Valid`, `Session.Valid.step` — what holds between two passes.
* `card_sub_card_eq_iff` — the balance of two counts.
* `attributed_iff` — when every run of a session has its own ids and its own count.
* `Separated.of_complete` — in particular, if every count is of all there is.
-/

namespace EndToEnd

open Python Systems Flink DelayedOrderSms
open OrderSimulator (Task ScenarioFile NamesApart IdsApart Carries placeholder noon)

/-! ## What holds between two passes -/

/-- What the orders, the messages and the job have to do with each other. -/
structure Session.Grounded (setup : Setup) (s : Session) : Prop where
  generated : ∀ t ∈ s.tasks, t.Generated setup.load setup.config
  carried : ∀ message ∈ s.messages, ∃ t ∈ s.tasks, Carries t.context message.2
  job : IsRun (JobStep setup.stateConfig) Job.initial s.jobRun
  known : ∀ k ∈ processedOrders s.jobRun, ∃ t ∈ s.tasks, t.context.publishedId = k

/-- **What holds between two passes.** -/
structure Session.Valid (setup : Setup) (s : Session) : Prop extends s.Grounded setup where
  lastTopic : s.lastTopic ⊆ s.topic
  lastPrinted : s.lastPrinted ⊆ s.lastTopic
  total : s.previousTotal = consumeSmsCount s.lastPrinted

lemma Session.valid_initial (setup : Setup) : Session.initial.Valid setup where
  generated := by simp [Session.initial]
  carried := by simp [Session.initial]
  job := trivial
  known := by simp [Session.initial, processedOrders]
  lastTopic := by simp [Session.initial]
  lastPrinted := by simp [Session.initial]
  total := rfl

section

variable {setup : Setup} {s s' : Session} {round : Round}

/-- Every command is for an order of a run. -/
lemma Session.Grounded.forOrder (h : s.Grounded setup) :
    ∀ c ∈ s.topic, ∃ t ∈ s.tasks, ForOrder t.context.publishedId c := by
  intro c hc
  obtain ⟨k, hk, hfor⟩ := command_processed h.job c hc
  obtain ⟨t, ht, rfl⟩ := h.known k hk
  exact ⟨t, ht, hfor⟩

lemma Round.tasks_generated (setup : Setup) (round : Round) :
    ∀ t ∈ round.tasks setup, t.Generated setup.load setup.config := by
  rw [Round.tasks]
  split
  · rename_i tasks hrun
    intro t ht
    have hgenerated := (OrderSimulator.run_generated hrun).1 t ht
    exact ⟨hgenerated.context, hgenerated.scenario⟩
  · simp

lemma Round.nodup_publishedIds (setup : Setup) (round : Round) :
    ((round.tasks setup).map (·.context.publishedId)).Nodup := by
  rw [Round.tasks]
  split
  · rename_i tasks hrun
    exact OrderSimulator.nodup_publishedIds hrun
  · exact List.nodup_nil

/-- The run of the simulator and the steps of the job keep it. -/
lemma Session.Grounded.advance (h : s.Grounded setup) (hadmits : s.Admits setup round) :
    (s.advance setup round).Grounded setup := by
  have hgenerated : ∀ t ∈ (s.advance setup round).tasks, t.Generated setup.load setup.config := by
    simp only [Session.advance, List.forall_mem_append]
    exact ⟨h.generated, round.tasks_generated setup⟩
  have hcarried : ∀ message ∈ (s.advance setup round).messages,
      ∃ t ∈ (s.advance setup round).tasks, Carries t.context message.2 := by
    simp only [Session.advance, List.forall_mem_append]
    constructor
    · intro message hmessage
      obtain ⟨t, ht, hcarries⟩ := h.carried message hmessage
      exact ⟨t, List.mem_append_left _ ht, hcarries⟩
    · intro message hmessage
      obtain ⟨t, ht, hmem⟩ := List.mem_flatMap.mp hmessage
      exact ⟨t, List.mem_append_right _ ht,
        (round.tasks_generated setup t ht).carries setup.labelled message hmem⟩
  refine ⟨hgenerated, hcarried, hadmits.job, ?_⟩
  intro k hk
  simp only [Session.advance, processedOrders, List.filterMap_append, List.mem_append] at hk
  rcases hk with hk | hk
  · obtain ⟨t, ht, hid⟩ := h.known k hk
    exact ⟨t, List.mem_append_left _ ht, hid⟩
  · obtain ⟨message, hmessage, hid⟩ := hadmits.fed k hk
    obtain ⟨t, ht, hcarries⟩ := hcarried message hmessage
    exact ⟨t, ht, Option.some.inj (hcarries.symm.trans hid)⟩

lemma Session.topic_subset_advance (setup : Setup) (s : Session) (round : Round) :
    s.topic ⊆ (s.advance setup round).topic := by
  simp only [Session.topic, Session.advance, outputs_append, commands_append]
  exact List.subset_append_left _ _

/-- **Every pass keeps it.** -/
theorem Session.Valid.step {readings : List Reading} (h : s.Valid setup)
    (hstep : SessionStep setup s round readings s') : s'.Valid setup := by
  cases hstep with
  | failed hadmits _ =>
      exact ⟨h.toGrounded.advance hadmits,
        List.Subset.trans h.lastTopic (s.topic_subset_advance setup round), h.lastPrinted, h.total⟩
  | counted hadmits _ =>
      obtain ⟨hgenerated, hcarried, hjob, hknown⟩ := h.toGrounded.advance hadmits
      exact ⟨⟨hgenerated, hcarried, hjob, hknown⟩, List.Subset.refl _, hadmits.printed, rfl⟩

end

/-! ## What a count says -/

/-- The command ids of some commands. -/
def commandIds (cs : List SmsCommand) : Finset String := (cs.map SmsCommand.commandId).toFinset

/-- Those of them that are counted when they are printed. -/
def countedIds (printed : List SmsCommand) : Finset String := commandIds (printed.filter isOneLine)

/-- The command ids of some orders. -/
def ownIds (tasks : List Task) : Finset String :=
  (tasks.map fun t => t.context.publishedId ++ ":DELAY_SMS").toFinset

/-- The orders with a command among those there are. -/
def notifiedTasks (tasks : List Task) (topic : List SmsCommand) : List Task :=
  tasks.filter fun t => topic.any fun c => c.orderId = some t.context.publishedId

lemma mem_commandIds {cs : List SmsCommand} {id : String} :
    id ∈ commandIds cs ↔ ∃ c ∈ cs, c.commandId = id := by
  simp [commandIds]

lemma commandIds_mono {cs cs' : List SmsCommand} (h : cs ⊆ cs') :
    commandIds cs ⊆ commandIds cs' := by
  intro id hid
  obtain ⟨c, hc, rfl⟩ := mem_commandIds.mp hid
  exact mem_commandIds.mpr ⟨c, h hc, rfl⟩

lemma mem_ownIds {tasks : List Task} {id : String} :
    id ∈ ownIds tasks ↔ ∃ t ∈ tasks, t.context.publishedId ++ ":DELAY_SMS" = id := by
  simp [ownIds]

lemma countedIds_subset {printed topic : List SmsCommand} (h : printed ⊆ topic) :
    countedIds printed ⊆ commandIds topic :=
  commandIds_mono fun _ hc => h (List.mem_of_mem_filter hc)

/-- The id of a command is never empty, so the consumer counts all it finds on a line. -/
lemma consumeSmsCount_eq {printed : List SmsCommand} (h : ∀ c ∈ printed, ∃ k, ForOrder k c) :
    consumeSmsCount printed = (countedIds printed).card := by
  have hall : ((printed.filter isOneLine).map SmsCommand.commandId).filter (· ≠ "")
      = (printed.filter isOneLine).map SmsCommand.commandId := by
    refine List.filter_eq_self.mpr fun id hid => ?_
    obtain ⟨c, hc, rfl⟩ := List.mem_map.mp hid
    obtain ⟨k, _, hcommand⟩ := h c (List.mem_of_mem_filter hc)
    rw [hcommand]
    refine decide_eq_true fun hempty => ?_
    have hlist := congrArg String.toList hempty
    simp [String.toList_append] at hlist
  rw [consumeSmsCount, hall, countedIds, commandIds]

/-- The notified orders of a run are as many as there are commands with their ids. -/
lemma length_notifiedTasks {tasks : List Task} {topic : List SmsCommand}
    (hnodup : (tasks.map (·.context.publishedId)).Nodup)
    (htopic : ∀ c ∈ topic, ∃ k, ForOrder k c) :
    (notifiedTasks tasks topic).length = (commandIds topic ∩ ownIds tasks).card := by
  have hids : ((notifiedTasks tasks topic).map
      fun t => t.context.publishedId ++ ":DELAY_SMS").Nodup := by
    have hsub : ((notifiedTasks tasks topic).map (·.context.publishedId)).Nodup :=
      hnodup.sublist (List.filter_sublist.map _)
    have hmap := hsub.map fun _ _ h => commandId_injective h
    rwa [List.map_map] at hmap
  have hset : commandIds topic ∩ ownIds tasks
      = ((notifiedTasks tasks topic).map fun t => t.context.publishedId ++ ":DELAY_SMS").toFinset := by
    ext id
    simp only [Finset.mem_inter, mem_commandIds, mem_ownIds, List.mem_toFinset, List.mem_map,
      notifiedTasks, List.mem_filter, List.any_eq_true, decide_eq_true_eq]
    constructor
    · rintro ⟨⟨c, hc, hid⟩, t, ht, rfl⟩
      obtain ⟨k, horder, hcommand⟩ := htopic c hc
      obtain rfl := commandId_injective (hcommand.symm.trans hid)
      exact ⟨t, ⟨ht, c, hc, horder⟩, rfl⟩
    · rintro ⟨t, ⟨ht, c, hc, horder⟩, rfl⟩
      obtain ⟨k, horder', hcommand⟩ := htopic c hc
      obtain rfl := Option.some.inj (horder'.symm.trans horder)
      exact ⟨⟨c, hc, hcommand⟩, t, ht, rfl⟩
  rw [hset, List.toFinset_card_of_nodup hids, List.length_map]

/-- **The balance of two counts**: of what is there before and after, `C₀ ⊆ C₁`, the parts `P₀` and
`P₁` are counted.  The difference is what there is of `T`, of which nothing was there before,
exactly if what is left out now makes up for what was left out before and what is new of others. -/
lemma card_sub_card_eq_iff {P₀ P₁ C₀ C₁ T : Finset String} (hP₀ : P₀ ⊆ C₀) (hP₁ : P₁ ⊆ C₁)
    (hC : C₀ ⊆ C₁) (hT : Disjoint C₀ T) :
    (P₁.card : ℤ) - P₀.card = (C₁ ∩ T).card
      ↔ (C₁ \ P₁).card = (C₀ \ P₀).card + (C₁ \ (C₀ ∪ T)).card := by
  have hbefore := Finset.card_sdiff_add_card_eq_card hP₀
  have hafter := Finset.card_sdiff_add_card_eq_card hP₁
  have hunion : C₀ ∪ C₁ ∩ T ⊆ C₁ := Finset.union_subset hC Finset.inter_subset_left
  have hsplit := Finset.card_sdiff_add_card_eq_card hunion
  have hdisjoint : Disjoint C₀ (C₁ ∩ T) := hT.mono_right Finset.inter_subset_right
  rw [Finset.card_union_of_disjoint hdisjoint] at hsplit
  have hothers : C₁ \ (C₀ ∪ C₁ ∩ T) = C₁ \ (C₀ ∪ T) := by
    ext id
    simp only [Finset.mem_sdiff, Finset.mem_union, Finset.mem_inter]
    tauto
  rw [hothers] at hsplit
  omega

/-! ## Runs of their own -/

/-- **What the counts are taken for**: no order id of the run is one of a run before, and what is
counted are the orders of the run that have a command. -/
structure Attributed (reading : Reading) : Prop where
  idsApart : IdsApart reading.earlier reading.tasks
  counted : ∀ count ∈ reading.smsCount,
    count = (notifiedTasks reading.tasks reading.topic).length

/-- What is not counted makes up for what was not counted before and for what has come for other
orders since. -/
def Balanced (setup : Setup) (s : Session) (round : Round) : Prop :=
  (commandIds (s.advance setup round).topic \ countedIds round.seen.printed).card
    = (commandIds s.lastTopic \ countedIds s.lastPrinted).card
      + (commandIds (s.advance setup round).topic
          \ (commandIds s.lastTopic ∪ ownIds (round.tasks setup))).card

/-- **When they are that**: names given to orders of the same number differ from those of the runs
before after normalisation, and a count is balanced. -/
structure Separated (setup : Setup) (s : Session) (round : Round) : Prop where
  namesApart : NamesApart s.tasks (round.tasks setup)
  balanced : round.seen.returncode = 0 → Balanced setup s round

section

variable {setup : Setup} {s s' : Session} {round : Round}

/-- **In particular**: the names are apart, the consumer prints whatever there is at every count, each
command on a line, and nothing comes for an order after the count of its run. -/
theorem Separated.of_complete (hapart : NamesApart s.tasks (round.tasks setup))
    (hlast : commandIds s.lastTopic ⊆ countedIds s.lastPrinted)
    (hprinted : commandIds (s.advance setup round).topic ⊆ countedIds round.seen.printed)
    (hown : commandIds (s.advance setup round).topic
      ⊆ commandIds s.lastTopic ∪ ownIds (round.tasks setup)) : Separated setup s round where
  namesApart := hapart
  balanced := by
    intro _
    rw [Balanced, Finset.sdiff_eq_empty_iff_subset.mpr hlast,
      Finset.sdiff_eq_empty_iff_subset.mpr hprinted, Finset.sdiff_eq_empty_iff_subset.mpr hown,
      Finset.card_empty]

/-- Nothing of a run is in the topic before it. -/
lemma Session.Valid.disjoint (h : s.Valid setup) (hapart : NamesApart s.tasks (round.tasks setup)) :
    Disjoint (commandIds s.lastTopic) (ownIds (round.tasks setup)) := by
  rw [Finset.disjoint_left]
  intro id hid hown
  obtain ⟨c, hc, rfl⟩ := mem_commandIds.mp hid
  obtain ⟨t', ht', hid'⟩ := mem_ownIds.mp hown
  obtain ⟨t, ht, _, hcommand⟩ := h.forOrder c (h.lastTopic hc)
  refine OrderSimulator.publishedId_ne_of_namesApart h.generated (round.tasks_generated setup)
    hapart t ht t' ht' ?_
  exact commandId_injective (hcommand.symm.trans hid'.symm)

/-- What a count says of a run with ids of its own. -/
lemma Session.Valid.counted_iff (h : s.Valid setup) (hadmits : s.Admits setup round)
    (hapart : NamesApart s.tasks (round.tasks setup)) :
    (consumeSmsCount round.seen.printed : ℤ) - s.previousTotal
        = (notifiedTasks (round.tasks setup) (s.advance setup round).topic).length
      ↔ Balanced setup s round := by
  have htopic : ∀ c ∈ (s.advance setup round).topic, ∃ k, ForOrder k c := by
    intro c hc
    obtain ⟨t, _, hfor⟩ := (h.toGrounded.advance hadmits).forOrder c hc
    exact ⟨_, hfor⟩
  have hlast : s.lastTopic ⊆ (s.advance setup round).topic :=
    List.Subset.trans h.lastTopic (s.topic_subset_advance setup round)
  rw [h.total, consumeSmsCount_eq fun c hc => htopic c (hadmits.printed hc),
    consumeSmsCount_eq fun c hc => htopic c (hlast (h.lastPrinted hc)),
    length_notifiedTasks (round.nodup_publishedIds setup) htopic]
  exact card_sub_card_eq_iff (countedIds_subset h.lastPrinted) (countedIds_subset hadmits.printed)
    (commandIds_mono hlast) (h.disjoint hapart)

/-- **One pass.** -/
theorem attributed_step_iff {readings : List Reading} (h : s.Valid setup)
    (hstep : SessionStep setup s round readings s') :
    (∀ reading ∈ readings, Attributed reading) ↔ Separated setup s round := by
  have hnames := OrderSimulator.idsApart_iff h.generated (round.tasks_generated setup)
  cases hstep with
  | failed _ hcode =>
      simp only [List.forall_mem_singleton]
      constructor
      · intro hattributed
        exact ⟨hnames.mp hattributed.idsApart, fun hzero => absurd hzero hcode⟩
      · intro hseparated
        exact ⟨hnames.mpr hseparated.namesApart, by simp [Session.reading]⟩
  | counted hadmits hcode =>
      simp only [List.forall_mem_singleton]
      constructor
      · intro hattributed
        have hapart := hnames.mp hattributed.idsApart
        exact ⟨hapart, fun _ => (h.counted_iff hadmits hapart).mp (hattributed.counted _ rfl)⟩
      · intro hseparated
        refine ⟨hnames.mpr hseparated.namesApart, fun count hcount => ?_⟩
        cases hcount
        exact (h.counted_iff hadmits hseparated.namesApart).mpr (hseparated.balanced hcode)

end

/-- **When every run of a session has its own ids and its own count.** -/
theorem attributed_iff {setup : Setup} {run : List (Entry Session Round Reading)}
    (h : IsRun (SessionStep setup) Session.initial run) :
    (∀ reading ∈ outputs run, Attributed reading)
      ↔ ∀ p ∈ transitions Session.initial run, Separated setup p.1 p.2.label := by
  refine @IsRun.forall_outputs_iff _ _ _ (SessionStep setup) (Session.Valid setup) Attributed
    (Separated setup) ?_ ?_ run Session.initial (Session.valid_initial setup) h
  · intro s round readings s' hvalid hstep
    exact hvalid.step hstep
  · intro s round readings s' hvalid hstep
    exact attributed_step_iff hvalid hstep

/-! ## A session

Five orders for each scenario.  The mixed run gives the name `delayed-orders` to its fifth order,
and so did the run of that scenario. -/

/-- The scenarios and the distribution of `mixed-orders.json`. -/
def mixedOrders : ScenarioFile where
  scenarioName := some "mixed-orders"
  events := []
  includedScenarios := ["on-time-orders", "delayed-orders", "cancelled-orders",
    "eta-updated-orders", "duplicate-events", "out-of-order-updates"]
  distribution := .dict OrderSimulator.mixedDistribution

/-- A file with one event, which is late when it is published. -/
def lateOrders (name : String) : ScenarioFile where
  scenarioName := some name
  events := [[("step", .int 1), ("etaOffset", .str "-30s"),
    ("value", .dict [("orderId", .str (placeholder "orderId")),
      ("expectedDeliveryTime", .str "now")])]]
  includedScenarios := []
  distribution := .dict []

def fiveOrders : Setup where
  load name := if name = "mixed-orders" then .ok mixedOrders else .ok (lateOrders name)
  labelled := by
    intro name file h
    split_ifs at h
    · cases h
      intro eventDefinition hmem
      exact absurd hmem List.not_mem_nil
    · cases h
      intro eventDefinition hmem valueTemplate hvalue
      rw [lateOrders, List.mem_singleton] at hmem
      subst hmem
      cases hvalue
      rfl
  config :=
    { scenario := "mixed-orders", ordersCount := 100, orderIdPrefix := "ord"
      scaleDelay := .ok, pauseAfterStep := 0, pauseDurationSeconds := 0 }
  ordersCount := 5
  stateConfig := ⟨.rocksDB, none⟩

def lateOrder : Snapshot :=
  .createOrder "ord-delayed-orders-0005" .CREATED (.ofEpochMilli (.of 1778587170000))
    (.ofEpochMilli (.of 1778587200000))

/-- A message of the order is processed. -/
def processedAt (now : ℤ) (fx : List DelayedOrderSms.Effect) :
    Entry (Slot OrderDelayState) (KeyEvent OrderState) DelayedOrderSms.Effect where
  label := .element (.of now) (.ofEpochMilli (.of now)) lateOrder.toOrderState
  output := fx
  target := (wrote ⟨lateOrder, true, none⟩ (.of now) ∅).map Tracked.toDelayState

/-- The job emits a command at the first message of the order, and none at the second. -/
def jobSteps : List (Entry Job (String × KeyEvent OrderState) DelayedOrderSms.Effect) :=
  atKey "ord-delayed-orders-0005" Job.initial
    [processedAt 1778587201000 (lateOrder.notification (.of 1778587201000)),
      processedAt 1778587301000 []]

lemma isRun_jobSteps : IsRun (JobStep ⟨.rocksDB, none⟩) Job.initial jobSteps :=
  isRun_atKey "ord-delayed-orders-0005" _ Job.initial ⟨.element rfl rfl, .element rfl rfl, trivial⟩

/-- A pass in which the job takes some steps and the consumer prints the one command. -/
def lateRound (scenario : String)
    (jobRun : List (Entry Job (String × KeyEvent OrderState) DelayedOrderSms.Effect)) : Round where
  seen := ⟨scenario, 0, "", [lateOrder.delayCommand (.of 1778587201000)]⟩
  now := fun _ => noon
  draws := id
  jobRun := jobRun

/-- A pass that is counted. -/
def countedPass (setup : Setup) (s : Session) (round : Round) : Entry Session Round Reading where
  label := round
  output :=
    [s.reading setup round (some (consumeSmsCount round.seen.printed - s.previousTotal))]
  target := s.count setup round

def delayedPass : Entry Session Round Reading :=
  countedPass fiveOrders Session.initial (lateRound "delayed-orders" (jobSteps.take 1))

def onTimePass : Entry Session Round Reading :=
  countedPass fiveOrders delayedPass.target (lateRound "on-time-orders" [])

def mixedPass : Entry Session Round Reading :=
  countedPass fiveOrders delayedPass.target (lateRound "mixed-orders" (jobSteps.drop 1))

/-- The run of the scenario publishes a message of the order. -/
lemma exists_message_lateOrder : ∃ message ∈ delayedPass.target.messages,
    OrderSimulator.orderIdOf message.2 = some "ord-delayed-orders-0005" := by
  decide +kernel

lemma step_delayedPass : SessionStep fiveOrders Session.initial delayedPass.label
    delayedPass.output delayedPass.target := by
  refine .counted ⟨by decide, isRun_jobSteps.of_isPrefix (List.take_prefix 1 jobSteps), ?_,
    by decide +kernel, by decide⟩ rfl
  intro k hk
  obtain rfl : k = "ord-delayed-orders-0005" := List.mem_singleton.mp hk
  exact exists_message_lateOrder

lemma step_onTimePass : SessionStep fiveOrders delayedPass.target onTimePass.label
    onTimePass.output onTimePass.target :=
  .counted ⟨by decide +kernel, isRun_jobSteps.of_isPrefix (List.take_prefix 1 jobSteps),
    fun _ hk => absurd hk List.not_mem_nil, by decide +kernel, by decide⟩ rfl

lemma step_mixedPass : SessionStep fiveOrders delayedPass.target mixedPass.label
    mixedPass.output mixedPass.target := by
  refine .counted ⟨by decide +kernel, isRun_jobSteps, ?_, by decide +kernel, by decide⟩ rfl
  intro k hk
  obtain rfl : k = "ord-delayed-orders-0005" := List.mem_singleton.mp hk
  obtain ⟨message, hmessage, hid⟩ := exists_message_lateOrder
  exact ⟨message, List.mem_append_left _ hmessage, hid⟩

/-- Two scenarios with names of their own: one order is notified, in the first of them. -/
theorem attributed_onTimePass :
    (outputs [delayedPass, onTimePass]).map Reading.smsCount = [some 1, some 0] ∧
      ∀ reading ∈ outputs [delayedPass, onTimePass], Attributed reading := by
  have hrun : IsRun (SessionStep fiveOrders) Session.initial [delayedPass, onTimePass] :=
    ⟨step_delayedPass, step_onTimePass, trivial⟩
  refine ⟨by decide, (attributed_iff hrun).mpr ?_⟩
  simp only [transitions_cons, transitions_nil, List.forall_mem_cons]
  refine ⟨.of_complete ?_ ?_ ?_ ?_, .of_complete ?_ ?_ ?_ ?_, by simp⟩
  · exact fun t ht => absurd ht List.not_mem_nil
  · exact Finset.Subset.refl _
  · decide +kernel
  · decide +kernel
  · unfold NamesApart
    decide +kernel
  · decide +kernel
  · decide +kernel
  · decide +kernel

/-- **The mixed run repeats an order id.**  The job has notified that order and stays silent: the
run has an order with a command, the count says none, and the test is content with that. -/
theorem not_attributed_mixedPass :
    IsRun (SessionStep fiveOrders) Session.initial [delayedPass, mixedPass] ∧
      (∃ reading ∈ outputs [delayedPass, mixedPass],
        ¬IdsApart reading.earlier reading.tasks ∧ reading.smsCount = some 0 ∧
          (notifiedTasks reading.tasks reading.topic).length = 1) ∧
      validateSmsCount "mixed-orders" 0 = .ok true ∧
      ¬∀ reading ∈ outputs [delayedPass, mixedPass], Attributed reading := by
  have hmem : delayedPass.target.reading fiveOrders mixedPass.label (some 0)
      ∈ outputs [delayedPass, mixedPass] := List.mem_append_right _ List.mem_cons_self
  have hids : ¬IdsApart delayedPass.target.tasks (mixedPass.label.tasks fiveOrders) := by
    unfold IdsApart
    decide +kernel
  refine ⟨⟨step_delayedPass, step_mixedPass, trivial⟩, ⟨_, hmem, hids, rfl, by decide +kernel⟩,
    by decide, fun hall => hids (hall _ hmem).idsApart⟩

end EndToEnd
