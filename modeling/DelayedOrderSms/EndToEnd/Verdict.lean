import DelayedOrderSms.EndToEnd.Attribution
import DelayedOrderSms.EndToEnd.Expected

/-!
# When the end-to-end test passes

`EXPECTED_SMS` says how many commands a scenario should give, and the scenario files say which
orders should be notified.  If nothing is lost and nothing is late, the test finds as many commands
as the files promise, and so it passes a scenario in which commands are expected with the number of
orders that `EXPECTED_SMS` was written for, and with no other.

* `Orderly` — a pass of the loop in which nothing is lost and nothing is late.
* `Session.Tidy.step` — in such passes the total is the number of orders with an expected command.
* `Reports` — what the test says of a pass; `reports_of_isRun` — it says this of all of them.
-/

namespace EndToEnd

open Python Java Systems Flink DelayedOrderSms
open OrderSimulator (SimulatorConfig ScenarioFile Task NamesApart ShippedFiles scenarioFiles
  smsCommandExpected isMixedScenario normalizeName runSingleOrder)

/-! ## The tables -/

/-- The scenarios with an entry are single ones, named as their files are. -/
lemma exists_file_of_expected : ∀ entry ∈ smsCommandExpected, entry.1 ≠ "" ∧
    ∃ file ∈ scenarioFiles.get? entry.1,
      isMixedScenario file = false ∧ file.scenarioName = some entry.1 := by
  decide +kernel

/-- Their names stay different after normalisation. -/
lemma eq_of_normalizeName : ∀ entry ∈ smsCommandExpected, ∀ entry' ∈ smsCommandExpected,
    normalizeName entry.1 = normalizeName entry'.1 → entry.1 = entry'.1 := by
  decide +kernel

/-- `EXPECTED_SMS` agrees with the scenario files for five orders. -/
lemma expectedSms_eq : ∀ entry ∈ smsCommandExpected, ∀ expectation ∈ expectedSms.get? entry.1,
    expectation = .exactly (if entry.2 then 5 else 0) := by
  decide +kernel

/-! ## A pass -/

/-- **A pass in which nothing is lost and nothing is late.**  A scenario file with events is run to
its end, the messages of all orders so far are processed in time and as they are read, and the
consumer prints all commands, each on a line. -/
structure Orderly (setup : Setup) (read : Json → Option OrderState) (s : Session) (round : Round) :
    Prop where
  single : (smsCommandExpected.get? round.seen.scenario).isSome
  returncode : round.seen.returncode = 0
  ends : ∀ t ∈ round.tasks setup,
    (runSingleOrder setup.config t.context t.scenario).outcome = .ok ()
  processed : ∀ t ∈ (s.advance setup round).tasks, Processed read (t.messages setup.config)
    t.context processingWindow (s.advance setup round).jobRun
  printed : ∀ c ∈ (s.advance setup round).topic, c ∈ round.seen.printed ∧ isOneLine c = true

/-- The order is of a scenario that has been run, and its events are those of the file. -/
structure OfScenario (ran : List String) (t : Task) : Prop where
  ran : t.scenarioName ∈ ran
  single : (smsCommandExpected.get? t.scenarioName).isSome
  file : ∃ file, scenarioFiles.get? t.scenarioName = some file ∧ t.scenario = file.toScenario

/-- **What holds between orderly passes.** -/
structure Session.Tidy (setup : Setup) (s : Session) : Prop extends s.Valid setup where
  ofScenario : ∀ t ∈ s.tasks, OfScenario s.ran t
  ends : ∀ t ∈ s.tasks, (runSingleOrder setup.config t.context t.scenario).outcome = .ok ()
  nodup : (s.tasks.map (·.context.publishedId)).Nodup
  notified : s.previousTotal = (s.tasks.filter fun t => smsExpected t.scenarioName).length

lemma Session.tidy_initial (setup : Setup) : Session.initial.Tidy setup where
  toValid := Session.valid_initial setup
  ofScenario := by simp [Session.initial]
  ends := by simp [Session.initial]
  nodup := List.nodup_nil
  notified := rfl

section

variable {setup : Setup} (hload : ShippedFiles setup.load) {round : Round}

include hload in
/-- The orders of a pass are of its scenario, as many as there should be. -/
lemma tasks_of_single (hsingle : (smsCommandExpected.get? round.seen.scenario).isSome) :
    (round.tasks setup).length = setup.ordersCount.toNat ∧
      ∀ t ∈ round.tasks setup, t.scenarioName = round.seen.scenario ∧
        OfScenario [round.seen.scenario] t := by
  obtain ⟨expected, hexpected⟩ := Option.isSome_iff_exists.mp hsingle
  obtain ⟨hne, file, hfile, hnot, hname⟩ :=
    exists_file_of_expected _ (Dict.mem_of_get? hexpected)
  have hscenario : (round.config setup).scenario = round.seen.scenario := if_neg hne
  have hloaded : setup.load (round.config setup).scenario = .ok file := by
    rw [hscenario]
    exact hload.found _ file hfile
  have hrun : OrderSimulator.SimulatorRunner.run setup.load (round.config setup) round.now
      round.draws = .ok (OrderSimulator.runSingleScenario (round.config setup) round.now file) := by
    rw [OrderSimulator.SimulatorRunner.run, hloaded, ok_bind, if_neg (by simp [hnot])]
    rfl
  rw [Round.tasks, hrun]
  constructor
  · exact (List.length_map _).trans ((List.length_map _).trans List.length_range')
  · have hlabelled : file.scenarioName.getD (round.config setup).scenario
        = round.seen.scenario := by
      rw [hname, Option.getD_some]
    rw [OrderSimulator.runSingleScenario, hlabelled, List.forall_mem_map]
    exact fun _ _ => ⟨rfl, List.mem_singleton.mpr rfl, hsingle, file, hfile, rfl⟩

include hload in
/-- The ids of its orders are new. -/
lemma Session.Tidy.namesApart {s : Session} (h : s.Tidy setup)
    (hdistinct : round.seen.scenario ∉ s.ran)
    (hsingle : (smsCommandExpected.get? round.seen.scenario).isSome) :
    NamesApart s.tasks (round.tasks setup) := by
  intro t ht t' ht' _ hname
  obtain ⟨hscenario, hof⟩ := (tasks_of_single hload hsingle).2 t' ht'
  obtain ⟨_, hexpected⟩ := Option.isSome_iff_exists.mp (h.ofScenario t ht).single
  obtain ⟨_, hexpected'⟩ := Option.isSome_iff_exists.mp hof.single
  have heq := eq_of_normalizeName _ (Dict.mem_of_get? hexpected) _ (Dict.mem_of_get? hexpected')
    hname
  have hran := (h.ofScenario t ht).ran
  rw [show t.scenarioName = round.seen.scenario from heq.trans hscenario] at hran
  exact hdistinct hran

/-- A count of all commands is of the notified orders. -/
lemma Session.Grounded.consumeSmsCount_eq {s : Session} (h : s.Grounded setup)
    (hnodup : (s.tasks.map (·.context.publishedId)).Nodup) {printed : List SmsCommand}
    (hprinted : printed ⊆ s.topic) (hall : ∀ c ∈ s.topic, c ∈ printed ∧ isOneLine c = true) :
    consumeSmsCount printed = (notifiedTasks s.tasks s.topic).length := by
  have htopic : ∀ c ∈ s.topic, ∃ k, ForOrder k c := by
    intro c hc
    obtain ⟨t, _, hfor⟩ := h.forOrder c hc
    exact ⟨_, hfor⟩
  have hids : countedIds printed = commandIds s.topic := by
    refine (countedIds_subset hprinted).antisymm (commandIds_mono fun c hc => ?_)
    exact List.mem_filter.mpr (hall c hc)
  have hown : commandIds s.topic ⊆ ownIds s.tasks := by
    intro id hid
    obtain ⟨c, hc, rfl⟩ := mem_commandIds.mp hid
    obtain ⟨t, ht, hfor⟩ := h.forOrder c hc
    exact mem_ownIds.mpr ⟨t, ht, hfor.2.symm⟩
  rw [EndToEnd.consumeSmsCount_eq fun c hc => htopic c (hprinted hc), hids,
    length_notifiedTasks hnodup htopic, Finset.inter_eq_left.mpr hown]

variable (hlives : ∀ ttl ∈ setup.stateConfig.ttl, processingWindow ≤ ttl)
  {read : Json → Option OrderState} {s : Session}
include hlives

/-- **The notified orders are those with an expected command.** -/
lemma notifiedTasks_eq (h : s.Grounded setup) (hof : ∀ t ∈ s.tasks, OfScenario s.ran t)
    (hends : ∀ t ∈ s.tasks, (runSingleOrder setup.config t.context t.scenario).outcome = .ok ())
    (hprocessed : ∀ t ∈ s.tasks,
      Processed read (t.messages setup.config) t.context processingWindow s.jobRun) :
    notifiedTasks s.tasks s.topic = s.tasks.filter fun t => smsExpected t.scenarioName := by
  refine List.filter_congr fun t ht => ?_
  obtain ⟨file, hfile, hscenario⟩ := (hof t ht).file
  obtain ⟨expected, hexpected⟩ := Option.isSome_iff_exists.mp (hof t ht).single
  have hlength := length_commandsFor_of_file (h.generated t ht) (hends t ht) hfile hscenario
    hexpected hlives h.job (hprocessed t ht)
  have hany : (s.topic.any fun c => c.orderId = some t.context.publishedId) = true ↔
      0 < (commandsFor t.context.publishedId s.jobRun).length := by
    rw [commandsFor, List.length_filter_pos_iff, List.any_eq_true]
    rfl
  rw [Bool.eq_iff_iff, hany, hlength, smsExpected, hexpected]
  cases expected <;> simp

/-! ## What the test reports -/

omit hlives in
/-- The commands that the scenario file promises. -/
def Round.promised (setup : Setup) (round : Round) : ℕ :=
  if smsExpected round.seen.scenario then setup.ordersCount.toNat else 0

include hload in
/-- **An orderly pass** counts what the scenario file promises. -/
theorem Session.Tidy.step {readings : List Reading} {s' : Session} (h : s.Tidy setup)
    (hstep : SessionStep setup s round readings s') (horderly : Orderly setup read s round) :
    s'.Tidy setup ∧ s'.previousTotal = consumeSmsCount round.seen.printed ∧
      (consumeSmsCount round.seen.printed : ℤ) = s.previousTotal + round.promised setup := by
  cases hstep with
  | failed _ hcode => exact absurd horderly.returncode hcode
  | counted hadmits hcode =>
      have hvalid := h.toValid.step (.counted hadmits hcode)
      obtain ⟨hlength, htasks⟩ := tasks_of_single hload horderly.single
      have hapart := h.namesApart hload hadmits.distinct horderly.single
      have hnodup : ((s.tasks ++ round.tasks setup).map (·.context.publishedId)).Nodup := by
        rw [List.map_append, List.nodup_append]
        refine ⟨h.nodup, round.nodup_publishedIds setup, ?_⟩
        simp only [List.forall_mem_map]
        exact OrderSimulator.publishedId_ne_of_namesApart h.generated
          (round.tasks_generated setup) hapart
      have hof : ∀ t ∈ s.tasks ++ round.tasks setup,
          OfScenario (s.ran ++ [round.seen.scenario]) t := by
        rw [List.forall_mem_append]
        constructor
        · intro t ht
          obtain ⟨hran, hsingle, hfile⟩ := h.ofScenario t ht
          exact ⟨List.mem_append_left _ hran, hsingle, hfile⟩
        · intro t ht
          obtain ⟨hran, hsingle, hfile⟩ := (htasks t ht).2
          exact ⟨List.mem_append_right _ hran, hsingle, hfile⟩
      have hends : ∀ t ∈ s.tasks ++ round.tasks setup,
          (runSingleOrder setup.config t.context t.scenario).outcome = .ok () :=
        List.forall_mem_append.mpr ⟨h.ends, horderly.ends⟩
      have hcount : consumeSmsCount round.seen.printed
          = ((s.tasks ++ round.tasks setup).filter fun t => smsExpected t.scenarioName).length := by
        rw [(h.toGrounded.advance hadmits).consumeSmsCount_eq hnodup hadmits.printed
          horderly.printed, notifiedTasks_eq hlives (h.toGrounded.advance hadmits) hof hends
          horderly.processed]
        rfl
      have hpromised : ((round.tasks setup).filter fun t => smsExpected t.scenarioName).length
          = round.promised setup := by
        have hall : (round.tasks setup).filter (fun t => smsExpected t.scenarioName)
            = (round.tasks setup).filter fun _ => smsExpected round.seen.scenario :=
          List.filter_congr fun t ht => by rw [(htasks t ht).1]
        rw [hall, Round.promised]
        split_ifs with hsms
        · rw [hsms, List.filter_true, hlength]
        · rw [Bool.eq_false_of_not_eq_true hsms, List.filter_false, List.length_nil]
      refine ⟨⟨hvalid, hof, hends, hnodup, ?_⟩, rfl, ?_⟩
      · exact congrArg Nat.cast hcount
      · rw [h.notified, hcount, List.filter_append, List.length_append, hpromised, Nat.cast_add]

end

/-- **What the test says of a pass**: the number of commands that the scenario file promises, and
that this is as it should be if commands are expected for five orders, or none at all. -/
structure Reports (setup : Setup) (round : Round) (result : E2EResult) : Prop where
  scenario : result.scenario = round.seen.scenario
  count : result.actualSmsCount = round.promised setup
  passed : result.passed = true ↔ (smsExpected round.seen.scenario = true → setup.ordersCount = 5)
  error : result.error = none

/-- The test on an orderly pass. -/
lemma checkScenario_reports {setup : Setup} {round : Round}
    (hsingle : (smsCommandExpected.get? round.seen.scenario).isSome)
    (htested : (expectedSms.get? round.seen.scenario).isSome)
    (hcode : round.seen.returncode = 0) {previousTotal : ℤ}
    (hcount : (consumeSmsCount round.seen.printed : ℤ) = previousTotal + round.promised setup) :
    ∃ result, checkScenario previousTotal round.seen
        = .ok (result, consumeSmsCount round.seen.printed) ∧ Reports setup round result := by
  obtain ⟨expected, hexpected⟩ := Option.isSome_iff_exists.mp hsingle
  obtain ⟨expectation, hexpectation⟩ := Option.isSome_iff_exists.mp htested
  obtain rfl := expectedSms_eq _ (Dict.mem_of_get? hexpected) _ hexpectation
  have hitem := Dict.getItem_eq_ok_iff.mpr hexpectation
  have hsms : smsExpected round.seen.scenario = expected := by
    rw [smsExpected, hexpected]
    cases expected <;> rfl
  have hdiff : (consumeSmsCount round.seen.printed : ℤ) - previousTotal = round.promised setup := by
    omega
  simp only [checkScenario, hcode, ne_eq, not_true_eq_false, if_false, validateSmsCount, expectedStr,
    hitem, ok_bind, hdiff]
  refine ⟨_, rfl, rfl, rfl, ?_, rfl⟩
  rw [Round.promised, hsms]
  cases expected with
  | false => simp
  | true =>
      simp only [if_true, decide_eq_true_eq, forall_const]
      omega

section

variable {setup : Setup} (hload : ShippedFiles setup.load)
  (hlives : ∀ ttl ∈ setup.stateConfig.ttl, processingWindow ≤ ttl) {read : Json → Option OrderState}
include hload hlives

/-- From any tidy session on. -/
lemma Session.Tidy.reports {run : List (Entry Session Round Reading)} {s : Session}
    (h : s.Tidy setup) (hrun : IsRun (SessionStep setup) s run)
    (htested : ∀ e ∈ run, (expectedSms.get? e.label.seen.scenario).isSome)
    (horderly : ∀ p ∈ transitions s run, Orderly setup read p.1 p.2.label) :
    ∃ results, runScenarios s.previousTotal (run.map (·.label.seen)) = .ok results ∧
      List.Forall₂ (fun e result => Reports setup e.label result) run results := by
  induction run generalizing s with
  | nil => exact ⟨[], rfl, .nil⟩
  | cons e run ih =>
      obtain ⟨hstep, hrest⟩ := hrun
      rw [transitions_cons, List.forall_mem_cons] at horderly
      obtain ⟨htested, htests⟩ := List.forall_mem_cons.mp htested
      obtain ⟨hpass, hpasses⟩ : Orderly setup read s e.label ∧ _ := horderly
      obtain ⟨htidy, htotal, hcount⟩ := h.step hload hlives hstep hpass
      obtain ⟨result, hcheck, hreports⟩ := checkScenario_reports hpass.single htested
        hpass.returncode hcount
      obtain ⟨results, hresults, hforall⟩ := ih htidy hrest htests hpasses
      rw [← htotal] at hcheck
      refine ⟨result :: results, ?_, .cons hreports hforall⟩
      rw [List.map_cons, runScenarios, hcheck, ok_bind]
      simp only [hresults, ok_bind]
      rfl

/-- **When the end-to-end test passes.**  In a session whose passes are orderly, with any scenario
files of the simulator in any order, the test finds after each pass the commands that the file
promises: one for each order, or none.  It passes all scenarios if there are five orders each, and
with another number those without commands. -/
theorem reports_of_isRun {run : List (Entry Session Round Reading)}
    (hrun : IsRun (SessionStep setup) Session.initial run)
    (htested : ∀ e ∈ run, (expectedSms.get? e.label.seen.scenario).isSome)
    (horderly : ∀ p ∈ transitions Session.initial run, Orderly setup read p.1 p.2.label) :
    ∃ results, runScenarios 0 (run.map (·.label.seen)) = .ok results ∧
      List.Forall₂ (fun e result => Reports setup e.label result) run results :=
  (Session.tidy_initial setup).reports hload hlives hrun htested horderly

end

/-! ## One order -/

/-- The scenarios of the simulator with one order each. -/
def oneEach : Setup where
  load := shipped
  labelled := shippedFiles_shipped.labelled
  config := oneOrder
  ordersCount := 1
  stateConfig := stateConfig 7

/-- The order of `delayed-orders` is processed, and its command is printed. -/
def delayedRound : Round where
  seen := ⟨"delayed-orders", 0, "", [(delayedSnapshot .CREATED 0).delayCommand (.of 1778587201000)]⟩
  now := fun _ => OrderSimulator.noon
  draws := id
  jobRun := atKey "ord-delayed-orders-0001" Job.initial delayedRun

lemma tasks_delayedRound : delayedRound.tasks oneEach = [delayedTask] := rfl

lemma step_delayedRound : SessionStep oneEach Session.initial delayedRound
    [Session.initial.reading oneEach delayedRound (some 1)]
    (Session.initial.count oneEach delayedRound) := by
  refine .counted ⟨List.not_mem_nil, isRun_delayedRun, ?_, by decide +kernel, by decide⟩ rfl
  intro k hk
  have hids : processedOrders delayedRound.jobRun
      = List.replicate 2 "ord-delayed-orders-0001" := rfl
  rw [hids] at hk
  obtain rfl := List.eq_of_mem_replicate hk
  decide +kernel

lemma orderly_delayedRound : Orderly oneEach OrderState.ofJson Session.initial delayedRound where
  single := rfl
  returncode := rfl
  ends := by
    rw [tasks_delayedRound]
    exact List.forall_mem_singleton.mpr (by decide +kernel)
  processed := List.forall_mem_singleton.mpr processed_delayedRun
  printed := by decide +kernel

/-- The command is found, and with one order the test does not pass. -/
theorem reports_delayedRound : ∃ result, runScenarios 0 [delayedRound.seen] = .ok [result] ∧
    result.actualSmsCount = 1 ∧ result.passed = false := by
  obtain ⟨_, hresults, hreports⟩ := @reports_of_isRun oneEach shippedFiles_shipped lives_delayedRun
    OrderState.ofJson [⟨delayedRound, _, _⟩] ⟨step_delayedRound, trivial⟩
    (List.forall_mem_singleton.mpr rfl) (List.forall_mem_singleton.mpr orderly_delayedRound)
  obtain ⟨result, results, h, hnil, rfl⟩ := List.forall₂_cons_left_iff.mp hreports
  obtain rfl := List.forall₂_nil_left_iff.mp hnil
  refine ⟨result, hresults, h.count, Bool.eq_false_iff.mpr fun hpassed => ?_⟩
  have hfive : oneEach.ordersCount = 5 := h.passed.mp hpassed rfl
  exact absurd hfive (by decide)

end EndToEnd
