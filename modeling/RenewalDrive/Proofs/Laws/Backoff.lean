import Mathlib
import RenewalDrive.Proofs.Time.Order
import RenewalDrive.Proofs.Drive.Readings
import RenewalDrive.Proofs.Run.Attempt

/-!
# Backing off

After an attempt that does not complete, the next attempt for the same name waits for a pause
that doubles with every failure, up to an hour. Reloads, refused saves and evaluations that
find nothing to do lie between the two, and one of the latter may drop the instant to wait
for; but it does so only when that instant has passed.
-/

namespace RenewalDrive

open Deed

/-!
## Pauses
-/

/-- The limit of the doublings changes nothing: the longest pause is reached before. -/
theorem Backoff.seconds_eq (errorRuns : Nat) :
    seconds errorRuns = min 3600 (5 * 2 ^ (errorRuns - 1)) := by
  unfold seconds baseSeconds limitSeconds doublingsLimit
  rw [min_comm]
  change min 3600 (5 * 2 ^ min (errorRuns - 1) 20) = _
  rcases Nat.le_total (errorRuns - 1) 20 with hfew | hmany
  · rw [min_eq_left hfew]
  · have hpower : 2 ^ 20 ≤ 2 ^ (errorRuns - 1) := Nat.pow_le_pow_right (by decide) hmany
    rw [min_eq_right hmany]
    omega

/-!
## What is seen in a trace
-/

def readingsIn (trace : List Happening) : List Instant :=
  readings (trace.map (·.deed))

@[simp] theorem readingsIn_append (first second : List Happening) :
    readingsIn (first ++ second) = readingsIn first ++ readingsIn second := by
  simp [readingsIn]

@[simp] theorem readingsIn_cons (happening : Happening) (trace : List Happening) :
    readingsIn (happening :: trace) = happening.deed.reading?.toList ++ readingsIn trace := by
  simp [readingsIn]

@[simp] theorem readingsIn_map (setup : Setup) (deeds : List Deed) :
    readingsIn (deeds.map (Happening.mk setup)) = readings deeds := by
  rw [readingsIn, List.map_map]
  exact congrArg readings (List.map_id deeds)

theorem readingsIn_sublist {first second : List Happening} (h : first.Sublist second) :
    (readingsIn first).Sublist (readingsIn second) :=
  (h.map _).filterMap _

/-- The record of a name that a deed asks the store to keep. -/
def Deed.kept? (name : String) : Deed -> Option JobRecord
  | .recordSaved other record _ => if other = name then some record else none
  | _ => none

/-- The errors that the next request to save a record of a name counts, granted or not. -/
def nextErrors (name : String) (trace : List Happening) : Option Nat :=
  (trace.findSome? fun happening => happening.deed.kept? name).map fun record => record.errorRuns

/-- The record of a name that a deed shows: one that is loaded, or one to be kept. -/
def Deed.shown? (name : String) : Deed -> Option JobRecord
  | .recordLoaded other (.ok (some record)) => if other = name then some record else none
  | deed => deed.kept? name

def shownIn (name : String) (trace : List Happening) : List JobRecord :=
  trace.filterMap fun happening => happening.deed.shown? name

theorem mem_shownIn {name : String} {trace : List Happening} {happening : Happening}
    {record : JobRecord} (hmem : happening ∈ trace)
    (hshown : happening.deed.shown? name = some record) : record ∈ shownIn name trace :=
  List.mem_filterMap.mpr ⟨happening, hmem, hshown⟩

theorem ErrorCount.val_add_one {count : ErrorCount}
    (h : (count : Nat) < JobRecord.errorRunsLimit) : ((count + 1 : ErrorCount) : Nat) = count + 1 :=
  Nat.mod_eq_of_lt (Nat.succ_lt_succ h)

/-!
## Courses of unfinished jobs
-/

section

variable {job : DriveJob} {domain : Option ManagedDomain} {now : Instant}

theorem course_of_unfinished (hfinished : job.finished = false) (hinformed : Informed domain) :
    job.course domain now = .unmanaged ∨
      exists found, job.course domain now = .renew found ∨ job.course domain now = .rest found := by
  rcases domain with - | found
  · exact Or.inl rfl
  · refine Or.inr ⟨found, ?_⟩
    rw [hinformed.course_eq, hfinished, if_neg Bool.false_ne_true]
    split
    · exact Or.inl rfl
    · exact Or.inr rfl

theorem informed_of_renew {renewed : ManagedDomain}
    (h : job.course domain now = .renew renewed) : Informed domain := by
  rcases DriveJob.course_eq_renew_iff.mp h with ⟨rfl, hmissing, _⟩
  intro found hfound
  cases hfound
  exact hmissing

theorem not_activated_of_unfinished (hfinished : job.finished = false) :
    ¬ job.Activated domain := by
  rcases domain with - | found
  · simp [DriveJob.Activated]
  · simp [DriveJob.Activated, DriveJob.isActivated, hfinished]

end

/-!
## Counts below their limit
-/

section

variable {name : String} {registry : Registry} {job evaluated : DriveJob} {deeds : List Deed}

theorem StartsContext.errorRuns_eq_zero {settings : DriveSettings} {begun : Option DriveContext}
    (hdistinct : registry.Distinct) (h : StartsContext registry settings deeds begun)
    (hjob : begun.bind (·.job? name) = some job) : job.errorRuns = 0 := by
  have hportion := h.portion name hdistinct
  rw [hjob] at hportion
  generalize (registry.watchedNames.find? fun owner => owner = name) = owner at hportion
  cases hportion with
  | present _ hstarts _ =>
      rcases hstarts with ⟨_, hstarts⟩
      cases hstarts with
      | resumed _ hnone =>
          exact hnone
      | recovered _ _ _ saving _ =>
          cases saving <;> rfl

theorem Evaluates.errorRuns_lt {verdict : Evaluation} {limit : Nat}
    (h : Evaluates registry job deeds verdict evaluated) (hname : job.name = name)
    (hshown : forall deed record, deed ∈ deeds -> deed.shown? name = some record ->
      (record.errorRuns : Nat) < limit)
    (hjob : (job.errorRuns : Nat) < limit) : (evaluated.errorRuns : Nat) < limit := by
  have hloaded : forall {loading : List Deed} {loaded : DriveJob}, Reloads job loading loaded ->
      (forall deed, deed ∈ loading -> deed ∈ deeds) -> (loaded.errorRuns : Nat) < limit := by
    intro loading loaded hloads hsub
    rcases hloads.errorRuns_cases with heq | ⟨record, hrecord, heq⟩
    · rw [heq]
      exact hjob
    · rw [heq]
      exact hshown _ record (hsub _ hrecord) (if_pos hname)
  cases h with
  | notDue now hloads _ =>
      exact hloaded hloads fun deed hdeed => List.mem_append_left _ hdeed
  | @due loading _ loaded _ now hloads _ hevaluates =>
      have hcount := hloaded hloads fun deed hdeed => List.mem_append_left _ hdeed
      cases hevaluates with
      | @phases domain begun _ findings _ _ _ _ _ hbegins hpursues hstores =>
          have howner : (DriveJob.recorded findings).name = name :=
            (hpursues.name_eq.trans hbegins.name_eq).trans (hloads.name_eq.trans hname)
          cases hstores with
          | asked answer _ =>
              have hkept := hshown (.recordSaved (DriveJob.recorded findings).name
                (DriveJob.recorded findings).toRecord answer) _ (by simp) (if_pos howner)
              cases answer <;> exact hkept
          | kept hclean =>
              rw [hpursues.recorded_of_clean hclean]
              cases hbegins with
              | kept _ =>
                  exact hcount
              | generation _ _ =>
                  exact Nat.zero_lt_of_lt hjob

theorem Strand.errorRuns_lt {standing final : Standing} {trace : List Happening}
    {limit : Nat} (h : Strand name false standing trace final)
    (hbelow : forall record, record ∈ shownIn name trace -> (record.errorRuns : Nat) < limit)
    (hstanding : standing.Meets fun job _ => (job.errorRuns : Nat) < limit) :
    final.Meets fun job _ => (job.errorRuns : Nat) < limit := by
  refine h.meets ?_ ?_ hstanding
  · intro setup deeds verdict job evaluated _ _ hdeeds hname hevaluates _ hjob
    refine hevaluates.errorRuns_lt hname ?_ hjob
    intro deed record hdeed hshown
    exact hbelow record (mem_shownIn (hdeeds deed hdeed) hshown)
  · intro job _ _ answer _ hjob
    cases answer <;> exact hjob

end

/-!
## Jobs that back off
-/

/-- The record of a drive that failed a number of times and waits for an instant, unless that
has passed. -/
def JobRecord.BacksOff (errors : ErrorCount) (due : Instant) (passed : Prop)
    (record : JobRecord) : Prop :=
  record.finished = false ∧ record.errorRuns = errors ∧
    (record.nextRun = some due ∨ record.nextRun = none ∧ passed)

theorem JobRecord.BacksOff.mono {errors : ErrorCount} {due : Instant} {passed passed' : Prop}
    {record : JobRecord} (h : record.BacksOff errors due passed) (himp : passed -> passed') :
    record.BacksOff errors due passed' :=
  ⟨h.1, h.2.1, h.2.2.imp_right fun hnone => ⟨hnone.1, himp hnone.2⟩⟩

theorem DriveJob.Backed.mono {holds holds' : JobRecord -> Prop} {job : DriveJob}
    {record : Option JobRecord} (h : job.Backed holds record)
    (himp : forall record, holds record -> holds' record) : job.Backed holds' record :=
  ⟨himp _ h.1, fun hclean found hfound => himp found (h.2 hclean found hfound)⟩

theorem JobRecord.BacksOff.passed {errors : ErrorCount} {due now horizon : Instant} {job : DriveJob}
    (h : job.toRecord.BacksOff errors due (due ≤ horizon)) (hdue : job.isDue now = true)
    (hnow : now ≤ horizon) : due ≤ horizon := by
  rcases h.2.2 with hwaits | ⟨_, hpassed⟩
  · have hnext : job.nextRun = some due := hwaits
    rw [DriveJob.isDue, hnext] at hdue
    exact le_trans (of_decide_eq_true hdue) hnow
  · exact hpassed

theorem keeps_backsOff (name : String) (errors : ErrorCount) (due : Instant) :
    Keeps name Informed (fun deed => deed.attempts name = false)
      (DriveJob.Backed (JobRecord.BacksOff errors due True)) := by
  apply keeps_backed
  · intro record name hrecord
    exact hrecord
  · intro job domain _ hjob
    exact not_activated_of_unfinished hjob.1
  · intro job now domain deeds findings hdomain hinformed hattempts hpursues hjob
    have hrenewed : forall renewed, job.course domain now = .renew renewed ->
        renewed.name = name :=
      fun renewed hcourse => course_renew_name hcourse hdomain
    have hcourse : job.course domain now = .unmanaged ∨ exists found,
        job.course domain now = .renew found ∨ job.course domain now = .rest found :=
      course_of_unfinished hjob.1 hinformed
    generalize job.course domain now = course at hpursues hrenewed hcourse
    cases hpursues with
    | unmanaged =>
        exact ⟨hjob.1, hjob.2.1, Or.inr ⟨rfl, trivial⟩⟩
    | rest _ =>
        exact ⟨hjob.1, hjob.2.1, Or.inr ⟨rfl, trivial⟩⟩
    | blocked =>
        simp at hcourse
    | finished =>
        simp at hcourse
    | completed renewed _ _ _ _ =>
        have hattempt := hattempts _ List.mem_cons_self
        simp [attempts, attempt?, hrenewed renewed rfl] at hattempt
    | failed renewed _ _ _ _ _ =>
        have hattempt := hattempts _ List.mem_cons_self
        simp [attempts, attempt?, hrenewed renewed rfl] at hattempt

section

variable {name : String} {registry : Registry} {job evaluated : DriveJob} {deeds : List Deed}
  {record later : Option JobRecord} {errors : ErrorCount} {due horizon : Instant}

/-- An evaluation without an attempt leaves a job that backs off as it is, or finds that the
instant to wait for has passed. -/
theorem Evaluates.backsOff {verdict : Evaluation}
    (h : Evaluates registry job deeds verdict evaluated) (hname : job.name = name)
    (hpath : RecordPath name record deeds later) (hinformed : Informed (registry.get? name))
    (hattempts : forall deed, deed ∈ deeds -> deed.attempts name = false)
    (hreadings : forall reading, reading ∈ readings deeds -> reading ≤ horizon)
    (hbacked : job.Backed (JobRecord.BacksOff errors due (due ≤ horizon)) record) :
    evaluated.Backed (JobRecord.BacksOff errors due (due ≤ horizon)) later := by
  have hload : forall loading loaded mid, Reloads job loading loaded ->
      RecordPath name record loading mid ->
      loaded.Backed (JobRecord.BacksOff errors due (due ≤ horizon)) mid :=
    fun _ _ _ hloads hloading => hloads.backed hname hloading (fun _ _ hrecord => hrecord) hbacked
  cases h with
  | notDue now hloads _ =>
      rcases hpath.split with ⟨mid, hloading, hreading⟩
      cases hreading.of_single.2
      exact hload _ _ _ hloads hloading
  | @due loading rest loaded _ now hloads hdue hevaluates =>
      rcases hpath.split with ⟨mid, hloading, hpath⟩
      have hloaded := hload _ _ _ hloads hloading
      have hpassed : due ≤ horizon := hloaded.1.passed hdue (hreadings now (by simp))
      have hkept : evaluated.Backed (JobRecord.BacksOff errors due True) later := by
        refine hevaluates.keeps (keeps_backsOff name errors due) (hloads.name_eq.trans hname)
          hpath.of_cons.2 ?_ ?_ (hloaded.mono fun _ hrecord => hrecord.mono fun _ => trivial)
        · intro inspecting domain hinspects _
          exact hinspects.informed_iff.mpr hinformed
        · intro deed hdeed
          exact hattempts deed (by simp [hdeed])
      exact hkept.mono fun _ hrecord => hrecord.mono fun _ => hpassed

theorem Strand.backsOff {setup : Setup} {standing final : Standing} {trace : List Happening}
    (h : Strand name false standing trace final)
    (hsetup : forall happening, happening ∈ trace -> happening.setup = setup)
    (hinformed : Informed (setup.registry.get? name))
    (hattempts : forall happening, happening ∈ trace -> happening.deed.attempts name = false)
    (hreadings : forall reading, reading ∈ readingsIn trace -> reading ≤ horizon)
    (hbacked : standing.Meets
      (DriveJob.Backed (JobRecord.BacksOff errors due (due ≤ horizon)))) :
    final.Meets (DriveJob.Backed (JobRecord.BacksOff errors due (due ≤ horizon))) := by
  refine h.meets ?_ ?_ hbacked
  · intro used deeds verdict job evaluated record later hdeeds hname hevaluates hpath hbacked
    have hused : used = setup := by
      rcases hevaluates.reads with ⟨now, hnow⟩
      exact hsetup _ (hdeeds _ hnow)
    subst hused
    refine hevaluates.backsOff hname hpath hinformed ?_ ?_ hbacked
    · intro deed hdeed
      exact hattempts _ (hdeeds deed hdeed)
    · intro reading hreading
      apply hreadings
      rw [readingsIn, mem_readings]
      exact List.mem_map_of_mem (hdeeds _ (mem_readings.mp hreading))
  · intro job record later answer hpath hbacked
    exact hbacked.markedAs hpath fun _ hrecord => hrecord

variable {domain : ManagedDomain} {reset : Bool} {outcome : RenewOutcome} {took : Span}
  {first last : List Deed} {now : Instant}

/-- An attempt that fails leaves a job that backs off, saved or not. -/
theorem Tries.backsOff
    (h : Tries registry job domain reset outcome took first now last evaluated)
    (hname : job.name = name)
    (hpath : RecordPath name record (first ++ .attempted domain reset outcome took :: last) later)
    (hfailed : outcome.isComplete = false) :
    exists saved answer next, last = [.recordSaved name saved answer] ∧
      evaluated.errorRuns = saved.errorRuns ∧
      now.add? (Backoff.delay saved.errorRuns) = some next ∧
      Informed (registry.get? name) ∧
      evaluated.Backed (JobRecord.BacksOff saved.errorRuns next False) later := by
  cases h with
  | @cut loading _ _ _ loaded begun seen _ _ answer hloads _ hinspects hbegins hcourse hpursues =>
      rw [hloads.name_eq, hname] at hinspects
      have hinformed : Informed (registry.get? name) :=
        hinspects.informed_iff.mp (informed_of_renew hcourse)
      have hfinished : begun.finished = false := DriveJob.finished_of_renew hcourse
      cases hpursues with
      | completed _ _ _ _ hcomplete =>
          rw [hfailed] at hcomplete
          cases hcomplete
      | failed _ _ _ next _ hnext =>
          rw [hname] at hpath ⊢
          refine ⟨_, answer, next, rfl, by cases answer <;> rfl, hnext, hinformed, ?_⟩
          rcases hpath.split with ⟨_, _, hpath⟩
          rcases hpath.of_cons with ⟨_, hpath⟩
          have hlater := hpath.of_single.2
          rcases answer with error | done
          · refine ⟨⟨hfinished, rfl, Or.inl rfl⟩, ?_⟩
            intro hclean
            cases hclean
          · refine ⟨⟨hfinished, rfl, Or.inl rfl⟩, ?_⟩
            intro _ found hfound
            rw [hlater, recordAfter, if_pos rfl] at hfound
            cases hfound
            exact ⟨hfinished, rfl, Or.inl rfl⟩

/-- The next attempt finds that the instant to wait for has passed, and counts on. -/
theorem Tries.counts {setup : Setup} (rest : List Happening)
    (h : Tries registry job domain reset outcome took first now last evaluated)
    (hname : job.name = name) (hpath : RecordPath name record (first ++ deeds) later)
    (hbacked : job.Backed (JobRecord.BacksOff errors due (due ≤ now)) record) :
    due ≤ now ∧ nextErrors name (last.map (Happening.mk setup) ++ rest) =
      some (if outcome.isComplete then 0 else ((errors + 1 : ErrorCount) : Nat)) := by
  cases h with
  | @cut loading _ _ _ loaded begun seen _ _ answer hloads hdue _ hbegins _ hpursues =>
      rcases hpath.split with ⟨cut, hpath, _⟩
      rcases hpath.split with ⟨loadedRecord, hloading, _⟩
      have hloaded : loaded.toRecord.BacksOff errors due (due ≤ now) :=
        (hloads.backed hname hloading (fun _ _ hrecord => hrecord) hbacked).1
      refine ⟨hloaded.passed hdue (le_refl now), ?_⟩
      cases hbegins with
      | generation _ hactivated =>
          exact absurd hactivated (not_activated_of_unfinished hloaded.1)
      | kept _ =>
          have herrors : loaded.errorRuns = errors := hloaded.2.1
          rw [hname]
          cases hpursues with
          | completed _ _ _ reading hcomplete =>
              rw [if_pos hcomplete]
              simp [nextErrors, kept?, DriveJob.recorded, DriveJob.completed, DriveJob.toRecord]
          | failed _ _ _ next hfailed _ =>
              rw [hfailed, if_neg Bool.false_ne_true, ← herrors]
              simp [nextErrors, kept?, DriveJob.recorded, DriveJob.failedOnce, DriveJob.attempted,
                DriveJob.toRecord]

theorem Tries.readings_first
    (h : Tries registry job domain reset outcome took first now last evaluated) :
    readings first = [now] := by
  cases h with
  | cut _ hloads _ hinspects hbegins _ _ =>
      simp [hloads.readings_eq, hinspects.readings_eq, hbegins.readings_eq]

/-- From a failed attempt to the next one on a strand. -/
theorem Strand.next_attempt {setup setup' : Setup} {standing final : Standing}
    {between rest : List Happening}
    (h : Strand name false standing
      (between ++ ⟨setup', .attempted domain reset outcome took⟩ :: rest) final)
    (hname : domain.name = name)
    (hsetup : forall happening, happening ∈ between -> happening.setup = setup)
    (hinformed : Informed (setup.registry.get? name))
    (hattempts : forall happening, happening ∈ between -> happening.deed.attempts name = false)
    (hclock : (readingsIn between).Pairwise (· ≤ ·))
    (hbacked : standing.Meets (DriveJob.Backed (JobRecord.BacksOff errors due False))) :
    exists t, (readingsIn between).getLast? = some t ∧ due ≤ t ∧
      nextErrors name rest =
        some (if outcome.isComplete then 0 else ((errors + 1 : ErrorCount) : Nat)) := by
  rcases h.tries hname with ⟨mid, next, job, evaluated, first, t, last, waiting, late, hwaiting,
    hjob, howner, htries, hpath, _, _, rfl, rfl⟩
  rw [readingsIn_append, readingsIn_map, htries.readings_first] at hclock ⊢
  have hreadings : forall reading, reading ∈ readingsIn waiting -> reading ≤ t := by
    intro reading hreading
    exact (List.pairwise_append.mp hclock).2.2 reading hreading t (List.mem_singleton_self t)
  have hwaited : mid.Meets (DriveJob.Backed (JobRecord.BacksOff errors due (due ≤ t))) := by
    refine hwaiting.backsOff ?_ hinformed ?_ hreadings ?_
    · intro happening hmem
      exact hsetup happening (List.mem_append_left _ hmem)
    · intro happening hmem
      exact hattempts happening (List.mem_append_left _ hmem)
    · intro job hjob
      exact (hbacked job hjob).mono fun _ hrecord => hrecord.mono False.elim
  rcases htries.counts late howner hpath (hwaited job hjob) with ⟨hpassed, hcount⟩
  exact ⟨t, List.getLast?_concat, hpassed, hcount⟩

end

/-!
## Runs
-/

/-- If an attempt for a name does not complete and leaves a number of errors, the next attempt
for that name in the same process belongs to an evaluation that goes by a reading of the clock
at least as late as the pause for that many errors asks for, and it leaves one error more, or
none if it completes, as long as the records that are loaded and saved have fewer errors than a
record may hold. An evaluation goes by the last reading before its attempt, and what it leaves is
in the next request to save the record of the name. -/
theorem attempts_back_off {origin started later : Process} {registry : Registry}
    {settings : DriveSettings} {calls : List Call} {early before between rest : List Happening}
    {setup setup' : Setup} {domain domain' : ManagedDomain} {reset reset' : Bool}
    {outcome outcome' : RenewOutcome} {took took' : Span} {name : String}
    (hdistinct : registry.Distinct)
    (hstart : Run origin [.start registry settings] early started)
    (hrun : Run started calls
      (before ++ ⟨setup, .attempted domain reset outcome took⟩ ::
        (between ++ ⟨setup', .attempted domain' reset' outcome' took'⟩ :: rest)) later)
    (hstays : forall call, call ∈ calls -> call.isStart = false)
    (hclock : (readingsIn (before ++ ⟨setup, .attempted domain reset outcome took⟩ ::
      (between ++ ⟨setup', .attempted domain' reset' outcome' took'⟩ :: rest))).Pairwise (· ≤ ·))
    (hname : domain.name = name) (hname' : domain'.name = name)
    (hfailed : outcome.isComplete = false)
    (hnext : forall happening, happening ∈ between -> happening.deed.attempts name = false)
    (hbelow : forall record, record ∈ shownIn name (before ++ between) ->
      (record.errorRuns : Nat) < JobRecord.errorRunsLimit) :
    exists t due t' errors,
      (readingsIn before).getLast? = some t ∧
      nextErrors name between = some errors ∧ 1 ≤ errors ∧
      t.add? (.ofSeconds ((min 3600 (5 * 2 ^ (errors - 1)) : Nat) : Int)) = some due ∧
      (readingsIn between).getLast? = some t' ∧ due ≤ t' ∧
      nextErrors name rest = some (if outcome'.isComplete then 0 else errors + 1) := by
  have hsound : started.Sound := hstart.sound_of_start hdistinct
  rcases hrun.strand_of_stays name hsound hstays with ⟨_, hstrand⟩
  rcases hrun.setup_eq hstays hstart.setup_of_start with ⟨_, hsetups⟩
  rcases hstrand.tries hname with ⟨mid, next, job, evaluated, first, t, last, earlier, late,
    hearlier, hjob, howner, htries, hpath, hevaluated, hlate, rfl, hafter⟩
  rcases htries.backsOff howner hpath hfailed with
    ⟨saved, answer, due, rfl, hsaved, hdue, hinformed, hbacked⟩
  have hpos : 1 ≤ (saved.errorRuns : Nat) := by
    have hstarted : (started.standing name).Meets fun job _ =>
        (job.errorRuns : Nat) < JobRecord.errorRunsLimit := by
      rcases hstart.of_start with ⟨_, _, hstarts, _⟩
      intro own hown
      rw [hstarts.errorRuns_eq_zero hdistinct hown]
      decide
    have hcounted : (job.errorRuns : Nat) < JobRecord.errorRunsLimit := by
      refine hearlier.errorRuns_lt (fun record hrecord => hbelow record ?_) hstarted job hjob
      rw [shownIn, List.append_assoc, List.filterMap_append]
      exact List.mem_append_left _ hrecord
    rcases htries.counted hfailed with ⟨count, hcount, horigin⟩
    have hlimit : (count : Nat) < JobRecord.errorRunsLimit := by
      rcases horigin with rfl | rfl | ⟨record, hrecord, rfl⟩
      · decide
      · exact hcounted
      · have hmem := List.mem_append_right earlier
          (List.mem_map_of_mem (f := Happening.mk setup) hrecord)
        exact hbelow record (mem_shownIn (List.mem_append_left _ hmem) (if_pos howner))
    rw [← hsaved, hcount, ErrorCount.val_add_one hlimit]
    exact Nat.succ_pos count
  -- The request to save comes before anything else, and the next attempt after it.
  cases between with
  | nil =>
      cases hafter
  | cons head between =>
      rcases List.cons_eq_cons.mp hafter with ⟨rfl, rfl⟩
      have hsetup : forall happening, happening ∈ between -> happening.setup = setup := by
        intro happening hmem
        have hattempt := hsetups ⟨setup, .attempted domain reset outcome took⟩ (by simp)
        exact (hsetups happening (by simp [hmem])).trans hattempt.symm
      have hsorted : (readingsIn between).Pairwise (· ≤ ·) := by
        refine hclock.sublist (readingsIn_sublist ?_)
        apply List.sublist_append_of_sublist_right
        apply List.Sublist.cons
        apply List.Sublist.cons
        exact List.sublist_append_left between _
      have hmeets : next.Meets
          (DriveJob.Backed (JobRecord.BacksOff saved.errorRuns due False)) := by
        intro other hother
        rw [hevaluated] at hother
        cases hother
        exact hbacked
      rcases hlate.next_attempt hname' hsetup hinformed
        (fun happening hmem => hnext happening (List.mem_cons_of_mem _ hmem)) hsorted hmeets with
        ⟨t', ht', hpassed, hcount⟩
      have hlimit : (saved.errorRuns : Nat) < JobRecord.errorRunsLimit :=
        hbelow saved (mem_shownIn (List.mem_append_right _ List.mem_cons_self) (if_pos rfl))
      rw [ErrorCount.val_add_one hlimit] at hcount
      refine ⟨t, due, t', saved.errorRuns, ?_, ?_, hpos, ?_, ?_, hpassed, hcount⟩
      · simp [htries.readings_first]
      · simp [nextErrors, kept?]
      · rw [← Backoff.seconds_eq]
        exact hdue
      · simp [ht', reading?]

/-- A process that is to be started, in a world where attempts fail and the clock moves on by
five seconds after the first regular call. -/
def failing : Process where
  world :=
    { Rehearsal.atRest MemoryStore.empty with
      clock := fun moment => if moment < 11 then .epoch else ⟨5, 0, by decide⟩ }
  context := none

theorem attempts_back_off_once :
    exists early started before between rest later,
      Run failing [.start (Registry.single "a" .incomplete) {}] early started ∧
      Run started [.tick .running, .tick .running]
        (before ++ ⟨⟨Registry.single "a" .incomplete, {}⟩, .attempted
          ⟨"a", .incomplete, .auto, .default, none⟩ false (.failed "no scripted outcome") .zero⟩ ::
            (between ++ ⟨⟨Registry.single "a" .incomplete, {}⟩, .attempted
              ⟨"a", .incomplete, .auto, .default, none⟩ false (.failed "no scripted outcome")
                .zero⟩ :: rest)) later ∧
      (readingsIn before).getLast? = some .epoch ∧ nextErrors "a" between = some 1 ∧
      (readingsIn between).getLast? = some ⟨5, 0, by decide⟩ ∧ nextErrors "a" rest = some 2 := by
  let setup : Setup := ⟨Registry.single "a" .incomplete, {}⟩
  let next : Instant := ⟨5, 0, by decide⟩
  let after : Instant := ⟨15, 0, by decide⟩
  let attempt : Happening := ⟨setup, .attempted ⟨"a", .incomplete, .auto, .default, none⟩ false
    (.failed "no scripted outcome") .zero⟩
  let failed : JobRecord :=
    { name := "a", nextRun := some next, errorRuns := 1, lastStatus := .failed,
      lastMessage := some "no scripted outcome" }
  let before : List Happening :=
    [.clockRead .epoch, .clockRead .epoch, .recordLoaded "a" (.ok none), .clockRead .epoch,
      .credentialLoaded "a" (.ok none)].map (Happening.mk setup)
  let between : List Happening :=
    [.recordSaved "a" failed (.ok ()), .clockRead .epoch, .clockRead .epoch, .clockRead next,
      .clockRead next, .recordLoaded "a" (.ok (some failed)), .clockRead next,
      .credentialLoaded "a" (.ok none)].map (Happening.mk setup)
  let rest : List Happening :=
    [.recordSaved "a" { failed with nextRun := some after, errorRuns := 2 } (.ok ()),
      .clockRead next, .clockRead next].map (Happening.mk setup)
  have hplay : (failing.play [.start (Registry.single "a" .incomplete) {}]).map
      (fun played => ((played.1.play [.tick .running, .tick .running]).map
        (fun further => further.2), played.2)) =
      .ok (.ok (before ++ attempt :: (between ++ attempt :: rest)),
        [.recordLoaded "a" (.ok none), .listed .challenges (.ok [])].map (Happening.mk setup)) := by
    cbv
  rcases Process.runs_of_play hplay with ⟨started, later, hstart, hrun⟩
  refine ⟨_, started, before, between, rest, later, hstart, hrun, rfl, rfl, rfl, ?_⟩
  have hclock : (readingsIn (before ++ attempt :: (between ++ attempt :: rest))).Pairwise
      (· ≤ ·) := by
    decide
  rcases attempts_back_off (Registry.single_distinct "a" .incomplete) hstart hrun (by decide)
    hclock rfl rfl rfl (by decide) (by decide) with
    ⟨_, _, _, errors, _, herrors, _, _, _, _, hcount⟩
  cases Option.some.inj herrors
  exact hcount

end RenewalDrive
