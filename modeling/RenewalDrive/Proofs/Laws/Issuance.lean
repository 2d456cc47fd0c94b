import Mathlib
import RenewalDrive.Proofs.Laws.Completion

/-!
# Issuance once

A renewal that was completed is not attempted again by the same process until an evaluation
finds the staged credentials, or newer ones, in use. Neither a refused save nor a refused load
brings an older state of the job back: a job is replaced by its record only when it is not
marked as changed, and then the record says what the job says.
-/

namespace RenewalDrive

open Deed

/-- The record is that of a finished drive whose credentials become valid at a time. -/
def JobRecord.Pending (staged : Instant) (record : JobRecord) : Prop :=
  record.finished = true ∧ record.validFrom = some staged

def Older (staged : Instant) (domain : Option ManagedDomain) : Prop :=
  forall found credential, domain = some found -> found.credential = some credential ->
    ¬ staged ≤ credential.validFrom

section

variable {staged : Instant} {job : DriveJob}

theorem activated_iff_not_older {domain : Option ManagedDomain}
    (hjob : job.toRecord.Pending staged) : job.Activated domain ↔ ¬ Older staged domain := by
  have hfinished : job.finished = true := hjob.1
  have hstaged : job.validFrom = some staged := hjob.2
  rcases domain with - | found
  · simp [DriveJob.Activated, Older]
  · simp [DriveJob.Activated, DriveJob.isActivated, Older, hfinished, hstaged, Option.any_eq_true]

theorem keeps_pending (name : String) (staged : Instant) :
    Keeps name (Older staged) (fun _ => True)
      (DriveJob.Backed (JobRecord.Pending staged)) := by
  apply keeps_backed
  · intro record name hpending
    exact hpending
  · intro job domain holder hpending
    rw [activated_iff_not_older hpending]
    exact not_not_intro holder
  · intro job now domain deeds findings _ _ _ hpursues hpending
    have hrenewed : forall renewed, job.course domain now ≠ .renew renewed := by
      intro renewed hcourse
      have hfinished : job.finished = true := hpending.1
      rw [DriveJob.finished_of_renew hcourse] at hfinished
      cases hfinished
    generalize job.course domain now = course at hpursues hrenewed
    cases hpursues with
    | completed renewed _ _ _ _ =>
        exact absurd rfl (hrenewed renewed)
    | failed renewed _ _ _ _ _ =>
        exact absurd rfl (hrenewed renewed)
    | _ =>
        exact hpending

end

/-!
## Until the activation
-/

section

variable {name : String} {staged : Instant} {setup : Setup} {deeds : List Deed}

theorem Inspects.older {now : Instant} {domain : Option ManagedDomain}
    (h : Inspects now (setup.registry.get? name) deeds domain)
    (hidle : forall deed, deed ∈ deeds ->
      (⟨setup, deed⟩ : Happening).activates name staged = false) : Older staged domain := by
  intro found credential hfound hcredential
  generalize hget : setup.registry.get? name = configured at h
  cases h with
  | unmanaged =>
      cases hfound
  | managed configured answer =>
      cases hfound
      have hname : configured.name = name := Registry.name_of_get? hget
      have hactivates := hidle _ List.mem_cons_self
      simp only [Happening.activates, hget, hname, decide_true, Bool.true_and, Option.any_some,
        Option.any_eq_false, decide_eq_false_iff_not] at hactivates
      rw [ManagedDomain.current_credential] at hcredential
      exact hactivates credential hcredential

theorem Happening.look_of_activates {happening : Happening}
    (h : happening.activates name staged = true) :
    exists answer, happening.deed = .credentialLoaded name answer ∧
      forall configured now, happening.setup.registry.get? name = some configured ->
        exists credential, (configured.current now answer).credential = some credential ∧
          staged ≤ credential.validFrom := by
  rcases happening with ⟨setup, deed⟩
  cases deed with
  | credentialLoaded owner answer =>
      simp only [activates, Bool.and_eq_true, decide_eq_true_eq, Option.any_eq_true] at h
      rcases h with ⟨rfl, configured, hget, credential, hcredential, hle⟩
      refine ⟨answer, rfl, ?_⟩
      intro other now hother
      rw [hget] at hother
      cases hother
      exact ⟨credential, (configured.current_credential now answer).trans hcredential, hle⟩
  | _ =>
      cases h

theorem Strand.pending {standing later : Standing} {trace : List Happening}
    (h : Strand name false standing trace later)
    (hidle : forall happening, happening ∈ trace -> happening.activates name staged = false)
    (hpending : standing.Meets (DriveJob.Backed (JobRecord.Pending staged))) :
    later.Meets (DriveJob.Backed (JobRecord.Pending staged)) := by
  refine h.meets ?_ ?_ hpending
  · intro setup deeds verdict job evaluated record later hdeeds hname hevaluates hpath hbacked
    refine hevaluates.keeps (keeps_pending name staged) hname hpath ?_ (fun _ _ => trivial) hbacked
    intro now inspecting domain hinspects hsub
    exact hinspects.older fun deed hdeed => hidle _ (hdeeds deed (hsub deed hdeed))
  · intro job record later answer hpath hbacked
    exact hbacked.markedAs hpath fun _ hrecord => hrecord

variable {domain : ManagedDomain} {reset : Bool} {outcome : RenewOutcome} {took : Span}
  {job evaluated : DriveJob} {record later : Option JobRecord} {first last : List Deed}
  {now : Instant}

theorem Tries.activates
    (h : Tries setup.registry job domain reset outcome took first now last evaluated)
    (hname : job.name = name) (hpath : RecordPath name record (first ++ deeds) later)
    (hbacked : job.Backed (JobRecord.Pending staged) record) :
    exists deed, deed ∈ first ∧ (⟨setup, deed⟩ : Happening).activates name staged = true := by
  by_contra hidle
  simp only [not_exists, not_and, Bool.not_eq_true] at hidle
  cases h with
  | @cut loading inspecting beginning _ loaded begun seen _ _ answer hloads _ hinspects hbegins
      hcourse _ =>
      rcases hpath.split with ⟨cut, hpath, _⟩
      rcases hpath.split with ⟨loadedRecord, hloading, _⟩
      have hpending : loaded.toRecord.Pending staged :=
        (hloads.backed hname hloading (fun _ _ hrecord => hrecord) hbacked).1
      rw [hloads.name_eq, hname] at hinspects
      have holder : Older staged seen := by
        apply hinspects.older
        intro deed hdeed
        apply hidle
        simp [hdeed]
      cases hbegins with
      | generation _ hactivated =>
          exact (activated_iff_not_older hpending).mp hactivated holder
      | kept _ =>
          have hfinished : loaded.finished = true := hpending.1
          rw [DriveJob.finished_of_renew hcourse] at hfinished
          cases hfinished

theorem Tries.pending
    (h : Tries setup.registry job domain reset outcome took first now last evaluated)
    (hname : job.name = name)
    (hpath : RecordPath name record (first ++ .attempted domain reset outcome took :: last) later)
    (hcomplete : outcome.isComplete = true) :
    exists reading saved answer, last = [.clockRead reading, .recordSaved name saved answer] ∧
      evaluated.Backed (JobRecord.Pending (outcome.validFrom.getD reading)) later := by
  cases h with
  | cut answer _ _ _ _ _ hpursues =>
      cases hpursues with
      | failed _ _ _ _ hfailed _ =>
          rw [hcomplete] at hfailed
          cases hfailed
      | completed _ _ _ reading _ =>
          rw [hname] at hpath ⊢
          refine ⟨reading, _, answer, rfl, ?_⟩
          rcases hpath.split with ⟨_, _, hpath⟩
          rcases hpath.of_cons with ⟨_, hpath⟩
          rcases hpath.of_cons with ⟨_, hpath⟩
          have hlater := hpath.of_single.2
          rcases answer with error | done
          · refine ⟨⟨rfl, rfl⟩, ?_⟩
            intro hclean
            cases hclean
          · refine ⟨⟨rfl, rfl⟩, ?_⟩
            intro _ found hfound
            rw [hlater, recordAfter, if_pos rfl] at hfound
            cases hfound
            exact ⟨rfl, rfl⟩

end

/-!
## At the activation
-/

/-- The evaluation of a name that finds the staged credentials, or newer ones, in use, cut at
its look at them. The job that it reloaded is finished with what is staged; that is removed,
and the decision is taken for that job with its finish, its announcement, the staged time and
its errors cleared, before the job is saved with what came of it. -/
inductive StartsOver (name : String) (staged : Instant) (setup : Setup) :
    List Happening -> Deed -> List Happening -> Prop where
  | cut {loading deciding storing : List Deed} {job loaded begun evaluated : DriveJob}
      {configured : ManagedDomain} {credential : Credential} {now : Instant} {findings : Findings}
      (early late : List Happening) (answer : Except StoreError (Option Credential))
      (removing : Except StoreError Unit) :
      job.name = name ->
      Reloads job loading loaded ->
      loaded.finished = true ->
      loaded.validFrom = some staged ->
      setup.registry.get? name = some configured ->
      (configured.current now answer).credential = some credential ->
      staged ≤ credential.validFrom ->
      begun =
        { loaded with
          finished := false
          notified := false
          validFrom := none
          errorRuns := 0
          resetStaging := true
          dirty := true } ->
      Pursues begun now (begun.course (some (configured.current now answer)) now) deciding
        findings ->
      Stores (.recorded findings) storing evaluated ->
      StartsOver name staged setup
        (early ++ (loading ++ [clockRead now]).map (Happening.mk setup))
        (.credentialLoaded name answer)
        ((purged .staging name removing :: (deciding ++ storing)).map (Happening.mk setup) ++ late)

section

variable {name : String} {staged : Instant}

theorem StartsOver.prepend {setup : Setup} {before after : List Happening} {deed : Deed}
    (h : StartsOver name staged setup before deed after) (earlier : List Happening) :
    StartsOver name staged setup (earlier ++ before) deed after := by
  cases h with
  | cut early late answer removing hname hloads hfinished hstaged hget hcredential hle hbegun
      hpursues hstores =>
      rw [← List.append_assoc]
      exact StartsOver.cut (earlier ++ early) late answer removing hname hloads hfinished hstaged
        hget hcredential hle hbegun hpursues hstores

theorem Looks.startsOver {setup : Setup} {job evaluated : DriveJob}
    {record later : Option JobRecord} {answer : Except StoreError (Option Credential)}
    {first last : List Deed}
    (h : Looks setup.registry job answer first last evaluated) (hname : job.name = name)
    (hpath : RecordPath name record (first ++ .credentialLoaded name answer :: last) later)
    (hbacked : job.Backed (JobRecord.Pending staged) record)
    (hinUse : forall configured now, setup.registry.get? name = some configured ->
      exists credential, (configured.current now answer).credential = some credential ∧
        staged ≤ credential.validFrom) (early late : List Happening) :
    StartsOver name staged setup (early ++ first.map (Happening.mk setup))
      (.credentialLoaded name answer) (last.map (Happening.mk setup) ++ late) := by
  cases h with
  | @cut loading beginning pursuing storing loaded begun _ configured now findings hloads hget
      hbegins hpursues hstores =>
      have hloaded : loaded.name = name := hloads.name_eq.trans hname
      rw [hloaded] at hget
      rcases hinUse configured now hget with ⟨credential, hcredential, hle⟩
      rcases hpath.split with ⟨cut, hpath, _⟩
      rcases hpath.split with ⟨loadedRecord, hloading, _⟩
      have hpending : loaded.toRecord.Pending staged :=
        (hloads.backed hname hloading (fun _ _ hrecord => hrecord) hbacked).1
      cases hbegins with
      | kept hkept =>
          rw [activated_iff_not_older hpending, not_not] at hkept
          exact absurd hle (hkept _ credential rfl hcredential)
      | generation removing _ =>
          rw [hloaded, List.singleton_append]
          refine StartsOver.cut early late answer removing hname hloads hpending.1 hpending.2 hget
            hcredential hle ?_ hpursues hstores
          rfl

/-- A pending drive is not attempted again until its activation. -/
theorem Strand.unattempted {standing later : Standing} {trace : List Happening}
    (h : Strand name false standing trace later)
    (hpending : standing.Meets (DriveJob.Backed (JobRecord.Pending staged)))
    {happening : Happening} (hmem : happening ∈ untilActivated name staged trace) :
    happening.deed.attempts name = false := by
  by_contra hattempts
  rcases happening with ⟨setup, deed⟩
  cases deed with
  | attempted domain reset outcome took =>
      have hname : domain.name = name := by simpa [attempts, attempt?] using hattempts
      have hidle : forall happening, happening ∈ untilActivated name staged trace ->
          happening.activates name staged = false :=
        fun _ => idle_of_mem_untilActivated
      rcases List.append_of_mem hmem with ⟨before, after, huntil⟩
      have htrace : trace = before ++ ⟨setup, .attempted domain reset outcome took⟩ ::
          (after ++ trace.dropWhile fun happening => !happening.activates name staged) := by
        rw [← List.cons_append, ← List.append_assoc, ← huntil]
        exact List.takeWhile_append_dropWhile.symm
      rw [huntil] at hidle
      rw [htrace] at h
      rcases h.tries hname with ⟨mid, next, job, evaluated, first, now, last, early, late, hearly,
        hjob, howner, htries, hpath, _, _, rfl, _⟩
      have hmid :=
        hearly.pending (fun happening hmem => hidle happening (by simp [hmem])) hpending
      -- An attempt needs a job that started over, and the same evaluation activated it.
      rcases htries.activates howner hpath (hmid job hjob) with ⟨deed, hdeed, hactivates⟩
      rw [hidle ⟨setup, deed⟩ (by simp [hdeed])] at hactivates
      cases hactivates
  | _ =>
      exact hattempts rfl

/-- The activation of a pending drive makes it start over. -/
theorem Strand.startsOver {standing later : Standing} {trace rest : List Happening}
    {activating : Happening} (h : Strand name false standing trace later)
    (hpending : standing.Meets (DriveJob.Backed (JobRecord.Pending staged)))
    (htrace : trace = untilActivated name staged trace ++ activating :: rest) :
    StartsOver name staged activating.setup (untilActivated name staged trace) activating.deed
      rest := by
  have hidle : forall happening, happening ∈ untilActivated name staged trace ->
      happening.activates name staged = false :=
    fun _ => idle_of_mem_untilActivated
  have hactivates := activates_of_eq_untilActivated htrace
  rcases Happening.look_of_activates hactivates with ⟨answer, hlook, hinUse⟩
  generalize untilActivated name staged trace = before at htrace hidle ⊢
  rw [htrace] at h
  rcases h.turn_of_mem with ⟨mid, next, owner, first, last, early, late, hearly, hturn, hpath, _,
    rfl, rfl, rfl⟩
  rw [hlook] at hturn hpath ⊢
  rcases hturn.looks with ⟨job, evaluated, hjob, _, howner, hlooks⟩
  have hmid := hearly.pending (fun happening hmem => hidle happening (by simp [hmem])) hpending
  exact hlooks.startsOver howner hpath (hmid job hjob) hinUse early late

end

/-- Whatever the store refuses and the clock says, once an attempt for a name completed, a
process makes no other one for that name until an evaluation finds credentials in use that
became valid at the staged time or later, and that evaluation decides for a job that starts
over. -/
theorem issued_once_until_activated {origin started later : Process} {registry : Registry}
    {settings : DriveSettings} {calls : List Call} {early before after : List Happening}
    {setup : Setup} {domain : ManagedDomain} {reset : Bool} {outcome : RenewOutcome} {took : Span}
    {name : String} (hdistinct : registry.Distinct)
    (hstart : Run origin [.start registry settings] early started)
    (hrun : Run started calls
      (before ++ ⟨setup, .attempted domain reset outcome took⟩ :: after) later)
    (hstays : forall call, call ∈ calls -> call.isStart = false)
    (hname : domain.name = name) (hcomplete : outcome.isComplete = true) :
    exists reading rest, after = ⟨setup, .clockRead reading⟩ :: rest ∧
      (forall happening,
        happening ∈ untilActivated name (outcome.validFrom.getD reading) rest ->
          happening.deed.attempts name = false) ∧
      forall activating last,
        rest = untilActivated name (outcome.validFrom.getD reading) rest ++ activating :: last ->
          StartsOver name (outcome.validFrom.getD reading) activating.setup
            (untilActivated name (outcome.validFrom.getD reading) rest) activating.deed last := by
  have hsound : started.Sound := hstart.sound_of_start hdistinct
  rcases hrun.strand_of_stays name hsound hstays with ⟨_, hstrand⟩
  rcases hstrand.tries hname with ⟨mid, next, job, evaluated, first, now, last, _, late, _, _,
    howner, htries, hpath, hevaluated, hlate, _, rfl⟩
  rcases htries.pending howner hpath hcomplete with ⟨reading, saved, answer, rfl, hbacked⟩
  have hnext : next.Meets
      (DriveJob.Backed (JobRecord.Pending (outcome.validFrom.getD reading))) := by
    intro other hother
    rw [hevaluated] at hother
    cases hother
    exact hbacked
  have huntil : untilActivated name (outcome.validFrom.getD reading)
      ([⟨setup, .recordSaved name saved answer⟩] ++ late) =
        [⟨setup, .recordSaved name saved answer⟩] ++
          untilActivated name (outcome.validFrom.getD reading) late :=
    untilActivated_append (List.forall_mem_singleton.mpr rfl)
  rw [List.singleton_append, List.singleton_append] at huntil
  refine ⟨reading, ⟨setup, .recordSaved name saved answer⟩ :: late, rfl, ?_, ?_⟩
  · rw [huntil]
    exact List.forall_mem_cons.mpr ⟨rfl, fun _ hmem => hlate.unattempted hnext hmem⟩
  · rw [huntil]
    intro activating last heq
    exact (hlate.startsOver hnext (List.cons.inj heq).2).prepend
      [⟨setup, .recordSaved name saved answer⟩]

/-- A process that is to be started, in a world where the credentials in use have expired and
the next attempt completes with credentials that are valid at once, as the old ones were. -/
def replacing : Process where
  world :=
    { Rehearsal.atRest (MemoryStore.empty.saveCredential "a" ⟨.epoch, .epoch⟩) with
      scripts := [⟨none, .complete .epoch, .zero⟩] }
  context := none

theorem issued_again_after_activation :
    exists early started before rest later,
      Run replacing [.start (Registry.single "a" .incomplete) {}] early started ∧
      Run started [.tick .running, .tick .running]
        (before ++ ⟨.single .incomplete, .attempted
          ⟨"a", .expired, .auto, .default, some ⟨.epoch, .epoch⟩⟩ false (.complete .epoch) .zero⟩ ::
            ⟨.single .incomplete, .clockRead .epoch⟩ :: rest) later ∧
      (exists happening, happening ∈ rest ∧ happening.deed.attempts "a" = true) ∧
      (forall happening, happening ∈ untilActivated "a" .epoch rest ->
        happening.deed.attempts "a" = false) ∧
      exists activating last, rest = untilActivated "a" .epoch rest ++ activating :: last ∧
        StartsOver "a" .epoch activating.setup (untilActivated "a" .epoch rest) activating.deed
          last := by
  let setup : Setup := .single .incomplete
  let expired : ManagedDomain := ⟨"a", .expired, .auto, .default, some ⟨.epoch, .epoch⟩⟩
  let announced : JobRecord := { finishedRecord with notified := true }
  let failed : JobRecord :=
    { name := "a", nextRun := some ⟨5, 0, by decide⟩, errorRuns := 1, lastStatus := .failed,
      lastMessage := some "no scripted outcome" }
  let look : Happening := ⟨setup, .credentialLoaded "a" (.ok (some ⟨.epoch, .epoch⟩))⟩
  let before : List Happening :=
    [.clockRead .epoch, .clockRead .epoch, .recordLoaded "a" (.ok none), .clockRead .epoch,
      .credentialLoaded "a" (.ok (some ⟨.epoch, .epoch⟩))].map (Happening.mk setup)
  let waited : List Happening := finishing setup ++
    [.clockRead .epoch, .clockRead .epoch, .recordLoaded "a" (.ok (some announced)),
      .clockRead .epoch].map (Happening.mk setup)
  let renewed : List Happening :=
    [.purged .staging "a" (.ok ()),
      .attempted expired true (.failed "no scripted outcome") .zero,
      .recordSaved "a" failed (.ok ()), .clockRead .epoch, .clockRead .epoch].map
        (Happening.mk setup)
  have hplay : (replacing.play [.start (Registry.single "a" .incomplete) {}]).map
      (fun played => ((played.1.play [.tick .running, .tick .running]).map
        (fun further => further.2), played.2)) =
      .ok (.ok (before ++ ⟨setup, .attempted expired false (.complete .epoch) .zero⟩ ::
          ⟨setup, .clockRead .epoch⟩ :: (waited ++ look :: renewed)),
        resuming setup none) := by
    cbv
  rcases Process.runs_of_play hplay with ⟨started, later, hstart, hrun⟩
  refine ⟨_, started, before, waited ++ look :: renewed, later, hstart, hrun, ?_, ?_⟩
  · exact ⟨⟨setup, .attempted expired true (.failed "no scripted outcome") .zero⟩,
      by simp [renewed], rfl⟩
  · rcases issued_once_until_activated (Registry.single_distinct "a" .incomplete) hstart hrun
      (by decide) rfl rfl with ⟨reading, rest, hafter, hnone, hover⟩
    rcases List.cons_eq_cons.mp hafter with ⟨hreading, rfl⟩
    have huntil : untilActivated "a" .epoch (waited ++ look :: renewed) = waited := rfl
    have hsplit : waited ++ look :: renewed =
        untilActivated "a" .epoch (waited ++ look :: renewed) ++ look :: renewed := by
      rw [huntil]
    exact ⟨hnone, look, renewed, hsplit, hover look renewed hsplit⟩

end RenewalDrive
