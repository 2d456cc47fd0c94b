import RenewalDrive.Job.Phase
import RenewalDrive.Proofs.Drive.Followed
import RenewalDrive.Proofs.Laws.Policy
import RenewalDrive.Proofs.Run.Attempt

/-!
# The phase of a job and its evaluation

The phase is judged from the stored record and the domain alone, and an evaluation decides by
itself what to do. For a job that agrees with its record the two go together: a job that is
blocked or waits makes no attempt, a finished one makes one only when its credentials are in use,
and what is stored after an attempt puts the job into the phase that the outcome calls for.
-/

namespace RenewalDrive

/-- A job that is clean and due agrees with the record that the store has of it, and its domain
has the credentials in use and the state that follows from them. -/
structure DriveJob.UpToDate (registry : Registry) (store : MemoryStore) (now : Instant)
    (domain : ManagedDomain) (job : DriveJob) : Prop where
  managed : registry.get? job.name = some domain
  credential : domain.credential = store.loadCredential domain.name
  assessed : exists informed, domain.state = .assess informed domain.credential now
  clean : job.dirty = false
  due : job.isDue now = true
  stored : job.toRecord = (store.loadJob job.name).getD (DriveJob.fresh job.name).toRecord

/-!
## Phases
-/

theorem DomainState.assess_ne_missing (credential : Option Credential) (now : Instant) :
    assess true credential now ≠ .missingInformation := by
  cases credential with
  | none => simp [assess]
  | some credential => by_cases h : credential.expires ≤ now <;> simp [assess, h]

namespace JobPhase

variable {record : JobRecord} {domain : ManagedDomain} {now : Instant}

theorem classify_of_unnotified (hfinished : record.finished = true)
    (hnotified : record.notified = false) :
    classify (some record) domain now = .finishedPendingActivation := by
  simp [classify, hfinished, hnotified]

theorem classify_of_open_window (hfinished : record.finished = false)
    (hstate : domain.state ≠ .missingInformation) (hrenew : domain.shouldRenew now = true) :
    classify (some record) domain now = .renewing := by
  simp [classify, hfinished, hstate, hrenew]

theorem classify_of_missing (hfinished : record.finished = false)
    (hstate : domain.state = .missingInformation) :
    classify (some record) domain now = .blockedIncomplete := by
  simp [classify, hfinished, hstate]

end JobPhase

namespace DriveJob.UpToDate

variable {registry : Registry} {store : MemoryStore} {now : Instant} {domain : ManagedDomain}
  {job : DriveJob}

theorem finished_iff (h : job.UpToDate registry store now domain) :
    job.finished = true ↔
      JobPhase.classify (store.loadJob job.name) domain now = .finishedPendingActivation ∨
      JobPhase.classify (store.loadJob job.name) domain now = .finishedNotified := by
  have hrecord : job.toRecord.finished = job.finished := rfl
  rw [← hrecord, h.stored]
  cases store.loadJob job.name with
  | none =>
      simp only [Option.getD_none, JobPhase.classify]
      split_ifs <;> simp [toRecord, fresh]
  | some record =>
      simp only [Option.getD_some, JobPhase.classify]
      split_ifs <;> simp [*]

theorem not_renewed (h : job.UpToDate registry store now domain)
    (hphase : JobPhase.classify (store.loadJob job.name) domain now = .blockedIncomplete ∨
      JobPhase.classify (store.loadJob job.name) domain now = .waitingForExpiry) :
    job.finished = false ∧
      (domain.state = .missingInformation ∨ domain.shouldRenew now = false) := by
  have hrecord : job.toRecord.finished = job.finished := rfl
  rw [← hrecord, h.stored]
  revert hphase
  cases store.loadJob job.name with
  | none =>
      simp only [Option.getD_none, JobPhase.classify]
      split_ifs <;> simp [*, toRecord, fresh]
  | some record =>
      simp only [Option.getD_some, JobPhase.classify]
      split_ifs <;> simp_all

theorem reloaded_eq (h : job.UpToDate registry store now domain) :
    job.reloaded (.ok (store.loadJob job.name)) = job := by
  have hstored := h.stored
  cases hload : store.loadJob job.name with
  | none => rfl
  | some record =>
      rw [hload, Option.getD_some] at hstored
      rw [← hstored]
      have hclean := h.clean
      cases job
      cases hclean
      rfl

theorem current_eq (h : job.UpToDate registry store now domain) :
    domain.current now (.ok (store.loadCredential domain.name)) = domain := by
  rcases h.assessed with ⟨informed, hstate⟩
  rw [← h.credential]
  rcases domain with ⟨name, state, driveMode, renewWindow, credential⟩
  cases credential with
  | none => rfl
  | some credential =>
      dsimp only at hstate
      subst hstate
      simp only [ManagedDomain.current, ManagedDomain.install, ManagedDomain.mk.injEq, true_and,
        and_true]
      cases informed with
      | false => rfl
      | true => exact if_neg (DomainState.assess_ne_missing _ now)

theorem found_eq (h : job.UpToDate registry store now domain) : job.found store = job :=
  (if_neg (by simp [h.clean])).trans h.reloaded_eq

theorem inUse_eq (h : job.UpToDate registry store now domain) :
    registry.inUse store now job.name = some domain := by
  rw [Registry.inUse, h.managed, Option.map_some, h.current_eq]

end DriveJob.UpToDate

/-!
## The decision of an evaluation
-/

section

variable {registry : Registry} {store later : MemoryStore} {now t : Instant}
  {domain : ManagedDomain} {job loaded evaluated : DriveJob} {deeds : List Deed}

theorem Reloads.no_attempt (h : Reloads job deeds loaded) :
    forall deed, deed ∈ deeds -> deed.attempt? = none := by
  cases h <;> simp [Deed.attempt?]

theorem Inspects.no_attempt {configured seen : Option ManagedDomain}
    (h : Inspects now configured deeds seen) :
    forall deed, deed ∈ deeds -> deed.attempt? = none := by
  cases h <;> simp [Deed.attempt?]

theorem Begins.no_attempt {seen : Option ManagedDomain} {begun : DriveJob}
    (h : Begins job seen deeds begun) : forall deed, deed ∈ deeds -> deed.attempt? = none := by
  cases h <;> simp [Deed.attempt?]

theorem Stores.no_attempt {stored : DriveJob} (h : Stores job deeds stored) :
    forall deed, deed ∈ deeds -> deed.attempt? = none := by
  cases h <;> simp [Deed.attempt?]

theorem Reloads.loaded_eq (h : Reloads job deeds loaded)
    (hjob : job.UpToDate registry store now domain) (hserves : store.Serves deeds later)
    (hserved : forall deed, deed ∈ deeds -> deed.refused = false) :
    loaded = job ∧ later = store := by
  cases h with
  | kept hdirty =>
      rw [hjob.clean] at hdirty
      cases hdirty
  | asked answer _ =>
      cases hserves with
      | cons hvouches hrest =>
          cases hrest
          cases answer with
          | error error => cases hserved _ List.mem_cons_self
          | ok answer =>
              cases hvouches
              exact ⟨hjob.reloaded_eq, rfl⟩

theorem Inspects.seen_eq {seen : Option ManagedDomain} (h : Inspects now (some domain) deeds seen)
    (hjob : job.UpToDate registry store now domain) (hserves : store.Serves deeds later)
    (hserved : forall deed, deed ∈ deeds -> deed.refused = false) : seen = some domain := by
  cases h with
  | managed _ answer =>
      cases hserves with
      | cons hvouches hrest =>
          cases answer with
          | error error => cases hserved _ List.mem_cons_self
          | ok answer =>
              cases hvouches
              exact congrArg some hjob.current_eq

theorem Stores.loadJob_eq {stored : DriveJob} (h : Stores job deeds stored)
    (hdirty : job.dirty = true) (hserves : store.Serves deeds later)
    (hserved : forall deed, deed ∈ deeds -> deed.refused = false) :
    later.loadJob job.name = some job.toRecord := by
  cases h with
  | kept hclean =>
      rw [hdirty] at hclean
      cases hclean
  | asked answer _ =>
      cases hserves with
      | cons _ hrest =>
          cases hrest
          cases answer with
          | error error => cases hserved _ List.mem_cons_self
          | ok done => exact if_pos rfl

/-- The evaluation of a job that agrees with its record takes the course of its domain. Nothing
before that is an attempt. -/
theorem Evaluates.taken {verdict : Evaluation}
    (h : Evaluates registry job deeds verdict evaluated)
    (hjob : job.UpToDate registry store now domain) (hserves : store.Serves deeds later)
    (hserved : forall deed, deed ∈ deeds -> deed.refused = false) (htime : Elapses now deeds t) :
    exists begun findings before pursuing storing mid,
      deeds = before ++ (pursuing ++ storing) ∧
      (forall deed, deed ∈ before -> deed.attempt? = none) ∧
      begun.name = job.name ∧
      (begun.finished = false ↔
        job.finished = false ∨ job.isActivated domain.credential = true) ∧
      Pursues begun now (begun.course (some domain) now) pursuing findings ∧
      Stores (.recorded findings) storing evaluated ∧ MemoryStore.Serves mid storing later := by
  cases h with
  | notDue reading hloads hdue =>
      rcases hserves.split with ⟨mid, hloading, _⟩
      rcases htime.split with ⟨_, hloadingTime, hreading⟩
      have hloaded := hloads.loaded_eq hjob hloading fun deed hdeed =>
        hserved deed (List.mem_append_left _ hdeed)
      cases hloads.elapses hloadingTime
      rcases hreading.of_cons with ⟨_, ⟨rfl, _⟩, _⟩
      rw [hloaded.1, hjob.due] at hdue
      cases hdue
  | @due loading rest loaded _ reading hloads hdue hevaluates =>
      rcases hserves.split with ⟨mid, hloading, hrest⟩
      rcases htime.split with ⟨_, hloadingTime, hreading⟩
      rcases hloads.loaded_eq hjob hloading fun deed hdeed =>
        hserved deed (List.mem_append_left _ hdeed) with ⟨rfl, rfl⟩
      cases hloads.elapses hloadingTime
      rcases hreading.of_cons with ⟨_, ⟨rfl, _⟩, _⟩
      cases hevaluates with
      | @phases seen begun _ findings inspecting beginning pursuing storing hinspects hbegins
          hpursues hstores =>
          rw [hjob.managed] at hinspects
          cases hrest with
          | cons _ hrest =>
              rcases hrest.split with ⟨mid, hinspecting, hrest⟩
              cases hinspects.seen_eq hjob hinspecting fun deed hdeed =>
                hserved deed (by simp [hdeed])
              rcases hrest.split with ⟨mid, _, hrest⟩
              rcases hrest.split with ⟨mid, _, hstoring⟩
              refine ⟨begun, findings, loading ++ .clockRead reading :: (inspecting ++ beginning),
                pursuing, storing, mid, by simp, ?_, hbegins.name_eq, hbegins.unfinished_iff,
                hpursues, hstores, hstoring⟩
              refine List.forall_mem_append.mpr ⟨hloads.no_attempt, ?_⟩
              refine List.forall_mem_cons.mpr ⟨rfl, ?_⟩
              exact List.forall_mem_append.mpr ⟨hinspects.no_attempt, hbegins.no_attempt⟩

/-- What is recorded after an attempt puts the job into the phase that the outcome calls for. -/
theorem Pursues.phase_of_attempt {begun : DriveJob} {findings : Findings} {course : Course}
    {tried : ManagedDomain} {reset : Bool} {outcome : RenewOutcome} {took : Span}
    (h : Pursues begun now course deeds findings)
    (hattempt : .attempted tried reset outcome took ∈ deeds) (hfinished : begun.finished = false)
    (hstate : domain.state ≠ .missingInformation) (hrenew : domain.shouldRenew now = true) :
    course = .renew tried ∧ (DriveJob.recorded findings).dirty = true ∧
      JobPhase.classify (some (DriveJob.recorded findings).toRecord) domain now =
        if outcome.isComplete then .finishedPendingActivation else .renewing := by
  cases h with
  | completed _ _ _ later hcomplete =>
      rcases List.mem_cons.mp hattempt with heq | hmem
      · cases heq
        rw [if_pos hcomplete]
        exact ⟨rfl, rfl, JobPhase.classify_of_unnotified rfl rfl⟩
      · cases List.mem_singleton.mp hmem
  | failed _ _ _ next hfailed _ =>
      cases List.mem_singleton.mp hattempt
      rw [if_neg (by simp [hfailed])]
      exact ⟨rfl, rfl, JobPhase.classify_of_open_window hfinished hstate hrenew⟩
  | _ => cases hattempt

theorem Evaluates.phase_of_attempt {verdict : Evaluation} {tried : ManagedDomain} {reset : Bool}
    {outcome : RenewOutcome} {took : Span}
    (h : Evaluates registry job deeds verdict evaluated)
    (hjob : job.UpToDate registry store now domain) (hserves : store.Serves deeds later)
    (hserved : forall deed, deed ∈ deeds -> deed.refused = false) (htime : Elapses now deeds t)
    (hattempt : .attempted tried reset outcome took ∈ deeds) :
    tried = domain ∧ domain.state ≠ .missingInformation ∧ domain.shouldRenew now = true ∧
      (job.finished = false ∨ job.isActivated domain.credential = true) ∧
      exists record, later.loadJob job.name = some record ∧
        JobPhase.classify (some record) domain now =
          if outcome.isComplete then .finishedPendingActivation else .renewing := by
  rcases h.taken hjob hserves hserved htime with
    ⟨begun, findings, before, pursuing, storing, mid, rfl, hbefore, hname, hopen, hpursues,
      hstores, hstoring⟩
  have hpursuing : .attempted tried reset outcome took ∈ pursuing := by
    rcases List.mem_append.mp hattempt with hmem | hmem
    · cases hbefore _ hmem
    · rcases List.mem_append.mp hmem with hmem | hmem
      · exact hmem
      · cases hstores.no_attempt _ hmem
  rcases hpursues.attempt_iff.mp ⟨_, hpursuing, rfl⟩ with ⟨renewed, hcourse⟩
  rcases DriveJob.course_eq_renew_iff.mp hcourse with ⟨hseen, hstate, hfinished, hrenew⟩
  cases hseen
  rcases hpursues.phase_of_attempt hpursuing hfinished hstate hrenew with
    ⟨htried, hdirty, hphase⟩
  cases hcourse.symm.trans htried
  have hstored := hstores.loadJob_eq hdirty hstoring fun deed hdeed =>
    hserved deed (List.mem_append_right _ (List.mem_append_right _ hdeed))
  rw [DriveJob.recorded_name, hpursues.name_eq, hname] at hstored
  exact ⟨rfl, hstate, hrenew, hopen.mp hfinished, _, hstored, hphase⟩

theorem Evaluates.phase_of_missing {verdict : Evaluation}
    (h : Evaluates registry job deeds verdict evaluated)
    (hjob : job.UpToDate registry store now domain) (hserves : store.Serves deeds later)
    (hserved : forall deed, deed ∈ deeds -> deed.refused = false) (htime : Elapses now deeds t)
    (hfinished : job.finished = false) (hstate : domain.state = .missingInformation) :
    exists record, later.loadJob job.name = some record ∧
      JobPhase.classify (some record) domain now = .blockedIncomplete := by
  rcases h.taken hjob hserves hserved htime with
    ⟨begun, findings, before, pursuing, storing, mid, rfl, hbefore, hname, hopen, hpursues,
      hstores, hstoring⟩
  have hcourse : begun.course (some domain) now = .blocked := if_pos hstate
  rw [hcourse] at hpursues
  cases hpursues with
  | blocked =>
      have hstored := hstores.loadJob_eq rfl hstoring fun deed hdeed =>
        hserved deed (List.mem_append_right _ (List.mem_append_right _ hdeed))
      have hblocked : (DriveJob.recorded begun.blocked).name = job.name := hname
      rw [hblocked] at hstored
      exact ⟨_, hstored, JobPhase.classify_of_missing (hopen.mpr (.inl hfinished)) hstate⟩

end

/-!
## Evaluations that end
-/

def DriveJob.Stuck (job : DriveJob) (ledger : Ledger) (domain : ManagedDomain) (now : Instant) :
    Prop :=
  ((job.begun (some domain)).course (some domain) now).Breaks now ledger.kept ledger.scripts
    (job.begun (some domain)).errorRuns

theorem Host.evaluateDue_eq_settle {σ : Type} (host : Host σ) (registry : Registry)
    (job : DriveJob) (now : Instant) :
    host.evaluateDue registry job now =
      ((registry.get? job.name).mapM fun domain => host.currentDomain domain now) >>= fun domain =>
        (if domain.any fun domain => job.isActivated domain.credential then
          host.beginGeneration job
        else pure job) >>= fun begun =>
          host.settle begun (some (now, begun.course domain now)) := by
  unfold evaluateDue settle
  congr 1
  funext domain
  split <;> rfl

namespace Rehearsal

open Act

variable {registry : Registry} {ledger : Ledger} {job : DriveJob} {domain : ManagedDomain}
  {now : Instant}

theorem does_inspects (hjob : job.UpToDate registry ledger.store now domain) :
    ((registry.get? job.name).mapM fun domain => host.currentDomain domain now).Does now ledger
      (some domain) ledger := by
  rw [← hjob.inUse_eq]
  exact does_inspection registry job.name now

theorem does_begins (now : Instant) (ledger : Ledger) (job : DriveJob)
    (domain : Option ManagedDomain) :
    exists store, (if domain.any fun domain => job.isActivated domain.credential then
        host.beginGeneration job
      else pure job).Does now ledger (job.begun domain) { ledger with store := store } := by
  unfold DriveJob.begun
  split_ifs
  · exact ⟨_, does_beginGeneration job⟩
  · exact ⟨ledger.store, does_pure job ledger⟩

theorem does_evaluateDue (hjob : job.UpToDate registry ledger.store now domain)
    (h : ¬ job.Stuck ledger domain now) :
    exists evaluated later,
      (host.evaluateDue registry job now).Does now ledger evaluated later := by
  rcases does_begins now ledger job (some domain) with ⟨store, hbegins⟩
  rcases does_settle { ledger with store := store } h with ⟨evaluated, later, hsettle, _⟩
  rw [Host.evaluateDue_eq_settle]
  exact ⟨evaluated, _, does_bind (does_inspects hjob) (does_bind hbegins hsettle)⟩

theorem halts_evaluateDue (hjob : job.UpToDate registry ledger.store now domain)
    (h : job.Stuck ledger domain now) : (host.evaluateDue registry job now).Halts now ledger := by
  rcases does_begins now ledger job (some domain) with ⟨store, hbegins⟩
  have hpursue : (host.pursue (job.begun (some domain)) now
      ((job.begun (some domain)).course (some domain) now)).Halts now
        { ledger with store := store } := halts_pursue h
  rw [Host.evaluateDue_eq_settle]
  exact (does_inspects hjob).halts_bind (hbegins.halts_bind (halts_bind hpursue))

theorem evaluate_ends_iff {world : Rehearsal} (hworld : world.Undisturbed now)
    (hjob : job.UpToDate registry world.store now domain) :
    (exists result later, (host.evaluate registry job).run world = .ok (result, later)) ↔
      ¬ job.Stuck world.ledger domain now := by
  change job.UpToDate registry world.ledger.store now domain at hjob
  have hreload : (host.reload job).Does now world.ledger (job.found world.ledger.store)
      world.ledger := does_reload job
  rw [hjob.found_eq] at hreload
  by_cases hstuck : job.Stuck world.ledger domain now
  · have hhalts : (host.evaluate registry job).Halts now world.ledger := by
      refine hreload.halts_bind (does_now.halts_bind ?_)
      rw [if_pos hjob.due]
      exact halts_bind (halts_evaluateDue hjob hstuck)
    rcases hhalts world hworld rfl with ⟨halt, hhalt⟩
    refine iff_of_false ?_ (not_not.mpr hstuck)
    rintro ⟨result, later, hrun⟩
    cases hrun.symm.trans hhalt
  · rcases does_evaluateDue hjob hstuck with ⟨evaluated, later, hevaluates⟩
    have hdoes : (host.evaluate registry job).Does now world.ledger
        (.evaluated evaluated.lastStatus, evaluated) later := by
      refine does_bind hreload (does_bind does_now ?_)
      rw [if_pos hjob.due]
      exact does_bind hevaluates (does_pure _ later)
    rcases hdoes world hworld rfl with ⟨final, hrun, _⟩
    exact iff_of_true ⟨_, final, hrun⟩ hstuck

end Rehearsal

/-- The phase of a job that agrees with its record goes with its evaluation. One that returns made
no attempt if the job was blocked or waited, and one of a finished job only if its credentials, or
newer ones, are in use; what it stored after an attempt, or of a domain that lacks something, puts
the job into the phase that follows. It returns, where attempts take no time, unless its course is
stuck over a time. -/
theorem phase_agrees_with_evaluation {registry : Registry} {job : DriveJob}
    {domain : ManagedDomain} {world : Rehearsal} {now : Instant} (hclock : world.Stands now)
    (hserving : world.Serving) (hjob : job.UpToDate registry world.store now domain) :
    (forall verdict evaluated later deeds,
      (Rehearsal.host.evaluate registry job).run world = .ok ((verdict, evaluated), later) ->
      later.requests = world.requests ++ deeds ->
      (JobPhase.classify (world.store.loadJob job.name) domain now = .blockedIncomplete ∨
          JobPhase.classify (world.store.loadJob job.name) domain now = .waitingForExpiry ->
        forall tried reset outcome took, .attempted tried reset outcome took ∉ deeds) ∧
      (JobPhase.classify (world.store.loadJob job.name) domain now = .finishedPendingActivation ∨
          JobPhase.classify (world.store.loadJob job.name) domain now = .finishedNotified ->
        forall tried reset outcome took, .attempted tried reset outcome took ∈ deeds ->
          job.isActivated domain.credential = true) ∧
      (forall tried reset outcome took, .attempted tried reset outcome took ∈ deeds ->
        tried = domain ∧ exists record, later.store.loadJob job.name = some record ∧
          JobPhase.classify (some record) domain now =
            if outcome.isComplete then .finishedPendingActivation else .renewing) ∧
      (job.finished = false -> domain.state = .missingInformation ->
        exists record, later.store.loadJob job.name = some record ∧
          JobPhase.classify (some record) domain now = .blockedIncomplete)) ∧
    ((forall script, script ∈ world.scripts -> script.took = .zero) ->
      ((exists result later,
          (Rehearsal.host.evaluate registry job).run world = .ok (result, later)) ↔
        ¬ job.Stuck world.ledger domain now)) := by
  refine ⟨?_, fun hprompt => Rehearsal.evaluate_ends_iff ⟨hclock, hserving, hprompt⟩ hjob⟩
  intro verdict evaluated later deeds hrun hdeeds
  rcases Rehearsal.yields_evaluate registry job world _ later hrun with
    ⟨done, hpassage, hevaluates⟩
  cases hpassage.deeds_eq hdeeds
  rcases Rehearsal.elapses_evaluate hclock hrun hdeeds with ⟨ended, htime, _⟩
  have hserved := Rehearsal.served_evaluate hserving hrun hdeeds
  refine ⟨?_, ?_, ?_, hevaluates.phase_of_missing hjob hpassage.serves hserved htime⟩
  · intro hphase tried reset outcome took hattempt
    rcases hevaluates.phase_of_attempt hjob hpassage.serves hserved htime hattempt with
      ⟨_, hstate, hrenew, _⟩
    rcases (hjob.not_renewed hphase).2 with hmissing | hclosed
    · exact hstate hmissing
    · rw [hclosed] at hrenew
      cases hrenew
  · intro hphase tried reset outcome took hattempt
    rcases hevaluates.phase_of_attempt hjob hpassage.serves hserved htime hattempt with
      ⟨_, _, _, hopen | hactivated, _⟩
    · rw [hjob.finished_iff.mpr hphase] at hopen
      cases hopen
    · exact hactivated
  · intro tried reset outcome took hattempt
    rcases hevaluates.phase_of_attempt hjob hpassage.serves hserved htime hattempt with
      ⟨htried, _, _, _, hrecord⟩
    exact ⟨htried, hrecord⟩

def ManagedDomain.lapsed : ManagedDomain :=
  ⟨"a", .expired, .auto, .default, some ⟨.epoch, .epoch⟩⟩

def DriveJob.activated : DriveJob :=
  { DriveJob.fresh "a" with finished := true, notified := true, validFrom := some .epoch }

def Rehearsal.lapsed : Rehearsal :=
  .atRest ((MemoryStore.empty.saveCredential "a" ⟨.epoch, .epoch⟩).saveJob "a"
    DriveJob.activated.toRecord)

theorem phase_agrees_after_activation :
    JobPhase.classify (Rehearsal.lapsed.store.loadJob "a") .lapsed .epoch = .finishedNotified ∧
    exists evaluated later record,
      (Rehearsal.host.evaluate ⟨[.lapsed]⟩ .activated).run .lapsed =
        .ok ((.evaluated .failed, evaluated), later) ∧
      later.store.loadJob "a" = some record ∧
      JobPhase.classify (some record) .lapsed .epoch = .renewing := by
  have hjob : DriveJob.activated.UpToDate ⟨[.lapsed]⟩ Rehearsal.lapsed.store .epoch .lapsed :=
    ⟨rfl, rfl, ⟨true, rfl⟩, rfl, rfl, rfl⟩
  have hrun : exists evaluated later deeds,
      (Rehearsal.host.evaluate ⟨[.lapsed]⟩ .activated).run .lapsed =
        .ok ((.evaluated .failed, evaluated), later) ∧
      later.requests = Rehearsal.lapsed.requests ++ deeds ∧
      deeds[4]? = some (.attempted .lapsed true (.failed "no scripted outcome") .zero) :=
    ⟨_, _, _, rfl, rfl, rfl⟩
  rcases hrun with ⟨evaluated, later, deeds, hrun, hdeeds, hattempt⟩
  rcases (phase_agrees_with_evaluation (fun _ => rfl) (fun _ _ => rfl) hjob).1 _ _ _ _ hrun
    hdeeds with ⟨_, _, hphase, _⟩
  rcases hphase _ _ _ _ (List.mem_of_getElem? hattempt) with ⟨_, record, hrecord, hrenewing⟩
  exact ⟨rfl, evaluated, later, record, hrun, hrecord, hrenewing⟩

/-- A world whose log takes times of completion, and where the next attempt comes to credentials
that become valid in a year of more than four digits. -/
def Rehearsal.remote : Rehearsal :=
  { Rehearsal.atRest .empty with
    kept := some .info
    scripts := [⟨none, .complete .latest, .zero⟩] }

/-- An attempt completes, and nothing of it is stored: the evaluation halts over the time of the
new credentials, so the job is as new. -/
theorem new_after_remote_completion :
    (DriveJob.fresh "a").UpToDate ⟨[.bare "a"]⟩ Rehearsal.remote.store .epoch (.bare "a") ∧
      Rehearsal.remote.Undisturbed .epoch ∧
      (exists attempted,
        (Rehearsal.host.attempt (.bare "a") false).run .remote =
          .ok (.complete .latest, attempted) ∧
        JobPhase.classify (attempted.store.loadJob "a") (.bare "a") .epoch = .new) ∧
      (Rehearsal.host.evaluate ⟨[.bare "a"]⟩ (.fresh "a")).run .remote =
        .error .yearUnwritable := by
  refine ⟨⟨rfl, rfl, ⟨true, rfl⟩, rfl, rfl, rfl⟩, ⟨fun _ => rfl, fun _ _ => rfl, ?_⟩,
    ⟨_, rfl, rfl⟩, ?_⟩
  · exact List.forall_mem_singleton.mpr rfl
  · rfl

end RenewalDrive
