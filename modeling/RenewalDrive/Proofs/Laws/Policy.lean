import RenewalDrive.Proofs.Drive.Undisturbed
import RenewalDrive.Proofs.Drive.Context

/-!
# A round follows the policy

In an undisturbed world a round makes one attempt for each job that the policy asks to renew, in
the order of the jobs, and no other. Only a round that halts falls short of that, and it does so
over a time that cannot be written or reached.
-/

namespace RenewalDrive

/-!
## What the policy asks for
-/

section

variable (job : DriveJob) (registry : Registry) (store : MemoryStore) (now : Instant)

/-- The domain that the policy has to decide on for a job: the job is due in memory and after a
reload, the domain does not lack information, and the drive has not finished, or its staged
credentials are in use. -/
def DriveJob.subject : Option ManagedDomain :=
  (registry.inUse store now job.name).filter fun domain =>
    job.isDue now && (job.found store).isDue now && domain.state ≠ .missingInformation &&
      (!(job.found store).finished || (job.found store).isActivated domain.credential)

def DriveJob.renewal : Option ManagedDomain :=
  (job.subject registry store now).filter fun domain => domain.shouldRenew now

end

def DriveContext.renewals (context : DriveContext) (store : MemoryStore) (now : Instant) :
    List ManagedDomain :=
  context.jobs.filterMap fun job => job.renewal context.registry store now

def ManagedDomain.choice (domain : ManagedDomain) (now : Instant) : Course :=
  if domain.shouldRenew now then .renew domain else .rest domain

def Script.left (scripts : List Script) (domains : List ManagedDomain) : List Script :=
  domains.foldl (fun scripts domain => (Script.next domain.name scripts).2) scripts

def DriveJob.Breaks (job : DriveJob) (registry : Registry) (store : MemoryStore) (now : Instant)
    (kept : Option LogLevel) (scripts : List Script) : Prop :=
  exists domain, job.subject registry store now = some domain ∧
    (domain.choice now).Breaks now kept scripts ((job.found store).begun (some domain)).errorRuns

def Breaks (registry : Registry) (store : MemoryStore) (now : Instant) (kept : Option LogLevel) :
    List DriveJob -> List Script -> Prop
  | [], _ => False
  | job :: rest, scripts =>
      job.Breaks registry store now kept scripts ∨
        Breaks registry store now kept rest
          (Script.left scripts (job.renewal registry store now).toList)

/-!
## The turn of a job decides on its subject
-/

section

variable {job : DriveJob} {registry : Registry} {store later : MemoryStore} {now : Instant}
  {domain : ManagedDomain} {name : String} {kept : Option LogLevel} {scripts : List Script}

theorem DriveJob.subject_eq_some_iff :
    job.subject registry store now = some domain ↔
      registry.inUse store now job.name = some domain ∧ job.isDue now = true ∧
        (job.found store).isDue now = true ∧ domain.state ≠ .missingInformation ∧
        ((job.found store).finished = false ∨
          (job.found store).isActivated domain.credential = true) := by
  simp [subject, Option.filter_eq_some_iff, and_assoc]

theorem DriveJob.begun_finished :
    (job.begun (some domain)).finished = false ↔
      job.finished = false ∨ job.isActivated domain.credential = true := by
  by_cases hactivated : job.isActivated domain.credential = true
  · simp [begun, hactivated, nextGeneration]
  · simp [begun, hactivated]

/-- A turn takes the choice of the policy for the subject of its job, or a course that asks
nobody for anything. -/
theorem DriveJob.turned_cases (job : DriveJob) (registry : Registry) (store : MemoryStore)
    (now : Instant) :
    (exists domain, job.subject registry store now = some domain ∧
      job.turned registry store now =
        ((job.found store).begun (some domain), some (now, domain.choice now))) ∨
    (job.subject registry store now = none ∧
      forall t course, (job.turned registry store now).2 = some (t, course) ->
        t = now ∧ (course = .unmanaged ∨ course = .blocked ∨ course = .finished)) := by
  by_cases hsubject : exists domain, job.subject registry store now = some domain
  · rcases hsubject with ⟨domain, hsubject⟩
    rcases subject_eq_some_iff.mp hsubject with ⟨hdomain, hdue, hstill, hstate, hfinished⟩
    refine .inl ⟨domain, hsubject, ?_⟩
    have hopen := begun_finished.mpr hfinished
    simp [turned, hdue, hstill, hdomain, course, hstate, hopen, ManagedDomain.choice]
  · have hnone : job.subject registry store now = none := by
      rw [Option.eq_none_iff_forall_ne_some]
      exact fun domain hdomain => hsubject ⟨domain, hdomain⟩
    refine .inr ⟨hnone, fun t course hcourse => ?_⟩
    unfold turned at hcourse
    split_ifs at hcourse with hdue hstill
    cases hcourse
    refine ⟨rfl, ?_⟩
    cases hdomain : registry.inUse store now job.name with
    | none => exact .inl rfl
    | some domain =>
        by_cases hstate : domain.state = .missingInformation
        · exact .inr (.inl (by simp [DriveJob.course, hstate]))
        · refine .inr (.inr ?_)
          have hclosed : ((job.found store).begun (some domain)).finished = true := by
            by_contra hopen
            refine hsubject ⟨domain, subject_eq_some_iff.mpr ⟨hdomain, hdue, hstill, hstate, ?_⟩⟩
            exact begun_finished.mp (by simpa using hopen)
          simp [DriveJob.course, hstate, hclosed]

theorem DriveJob.found_congr (h : MemoryStore.ChangedFor name store later)
    (hname : job.name ≠ name) : job.found later = job.found store := by
  unfold found MemoryStore.loadJob
  rw [h.records job.name hname]

theorem DriveJob.subject_congr (h : MemoryStore.ChangedFor name store later)
    (hname : job.name ≠ name) :
    job.subject registry later now = job.subject registry store now := by
  have hdomain : registry.inUse later now job.name = registry.inUse store now job.name := by
    unfold Registry.inUse MemoryStore.loadCredential
    rw [h.credentials]
  unfold subject
  rw [hdomain, found_congr h hname]

theorem DriveJob.renewal_congr (h : MemoryStore.ChangedFor name store later)
    (hname : job.name ≠ name) :
    job.renewal registry later now = job.renewal registry store now := by
  unfold renewal
  rw [subject_congr h hname]

theorem names_apart {jobs : List DriveJob} (hnodup : ((job :: jobs).map (·.name)).Nodup) :
    (forall other, other ∈ jobs -> other.name ≠ job.name) ∧ (jobs.map (·.name)).Nodup := by
  rw [List.map_cons, List.nodup_cons] at hnodup
  refine ⟨fun other hother heq => ?_, hnodup.2⟩
  exact hnodup.1 (List.mem_map.mpr ⟨other, hother, heq⟩)

theorem breaks_congr (h : MemoryStore.ChangedFor name store later) {jobs : List DriveJob}
    (hname : forall job, job ∈ jobs -> job.name ≠ name) :
    Breaks registry later now kept jobs scripts ↔ Breaks registry store now kept jobs scripts := by
  induction jobs generalizing scripts with
  | nil => exact Iff.rfl
  | cons job rest ih =>
      rcases List.forall_mem_cons.mp hname with ⟨hjob, hrest⟩
      unfold Breaks DriveJob.Breaks
      rw [DriveJob.subject_congr h hjob, DriveJob.renewal_congr h hjob, DriveJob.found_congr h hjob,
        ih hrest]

end

/-!
## Rounds
-/

namespace Rehearsal

open Act

variable {now : Instant} {ledger : Ledger} {registry : Registry} {job : DriveJob}
  {jobs : List DriveJob}

theorem does_settle {course : Course} (ledger : Ledger)
    (h : ¬ course.Breaks now ledger.kept ledger.scripts job.errorRuns) :
    exists visited later, (host.settle job (some (now, course))).Does now ledger visited
        { ledger.pursued job.resetStaging course with store := later } ∧
      MemoryStore.ChangedFor job.name ledger.store later := by
  rcases does_pursue h with ⟨findings, hpursue, hname⟩
  have hkeep : exists kept later, (if (DriveJob.recorded findings).dirty then
        host.save (.recorded findings)
      else return .recorded findings : Act Rehearsal DriveJob).Does now
        (ledger.pursued job.resetStaging course) kept
        { ledger.pursued job.resetStaging course with store := later } ∧
      MemoryStore.ChangedFor (DriveJob.recorded findings).name
        (ledger.pursued job.resetStaging course).store later := does_keep _
  rw [DriveJob.recorded_name, hname, Ledger.pursued_store] at hkeep
  rcases hkeep with ⟨kept, later, hkeep, hchanged⟩
  exact ⟨kept, later, does_bind hpursue hkeep, hchanged⟩

/-- The visit of a job that does not halt makes the attempt that the policy asks for. -/
theorem does_runJob (h : ¬ job.Breaks registry ledger.store now ledger.kept ledger.scripts) :
    exists visited later, (host.runJob registry job).Does now ledger visited later ∧
      later.kept = ledger.kept ∧
      later.scripts =
        Script.left ledger.scripts (job.renewal registry ledger.store now).toList ∧
      later.attempts.map Prod.fst =
        ledger.attempts.map Prod.fst ++ (job.renewal registry ledger.store now).toList ∧
      MemoryStore.ChangedFor job.name ledger.store later.store := by
  rw [Host.runJob_eq]
  rcases does_turn registry job with ⟨between, hturn, hbetween⟩
  have hname := job.turned_name registry ledger.store now
  rcases job.turned_cases registry ledger.store now with
    ⟨domain, hsubject, hturned⟩ | ⟨hsubject, hturned⟩
  · rw [hturned] at hturn hname
    have hgoes : ¬ (domain.choice now).Breaks now ledger.kept ledger.scripts
        ((job.found ledger.store).begun (some domain)).errorRuns :=
      fun hbreaks => h ⟨domain, hsubject, hbreaks⟩
    rcases does_settle { ledger with store := between } hgoes with ⟨visited, later, hsettle, hlater⟩
    rw [hname] at hlater
    refine ⟨visited, _, does_bind hturn hsettle, ?_⟩
    unfold DriveJob.renewal ManagedDomain.choice
    rw [hsubject]
    by_cases hrenew : domain.shouldRenew now = true
    · rw [if_pos hrenew, Option.filter_some, if_pos hrenew]
      exact ⟨rfl, rfl, List.map_append, hbetween.trans hlater⟩
    · rw [if_neg hrenew, Option.filter_some, if_neg hrenew]
      exact ⟨rfl, rfl, (List.append_nil _).symm, hbetween.trans hlater⟩
  · have hnone : job.renewal registry ledger.store now = none := by
      unfold DriveJob.renewal
      rw [hsubject, Option.filter_none]
    rw [hnone]
    generalize job.turned registry ledger.store now = turned at hturn hname hturned
    rcases turned with ⟨begun, _ | ⟨t, course⟩⟩
    · exact ⟨begun, _, does_bind hturn (does_pure begun _), rfl, rfl, (List.append_nil _).symm,
        hbetween⟩
    · rcases hturned t course rfl with ⟨rfl, hcourse⟩
      have hgoes : ¬ course.Breaks t ledger.kept ledger.scripts begun.errorRuns ∧
          forall reset, ({ ledger with store := between } : Ledger).pursued reset course =
            { ledger with store := between } := by
        rcases hcourse with rfl | rfl | rfl
        · exact ⟨id, fun _ => rfl⟩
        · exact ⟨id, fun _ => rfl⟩
        · exact ⟨id, fun _ => rfl⟩
      have hsettle := does_settle { ledger with store := between } hgoes.1
      rw [hgoes.2, hname] at hsettle
      rcases hsettle with ⟨visited, later, hsettle, hlater⟩
      exact ⟨visited, _, does_bind hturn hsettle, rfl, rfl, (List.append_nil _).symm,
        hbetween.trans hlater⟩

theorem halts_runJob (h : job.Breaks registry ledger.store now ledger.kept ledger.scripts) :
    (host.runJob registry job).Halts now ledger := by
  rw [Host.runJob_eq]
  rcases does_turn registry job with ⟨between, hturn, _⟩
  rcases h with ⟨domain, hsubject, hbreaks⟩
  rcases job.turned_cases registry ledger.store now with
    ⟨other, hother, hturned⟩ | ⟨hnone, _⟩
  · cases hsubject.symm.trans hother
    rw [hturned] at hturn
    have hpursue : (host.pursue ((job.found ledger.store).begun (some domain)) now
        (domain.choice now)).Halts now { ledger with store := between } := halts_pursue hbreaks
    exact hturn.halts_bind (halts_bind hpursue)
  · cases hsubject.symm.trans hnone

theorem does_visits (ledger : Ledger) (hnodup : (jobs.map (·.name)).Nodup)
    (h : ¬ Breaks registry ledger.store now ledger.kept jobs ledger.scripts) :
    exists visited later, (jobs.mapM (host.runJob registry)).Does now ledger visited later ∧
      later.attempts.map Prod.fst = ledger.attempts.map Prod.fst ++
        jobs.filterMap fun job => job.renewal registry ledger.store now := by
  induction jobs generalizing ledger with
  | nil => exact ⟨[], ledger, does_pure [] ledger, (List.append_nil _).symm⟩
  | cons job rest ih =>
      rcases names_apart hnodup with ⟨hothers, hdistinct⟩
      rcases not_or.mp h with ⟨hjob, hrest⟩
      rcases does_runJob hjob with ⟨visited, mid, hrun, hkept, hscripts, hattempts, hchanged⟩
      rw [← hkept, ← hscripts, ← breaks_congr hchanged hothers] at hrest
      rcases ih mid hdistinct hrest with ⟨others, later, hothersRun, hlater⟩
      refine ⟨visited :: others, later, ?_, ?_⟩
      · rw [List.mapM_cons]
        exact does_bind hrun (does_bind hothersRun (does_pure _ later))
      · have hcongr : (rest.filterMap fun other => other.renewal registry mid.store now) =
            rest.filterMap fun other => other.renewal registry ledger.store now :=
          List.filterMap_congr fun other hother =>
            DriveJob.renewal_congr hchanged (hothers other hother)
        rw [hlater, hattempts, hcongr, List.append_assoc, List.filterMap_cons]
        cases job.renewal registry ledger.store now <;> rfl

theorem halts_visits (ledger : Ledger) (hnodup : (jobs.map (·.name)).Nodup)
    (h : Breaks registry ledger.store now ledger.kept jobs ledger.scripts) :
    (jobs.mapM (host.runJob registry)).Halts now ledger := by
  induction jobs generalizing ledger with
  | nil => cases h
  | cons job rest ih =>
      rcases names_apart hnodup with ⟨hothers, hdistinct⟩
      rw [List.mapM_cons]
      by_cases hjob : job.Breaks registry ledger.store now ledger.kept ledger.scripts
      · exact halts_bind (halts_runJob hjob)
      · have hrest := h.resolve_left hjob
        rcases does_runJob hjob with ⟨visited, mid, hrun, hkept, hscripts, _, hchanged⟩
        rw [← hkept, ← hscripts, ← breaks_congr hchanged hothers] at hrest
        exact hrun.halts_bind (halts_bind (ih mid hdistinct hrest))

end Rehearsal

def DriveContext.Breaks (context : DriveContext) (world : Rehearsal) (now : Instant) : Prop :=
  RenewalDrive.Breaks context.registry world.store now world.kept context.jobs world.scripts

section

open Rehearsal Act

variable {context : DriveContext} {world : Rehearsal} {now : Instant}

theorem runJobs_follows (hnodup : (context.jobs.map (·.name)).Nodup)
    (hworld : world.Undisturbed now) (h : ¬ context.Breaks world now) :
    exists result later, (host.runJobs context).run world = .ok (result, later) ∧
      later.attempts.map Prod.fst =
        world.attempts.map Prod.fst ++ context.renewals world.store now := by
  rcases does_visits world.ledger hnodup h with ⟨visited, later, hvisits, hlater⟩
  have hround : (host.runJobs context).Does now world.ledger _ later :=
    does_bind does_now (does_bind hvisits (does_bind does_now
      (does_noting rfl (does_pure _ later))))
  rcases hround world hworld rfl with ⟨final, hrun, _, rfl⟩
  exact ⟨_, final, hrun, hlater⟩

theorem runJobs_halts (hnodup : (context.jobs.map (·.name)).Nodup)
    (hworld : world.Undisturbed now) (h : context.Breaks world now) :
    exists halt, (host.runJobs context).run world = .error halt := by
  have hvisits := halts_visits world.ledger hnodup h
  have hround : (host.runJobs context).Halts now world.ledger :=
    does_now.halts_bind (halts_bind hvisits)
  exact hround world hworld rfl

end

/-!
## Evaluations that are not due
-/

def Deed.asksChange : Deed -> Bool
  | .recordSaved _ _ _ => true
  | .purged _ _ _ => true
  | _ => false

theorem MemoryStore.Serves.store_eq {store later : MemoryStore} {deeds : List Deed}
    (h : store.Serves deeds later) (hdeeds : forall deed, deed ∈ deeds -> deed.asksChange = false) :
    later = store := by
  induction h with
  | nil store => rfl
  | @cons store later deed rest _ _ ih =>
      rcases List.forall_mem_cons.mp hdeeds with ⟨hdeed, hrest⟩
      rw [ih hrest]
      cases deed <;> first | rfl | cases hdeed

theorem Evaluates.asks_no_change {registry : Registry} {job evaluated : DriveJob}
    {deeds : List Deed} (h : Evaluates registry job deeds .notDue evaluated) :
    forall deed, deed ∈ deeds -> deed.asksChange = false := by
  cases h with
  | notDue now hloads _ =>
      cases hloads <;> simp [Deed.asksChange]

/-- In an undisturbed world, a round makes exactly the attempts that the policy asks for, in the
order of the jobs, unless it halts over a time; and nothing is asked to change by an evaluation
that is not due. -/
theorem round_follows_policy {context : DriveContext} {world : Rehearsal} {now : Instant}
    (hnodup : (context.jobs.map (·.name)).Nodup) (hworld : world.Undisturbed now) :
    ((exists result later, (Rehearsal.host.runJobs context).run world = .ok (result, later) ∧
        later.attempts.map Prod.fst =
          world.attempts.map Prod.fst ++ context.renewals world.store now) ↔
      ¬ context.Breaks world now) ∧
    (forall result later, (Rehearsal.host.runJobs context).run world = .ok (result, later) ->
      later.attempts.map Prod.fst =
        world.attempts.map Prod.fst ++ context.renewals world.store now) ∧
    forall registry job before evaluated later,
      (Rehearsal.host.evaluate registry job).run before = .ok ((.notDue, evaluated), later) ->
      later.store = before.store ∧ exists deeds, later.requests = before.requests ++ deeds ∧
        forall deed, deed ∈ deeds -> deed.asksChange = false := by
  refine ⟨?_, ?_, ?_⟩
  · constructor
    · rintro ⟨result, later, hrun, _⟩ hbreaks
      rcases runJobs_halts hnodup hworld hbreaks with ⟨halt, hhalt⟩
      cases hrun.symm.trans hhalt
    · exact runJobs_follows hnodup hworld
  · intro result later hrun
    by_cases hbreaks : context.Breaks world now
    · rcases runJobs_halts hnodup hworld hbreaks with ⟨halt, hhalt⟩
      cases hrun.symm.trans hhalt
    · rcases runJobs_follows hnodup hworld hbreaks with ⟨_, _, hrun', hattempts⟩
      cases hrun.symm.trans hrun'
      exact hattempts
  · intro registry job before evaluated later hrun
    rcases Rehearsal.yields_evaluate registry job before _ later hrun with
      ⟨deeds, hpassage, hevaluates⟩
    exact ⟨hpassage.serves.store_eq hevaluates.asks_no_change, deeds, hpassage.requests,
      hevaluates.asks_no_change⟩

def ManagedDomain.bare (name : String) : ManagedDomain :=
  ⟨name, .incomplete, .auto, .default, none⟩

def DriveContext.pair : DriveContext :=
  ⟨⟨[.bare "a", .bare "b"]⟩, {}, [.fresh "a", .fresh "b"]⟩

def Rehearsal.postponed : Rehearsal :=
  .atRest (MemoryStore.empty.saveJob "a" { name := "a", nextRun := some .latest })

theorem round_follows_policy_after_reload :
    (exists result later,
      (Rehearsal.host.runJobs .pair).run Rehearsal.postponed = .ok (result, later) ∧
      later.attempts.map Prod.fst = [ManagedDomain.bare "b"]) := by
  have hnodup : (DriveContext.pair.jobs.map (·.name)).Nodup := by decide
  have hworld : Rehearsal.postponed.Undisturbed .epoch :=
    ⟨fun _ => rfl, fun _ _ => rfl, List.forall_mem_nil _⟩
  have hfirst : (DriveJob.fresh "a").subject DriveContext.pair.registry
      Rehearsal.postponed.store .epoch = none := by
    decide
  have hsecond : (DriveJob.fresh "b").subject DriveContext.pair.registry
      Rehearsal.postponed.store .epoch = some (.bare "b") := by
    decide
  have hgoes : ¬ DriveContext.pair.Breaks Rehearsal.postponed .epoch := by
    rintro (⟨domain, hdomain, _⟩ | ⟨domain, hdomain, hbreaks⟩ | hnothing)
    · cases hfirst.symm.trans hdomain
    · cases hsecond.symm.trans hdomain
      have hpause : Instant.epoch.add? (Backoff.delay 1) ≠ none := by decide
      exact hpause hbreaks
    · exact hnothing
  exact (round_follows_policy hnodup hworld).1.mpr hgoes

/-- A world whose log takes times of expiry, with credentials of the first of two domains that
expire in a year of more than four digits. -/
def Rehearsal.untellable : Rehearsal :=
  { Rehearsal.atRest (MemoryStore.empty.saveCredential "a" ⟨.epoch, .latest⟩) with
    kept := some .debug }

theorem round_halts_before_renewal :
    (DriveContext.pair.jobs.map (·.name)).Nodup ∧ Rehearsal.untellable.Undisturbed .epoch ∧
      DriveContext.pair.renewals Rehearsal.untellable.store .epoch = [ManagedDomain.bare "b"] ∧
      (exists halt, (Rehearsal.host.runJobs { DriveContext.pair with jobs := [.fresh "a"] }).run
        Rehearsal.untellable = .error halt) ∧
      exists halt, (Rehearsal.host.runJobs .pair).run Rehearsal.untellable = .error halt := by
  have hnodup : (DriveContext.pair.jobs.map (·.name)).Nodup := by decide
  have hworld : Rehearsal.untellable.Undisturbed .epoch :=
    ⟨fun _ => rfl, fun _ _ => rfl, List.forall_mem_nil _⟩
  have hsubject : (DriveJob.fresh "a").subject DriveContext.pair.registry
      Rehearsal.untellable.store .epoch =
        some ((ManagedDomain.bare "a").install ⟨.epoch, .latest⟩ .epoch) := by
    decide
  have hbreaks : (DriveJob.fresh "a").Breaks DriveContext.pair.registry
      Rehearsal.untellable.store .epoch (some .debug) [] :=
    ⟨_, hsubject, rfl, .latest, rfl, by decide⟩
  refine ⟨hnodup, hworld, by decide, runJobs_halts (by decide) hworld (.inl hbreaks),
    runJobs_halts hnodup hworld (.inl hbreaks)⟩

end RenewalDrive
