import RenewalDrive.Proofs.Drive.Evaluation
import RenewalDrive.Proofs.Drive.Notice

/-!
# The deeds of a context

What a start does for each watched name and for the challenges that nobody manages any
more, what a round of evaluations does for each job, and what one call of a watchdog does.
-/

namespace RenewalDrive

/-!
## Starts
-/

/-- The job that a start finds for a name. A record with errors makes it drop what the
drive made so far. -/
inductive Starts (name : String) : List Deed -> DriveJob -> Prop where
  | resumed (answer : Except StoreError (Option JobRecord)) :
      ((DriveJob.fresh name).reloaded answer).errorRuns = 0 ->
      Starts name [.recordLoaded name answer] ((DriveJob.fresh name).reloaded answer)
  | recovered (answer : Except StoreError (Option JobRecord))
      (staging challenges saving : Except StoreError Unit) :
      0 < ((DriveJob.fresh name).reloaded answer).errorRuns ->
      Starts name
        [.recordLoaded name answer, .purged .staging name staging,
          .purged .challenges name challenges,
          .recordSaved name (DriveJob.fresh name).toRecord saving]
        ({ DriveJob.fresh name with resetStaging := true }.savedAs saving)

inductive Sweeps (registry : Registry) : List Deed -> Prop where
  | unlisted (error : StoreError) : Sweeps registry [.listed .challenges (.error error)]
  | swept {names : List String} {deeds : List Deed} {results : List PUnit} :
      Each (fun name deeds _ => exists answer, deeds = [Deed.purged .challenges name answer])
        (names.filter fun name => !registry.contains name) deeds results ->
      Sweeps registry (.listed .challenges (.ok names) :: deeds)

inductive StartsContext (registry : Registry) (settings : DriveSettings) :
    List Deed -> Option DriveContext -> Prop where
  | idle {starting sweeping : List Deed} :
      Each Starts registry.watchedNames starting [] ->
      Sweeps registry sweeping ->
      StartsContext registry settings (starting ++ sweeping) none
  | begun {starting sweeping : List Deed} {jobs : List DriveJob} :
      Each Starts registry.watchedNames starting jobs ->
      Sweeps registry sweeping ->
      jobs ≠ [] ->
      StartsContext registry settings (starting ++ sweeping) (some ⟨registry, settings, jobs⟩)

/-!
## Ticks
-/

inductive Visits (registry : Registry) (job : DriveJob) : List Deed -> DriveJob -> Prop where
  | early (now : Instant) : job.isDue now = false -> Visits registry job [.clockRead now] job
  | evaluated {deeds : List Deed} {verdict : Evaluation} {evaluated : DriveJob} (now : Instant) :
      job.isDue now = true ->
      Evaluates registry job deeds verdict evaluated ->
      Visits registry job (.clockRead now :: deeds) evaluated

def DriveContext.waitAfter (context : DriveContext) (started now : Instant)
    (jobs : List DriveJob) : Span :=
  ((nextWake jobs
    ((started.add? context.settings.cadence.half).getD Instant.latest)).since now).wait

inductive Rounds (context : DriveContext) : List Deed -> Span -> DriveContext -> Prop where
  | round {visiting : List Deed} {jobs : List DriveJob} (started now : Instant) :
      Each (Visits context.registry) context.jobs visiting jobs ->
      Rounds context (.clockRead started :: visiting ++ [.clockRead now])
        (context.waitAfter started now jobs) { context with jobs := jobs }

inductive Notifies (context : DriveContext) :
    List Deed -> NoticeReport -> DriveContext -> Prop where
  | pass {deeds : List Deed} {report : NoticeReport} {jobs : List DriveJob} (now : Instant) :
      Announces context.settings.notifyCommand now context.jobs deeds report jobs ->
      Notifies context (.clockRead now :: deeds) report { context with jobs := jobs }

inductive Ticks (context : DriveContext) :
    WatchState -> List Deed -> Option Span -> DriveContext -> Prop where
  | starting {deeds : List Deed} {report : NoticeReport} {later : DriveContext} :
      Notifies context deeds report later -> Ticks context .starting deeds none later
  | running {rounding announcing : List Deed} {wait : Span} {report : NoticeReport}
      {mid later : DriveContext} :
      Rounds context rounding wait mid ->
      Notifies mid announcing report later ->
      Ticks context .running (rounding ++ announcing) (some wait) later
  | stopping {deeds : List Deed} {report : NoticeReport} {later : DriveContext} :
      Notifies context deeds report later -> Ticks context .stopping deeds none later

/-!
## The calls of a host
-/

namespace Rehearsal

open Act

theorem yields_purgeNoting (name : String) (group : Group) :
    (host.purgeNoting name group).Yields fun deeds _ =>
      exists answer, deeds = [.purged group name answer] := by
  unfold Host.purgeNoting
  apply yields_bind (yields_purge group name)
  intro deeds answer hdeeds
  subst hdeeds
  cases answer with
  | error error =>
      refine (yields_note _).mono ?_
      intro notes _ hnotes
      subst hnotes
      exact ⟨.error error, rfl⟩
  | ok done =>
      exact yields_pure ⟨.ok done, rfl⟩

theorem yields_startJob (name : String) : (host.startJob name).Yields (Starts name) := by
  unfold Host.startJob
  refine yields_silent (yields_note _) fun _ => ?_
  apply yields_bind (yields_reload (.fresh name))
  intro loading loaded hloads
  -- A fresh job is not dirty, so its record is asked for.
  cases hloads with
  | kept hdirty =>
      cases hdirty
  | asked answer _ =>
      split
      next herrors =>
        refine yields_silent (yields_note _) fun _ => ?_
        apply yields_bind (yields_purgeNoting name .staging)
        intro purging _ hpurged
        rcases hpurged with ⟨staging, rfl⟩
        apply yields_bind (yields_purgeNoting name .challenges)
        intro purging _ hpurged
        rcases hpurged with ⟨challenges, rfl⟩
        refine (yields_save _).mono ?_
        intro saving saved hsaved
        rcases hsaved with ⟨answerSaved, rfl, rfl⟩
        exact Starts.recovered answer staging challenges answerSaved herrors
      next herrors =>
        exact yields_pure (Starts.resumed answer (Fin.le_zero_iff.mp (Fin.not_lt.mp herrors)))

theorem yields_purgeStale (name : String) :
    (host.purgeStale name).Yields fun deeds _ =>
      exists answer, deeds = [.purged .challenges name answer] := by
  unfold Host.purgeStale
  apply yields_bind (yields_purge .challenges name)
  intro deeds answer hdeeds
  subst hdeeds
  cases answer with
  | error error =>
      refine (yields_note _).mono ?_
      intro notes _ hnotes
      subst hnotes
      exact ⟨.error error, rfl⟩
  | ok done =>
      refine (yields_note _).mono ?_
      intro notes _ hnotes
      subst hnotes
      exact ⟨.ok done, rfl⟩

theorem yields_purgeStaleChallenges (registry : Registry) :
    (host.purgeStaleChallenges registry).Yields fun deeds _ => Sweeps registry deeds := by
  unfold Host.purgeStaleChallenges
  apply yields_bind (yields_listNames .challenges)
  intro deeds answer hdeeds
  subst hdeeds
  cases answer with
  | error error =>
      refine (yields_note _).mono ?_
      intro notes _ hnotes
      subst hnotes
      exact Sweeps.unlisted error
  | ok names =>
      refine (yields_forM fun name _ => yields_purgeStale name).mono ?_
      intro deeds _ hpurges
      rcases hpurges with ⟨results, hpurges⟩
      exact Sweeps.swept hpurges

theorem yields_start (registry : Registry) (settings : DriveSettings) :
    (host.start registry settings).Yields (StartsContext registry settings) := by
  unfold Host.start
  apply yields_bind (yields_mapM fun name _ => yields_startJob name)
  intro starting jobs hstarts
  apply yields_bind (yields_purgeStaleChallenges registry)
  intro sweeping _ hsweeps
  cases jobs with
  | nil =>
      refine yields_silent (yields_note _) fun _ => yields_pure ?_
      rw [List.append_nil]
      exact StartsContext.idle hstarts hsweeps
  | cons job jobs =>
      apply yields_pure
      rw [List.append_nil]
      exact StartsContext.begun hstarts hsweeps (List.cons_ne_nil job jobs)

theorem yields_runJob (registry : Registry) (job : DriveJob) :
    (host.runJob registry job).Yields (Visits registry job) := by
  unfold Host.runJob
  apply yields_bind yields_now
  intro reading now hreading
  subst hreading
  split
  next hdue =>
    apply yields_bind (yields_evaluate registry job)
    intro deeds result hevaluated
    apply yields_pure
    rw [List.append_nil]
    exact Visits.evaluated now hdue hevaluated
  next hdue =>
    exact yields_pure (Visits.early now (by simpa using hdue))

theorem yields_runJobs (context : DriveContext) :
    (host.runJobs context).Yields fun deeds result => Rounds context deeds result.1 result.2 := by
  unfold Host.runJobs
  apply yields_bind yields_now
  intro reading started hreading
  subst hreading
  apply yields_bind (yields_mapM fun job _ => yields_runJob context.registry job)
  intro visiting jobs hvisits
  apply yields_bind yields_now
  intro reading now hreading
  subst hreading
  refine yields_silent (yields_note _) fun _ => yields_pure ?_
  exact Rounds.round started now hvisits

theorem yields_notifyContext (context : DriveContext) :
    (host.notifyContext context).Yields fun deeds result =>
      Notifies context deeds result.1 result.2 := by
  unfold Host.notifyContext
  apply yields_bind yields_now
  intro reading now hreading
  subst hreading
  apply yields_bind (yields_notifyReady _ now context.jobs)
  intro deeds result hannounces
  apply yields_pure
  rw [List.append_nil]
  exact Notifies.pass now hannounces

theorem yields_tick (context : DriveContext) (state : WatchState) :
    (host.tick context state).Yields fun deeds result =>
      Ticks context state deeds result.1 result.2 := by
  unfold Host.tick
  cases state with
  | starting =>
      refine yields_silent (yields_note _) fun _ => ?_
      simp only [pure_bind]
      apply yields_bind (yields_notifyContext context)
      intro deeds result hnotifies
      apply yields_pure
      rw [List.append_nil]
      exact Ticks.starting hnotifies
  | running =>
      refine yields_silent (yields_note _) fun _ => ?_
      apply yields_bind (yields_runJobs context)
      intro rounding result hrounds
      simp only [pure_bind]
      apply yields_bind (yields_notifyContext result.2)
      intro announcing answered hnotifies
      apply yields_pure
      rw [List.append_nil]
      exact Ticks.running hrounds hnotifies
  | stopping =>
      refine yields_silent (yields_note _) fun _ => ?_
      simp only [pure_bind]
      apply yields_bind (yields_notifyContext context)
      intro deeds result hnotifies
      apply yields_pure
      rw [List.append_nil]
      exact Ticks.stopping hnotifies

end Rehearsal
end RenewalDrive
