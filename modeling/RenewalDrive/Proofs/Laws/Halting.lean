import Mathlib
import RenewalDrive.Proofs.Deeds.Scripts
import RenewalDrive.Proofs.Drive.Lasting
import RenewalDrive.Proofs.Run.Process

/-!
# Halts

While the clock reads years that leave room for a pause, no arithmetic on times ends a drive:
whatever is stored, refused or reported, only a text that cannot be written does. A regular
call comes to such a text when the log takes it and a job is renewed with a staged time, or
rests with a time of expiry, that no mail date has.
-/

namespace RenewalDrive

namespace Rehearsal

open Act

/-!
## Where a drive may lead
-/

inductive Reaches (world : Rehearsal) : Rehearsal -> Prop where
  | refl : Reaches world world
  | changed {mid : Rehearsal} (store : MemoryStore) :
      Reaches world mid ->
      Reaches world { mid with store := store }
  | done {mid : Rehearsal} (deed : Deed) : Reaches world mid -> Reaches world (mid.after deed)
  | attempted {mid later : Rehearsal} {domain : ManagedDomain} {reset : Bool}
      {outcome : RenewOutcome} :
      Reaches world mid ->
      (host.attempt domain reset).run mid = .ok (outcome, later) ->
      Reaches world later

theorem Reaches.trans {world mid later : Rehearsal} (hfirst : Reaches world mid)
    (hsecond : Reaches mid later) : Reaches world later := by
  induction hsecond with
  | refl =>
      exact hfirst
  | changed store _ ih =>
      exact Reaches.changed store ih
  | done deed _ ih =>
      exact Reaches.done deed ih
  | attempted _ hattempt ih =>
      exact Reaches.attempted ih hattempt

/-- Wherever a drive leads, the clock reads a time in the years 0 to 9998, and no attempt
outlasts the time that there is. -/
structure InYears (world : Rehearsal) : Prop where
  reading : forall later, world.Reaches later -> later.reading.InYears
  attempt : forall later domain reset, world.Reaches later ->
    exists outcome final, (host.attempt domain reset).run later = .ok (outcome, final)

theorem InYears.of_reaches {world later : Rehearsal} (h : world.InYears)
    (hlater : world.Reaches later) : later.InYears :=
  ⟨fun final hfinal => h.reading final (hlater.trans hfinal),
    fun final domain reset hfinal => h.attempt final domain reset (hlater.trans hfinal)⟩

theorem lasts_inYears (kept : Option LogLevel) :
    Lasts (LogLevel.takes kept) fun world => world.InYears ∧ world.kept = kept := by
  constructor
  case reading =>
    intro world hworld
    exact hworld.1.reading world Reaches.refl
  case told =>
    rintro world event ⟨_, rfl⟩ hevent
    exact hevent
  case after =>
    rintro world deed _ ⟨hworld, hkept⟩
    exact ⟨hworld.of_reaches (Reaches.done deed Reaches.refl), hkept⟩

theorem lastsFor_inYears (kept : Option LogLevel) (name : String) :
    LastsFor (LogLevel.takes kept) (fun _ => True) (fun _ => True)
      (fun world => world.InYears ∧ world.kept = kept) name := by
  constructor
  case toLasts =>
    exact lasts_inYears kept
  case saveJob =>
    rintro world record ⟨hworld, hkept⟩
    exact ⟨hworld.of_reaches (Reaches.changed _ Reaches.refl), hkept⟩
  case purge =>
    rintro world group ⟨hworld, hkept⟩
    exact ⟨hworld.of_reaches (Reaches.changed _ Reaches.refl), hkept⟩
  case expires =>
    exact fun _ _ _ _ => trivial
  case attempt =>
    rintro world domain reset _ ⟨hworld, hkept⟩
    rcases hworld.attempt world domain reset Reaches.refl with ⟨outcome, later, hrun⟩
    have hlater := hworld.of_reaches (Reaches.attempted Reaches.refl hrun)
    rcases run_attempt_eq_ok hrun with ⟨_, clock, deed, rfl⟩
    exact ⟨outcome, _, hrun, ⟨hlater, hkept⟩, fun _ _ => trivial⟩

end Rehearsal

/-!
## Turns that cannot be told
-/

open Rehearsal Act

/-- The log takes the time of a course, and that time has no mail date: a staged time where
the renewal completes, a time of expiry where the job rests. -/
def Course.Untold (world : Rehearsal) : Course -> Prop
  | .renew domain =>
      LogLevel.takes world.kept .info = true ∧
        (Script.next domain.name world.scripts).1.outcome.isComplete = true ∧
        exists t, (Script.next domain.name world.scripts).1.outcome.validFrom = some t ∧
          ¬ t.Writable
  | .rest domain =>
      LogLevel.takes world.kept .debug = true ∧ exists t, domain.expires = some t ∧ ¬ t.Writable
  | _ => False

def DriveJob.Halting (registry : Registry) (job : DriveJob) (world : Rehearsal) : Prop :=
  exists begun now course there,
    (host.turn registry job).run world = .ok ((begun, some (now, course)), there) ∧
      course.Untold there

section

variable {job : DriveJob} {now : Instant} {world : Rehearsal}

theorem run_renew_eq (domain : ManagedDomain) (hworld : world.InYears) :
    exists later, later.InYears ∧ later.kept = world.kept ∧
      (host.renew job domain now).run world =
        (host.afterAttempt job.attempted (Script.next domain.name world.scripts).1.outcome
          now).run later := by
  have htold : (Event.driving job.name domain.state).Told (LogLevel.takes world.kept) :=
    Event.told_of_undated rfl
  rcases run_note_of_told htold with ⟨entries, hrun⟩
  let alike (mid : Rehearsal) : Prop :=
    mid.InYears ∧ mid.kept = world.kept ∧ mid.scripts = world.scripts
  have hnoted : forall (mid : Rehearsal) (entry : LogEntry),
      alike mid -> alike (mid.after (.noted entry)) := by
    rintro mid entry ⟨hmid, hsame⟩
    exact ⟨hmid.of_reaches (Reaches.done _ Reaches.refl), hsame⟩
  rcases holds_after_notes hnoted entries ⟨hworld, rfl, rfl⟩ with ⟨hmid, hkept, hscripts⟩
  generalize entries.foldl (fun world entry => world.after (.noted entry)) world = mid at *
  rcases hmid.attempt mid domain job.resetStaging Reaches.refl with ⟨outcome, later, hattempt⟩
  have hlater := hmid.of_reaches (Reaches.attempted Reaches.refl hattempt)
  rcases run_attempt_eq_ok hattempt with ⟨rfl, clock, deed, rfl⟩
  refine ⟨_, hlater, hkept, ?_⟩
  unfold Host.renew
  rw [run_bind_of_ok hrun, run_bind_of_ok hattempt, hscripts]

theorem pursue_completes {course : Course} (hworld : world.InYears) (hnow : now.InYears)
    (h : ¬ course.Untold world) :
    exists findings later, (host.pursue job now course).run world = .ok (findings, later) ∧
      later.InYears ∧ later.kept = world.kept := by
  have hsteady := fun name => (lastsFor_inYears world.kept name).steady
  by_cases hrenew : exists domain, course = .renew domain
  · rcases hrenew with ⟨domain, rfl⟩
    rcases run_renew_eq domain hworld with ⟨mid, hmid, hkept, hrun⟩
    have hafter : (host.afterAttempt job.attempted
        (Script.next domain.name world.scripts).1.outcome now).InStep
        (Still fun later => later.InYears ∧ later.kept = world.kept) fun _ => True := by
      refine ((hsteady job.attempted.name).afterAttempt hnow ?_).mono fun _ _ => trivial
      intro hcomplete t ht later htakes date hdate
      cases hdate
      by_contra hwritable
      exact h ⟨htakes, hcomplete, t, ht, hwritable⟩
    rw [inStep_still_iff] at hafter
    rcases hafter mid ⟨hmid, hkept⟩ with ⟨findings, later, hlast, hlater, _⟩
    exact ⟨findings, later, hrun.trans hlast, hlater⟩
  · have hpursue : (host.pursue job now course).InStep
        (Still fun later => later.InYears ∧ later.kept = world.kept) fun _ => True := by
      refine ((hsteady job.name).pursue hnow ?_ ?_ ?_).mono fun _ _ => trivial
      · exact fun domain hcourse => absurd ⟨domain, hcourse⟩ hrenew
      · intro domain t hcourse ht htakes date hdate
        subst hcourse
        cases hdate
        by_contra hwritable
        exact h ⟨htakes, t, ht, hwritable⟩
      · exact fun domain t later hcourse => absurd ⟨domain, hcourse⟩ hrenew
    rw [inStep_still_iff] at hpursue
    rcases hpursue world ⟨hworld, rfl⟩ with ⟨findings, later, hrun, hlater, _⟩
    exact ⟨findings, later, hrun, hlater⟩

theorem pursue_halts {course : Course} (hworld : world.InYears) (h : course.Untold world) :
    (host.pursue job now course).run world = .error .yearUnwritable := by
  cases course with
  | renew domain =>
      rcases h with ⟨htakes, hcomplete, t, ht, hwritable⟩
      rcases run_renew_eq domain hworld with ⟨mid, hmid, hkept, hrun⟩
      rw [← hkept] at htakes
      have hnow : host.now.run mid = .ok (mid.reading, mid.after (.clockRead mid.reading)) := rfl
      refine hrun.trans ?_
      unfold Host.afterAttempt
      rw [if_pos hcomplete, run_bind_of_ok hnow, ht]
      apply run_bind_of_error
      apply run_note_of_not_told
      exact fun htold => hwritable (htold htakes t rfl)
  | rest domain =>
      rcases h with ⟨htakes, t, ht, hwritable⟩
      unfold Host.pursue
      dsimp only
      rw [ht]
      apply run_bind_of_error
      apply run_note_of_not_told
      exact fun htold => hwritable (htold htakes t rfl)
  | _ =>
      cases h

end

/-!
## Rounds that get stuck
-/

theorem runJob_cases {world : Rehearsal} (registry : Registry) (job : DriveJob)
    (h : world.InYears) :
    (¬ job.Halting registry world ∧ exists visited later,
      (host.runJob registry job).run world = .ok (visited, later) ∧ later.InYears) ∨
    (job.Halting registry world ∧
      (host.runJob registry job).run world = .error .yearUnwritable) := by
  have hturn := (lastsFor_inYears world.kept job.name).steady.turn fun domain t
    (_ : registry.get? job.name = some domain) _ => trivial
  rw [inStep_still_iff] at hturn
  rcases hturn world ⟨h, rfl⟩ with
    ⟨⟨begun, step⟩, there, hrun, ⟨hthere, hkept⟩, _, hstep⟩
  rw [Host.runJob_eq, run_bind_of_ok hrun]
  have hhalting : forall now course, job.Halting registry world -> step = some (now, course) ->
      course.Untold there := by
    rintro now course ⟨begun', now', course', there', hrun', huntold⟩ hcourse
    subst hcourse
    rw [hrun] at hrun'
    cases hrun'
    exact huntold
  cases step with
  | none =>
      refine Or.inl ⟨?_, begun, there, rfl, hthere⟩
      rintro ⟨begun', now', course', there', hrun', _⟩
      rw [hrun] at hrun'
      cases hrun'
  | some taken =>
      rcases taken with ⟨now, course⟩
      by_cases huntold : course.Untold there
      · refine Or.inr ⟨⟨begun, now, course, there, hrun, huntold⟩, ?_⟩
        exact run_bind_of_error (pursue_halts hthere huntold)
      · refine Or.inl ⟨fun hhalt => huntold (hhalting now course hhalt rfl), ?_⟩
        rcases pursue_completes hthere (hstep now course rfl).1 huntold with
          ⟨findings, mid, hpursue, hmid, hmidKept⟩
        have hkeep := (lastsFor_inYears mid.kept (DriveJob.recorded findings).name).steady.keep
        rw [inStep_still_iff] at hkeep
        rcases hkeep mid ⟨hmid, rfl⟩ with ⟨visited, later, hlast, ⟨hlater, _⟩, _⟩
        exact ⟨visited, later, (run_bind_of_ok hpursue).trans hlast, hlater⟩

inductive Stuck (registry : Registry) : List DriveJob -> Rehearsal -> Prop where
  | here {job : DriveJob} {rest : List DriveJob} {world : Rehearsal} :
      job.Halting registry world ->
      Stuck registry (job :: rest) world
  | later {job visited : DriveJob} {rest : List DriveJob} {world mid : Rehearsal} :
      (host.runJob registry job).run world = .ok (visited, mid) ->
      Stuck registry rest mid ->
      Stuck registry (job :: rest) world

theorem visits_cases {world : Rehearsal} (registry : Registry) (jobs : List DriveJob)
    (h : world.InYears) :
    (¬ Stuck registry jobs world ∧ exists visited later,
      (jobs.mapM (host.runJob registry)).run world = .ok (visited, later) ∧ later.InYears) ∨
    (Stuck registry jobs world ∧
      (jobs.mapM (host.runJob registry)).run world = .error .yearUnwritable) := by
  induction jobs generalizing world with
  | nil =>
      refine Or.inl ⟨?_, [], world, rfl, h⟩
      intro hstuck
      cases hstuck
  | cons job rest ih =>
      rw [List.mapM_cons]
      rcases runJob_cases registry job h with ⟨hgoes, visited, mid, hrun, hmid⟩ | ⟨hhalts, hrun⟩
      · rw [run_bind_of_ok hrun]
        rcases ih hmid with ⟨hfree, others, later, hrest, hlater⟩ | ⟨hstuck, hrest⟩
        · refine Or.inl ⟨?_, visited :: others, later, ?_, hlater⟩
          · intro hstuck
            cases hstuck with
            | here hhalts =>
                exact hgoes hhalts
            | later hrun' hstuck =>
                rw [hrun] at hrun'
                cases hrun'
                exact hfree hstuck
          · rw [run_bind_of_ok hrest]
            rfl
        · exact Or.inr ⟨Stuck.later hrun hstuck, run_bind_of_error hrest⟩
      · exact Or.inr ⟨Stuck.here hhalts, run_bind_of_error hrun⟩

/-!
## Calls
-/

def DriveContext.opening (context : DriveContext) : Act Rehearsal Instant := do
  host.note (.watchdogTick context.jobs.length)
  host.now

def DriveContext.Stuck (context : DriveContext) (world : Rehearsal) : Prop :=
  exists started opened, context.opening.run world = .ok (started, opened) ∧
    RenewalDrive.Stuck context.registry context.jobs opened

theorem runJobs_cases (context : DriveContext) {world opened : Rehearsal} {started : Instant}
    (hopened : host.now.run world = .ok (started, opened)) (h : opened.InYears) :
    (¬ Stuck context.registry context.jobs opened ∧ exists result later,
      (host.runJobs context).run world = .ok (result, later) ∧ later.InYears) ∨
    (Stuck context.registry context.jobs opened ∧
      (host.runJobs context).run world = .error .yearUnwritable) := by
  unfold Host.runJobs
  rw [run_bind_of_ok hopened]
  rcases visits_cases context.registry context.jobs h with
    ⟨hfree, visited, mid, hvisits, hmid⟩ | ⟨hstuck, hvisits⟩
  · have hlasts := lasts_inYears mid.kept
    have hclosing : forall latest : Instant, (do
        let now ← host.now
        let wait := ((nextWake visited latest).since now).wait
        host.note (.nextTick wait)
        return (wait, { context with jobs := visited }) :
          Act Rehearsal (Span × DriveContext)).InStep
        (Still fun world => world.InYears ∧ world.kept = mid.kept) fun _ => True := by
      intro latest
      apply inStep_bind hlasts.now
      intro now _
      apply inStep_bind (hlasts.note (Event.told_of_undated rfl))
      exact fun _ _ => inStep_pure trivial
    have hclose := inStep_still_iff.mp (hclosing
      ((started.add? context.settings.cadence.half).getD Instant.latest)) mid ⟨hmid, rfl⟩
    rcases hclose with ⟨result, later, hlast, ⟨hlater, _⟩, _⟩
    exact Or.inl ⟨hfree, result, later, (run_bind_of_ok hvisits).trans hlast, hlater⟩
  · exact Or.inr ⟨hstuck, run_bind_of_error hvisits⟩

theorem DriveContext.stuck_iff {context : DriveContext} {world opened : Rehearsal}
    {started : Instant} (h : context.opening.run world = .ok (started, opened)) :
    context.Stuck world ↔ RenewalDrive.Stuck context.registry context.jobs opened := by
  constructor
  · rintro ⟨started', opened', hopened', hstuck⟩
    rw [h] at hopened'
    cases hopened'
    exact hstuck
  · intro hstuck
    exact ⟨started, opened, h, hstuck⟩

theorem tick_running_cases (context : DriveContext) {world : Rehearsal} (h : world.InYears) :
    (¬ context.Stuck world ∧ exists result,
      (host.tick context .running).run world = .ok result) ∨
    (context.Stuck world ∧
      (host.tick context .running).run world = .error .yearUnwritable) := by
  have hnote : (host.note (.watchdogTick context.jobs.length)).InStep
      (Still fun later => later.InYears ∧ later.kept = world.kept) fun _ => True :=
    (lasts_inYears world.kept).note (Event.told_of_undated rfl)
  rw [inStep_still_iff] at hnote
  rcases hnote world ⟨h, rfl⟩ with ⟨_, mid, hrun, ⟨hmid, _⟩, _⟩
  have hreading : host.now.run mid = .ok (mid.reading, mid.after (.clockRead mid.reading)) := rfl
  have hopening : context.opening.run world =
      .ok (mid.reading, mid.after (.clockRead mid.reading)) :=
    (run_bind_of_ok hrun).trans hreading
  rw [DriveContext.stuck_iff hopening]
  unfold Host.tick
  dsimp only
  rw [run_bind_of_ok hrun]
  rcases runJobs_cases context hreading
    (hmid.of_reaches (Reaches.done _ Reaches.refl)) with
    ⟨hfree, ⟨wait, rounded⟩, later, hround, hlater⟩ | ⟨hstuck, hround⟩
  · have hnotify : (host.notifyContext rounded).InStep
        (Still fun final => final.InYears ∧ final.kept = later.kept) fun _ => True :=
      notifyContext_inStep rounded (lasts_inYears later.kept) (lastsFor_inYears later.kept)
    rw [inStep_still_iff] at hnotify
    rcases hnotify later ⟨hlater, rfl⟩ with ⟨report, final, hlast, _⟩
    refine Or.inl ⟨hfree, ((some wait, report.2), final), ?_⟩
    rw [run_bind_of_ok hround]
    simp only [pure_bind]
    rw [run_bind_of_ok hlast]
    rfl
  · exact Or.inr ⟨hstuck, run_bind_of_error hround⟩

/-- The log takes no time without a mail date: none of a credential in the store or in the
registry, and none of an outcome to come. -/
structure Rehearsal.Datable (registry : Registry) (world : Rehearsal) : Prop where
  installed : LogLevel.takes world.kept .debug = true -> forall name credential,
    world.store.credentials name = some credential -> credential.expires.Writable
  configured : LogLevel.takes world.kept .debug = true -> forall name domain t,
    registry.get? name = some domain -> domain.expires = some t -> t.Writable
  staged : LogLevel.takes world.kept .info = true -> forall script, script ∈ world.scripts ->
    forall t, script.outcome.validFrom = some t -> t.Writable

namespace Rehearsal

theorem inYears_of_prompt {world : Rehearsal} (hclock : forall moment, (world.clock moment).InYears)
    (hscripts : forall script, script ∈ world.scripts -> script.took = .zero) :
    world.InYears := by
  have hreaches : forall later, world.Reaches later ->
      later.clock = world.clock ∧ forall script, script ∈ later.scripts -> script.took = .zero := by
    intro later hlater
    induction hlater with
    | refl =>
        exact ⟨rfl, hscripts⟩
    | changed store _ ih =>
        exact ih
    | done deed _ ih =>
        exact ih
    | @attempted mid later domain reset outcome _ hattempt ih =>
        have htook := Script.next_holds domain.name
          (show Script.unscripted.took = .zero from rfl) ih.2
        rw [run_attempt_of_zero reset htook] at hattempt
        cases hattempt
        exact ⟨ih.1, fun script hscript => ih.2 script (Script.mem_of_mem_next hscript)⟩
  constructor
  · intro later hlater
    show (later.clock later.moment).InYears
    rw [(hreaches later hlater).1]
    exact hclock later.moment
  · intro later domain reset hlater
    have htook := Script.next_holds domain.name
      (show Script.unscripted.took = .zero from rfl) (hreaches later hlater).2
    exact ⟨_, _, run_attempt_of_zero reset htook⟩

theorem lastsFor_datable (registry : Registry) (kept : Option LogLevel) (name : String) :
    LastsFor (LogLevel.takes kept) (fun t => LogLevel.takes kept .debug = true -> t.Writable)
      (fun t => LogLevel.takes kept .info = true -> t.Writable)
      (fun world => (world.InYears ∧ world.kept = kept) ∧ world.Datable registry) name := by
  have hlasts := lastsFor_inYears kept name
  constructor
  case toLasts =>
    constructor
    case reading =>
      exact fun world hworld => hlasts.reading world hworld.1
    case told =>
      exact fun world event hworld => hlasts.told world event hworld.1
    case after =>
      rintro world deed hdeed ⟨hworld, hdatable⟩
      exact ⟨hlasts.after world deed hdeed hworld, hdatable.installed, hdatable.configured,
        hdatable.staged⟩
  case saveJob =>
    rintro world record ⟨hworld, hdatable⟩
    exact ⟨hlasts.saveJob world record hworld, hdatable.installed, hdatable.configured,
      hdatable.staged⟩
  case purge =>
    rintro world group ⟨hworld, hdatable⟩
    refine ⟨hlasts.purge world group hworld, ?_, hdatable.configured, hdatable.staged⟩
    intro htakes other credential hcredential
    apply hdatable.installed htakes other credential
    change (if group = .domains ∧ other = name then none else _) = _ at hcredential
    split at hcredential
    · cases hcredential
    · exact hcredential
  case expires =>
    rintro world credential ⟨⟨_, rfl⟩, hdatable⟩ hcredential htakes
    exact hdatable.installed htakes name credential hcredential
  case attempt =>
    rintro world domain reset hname ⟨hworld, hdatable⟩
    rcases hlasts.attempt world domain reset hname hworld with
      ⟨outcome, later, hrun, hlater, _⟩
    rcases run_attempt_eq_ok hrun with ⟨rfl, clock, deed, rfl⟩
    rcases hworld with ⟨_, rfl⟩
    have hunscripted : forall t, Script.unscripted.outcome.validFrom = some t -> t.Writable := by
      intro t ht
      cases ht
    have hnext := fun htakes =>
      Script.next_holds domain.name hunscripted (hdatable.staged htakes)
    refine ⟨_, _, hrun, ⟨hlater, hdatable.installed, hdatable.configured, ?_⟩, ?_⟩
    · exact fun htakes script hscript =>
        hdatable.staged htakes script (Script.mem_of_mem_next hscript)
    · exact fun t ht htakes => hnext htakes t ht

end Rehearsal

theorem tells_of_takes (kept : Option LogLevel) :
    Tells (LogLevel.takes kept) (fun t => LogLevel.takes kept .debug = true -> t.Writable)
      (fun t => LogLevel.takes kept .info = true -> t.Writable) := by
  constructor
  · rintro name t ht htakes date hdate
    cases hdate
    exact ht htakes
  · rintro name t later ht htakes date hdate
    cases hdate
    exact ht htakes

theorem tick_cases (context : DriveContext) (state : WatchState) {world : Rehearsal}
    (h : world.InYears) :
    (¬ (state = .running ∧ context.Stuck world) ∧ exists result,
      (host.tick context state).run world = .ok result) ∨
    ((state = .running ∧ context.Stuck world) ∧
      (host.tick context state).run world = .error .yearUnwritable) := by
  by_cases hstate : state = .running
  · subst hstate
    rcases tick_running_cases context h with ⟨hfree, hrun⟩ | ⟨hstuck, hrun⟩
    · exact Or.inl ⟨fun hboth => hfree hboth.2, hrun⟩
    · exact Or.inr ⟨⟨rfl, hstuck⟩, hrun⟩
  · have htick := tick_inStep context state (lasts_inYears world.kept)
      (lastsFor_inYears world.kept) (fun hrunning => absurd hrunning hstate)
    rcases inStep_still_iff.mp htick world ⟨h, rfl⟩ with ⟨result, later, hrun, _⟩
    exact Or.inl ⟨fun hboth => hstate hboth.1, (result, later), hrun⟩

/-- While the clock stays in its years, a call of the watchdog halts over nothing but a text
that cannot be written, and it does so exactly when it is a regular call that gets stuck. As
long as the log takes no time without a mail date, no call does. -/
theorem tick_completes_iff {context : DriveContext} {state : WatchState} {world : Rehearsal}
    (h : world.InYears) :
    ((exists result, (host.tick context state).run world = .ok result) ↔
      ¬ (state = .running ∧ context.Stuck world)) ∧
    (forall halt, (host.tick context state).run world = .error halt -> halt = .yearUnwritable) ∧
    (world.Datable context.registry ->
      exists result, (host.tick context state).run world = .ok result) := by
  refine ⟨?_, ?_, ?_⟩
  · rcases tick_cases context state h with ⟨hfree, hrun⟩ | ⟨hstuck, hrun⟩
    · exact iff_of_true hrun hfree
    · refine iff_of_false ?_ (not_not_intro hstuck)
      rintro ⟨result, hresult⟩
      rw [hrun] at hresult
      cases hresult
  · intro halt hhalt
    rcases tick_cases context state h with ⟨_, result, hrun⟩ | ⟨_, hrun⟩
    · rw [hrun] at hhalt
      cases hhalt
    · rw [hrun] at hhalt
      cases hhalt
      rfl
  · intro hdatable
    have hlasts := lastsFor_datable context.registry world.kept
    have htick := tick_inStep context state (hlasts "").toLasts hlasts fun _ =>
      runJobs_inStep context (tells_of_takes world.kept) (hlasts "").toLasts hlasts
        (fun name domain t hdomain ht htakes => hdatable.configured htakes name domain t hdomain ht)
    rcases inStep_still_iff.mp htick world ⟨⟨h, rfl⟩, hdatable⟩ with ⟨result, later, hrun, _⟩
    exact ⟨(result, later), hrun⟩

/-- A world at rest with a log at a level, and with credentials that last until the end of
time. -/
def lasting (level : LogLevel) : Rehearsal :=
  { Rehearsal.atRest (MemoryStore.empty.saveCredential "a" ⟨.epoch, .latest⟩) with
    kept := some level }

theorem lasting_inYears (level : LogLevel) : (lasting level).InYears := by
  apply inYears_of_prompt
  · intro moment
    show Instant.epoch.InYears
    decide
  · exact List.forall_mem_nil _

/-- A log that takes no times of expiry does not mind when credentials expire. -/
theorem tick_completes_with_lasting_credentials :
    (lasting .info).InYears ∧
      exists result, (host.tick ⟨Registry.single "a" .incomplete, {}, [DriveJob.fresh "a"]⟩
        .running).run (lasting .info) = .ok result := by
  have hdatable : (lasting .info).Datable (Registry.single "a" .incomplete) := by
    constructor
    · intro htakes
      cases htakes
    · intro htakes
      cases htakes
    · intro _
      exact List.forall_mem_nil _
  exact ⟨lasting_inYears .info, (tick_completes_iff (lasting_inYears .info)).2.2 hdatable⟩

/-- A log that takes them ends the drive over credentials that expire in a year of more than
four digits. -/
theorem tick_halts_over_lasting_credentials :
    (lasting .debug).InYears ∧
      exists trace started,
        Run ⟨lasting .debug, none⟩ [.start (Registry.single "a" .incomplete) {}] trace started ∧
        started.call (.tick .running) = .error .yearUnwritable := by
  let observe (process : Process) : Option Halt :=
    match process.call (.tick .running) with
    | .ok _ => none
    | .error halt => some halt
  have hplay : ((Process.mk (lasting .debug) none).play
      [.start (Registry.single "a" .incomplete) {}]).map
        (fun played => (observe played.1, played.2)) =
      .ok (some .yearUnwritable, [.recordLoaded "a" (.ok none), .listed .challenges (.ok [])].map
        (Happening.mk ⟨Registry.single "a" .incomplete, {}⟩)) := by
    cbv
  rcases Process.run_of_play observe hplay with ⟨started, hrun, hseen⟩
  refine ⟨lasting_inYears .debug, _, started, hrun, ?_⟩
  simp only [observe] at hseen
  split at hseen
  · cases hseen
  next halt hhalt =>
    cases hseen
    exact hhalt

end RenewalDrive
