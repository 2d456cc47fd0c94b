import Mathlib
import RenewalDrive.Proofs.Run.Upheld

/-!
# Consistent records

What a record says of a drive fits together: only a finished drive was announced, a finished
drive knows when its credentials become valid, and it waits for nothing else. Every step of
a drive upholds each of the three, so they hold of all jobs and records whatever the drive is
told, as long as they hold of the records that it finds.
-/

namespace RenewalDrive

namespace JobRecord

def AnnouncedFinished (record : JobRecord) : Prop :=
  record.notified = true -> record.finished = true

def FinishedDated (record : JobRecord) : Prop :=
  record.finished = true -> exists staged, record.validFrom = some staged

/-- If a finished drive waits, it waits for its credentials to become valid. -/
def FinishedAwaits (record : JobRecord) : Prop :=
  record.finished = true -> forall next, record.nextRun = some next -> record.validFrom = some next

/-- What a record says of a drive fits together. -/
@[mk_iff]
structure Consistent (record : JobRecord) : Prop where
  announced : record.AnnouncedFinished
  dated : record.FinishedDated
  awaits : record.FinishedAwaits

end JobRecord

/-!
## Steps
-/

theorem upheld_announcedFinished : Upheld JobRecord.AnnouncedFinished := by
  constructor
  case renamed =>
    intro record name hrecord
    exact hrecord
  case fresh =>
    intro name hnotified
    cases hnotified
  case begun =>
    intro job _ hnotified
    cases hnotified
  case pursued =>
    intro job now domain deeds findings hpursues hjob
    generalize job.course domain now = course at hpursues
    cases hpursues with
    | completed _ _ _ _ _ =>
        intro _
        rfl
    | _ =>
        exact hjob
  case announced =>
    intro job now hready _ _
    rw [DriveJob.isReady, Bool.and_eq_true, Bool.and_eq_true] at hready
    exact hready.1.1

theorem upheld_finishedDated : Upheld JobRecord.FinishedDated := by
  constructor
  case renamed =>
    intro record name hrecord
    exact hrecord
  case fresh =>
    intro name hfinished
    cases hfinished
  case begun =>
    intro job _ hfinished
    cases hfinished
  case pursued =>
    intro job now domain deeds findings hpursues hjob
    generalize job.course domain now = course at hpursues
    cases hpursues with
    | completed _ _ _ _ _ =>
        intro _
        exact ⟨_, rfl⟩
    | _ =>
        exact hjob
  case announced =>
    intro job now _ hjob
    exact hjob

theorem upheld_finishedAwaits : Upheld JobRecord.FinishedAwaits := by
  constructor
  case renamed =>
    intro record name hrecord
    exact hrecord
  case fresh =>
    intro name hfinished
    cases hfinished
  case begun =>
    intro job _ hfinished
    cases hfinished
  case pursued =>
    intro job now domain deeds findings hpursues hjob hfinished next hnext
    have hrenewed : forall renewed, job.course domain now = .renew renewed ->
        job.finished = false :=
      fun renewed => DriveJob.finished_of_renew
    generalize job.course domain now = course at hpursues hrenewed
    cases hpursues with
    | finished =>
        exact Option.eq_some_of_filter_eq_some hnext
    | completed _ outcome _ later _ =>
        have hwaits := job.attempted.completed_nextRun outcome.message
          (outcome.validFrom.getD later) later
        exact Option.eq_some_of_filter_eq_some (hwaits.symm.trans hnext)
    | failed renewed _ _ _ _ _ =>
        change job.finished = true at hfinished
        rw [hrenewed renewed rfl] at hfinished
        cases hfinished
    | _ =>
        cases hnext
  case announced =>
    intro job now _ hjob
    exact hjob

theorem upheld_consistent : Upheld JobRecord.Consistent := by
  have hconsistent : JobRecord.Consistent = fun record =>
      record.AnnouncedFinished ∧ record.FinishedDated ∧ record.FinishedAwaits := by
    funext record
    exact propext record.consistent_iff
  rw [hconsistent]
  exact upheld_announcedFinished.and (upheld_finishedDated.and upheld_finishedAwaits)

/-!
## Runs
-/

/-- Whatever a drive is asked and told, from a store of consistent records it comes to a store
of consistent records, and its jobs are consistent. -/
theorem consistent_throughout {origin later : Process} {calls : List Call}
    {trace : List Happening} (hfresh : origin.context = none)
    (hstore : forall name record, origin.world.store.loadJob name = some record ->
      record.Consistent)
    (hrun : Run origin calls trace later) :
    (forall name record, later.world.store.loadJob name = some record -> record.Consistent) ∧
      forall context job, later.context = some context -> job ∈ context.jobs ->
        job.toRecord.Consistent := by
  have hlater := upheld_consistent.run hrun (Process.AllMeet.of_fresh hfresh hstore)
  constructor
  · exact hlater.records
  · intro context job hcontext hjob
    exact hlater.jobs context hcontext job hjob

/-- A process that is to be started at an instant where time stands still; the store has a
finished drive that waits for its credentials. -/
def waiting (now staged : Instant) : Process where
  world := (Rehearsal.atRest (MemoryStore.empty.saveJob "a"
    { name := "a", finished := true, validFrom := some staged, nextRun := some staged })).pinned now
  context := none

theorem waiting_consistent {now staged : Instant} (name : String) (record : JobRecord)
    (h : (waiting now staged).world.store.loadJob name = some record) : record.Consistent := by
  change (if name = "a" then some _ else none) = some record at h
  split at h
  · cases h
    constructor
    · intro hnotified
      cases hnotified
    · intro _
      exact ⟨staged, rfl⟩
    · intro _ next hnext
      exact hnext
  · cases h

theorem consistent_after_announcement :
    exists trace later record,
      Run (waiting .epoch .epoch)
        [.start (Registry.single "a" .incomplete) {}, .tick .running] trace later ∧
      later.world.store.loadJob "a" = some record ∧ record.notified = true ∧
      record.Consistent := by
  let waited : JobRecord :=
    { name := "a", finished := true, validFrom := some .epoch, nextRun := some .epoch }
  let passed : JobRecord := { waited with nextRun := none }
  let announced : JobRecord := { passed with notified := true }
  have hplay : ((waiting .epoch .epoch).play
      [.start (Registry.single "a" .incomplete) {}, .tick .running]).map
        (fun played => (played.1.world.store.loadJob "a", played.2)) =
      .ok (some announced, [.recordLoaded "a" (.ok (some waited)), .listed .challenges (.ok []),
        .clockRead .epoch, .clockRead .epoch, .recordLoaded "a" (.ok (some waited)),
        .clockRead .epoch, .credentialLoaded "a" (.ok none),
        .recordSaved "a" passed (.ok ()), .clockRead .epoch, .clockRead .epoch,
        .recordSaved "a" announced (.ok ())].map
          (Happening.mk ⟨Registry.single "a" .incomplete, {}⟩)) := by
    cbv
  rcases Process.run_of_play (fun process => process.world.store.loadJob "a") hplay with
    ⟨later, hrun, hrecord⟩
  refine ⟨_, later, announced, hrun, hrecord, rfl, ?_⟩
  exact (consistent_throughout rfl waiting_consistent hrun).1 "a" announced hrecord

end RenewalDrive
