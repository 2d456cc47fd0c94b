import RenewalDrive.Proofs.Drive.Followed
import RenewalDrive.Proofs.Laws.Timer
import RenewalDrive.Proofs.Run.Attempt

/-!
# The pause after a failed attempt

The pause after a failed attempt counts from the reading of the clock that found the job due, not
from the end of the attempt. So the time that the attempt takes comes off the pause: nothing of
it is left, and the job is due again at once, when the attempt took as long as the pause.
-/

namespace RenewalDrive

/-!
## The time of an attempt
-/

section

variable {registry : Registry} {job evaluated : DriveJob} {domain : ManagedDomain} {reset : Bool}
  {outcome : RenewOutcome} {took : Span} {before after : List Deed} {now started mid : Instant}

theorem Tries.starts_at
    (h : Tries registry job domain reset outcome took before now after evaluated)
    (htime : Elapses started before mid) : now = started ∧ mid = started := by
  cases h with
  | cut answer hloads _ hinspects hbegins _ _ =>
      rcases htime.split with ⟨_, hloading, hrest⟩
      cases hloads.elapses hloading
      rcases hrest.of_cons with ⟨_, ⟨rfl, rfl⟩, hlooking⟩
      rcases hlooking.split with ⟨_, hinspecting, hbeginning⟩
      cases hinspects.elapses hinspecting
      exact ⟨rfl, hbegins.elapses hbeginning⟩

theorem Tries.paused (h : Tries registry job domain reset outcome took before now after evaluated)
    (hfailed : outcome.isComplete = false) :
    exists next, evaluated.nextRun = some next ∧
      now.add? (Backoff.delay evaluated.errorRuns) = some next ∧
      forall t t', Elapses t after t' -> t' = t := by
  cases h with
  | cut answer _ _ _ _ _ hpursues =>
      cases hpursues with
      | completed _ _ _ later hcomplete =>
          rw [hcomplete] at hfailed
          cases hfailed
      | failed _ _ _ next _ hnext =>
          refine ⟨next, ?_, ?_, ?_⟩
          · cases answer <;> rfl
          · cases answer <;> exact hnext
          · intro t t' htime
            rcases htime.of_cons with ⟨_, rfl, hnil⟩
            exact hnil.eq_of_nil

/-- An attempt that does not complete leaves a count of errors, unless the count was at its
limit. -/
theorem Tries.errorRuns_pos
    (h : Tries registry job domain reset outcome took before now after evaluated)
    (hfailed : outcome.isComplete = false) :
    0 < evaluated.errorRuns ∨ job.errorRuns + 1 = 0 ∨
      exists record, .recordLoaded job.name (.ok (some record)) ∈ before ∧
        record.errorRuns + 1 = 0 := by
  rcases h.counted hfailed with ⟨count, heq, hcount⟩
  by_cases hover : count + 1 = 0
  · rcases hcount with rfl | rfl | ⟨record, hrecord, rfl⟩
    · cases hover
    · exact .inr (.inl hover)
    · exact .inr (.inr ⟨record, hrecord, hover⟩)
  · rw [heq]
    exact .inl (Fin.pos_iff_ne_zero.mpr hover)

end

/-!
## What is left of a pause
-/

theorem Instant.since_wait_of_le {wake t : Instant} (hwake : wake.inLeapSecond = false)
    (h : wake ≤ t) : (wake.since t).wait = .zero := by
  have hspan : (wake.since t).nanoseconds ≤ 0 := by
    have hplain := not_inLeapSecond_iff.mp hwake
    have hlimit := t.fraction_lt
    rw [le_iff] at h
    rcases since_cases wake t with hspan | ⟨hleap, _, hspan⟩ | ⟨hleap, _, _⟩
    · rw [hspan, reading_eq, reading_eq]
      omega
    · have hfraction := inLeapSecond_iff.mp hleap
      rw [hspan, reading_eq, reading_eq]
      omega
    · rw [hwake] at hleap
      cases hleap
  rcases hspan.lt_or_eq with hneg | hzero
  · exact Span.wait_of_neg hneg
  · rw [Span.wait_of_nonneg hzero.ge]
    exact congrArg Span.mk hzero

/-- A clock stands still but for an attempt that did not complete, and the evaluation returns. The
job has an error more, or none if the count was at its limit, and waits for the end of its pause,
counted from the start of the attempt. So a full pause follows the attempt exactly if the attempt
took no time; what it took is missing. The job is due again at the end of the attempt exactly if
it took as long as the pause, and then a round that ends there does not wait. -/
theorem pause_follows_iff {registry : Registry} {job evaluated : DriveJob} {verdict : Evaluation}
    {world later : Rehearsal} {deeds : List Deed} {started : Instant} {domain : ManagedDomain}
    {reset : Bool} {outcome : RenewOutcome} {took : Span} (hclock : world.Stands started)
    (hrun : (Rehearsal.host.evaluate registry job).run world = .ok ((verdict, evaluated), later))
    (hdeeds : later.requests = world.requests ++ deeds)
    (hattempt : .attempted domain reset outcome took ∈ deeds)
    (hfailed : outcome.isComplete = false) (htook : 0 ≤ took.nanoseconds) :
    exists ended next pause,
      started.add? took = some ended ∧ later.Stands ended ∧
      (0 < evaluated.errorRuns ∨ job.errorRuns + 1 = 0 ∨
        exists record, .recordLoaded job.name (.ok (some record)) ∈ deeds ∧
          record.errorRuns + 1 = 0) ∧
      pause = Backoff.delay evaluated.errorRuns ∧ 0 < pause.nanoseconds ∧
      evaluated.nextRun = some next ∧ started.add? pause = some next ∧
      ((exists due, ended.add? pause = some due ∧ due ≤ next) ↔ took = .zero) ∧
      (took.nanoseconds ≤ pause.nanoseconds ->
        ended.add? ⟨pause.nanoseconds - took.nanoseconds⟩ = some next) ∧
      (evaluated.isDue ended = true ↔ pause.nanoseconds ≤ took.nanoseconds) ∧
      (evaluated.isDue ended = true -> forall jobs latest, evaluated ∈ jobs ->
        (nextWake jobs latest).inLeapSecond = false ->
        ((nextWake jobs latest).since ended).wait = .zero) := by
  rcases Rehearsal.yields_evaluate registry job world _ later hrun with
    ⟨done, hpassage, hevaluates⟩
  cases hpassage.deeds_eq hdeeds
  rcases Rehearsal.elapses_evaluate hclock hrun hdeeds with ⟨ended, helapses, hstands⟩
  rcases hevaluates.tries hattempt with ⟨before, now, after, rfl, _, _, htries⟩
  rcases helapses.split with ⟨mid, hbefore, hrest⟩
  rcases htries.starts_at hbefore with ⟨rfl, rfl⟩
  rcases hrest.of_cons with ⟨moved, hmoved, hafter⟩
  rcases htries.paused hfailed with ⟨next, hnext, hpause, hstill⟩
  cases hstill _ _ hafter
  change mid.add? took = some ended at hmoved
  have hdelay : 0 < (Backoff.delay evaluated.errorRuns).nanoseconds := Backoff.delay_pos _
  generalize Backoff.delay evaluated.errorRuns = pause at hpause hdelay ⊢
  refine ⟨ended, next, pause, hmoved, hstands, ?_, rfl, hdelay, hnext, hpause, ?_, ?_, ?_, ?_⟩
  · refine (htries.errorRuns_pos hfailed).imp_right (Or.imp_right ?_)
    rintro ⟨record, hrecord, hlimit⟩
    exact ⟨record, List.mem_append_left _ hrecord, hlimit⟩
  · rw [Instant.add?_add? hmoved htook hdelay.le]
    constructor
    · rintro ⟨due, hdue, hle⟩
      rw [Instant.add?_le_iff hdue hpause (by dsimp only; omega) hdelay.le] at hle
      have hnone : took.nanoseconds = 0 := by
        dsimp only at hle
        omega
      exact congrArg Span.mk hnone
    · rintro rfl
      refine ⟨next, ?_, le_refl next⟩
      rw [← hpause]
      simp only [Span.zero, Int.zero_add]
  · intro hle
    have hleft : 0 ≤ pause.nanoseconds - took.nanoseconds := by omega
    rw [Instant.add?_add? hmoved htook hleft, ← hpause]
    congr 2
    dsimp only
    omega
  · rw [DriveJob.isDue, hnext, Option.all_some, decide_eq_true_iff]
    exact Instant.add?_le_iff hpause hmoved hdelay.le htook
  · intro hdue jobs latest hjob hwake
    rw [DriveJob.isDue, hnext, Option.all_some, decide_eq_true_iff] at hdue
    have hearly : nextWake jobs latest ≤ next :=
      ((nextWake_iff fun _ _ => le_min_iff).mp (le_refl (nextWake jobs latest))).2 evaluated next
        hjob hnext
    exact Instant.since_wait_of_le hwake (hearly.trans hdue)

/-- A world whose next attempt takes some time and fails. -/
def Rehearsal.slow (took : Span) : Rehearsal :=
  { Rehearsal.atRest .empty with scripts := [⟨none, .failed "no", took⟩] }

def DriveJob.pausing : DriveJob :=
  { DriveJob.fresh "a" with
    nextRun := Instant.epoch.add? (.ofSeconds 5)
    lastStatus := .failed
    lastMessage := some "no"
    errorRuns := 1 }

def Deed.slowFailure (took : Span) : Deed :=
  .attempted ⟨"a", .incomplete, .auto, .default, none⟩ false (.failed "no") took

def slowDeeds (took : Span) : List Deed :=
  [.recordLoaded "a" (.ok none), .clockRead .epoch, .credentialLoaded "a" (.ok none),
    .slowFailure took, .recordSaved "a" DriveJob.pausing.toRecord (.ok ())]

theorem slowFailure_mem (took : Span) : .slowFailure took ∈ slowDeeds took :=
  List.mem_cons_of_mem _ (List.mem_cons_of_mem _ (List.mem_cons_of_mem _ List.mem_cons_self))

theorem pause_follows_in_part :
    exists later ended,
      (Rehearsal.host.evaluate (.single "a" .incomplete) (.fresh "a")).run
        (.slow (.ofSeconds 2)) = .ok ((.evaluated .failed, .pausing), later) ∧
      later.Stands ended ∧ DriveJob.pausing.isDue ended = false ∧
      ended.add? (.ofSeconds 3) = some ⟨5, 0, by decide⟩ := by
  have hrun : exists later,
      (Rehearsal.host.evaluate (.single "a" .incomplete) (.fresh "a")).run
        (.slow (.ofSeconds 2)) = .ok ((.evaluated .failed, .pausing), later) ∧
      later.requests = (Rehearsal.slow (.ofSeconds 2)).requests ++ slowDeeds (.ofSeconds 2) :=
    ⟨_, rfl, rfl⟩
  rcases hrun with ⟨later, hrun, hdeeds⟩
  rcases pause_follows_iff (fun _ => rfl) hrun hdeeds (slowFailure_mem _) rfl (by decide) with
    ⟨ended, next, _, _, hstands, _, rfl, _, hnext, _, _, hleft, hdue, _⟩
  cases hnext
  have hrest : (Backoff.delay DriveJob.pausing.errorRuns).nanoseconds -
      (Span.ofSeconds 2).nanoseconds = (Span.ofSeconds 3).nanoseconds := by decide
  have hleft := hleft (by decide)
  rw [hrest] at hleft
  refine ⟨later, ended, hrun, hstands, ?_, hleft⟩
  rw [← Bool.not_eq_true, hdue]
  decide

/-- An attempt that takes a minute and fails leaves nothing of the pause of five seconds: at its
end the job is due again at once, and the call that made it answers no wait. -/
theorem due_at_once_after_slow_failure :
    exists later,
      (Rehearsal.host.evaluate (.single "a" .incomplete) (.fresh "a")).run
        (.slow (.ofSeconds 60)) = .ok ((.evaluated .failed, .pausing), later) ∧
      .slowFailure (.ofSeconds 60) ∈ later.requests ∧
      later.reading = ⟨60, 0, by decide⟩ ∧ DriveJob.pausing.nextRun = some ⟨5, 0, by decide⟩ ∧
      later.reading.add? (Backoff.delay DriveJob.pausing.errorRuns) =
        some ⟨65, 0, by decide⟩ ∧
      DriveJob.pausing.isDue later.reading = true ∧
      exists context final,
        (Rehearsal.host.tick ⟨.single "a" .incomplete, {}, [.fresh "a"]⟩ .running).run
          (.slow (.ofSeconds 60)) = .ok ((some .zero, context), final) := by
  have hrun : exists later,
      (Rehearsal.host.evaluate (.single "a" .incomplete) (.fresh "a")).run
        (.slow (.ofSeconds 60)) = .ok ((.evaluated .failed, .pausing), later) ∧
      later.requests = slowDeeds (.ofSeconds 60) ∧ later.reading = ⟨60, 0, by decide⟩ :=
    ⟨_, rfl, rfl, rfl⟩
  rcases hrun with ⟨later, hrun, hdeeds, hreading⟩
  refine ⟨later, hrun, hdeeds ▸ slowFailure_mem _, hreading, rfl, ?_, ?_, _, _, rfl⟩
  · rw [hreading]
    rfl
  · rw [hreading]
    rfl

end RenewalDrive
