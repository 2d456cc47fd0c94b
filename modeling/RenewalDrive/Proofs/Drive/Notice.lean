import RenewalDrive.Proofs.Deeds.Acts

/-!
# The deeds of an announcement

A pass of announcements runs the notify command at most once and then marks the jobs that
are ready, each with a save of its own. As for evaluations, a relation says what a pass
does and makes of the jobs, whatever the answers are.
-/

namespace RenewalDrive

inductive Delivers (command : Option String) (names : List String) :
    List Deed -> Bool -> Prop where
  | silent : effectiveCommand command = none -> Delivers command names [] true
  | ran (text : String) (code : Option Int) :
      effectiveCommand command = some text ->
      Delivers command names [.executed (Text.words text ++ names) (.ok code)] true
  | failed (text : String) (error : LaunchError) :
      effectiveCommand command = some text ->
      Delivers command names [.executed (Text.words text ++ names) (.error error)] false

namespace DriveJob

def announced (job : DriveJob) : DriveJob :=
  { job with notified := true }

def markedAs (job : DriveJob) : Except StoreError Unit -> DriveJob
  | .ok _ => job.announced
  | .error _ => { job.announced with dirty := true }

end DriveJob

inductive Marks (now : Instant) (job : DriveJob) : List Deed -> DriveJob -> Prop where
  | passed : job.isReady now = false -> Marks now job [] job
  | marked (answer : Except StoreError Unit) :
      job.isReady now = true ->
      Marks now job [.recordSaved job.name job.announced.toRecord answer] (job.markedAs answer)

inductive Announces (command : Option String) (now : Instant) (jobs : List DriveJob) :
    List Deed -> NoticeReport -> List DriveJob -> Prop where
  | idle : DriveJob.readyNames jobs now = [] -> Announces command now jobs [] ⟨[], false⟩ jobs
  | failed {deeds : List Deed} :
      DriveJob.readyNames jobs now ≠ [] ->
      Delivers command (DriveJob.readyNames jobs now) deeds false ->
      Announces command now jobs deeds ⟨DriveJob.readyNames jobs now, false⟩ jobs
  | delivered {deeds marking : List Deed} {marked : List DriveJob} :
      DriveJob.readyNames jobs now ≠ [] ->
      Delivers command (DriveJob.readyNames jobs now) deeds true ->
      Each (Marks now) jobs marking marked ->
      Announces command now jobs (deeds ++ marking) ⟨DriveJob.readyNames jobs now, true⟩ marked

/-!
## The pass of a host
-/

namespace Rehearsal

open Act

theorem yields_deliver (command : Option String) (names : List String) :
    (host.deliver command names).Yields (Delivers command names) := by
  unfold Host.deliver
  split
  next hnone =>
    exact yields_pure (Delivers.silent hnone)
  next text htext =>
    apply yields_bind (yields_execute (Text.words text ++ names))
    intro deeds answer hdeeds
    subst hdeeds
    cases answer with
    | error error =>
        exact yields_silent (yields_note _) fun _ => yields_pure (Delivers.failed text error htext)
    | ok code =>
        exact yields_silent (yields_note _) fun _ => yields_pure (Delivers.ran text code htext)

theorem yields_markNotified (now : Instant) (job : DriveJob) :
    (host.markNotified now job).Yields (Marks now job) := by
  unfold Host.markNotified
  split
  next hready =>
    apply yields_bind (yields_saveJob job.name job.announced.toRecord)
    intro deeds answer hdeeds
    subst hdeeds
    cases answer with
    | error error =>
        refine yields_silent (yields_note _) fun _ => yields_pure ?_
        exact Marks.marked (.error error) hready
    | ok done =>
        exact yields_pure (Marks.marked (.ok done) hready)
  next hready =>
    exact yields_pure (Marks.passed (by simpa using hready))

theorem yields_notifyReady (command : Option String) (now : Instant) (jobs : List DriveJob) :
    (host.notifyReady command now jobs).Yields fun deeds result =>
      Announces command now jobs deeds result.1 result.2 := by
  unfold Host.notifyReady
  split
  next hidle =>
    exact yields_pure (Announces.idle hidle)
  next names hready =>
    apply yields_bind (yields_deliver command _)
    intro deeds delivered hdelivers
    cases delivered with
    | false =>
        rw [if_neg Bool.false_ne_true, pure_bind]
        refine yields_silent (yields_note _) fun _ => yields_pure ?_
        rw [List.append_nil]
        exact Announces.failed hready hdelivers
    | true =>
        rw [if_pos rfl]
        apply yields_bind (yields_mapM fun job _ => yields_markNotified now job)
        intro marking marked hmarks
        refine yields_silent (yields_note _) fun _ => yields_pure ?_
        rw [List.append_nil]
        exact Announces.delivered hready hdelivers hmarks

end Rehearsal
end RenewalDrive
