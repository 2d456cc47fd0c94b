import RenewalDrive.Proofs.Deeds.Acts

/-!
# The deeds of an evaluation

Every phase of an evaluation is a relation between the job before it, the deeds that the
phase does, and what it makes of the job; the answers that the drive is given are
arbitrary. The laws at the end say that the evaluation of a host runs through these phases.
-/

namespace RenewalDrive

/-!
## Jobs after the answers of the store
-/

namespace DriveJob

def reloaded (job : DriveJob) : Except StoreError (Option JobRecord) -> DriveJob
  | .ok (some record) => job.apply record
  | _ => job

def savedAs (job : DriveJob) : Except StoreError Unit -> DriveJob
  | .ok _ => { job with dirty := false }
  | .error _ => job

end DriveJob

theorem DriveJob.course_eq_renew_iff {job : DriveJob} {domain : Option ManagedDomain}
    {now : Instant} {renewed : ManagedDomain} :
    job.course domain now = .renew renewed ↔
      domain = some renewed ∧ renewed.state ≠ .missingInformation ∧ job.finished = false ∧
        renewed.shouldRenew now = true := by
  constructor
  · intro h
    unfold course at h
    split at h
    · cases h
    next domain =>
      split at h
      · cases h
      next hmissing =>
        split at h
        · cases h
        next hfinished =>
          split at h
          next hrenew =>
            cases h
            exact ⟨rfl, hmissing, by simpa using hfinished, hrenew⟩
          next =>
            cases h
  · rintro ⟨rfl, hmissing, hfinished, hrenew⟩
    simp [course, hmissing, hfinished, hrenew]

theorem DriveJob.finished_of_renew {job : DriveJob} {domain : Option ManagedDomain}
    {now : Instant} {renewed : ManagedDomain} (h : job.course domain now = .renew renewed) :
    job.finished = false :=
  (course_eq_renew_iff.mp h).2.2.1

theorem DriveJob.completed_nextRun (job : DriveJob) (message : Option String)
    (validFrom now : Instant) :
    (job.completed message validFrom now).nextRun =
      (job.completed message validFrom now).job.activation now := by
  simp [completed, activation, Option.filter_some]

def ManagedDomain.current (domain : ManagedDomain) (now : Instant) :
    Except StoreError (Option Credential) -> ManagedDomain
  | .ok (some credential) => domain.install credential now
  | _ => domain

/-!
## Phases
-/

inductive Reloads (job : DriveJob) : List Deed -> DriveJob -> Prop where
  | kept : job.dirty = true -> Reloads job [] job
  | asked (answer : Except StoreError (Option JobRecord)) :
      job.dirty = false ->
      Reloads job [.recordLoaded job.name answer] (job.reloaded answer)

inductive Stores (job : DriveJob) : List Deed -> DriveJob -> Prop where
  | kept : job.dirty = false -> Stores job [] job
  | asked (answer : Except StoreError Unit) :
      job.dirty = true ->
      Stores job [.recordSaved job.name job.toRecord answer] (job.savedAs answer)

inductive Inspects (now : Instant) :
    Option ManagedDomain -> List Deed -> Option ManagedDomain -> Prop where
  | unmanaged : Inspects now none [] none
  | managed (domain : ManagedDomain) (answer : Except StoreError (Option Credential)) :
      Inspects now (some domain) [.credentialLoaded domain.name answer]
        (some (domain.current now answer))

/-- The credentials in use for a domain are those that a job has staged, or newer. -/
def DriveJob.Activated (job : DriveJob) (domain : Option ManagedDomain) : Prop :=
  domain.any (fun domain => job.isActivated domain.credential) = true

inductive Begins (job : DriveJob) (domain : Option ManagedDomain) :
    List Deed -> DriveJob -> Prop where
  | kept : ¬ job.Activated domain -> Begins job domain [] job
  | generation (answer : Except StoreError Unit) :
      job.Activated domain ->
      Begins job domain [.purged .staging job.name answer] job.nextGeneration

/-- The course of a job. An attempt that completes reads the clock once more. -/
inductive Pursues (job : DriveJob) (now : Instant) :
    Course -> List Deed -> Findings -> Prop where
  | unmanaged : Pursues job now .unmanaged [] (job.keeping none)
  | blocked : Pursues job now .blocked [] job.blocked
  | finished : Pursues job now .finished [] (job.keeping (job.activation now))
  | rest (domain : ManagedDomain) : Pursues job now (.rest domain) [] (job.keeping none)
  | completed (domain : ManagedDomain) (outcome : RenewOutcome) (took : Span) (later : Instant) :
      outcome.isComplete = true ->
      Pursues job now (.renew domain)
        [.attempted domain job.resetStaging outcome took, .clockRead later]
        (job.attempted.completed outcome.message (outcome.validFrom.getD later) later)
  | failed (domain : ManagedDomain) (outcome : RenewOutcome) (took : Span) (next : Instant) :
      outcome.isComplete = false ->
      now.add? (Backoff.delay job.failedOnce.errorRuns) = some next ->
      Pursues job now (.renew domain) [.attempted domain job.resetStaging outcome took]
        ⟨job.attempted.failedOnce, some next, outcome.driveStatus, outcome.message⟩

inductive EvaluatesDue (registry : Registry) (job : DriveJob) (now : Instant) :
    List Deed -> DriveJob -> Prop where
  | phases {domain : Option ManagedDomain} {begun evaluated : DriveJob} {findings : Findings}
      {inspecting beginning pursuing storing : List Deed} :
      Inspects now (registry.get? job.name) inspecting domain ->
      Begins job domain beginning begun ->
      Pursues begun now (begun.course domain now) pursuing findings ->
      Stores (.recorded findings) storing evaluated ->
      EvaluatesDue registry job now (inspecting ++ (beginning ++ (pursuing ++ storing))) evaluated

inductive Evaluates (registry : Registry) (job : DriveJob) :
    List Deed -> Evaluation -> DriveJob -> Prop where
  | notDue {loading : List Deed} {loaded : DriveJob} (now : Instant) :
      Reloads job loading loaded ->
      loaded.isDue now = false ->
      Evaluates registry job (loading ++ [.clockRead now]) .notDue loaded
  | due {loading deeds : List Deed} {loaded evaluated : DriveJob} (now : Instant) :
      Reloads job loading loaded ->
      loaded.isDue now = true ->
      EvaluatesDue registry loaded now deeds evaluated ->
      Evaluates registry job (loading ++ .clockRead now :: deeds)
        (.evaluated evaluated.lastStatus) evaluated

/-!
## The evaluation of a host

Each function of the drive is followed act by act; the events that it tells its log are
no deeds.
-/

namespace Rehearsal

open Act

theorem yields_reload (job : DriveJob) : (host.reload job).Yields (Reloads job) := by
  unfold Host.reload
  split
  next hdirty =>
    exact yields_silent (yields_note _) fun _ => yields_pure (Reloads.kept hdirty)
  next hdirty =>
    have hclean : job.dirty = false := by simpa using hdirty
    apply yields_bind (yields_loadJob job.name)
    intro deeds answer hdeeds
    subst hdeeds
    cases answer with
    | error error =>
        refine yields_silent (yields_note _) fun _ => yields_pure ?_
        exact Reloads.asked (.error error) hclean
    | ok loaded =>
        cases loaded with
        | none =>
            exact yields_pure (Reloads.asked (.ok none) hclean)
        | some record =>
            exact yields_pure (Reloads.asked (.ok (some record)) hclean)

theorem yields_save (job : DriveJob) :
    (host.save job).Yields fun deeds saved =>
      exists answer, deeds = [.recordSaved job.name job.toRecord answer] ∧
        saved = job.savedAs answer := by
  unfold Host.save
  apply yields_bind (yields_saveJob job.name job.toRecord)
  intro deeds answer hdeeds
  subst hdeeds
  cases answer with
  | error error =>
      exact yields_silent (yields_note _) fun _ => yields_pure ⟨.error error, rfl, rfl⟩
  | ok done =>
      exact yields_silent (yields_note _) fun _ => yields_pure ⟨.ok done, rfl, rfl⟩

theorem yields_currentDomain (domain : ManagedDomain) (now : Instant) :
    (host.currentDomain domain now).Yields fun deeds current =>
      Inspects now (some domain) deeds (some current) := by
  unfold Host.currentDomain
  apply yields_bind (yields_loadCredential domain.name)
  intro deeds answer hdeeds
  subst hdeeds
  cases answer with
  | error error =>
      refine yields_silent (yields_note _) fun _ => yields_pure ?_
      exact Inspects.managed domain (.error error)
  | ok installed =>
      cases installed with
      | none =>
          exact yields_pure (Inspects.managed domain (.ok none))
      | some credential =>
          exact yields_pure (Inspects.managed domain (.ok (some credential)))

theorem yields_inspection (domain : Option ManagedDomain) (now : Instant) :
    (domain.mapM fun domain => host.currentDomain domain now).Yields (Inspects now domain) := by
  cases domain with
  | none =>
      exact yields_pure Inspects.unmanaged
  | some domain =>
      change (some <$> host.currentDomain domain now).Yields _
      rw [map_eq_pure_bind]
      apply yields_bind (yields_currentDomain domain now)
      intro deeds current hcurrent
      apply yields_pure
      rw [List.append_nil]
      exact hcurrent

theorem yields_beginGeneration (job : DriveJob) :
    (host.beginGeneration job).Yields fun deeds begun =>
      exists answer, deeds = [.purged .staging job.name answer] ∧ begun = job.nextGeneration := by
  unfold Host.beginGeneration
  refine yields_silent (yields_note _) fun _ => ?_
  apply yields_bind (yields_purge .staging job.name)
  intro deeds answer hdeeds
  subst hdeeds
  cases answer with
  | error error =>
      exact yields_silent (yields_note _) fun _ => yields_pure ⟨.error error, rfl, rfl⟩
  | ok done =>
      exact yields_pure ⟨.ok done, rfl, rfl⟩

theorem yields_renew (job : DriveJob) (domain : ManagedDomain) (now : Instant) :
    (host.renew job domain now).Yields (Pursues job now (.renew domain)) := by
  unfold Host.renew
  refine yields_silent (yields_note _) fun _ => ?_
  apply yields_bind (yields_attempt domain job.resetStaging)
  intro deeds outcome hattempt
  rcases hattempt with ⟨took, rfl⟩
  unfold Host.afterAttempt
  split
  next hcomplete =>
    apply yields_bind yields_now
    intro reading later hreading
    subst hreading
    refine yields_silent (yields_note _) fun _ => yields_pure ?_
    exact Pursues.completed domain outcome took later hcomplete
  next hfailed =>
    refine yields_silent (yields_note _) fun _ => yields_silent (yields_count _) fun _ => ?_
    apply yields_bind yields_instant
    intro reading next hnext
    rcases hnext with ⟨rfl, hnext⟩
    refine yields_silent (yields_note _) fun _ => yields_pure ?_
    exact Pursues.failed domain outcome took next (by simpa using hfailed) hnext

theorem yields_pursue (job : DriveJob) (now : Instant) (course : Course) :
    (host.pursue job now course).Yields (Pursues job now course) := by
  cases course with
  | unmanaged =>
      exact yields_silent (yields_note _) fun _ => yields_pure Pursues.unmanaged
  | blocked =>
      refine yields_silent (yields_count _) fun _ => ?_
      exact yields_silent (yields_note _) fun _ => yields_pure Pursues.blocked
  | finished =>
      exact yields_pure Pursues.finished
  | renew domain =>
      exact yields_renew job domain now
  | rest domain =>
      unfold Host.pursue
      dsimp only
      split
      · exact yields_pure (Pursues.rest domain)
      · exact yields_silent (yields_note _) fun _ => yields_pure (Pursues.rest domain)

theorem yields_evaluateDue (registry : Registry) (job : DriveJob) (now : Instant) :
    (host.evaluateDue registry job now).Yields (EvaluatesDue registry job now) := by
  unfold Host.evaluateDue
  apply yields_bind (yields_inspection (registry.get? job.name) now)
  intro inspecting domain hinspects
  -- The rest of the evaluation is the same whether a generation ends or not.
  have hrest : forall beginning begun, Begins job domain beginning begun ->
      (do
        let findings ← host.pursue begun now (begun.course domain now)
        if (DriveJob.recorded findings).dirty then host.save (.recorded findings)
        else return .recorded findings : Act Rehearsal DriveJob).Yields fun deeds evaluated =>
          EvaluatesDue registry job now (inspecting ++ (beginning ++ deeds)) evaluated := by
    intro beginning begun hbegins
    apply yields_bind (yields_pursue begun now (begun.course domain now))
    intro pursuing findings hpursues
    split
    next hdirty =>
      refine (yields_save _).mono ?_
      intro storing evaluated hsaved
      rcases hsaved with ⟨answer, rfl, rfl⟩
      exact EvaluatesDue.phases hinspects hbegins hpursues (Stores.asked answer hdirty)
    next hclean =>
      apply yields_pure
      exact EvaluatesDue.phases hinspects hbegins hpursues
        (Stores.kept (by simpa using hclean))
  split
  next hactivated =>
    apply yields_bind (yields_beginGeneration job)
    intro beginning begun hbegun
    rcases hbegun with ⟨answer, rfl, rfl⟩
    exact hrest _ _ (Begins.generation answer hactivated)
  next hkept =>
    rw [pure_bind]
    exact hrest [] job (Begins.kept hkept)

theorem yields_evaluate (registry : Registry) (job : DriveJob) :
    (host.evaluate registry job).Yields fun deeds result =>
      Evaluates registry job deeds result.1 result.2 := by
  unfold Host.evaluate
  apply yields_bind (yields_reload job)
  intro loading loaded hloads
  apply yields_bind yields_now
  intro reading now hreading
  subst hreading
  split
  next hdue =>
    apply yields_bind (yields_evaluateDue registry loaded now)
    intro deeds evaluated hevaluated
    apply yields_pure
    rw [List.append_nil]
    exact Evaluates.due now hloads hdue hevaluated
  next hdue =>
    exact yields_pure (Evaluates.notDue now hloads (by simpa using hdue))

end Rehearsal
end RenewalDrive
