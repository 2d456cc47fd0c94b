import RenewalDrive.Proofs.Deeds.Steps
import RenewalDrive.Proofs.Run.Foreign

/-!
# Steady worlds

Worlds are steady for a name when every request for it is answered alike, and every reading
of the clock lies in years that leave room for a pause. What a drive does for that name then
stays in step. The turn of a job is cut in two: what comes before its course is taken never
halts, and only the settlement of the course may come to a time that cannot be written.
-/

namespace RenewalDrive

/-!
## The turn of a job and its settlement
-/

namespace Host

variable {σ : Type} (host : Host σ)

/-- The turn of a job in a round, up to the course that is taken and the instant that it is
taken at; a job that is not due has none. -/
def turn (registry : Registry) (job : DriveJob) : Act σ (DriveJob × Option (Instant × Course)) := do
  if job.isDue (← host.now) then
    let job ← host.reload job
    let now ← host.now
    if job.isDue now then
      let domain ← (registry.get? job.name).mapM fun domain => host.currentDomain domain now
      let job ←
        if domain.any fun domain => job.isActivated domain.credential then
          host.beginGeneration job
        else pure job
      return (job, some (now, job.course domain now))
    else
      return (job, none)
  else
    return (job, none)

def settle (job : DriveJob) : Option (Instant × Course) -> Act σ DriveJob
  | none => return job
  | some (now, course) => do
      let job := .recorded (← host.pursue job now course)
      if job.dirty then host.save job else return job

theorem runJob_eq (registry : Registry) (job : DriveJob) :
    host.runJob registry job =
      host.turn registry job >>= fun turned => host.settle turned.1 turned.2 := by
  unfold runJob turn
  simp only [bind_assoc]
  congr 1
  funext now
  split
  next =>
    unfold evaluate
    simp only [bind_assoc]
    congr 1
    funext loaded
    congr 1
    funext now
    split
    next =>
      unfold evaluateDue
      simp only [bind_assoc, pure_bind, settle]
      congr 1
      funext domain
      rw [bind_pure]
      split
      next =>
        simp only [bind_assoc, pure_bind]
      next =>
        simp only [pure_bind]
    next =>
      simp only [pure_bind, settle]
  next =>
    simp only [pure_bind, settle]

end Host

structure Course.Fits (name : String) (expires : Instant -> Prop) (course : Course) : Prop where
  renews : forall domain, course = .renew domain -> domain.name = name
  rests : forall domain t, course = .rest domain -> domain.expires = some t -> expires t

theorem DriveJob.domain_of_course {job : DriveJob} {seen : Option ManagedDomain}
    {now : Instant} {domain : ManagedDomain}
    (h : job.course seen now = .renew domain ∨ job.course seen now = .rest domain) :
    seen = some domain := by
  unfold course at h
  split at h
  · simp at h
  · split at h
    · simp at h
    · split at h
      · simp at h
      · split at h
        · simpa using h
        · simpa using h

theorem DriveJob.course_fits {job : DriveJob} {seen : Option ManagedDomain} {now : Instant}
    {name : String} {expires : Instant -> Prop}
    (h : forall domain, seen = some domain ->
      domain.name = name ∧ forall t, domain.expires = some t -> expires t) :
    (job.course seen now).Fits name expires := by
  constructor
  · intro domain hcourse
    exact (h domain (domain_of_course (Or.inl hcourse))).1
  · intro domain t hcourse
    exact (h domain (domain_of_course (Or.inr hcourse))).2 t

/-!
## Steady requests
-/

namespace Rehearsal

open Act

/-- The requests for a name are in step between related worlds, for a log that takes some
levels; the times of expiry in the store and the times of staged credentials meet conditions. -/
structure Steady (takes : LogLevel -> Bool) (expires becomes : Instant -> Prop)
    (related : Rehearsal -> Rehearsal -> Prop) (name : String) : Prop where
  now : host.now.InStep related Instant.InYears
  loadJob : (host.loadJob name).InStep related fun _ => True
  saveJob : forall record, (host.saveJob name record).InStep related fun _ => True
  loadCredential : (host.loadCredential name).InStep related fun answer =>
    forall credential, answer = .ok (some credential) -> expires credential.expires
  purge : forall group, (host.purge group name).InStep related fun _ => True
  attempt : forall domain reset, domain.name = name ->
    (host.attempt domain reset).InStep related fun outcome =>
      forall t, outcome.validFrom = some t -> becomes t
  note : forall event, event.Told takes -> (host.note event).InStep related fun _ => True

namespace Steady

variable {takes : LogLevel -> Bool} {expires becomes : Instant -> Prop}
  {related : Rehearsal -> Rehearsal -> Prop} {name : String}

theorem noting {α : Type} {event : Event} {next : Unit -> Act Rehearsal α} {ends : α -> Prop}
    (h : Steady takes expires becomes related name) (hevent : event.date? = none)
    (hnext : forall a, (next a).InStep related ends) :
    (host.note event >>= next).InStep related ends := by
  apply inStep_bind (h.note event (Event.told_of_undated hevent))
  intro a _
  exact hnext a

theorem reload {job : DriveJob} (h : Steady takes expires becomes related job.name) :
    (host.reload job).InStep related fun loaded => loaded.name = job.name := by
  unfold Host.reload
  split
  next =>
    exact h.noting rfl fun _ => inStep_pure rfl
  next =>
    apply inStep_bind h.loadJob
    intro answer _
    cases answer with
    | error error =>
        exact h.noting rfl fun _ => inStep_pure rfl
    | ok loaded =>
        cases loaded with
        | none =>
            exact inStep_pure rfl
        | some record =>
            exact inStep_pure rfl

theorem save {job : DriveJob} (h : Steady takes expires becomes related job.name) :
    (host.save job).InStep related fun _ => True := by
  unfold Host.save
  apply inStep_bind (h.saveJob job.toRecord)
  intro answer _
  cases answer with
  | error error =>
      exact h.noting rfl fun _ => inStep_pure trivial
  | ok done =>
      exact h.noting rfl fun _ => inStep_pure trivial

theorem currentDomain {domain : ManagedDomain} {now : Instant}
    (h : Steady takes expires becomes related domain.name)
    (hexpires : forall t, domain.expires = some t -> expires t) :
    (host.currentDomain domain now).InStep related fun current =>
      current.name = domain.name ∧ forall t, current.expires = some t -> expires t := by
  unfold Host.currentDomain
  apply inStep_bind h.loadCredential
  intro answer hanswer
  cases answer with
  | error error =>
      exact h.noting rfl fun _ => inStep_pure ⟨rfl, hexpires⟩
  | ok installed =>
      cases installed with
      | none =>
          exact inStep_pure ⟨rfl, hexpires⟩
      | some credential =>
          apply inStep_pure
          constructor
          · rfl
          · intro t ht
            cases ht
            exact hanswer credential rfl

theorem inspection {registry : Registry} {now : Instant}
    (h : Steady takes expires becomes related name)
    (hregistry : forall domain t, registry.get? name = some domain ->
      domain.expires = some t -> expires t) :
    ((registry.get? name).mapM fun domain => host.currentDomain domain now).InStep related
      fun seen => forall domain, seen = some domain ->
        domain.name = name ∧ forall t, domain.expires = some t -> expires t := by
  cases hget : registry.get? name with
  | none =>
      apply inStep_pure
      intro domain hdomain
      cases hdomain
  | some configured =>
      have hname := Registry.name_of_get? hget
      subst hname
      show (some <$> host.currentDomain configured now).InStep related _
      rw [map_eq_pure_bind]
      apply inStep_bind (h.currentDomain fun t => hregistry configured t hget)
      intro current hcurrent
      apply inStep_pure
      intro domain hdomain
      cases hdomain
      exact hcurrent

theorem beginGeneration {job : DriveJob} (h : Steady takes expires becomes related job.name) :
    (host.beginGeneration job).InStep related fun begun => begun.name = job.name := by
  unfold Host.beginGeneration
  apply h.noting rfl
  intro _
  apply inStep_bind (h.purge .staging)
  intro answer _
  cases answer with
  | error error =>
      exact h.noting rfl fun _ => inStep_pure rfl
  | ok done =>
      exact inStep_pure rfl

/-!
## Turns
-/

theorem turn {registry : Registry} {job : DriveJob}
    (h : Steady takes expires becomes related job.name)
    (hregistry : forall domain t, registry.get? job.name = some domain ->
      domain.expires = some t -> expires t) :
    (host.turn registry job).InStep related fun turned => turned.1.name = job.name ∧
      forall now course, turned.2 = some (now, course) ->
        now.InYears ∧ course.Fits job.name expires := by
  have hnone : forall loaded : DriveJob, loaded.name = job.name ->
      loaded.name = job.name ∧ forall now course,
        (none : Option (Instant × Course)) = some (now, course) ->
          now.InYears ∧ course.Fits job.name expires := by
    intro loaded hname
    constructor
    · exact hname
    · intro now course hcourse
      cases hcourse
  unfold Host.turn
  apply inStep_bind h.now
  intro early _
  split
  next =>
    apply inStep_bind h.reload
    intro loaded hloaded
    apply inStep_bind h.now
    intro now hnow
    split
    next =>
      rw [hloaded]
      apply inStep_bind (h.inspection hregistry)
      intro seen hseen
      have hcourse : forall begun : DriveJob, begun.name = job.name ->
          begun.name = job.name ∧ forall t course,
            some (now, begun.course seen now) = some (t, course) ->
              t.InYears ∧ course.Fits job.name expires := by
        intro begun hname
        constructor
        · exact hname
        · intro t course heq
          cases heq
          exact ⟨hnow, DriveJob.course_fits hseen⟩
      split
      next =>
        rw [← hloaded] at h
        apply inStep_bind h.beginGeneration
        intro begun hbegun
        exact inStep_pure (hcourse begun (hbegun.trans hloaded))
      next =>
        rw [pure_bind]
        exact inStep_pure (hcourse loaded hloaded)
    next =>
      exact inStep_pure (hnone loaded hloaded)
  next =>
    exact inStep_pure (hnone job rfl)

/-!
## Settlements
-/

theorem afterAttempt {job : DriveJob} {outcome : RenewOutcome} {now : Instant}
    (h : Steady takes expires becomes related job.name) (hnow : now.InYears)
    (houtcome : outcome.isComplete = true -> forall t, outcome.validFrom = some t ->
      forall later, (Event.renewed job.name t later).Told takes) :
    (host.afterAttempt job outcome now).InStep related fun findings =>
      findings.job.name = job.name := by
  unfold Host.afterAttempt
  split
  next hcomplete =>
    apply inStep_bind h.now
    intro later hlater
    have htold : (Event.renewed job.name (outcome.validFrom.getD later) later).Told takes := by
      cases hvalid : outcome.validFrom with
      | none =>
          exact Event.told_of_writable rfl hlater.writable
      | some validFrom =>
          exact houtcome hcomplete validFrom hvalid later
    apply inStep_bind (h.note _ htold)
    intro _ _
    exact inStep_pure rfl
  next =>
    apply h.noting rfl
    intro _
    rcases hnow.exists_add?_delay job.failedOnce.errorRuns with ⟨next, hnext⟩
    rw [count_eq, pure_bind]
    apply inStep_bind (inStep_instant hnext)
    intro _ _
    exact h.noting rfl fun _ => inStep_pure rfl

theorem pursue {job : DriveJob} {now : Instant} {course : Course}
    (h : Steady takes expires becomes related job.name) (hnow : now.InYears)
    (hname : forall domain, course = .renew domain -> domain.name = job.name)
    (hrest : forall domain t, course = .rest domain -> domain.expires = some t ->
      (Event.nothingToRenew job.name t).Told takes)
    (hrenew : forall domain t later, course = .renew domain -> becomes t ->
      (Event.renewed job.name t later).Told takes) :
    (host.pursue job now course).InStep related fun findings =>
      findings.job.name = job.name := by
  cases course with
  | unmanaged =>
      exact h.noting rfl fun _ => inStep_pure rfl
  | blocked =>
      unfold Host.pursue
      rw [count_eq, pure_bind]
      exact h.noting rfl fun _ => inStep_pure rfl
  | finished =>
      exact inStep_pure rfl
  | renew domain =>
      apply h.noting rfl
      intro _
      apply inStep_bind (h.attempt domain job.resetStaging (hname domain rfl))
      intro outcome houtcome
      show (host.afterAttempt job.attempted outcome now).InStep related _
      apply afterAttempt
      · exact h
      · exact hnow
      · intro _ t ht later
        exact hrenew domain t later rfl (houtcome t ht)
  | rest domain =>
      unfold Host.pursue
      dsimp only
      split
      next =>
        exact inStep_pure rfl
      next t ht =>
        apply inStep_bind (h.note _ (hrest domain t rfl ht))
        intro _ _
        exact inStep_pure rfl

theorem keep {job : DriveJob} (h : Steady takes expires becomes related job.name) :
    (if job.dirty then host.save job else return job : Act Rehearsal DriveJob).InStep related
      fun _ => True := by
  split
  next =>
    exact h.save
  next =>
    exact inStep_pure trivial

end Steady

structure Tells (takes : LogLevel -> Bool) (expires becomes : Instant -> Prop) : Prop where
  rests : forall name t, expires t -> (Event.nothingToRenew name t).Told takes
  renews : forall name t later, becomes t -> (Event.renewed name t later).Told takes

namespace Steady

variable {takes : LogLevel -> Bool} {expires becomes : Instant -> Prop}
  {related : Rehearsal -> Rehearsal -> Prop} {name : String} {registry : Registry}
  {job : DriveJob}

theorem settle {turned : Option (Instant × Course)} (htells : Tells takes expires becomes)
    (h : Steady takes expires becomes related job.name)
    (hturned : forall now course, turned = some (now, course) ->
      now.InYears ∧ course.Fits job.name expires) :
    (host.settle job turned).InStep related fun _ => True := by
  cases turned with
  | none =>
      exact inStep_pure trivial
  | some taken =>
      rcases taken with ⟨now, course⟩
      rcases hturned now course rfl with ⟨hnow, hfits⟩
      have hpursue : (host.pursue job now course).InStep related fun findings =>
          findings.job.name = job.name := by
        apply h.pursue hnow hfits.renews
        · intro domain t hcourse ht
          exact htells.rests job.name t (hfits.rests domain t hcourse ht)
        · intro domain t later _ ht
          exact htells.renews job.name t later ht
      apply inStep_bind hpursue
      intro findings hname
      apply keep
      rw [DriveJob.recorded_name, hname]
      exact h

theorem runJob (htells : Tells takes expires becomes)
    (h : Steady takes expires becomes related job.name)
    (hregistry : forall domain t, registry.get? job.name = some domain ->
      domain.expires = some t -> expires t) :
    (host.runJob registry job).InStep related fun _ => True := by
  rw [Host.runJob_eq]
  apply inStep_bind (h.turn hregistry)
  intro turned hturned
  rcases hturned with ⟨hname, hcourse⟩
  apply settle htells
  · rw [hname]
    exact h
  · rw [hname]
    exact hcourse

/-!
## Starts
-/

theorem purgeNoting (group : Group) (h : Steady takes expires becomes related name) :
    (host.purgeNoting name group).InStep related fun _ => True := by
  unfold Host.purgeNoting
  apply inStep_bind (h.purge group)
  intro answer _
  cases answer with
  | error error =>
      exact h.note _ (Event.told_of_undated rfl)
  | ok done =>
      exact inStep_pure trivial

theorem startJob (h : Steady takes expires becomes related name) :
    (host.startJob name).InStep related fun _ => True := by
  have hreload : (host.reload (.fresh name)).InStep related fun loaded => loaded.name = name :=
    reload h
  unfold Host.startJob
  apply h.noting rfl
  intro _
  apply inStep_bind hreload
  intro loaded _
  split
  next =>
    apply h.noting rfl
    intro _
    apply inStep_bind (h.purgeNoting .staging)
    intro _ _
    apply inStep_bind (h.purgeNoting .challenges)
    intro _ _
    apply save
    exact h
  next =>
    exact inStep_pure trivial

theorem purgeStale (h : Steady takes expires becomes related name) :
    (host.purgeStale name).InStep related fun _ => True := by
  unfold Host.purgeStale
  apply inStep_bind (h.purge .challenges)
  intro answer _
  cases answer with
  | error error =>
      exact h.note _ (Event.told_of_undated rfl)
  | ok done =>
      exact h.note _ (Event.told_of_undated rfl)

end Steady

end Rehearsal
end RenewalDrive
