import RenewalDrive.Proofs.Deeds.Scripts
import RenewalDrive.Proofs.Drive.Steady

/-!
# Undisturbed worlds

In an undisturbed world the clock stands still, the store refuses nothing, and attempts take no
time. What a drive does there depends on a few parts of the world alone, its ledger, and so an
act either comes to the same answer and the same later ledger in all worlds with a ledger, or
halts in all of them.
-/

namespace RenewalDrive

structure Ledger where
  store : MemoryStore
  /-- The outcomes of the attempts to come. -/
  scripts : List Script
  kept : Option LogLevel
  /-- The attempts that were made, in the order of time. -/
  attempts : List (ManagedDomain × Bool)

def Ledger.attempted (ledger : Ledger) (domain : ManagedDomain) (reset : Bool) : Ledger :=
  { ledger with
    scripts := (Script.next domain.name ledger.scripts).2
    attempts := ledger.attempts ++ [(domain, reset)] }

namespace Rehearsal

/-- The clock stands still, the store refuses nothing, and attempts take no time. -/
structure Undisturbed (now : Instant) (world : Rehearsal) : Prop where
  clock : forall moment, world.clock moment = now
  served : forall moment request, world.refuses moment request = false
  prompt : forall script, script ∈ world.scripts -> script.took = .zero

def attempts (world : Rehearsal) : List (ManagedDomain × Bool) :=
  world.journal.reverse.filterMap Deed.attempt?

def ledger (world : Rehearsal) : Ledger :=
  ⟨world.store, world.scripts, world.kept, world.attempts⟩

section

variable {world : Rehearsal} {deed : Deed} {now : Instant}

theorem attempts_after (world : Rehearsal) (deed : Deed) :
    (world.after deed).attempts = world.attempts ++ deed.attempt?.toList := by
  unfold attempts after
  rw [List.reverse_cons, List.filterMap_append]
  cases h : deed.attempt? <;> simp [h]

theorem ledger_after (h : deed.attempt? = none) : (world.after deed).ledger = world.ledger := by
  unfold ledger
  rw [attempts_after, h, Option.toList_none, List.append_nil]
  rfl

theorem Undisturbed.after (h : world.Undisturbed now) (deed : Deed) :
    (world.after deed).Undisturbed now :=
  ⟨h.clock, h.served, h.prompt⟩

end

end Rehearsal

/-!
## What acts do
-/

namespace Act

variable {α β : Type} {now : Instant} {act : Act Rehearsal α} {next : α -> Act Rehearsal β}
  {ledger mid later : Ledger} {a : α} {b : β}

/-- In every undisturbed world with a ledger the act comes to an answer and to a later ledger. -/
def Does (now : Instant) (act : Act Rehearsal α) (ledger : Ledger) (a : α) (later : Ledger) :
    Prop :=
  forall world, world.Undisturbed now -> world.ledger = ledger ->
    exists final, act.run world = .ok (a, final) ∧ final.Undisturbed now ∧ final.ledger = later

def Halts (now : Instant) (act : Act Rehearsal α) (ledger : Ledger) : Prop :=
  forall world, world.Undisturbed now -> world.ledger = ledger ->
    exists halt, act.run world = .error halt

theorem does_pure (a : α) (ledger : Ledger) : (pure a : Act Rehearsal α).Does now ledger a ledger :=
  fun world hworld hledger => ⟨world, rfl, hworld, hledger⟩

theorem does_bind (hact : act.Does now ledger a mid) (hnext : (next a).Does now mid b later) :
    (act >>= next).Does now ledger b later := by
  intro world hworld hledger
  rcases hact world hworld hledger with ⟨final, hrun, hfinal, hmid⟩
  rcases hnext final hfinal hmid with ⟨last, hlast, hend⟩
  exact ⟨last, (run_bind_of_ok hrun).trans hlast, hend⟩

theorem halts_bind (hact : act.Halts now ledger) : (act >>= next).Halts now ledger := by
  intro world hworld hledger
  rcases hact world hworld hledger with ⟨halt, hrun⟩
  exact ⟨halt, run_bind_of_error hrun⟩

theorem Does.halts_bind (hact : act.Does now ledger a mid) (hnext : (next a).Halts now mid) :
    (act >>= next).Halts now ledger := by
  intro world hworld hledger
  rcases hact world hworld hledger with ⟨final, hrun, hfinal, hmid⟩
  rcases hnext final hfinal hmid with ⟨halt, hhalt⟩
  exact ⟨halt, (run_bind_of_ok hrun).trans hhalt⟩

end Act

/-!
## Requests
-/

namespace Rehearsal

open Act

variable {now : Instant} {ledger : Ledger}

theorem does_now : host.now.Does now ledger now ledger := by
  intro world hworld hledger
  have hreading : world.reading = now := hworld.clock world.moment
  refine ⟨world.after (.clockRead now), ?_, hworld.after _, (ledger_after rfl).trans hledger⟩
  rw [← hreading]
  rfl

theorem does_ask {α : Type} {request : Request} {deed : Except StoreError α -> Deed}
    {serve : MemoryStore -> α × MemoryStore}
    (hdeed : forall answer, (deed answer).attempt? = none) :
    (ask request deed serve).Does now ledger (.ok (serve ledger.store).1)
      { ledger with store := (serve ledger.store).2 } := by
  rintro world hworld rfl
  refine ⟨{ world with store := (serve world.store).2 }.after (deed (.ok (serve world.store).1)),
    ?_, ⟨hworld.clock, hworld.served, hworld.prompt⟩, ledger_after (hdeed _)⟩
  have hserved := hworld.served world.moment request
  show ask request deed serve world = _
  rw [ask, if_neg (by simp [hserved])]
  rfl

theorem does_loadJob (name : String) :
    (host.loadJob name).Does now ledger (.ok (ledger.store.loadJob name)) ledger := by
  change (Rehearsal.loadJob name).Does _ _ _ _
  exact does_ask fun _ => rfl

theorem does_saveJob (name : String) (record : JobRecord) :
    (host.saveJob name record).Does now ledger (.ok ())
      { ledger with store := ledger.store.saveJob name record } := by
  change (Rehearsal.saveJob name record).Does _ _ _ _
  exact does_ask fun _ => rfl

theorem does_loadCredential (name : String) :
    (host.loadCredential name).Does now ledger (.ok (ledger.store.loadCredential name)) ledger := by
  change (Rehearsal.loadCredential name).Does _ _ _ _
  exact does_ask fun _ => rfl

theorem does_purge (group : Group) (name : String) :
    (host.purge group name).Does now ledger (.ok ())
      { ledger with store := ledger.store.purge group name } := by
  change (Rehearsal.purge group name).Does _ _ _ _
  exact does_ask fun _ => rfl

theorem does_attempt (domain : ManagedDomain) (reset : Bool) :
    (host.attempt domain reset).Does now ledger
      (Script.next domain.name ledger.scripts).1.outcome (ledger.attempted domain reset) := by
  rintro world hworld rfl
  have htook := Script.next_holds domain.name (show Script.unscripted.took = .zero from rfl)
    hworld.prompt
  refine ⟨_, run_attempt_of_zero reset htook, ⟨hworld.clock, hworld.served, ?_⟩, ?_⟩
  · exact fun script hscript => hworld.prompt script (Script.mem_of_mem_next hscript)
  · unfold ledger
    rw [attempts_after]
    rfl

theorem does_note {event : Event} (h : event.Told (LogLevel.takes ledger.kept)) :
    (host.note event).Does now ledger () ledger := by
  rintro world hworld rfl
  rcases run_note_of_told h with ⟨entries, hrun⟩
  have hnoted : forall (mid : Rehearsal) (entry : LogEntry),
      mid.Undisturbed now ∧ mid.ledger = world.ledger ->
      (mid.after (.noted entry)).Undisturbed now ∧
        (mid.after (.noted entry)).ledger = world.ledger :=
    fun mid entry hmid => ⟨hmid.1.after _, (ledger_after rfl).trans hmid.2⟩
  exact ⟨_, hrun, holds_after_notes hnoted entries ⟨hworld, rfl⟩⟩

theorem halts_note {event : Event} (h : ¬ event.Told (LogLevel.takes ledger.kept)) :
    (host.note event).Halts now ledger := by
  rintro world _ rfl
  exact ⟨_, run_note_of_not_told h⟩

theorem does_noting {α : Type} {event : Event} {next : Unit -> Act Rehearsal α} {a : α}
    {later : Ledger} (hevent : event.date? = none) (hnext : (next ()).Does now ledger a later) :
    (host.note event >>= next).Does now ledger a later :=
  does_bind (does_note (Event.told_of_undated hevent)) hnext

theorem halts_noting {α : Type} {event : Event} {next : Unit -> Act Rehearsal α}
    (hevent : event.date? = none) (hnext : (next ()).Halts now ledger) :
    (host.note event >>= next).Halts now ledger :=
  (does_note (Event.told_of_undated hevent)).halts_bind hnext

end Rehearsal

/-!
## The turn of a job
-/

def DriveJob.found (job : DriveJob) (store : MemoryStore) : DriveJob :=
  if job.dirty then job else job.reloaded (.ok (store.loadJob job.name))

def Registry.inUse (registry : Registry) (store : MemoryStore) (now : Instant) (name : String) :
    Option ManagedDomain :=
  (registry.get? name).map fun domain =>
    domain.current now (.ok (store.loadCredential domain.name))

/-- The job as its course is taken: a drive whose staged credentials are in use has ended. -/
def DriveJob.begun (job : DriveJob) (domain : Option ManagedDomain) : DriveJob :=
  if domain.any fun domain => job.isActivated domain.credential then job.nextGeneration else job

def DriveJob.turned (job : DriveJob) (registry : Registry) (store : MemoryStore) (now : Instant) :
    DriveJob × Option (Instant × Course) :=
  if job.isDue now then
    if (job.found store).isDue now then
      let domain := registry.inUse store now job.name
      ((job.found store).begun domain,
        some (now, ((job.found store).begun domain).course domain now))
    else (job.found store, none)
  else (job, none)

/-- What has changed in a store belongs to one name, and is no credential. -/
structure MemoryStore.ChangedFor (name : String) (store later : MemoryStore) : Prop where
  records : forall other, other ≠ name -> later.records other = store.records other
  credentials : later.credentials = store.credentials

namespace MemoryStore.ChangedFor

variable {name : String} {store mid later : MemoryStore}

theorem refl (name : String) (store : MemoryStore) : ChangedFor name store store :=
  ⟨fun _ _ => rfl, rfl⟩

theorem trans (h : ChangedFor name store mid) (h' : ChangedFor name mid later) :
    ChangedFor name store later :=
  ⟨fun other hother => (h'.records other hother).trans (h.records other hother),
    h'.credentials.trans h.credentials⟩

theorem saveJob (store : MemoryStore) (record : JobRecord) :
    ChangedFor name store (store.saveJob name record) :=
  ⟨fun _ hother => if_neg hother, rfl⟩

theorem purgeStaging (store : MemoryStore) : ChangedFor name store (store.purge .staging name) := by
  constructor
  · intro other hother
    simp [MemoryStore.purge, hother]
  · funext other
    simp [MemoryStore.purge]

end MemoryStore.ChangedFor

theorem DriveJob.found_name (job : DriveJob) (store : MemoryStore) :
    (job.found store).name = job.name := by
  unfold found reloaded
  split_ifs
  · rfl
  · split <;> rfl

theorem DriveJob.begun_name (job : DriveJob) (domain : Option ManagedDomain) :
    (job.begun domain).name = job.name := by
  unfold begun
  split_ifs <;> rfl

theorem DriveJob.turned_name (job : DriveJob) (registry : Registry) (store : MemoryStore)
    (now : Instant) : (job.turned registry store now).1.name = job.name := by
  unfold turned
  split_ifs
  · exact (begun_name _ _).trans (found_name job store)
  · exact found_name job store
  · rfl

namespace Rehearsal

open Act

variable {now : Instant} {ledger : Ledger}

theorem does_reload (job : DriveJob) :
    (host.reload job).Does now ledger (job.found ledger.store) ledger := by
  unfold Host.reload DriveJob.found
  split_ifs with hdirty
  · exact does_noting rfl (does_pure job ledger)
  · refine does_bind (does_loadJob job.name) ?_
    cases ledger.store.loadJob job.name with
    | none => exact does_pure job ledger
    | some record => exact does_pure (job.apply record) ledger

theorem does_currentDomain (domain : ManagedDomain) (t : Instant) :
    (host.currentDomain domain t).Does now ledger
      (domain.current t (.ok (ledger.store.loadCredential domain.name))) ledger := by
  refine does_bind (does_loadCredential domain.name) ?_
  cases ledger.store.loadCredential domain.name with
  | none => exact does_pure domain ledger
  | some credential => exact does_pure (domain.install credential t) ledger

theorem does_inspection (registry : Registry) (name : String) (t : Instant) :
    ((registry.get? name).mapM fun domain => host.currentDomain domain t).Does now ledger
      (registry.inUse ledger.store t name) ledger := by
  unfold Registry.inUse
  cases registry.get? name with
  | none => exact does_pure none ledger
  | some domain =>
      change (some <$> host.currentDomain domain t).Does _ _ _ _
      rw [map_eq_pure_bind]
      exact does_bind (does_currentDomain domain t) (does_pure _ ledger)

theorem does_beginGeneration (job : DriveJob) :
    (host.beginGeneration job).Does now ledger job.nextGeneration
      { ledger with store := ledger.store.purge .staging job.name } :=
  does_noting rfl (does_bind (does_purge .staging job.name) (does_pure _ _))

theorem does_turn (registry : Registry) (job : DriveJob) :
    exists later, (host.turn registry job).Does now ledger (job.turned registry ledger.store now)
        { ledger with store := later } ∧
      MemoryStore.ChangedFor job.name ledger.store later := by
  have hkept := MemoryStore.ChangedFor.refl job.name ledger.store
  have hname := job.found_name ledger.store
  unfold DriveJob.turned
  split_ifs with hdue hstill
  · -- a generation that ends is the only change
    have hcourse : exists later,
        (if (registry.inUse ledger.store now job.name).any fun domain =>
            (job.found ledger.store).isActivated domain.credential then
          host.beginGeneration (job.found ledger.store)
        else pure (job.found ledger.store)).Does now ledger
          ((job.found ledger.store).begun (registry.inUse ledger.store now job.name))
          { ledger with store := later } ∧
        MemoryStore.ChangedFor job.name ledger.store later := by
      unfold DriveJob.begun
      split_ifs with hactivated
      · refine ⟨_, does_beginGeneration _, ?_⟩
        rw [hname]
        exact MemoryStore.ChangedFor.purgeStaging ledger.store
      · exact ⟨ledger.store, does_pure _ ledger, hkept⟩
    rcases hcourse with ⟨later, hbegins, hchanged⟩
    refine ⟨later, does_bind does_now ?_, hchanged⟩
    rw [if_pos hdue]
    refine does_bind (does_reload job) (does_bind does_now ?_)
    rw [if_pos hstill, hname]
    refine does_bind (does_inspection registry job.name now) ?_
    split_ifs at hbegins ⊢
    · exact does_bind hbegins (does_pure _ _)
    · exact does_bind hbegins (does_pure _ _)
  · refine ⟨ledger.store, does_bind does_now ?_, hkept⟩
    rw [if_pos hdue]
    refine does_bind (does_reload job) (does_bind does_now ?_)
    rw [if_neg hstill]
    exact does_pure _ ledger
  · refine ⟨ledger.store, does_bind does_now ?_, hkept⟩
    rw [if_neg hdue]
    exact does_pure _ ledger

theorem does_keep (job : DriveJob) :
    exists kept later,
      (if job.dirty then host.save job else return job : Act Rehearsal DriveJob).Does now ledger
        kept { ledger with store := later } ∧
      MemoryStore.ChangedFor job.name ledger.store later := by
  split_ifs with hdirty
  · refine ⟨{ job with dirty := false }, ledger.store.saveJob job.name job.toRecord, ?_,
      .saveJob ledger.store _⟩
    exact does_bind (does_saveJob job.name job.toRecord) (does_noting rfl (does_pure _ _))
  · exact ⟨job, ledger.store, does_pure job ledger, .refl job.name ledger.store⟩

end Rehearsal

/-!
## The course of a job
-/

/-- An outcome halts the drive: the time of new credentials, which the log takes, has no mail
date, or the pause after a failure leads beyond the last instant. -/
def RenewOutcome.Breaks (now : Instant) (kept : Option LogLevel) (errorRuns : ErrorCount)
    (outcome : RenewOutcome) : Prop :=
  if outcome.isComplete then
    LogLevel.takes kept .info = true ∧ ¬ (outcome.validFrom.getD now).Writable
  else now.add? (Backoff.delay (errorRuns + 1 : ErrorCount)) = none

/-- A course halts the drive: the outcome of a renewal does, or the time of an expiry, which the
log takes, has no mail date. -/
def Course.Breaks (now : Instant) (kept : Option LogLevel) (scripts : List Script)
    (errorRuns : ErrorCount) : Course -> Prop
  | .renew domain => (Script.next domain.name scripts).1.outcome.Breaks now kept errorRuns
  | .rest domain =>
      LogLevel.takes kept .debug = true ∧ exists t, domain.expires = some t ∧ ¬ t.Writable
  | _ => False

def Ledger.pursued (ledger : Ledger) (reset : Bool) : Course -> Ledger
  | .renew domain => ledger.attempted domain reset
  | _ => ledger

theorem Ledger.pursued_store (ledger : Ledger) (reset : Bool) (course : Course) :
    (ledger.pursued reset course).store = ledger.store := by
  cases course <;> rfl

namespace Rehearsal

open Act

variable {now : Instant} {ledger : Ledger} {job : DriveJob} {course : Course}

theorem does_count (errorRuns : ErrorCount) :
    (host.count errorRuns).Does now ledger () ledger := by
  rw [count_eq]
  exact does_pure () ledger

theorem does_afterAttempt {outcome : RenewOutcome}
    (h : ¬ outcome.Breaks now ledger.kept job.errorRuns) :
    exists findings, (host.afterAttempt job outcome now).Does now ledger findings ledger ∧
      findings.job.name = job.name := by
  unfold RenewOutcome.Breaks at h
  unfold Host.afterAttempt
  split_ifs at h ⊢ with hcomplete
  · refine ⟨_, does_bind does_now (does_bind (does_note fun htakes date hdate => ?_)
      (does_pure _ ledger)), rfl⟩
    cases hdate
    by_contra hwritable
    exact h ⟨htakes, hwritable⟩
  · rcases Option.ne_none_iff_exists'.mp h with ⟨next, hnext⟩
    have hinstant : (Act.instant (now.add?
        (Backoff.delay (job.errorRuns + 1 : ErrorCount)))).Does now ledger next ledger := by
      rw [hnext]
      exact does_pure next ledger
    exact ⟨_, does_noting rfl (does_bind (does_count _) (does_bind hinstant
      (does_noting rfl (does_pure _ ledger)))), rfl⟩

theorem halts_afterAttempt {outcome : RenewOutcome}
    (h : outcome.Breaks now ledger.kept job.errorRuns) :
    (host.afterAttempt job outcome now).Halts now ledger := by
  unfold RenewOutcome.Breaks at h
  unfold Host.afterAttempt
  split_ifs at h ⊢ with hcomplete
  · rcases h with ⟨htakes, hwritable⟩
    exact does_now.halts_bind
      (halts_bind (halts_note fun htold => hwritable (htold htakes _ rfl)))
  · have hinstant : (Act.instant (now.add?
        (Backoff.delay (job.errorRuns + 1 : ErrorCount)))).Halts now ledger := by
      rw [h]
      exact fun world _ _ => ⟨.timeOutOfRange, rfl⟩
    exact halts_noting rfl ((does_count _).halts_bind (halts_bind hinstant))

theorem does_pursue (h : ¬ course.Breaks now ledger.kept ledger.scripts job.errorRuns) :
    exists findings, (host.pursue job now course).Does now ledger findings
        (ledger.pursued job.resetStaging course) ∧
      findings.job.name = job.name := by
  cases course with
  | unmanaged => exact ⟨job.keeping none, does_noting rfl (does_pure _ ledger), rfl⟩
  | blocked =>
      exact ⟨job.blocked, does_bind (does_count _) (does_noting rfl (does_pure _ ledger)), rfl⟩
  | finished => exact ⟨job.keeping (job.activation now), does_pure _ ledger, rfl⟩
  | rest domain =>
      refine ⟨job.keeping none, ?_, rfl⟩
      unfold Host.pursue
      dsimp only
      cases hexpires : domain.expires with
      | none => exact does_pure _ ledger
      | some t =>
          refine does_bind (does_note fun htakes date hdate => ?_) (does_pure _ ledger)
          cases hdate
          by_contra hwritable
          exact h ⟨htakes, t, hexpires, hwritable⟩
  | renew domain =>
      have hafter : exists findings, (host.afterAttempt job.attempted
          (Script.next domain.name ledger.scripts).1.outcome now).Does now
            (ledger.attempted domain job.resetStaging) findings
            (ledger.attempted domain job.resetStaging) ∧
          findings.job.name = job.name := does_afterAttempt h
      rcases hafter with ⟨findings, hafter, hname⟩
      exact ⟨findings, does_noting rfl (does_bind (does_attempt domain job.resetStaging) hafter),
        hname⟩

theorem halts_pursue (h : course.Breaks now ledger.kept ledger.scripts job.errorRuns) :
    (host.pursue job now course).Halts now ledger := by
  cases course with
  | rest domain =>
      rcases h with ⟨htakes, t, hexpires, hwritable⟩
      unfold Host.pursue
      dsimp only
      rw [hexpires]
      exact halts_bind (halts_note fun htold => hwritable (htold htakes t rfl))
  | renew domain =>
      have hafter : (host.afterAttempt job.attempted
          (Script.next domain.name ledger.scripts).1.outcome now).Halts now
            (ledger.attempted domain job.resetStaging) := halts_afterAttempt h
      exact halts_noting rfl ((does_attempt domain job.resetStaging).halts_bind hafter)
  | _ => cases h

end Rehearsal
end RenewalDrive
