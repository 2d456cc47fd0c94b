import RenewalDrive.Proofs.Drive.Steady

/-!
# Conditions that last

A condition on worlds lasts when it leaves the clock and the log room, and holds on after
whatever is asked. Where one lasts for all names, no start and no announcement ever halts,
and a call of the watchdog halts only in its round of evaluations.
-/

namespace RenewalDrive

namespace Rehearsal

open Act

/-!
## Requests under a condition
-/

/-- Two runs of a request to the store are in step when it is refused in both or in none, and
both stores serve it alike. -/
theorem inStep_ask {α : Type} {related : Rehearsal -> Rehearsal -> Prop} {request : Request}
    {deed : Except StoreError α -> Deed} {serve : MemoryStore -> α × MemoryStore}
    {ends : Except StoreError α -> Prop}
    (hrefuses : forall world world', related world world' ->
      world.refuses world.moment request = world'.refuses world'.moment request)
    (hrefused : forall world world' error, related world world' ->
      related (world.after (deed (.error error))) (world'.after (deed (.error error))))
    (hserved : forall world world', related world world' ->
      (serve world.store).1 = (serve world'.store).1 ∧
      related ({ world with store := (serve world.store).2 }.after
          (deed (.ok (serve world.store).1)))
        ({ world' with store := (serve world'.store).2 }.after
          (deed (.ok (serve world'.store).1))) ∧
      ends (.ok (serve world.store).1))
    (hends : forall error, ends (.error error)) :
    (ask request deed serve).InStep related ends := by
  intro world world' hworlds
  have hsame := hrefuses world world' hworlds
  simp only [ask, StateT.run]
  cases hrefusing : world.refuses world.moment request with
  | true =>
      rw [hrefusing] at hsame
      rw [if_pos rfl, if_pos hsame.symm]
      exact ⟨_, _, _, rfl, rfl, hrefused world world' _ hworlds, hends _⟩
  | false =>
      rw [hrefusing] at hsame
      rw [if_neg Bool.false_ne_true, if_neg (by simp [← hsame])]
      rcases hserved world world' hworlds with ⟨hanswer, hlater, ha⟩
      rw [← hanswer] at hlater ⊢
      exact ⟨_, _, _, rfl, rfl, hlater, ha⟩

/-- A condition on worlds whose clock and log leave room, and that lasts whatever is asked
apart from attempts. -/
structure Lasts (takes : LogLevel -> Bool) (holds : Rehearsal -> Prop) : Prop where
  reading : forall world, holds world -> world.reading.InYears
  told : forall world (event : Event), holds world -> event.Told takes ->
    event.Told (LogLevel.takes world.kept)
  after : forall world (deed : Deed), deed.attempt? = none -> holds world ->
    holds (world.after deed)

structure LastsFor (takes : LogLevel -> Bool) (expires becomes : Instant -> Prop)
    (holds : Rehearsal -> Prop) (name : String) : Prop extends Lasts takes holds where
  saveJob : forall world record, holds world ->
    holds { world with store := world.store.saveJob name record }
  purge : forall world group, holds world ->
    holds { world with store := world.store.purge group name }
  expires : forall world credential, holds world ->
    world.store.credentials name = some credential -> expires credential.expires
  attempt : forall world domain reset, domain.name = name -> holds world ->
    exists outcome later, (host.attempt domain reset).run world = .ok (outcome, later) ∧
      holds later ∧ forall t, outcome.validFrom = some t -> becomes t

section

variable {takes : LogLevel -> Bool} {expires becomes : Instant -> Prop}
  {holds : Rehearsal -> Prop} {name : String}

namespace Lasts

theorem now (h : Lasts takes holds) : host.now.InStep (Still holds) Instant.InYears := by
  rw [inStep_still_iff]
  intro world hworld
  exact ⟨world.reading, world.after (.clockRead world.reading), rfl,
    h.after world _ rfl hworld, h.reading world hworld⟩

theorem note (h : Lasts takes holds) {event : Event} (hevent : event.Told takes) :
    (host.note event).InStep (Still holds) fun _ => True := by
  rw [inStep_still_iff]
  intro world hworld
  rcases run_note_of_told (h.told world event hworld hevent) with ⟨entries, hrun⟩
  refine ⟨(), _, hrun, ?_, trivial⟩
  exact holds_after_notes (fun world entry => h.after world _ rfl) entries hworld

theorem execute (h : Lasts takes holds) (words : List String) :
    (host.execute words).InStep (Still holds) fun _ => True := by
  rw [inStep_still_iff]
  intro world hworld
  exact ⟨world.runner world.moment words, _, rfl, h.after world _ rfl hworld, trivial⟩

theorem ask {α : Type} {request : Request} {deed : Except StoreError α -> Deed}
    {serve : MemoryStore -> α × MemoryStore} {ends : Except StoreError α -> Prop}
    (h : Lasts takes holds) (hdeed : forall answer, (deed answer).attempt? = none)
    (hserved : forall world, holds world ->
      holds { world with store := (serve world.store).2 } ∧ ends (.ok (serve world.store).1))
    (hends : forall error, ends (.error error)) :
    (Rehearsal.ask request deed serve).InStep (Still holds) ends := by
  apply inStep_ask
  · rintro world _ ⟨rfl, _⟩
    rfl
  · rintro world _ error ⟨rfl, hworld⟩
    exact ⟨rfl, h.after world _ (hdeed _) hworld⟩
  · rintro world _ ⟨rfl, hworld⟩
    rcases hserved world hworld with ⟨hlater, hends⟩
    exact ⟨rfl, ⟨rfl, h.after _ _ (hdeed _) hlater⟩, hends⟩
  · exact hends

theorem listNames (h : Lasts takes holds) (group : Group) :
    (host.listNames group).InStep (Still holds) fun _ => True := by
  show (Rehearsal.listNames group).InStep (Still holds) _
  apply h.ask
  · exact fun _ => rfl
  · exact fun _ hworld => ⟨hworld, trivial⟩
  · exact fun _ => trivial

end Lasts

namespace LastsFor

theorem steady (h : LastsFor takes expires becomes holds name) :
    Steady takes expires becomes (Still holds) name := by
  constructor
  case now =>
    exact h.now
  case loadJob =>
    show (Rehearsal.loadJob name).InStep (Still holds) _
    apply h.ask
    · exact fun _ => rfl
    · exact fun _ hworld => ⟨hworld, trivial⟩
    · exact fun _ => trivial
  case saveJob =>
    intro record
    show (Rehearsal.saveJob name record).InStep (Still holds) _
    apply h.ask
    · exact fun _ => rfl
    · exact fun world hworld => ⟨h.saveJob world record hworld, trivial⟩
    · exact fun _ => trivial
  case loadCredential =>
    show (Rehearsal.loadCredential name).InStep (Still holds) _
    apply h.ask
    · intro _
      rfl
    · intro world hworld
      constructor
      · exact hworld
      · intro credential hcredential
        exact h.expires world credential hworld (Except.ok.inj hcredential)
    · intro error credential hcredential
      cases hcredential
  case purge =>
    intro group
    show (Rehearsal.purge group name).InStep (Still holds) _
    apply h.ask
    · exact fun _ => rfl
    · exact fun world hworld => ⟨h.purge world group hworld, trivial⟩
    · exact fun _ => trivial
  case attempt =>
    intro domain reset hname
    rw [inStep_still_iff]
    intro world hworld
    exact h.attempt world domain reset hname hworld
  case note =>
    intro event hevent
    exact h.note hevent

end LastsFor

theorem purgeStaleChallenges_inStep {registry : Registry} (h : Lasts takes holds)
    (hfor : forall name, registry.contains name = false ->
      LastsFor takes expires becomes holds name) :
    (host.purgeStaleChallenges registry).InStep (Still holds) fun _ => True := by
  unfold Host.purgeStaleChallenges
  apply inStep_bind (h.listNames .challenges)
  intro answer _
  cases answer with
  | error error =>
      exact h.note (Event.told_of_undated rfl)
  | ok names =>
      apply inStep_forM
      intro name hname
      exact (hfor name (by simpa using (List.mem_filter.mp hname).2)).steady.purgeStale

/-!
## Calls that go on
-/

theorem start_inStep {registry : Registry} {settings : DriveSettings} (h : Lasts takes holds)
    (hfor : forall name, LastsFor takes expires becomes holds name) :
    (host.start registry settings).InStep (Still holds) fun _ => True := by
  unfold Host.start
  apply inStep_bind (inStep_mapM fun name _ => (hfor name).steady.startJob)
  intro jobs _
  apply inStep_bind (purgeStaleChallenges_inStep h fun name _ => hfor name)
  intro _ _
  split
  next =>
    apply inStep_bind (h.note (Event.told_of_undated rfl))
    intro _ _
    exact inStep_pure trivial
  next =>
    exact inStep_pure trivial

theorem runJobs_inStep (context : DriveContext) (htells : Tells takes expires becomes)
    (h : Lasts takes holds) (hfor : forall name, LastsFor takes expires becomes holds name)
    (hregistry : forall name domain t, context.registry.get? name = some domain ->
      domain.expires = some t -> expires t) :
    (host.runJobs context).InStep (Still holds) fun _ => True := by
  unfold Host.runJobs
  apply inStep_bind h.now
  intro started _
  apply inStep_bind (inStep_mapM fun job _ =>
    (hfor job.name).steady.runJob htells (hregistry job.name))
  intro jobs _
  apply inStep_bind h.now
  intro now _
  apply inStep_bind (h.note (Event.told_of_undated rfl))
  intro _ _
  exact inStep_pure trivial

theorem deliver_inStep (h : Lasts takes holds) (command : Option String) (names : List String) :
    (host.deliver command names).InStep (Still holds) fun _ => True := by
  unfold Host.deliver
  split
  next =>
    exact inStep_pure trivial
  next text _ =>
    apply inStep_bind (h.execute (Text.words text ++ names))
    intro answer _
    cases answer with
    | error error =>
        apply inStep_bind (h.note (Event.told_of_undated rfl))
        exact fun _ _ => inStep_pure trivial
    | ok code =>
        apply inStep_bind (h.note (Event.told_of_undated rfl))
        exact fun _ _ => inStep_pure trivial

theorem Steady.markNotified {related : Rehearsal -> Rehearsal -> Prop} {job : DriveJob}
    (h : Steady takes expires becomes related job.name) (now : Instant) :
    (host.markNotified now job).InStep related fun _ => True := by
  unfold Host.markNotified
  split
  next =>
    apply inStep_bind (h.saveJob job.announced.toRecord)
    intro answer _
    cases answer with
    | error error =>
        exact h.noting rfl fun _ => inStep_pure trivial
    | ok done =>
        exact inStep_pure trivial
  next =>
    exact inStep_pure trivial

theorem notifyReady_inStep (h : Lasts takes holds)
    (hfor : forall name, LastsFor takes expires becomes holds name) (command : Option String)
    (now : Instant) (jobs : List DriveJob) :
    (host.notifyReady command now jobs).InStep (Still holds) fun _ => True := by
  unfold Host.notifyReady
  split
  next =>
    exact inStep_pure trivial
  next =>
    apply inStep_bind (deliver_inStep h _ _)
    intro delivered _
    have hlast : forall marked : List DriveJob, (do
        host.note (.announced (DriveJob.readyNames jobs now))
        return (⟨DriveJob.readyNames jobs now, delivered⟩, marked) :
          Act Rehearsal (NoticeReport × List DriveJob)).InStep (Still holds) fun _ => True := by
      intro marked
      apply inStep_bind (h.note (Event.told_of_undated rfl))
      exact fun _ _ => inStep_pure trivial
    split
    next =>
      apply inStep_bind (inStep_mapM fun job _ => (hfor job.name).steady.markNotified now)
      exact fun marked _ => hlast marked
    next =>
      rw [pure_bind]
      exact hlast jobs

theorem notifyContext_inStep (context : DriveContext) (h : Lasts takes holds)
    (hfor : forall name, LastsFor takes expires becomes holds name) :
    (host.notifyContext context).InStep (Still holds) fun _ => True := by
  unfold Host.notifyContext
  apply inStep_bind h.now
  intro now _
  apply inStep_bind (notifyReady_inStep h hfor _ now context.jobs)
  exact fun _ _ => inStep_pure trivial

theorem tick_inStep (context : DriveContext) (state : WatchState) (h : Lasts takes holds)
    (hfor : forall name, LastsFor takes expires becomes holds name)
    (hround : state = .running ->
      (host.runJobs context).InStep (Still holds) fun _ => True) :
    (host.tick context state).InStep (Still holds) fun _ => True := by
  unfold Host.tick
  cases state with
  | running =>
      apply inStep_bind (h.note (Event.told_of_undated rfl))
      intro _ _
      apply inStep_bind (hround rfl)
      intro result _
      simp only [pure_bind]
      apply inStep_bind (notifyContext_inStep _ h hfor)
      exact fun _ _ => inStep_pure trivial
  | _ =>
      apply inStep_bind (h.note (Event.told_of_undated rfl))
      intro _ _
      simp only [pure_bind]
      apply inStep_bind (notifyContext_inStep _ h hfor)
      exact fun _ _ => inStep_pure trivial

end
end Rehearsal
end RenewalDrive
