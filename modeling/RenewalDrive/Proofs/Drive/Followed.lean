import RenewalDrive.Proofs.Deeds.Scripts
import RenewalDrive.Proofs.Deeds.Steps
import RenewalDrive.Proofs.Drive.Evaluation
import RenewalDrive.Proofs.Time.Moves

/-!
# What is followed over an evaluation

Something that is seen of a world can be followed over the deeds of an evaluation if it can be
followed over every request. Two things are: the time of a clock that stands still but for the
attempts, and a store that refuses nothing.
-/

namespace RenewalDrive

/-- Something is followed over some deeds, from how it is before them to how it is after them. -/
inductive Followed {ν : Type} (moves : ν -> Deed -> ν -> Prop) : ν -> List Deed -> ν -> Prop where
  | nil (v : ν) : Followed moves v [] v
  | cons {v mid later : ν} {deed : Deed} {deeds : List Deed} :
      moves v deed mid ->
      Followed moves mid deeds later ->
      Followed moves v (deed :: deeds) later

namespace Followed

variable {ν : Type} {moves : ν -> Deed -> ν -> Prop} {v mid later : ν} {deed : Deed}
  {deeds first second : List Deed}

theorem append (hfirst : Followed moves v first mid) (hsecond : Followed moves mid second later) :
    Followed moves v (first ++ second) later := by
  induction hfirst with
  | nil v => exact hsecond
  | cons hmoves _ ih => exact Followed.cons hmoves (ih hsecond)

theorem singleton (h : moves v deed later) : Followed moves v [deed] later :=
  Followed.cons h (Followed.nil later)

theorem split (h : Followed moves v (first ++ second) later) :
    exists mid, Followed moves v first mid ∧ Followed moves mid second later := by
  induction first generalizing v with
  | nil => exact ⟨v, Followed.nil v, h⟩
  | cons deed rest ih =>
      cases h with
      | cons hmoves hrest =>
          rcases ih hrest with ⟨mid, hfirst, hsecond⟩
          exact ⟨mid, Followed.cons hmoves hfirst, hsecond⟩

theorem of_cons (h : Followed moves v (deed :: deeds) later) :
    exists mid, moves v deed mid ∧ Followed moves mid deeds later := by
  cases h with
  | cons hmoves hrest => exact ⟨_, hmoves, hrest⟩

theorem all {holds : Deed -> Prop} (h : Followed moves v deeds later)
    (hmoves : forall v deed later, moves v deed later -> holds deed) :
    forall deed, deed ∈ deeds -> holds deed := by
  induction h with
  | nil _ => exact List.forall_mem_nil _
  | cons hdeed _ ih => exact List.forall_mem_cons.mpr ⟨hmoves _ _ _ hdeed, ih⟩

theorem eq_of_nil (h : Followed moves v [] later) : later = v := by
  cases h
  rfl

end Followed

/-!
## Acts that are followed
-/

/-- Every run of the act that does not halt is followed over its deeds, as far as it is seen. -/
def Act.Follows {ν α : Type} (view : ν -> Rehearsal -> Prop) (moves : ν -> Deed -> ν -> Prop)
    (act : Act Rehearsal α) : Prop :=
  forall v world a later, view v world -> act.run world = .ok (a, later) ->
    exists deeds v', later.requests = world.requests ++ deeds ∧ Followed moves v deeds v' ∧
      view v' later

/-- All that an evaluation may ask for is followed. -/
structure Observes {ν : Type} (view : ν -> Rehearsal -> Prop) (moves : ν -> Deed -> ν -> Prop) :
    Prop where
  now : Rehearsal.host.now.Follows view moves
  loadJob : forall name, (Rehearsal.host.loadJob name).Follows view moves
  saveJob : forall name record, (Rehearsal.host.saveJob name record).Follows view moves
  loadCredential : forall name, (Rehearsal.host.loadCredential name).Follows view moves
  purge : forall group name, (Rehearsal.host.purge group name).Follows view moves
  attempt : forall domain reset, (Rehearsal.host.attempt domain reset).Follows view moves
  note : forall event, (Rehearsal.host.note event).Follows view moves

section

open Act

variable {ν α β : Type} {view : ν -> Rehearsal -> Prop} {moves : ν -> Deed -> ν -> Prop}

theorem follows_pure (a : α) : (pure a : Act Rehearsal α).Follows view moves := by
  intro v world b later hworld hrun
  rcases run_pure_eq_ok.mp hrun with ⟨rfl, rfl⟩
  exact ⟨[], v, (List.append_nil _).symm, Followed.nil v, hworld⟩

theorem follows_bind {act : Act Rehearsal α} {next : α -> Act Rehearsal β}
    (hact : act.Follows view moves) (hnext : forall a, (next a).Follows view moves) :
    (act >>= next).Follows view moves := by
  intro v world b later hworld hrun
  rcases run_bind_eq_ok.mp hrun with ⟨a, mid, hrunAct, hrunNext⟩
  rcases hact v world a mid hworld hrunAct with ⟨first, v', hfirst, hfollowed, hmid⟩
  rcases hnext a v' mid b later hmid hrunNext with ⟨second, v'', hsecond, hfollowed', hlater⟩
  refine ⟨first ++ second, v'', ?_, hfollowed.append hfollowed', hlater⟩
  rw [hsecond, hfirst, List.append_assoc]

theorem follows_instant (t : Option Instant) :
    (Act.instant t : Act Rehearsal Instant).Follows view moves := by
  cases t with
  | none => exact fun _ _ _ _ _ hrun => absurd hrun run_halt_ne_ok
  | some t => exact follows_pure t

theorem follows_count (errorRuns : ErrorCount) :
    (Rehearsal.host.count errorRuns).Follows view moves := by
  rw [Rehearsal.count_eq]
  exact follows_pure ()

namespace Observes

open Rehearsal

variable (h : Observes view moves)

include h

theorem reload (job : DriveJob) : (host.reload job).Follows view moves := by
  unfold Host.reload
  split
  next => exact follows_bind (h.note _) fun _ => follows_pure job
  next =>
    refine follows_bind (h.loadJob job.name) fun answer => ?_
    cases answer with
    | error error => exact follows_bind (h.note _) fun _ => follows_pure job
    | ok loaded => cases loaded <;> exact follows_pure _

theorem save (job : DriveJob) : (host.save job).Follows view moves := by
  refine follows_bind (h.saveJob job.name job.toRecord) fun answer => ?_
  cases answer with
  | error error => exact follows_bind (h.note _) fun _ => follows_pure _
  | ok done => exact follows_bind (h.note _) fun _ => follows_pure _

theorem currentDomain (domain : ManagedDomain) (now : Instant) :
    (host.currentDomain domain now).Follows view moves := by
  refine follows_bind (h.loadCredential domain.name) fun answer => ?_
  cases answer with
  | error error => exact follows_bind (h.note _) fun _ => follows_pure domain
  | ok installed => cases installed <;> exact follows_pure _

theorem inspection (domain : Option ManagedDomain) (now : Instant) :
    (domain.mapM fun domain => host.currentDomain domain now).Follows view moves := by
  cases domain with
  | none => exact follows_pure none
  | some domain =>
      change (some <$> host.currentDomain domain now).Follows view moves
      rw [map_eq_pure_bind]
      exact follows_bind (h.currentDomain domain now) fun _ => follows_pure _

theorem beginGeneration (job : DriveJob) : (host.beginGeneration job).Follows view moves := by
  refine follows_bind (h.note _) fun _ => ?_
  refine follows_bind (h.purge .staging job.name) fun answer => ?_
  cases answer with
  | error error => exact follows_bind (h.note _) fun _ => follows_pure _
  | ok done => exact follows_pure _

theorem renew (job : DriveJob) (domain : ManagedDomain) (now : Instant) :
    (host.renew job domain now).Follows view moves := by
  refine follows_bind (h.note _) fun _ => ?_
  refine follows_bind (h.attempt domain job.resetStaging) fun outcome => ?_
  unfold Host.afterAttempt
  split
  next => exact follows_bind h.now fun _ => follows_bind (h.note _) fun _ => follows_pure _
  next =>
    refine follows_bind (h.note _) fun _ => follows_bind (follows_count _) fun _ => ?_
    refine follows_bind (follows_instant _) fun _ => ?_
    exact follows_bind (h.note _) fun _ => follows_pure _

theorem pursue (job : DriveJob) (now : Instant) (course : Course) :
    (host.pursue job now course).Follows view moves := by
  cases course with
  | unmanaged => exact follows_bind (h.note _) fun _ => follows_pure _
  | blocked =>
      refine follows_bind (follows_count _) fun _ => ?_
      exact follows_bind (h.note _) fun _ => follows_pure _
  | finished => exact follows_pure _
  | renew domain => exact h.renew job domain now
  | rest domain =>
      unfold Host.pursue
      dsimp only
      split
      · exact follows_pure _
      · exact follows_bind (h.note _) fun _ => follows_pure _

theorem evaluateDue (registry : Registry) (job : DriveJob) (now : Instant) :
    (host.evaluateDue registry job now).Follows view moves := by
  refine follows_bind (h.inspection (registry.get? job.name) now) fun domain => ?_
  -- The rest of the evaluation is the same whether a generation ends or not.
  have hrest : forall begun : DriveJob, (do
        let findings ← host.pursue begun now (begun.course domain now)
        if (DriveJob.recorded findings).dirty then host.save (.recorded findings)
        else return .recorded findings : Act Rehearsal DriveJob).Follows view moves := by
    intro begun
    refine follows_bind (h.pursue begun now _) fun findings => ?_
    split
    · exact h.save _
    · exact follows_pure _
  split
  · exact follows_bind (h.beginGeneration job) hrest
  · exact hrest job

theorem evaluate (registry : Registry) (job : DriveJob) :
    (host.evaluate registry job).Follows view moves := by
  refine follows_bind (h.reload job) fun loaded => follows_bind h.now fun now => ?_
  split
  · exact follows_bind (h.evaluateDue registry loaded now) fun _ => follows_pure _
  · exact follows_pure _

end Observes

theorem Act.Follows.followed {act : Act Rehearsal α} {v : ν} {world later : Rehearsal} {a : α}
    {deeds : List Deed} (h : act.Follows view moves) (hworld : view v world)
    (hrun : act.run world = .ok (a, later)) (hdeeds : later.requests = world.requests ++ deeds) :
    exists v', Followed moves v deeds v' ∧ view v' later := by
  rcases h v world a later hworld hrun with ⟨done, v', hdone, hfollowed, hlater⟩
  rw [hdeeds] at hdone
  cases List.append_cancel_left hdone
  exact ⟨v', hfollowed, hlater⟩

end

/-!
## Requests
-/

namespace Rehearsal

open Act

theorem follows_note {ν : Type} {view : ν -> Rehearsal -> Prop} {moves : ν -> Deed -> ν -> Prop}
    (hnoted : forall v world entry, view v world -> view v (world.after (.noted entry)))
    (event : Event) : (host.note event).Follows view moves := by
  intro v world answer later hworld hrun
  rcases yields_note event world answer later hrun with ⟨deeds, hpassage, rfl⟩
  refine ⟨[], v, hpassage.requests, Followed.nil v, ?_⟩
  by_cases htold : event.Told (LogLevel.takes world.kept)
  · rcases run_note_of_told htold with ⟨entries, hrunNote⟩
    cases hrun.symm.trans hrunNote
    exact holds_after_notes (fun world entry => hnoted v world entry) entries hworld
  · cases hrun.symm.trans (run_note_of_not_told htold)

theorem run_ask_eq_ok {α : Type} {request : Request} {deed : Except StoreError α -> Deed}
    {serve : MemoryStore -> α × MemoryStore} {world later : Rehearsal}
    {answer : Except StoreError α}
    (h : (ask request deed serve).run world = .ok (answer, later)) :
    (world.refuses world.moment request = true ∨ exists a, answer = .ok a) ∧
      exists store, later = { world with store := store }.after (deed answer) := by
  simp only [ask, StateT.run] at h
  split at h
  next hrefuses =>
    cases h
    exact ⟨.inl hrefuses, world.store, rfl⟩
  next =>
    cases h
    exact ⟨.inr ⟨_, rfl⟩, _, rfl⟩

theorem follows_attempt {ν : Type} {view : ν -> Rehearsal -> Prop}
    {moves : ν -> Deed -> ν -> Prop}
    (hattempt : forall v world scripts mid domain reset outcome took, view v world ->
      { world with scripts := scripts }.advance took = .ok mid ->
      exists v', moves v (.attempted domain reset outcome took) v' ∧
        view v' (mid.after (.attempted domain reset outcome took)))
    (domain : ManagedDomain) (reset : Bool) :
    (host.attempt domain reset).Follows view moves := by
  intro v world outcome later hworld hrun
  change attempt domain reset world = .ok (outcome, later) at hrun
  unfold attempt at hrun
  generalize Script.next domain.name world.scripts = taken at hrun
  rcases taken with ⟨script, rest⟩
  cases hadvance : ({ world with scripts := rest } : Rehearsal).advance script.took with
  | error halt =>
      simp [hadvance, bind, Except.bind] at hrun
  | ok mid =>
      simp only [hadvance, bind, Except.bind, pure, Except.pure, Except.ok.injEq,
        Prod.mk.injEq] at hrun
      rcases hrun with ⟨rfl, rfl⟩
      rcases hattempt v world rest mid domain reset script.outcome script.took hworld hadvance with
        ⟨v', hmoves, hlater⟩
      refine ⟨[.attempted domain reset script.outcome script.took], v', ?_,
        Followed.singleton hmoves, hlater⟩
      rw [requests_after rfl, (requests_advance hadvance).1]
      rfl

end Rehearsal

/-!
## The time
-/

/-- The time after a deed. A reading of the clock tells the time, and only attempts take time. -/
def Deed.Moves (t : Instant) (deed : Deed) (later : Instant) : Prop :=
  match deed with
  | .clockRead answer => answer = t ∧ later = t
  | .attempted _ _ _ took => t.add? took = some later
  | _ => later = t

/-- The time moves from one instant to another over some deeds. -/
abbrev Elapses : Instant -> List Deed -> Instant -> Prop :=
  Followed Deed.Moves

namespace Rehearsal

open Act

def Stands (t : Instant) (world : Rehearsal) : Prop :=
  forall moment, world.clock moment = t

theorem Stands.reading_eq {t : Instant} {world : Rehearsal} (h : world.Stands t) :
    world.reading = t :=
  h world.moment

theorem follows_ask_clock {α : Type} {request : Request} {deed : Except StoreError α -> Deed}
    {serve : MemoryStore -> α × MemoryStore} (hnote : forall answer, (deed answer).isNote = false)
    (hmoves : forall answer t, (deed answer).Moves t t) :
    (ask request deed serve).Follows Stands Deed.Moves := by
  intro t world answer later hworld hrun
  rcases run_ask_eq_ok hrun with ⟨_, store, rfl⟩
  exact ⟨_, t, requests_after (hnote _), Followed.singleton (hmoves _ t), hworld⟩

theorem stands_of_advance {world later : Rehearsal} {t : Instant} {span : Span}
    (hworld : world.Stands t) (h : world.advance span = .ok later) :
    exists t', t.add? span = some t' ∧ later.Stands t' := by
  unfold advance at h
  split at h
  next hzero =>
    cases h
    rw [hzero]
    exact ⟨t, t.add?_zero, hworld⟩
  next =>
    split at h
    next t' hmoved =>
      cases h
      rw [hworld.reading_eq] at hmoved
      exact ⟨t', hmoved, fun _ => rfl⟩
    next => cases h

theorem observes_clock : Observes Stands Deed.Moves where
  now := by
    intro t world answer later hworld hrun
    cases hrun
    exact ⟨_, t, requests_after rfl, Followed.singleton ⟨hworld.reading_eq, rfl⟩, hworld⟩
  loadJob name := by
    show (loadJob name).Follows Stands Deed.Moves
    exact follows_ask_clock (fun _ => rfl) fun _ _ => rfl
  saveJob name record := by
    show (saveJob name record).Follows Stands Deed.Moves
    exact follows_ask_clock (fun _ => rfl) fun _ _ => rfl
  loadCredential name := by
    show (loadCredential name).Follows Stands Deed.Moves
    exact follows_ask_clock (fun _ => rfl) fun _ _ => rfl
  purge group name := by
    show (purge group name).Follows Stands Deed.Moves
    exact follows_ask_clock (fun _ => rfl) fun _ _ => rfl
  attempt := by
    refine follows_attempt ?_
    intro t world scripts mid domain reset outcome took hworld hadvance
    have hstands : ({ world with scripts := scripts } : Rehearsal).Stands t := hworld
    rcases stands_of_advance hstands hadvance with ⟨t', hmoves, hmid⟩
    exact ⟨t', hmoves, hmid⟩
  note := follows_note fun _ _ _ hworld => hworld

/-!
## A store that refuses nothing
-/

def Serving (world : Rehearsal) : Prop :=
  forall moment request, world.refuses moment request = false

theorem follows_ask_service {α : Type} {request : Request} {deed : Except StoreError α -> Deed}
    {serve : MemoryStore -> α × MemoryStore} (hnote : forall answer, (deed answer).isNote = false)
    (hserved : forall a, (deed (.ok a)).refused = false) :
    (ask request deed serve).Follows (fun (_ : Unit) => Serving)
      fun _ deed _ => deed.refused = false := by
  intro _ world answer later hworld hrun
  rcases run_ask_eq_ok hrun with ⟨hrefused | ⟨a, rfl⟩, store, rfl⟩
  · rw [hworld] at hrefused
    cases hrefused
  · exact ⟨_, (), requests_after (hnote _), Followed.singleton (hserved a), hworld⟩

theorem observes_service :
    Observes (fun (_ : Unit) => Serving) fun _ deed _ => deed.refused = false where
  now := by
    intro _ world answer later hworld hrun
    cases hrun
    exact ⟨_, (), requests_after rfl, Followed.singleton rfl, hworld⟩
  loadJob name := by
    show (loadJob name).Follows _ _
    exact follows_ask_service (fun _ => rfl) fun _ => rfl
  saveJob name record := by
    show (saveJob name record).Follows _ _
    exact follows_ask_service (fun _ => rfl) fun _ => rfl
  loadCredential name := by
    show (loadCredential name).Follows _ _
    exact follows_ask_service (fun _ => rfl) fun _ => rfl
  purge group name := by
    show (purge group name).Follows _ _
    exact follows_ask_service (fun _ => rfl) fun _ => rfl
  attempt := by
    refine follows_attempt ?_
    intro _ world scripts mid domain reset outcome took hworld hadvance
    rcases advance_eq_ok hadvance with ⟨clock, rfl⟩
    exact ⟨(), rfl, hworld⟩
  note := follows_note fun _ _ _ hworld => hworld

theorem served_evaluate {registry : Registry} {job : DriveJob} {world later : Rehearsal}
    {result : Evaluation × DriveJob} {deeds : List Deed} (hworld : world.Serving)
    (hrun : (host.evaluate registry job).run world = .ok (result, later))
    (hdeeds : later.requests = world.requests ++ deeds) :
    forall deed, deed ∈ deeds -> deed.refused = false := by
  rcases (observes_service.evaluate registry job).followed (v := ()) hworld hrun hdeeds with
    ⟨_, hfollowed, _⟩
  exact hfollowed.all fun _ _ _ hserved => hserved

/-- Where the clock stands still, the time moves over the attempts of an evaluation alone. -/
theorem elapses_evaluate {registry : Registry} {job : DriveJob} {world later : Rehearsal}
    {result : Evaluation × DriveJob} {deeds : List Deed} {t : Instant} (hworld : world.Stands t)
    (hrun : (host.evaluate registry job).run world = .ok (result, later))
    (hdeeds : later.requests = world.requests ++ deeds) :
    exists t', Elapses t deeds t' ∧ later.Stands t' :=
  (observes_clock.evaluate registry job).followed hworld hrun hdeeds

end Rehearsal

/-!
## Phases without an attempt take no time
-/

section

variable {job : DriveJob} {deeds : List Deed} {t later : Instant}

theorem Reloads.elapses {loaded : DriveJob} (h : Reloads job deeds loaded)
    (htime : Elapses t deeds later) : later = t := by
  cases h with
  | kept _ => exact htime.eq_of_nil
  | asked answer _ =>
      rcases htime.of_cons with ⟨_, rfl, hnil⟩
      exact hnil.eq_of_nil

theorem Inspects.elapses {now : Instant} {configured domain : Option ManagedDomain}
    (h : Inspects now configured deeds domain) (htime : Elapses t deeds later) : later = t := by
  cases h with
  | unmanaged => exact htime.eq_of_nil
  | managed domain answer =>
      rcases htime.of_cons with ⟨_, rfl, hnil⟩
      exact hnil.eq_of_nil

theorem Begins.elapses {domain : Option ManagedDomain} {begun : DriveJob}
    (h : Begins job domain deeds begun) (htime : Elapses t deeds later) : later = t := by
  cases h with
  | kept _ => exact htime.eq_of_nil
  | generation answer _ =>
      rcases htime.of_cons with ⟨_, rfl, hnil⟩
      exact hnil.eq_of_nil

end
end RenewalDrive
