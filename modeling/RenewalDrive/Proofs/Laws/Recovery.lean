import Mathlib
import RenewalDrive.Proofs.Deeds.Steps
import RenewalDrive.Proofs.Laws.Confinement
import RenewalDrive.Proofs.Laws.Refinement

/-!
# Recovery at a start

A start goes through the watched names and then through the challenges that it finds listed. What
it comes to is a function of the store, the same on every host whose store serves the calls that a
start makes.
-/

namespace RenewalDrive

/-!
## Stores before and after a start
-/

/-- A store differs from a later one in what a start changes: the records of some names were
replaced by fresh ones, and the challenges of some names were removed. -/
structure MemoryStore.Restarts (recovers clears : String -> Prop) (store later : MemoryStore) :
    Prop where
  recovered : forall name, recovers name ->
    later.records name = some (DriveJob.fresh name).toRecord
  records : forall name, ¬ recovers name -> later.records name = store.records name
  credentials : later.credentials = store.credentials
  domains : later.entries .domains = store.entries .domains
  staging : forall name,
    name ∈ later.entries .staging ↔ name ∈ store.entries .staging ∨ recovers name
  challenges : forall name,
    name ∈ later.entries .challenges ↔ name ∈ store.entries .challenges ∧ ¬ clears name
  ascending : forall group, Ascending (store.entries group) -> Ascending (later.entries group)

instance (store : MemoryStore) (name : String) : Decidable (store.Failing name) :=
  decidable_of_iff ((store.loadJob name).any fun record => decide (0 < record.errorRuns))
    (by simp [MemoryStore.Failing, Option.any_eq_true])

namespace MemoryStore

variable {recovers clears recovers' clears' : String -> Prop} {store mid later : MemoryStore}
  {name other : String}

namespace Restarts

theorem refl (store : MemoryStore) :
    store.Restarts (fun _ => False) (fun _ => False) store where
  recovered := fun _ => False.elim
  records := fun _ _ => rfl
  credentials := rfl
  domains := rfl
  staging := fun _ => (or_false _).symm ▸ Iff.rfl
  challenges := fun _ => by simp
  ascending := fun _ => id

theorem trans (hfirst : store.Restarts recovers clears mid)
    (hsecond : mid.Restarts recovers' clears' later) :
    store.Restarts (fun name => recovers name ∨ recovers' name)
      (fun name => clears name ∨ clears' name) later where
  recovered := by
    intro name hname
    by_cases hlast : recovers' name
    · exact hsecond.recovered name hlast
    · rw [hsecond.records name hlast, hfirst.recovered name (hname.resolve_right hlast)]
  records := by
    intro name hname
    rw [hsecond.records name fun h => hname (.inr h), hfirst.records name fun h => hname (.inl h)]
  credentials := hsecond.credentials.trans hfirst.credentials
  domains := hsecond.domains.trans hfirst.domains
  staging := by
    intro name
    rw [hsecond.staging, hfirst.staging, or_assoc]
  challenges := by
    intro name
    rw [hsecond.challenges, hfirst.challenges, not_or, and_assoc]
  ascending := fun group h => hsecond.ascending group (hfirst.ascending group h)

theorem congr (h : store.Restarts recovers clears later)
    (hrecovers : forall name, recovers name ↔ recovers' name)
    (hclears : forall name, name ∈ store.entries .challenges -> (clears name ↔ clears' name)) :
    store.Restarts recovers' clears' later where
  recovered := fun name hname => h.recovered name ((hrecovers name).mpr hname)
  records := fun name hname => h.records name fun h => hname ((hrecovers name).mp h)
  credentials := h.credentials
  domains := h.domains
  staging := fun name => (h.staging name).trans (by rw [hrecovers])
  challenges := fun name => (h.challenges name).trans
    (and_congr_right fun hname => not_congr (hclears name hname))
  ascending := h.ascending

theorem failing_iff (h : store.Restarts recovers clears later) (hname : ¬ recovers name) :
    later.Failing name ↔ store.Failing name := by
  unfold Failing loadJob
  rw [h.records name hname]

end Restarts

/-!
### The names one after the other
-/

def recovered (store : MemoryStore) (name : String) : MemoryStore :=
  if store.Failing name then
    ((store.purge .staging name).purge .challenges name).saveJob name
      (DriveJob.fresh name).toRecord
  else store

theorem restarts_recovered (store : MemoryStore) (name : String) :
    store.Restarts (fun other => other = name ∧ store.Failing other)
      (fun other => other = name ∧ store.Failing other) (store.recovered name) := by
  unfold recovered
  split
  next hfailing =>
    have hself : forall other, other = name ∧ store.Failing other ↔ other = name :=
      fun other => and_iff_left_of_imp fun heq => heq ▸ hfailing
    simp only [hself]
    constructor
    case recovered =>
      rintro _ rfl
      exact if_pos rfl
    case records =>
      intro other hother
      simp [saveJob, addEntry, purge, hother]
    case credentials => simp [saveJob, addEntry, purge]
    case domains => simp [saveJob, addEntry, purge]
    case staging =>
      intro other
      by_cases heq : other = name <;> simp [saveJob, addEntry, purge, mem_insertName, heq]
    case challenges =>
      intro other
      simp [saveJob, addEntry, purge]
    case ascending =>
      intro group hascending
      cases group with
      | staging => exact Ascending.insertName (hascending.filter _)
      | challenges => exact hascending.filter _
      | domains => exact hascending
  next hfailing =>
    have hnone : forall other, False ↔ other = name ∧ store.Failing other := by
      rintro other
      refine ⟨False.elim, ?_⟩
      rintro ⟨rfl, h⟩
      exact hfailing h
    exact (Restarts.refl store).congr hnone fun other _ => hnone other

theorem restarts_foldl_recovered (names : List String) (store : MemoryStore) :
    store.Restarts (fun name => name ∈ names ∧ store.Failing name)
      (fun name => name ∈ names ∧ store.Failing name) (names.foldl recovered store) := by
  induction names generalizing store with
  | nil =>
      refine (Restarts.refl store).congr ?_ ?_ <;> simp
  | cons name rest ih =>
      have hfirst := store.restarts_recovered name
      -- A name that was recovered fails no more, and another one fails as it did before.
      have hunion : forall other,
          (other = name ∧ store.Failing other) ∨
            (other ∈ rest ∧ (store.recovered name).Failing other) ↔
          other ∈ name :: rest ∧ store.Failing other := by
        intro other
        by_cases hrecovers : other = name ∧ store.Failing other
        · rcases hrecovers with ⟨rfl, hfailing⟩
          simp [hfailing]
        · rw [hfirst.failing_iff hrecovers, List.mem_cons, or_and_right]
      exact (hfirst.trans (ih (store.recovered name))).congr hunion fun other _ => hunion other

def swept (store : MemoryStore) (registry : Registry) : MemoryStore :=
  ((store.entries .challenges).filter fun name => !registry.contains name).foldl
    (fun store name => store.purge .challenges name) store

theorem restarts_purge_challenges (store : MemoryStore) (name : String) :
    store.Restarts (fun _ => False) (· = name) (store.purge .challenges name) where
  recovered := fun _ => False.elim
  records := fun _ _ => by simp [purge]
  credentials := by simp [purge]
  domains := by simp [purge]
  staging := fun _ => by simp [purge]
  challenges := fun _ => by simp [purge]
  ascending := by
    intro group hascending
    cases group with
    | challenges => exact hascending.filter _
    | _ => exact hascending

theorem restarts_foldl_purge (names : List String) (store : MemoryStore) :
    store.Restarts (fun _ => False) (· ∈ names)
      (names.foldl (fun store name => store.purge .challenges name) store) := by
  induction names generalizing store with
  | nil =>
      refine (Restarts.refl store).congr ?_ ?_ <;> simp
  | cons name rest ih =>
      refine ((store.restarts_purge_challenges name).trans (ih _)).congr ?_ ?_ <;> simp

theorem restarts_swept (store : MemoryStore) (registry : Registry) :
    store.Restarts (fun _ => False) (fun name => registry.contains name = false)
      (store.swept registry) := by
  refine (restarts_foldl_purge _ store).congr (fun _ => Iff.rfl) ?_
  intro name hname
  simp [hname]

def restarted (store : MemoryStore) (registry : Registry) : MemoryStore :=
  (registry.watchedNames.foldl recovered store).swept registry

end MemoryStore

/-- A start with a registry recovers a name: the name is watched, and its record tells of failed
runs. -/
def Registry.Recovers (registry : Registry) (store : MemoryStore) (name : String) : Prop :=
  name ∈ registry.watchedNames ∧ store.Failing name

/-- A start recovers the watched names that fail, and it clears the challenges of these and of
the names that no domain has. -/
theorem MemoryStore.restarts_restarted (store : MemoryStore) (registry : Registry) :
    store.Restarts (registry.Recovers store) (registry.Clearable store.Failing)
      (store.restarted registry) := by
  refine ((restarts_foldl_recovered registry.watchedNames store).trans
    (restarts_swept _ registry)).congr ?_ ?_
  · intro name
    exact or_false _ ▸ Iff.rfl
  · intro name _
    exact or_comm

/-!
## Hosts that serve a start
-/

/-- From every world that stands for a store, an act comes to an answer and to a world that
stands for a later store. -/
def Act.Carries {σ α : Type} (stands : MemoryStore -> σ -> Prop) (act : Act σ α)
    (store : MemoryStore) (a : α) (later : MemoryStore) : Prop :=
  forall world, stands store world ->
    exists final, act.run world = .ok (a, final) ∧ stands later final

namespace Act

variable {σ α β : Type} {stands : MemoryStore -> σ -> Prop} {act : Act σ α} {next : α -> Act σ β}
  {store mid later : MemoryStore} {a : α} {b : β}

theorem carries_pure (a : α) (store : MemoryStore) :
    (pure a : Act σ α).Carries stands store a store :=
  fun world hworld => ⟨world, rfl, hworld⟩

theorem carries_bind (hact : act.Carries stands store a mid)
    (hnext : (next a).Carries stands mid b later) :
    (act >>= next).Carries stands store b later := by
  intro world hworld
  rcases hact world hworld with ⟨final, hrun, hfinal⟩
  rcases hnext final hfinal with ⟨last, hlast, hlater⟩
  exact ⟨last, (run_bind_of_ok hrun).trans hlast, hlater⟩

end Act

/-- A host serves the calls that are admitted as a memory store does, and its log takes every
event without a time. -/
structure Host.Serves {σ : Type} (host : Host σ) (admits : MemoryStore -> StoreCall -> Prop)
    (stands : MemoryStore -> σ -> Prop) : Prop where
  note : forall (event : Event) store, event.date? = none ->
    (host.note event).Carries stands store () store
  loadJob : forall name store, admits store (.loadJob name) ->
    (host.loadJob name).Carries stands store (.ok (store.loadJob name)) store
  saveJob : forall name record store, admits store (.saveJob name record) ->
    (host.saveJob name record).Carries stands store (.ok ()) (store.saveJob name record)
  purge : forall group name store, admits store (.purge group name) ->
    (host.purge group name).Carries stands store (.ok ()) (store.purge group name)
  listNames : forall group store, admits store (.listNames group) ->
    (host.listNames group).Carries stands store (.ok (store.listNames group)) store

/-- The calls of a start with a registry, by the store at its begin and the store at the call. A
record is saved only where there is none any more. -/
def Registry.StartCall (registry : Registry) (origin store : MemoryStore) : StoreCall -> Prop
  | .loadJob name => name ∈ registry.watchedNames
  | .purge .staging name => registry.Recovers origin name
  | .purge .challenges name => registry.Clearable origin.Failing name ∧
      (name ∈ registry.watchedNames ∨ name ∈ origin.entries .challenges)
  | .saveJob name record => registry.Recovers origin name ∧
      record = (DriveJob.fresh name).toRecord ∧ store.loadJob name = none
  | .listNames group => group = .challenges
  | _ => False

/-- The job that a start makes of the record of a name: a fresh one if there is no record, the
one of the record if no runs have failed, and else a fresh one that has to start over. -/
def DriveJob.resumed (name : String) : Option JobRecord -> DriveJob
  | none => .fresh name
  | some record =>
      if 0 < record.errorRuns then { DriveJob.fresh name with resetStaging := true }
      else (DriveJob.fresh name).apply record

/-- The context that a registry begins with a store: a job for each watched name, in the order of
the configuration, and no context if no name is watched. -/
def Registry.begun (registry : Registry) (settings : DriveSettings) (store : MemoryStore) :
    Option DriveContext :=
  if registry.watchedNames = [] then none
  else some ⟨registry, settings,
    registry.watchedNames.map fun name => .resumed name (store.loadJob name)⟩

namespace Host.Serves

open Act

variable {σ : Type} {host : Host σ} {registry : Registry} {stands : MemoryStore -> σ -> Prop}
  {origin store : MemoryStore} {name : String}
  (h : host.Serves (registry.StartCall origin) stands)

include h

theorem reload_fresh (hname : name ∈ registry.watchedNames) :
    (host.reload (.fresh name)).Carries stands store
      ((DriveJob.fresh name).reloaded (.ok (store.loadJob name))) store := by
  refine carries_bind (h.loadJob name store hname) ?_
  cases store.loadJob name <;> exact carries_pure _ store

theorem purgeNoting {group : Group} (hcall : registry.StartCall origin store (.purge group name)) :
    (host.purgeNoting name group).Carries stands store () (store.purge group name) :=
  carries_bind (h.purge group name store hcall) (carries_pure () _)

theorem save {job : DriveJob}
    (hcall : registry.StartCall origin store (.saveJob job.name job.toRecord)) :
    (host.save job).Carries stands store { job with dirty := false }
      (store.saveJob job.name job.toRecord) :=
  carries_bind (h.saveJob job.name job.toRecord store hcall)
    (carries_bind (h.note _ _ rfl) (carries_pure _ _))

theorem startJob (hname : name ∈ registry.watchedNames)
    (hsame : store.loadJob name = origin.loadJob name) :
    (host.startJob name).Carries stands store (DriveJob.resumed name (origin.loadJob name))
      (store.recovered name) := by
  refine carries_bind (h.note _ store rfl) (carries_bind (h.reload_fresh hname) ?_)
  by_cases hfailing : store.Failing name
  · have hrecovers : registry.Recovers origin name := by
      unfold MemoryStore.Failing at hfailing
      rw [hsame] at hfailing
      exact ⟨hname, hfailing⟩
    have hrecovered : store.recovered name = _ := if_pos hfailing
    rcases hfailing with ⟨record, hrecord, herrors⟩
    have hloaded : 0 < ((DriveJob.fresh name).reloaded (.ok (some record))).errorRuns := herrors
    have hresumed : DriveJob.resumed name (some record) = _ := if_pos herrors
    rw [← hsame, hrecovered, hrecord, hresumed, if_pos hloaded]
    refine carries_bind (h.note _ store rfl) ?_
    refine carries_bind (h.purgeNoting hrecovers) ?_
    refine carries_bind (h.purgeNoting ⟨.inr hrecovers, .inl hname⟩) ?_
    refine h.save ⟨hrecovers, rfl, ?_⟩
    simp [MemoryStore.loadJob, MemoryStore.purge, DriveJob.fresh]
  · have hkept : ¬ 0 < ((DriveJob.fresh name).reloaded (.ok (store.loadJob name))).errorRuns ∧
        (DriveJob.fresh name).reloaded (.ok (store.loadJob name)) =
          DriveJob.resumed name (store.loadJob name) := by
      cases hrecord : store.loadJob name with
      | none => exact ⟨Nat.lt_irrefl 0, rfl⟩
      | some record =>
          have herrors : ¬ 0 < record.errorRuns := fun herrors =>
            hfailing ⟨record, hrecord, herrors⟩
          exact ⟨herrors, (if_neg herrors).symm⟩
    rw [MemoryStore.recovered, if_neg hfailing, ← hsame, if_neg hkept.1, hkept.2]
    exact carries_pure _ store

theorem startJobs {names : List String} (hnodup : names.Nodup)
    (hwatched : forall name, name ∈ names -> name ∈ registry.watchedNames)
    (hsame : forall name, name ∈ names -> store.loadJob name = origin.loadJob name) :
    (names.mapM host.startJob).Carries stands store
      (names.map fun name => DriveJob.resumed name (origin.loadJob name))
      (names.foldl MemoryStore.recovered store) := by
  induction names generalizing store with
  | nil => exact carries_pure [] store
  | cons name rest ih =>
      rw [List.forall_mem_cons] at hwatched hsame
      rcases List.nodup_cons.mp hnodup with ⟨hname, hrest⟩
      have hlater : forall other, other ∈ rest ->
          (store.recovered name).loadJob other = origin.loadJob other := by
        intro other hother
        refine Eq.trans ((store.restarts_recovered name).records other ?_) (hsame.2 other hother)
        rintro ⟨rfl, _⟩
        exact hname hother
      rw [List.mapM_cons]
      refine carries_bind (h.startJob hwatched.1 hsame.1) ?_
      exact carries_bind (ih hrest hwatched.2 hlater) (carries_pure _ _)

theorem purgeStale (hname : registry.contains name = false)
    (hlisted : name ∈ origin.entries .challenges) :
    (host.purgeStale name).Carries stands store () (store.purge .challenges name) :=
  carries_bind (h.purge .challenges name store ⟨.inl hname, .inr hlisted⟩) (h.note _ _ rfl)

theorem purgeStaleChallenges
    (hlisted : forall name, name ∈ store.entries .challenges ->
      name ∈ origin.entries .challenges) :
    (host.purgeStaleChallenges registry).Carries stands store () (store.swept registry) := by
  refine carries_bind (h.listNames .challenges store rfl) ?_
  have hstale : forall name, name ∈ (store.entries .challenges).filter
      (fun name => !registry.contains name) ->
      registry.contains name = false ∧ name ∈ origin.entries .challenges := by
    intro name hname
    rcases List.mem_filter.mp hname with ⟨hmem, hunknown⟩
    exact ⟨by simpa using hunknown, hlisted name hmem⟩
  change (((store.entries .challenges).filter fun name => !registry.contains name).forM
    host.purgeStale).Carries stands store () (store.swept registry)
  unfold MemoryStore.swept
  clear hlisted
  generalize (store.entries .challenges).filter (fun name => !registry.contains name) = names
    at hstale
  induction names generalizing store with
  | nil => exact carries_pure () store
  | cons name rest ih =>
      rw [List.forall_mem_cons] at hstale
      rw [List.forM_eq_forM, List.forM_cons]
      exact carries_bind (h.purgeStale hstale.1.1 hstale.1.2) (ih hstale.2)

/-- A host that serves a start comes to what the registry begins with the store, and to the store
after a start. -/
theorem start (hdistinct : registry.Distinct) (settings : DriveSettings) :
    (host.start registry settings).Carries stands origin (registry.begun settings origin)
      (origin.restarted registry) := by
  have hmid := origin.restarts_foldl_recovered registry.watchedNames
  refine carries_bind (h.startJobs (Registry.watchedNames_nodup hdistinct) (fun _ => id)
    fun _ _ => rfl) ?_
  refine carries_bind (h.purgeStaleChallenges fun name hname =>
    ((hmid.challenges name).mp hname).1) ?_
  by_cases hnone : registry.watchedNames = []
  · rw [if_pos (by simp [hnone]), Registry.begun, if_pos hnone]
    exact carries_bind (h.note _ _ rfl) (carries_pure none _)
  · rw [if_neg (by simp [hnone]), Registry.begun, if_neg hnone]
    exact carries_pure _ _

end Host.Serves
end RenewalDrive
