import Mathlib
import RenewalDrive.Proofs.Run.Record
import RenewalDrive.Proofs.Store.Memory

/-!
# Confinement to the watched domains

A drive writes and removes what belongs to the names that it watches, and challenges besides
that nobody can be waiting for: those of names that no domain has, and those of a watched name
whose record told of failed runs when the process started.
-/

namespace RenewalDrive

open Deed

/-!
## Confined deeds
-/

def MemoryStore.Failing (store : MemoryStore) (name : String) : Prop :=
  exists record, store.loadJob name = some record ∧ 0 < record.errorRuns

/-- The challenges of a name may be removed: nobody manages it, or the drive does and recovers
from failed runs. -/
def Registry.Clearable (registry : Registry) (failing : String -> Prop) (name : String) : Prop :=
  registry.contains name = false ∨ (name ∈ registry.watchedNames ∧ failing name)

namespace Deed

/-- A request, refused or not, that asks for no change beyond what a drive may touch. -/
def Confined (registry : Registry) (failing : String -> Prop) : Deed -> Prop
  | .recordSaved name _ _ => name ∈ registry.watchedNames
  | .purged .staging name _ => name ∈ registry.watchedNames
  | .purged .challenges name _ => registry.Clearable failing name
  | .purged .domains _ _ => False
  | _ => True

/-- Nothing outside the staging group is to be removed. -/
def OnlyStaging : Deed -> Prop
  | .purged group _ _ => group = .staging
  | _ => True

variable {registry : Registry} {failing : String -> Prop} {owner : String} {deeds : List Deed}

theorem Of.confined {deed : Deed} (h : deed.Of owner) (hstaging : deed.OnlyStaging)
    (howner : owner ∈ registry.watchedNames) : deed.Confined registry failing := by
  cases deed with
  | recordSaved name record answer =>
      cases h
      exact howner
  | purged group name answer =>
      cases h
      cases hstaging
      exact howner
  | _ =>
      trivial

theorem AllOf.confined (h : AllOf owner deeds)
    (hstaging : forall deed, deed ∈ deeds -> deed.OnlyStaging)
    (howner : owner ∈ registry.watchedNames) :
    forall deed, deed ∈ deeds -> deed.Confined registry failing :=
  fun deed hdeed => (h deed hdeed).confined (hstaging deed hdeed) howner

end Deed

/-!
## The deeds of a living process

An evaluation removes nothing but what its own job has staged.
-/

section

variable {registry : Registry} {failing : String -> Prop} {job : DriveJob} {now : Instant}
  {deeds : List Deed}

theorem Reloads.onlyStaging {loaded : DriveJob} (h : Reloads job deeds loaded) :
    forall deed, deed ∈ deeds -> deed.OnlyStaging := by
  cases h <;> simp [OnlyStaging]

theorem Inspects.onlyStaging {configured domain : Option ManagedDomain}
    (h : Inspects now configured deeds domain) :
    forall deed, deed ∈ deeds -> deed.OnlyStaging := by
  cases h <;> simp [OnlyStaging]

theorem Begins.onlyStaging {domain : Option ManagedDomain} {begun : DriveJob}
    (h : Begins job domain deeds begun) : forall deed, deed ∈ deeds -> deed.OnlyStaging := by
  cases h <;> simp [OnlyStaging]

theorem Pursues.onlyStaging {course : Course} {findings : Findings}
    (h : Pursues job now course deeds findings) :
    forall deed, deed ∈ deeds -> deed.OnlyStaging := by
  cases h <;> simp [OnlyStaging]

theorem Stores.onlyStaging {stored : DriveJob} (h : Stores job deeds stored) :
    forall deed, deed ∈ deeds -> deed.OnlyStaging := by
  cases h <;> simp [OnlyStaging]

theorem Evaluates.onlyStaging {verdict : Evaluation} {evaluated : DriveJob}
    (h : Evaluates registry job deeds verdict evaluated) :
    forall deed, deed ∈ deeds -> deed.OnlyStaging := by
  cases h with
  | notDue now hloads _ =>
      exact List.forall_mem_append.mpr ⟨hloads.onlyStaging, List.forall_mem_singleton.mpr trivial⟩
  | due now hloads _ hdue =>
      refine List.forall_mem_append.mpr ⟨hloads.onlyStaging, List.forall_mem_cons.mpr ⟨trivial, ?_⟩⟩
      cases hdue with
      | phases hinspects hbegins hpursues hstores =>
          simp only [List.forall_mem_append]
          exact ⟨hinspects.onlyStaging, hbegins.onlyStaging, hpursues.onlyStaging,
            hstores.onlyStaging⟩

theorem Evaluates.confined {verdict : Evaluation} {evaluated : DriveJob}
    (h : Evaluates registry job deeds verdict evaluated)
    (hjob : job.name ∈ registry.watchedNames) :
    forall deed, deed ∈ deeds -> deed.Confined registry failing :=
  h.own.confined h.onlyStaging hjob

theorem Visits.confined {visited : DriveJob} (h : Visits registry job deeds visited)
    (hjob : job.name ∈ registry.watchedNames) :
    forall deed, deed ∈ deeds -> deed.Confined registry failing := by
  cases h with
  | early _ _ =>
      exact List.forall_mem_singleton.mpr trivial
  | evaluated _ _ hevaluates =>
      exact List.forall_mem_cons.mpr ⟨trivial, hevaluates.confined hjob⟩

theorem Marks.confined {marked : DriveJob} (h : Marks now job deeds marked)
    (hjob : job.name ∈ registry.watchedNames) :
    forall deed, deed ∈ deeds -> deed.Confined registry failing := by
  cases h with
  | passed _ =>
      exact List.forall_mem_nil _
  | marked _ _ =>
      exact List.forall_mem_singleton.mpr hjob

theorem Delivers.confined {command : Option String} {names : List String} {delivered : Bool}
    (h : Delivers command names deeds delivered) :
    forall deed, deed ∈ deeds -> deed.Confined registry failing := by
  cases h <;> simp [Confined]

end

def DriveContext.Watches (registry : Registry) (context : DriveContext) : Prop :=
  context.registry = registry ∧
    forall job, job ∈ context.jobs -> job.name ∈ registry.watchedNames

section

variable {registry : Registry} {failing : String -> Prop} {context later : DriveContext}
  {deeds : List Deed}

theorem DriveContext.Watches.of_eq (h : context.Watches registry)
    (hsetup : later.setup = context.setup)
    (hnames : later.jobs.map (·.name) = context.jobs.map (·.name)) : later.Watches registry := by
  rcases h with ⟨hregistry, hjobs⟩
  constructor
  · exact (congrArg Setup.registry hsetup).trans hregistry
  · intro job hjob
    have hname : job.name ∈ context.jobs.map (·.name) := by
      rw [← hnames]
      exact List.mem_map_of_mem hjob
    rcases List.mem_map.mp hname with ⟨other, hother, heq⟩
    rw [← heq]
    exact hjobs other hother

theorem Rounds.confined {wait : Span} (h : Rounds context deeds wait later)
    (hwatches : context.Watches registry) :
    forall deed, deed ∈ deeds -> deed.Confined registry failing := by
  rcases hwatches with ⟨rfl, hjobs⟩
  cases h with
  | round started now hvisits =>
      rw [List.cons_append]
      refine List.forall_mem_cons.mpr ⟨trivial, List.forall_mem_append.mpr ⟨?_, ?_⟩⟩
      · exact hvisits.all_of_mem _ fun job _ _ hjob hvisit => hvisit.confined (hjobs job hjob)
      · exact List.forall_mem_singleton.mpr trivial

theorem Notifies.confined {report : NoticeReport} (h : Notifies context deeds report later)
    (hwatches : context.Watches registry) :
    forall deed, deed ∈ deeds -> deed.Confined registry failing := by
  cases h with
  | pass now hannounces =>
      refine List.forall_mem_cons.mpr ⟨trivial, ?_⟩
      cases hannounces with
      | idle _ =>
          exact List.forall_mem_nil _
      | failed _ hdelivers =>
          exact hdelivers.confined
      | delivered _ hdelivers hmarks =>
          refine List.forall_mem_append.mpr ⟨hdelivers.confined, ?_⟩
          exact hmarks.all_of_mem _ fun job _ _ hjob hmark => hmark.confined (hwatches.2 job hjob)

theorem Ticks.confined {state : WatchState} {interval : Option Span}
    (h : Ticks context state deeds interval later) (hwatches : context.Watches registry) :
    forall deed, deed ∈ deeds -> deed.Confined registry failing := by
  cases h with
  | starting hnotifies =>
      exact hnotifies.confined hwatches
  | running hrounds hnotifies =>
      refine List.forall_mem_append.mpr ⟨hrounds.confined hwatches, ?_⟩
      exact hnotifies.confined (hwatches.of_eq hrounds.setup_eq hrounds.names_eq)
  | stopping hnotifies =>
      exact hnotifies.confined hwatches

theorem Performs.confined {call : Call} {after : Option DriveContext}
    (h : Performs call (some context) deeds after) (hstays : call.isStart = false)
    (hwatches : context.Watches registry) :
    forall deed, deed ∈ deeds -> deed.Confined registry failing := by
  cases h with
  | start _ =>
      cases hstays
  | tick hticks =>
      exact hticks.confined hwatches
  | runJobs hrounds =>
      exact hrounds.confined hwatches
  | missing _ =>
      exact List.forall_mem_nil _
  | evaluate hjob hevaluates =>
      rcases hwatches with ⟨rfl, hjobs⟩
      exact hevaluates.confined (hjobs _ (List.mem_of_getElem? hjob))
  | announce hnotifies =>
      exact hnotifies.confined hwatches

end

/-!
## The deeds of a start

The record that a start finds for a name is the one that was there when the process started,
since whatever was done for other names before does not touch it.
-/

section

variable {registry : Registry} {deeds : List Deed} {store later : MemoryStore}

theorem Starts.confined {failing : String -> Prop} {name : String} {job : DriveJob}
    (h : Starts name deeds job) (hserves : store.Serves deeds later)
    (hname : name ∈ registry.watchedNames) (hfailing : store.Failing name -> failing name) :
    forall deed, deed ∈ deeds -> deed.Confined registry failing := by
  cases h with
  | resumed answer _ =>
      exact List.forall_mem_singleton.mpr trivial
  | recovered answer staging challenges saving herrors =>
      have hfound : store.Failing name := by
        cases hserves with
        | cons hvouches _ =>
            rcases answer with error | - | record
            · cases herrors
            · cases herrors
            · exact ⟨record, hvouches.symm, herrors⟩
      have hclearable : registry.Clearable failing name := Or.inr ⟨hname, hfailing hfound⟩
      simp [Confined, hname, hclearable]

theorem Each.starts_confined {failing : String -> Prop} {names : List String}
    {jobs : List DriveJob} (h : Each Starts names deeds jobs) (hserves : store.Serves deeds later)
    (hnodup : names.Nodup) (hwatched : forall name, name ∈ names -> name ∈ registry.watchedNames)
    (hfailing : forall name, name ∈ names -> store.Failing name -> failing name) :
    forall deed, deed ∈ deeds -> deed.Confined registry failing := by
  induction h generalizing store with
  | nil =>
      exact List.forall_mem_nil _
  | @cons name rest first second job jobs hstarts _ ih =>
      rcases hserves.split with ⟨mid, hfirst, hsecond⟩
      rcases List.nodup_cons.mp hnodup with ⟨hname, hrest⟩
      rcases List.forall_mem_cons.mp hwatched with ⟨hwatchedName, hwatchedRest⟩
      rcases List.forall_mem_cons.mp hfailing with ⟨hfailingName, hfailingRest⟩
      refine List.forall_mem_append.mpr
        ⟨hstarts.confined hfirst hwatchedName hfailingName, ih hsecond hrest hwatchedRest ?_⟩
      intro other hother hfound
      have hne : name ≠ other := fun heq => hname (heq ▸ hother)
      have hforeign : AllForeign none other first := hstarts.own.foreign hne
      have hkept := (recordPath_of_serves other hfirst).of_foreign hforeign
      apply hfailingRest other hother
      rcases hfound with ⟨record, hrecord, herrors⟩
      exact ⟨record, hkept.symm.trans hrecord, herrors⟩

theorem Sweeps.confined {failing : String -> Prop} (h : Sweeps registry deeds) :
    forall deed, deed ∈ deeds -> deed.Confined registry failing := by
  cases h with
  | unlisted error =>
      exact List.forall_mem_singleton.mpr trivial
  | swept hpurges =>
      refine List.forall_mem_cons.mpr ⟨trivial, ?_⟩
      apply hpurges.all_of_mem
      rintro name own result hname ⟨answer, rfl⟩
      have hunknown : registry.contains name = false := by
        simpa using (List.mem_filter.mp hname).2
      exact List.forall_mem_singleton.mpr (Or.inl hunknown)

theorem StartsContext.confined {settings : DriveSettings} {begun : Option DriveContext}
    (h : StartsContext registry settings deeds begun) (hserves : store.Serves deeds later)
    (hdistinct : registry.Distinct) :
    forall deed, deed ∈ deeds -> deed.Confined registry store.Failing := by
  have hnodup := Registry.watchedNames_nodup hdistinct
  cases h with
  | idle heach hsweeps =>
      rcases hserves.split with ⟨mid, hstarting, _⟩
      refine List.forall_mem_append.mpr ⟨?_, hsweeps.confined⟩
      exact heach.starts_confined hstarting hnodup (fun _ => id) fun _ _ => id
  | begun heach hsweeps _ =>
      rcases hserves.split with ⟨mid, hstarting, _⟩
      refine List.forall_mem_append.mpr ⟨?_, hsweeps.confined⟩
      exact heach.starts_confined hstarting hnodup (fun _ => id) fun _ _ => id

end

/-!
## Stores that differ by confined deeds
-/

/-- A later store differs from a store by what a drive may touch only. -/
structure MemoryStore.Frames (registry : Registry) (failing : String -> Prop)
    (store later : MemoryStore) : Prop where
  credentials : later.credentials = store.credentials
  domains : later.entries .domains = store.entries .domains
  records : forall name, name ∉ registry.watchedNames -> later.records name = store.records name
  staging : forall name, name ∉ registry.watchedNames ->
    (name ∈ later.entries .staging ↔ name ∈ store.entries .staging)
  challenges : forall name, ¬ registry.Clearable failing name ->
    (name ∈ later.entries .challenges ↔ name ∈ store.entries .challenges)

namespace MemoryStore.Frames

variable {registry : Registry} {failing : String -> Prop} {store mid later : MemoryStore}

theorem refl (store : MemoryStore) : store.Frames registry failing store where
  credentials := rfl
  domains := rfl
  records := fun _ _ => rfl
  staging := fun _ _ => Iff.rfl
  challenges := fun _ _ => Iff.rfl

theorem trans (hfirst : store.Frames registry failing mid)
    (hsecond : mid.Frames registry failing later) : store.Frames registry failing later where
  credentials := hsecond.credentials.trans hfirst.credentials
  domains := hsecond.domains.trans hfirst.domains
  records := fun name hname => (hsecond.records name hname).trans (hfirst.records name hname)
  staging := fun name hname => (hsecond.staging name hname).trans (hfirst.staging name hname)
  challenges := fun name hname =>
    (hsecond.challenges name hname).trans (hfirst.challenges name hname)

theorem of_saveJob {name : String} (record : JobRecord) (h : name ∈ registry.watchedNames) :
    store.Frames registry failing (store.saveJob name record) where
  credentials := rfl
  domains := rfl
  records := by
    intro other hother
    exact if_neg (ne_of_mem_of_not_mem h hother).symm
  staging := by
    intro other hother
    have hne : other ≠ name := (ne_of_mem_of_not_mem h hother).symm
    simp [saveJob, addEntry, mem_insertName, hne]
  challenges := fun _ _ => Iff.rfl

theorem of_purge_staging {name : String} (h : name ∈ registry.watchedNames) :
    store.Frames registry failing (store.purge .staging name) where
  credentials := rfl
  domains := rfl
  records := by
    intro other hother
    have hne : other ≠ name := (ne_of_mem_of_not_mem h hother).symm
    simp [purge, hne]
  staging := by
    intro other hother
    have hne : other ≠ name := (ne_of_mem_of_not_mem h hother).symm
    simp [purge, hne]
  challenges := fun _ _ => Iff.rfl

theorem of_purge_challenges {name : String} (h : registry.Clearable failing name) :
    store.Frames registry failing (store.purge .challenges name) where
  credentials := rfl
  domains := rfl
  records := fun _ _ => rfl
  staging := fun _ _ => Iff.rfl
  challenges := by
    intro other hother
    have hne : other ≠ name := fun heq => hother (heq ▸ h)
    simp [purge, hne]

theorem of_confined {deed : Deed} (h : deed.Confined registry failing) :
    store.Frames registry failing (store.after deed) := by
  unfold MemoryStore.after
  split
  next name record _ =>
    exact of_saveJob record h
  next group name _ =>
    cases group with
    | staging =>
        exact of_purge_staging h
    | challenges =>
        exact of_purge_challenges h
    | domains =>
        cases h
  next =>
    exact refl store

theorem of_serves {deeds : List Deed} (hserves : store.Serves deeds later)
    (h : forall deed, deed ∈ deeds -> deed.Confined registry failing) :
    store.Frames registry failing later := by
  induction hserves with
  | nil store =>
      exact refl store
  | cons _ _ ih =>
      rcases List.forall_mem_cons.mp h with ⟨hdeed, hrest⟩
      exact (of_confined hdeed).trans (ih hrest)

end MemoryStore.Frames

/-!
## Runs of one process
-/

theorem Run.watches_of_start {origin process : Process} {registry : Registry}
    {settings : DriveSettings} {calls : List Call} {trace : List Happening}
    (h : Run origin (.start registry settings :: calls) trace process)
    (hstays : forall call, call ∈ calls -> call.isStart = false) :
    forall context, process.context = some context -> context.Watches registry := by
  rcases Run.split [_] calls h with ⟨started, early, late, hstart, hlater, _⟩
  rcases hstart.of_start with ⟨deeds, _, hstarts, _⟩
  intro context hcontext
  have hregistry : context.registry = registry :=
    congrArg Setup.registry ((hlater.setup_eq hstays hstart.setup_of_start).1 context hcontext)
  have hnames : context.jobs.map (·.name) = context.registry.watchedNames := by
    refine hlater.names_eq ?_ context hcontext
    intro first hfirst
    rw [hfirst] at hstarts
    rcases hstarts.names_eq with ⟨hsame, hjobs⟩
    rw [hjobs, hsame]
  refine ⟨hregistry, ?_⟩
  intro job hjob
  rw [← hregistry, ← hnames]
  exact List.mem_map_of_mem hjob

theorem Process.call_of_setup_eq_none {process later : Process} {call : Call}
    (hsetup : process.setup call = none) (h : process.call call = .ok later) :
    later = process := by
  cases call with
  | start _ _ =>
      cases hsetup
  | _ =>
      have hcontext : process.context = none := Option.map_eq_none_iff.mp hsetup
      simp only [Process.call, Process.within, hcontext, Except.ok.injEq] at h
      exact h.symm

/-- From its start on, a process asks for nothing beyond the watched domains, whatever it is
told, and leaves everything else in the store as it is. -/
theorem confined_to_watched {origin process later : Process} {registry : Registry}
    {settings : DriveSettings} {calls rest : List Call} {call : Call} {trace : List Happening}
    (hdistinct : registry.Distinct) (hrun : Run origin calls trace process)
    (hcalls : calls ++ [call] = .start registry settings :: rest)
    (hstays : forall other, other ∈ rest -> other.isStart = false)
    (hcall : process.call call = .ok later) :
    (exists deeds, later.world.requests = process.world.requests ++ deeds ∧
      forall deed, deed ∈ deeds -> deed.Confined registry origin.world.store.Failing) ∧
    process.world.store.Frames registry origin.world.store.Failing later.world.store := by
  cases hsetup : process.setup call with
  | none =>
      cases Process.call_of_setup_eq_none hsetup hcall
      exact ⟨⟨[], (List.append_nil _).symm, List.forall_mem_nil _⟩, MemoryStore.Frames.refl _⟩
  | some setup =>
      rcases Process.performs_of_call hsetup hcall with ⟨deeds, hpassage, hperforms⟩
      have hconfined : forall deed, deed ∈ deeds ->
          deed.Confined registry origin.world.store.Failing := by
        cases calls with
        | nil =>
            -- The process starts with this call, and no record has changed since the origin.
            cases hcalls
            rcases hrun.of_nil rfl with ⟨_, _, hrecords⟩
            have hfailing : process.world.store.Failing = origin.world.store.Failing := by
              funext name
              unfold MemoryStore.Failing MemoryStore.loadJob
              rw [hrecords]
            cases hperforms with
            | start hstarts =>
                rw [← hfailing]
                exact hstarts.confined hpassage.serves hdistinct
        | cons first calls =>
            cases hcalls
            have hstaysCall := hstays call (List.mem_append_right _ List.mem_cons_self)
            have hwatches := hrun.watches_of_start fun other hother =>
              hstays other (List.mem_append_left _ hother)
            rcases hperforms.keeps hstaysCall with ⟨context, _, hcontext, _, _⟩
            rw [hcontext] at hperforms
            exact hperforms.confined hstaysCall (hwatches context hcontext)
      exact ⟨⟨deeds, hpassage.requests, hconfined⟩,
        MemoryStore.Frames.of_serves hpassage.serves hconfined⟩

/-- A process that finds errors in the record of the only name that it watches. Challenges of
that name, of one that is managed by hand, and of one that nobody manages are left over. -/
def leftover : Process where
  world := .atRest
    { MemoryStore.empty.saveJob "a" { name := "a", errorRuns := 1 } with
      entries := fun _ => ["a", "b", "c"] }
  context := none

def Registry.mixed : Registry :=
  ⟨[⟨"a", .incomplete, .auto, .default, none⟩, ⟨"b", .incomplete, .manual, .default, none⟩]⟩

theorem confined_after_leftover :
    exists trace started later,
      Run leftover [.start .mixed {}] trace started ∧
      started.world.store.entries .challenges = ["b"] ∧
      started.call (.tick .running) = .ok later ∧
      (exists deeds, later.world.requests = started.world.requests ++ deeds ∧
        forall deed, deed ∈ deeds -> deed.Confined .mixed leftover.world.store.Failing) ∧
      started.world.store.Frames .mixed leftover.world.store.Failing later.world.store := by
  let starting : List Deed :=
    [.recordLoaded "a" (.ok (some { name := "a", errorRuns := 1 })),
      .purged .staging "a" (.ok ()), .purged .challenges "a" (.ok ()),
      .recordSaved "a" { name := "a" } (.ok ()), .listed .challenges (.ok ["b", "c"]),
      .purged .challenges "c" (.ok ())]
  have hplay : (leftover.play [.start .mixed {}]).map
      (fun played => ((played.1.world.store.entries .challenges,
        (played.1.call (.tick .running)).isOk), played.2)) =
      .ok ((["b"], true), starting.map (Happening.mk ⟨.mixed, {}⟩)) := by
    cbv
  rcases Process.run_of_play (fun started => (started.world.store.entries .challenges,
    (started.call (.tick .running)).isOk)) hplay with ⟨started, hrun, hseen⟩
  rcases Prod.mk.inj hseen with ⟨hentries, hok⟩
  cases hcall : started.call (.tick .running) with
  | error halt =>
      rw [hcall] at hok
      cases hok
  | ok later =>
      exact ⟨_, started, later, hrun, hentries, hcall,
        confined_to_watched (by simp [Registry.Distinct, Registry.mixed]) hrun rfl
          (List.forall_mem_singleton.mpr rfl) hcall⟩

end RenewalDrive
