import Mathlib
import RenewalDrive.Proofs.Run.Record

/-!
# Agreement of jobs and records

A reload replaces a job that is not marked as changed by its record, so such a job has to
agree with its record, or a change that was never saved is undone. Everything that a process
does after its start keeps the agreement, whatever the store refuses. The start itself
breaks it in one case: when it drops a record with errors and the store refuses both to
remove that record and to save the fresh one, the fresh job is not marked.
-/

namespace RenewalDrive

open Deed

namespace DriveJob

/-- A job that is not marked as changed is what its record says, if there is a record. -/
def Agrees (job : DriveJob) (record : Option JobRecord) : Prop :=
  job.dirty = false -> forall found, record = some found -> job.apply found = job

theorem agrees_of_dirty {job : DriveJob} {record : Option JobRecord} (h : job.dirty = true) :
    job.Agrees record := by
  intro hclean
  rw [h] at hclean
  cases hclean

theorem agrees_none (job : DriveJob) : job.Agrees none := by
  intro _ found hfound
  cases hfound

theorem agrees_apply (job : DriveJob) (found : JobRecord) :
    (job.apply found).Agrees (some found) := by
  intro _ other hother
  cases hother
  rfl

theorem agrees_toRecord (job : DriveJob) :
    ({ job with dirty := false } : DriveJob).Agrees (some job.toRecord) := by
  intro _ found hfound
  cases hfound
  rfl

end DriveJob

theorem tracks_agrees : Tracks DriveJob.Agrees where
  dirty := fun _ _ hdirty => DriveJob.agrees_of_dirty hdirty
  loaded := DriveJob.agrees_apply
  saved := DriveJob.agrees_toRecord

/-!
## Starts
-/

/-- A start leaves a job that disagrees with its record just when it is refused twice. -/
theorem Starts.agrees_iff {name : String} {own : List Deed} {job : DriveJob}
    {record later : Option JobRecord} (h : Starts name own job)
    (hpath : RecordPath name record own later)
    (hloads : forall error, .recordLoaded name (.error error) ∉ own) :
    job.Agrees later ↔
      ¬ ((exists error, .purged .staging name (.error error) ∈ own) ∧
        exists saved error, .recordSaved name saved (.error error) ∈ own) := by
  cases h with
  | resumed answer _ =>
      rcases answer with error | found
      · exact absurd List.mem_cons_self (hloads error)
      · rcases hpath.of_single with ⟨htells, hlater⟩
        have hfound : later = found := hlater.trans (htells rfl).symm
        subst hfound
        refine iff_of_true ?_ (by simp)
        rcases later with - | found
        · exact DriveJob.agrees_none _
        · exact DriveJob.agrees_apply _ found
  | recovered answer staging challenges saving herrors =>
      rcases hpath.of_cons with ⟨htells, hpath⟩
      rcases hpath.of_cons with ⟨_, hpath⟩
      rcases hpath.of_cons with ⟨_, hpath⟩
      rcases hpath.of_single with ⟨_, rfl⟩
      rcases answer with error | found
      · cases herrors
      · rcases found with - | found
        · cases herrors
        · have hrecord : record = some found := (htells rfl).symm
          subst hrecord
          rcases saving with error | done
          · rcases staging with refused | done
            · refine iff_of_false ?_ (by simp)
              intro hagrees
              have happly := congrArg DriveJob.errorRuns (hagrees rfl found rfl)
              change found.errorRuns = 0 at happly
              change 0 < found.errorRuns at herrors
              exact absurd happly (Fin.pos_iff_ne_zero.mp herrors)
            · refine iff_of_true ?_ (by simp)
              simp only [recordAfter, if_true]
              exact DriveJob.agrees_none _
          · refine iff_of_true ?_ (by simp)
            simp only [recordAfter, if_true]
            exact DriveJob.agrees_toRecord _


/-!
## Runs after a start
-/

namespace Process

def Agrees (process : Process) (name : String) : Prop :=
  forall context job, process.context = some context -> job ∈ context.jobs -> job.name = name ->
    job.Agrees (process.world.store.loadJob name)

theorem agrees_iff_standing {process : Process} {name : String} (hsound : process.Sound) :
    process.Agrees name ↔ (process.standing name).Meets DriveJob.Agrees := by
  constructor
  · intro h job hjob
    rcases Option.bind_eq_some_iff.mp hjob with ⟨context, hcontext, hfound⟩
    rcases DriveContext.mem_of_job? hfound with ⟨hmem, hname⟩
    exact h context job hcontext hmem hname
  · intro h context job hcontext hmem hname
    refine h job ?_
    subst hname
    rw [standing, hcontext]
    exact (hsound context hcontext).job?_of_mem hmem

end Process

/-- The start of a name decides whether its job agrees with its record. -/
theorem StartsContext.agrees_iff {registry : Registry} {settings : DriveSettings}
    {deeds : List Deed} {begun : Option DriveContext} {name : String}
    {record later : Option JobRecord} (hdistinct : registry.Distinct)
    (h : StartsContext registry settings deeds begun) (hpath : RecordPath name record deeds later)
    (hloads : forall owner error, .recordLoaded owner (.error error) ∉ deeds) :
    Standing.Meets DriveJob.Agrees ⟨begun.bind (·.job? name), later⟩ ↔
      ¬ ((exists error, .purged .staging name (.error error) ∈ deeds) ∧
        exists saved error, .recordSaved name saved (.error error) ∈ deeds) := by
  have hportion := h.portion name hdistinct
  generalize (begun.bind (·.job? name)) = job at hportion
  generalize (registry.watchedNames.find? fun owner => owner = name) = watched at hportion
  cases hportion with
  | absent hforeign =>
      apply iff_of_true
      · intro job hjob
        cases hjob
      · rintro ⟨⟨error, hpurge⟩, _⟩
        exact hforeign _ hpurge rfl rfl
  | @present owner job before own after hbefore hown hafter =>
      rcases hown with ⟨rfl, hstarts⟩
      -- A deed that concerns the name stands in its own share.
      have hmem : forall deed : Deed, ¬ deed.Foreign settings.notifyCommand owner ->
          (deed ∈ before ++ (own ++ after) ↔ deed ∈ own) := by
        intro deed hconcerns
        rw [List.mem_append, List.mem_append]
        constructor
        · rintro (hdeed | hdeed | hdeed)
          · exact absurd (hbefore deed hdeed) hconcerns
          · exact hdeed
          · exact absurd (hafter deed hdeed) hconcerns
        · intro hdeed
          exact Or.inr (Or.inl hdeed)
      rcases hpath.split with ⟨mid, hbeforePath, hpath⟩
      rcases hpath.split with ⟨made, hownPath, hafterPath⟩
      rw [hafterPath.of_foreign hafter]
      have hload : forall error, Deed.recordLoaded owner (.error error) ∈
          before ++ (own ++ after) ↔ Deed.recordLoaded owner (.error error) ∈ own :=
        fun error => hmem _ fun hforeign => hforeign rfl
      have hiff := hstarts.agrees_iff hownPath
        fun error hown => hloads owner error ((hload error).mpr hown)
      have hpurge : forall error, Deed.purged .staging owner (.error error) ∈
          before ++ (own ++ after) ↔ Deed.purged .staging owner (.error error) ∈ own :=
        fun error => hmem _ fun hforeign => hforeign rfl rfl
      have hsave : forall saved error, Deed.recordSaved owner saved (.error error) ∈
          before ++ (own ++ after) ↔ Deed.recordSaved owner saved (.error error) ∈ own :=
        fun saved error => hmem _ fun hforeign => hforeign rfl
      simp only [hpurge, hsave, ← hiff]
      constructor
      · intro hagrees
        exact hagrees job rfl
      · intro hagrees other hother
        cases hother
        exact hagrees

/-- After a start whose loads succeed, the job of a name agrees with the store for as long
as the process lives, whatever the store refuses, unless the start was refused both the
removal of what was staged for the name and the save of its fresh record. -/
theorem agrees_after_start_iff {origin started : Process} {registry : Registry}
    {settings : DriveSettings} {trace : List Happening} {name : String}
    (hdistinct : registry.Distinct)
    (hstart : Run origin [.start registry settings] trace started)
    (hloads : forall setup owner error, ⟨setup, .recordLoaded owner (.error error)⟩ ∉ trace) :
    (forall calls more later, Run started calls more later ->
        (forall call, call ∈ calls -> call.isStart = false) -> later.Agrees name) ↔
      ¬ ((exists setup error, ⟨setup, .purged .staging name (.error error)⟩ ∈ trace) ∧
        exists setup saved error, ⟨setup, .recordSaved name saved (.error error)⟩ ∈ trace) := by
  rcases hstart.of_start with ⟨deeds, rfl, hstarts, hpath⟩
  have hsound : started.Sound := hstart.sound_of_start hdistinct
  have hiff := hstarts.agrees_iff hdistinct (hpath name)
    fun owner error hload => hloads _ owner error (mem_trace.mpr ⟨rfl, hload⟩)
  simp only [mem_trace, exists_eq_left, exists_and_left]
  rw [← hiff]
  constructor
  · intro hagrees
    have hnow := hagrees [] [] started Run.refl fun call hcall => absurd hcall List.not_mem_nil
    exact (Process.agrees_iff_standing hsound).mp hnow
  · intro hagrees calls more later hrun hstays
    rcases hrun.strand_of_stays name hsound hstays with ⟨hlater, hstrand⟩
    rw [Process.agrees_iff_standing hlater]
    exact hstrand.induct (fun _ _ _ _ _ hturn hpath hholds =>
      tracks_agrees.turn hturn hpath (fun hrestarts => by cases hrestarts) hholds) hagrees

/-- A process that is to be started, in a world whose store has a record with errors and
refuses some requests. -/
def lapsed (refuses : Request -> Bool) : Process where
  world :=
    { Rehearsal.atRest (MemoryStore.empty.saveJob "a" { name := "a", errorRuns := 3 }) with
      refuses := fun _ request => refuses request }
  context := none

def lapsedTrace (staging saving : Except StoreError Unit) : List Happening :=
  [.recordLoaded "a" (.ok (some { name := "a", errorRuns := 3 })),
    .purged .staging "a" staging, .purged .challenges "a" (.ok ()),
    .recordSaved "a" { name := "a" } saving, .listed .challenges (.ok [])].map
      (Happening.mk ⟨Registry.single "a" .incomplete, {}⟩)

theorem agrees_after_one_refusal :
    exists trace started,
      Run (lapsed fun request => request = .purge .staging "a")
        [.start (Registry.single "a" .incomplete) {}] trace started ∧
      forall calls more later, Run started calls more later ->
        (forall call, call ∈ calls -> call.isStart = false) -> later.Agrees "a" := by
  have hplay : ((lapsed fun request => request = .purge .staging "a").play
      [.start (Registry.single "a" .incomplete) {}]).map (fun played => ((), played.2)) =
        .ok ((), lapsedTrace (.error (.unavailable (.purge .staging "a"))) (.ok ())) := by
    cbv
  rcases Process.run_of_play (fun _ => ()) hplay with ⟨started, hrun, _⟩
  refine ⟨_, started, hrun, ?_⟩
  apply (agrees_after_start_iff (Registry.single_distinct "a" .incomplete) hrun ?_).mpr
  · simp [lapsedTrace]
  · simp [lapsedTrace]

/-- A start that is refused both the removal and the save takes up a fresh job, and the
store goes on to hold the record with errors. -/
theorem disagrees_after_two_refusals :
    exists trace started,
      Run (lapsed fun request => request = .purge .staging "a" ∨ request = .save "a")
        [.start (Registry.single "a" .incomplete) {}] trace started ∧
      (forall setup owner error, ⟨setup, .recordLoaded owner (.error error)⟩ ∉ trace) ∧
      ¬ started.Agrees "a" := by
  let observe (process : Process) : Option (List DriveJob) × Option JobRecord :=
    (process.context.map (·.jobs), process.world.store.loadJob "a")
  have hplay : ((lapsed fun request => request = .purge .staging "a" ∨ request = .save "a").play
      [.start (Registry.single "a" .incomplete) {}]).map
        (fun played => (observe played.1, played.2)) =
        .ok ((some [{ DriveJob.fresh "a" with resetStaging := true }],
            some { name := "a", errorRuns := 3 }),
          lapsedTrace (.error (.unavailable (.purge .staging "a")))
            (.error (.unavailable (.save "a")))) := by
    cbv
  rcases Process.run_of_play observe hplay with ⟨started, hrun, hseen⟩
  simp only [observe, Prod.mk.injEq, Option.map_eq_some_iff] at hseen
  rcases hseen with ⟨⟨context, hcontext, hjobs⟩, hrecord⟩
  refine ⟨_, started, hrun, ?_, ?_⟩
  · simp [lapsedTrace]
  · intro hagrees
    have hjob := hagrees context { DriveJob.fresh "a" with resetStaging := true } hcontext
      (by simp [hjobs]) rfl
    have happly := hjob rfl _ hrecord
    have herrors : (3 : ErrorCount) = 0 := congrArg DriveJob.errorRuns happly
    cases herrors

end RenewalDrive
