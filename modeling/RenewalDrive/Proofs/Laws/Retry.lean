import Mathlib
import RenewalDrive.Proofs.Run.Record

/-!
# Saves that are tried again

A job that could not be saved stays marked as changed, and the next evaluation of it saves
it once more. Nothing else does: a regular call of the watchdog evaluates the jobs that are
due, and a marked job that is not due is still marked after the call, even if the store
takes everything that it is given.
-/

namespace RenewalDrive

open Deed

/-!
## Evaluations in a trace
-/

namespace Deed

/-- The deed looks for the credentials of a name, as every evaluation of a watched name does
that is due, and nothing else. -/
def looks (name : String) : Deed -> Bool
  | .credentialLoaded other _ => other = name
  | _ => false

theorem Foreign.looks_eq {command : Option String} {name : String} {deed : Deed}
    (h : deed.Foreign command name) : deed.looks name = false := by
  cases deed with
  | credentialLoaded other answer =>
      exact decide_eq_false h
  | _ =>
      rfl

theorem AllForeign.looks_eq {command : Option String} {name : String} {deeds : List Deed}
    (h : AllForeign command name deeds) : deeds.any (looks name) = false := by
  rw [List.any_eq_false]
  intro deed hdeed
  rw [(h deed hdeed).looks_eq]
  exact Bool.false_ne_true

end Deed

def evaluated (name : String) (trace : List Happening) : Bool :=
  trace.any fun happening => happening.deed.looks name

theorem evaluated_map (name : String) (setup : Setup) (deeds : List Deed) :
    evaluated name (deeds.map (Happening.mk setup)) = deeds.any (looks name) := by
  rw [evaluated, List.any_map]
  rfl

/-!
## Marks after a turn
-/

section

variable {registry : Registry} {job : DriveJob} {deeds : List Deed}

theorem Reloads.looks_eq {loaded : DriveJob} (h : Reloads job deeds loaded) (name : String) :
    deeds.any (looks name) = false := by
  cases h with
  | kept _ =>
      rfl
  | asked _ _ =>
      rfl

theorem Reloads.dirty_eq {loaded : DriveJob} (h : Reloads job deeds loaded) :
    loaded.dirty = job.dirty := by
  cases h with
  | kept _ =>
      rfl
  | asked answer hclean =>
      rw [hclean]
      exact (Reloads.asked answer hclean).clean hclean

theorem EvaluatesDue.looks_eq {now : Instant} {evaluated : DriveJob}
    (h : EvaluatesDue registry job now deeds evaluated)
    (hwatched : registry.contains job.name = true) : deeds.any (looks job.name) = true := by
  cases h with
  | @phases _ _ _ _ inspecting _ _ _ hinspects _ _ _ =>
      rw [List.any_append]
      have hlooks : inspecting.any (looks job.name) = true := by
        unfold Registry.contains at hwatched
        generalize hget : registry.get? job.name = configured at hinspects hwatched
        cases hinspects with
        | unmanaged =>
            cases hwatched
        | managed domain answer =>
            simpa [looks] using Registry.name_of_get? hget
      rw [hlooks, Bool.true_or]

theorem Evaluates.dirty_eq {evaluated : DriveJob} {verdict : Evaluation}
    (h : Evaluates registry job deeds verdict evaluated)
    (hwatched : registry.contains job.name = true) (hsaves : SavesSucceed job.name deeds) :
    evaluated.dirty = (job.dirty && !deeds.any (looks job.name)) := by
  cases h with
  | notDue now hloads _ =>
      rw [List.any_append, hloads.looks_eq, hloads.dirty_eq]
      exact (Bool.and_true _).symm
  | @due loading rest loaded evaluated now hloads _ hevaluates =>
      rw [← hloads.name_eq] at hwatched hsaves ⊢
      have hclean : evaluated.dirty = false := by
        apply hevaluates.clean
        intro record error hsave
        exact hsaves record error (List.mem_append_right _ (List.mem_cons_of_mem _ hsave))
      rw [hclean, List.any_append, List.any_cons, hevaluates.looks_eq hwatched]
      simp

end

section

variable {name : String} {setup : Setup} {job later : Option DriveJob} {deeds : List Deed}

theorem Delivers.looks_eq {command : Option String} {names : List String} {delivered : Bool}
    (h : Delivers command names deeds delivered) : deeds.any (looks name) = false := by
  cases h with
  | silent _ =>
      rfl
  | ran _ _ _ =>
      rfl
  | failed _ _ _ =>
      rfl

theorem Turn.dirty_eq (h : Turn name false setup job deeds later)
    (hwatched : setup.registry.contains name = true) (hsaves : SavesSucceed name deeds) :
    later.any (·.dirty) = (job.any (·.dirty) && !deeds.any (looks name)) := by
  cases h with
  | foreign hforeign =>
      rw [hforeign.looks_eq, Bool.not_false, Bool.and_true]
  | dropped hrestarts =>
      cases hrestarts
  | started hrestarts _ =>
      cases hrestarts
  | evaluated hname hevaluates =>
      subst hname
      exact hevaluates.dirty_eq hwatched hsaves
  | @announced names delivering between now job answer _ _ hdelivers _ hforeign =>
      rcases answer with error | done
      · exact absurd (by simp) (hsaves job.announced.toRecord error)
      · rw [List.any_append, List.any_append, hdelivers.looks_eq, hforeign.looks_eq]
        exact (Bool.and_true _).symm

theorem Turns.dirty_eq (h : Turns name false setup job deeds later)
    (hwatched : setup.registry.contains name = true) (hsaves : SavesSucceed name deeds) :
    later.any (·.dirty) = (job.any (·.dirty) && !deeds.any (looks name)) := by
  induction h with
  | nil _ =>
      exact (Bool.and_true _).symm
  | cons hturn _ ih =>
      have hfirst := hturn.dirty_eq hwatched fun record error hsave =>
        hsaves record error (List.mem_append_left _ hsave)
      have hrest := ih fun record error hsave =>
        hsaves record error (List.mem_append_right _ hsave)
      rw [hrest, hfirst, List.any_append, Bool.not_or, Bool.and_assoc]

end

/-!
## What a start would find
-/

namespace DriveJob

def Recorded (job : DriveJob) (record : Option JobRecord) : Prop :=
  ((fresh job.name).reloaded (.ok record)).toRecord = job.toRecord

/-- The job is marked as changed, or a start would find what it holds. -/
def Covered (job : DriveJob) (record : Option JobRecord) : Prop :=
  job.dirty = true ∨ job.Recorded record

/-- The job is due at any time, and has a record that it may not have been told. -/
def Untold (job : DriveJob) (record : Option JobRecord) : Prop :=
  job.nextRun = none ∧ record ≠ none

theorem covered_or_untold_of_blank {job : DriveJob} (h : (fresh job.name).toRecord = job.toRecord)
    (record : Option JobRecord) : job.Covered record ∨ job.Untold record := by
  cases record with
  | none =>
      exact Or.inl (Or.inr h)
  | some found =>
      exact Or.inr ⟨(congrArg JobRecord.nextRun h).symm, Option.some_ne_none found⟩

end DriveJob

theorem tracks_covered : Tracks DriveJob.Covered where
  dirty := fun _ _ hdirty => Or.inl hdirty
  loaded := fun _ _ => Or.inr rfl
  saved := fun _ => Or.inr rfl

theorem tracks_covered_or_untold :
    Tracks fun job record => job.Covered record ∨ job.Untold record where
  dirty := fun job record hdirty => Or.inl (tracks_covered.dirty job record hdirty)
  loaded := fun job found => Or.inl (tracks_covered.loaded job found)
  saved := fun job => Or.inl (tracks_covered.saved job)

section

variable {name : String} {record later : Option JobRecord} {job : DriveJob} {deeds : List Deed}

/-- A start leaves a job uncovered only when it was not told the record or could not remove
it, and then the job is due at any time. -/
theorem Starts.covered_or_untold (h : Starts name deeds job)
    (hpath : RecordPath name record deeds later) : job.Covered later ∨ job.Untold later := by
  cases h with
  | resumed answer _ =>
      rcases hpath.of_single with ⟨htells, hlater⟩
      rcases answer with error | found
      · exact DriveJob.covered_or_untold_of_blank rfl later
      · have hfound : later = found := hlater.trans (htells rfl).symm
        subst hfound
        rcases later with - | found
        · exact DriveJob.covered_or_untold_of_blank rfl none
        · exact tracks_covered_or_untold.loaded _ found
  | recovered answer staging challenges saving _ =>
      rcases saving with error | done
      · exact DriveJob.covered_or_untold_of_blank rfl later
      · rcases hpath.of_cons with ⟨_, hpath⟩
        rcases hpath.of_cons with ⟨_, hpath⟩
        rcases hpath.of_cons with ⟨_, hpath⟩
        cases hpath.of_single.2
        rw [recordAfter, if_pos rfl]
        exact Or.inl (Or.inr rfl)

theorem Reloads.covered {loaded : DriveJob} (h : Reloads job deeds loaded)
    (hname : job.name = name) (hpath : RecordPath name record deeds later)
    (hloads : forall error, .recordLoaded name (.error error) ∉ deeds)
    (hjob : job.Covered record ∨ job.Untold record) : loaded.Covered later := by
  subst hname
  cases h with
  | kept hdirty =>
      exact Or.inl hdirty
  | asked answer _ =>
      rcases hpath.of_single with ⟨htells, hlater⟩
      rcases answer with error | found
      · exact absurd List.mem_cons_self (hloads error)
      · have hfound : later = found := hlater.trans (htells rfl).symm
        subst hfound
        rcases later with - | found
        · cases hlater
          exact hjob.resolve_right fun huntold => huntold.2 rfl
        · exact tracks_covered.loaded job found

/-- A round covers every job, as long as no load is refused: a job that is not covered is
due, and an evaluation begins with a load. -/
theorem Visits.covered {registry : Registry} {visited : DriveJob}
    (h : Visits registry job deeds visited) (hname : job.name = name)
    (hpath : RecordPath name record deeds later)
    (hloads : forall error, .recordLoaded name (.error error) ∉ deeds)
    (hjob : job.Covered record ∨ job.Untold record) : visited.Covered later := by
  cases h with
  | early now hdue =>
      cases hpath.of_single.2
      refine hjob.resolve_right fun huntold => ?_
      rw [DriveJob.isDue, huntold.1] at hdue
      cases hdue
  | evaluated now _ hevaluates =>
      have hpath := hpath.of_cons.2
      cases hevaluates with
      | notDue now hreloads _ =>
          rcases hpath.split with ⟨mid, hloading, hreading⟩
          cases hreading.of_single.2
          refine hreloads.covered hname hloading (fun error hload => hloads error ?_) hjob
          exact List.mem_cons_of_mem _ (List.mem_append_left _ hload)
      | @due loading rest loaded _ now hreloads _ hdue =>
          rcases hpath.split with ⟨mid, hloading, hpath⟩
          refine hdue.keeps (tracks_covered.keeps name) (hreloads.name_eq.trans hname)
            hpath.of_cons.2 (fun _ _ _ _ => trivial) (fun _ _ => trivial) ?_
          refine hreloads.covered hname hloading (fun error hload => hloads error ?_) hjob
          exact List.mem_cons_of_mem _ (List.mem_append_left _ hload)

/-!
## Visits that evaluate
-/

theorem Visits.looks_of_due {registry : Registry} {visited : DriveJob}
    (h : Visits registry job deeds visited) (hdirty : job.dirty = true)
    (hwatched : registry.contains job.name = true)
    (hdue : forall now, .clockRead now ∈ deeds -> job.isDue now = true) :
    deeds.any (looks job.name) = true := by
  cases h with
  | early now hearly =>
      rw [hdue now List.mem_cons_self] at hearly
      cases hearly
  | evaluated now _ hevaluates =>
      cases hevaluates with
      | notDue now hreloads hearly =>
          have hkept : visited = job := by
            cases hreloads with
            | kept _ =>
                rfl
            | asked _ hclean =>
                rw [hdirty] at hclean
                cases hclean
          rw [hkept, hdue now (by simp)] at hearly
          cases hearly
      | due now hreloads _ hevaluates =>
          rw [← hreloads.name_eq] at hwatched ⊢
          rw [List.any_cons, List.any_append, List.any_cons, hevaluates.looks_eq hwatched]
          simp

theorem Visits.due_of_looks {registry : Registry} {visited : DriveJob}
    (h : Visits registry job deeds visited) (hlooks : deeds.any (looks name) = true) :
    exists now, .clockRead now ∈ deeds ∧ job.isDue now = true := by
  cases h with
  | early _ _ =>
      cases hlooks
  | evaluated now hdue _ =>
      exact ⟨now, List.mem_cons_self, hdue⟩

end

/-!
## Regular calls
-/

section

variable {context later : DriveContext} {deeds : List Deed} {name : String}

theorem Notifies.looks_eq {report : NoticeReport} (h : Notifies context deeds report later) :
    deeds.any (looks name) = false := by
  cases h with
  | pass now hannounces =>
      rw [List.any_cons]
      cases hannounces with
      | idle _ =>
          rfl
      | failed _ hdelivers =>
          rw [hdelivers.looks_eq]
          rfl
      | @delivered _ marking _ _ hdelivers hmarks =>
          have hmarking : marking.any (looks name) = false := by
            rw [List.any_eq_false]
            apply hmarks.all
            intro job own marked hmark
            cases hmark with
            | passed _ =>
                exact List.forall_mem_nil _
            | marked _ _ =>
                exact List.forall_mem_singleton.mpr Bool.false_ne_true
          rw [List.any_append, hdelivers.looks_eq, hmarking]
          rfl

theorem Rounds.visit {wait : Span} {job : DriveJob} (hsound : context.Sound)
    (hjob : context.job? name = some job) (h : Rounds context deeds wait later) :
    exists before own after visited, deeds = before ++ (own ++ after) ∧
      AllForeign context.settings.notifyCommand name before ∧
      Visits context.registry job own visited ∧
      AllForeign context.settings.notifyCommand name after ∧
      later.job? name = some visited := by
  have hportion := h.portion name hsound
  rw [hjob] at hportion
  generalize later.job? name = result at hportion
  cases hportion with
  | @present _ visited before own after hbefore hown hafter =>
      exact ⟨before, own, after, visited, rfl, hbefore, hown.2, hafter, rfl⟩

theorem Ticks.exists_before {state : WatchState} {interval : Option Span} {job : DriveJob}
    (hsound : context.Sound) (h : Ticks context state deeds interval later)
    (hjob : job ∈ later.jobs) : exists before, before ∈ context.jobs ∧ before.name = job.name := by
  have hregistry : later.registry = context.registry := congrArg Setup.registry h.setup_eq
  have hname : job.name ∈ context.jobs.map (·.name) := by
    rw [hsound.names, ← hregistry, ← (h.sound hsound).names]
    exact List.mem_map_of_mem hjob
  exact List.mem_map.mp hname

theorem Ticks.clean_iff {state : WatchState} {interval : Option Span} (hsound : context.Sound)
    (h : Ticks context state deeds interval later)
    (hsaves : forall name, SavesSucceed name deeds) :
    (forall job, job ∈ later.jobs -> job.dirty = false) ↔
      forall job, job ∈ context.jobs -> job.dirty = true ->
        deeds.any (looks job.name) = true := by
  have hmarks : forall job, job ∈ context.jobs ->
      (later.job? job.name).any (·.dirty) = (job.dirty && !deeds.any (looks job.name)) := by
    intro job hjob
    have hturns : Turns job.name false context.setup (context.job? job.name) deeds
        (later.job? job.name) := h.turns hsound
    rw [hsound.job?_of_mem hjob] at hturns
    exact hturns.dirty_eq (hsound.watched hjob) (hsaves job.name)
  constructor
  · intro hclean job hjob hdirty
    have hmark := hmarks job hjob
    have hafter : (later.job? job.name).any (·.dirty) = false := by
      cases hfound : later.job? job.name with
      | none =>
          rfl
      | some after =>
          exact hclean after (DriveContext.mem_of_job? hfound).1
    rw [hafter, hdirty, Bool.true_and] at hmark
    simpa using hmark
  · intro hlooks job hjob
    rcases h.exists_before hsound hjob with ⟨before, hmem, hname⟩
    have hmark := hmarks before hmem
    rw [hname, (h.sound hsound).job?_of_mem hjob, Option.any_some, ← hname] at hmark
    rw [hmark]
    cases hdirty : before.dirty with
    | false =>
        rfl
    | true =>
        rw [hlooks before hmem hdirty]
        rfl

theorem Ticks.covered {interval : Option Span} {record final : Option JobRecord} {job : DriveJob}
    (hsound : context.Sound) (h : Ticks context .running deeds interval later)
    (hpath : RecordPath name record deeds final)
    (hloads : forall error, .recordLoaded name (.error error) ∉ deeds)
    (hjob : context.job? name = some job) (hcovered : job.Covered record ∨ job.Untold record) :
    Standing.Meets DriveJob.Covered ⟨later.job? name, final⟩ := by
  cases h with
  | @running rounding announcing wait report mid later hrounds hnotifies =>
      rcases hrounds.visit hsound hjob with
        ⟨before, own, after, visited, rfl, hbefore, hvisits, hafter, hvisited⟩
      rcases hpath.split with ⟨noted, hpath, hannouncing⟩
      rcases hpath.split with ⟨passed, hpassing, hpath⟩
      rcases hpath.split with ⟨made, howning, hresting⟩
      cases hpassing.of_foreign hbefore
      cases hresting.of_foreign hafter
      have hmid : Standing.Meets DriveJob.Covered ⟨mid.job? name, noted⟩ := by
        intro other hother
        rw [hvisited] at hother
        cases hother
        refine hvisits.covered (DriveContext.mem_of_job? hjob).2 howning ?_ hcovered
        intro error hload
        exact hloads error (by simp [hload])
      have hturns : Turns name false mid.setup (mid.job? name) announcing (later.job? name) :=
        hnotifies.turns (hrounds.sound hsound)
      exact (Strand.of_turns hturns hannouncing).induct (fun _ _ _ _ _ hturn hpath hmeets =>
        tracks_covered.turn hturn hpath (fun hrestarts => by cases hrestarts) hmeets) hmid

theorem Ticks.looks_iff {interval : Option Span} {job : DriveJob} (hsound : context.Sound)
    (h : Ticks context .running deeds interval later) (hjob : context.job? name = some job)
    (hdirty : job.dirty = true) (hwatched : context.registry.contains name = true) :
    ((forall now, .clockRead now ∈ deeds -> job.isDue now = true) ->
        deeds.any (looks name) = true) ∧
      (deeds.any (looks name) = true ->
        exists now, .clockRead now ∈ deeds ∧ job.isDue now = true) := by
  have hname : job.name = name := (DriveContext.mem_of_job? hjob).2
  subst hname
  cases h with
  | @running rounding announcing wait report mid later hrounds hnotifies =>
      rcases hrounds.visit hsound hjob with
        ⟨before, own, after, visited, rfl, hbefore, hvisits, hafter, _⟩
      have hlooks : (before ++ (own ++ after) ++ announcing).any (looks job.name) =
          own.any (looks job.name) := by
        simp [List.any_append, hbefore.looks_eq, hafter.looks_eq, hnotifies.looks_eq]
      have howned : forall deed, deed ∈ own -> deed ∈ before ++ (own ++ after) ++ announcing := by
        intro deed hdeed
        simp [hdeed]
      rw [hlooks]
      constructor
      · intro hdue
        exact hvisits.looks_of_due hdirty hwatched fun now hnow => hdue now (howned _ hnow)
      · intro hlooked
        rcases hvisits.due_of_looks hlooked with ⟨now, hnow, hdue⟩
        exact ⟨now, howned _ hnow, hdue⟩

end

/-- In every state that a drive reaches, the jobs are covered or untold. -/
theorem Run.covered_or_untold {origin process : Process} {calls : List Call}
    {trace : List Happening} (name : String) (hfresh : origin.context = none)
    (hrun : Run origin calls trace process)
    (hdistinct : forall call, call ∈ calls -> call.Distinct) :
    process.Sound ∧
      (process.standing name).Meets fun job record => job.Covered record ∨ job.Untold record := by
  rcases hrun.strand name true (Process.sound_of_fresh hfresh) hdistinct fun _ _ _ => rfl with
    ⟨hsound, hstrand⟩
  refine ⟨hsound, hstrand.induct ?_ ?_⟩
  · intro standing mid setup deeds _ hturn hpath hmeets
    exact tracks_covered_or_untold.turn hturn hpath
      (fun _ job hstarts => hstarts.covered_or_untold hpath) hmeets
  · intro job hjob
    rw [Process.standing, hfresh] at hjob
    cases hjob

/-- After a regular call in which the store refuses nothing, no job is marked as changed just
when every job that was marked is evaluated in the call, and a start would find what the
unmarked jobs hold. A marked job is evaluated if it is due whenever the clock is read, and
only if it is due at some reading. -/
theorem retried_at_tick_iff {origin process later : Process} {calls : List Call}
    {trace tick : List Happening} {earlier context : DriveContext}
    (hfresh : origin.context = none) (hrun : Run origin calls trace process)
    (hdistinct : forall call, call ∈ calls -> call.Distinct)
    (hearlier : process.context = some earlier) (htick : Run process [.tick .running] tick later)
    (hlater : later.context = some context)
    (hstore : forall happening, happening ∈ tick -> happening.deed.refused = false) :
    ((forall job, job ∈ context.jobs -> job.dirty = false) ↔
      forall job, job ∈ earlier.jobs -> job.dirty = true -> evaluated job.name tick = true) ∧
    (forall job, job ∈ context.jobs -> job.dirty = false ->
      job.Recorded (later.world.store.loadJob job.name)) ∧
    forall job, job ∈ earlier.jobs -> job.dirty = true ->
      ((forall setup now, ⟨setup, .clockRead now⟩ ∈ tick -> job.isDue now = true) ->
        evaluated job.name tick = true) ∧
      (evaluated job.name tick = true ->
        exists setup now, ⟨setup, .clockRead now⟩ ∈ tick ∧ job.isDue now = true) := by
  have hreached := fun name => hrun.covered_or_untold name hfresh hdistinct
  have hsound : earlier.Sound := (hreached "").1 earlier hearlier
  rcases htick.of_single with ⟨setup, deeds, _, rfl, hperforms, hpath⟩
  rw [hearlier, hlater] at hperforms
  cases hperforms with
  | tick hticks =>
      have hlaterSound : context.Sound := hticks.sound hsound
      have hrefused : forall deed, deed ∈ deeds -> deed.refused = false :=
        fun deed hdeed => hstore ⟨setup, deed⟩ (List.mem_map_of_mem hdeed)
      simp only [evaluated_map, mem_trace]
      refine ⟨?_, ?_, ?_⟩
      · apply hticks.clean_iff hsound
        intro name record error hsave
        cases hrefused _ hsave
      · intro job hjob hclean
        rcases hticks.exists_before hsound hjob with ⟨before, hmem, hname⟩
        have hbefore : earlier.job? job.name = some before := by
          rw [← hname]
          exact hsound.job?_of_mem hmem
        have hcovered : before.Covered (process.world.store.loadJob job.name) ∨
            before.Untold (process.world.store.loadJob job.name) := by
          apply (hreached job.name).2
          rw [Process.standing, hearlier]
          exact hbefore
        have hloads : forall error, Deed.recordLoaded job.name (.error error) ∉ deeds := by
          intro error hload
          cases hrefused _ hload
        have hafter := hticks.covered hsound (hpath job.name) hloads hbefore hcovered
        rcases hafter job (hlaterSound.job?_of_mem hjob) with hdirty | hrecorded
        · rw [hclean] at hdirty
          cases hdirty
        · exact hrecorded
      · intro job hjob hdirty
        rcases hticks.looks_iff hsound (hsound.job?_of_mem hjob) hdirty (hsound.watched hjob) with
          ⟨hdue, hlooked⟩
        constructor
        · intro hreadings
          exact hdue fun now hnow => hreadings setup now ⟨rfl, hnow⟩
        · intro hlooks
          rcases hlooked hlooks with ⟨now, hnow, hdueNow⟩
          exact ⟨setup, now, ⟨rfl, hnow⟩, hdueNow⟩

/-- A process that is to be started, in a world whose next attempt completes and whose store
takes no record at first. -/
def hindered (staged : Instant) : Process where
  world :=
    { Rehearsal.atRest MemoryStore.empty with
      scripts := [⟨none, .complete staged, .zero⟩]
      refuses := fun moment request => request = .save "a" && moment < 12 }
  context := none

def hinderedDeeds (staged : Instant) (saved : JobRecord) (announcing : List Deed) : List Deed :=
  .recordLoaded "a" (.ok none) :: .listed .challenges (.ok []) :: .clockRead .epoch ::
    .clockRead .epoch :: .recordLoaded "a" (.ok none) :: .clockRead .epoch ::
    .credentialLoaded "a" (.ok none) ::
    .attempted ⟨"a", .incomplete, .auto, .default, none⟩ false (.complete staged) .zero ::
    .clockRead .epoch :: .recordSaved "a" saved (.error (.unavailable (.save "a"))) ::
    .clockRead .epoch :: .clockRead .epoch :: announcing

def Process.nextTick (process : Process) :
    Option (List DriveJob) × Except Halt (Option (List DriveJob) × List Happening) :=
  (process.context.map (·.jobs),
    (process.play [.tick .running]).map fun played =>
      (played.1.context.map (·.jobs), played.2))

theorem Process.run_of_nextTick {process : Process} {jobs jobs' : List DriveJob}
    {tick : List Happening} (h : process.nextTick = (some jobs, .ok (some jobs', tick))) :
    exists later earlier context, process.context = some earlier ∧ earlier.jobs = jobs ∧
      Run process [.tick .running] tick later ∧ later.context = some context ∧
      context.jobs = jobs' := by
  rcases Prod.mk.inj h with ⟨hearlier, hplay⟩
  rcases Option.map_eq_some_iff.mp hearlier with ⟨earlier, hcontext, hjobs⟩
  rcases Process.run_of_play (fun later => later.context.map (·.jobs)) hplay with
    ⟨later, hrun, hlater⟩
  rcases Option.map_eq_some_iff.mp hlater with ⟨context, hlaterContext, hjobs'⟩
  exact ⟨later, earlier, context, hcontext, hjobs, hrun, hlaterContext, hjobs'⟩

theorem retried_at_tick_when_due :
    exists trace process tick later earlier context,
      Run (hindered .epoch) [.start (Registry.single "a" .incomplete) {}, .tick .running] trace
        process ∧
      process.context = some earlier ∧ (exists job, job ∈ earlier.jobs ∧ job.dirty = true) ∧
      Run process [.tick .running] tick later ∧ later.context = some context ∧
      forall job, job ∈ context.jobs -> job.dirty = false ∧
        job.Recorded (later.world.store.loadJob job.name) := by
  let finished : DriveJob :=
    { DriveJob.fresh "a" with finished := true, validFrom := some .epoch, dirty := true }
  let tick : List Happening :=
    [.clockRead .epoch, .clockRead .epoch, .clockRead .epoch, .credentialLoaded "a" (.ok none),
      .recordSaved "a" finished.announced.toRecord (.ok ()), .clockRead .epoch,
      .clockRead .epoch].map (Happening.mk ⟨Registry.single "a" .incomplete, {}⟩)
  have hplay : ((hindered .epoch).play
      [.start (Registry.single "a" .incomplete) {}, .tick .running]).map
        (fun played => (played.1.nextTick, played.2)) =
      .ok ((some [finished.announced],
          .ok (some [{ finished.announced with dirty := false }], tick)),
        (hinderedDeeds .epoch finished.toRecord
          [.recordSaved "a" finished.announced.toRecord (.ok ())]).map
            (Happening.mk ⟨Registry.single "a" .incomplete, {}⟩)) := by
    cbv
  rcases Process.run_of_play Process.nextTick hplay with ⟨process, hrun, hnext⟩
  rcases Process.run_of_nextTick hnext with
    ⟨later, earlier, context, hearlier, hjobs, htick, hlater, hjobs'⟩
  have hretried := retried_at_tick_iff rfl hrun
    (by simp [Call.Distinct, Registry.Distinct, Registry.single_distinct]) hearlier htick hlater
    (by decide)
  have hclean : forall job, job ∈ context.jobs -> job.dirty = false := by
    apply hretried.1.mpr
    rw [hjobs]
    exact List.forall_mem_singleton.mpr fun _ => rfl
  refine ⟨_, process, tick, later, earlier, context, hrun, hearlier, ?_, htick, hlater, ?_⟩
  · rw [hjobs]
    exact ⟨finished.announced, List.mem_singleton_self _, rfl⟩
  · intro job hjob
    exact ⟨hclean job hjob, hretried.2.1 job hjob (hclean job hjob)⟩

def Instant.awaited : Instant :=
  ⟨100, 0, by decide⟩

/-- A job that waits for its credentials to become valid is not evaluated, so it stays marked
through a call in which the store refuses nothing. -/
theorem unsaved_while_not_due :
    exists trace process tick later context job,
      Run (hindered .awaited) [.start (Registry.single "a" .incomplete) {}, .tick .running] trace
        process ∧
      Run process [.tick .running] tick later ∧
      (forall happening, happening ∈ tick -> happening.deed.refused = false) ∧
      later.context = some context ∧ job ∈ context.jobs ∧ job.dirty = true := by
  let waiting : DriveJob :=
    { DriveJob.fresh "a" with
      nextRun := some .awaited
      finished := true
      validFrom := some .awaited
      dirty := true }
  let tick : List Happening :=
    [.clockRead .epoch, .clockRead .epoch, .clockRead .epoch, .clockRead .epoch].map
      (Happening.mk ⟨Registry.single "a" .incomplete, {}⟩)
  have hplay : ((hindered .awaited).play
      [.start (Registry.single "a" .incomplete) {}, .tick .running]).map
        (fun played => (played.1.nextTick, played.2)) =
      .ok ((some [waiting], .ok (some [waiting], tick)),
        (hinderedDeeds .awaited waiting.toRecord []).map
          (Happening.mk ⟨Registry.single "a" .incomplete, {}⟩)) := by
    cbv
  rcases Process.run_of_play Process.nextTick hplay with ⟨process, hrun, hnext⟩
  rcases Process.run_of_nextTick hnext with
    ⟨later, earlier, context, _, _, htick, hlater, hjobs⟩
  refine ⟨_, process, tick, later, context, waiting, hrun, htick, by decide, hlater, ?_, rfl⟩
  rw [hjobs]
  exact List.mem_singleton_self waiting

end RenewalDrive
