import RenewalDrive.Proofs.Run.Record

/-!
# Checked counts

A host that checks its counts of errors halts where one of them would start over. Its rounds
come to the same as those of the host itself, unless a job or its record is that near to the
limit; and a round brings a job and its record nearer to the limit by one error at most.
-/

namespace RenewalDrive

open Rehearsal

/-!
## Results that differ by a halt
-/

/-- The checked result is the other one, unless a count is over its limit: then it may also be
the halt over that count. -/
def Abides {α : Type} (excess : Prop) (checked result : Except Halt α) : Prop :=
  checked = result ∨ excess ∧ checked = .error .countOutOfRange

namespace Abides

variable {σ α β : Type} {excess : Prop}

theorem refl (excess : Prop) (result : Except Halt α) : Abides excess result result :=
  Or.inl rfl

theorem mono {more : Prop} {checked result : Except Halt α} (h : Abides excess checked result)
    (hexcess : excess -> more) : Abides more checked result :=
  h.imp_right (And.imp_left hexcess)

theorem bind {checked result : Except Halt α} {checkedNext next : α -> Except Halt β}
    (h : Abides excess checked result)
    (hnext : forall a, result = .ok a -> Abides excess (checkedNext a) (next a)) :
    Abides excess (checked >>= checkedNext) (result >>= next) := by
  rcases h with rfl | ⟨hexcess, rfl⟩
  · cases checked with
    | error halt =>
        exact refl excess _
    | ok a =>
        exact hnext a rfl
  · exact Or.inr ⟨hexcess, rfl⟩

theorem run_bind {checked act : Act σ α} {checkedNext next : α -> Act σ β} {world : σ}
    (h : Abides excess (checked.run world) (act.run world))
    (hnext : forall a later, act.run world = .ok (a, later) ->
      Abides excess ((checkedNext a).run later) ((next a).run later)) :
    Abides excess ((checked >>= checkedNext).run world) ((act >>= next).run world) := by
  rw [StateT.run_bind, StateT.run_bind]
  exact h.bind fun result hresult => hnext result.1 result.2 hresult

theorem run_after {act : Act σ α} {checkedNext next : α -> Act σ β} {world : σ}
    (hnext : forall a later, act.run world = .ok (a, later) ->
      Abides excess ((checkedNext a).run later) ((next a).run later)) :
    Abides excess ((act >>= checkedNext).run world) ((act >>= next).run world) :=
  run_bind (refl excess _) hnext

end Abides

/-!
## The evaluation of a job
-/

namespace Host

variable {σ : Type} (host : Host σ)

theorem abides_count (errorRuns : ErrorCount) (world : σ) :
    Abides (errorRuns + 1 = 0) ((host.checked.count errorRuns).run world)
      ((host.count errorRuns).run world) := by
  unfold count
  split
  next hexcess =>
    exact Or.inr ⟨hexcess, rfl⟩
  next =>
    exact Abides.refl _ _

theorem abides_afterAttempt (job : DriveJob) (outcome : RenewOutcome) (now : Instant)
    (world : σ) :
    Abides (job.errorRuns + 1 = 0) ((host.checked.afterAttempt job outcome now).run world)
      ((host.afterAttempt job outcome now).run world) := by
  unfold afterAttempt
  split
  next =>
    exact Abides.refl _ _
  next =>
    apply Abides.run_after
    intro _ noted _
    apply Abides.run_bind (host.abides_count job.errorRuns noted)
    intro _ _ _
    exact Abides.refl _ _

theorem abides_pursue (job : DriveJob) (now : Instant) (course : Course) (world : σ) :
    Abides (job.errorRuns + 1 = 0) ((host.checked.pursue job now course).run world)
      ((host.pursue job now course).run world) := by
  unfold pursue
  cases course with
  | blocked =>
      apply Abides.run_bind (host.abides_count job.errorRuns world)
      intro _ _ _
      exact Abides.refl _ _
  | renew domain =>
      apply Abides.run_after
      intro _ noted _
      apply Abides.run_after
      intro outcome attempted _
      exact host.abides_afterAttempt job.attempted outcome now attempted
  | _ =>
      exact Abides.refl _ _

end Host

structure Standing.HasRoom (errors : Nat) (standing : Standing) : Prop where
  job : forall job, standing.job = some job ->
    (job.errorRuns : Nat) + errors ≤ JobRecord.errorRunsLimit
  record : forall record, standing.record = some record ->
    (record.errorRuns : Nat) + errors ≤ JobRecord.errorRunsLimit

namespace Rehearsal

open Act

variable {excess : Prop} {registry : Registry} {job : DriveJob} {world later : Rehearsal}

theorem count_ne_of_hasRoom {record : Option JobRecord}
    (h : (Standing.mk (some job) record).HasRoom 1) : job.errorRuns + 1 ≠ 0 := by
  have hlimit := h.job job rfl
  unfold JobRecord.errorRunsLimit at hlimit
  intro hexcess
  have hval := congrArg Fin.val hexcess
  rw [Fin.val_add] at hval
  change ((job.errorRuns : Nat) + 1) % 4294967296 = 0 at hval
  omega

theorem abides_evaluateDue (registry : Registry) (job : DriveJob) (now : Instant)
    (world : Rehearsal) :
    Abides (job.errorRuns + 1 = 0) ((host.checked.evaluateDue registry job now).run world)
      ((host.evaluateDue registry job now).run world) := by
  unfold Host.evaluateDue
  apply Abides.run_after
  intro domain inspected _
  split
  next =>
    apply Abides.run_after
    intro begun started hrun
    rcases yields_beginGeneration job _ _ _ hrun with ⟨_, _, _, _, rfl⟩
    apply Abides.run_bind ((host.abides_pursue job.nextGeneration now _ started).mono ?_)
    · intro _ _ _
      exact Abides.refl _ _
    · intro hexcess
      cases hexcess
  next =>
    rw [pure_bind, pure_bind]
    apply Abides.run_bind (host.abides_pursue job now _ inspected)
    intro _ _ _
    exact Abides.refl _ _

theorem abides_evaluate (hroom : ¬ excess ->
      (Standing.mk (some job) (world.store.records job.name)).HasRoom 1) :
    Abides excess ((host.checked.evaluate registry job).run world)
      ((host.evaluate registry job).run world) := by
  unfold Host.evaluate
  apply Abides.run_after
  intro loaded mid hrun
  rcases yields_reload job _ _ _ hrun with ⟨loading, hpassage, hloads⟩
  have hloaded : loaded.errorRuns + 1 = 0 -> excess := by
    intro hcount
    apply Classical.byContradiction
    intro hnot
    have hjob := hroom hnot
    rcases hloads.path rfl (recordPath_of_serves job.name hpassage.serves) with
      ⟨_, rfl | ⟨_, found, hfound, rfl⟩⟩
    · exact count_ne_of_hasRoom hjob hcount
    · have happlied : (Standing.mk (some (job.apply found))
          (world.store.records job.name)).HasRoom 1 := by
        refine ⟨?_, hjob.record⟩
        rintro _ ⟨⟩
        exact hjob.record found hfound
      exact count_ne_of_hasRoom happlied hcount
  apply Abides.run_after
  intro now read _
  split
  next =>
    apply Abides.run_bind ((abides_evaluateDue registry loaded now read).mono hloaded)
    intro _ _ _
    exact Abides.refl _ _
  next =>
    exact Abides.refl _ _

theorem records_eq_of_now {t : Instant} (h : host.now.run world = .ok (t, later)) :
    later.store.records = world.store.records := by
  cases h
  rfl

theorem abides_runJob (hroom : ¬ excess ->
      (Standing.mk (some job) (world.store.records job.name)).HasRoom 1) :
    Abides excess ((host.checked.runJob registry job).run world)
      ((host.runJob registry job).run world) := by
  unfold Host.runJob
  apply Abides.run_after
  intro now read hrun
  rw [← records_eq_of_now hrun] at hroom
  split
  next =>
    apply Abides.run_bind (abides_evaluate hroom)
    intro _ _ _
    exact Abides.refl _ _
  next =>
    exact Abides.refl _ _

theorem records_eq_of_runJob {name : String} {visited : DriveJob} (hname : job.name ≠ name)
    (h : (host.runJob registry job).run world = .ok (visited, later)) :
    later.store.records name = world.store.records name := by
  rcases yields_runJob registry job _ _ _ h with ⟨deeds, hpassage, hvisits⟩
  have hforeign : Deed.AllForeign none name deeds := hvisits.own.foreign hname
  exact (recordPath_of_serves name hpassage.serves).of_foreign hforeign

/-- The visits before the one of a job leave its record as it is. -/
theorem abides_visits {jobs : List DriveJob} (hnodup : (jobs.map (·.name)).Nodup)
    (hroom : ¬ excess -> forall job, job ∈ jobs ->
      (Standing.mk (some job) (world.store.records job.name)).HasRoom 1) :
    Abides excess ((jobs.mapM (host.checked.runJob registry)).run world)
      ((jobs.mapM (host.runJob registry)).run world) := by
  induction jobs generalizing world with
  | nil =>
      rw [List.mapM_nil, List.mapM_nil]
      exact Abides.refl _ _
  | cons job rest ih =>
      rw [List.map_cons, List.nodup_cons] at hnodup
      rw [List.mapM_cons, List.mapM_cons]
      apply Abides.run_bind (abides_runJob fun hexcess => hroom hexcess job List.mem_cons_self)
      intro visited mid hrun
      apply Abides.run_bind
      · apply ih hnodup.2
        intro hexcess other hother
        have hne : job.name ≠ other.name := fun hname =>
          hnodup.1 (hname ▸ List.mem_map_of_mem hother)
        rw [records_eq_of_runJob hne hrun]
        exact hroom hexcess other (List.mem_cons_of_mem job hother)
      · intro _ _ _
        exact Abides.refl _ _

theorem abides_runJobs {context : DriveContext} (hsound : context.Sound)
    (hroom : ¬ excess -> forall job, job ∈ context.jobs ->
      (Standing.mk (some job) (world.store.records job.name)).HasRoom 1) :
    Abides excess ((host.checked.runJobs context).run world)
      ((host.runJobs context).run world) := by
  unfold Host.runJobs
  apply Abides.run_after
  intro started read hrun
  rw [← records_eq_of_now hrun] at hroom
  apply Abides.run_bind (abides_visits hsound.nodup hroom)
  intro _ _ _
  exact Abides.refl _ _

end Rehearsal

/-!
## The room that a round leaves
-/

section

variable {errors : Nat} {name : String} {job : DriveJob} {record later : Option JobRecord}
  {deeds : List Deed}

theorem count_succ_le (count : ErrorCount) : ((count + 1 : ErrorCount) : Nat) ≤ count + 1 := by
  rw [Fin.val_add]
  exact Nat.mod_le _ _

theorem Pursues.errorRuns_le {now : Instant} {course : Course} {findings : Findings}
    (h : Pursues job now course deeds findings) :
    ((DriveJob.recorded findings).errorRuns : Nat) ≤ job.errorRuns + 1 := by
  cases h with
  | blocked =>
      exact count_succ_le job.errorRuns
  | failed _ _ _ _ _ _ =>
      exact count_succ_le job.errorRuns
  | completed _ _ _ _ _ =>
      exact Nat.zero_le _
  | _ =>
      exact Nat.le_succ _

theorem Standing.HasRoom.mono {fewer : Nat} {standing : Standing} (h : standing.HasRoom errors)
    (hle : fewer ≤ errors) : standing.HasRoom fewer :=
  ⟨fun job hjob => Nat.le_trans (Nat.add_le_add_left hle _) (h.job job hjob),
    fun record hrecord => Nat.le_trans (Nat.add_le_add_left hle _) (h.record record hrecord)⟩

theorem Reloads.hasRoom {loaded : DriveJob} (h : Reloads job deeds loaded)
    (hname : job.name = name) (hpath : RecordPath name record deeds later)
    (hroom : (Standing.mk (some job) record).HasRoom errors) :
    (Standing.mk (some loaded) later).HasRoom errors := by
  rcases h.path hname hpath with ⟨rfl, rfl | ⟨_, found, rfl, rfl⟩⟩
  · exact hroom
  · refine ⟨?_, hroom.record⟩
    rintro _ ⟨⟩
    exact hroom.record found rfl

theorem Begins.hasRoom {domain : Option ManagedDomain} {begun : DriveJob}
    (h : Begins job domain deeds begun) (hpath : RecordPath name record deeds later)
    (hroom : (Standing.mk (some job) record).HasRoom errors) :
    (Standing.mk (some begun) later).HasRoom errors := by
  rcases h.path hpath with ⟨rfl, rfl⟩ | ⟨rfl, _, hlater⟩
  · exact hroom
  · constructor
    · rintro _ ⟨⟩
      exact Nat.le_trans (Nat.add_le_add_right (Nat.zero_le _) _) (hroom.job job rfl)
    · intro found hfound
      rcases hlater with rfl | rfl
      · exact hroom.record found hfound
      · cases hfound

theorem Stores.hasRoom {recorded stored : DriveJob} (h : Stores recorded deeds stored)
    (hname : recorded.name = name) (hpath : RecordPath name record deeds later)
    (hroom : (Standing.mk (some recorded) record).HasRoom errors) :
    (Standing.mk (some stored) later).HasRoom errors := by
  have hcount := hroom.job recorded rfl
  rcases h.path hname hpath with ⟨rfl, rfl⟩ | ⟨rfl, rfl⟩
  · refine ⟨?_, hroom.record⟩
    rintro _ ⟨⟩
    exact hcount
  · constructor
    · rintro _ ⟨⟩
      exact hcount
    · rintro _ ⟨⟩
      exact hcount

theorem EvaluatesDue.hasRoom {registry : Registry} {now : Instant} {evaluated : DriveJob}
    (h : EvaluatesDue registry job now deeds evaluated) (hname : job.name = name)
    (hpath : RecordPath name record deeds later)
    (hroom : (Standing.mk (some job) record).HasRoom (errors + 1)) :
    (Standing.mk (some evaluated) later).HasRoom errors := by
  cases h with
  | @phases _ begun _ findings _ _ _ _ hinspects hbegins hpursues hstores =>
      rcases hpath.split with ⟨inspected, hinspecting, hpath⟩
      rcases hpath.split with ⟨started, hbeginning, hpath⟩
      rcases hpath.split with ⟨pursued, hpursuing, hstoring⟩
      cases hinspects.path hinspecting
      cases hpursues.path hpursuing
      have hbegun := hbegins.hasRoom hbeginning hroom
      have hfoundName : (DriveJob.recorded findings).name = name :=
        (hpursues.name_eq.trans hbegins.name_eq).trans hname
      apply hstores.hasRoom hfoundName hstoring
      refine ⟨?_, (hbegun.mono (Nat.le_succ errors)).record⟩
      rintro _ ⟨⟩
      have hbound := hbegun.job begun rfl
      have hone := hpursues.errorRuns_le
      omega

theorem Visits.hasRoom {registry : Registry} {visited : DriveJob}
    (h : Visits registry job deeds visited) (hname : job.name = name)
    (hpath : RecordPath name record deeds later)
    (hroom : (Standing.mk (some job) record).HasRoom (errors + 1)) :
    (Standing.mk (some visited) later).HasRoom errors := by
  cases h with
  | early now _ =>
      cases hpath.of_single.2
      exact hroom.mono (Nat.le_succ errors)
  | evaluated now _ hevaluates =>
      rcases hpath.of_cons with ⟨_, hpath⟩
      cases hevaluates with
      | notDue now hloads _ =>
          rcases hpath.split with ⟨mid, hloading, hreading⟩
          cases hreading.of_single.2
          exact (hloads.hasRoom hname hloading hroom).mono (Nat.le_succ errors)
      | due now hloads _ hevaluates =>
          rcases hpath.split with ⟨mid, hloading, hpath⟩
          rcases hpath.of_cons with ⟨_, hdue⟩
          exact hevaluates.hasRoom (hloads.name_eq.trans hname) hdue
            (hloads.hasRoom hname hloading hroom)

/-- A round takes the room for one error. -/
theorem Rounds.hasRoom {context after : DriveContext} {wait : Span}
    (h : Rounds context deeds wait after) (hsound : context.Sound)
    (hpath : RecordPath name record deeds later)
    (hroom : (Standing.mk (context.job? name) record).HasRoom (errors + 1)) :
    (Standing.mk (after.job? name) later).HasRoom errors := by
  have hportion := h.portion name hsound
  generalize context.job? name = job at hportion hroom
  generalize after.job? name = visited at hportion
  cases hportion with
  | absent hforeign =>
      cases hpath.of_foreign hforeign
      exact hroom.mono (Nat.le_succ errors)
  | present hfirst hown hlast =>
      rcases hown with ⟨hname, hvisits⟩
      rcases hpath.split with ⟨mid, hfirstPath, hpath⟩
      rcases hpath.split with ⟨left, hownPath, hlastPath⟩
      cases hfirstPath.of_foreign hfirst
      cases hlastPath.of_foreign hlast
      exact hvisits.hasRoom hname hownPath hroom

theorem RecordPath.meets {holds : JobRecord -> Prop} (h : RecordPath name record deeds later)
    (hrecord : forall found, record = some found -> holds found)
    (hsaves : forall saved, .recordSaved name saved (.ok ()) ∈ deeds -> holds saved) :
    forall found, later = some found -> holds found := by
  induction h with
  | nil _ =>
      exact hrecord
  | @cons record later deed deeds _ _ ih =>
      apply ih
      · intro found hfound
        unfold Deed.recordAfter at hfound
        split at hfound
        next other saved =>
          split at hfound
          next hname =>
            subst hname
            cases hfound
            exact hsaves found List.mem_cons_self
          next =>
            exact hrecord found hfound
        next =>
          split at hfound
          · cases hfound
          · exact hrecord found hfound
        next =>
          exact hrecord found hfound
      · intro saved hsaved
        exact hsaves saved (List.mem_cons_of_mem deed hsaved)

theorem Starts.errorRuns_eq (h : Starts name deeds job) :
    job.errorRuns = 0 ∧
      forall owner saved answer, .recordSaved owner saved answer ∈ deeds ->
        saved.errorRuns = 0 := by
  cases h with
  | resumed answer hcount =>
      refine ⟨hcount, ?_⟩
      intro owner saved _ hsaved
      cases List.mem_singleton.mp hsaved
  | recovered answer staging challenges saving _ =>
      constructor
      · cases saving <;> rfl
      · intro owner saved _ hsaved
        simp only [List.mem_cons, reduceCtorEq, Deed.recordSaved.injEq, List.not_mem_nil,
          false_or, or_false] at hsaved
        rw [hsaved.2.1]
        rfl

theorem StartsContext.hasRoom {registry : Registry} {settings : DriveSettings}
    {begun : Option DriveContext} (h : StartsContext registry settings deeds begun)
    (hdistinct : registry.Distinct) (hpath : RecordPath name record deeds later)
    (hfresh : errors ≤ JobRecord.errorRunsLimit)
    (hroom : (Standing.mk none record).HasRoom errors) :
    (Standing.mk (begun.bind (·.job? name)) later).HasRoom errors := by
  have hzero : forall count : ErrorCount, count = 0 ->
      (count : Nat) + errors ≤ JobRecord.errorRunsLimit := by
    rintro _ rfl
    rwa [Fin.val_zero, Nat.zero_add]
  have hportion := h.portion name hdistinct
  generalize (begun.bind (·.job? name)) = job at hportion
  generalize (registry.watchedNames.find? fun owner => owner = name) = watched at hportion
  cases hportion with
  | absent hforeign =>
      cases hpath.of_foreign hforeign
      exact hroom
  | @present _ job _ own _ hfirst hown hlast =>
      rcases hown with ⟨rfl, hstarts⟩
      rcases hstarts.errorRuns_eq with ⟨hjob, hsaved⟩
      rcases hpath.split with ⟨mid, hfirstPath, hpath⟩
      rcases hpath.split with ⟨left, hownPath, hlastPath⟩
      cases hfirstPath.of_foreign hfirst
      cases hlastPath.of_foreign hlast
      constructor
      · rintro _ ⟨⟩
        exact hzero job.errorRuns hjob
      · apply hownPath.meets hroom.record
        intro saved hsave
        exact hzero saved.errorRuns (hsaved _ saved _ hsave)

end

/-!
## Calls of a process
-/

/-- All counts that begin in a world, or that its store keeps, have room for some errors. -/
structure Rehearsal.HasRoom (errors : Nat) (world : Rehearsal) : Prop where
  fresh : errors ≤ JobRecord.errorRunsLimit
  records : forall name record, world.store.records name = some record ->
    (record.errorRuns : Nat) + errors ≤ JobRecord.errorRunsLimit

namespace Process

def HasRoom (errors : Nat) (process : Process) : Prop :=
  forall name, (process.standing name).HasRoom errors

variable {excess : Prop} {errors : Nat} {process later : Process}

theorem HasRoom.start {registry : Registry} {settings : DriveSettings}
    (hroom : process.world.HasRoom errors) (hdistinct : registry.Distinct)
    (h : process.call (.start registry settings) = .ok later) : later.HasRoom errors := by
  intro name
  rcases performs_of_call rfl h with ⟨deeds, hpassage, hperforms⟩
  rcases later with ⟨_, begun⟩
  cases hperforms with
  | start hstarts =>
      apply hstarts.hasRoom hdistinct (recordPath_of_serves name hpassage.serves) hroom.fresh
      refine ⟨?_, hroom.records name⟩
      rintro _ ⟨⟩

theorem HasRoom.runJobs (hroom : process.HasRoom (errors + 1)) (hsound : process.Sound)
    (h : process.call .runJobs = .ok later) : later.HasRoom errors := by
  intro name
  rcases process with ⟨world, - | context⟩
  · cases h
    exact (hroom name).mono (Nat.le_succ errors)
  · rcases performs_of_call rfl h with ⟨deeds, hpassage, hperforms⟩
    rcases later with ⟨_, _⟩
    cases hperforms with
    | runJobs hrounds =>
        exact hrounds.hasRoom (hsound context rfl) (recordPath_of_serves name hpassage.serves)
          (hroom name)

theorem abides_runJobs (hsound : process.Sound) (hroom : ¬ excess -> process.HasRoom 1) :
    Abides excess (process.within fun context => do return (← host.checked.runJobs context).2)
      (process.call .runJobs) := by
  rcases process with ⟨world, - | context⟩
  · exact Abides.refl excess (.ok (Process.mk world none))
  · have hjobs : ¬ excess -> forall job, job ∈ context.jobs ->
        (Standing.mk (some job) (world.store.records job.name)).HasRoom 1 := by
      intro hexcess job hjob
      have hstanding := hroom hexcess job.name
      unfold standing at hstanding
      rwa [Option.bind_some, (hsound context rfl).job?_of_mem hjob] at hstanding
    have hround := Rehearsal.abides_runJobs (hsound context rfl) hjobs
    unfold call within
    apply Abides.bind
    · apply Abides.run_bind hround
      intro _ _ _
      exact Abides.refl _ _
    · intro _ _
      exact Abides.refl _ _

end Process
end RenewalDrive
