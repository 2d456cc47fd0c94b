import Mathlib
import RenewalDrive.Config.Basic
import RenewalDrive.Proofs.Time.Moves
import RenewalDrive.Proofs.Drive.Readings
import RenewalDrive.Proofs.Run.Strand
import RenewalDrive.Proofs.Laws.Consistency

/-!
# The timer

A regular call of a watchdog answers how long to wait for the next one. The drive wakes up
for the earliest instant that a job waits for, and after half of its cadence at the latest. So
it is not late for any of them, and it does not spin: whatever a round does with a job, the job
then waits for an instant that lies ahead, or for none. Only leap seconds make an exception,
since a span between instants counts them and a move by that span does not.
-/

namespace RenewalDrive

/-!
## The instant to wake up for
-/

theorem Instant.earlier_eq_min (a b : Instant) : a.earlier b = min a b := by
  unfold earlier
  split
  next hlt =>
    exact (min_eq_right hlt.le).symm
  next hnot =>
    exact (min_eq_left (not_lt.mp hnot)).symm

section

variable {holds : Instant -> Prop} (hmin : forall a b, holds (min a b) ↔ holds a ∧ holds b)

include hmin

theorem foldl_earlier_iff {instants : List Instant} {first : Instant} :
    holds (instants.foldl Instant.earlier first) ↔
      holds first ∧ forall next, next ∈ instants -> holds next := by
  induction instants generalizing first with
  | nil =>
      simp
  | cons next rest ih =>
      rw [List.foldl_cons, ih, Instant.earlier_eq_min, hmin, List.forall_mem_cons, and_assoc]

theorem nextWake_iff {jobs : List DriveJob} {latest : Instant} :
    holds (nextWake jobs latest) ↔ holds latest ∧
      forall job next, job ∈ jobs -> job.nextRun = some next -> holds next := by
  rw [nextWake, foldl_earlier_iff hmin]
  simp only [List.mem_filterMap, forall_exists_index, and_imp]
  exact and_congr_right fun _ => forall_comm

end

theorem nextWake_congr {jobs others : List DriveJob} {latest : Instant}
    (h : jobs.map (·.nextRun) = others.map (·.nextRun)) :
    nextWake jobs latest = nextWake others latest := by
  have hinstants : forall jobs : List DriveJob,
      jobs.filterMap (·.nextRun) = (jobs.map (·.nextRun)).filterMap id := by
    intro jobs
    rw [List.filterMap_map]
    rfl
  rw [nextWake, nextWake, hinstants jobs, hinstants others, h]

def DriveContext.wake (context : DriveContext) (started : Instant) : Instant :=
  nextWake context.jobs ((started.add? context.settings.cadence.half).getD Instant.latest)

theorem Config.cadence_half_pos (config : Config) : 0 < config.cadence.half.nanoseconds := by
  have hhalf : forall seconds : Int, 1 ≤ seconds ->
      0 < (Span.ofSeconds seconds).half.nanoseconds := by
    intro seconds hseconds
    simp only [Span.half, Span.ofSeconds, Span.perSecond]
    omega
  unfold cadence
  split
  next hrange =>
    have hinterval : 1 ≤ config.checkInterval ∧ config.checkInterval ≤ longestCheckInterval :=
      of_decide_eq_true hrange
    exact hhalf config.checkInterval (by omega)
  next =>
    exact hhalf 86400 (by decide)

theorem Backoff.delay_pos (errorRuns : Nat) : 0 < (delay errorRuns).nanoseconds := by
  have hseconds : 0 < seconds errorRuns := by
    unfold seconds baseSeconds limitSeconds
    have hpower : 0 < 2 ^ min (errorRuns - 1) doublingsLimit := Nat.two_pow_pos _
    change 0 < min (5 * 2 ^ min (errorRuns - 1) doublingsLimit) 3600
    omega
  simp only [delay, Span.ofSeconds, Span.perSecond]
  omega

/-!
## What a job waits for after a round
-/

structure DriveJob.WaitsFrom (job : DriveJob) (reading : Instant) : Prop where
  ahead : forall next, job.nextRun = some next -> reading < next
  valid : job.finished = true -> job.nextRun = none ->
    forall staged, job.validFrom = some staged -> staged ≤ reading

theorem DriveJob.waitsFrom_of_not_due {job : DriveJob} {now : Instant}
    (h : job.isDue now = false) : job.WaitsFrom now := by
  unfold isDue at h
  constructor
  · intro next hnext
    rw [hnext] at h
    exact not_le.mp (of_decide_eq_false h)
  · intro _ hnone
    rw [hnone] at h
    cases h

theorem DriveJob.waitsFrom_of_activation {job : DriveJob} {now : Instant}
    (h : job.nextRun = job.activation now) : job.WaitsFrom now := by
  constructor
  · intro next hnext
    rw [h] at hnext
    exact of_decide_eq_true (Option.filter_eq_some_iff.mp hnext).2
  · intro _ hnone staged hstaged
    rw [h] at hnone
    have hpassed := Option.filter_eq_none_iff.mp hnone staged hstaged
    exact not_lt.mp (of_decide_eq_false (by simpa using hpassed))

section

variable {registry : Registry} {job : DriveJob} {now : Instant} {deeds : List Deed}

theorem Pursues.waitsFrom {domain : ManagedDomain} {findings : Findings}
    (h : Pursues job now (job.course (some domain) now) deeds findings)
    (hinformed : Informed (some domain)) :
    exists reading, reading ∈ now :: readings deeds ∧
      (DriveJob.recorded findings).WaitsFrom reading := by
  rw [hinformed.course_eq] at h
  -- An attempt that completes is judged by the reading after it, all else by the one before.
  split at h
  next hfinished =>
    cases h with
    | finished =>
        exact ⟨now, List.mem_cons_self, DriveJob.waitsFrom_of_activation rfl⟩
  next hunfinished =>
    split at h
    · cases h with
      | completed _ outcome _ later _ =>
          have hwaits := job.attempted.completed_nextRun outcome.message
            (outcome.validFrom.getD later) later
          exact ⟨later, by simp, DriveJob.waitsFrom_of_activation hwaits⟩
      | failed _ _ _ next _ hnext =>
          refine ⟨now, List.mem_cons_self, ?_, ?_⟩
          · intro _ hother
            cases hother
            exact Instant.lt_of_add?_eq_some hnext (Backoff.delay_pos _)
          · intro _ hnone
            cases hnone
    · cases h with
      | rest _ =>
          refine ⟨now, List.mem_cons_self, ?_, ?_⟩
          · intro next hnext
            cases hnext
          · intro hfinished
            exact absurd hfinished hunfinished

theorem Stores.waitsFrom {stored : DriveJob} {reading : Instant} (h : Stores job deeds stored)
    (hjob : job.WaitsFrom reading) : stored.WaitsFrom reading := by
  cases h with
  | kept _ =>
      exact hjob
  | asked answer _ =>
      cases answer with
      | error _ =>
          exact hjob
      | ok _ =>
          exact ⟨hjob.ahead, hjob.valid⟩

theorem Evaluates.waitsFrom {verdict : Evaluation} {evaluated : DriveJob}
    (h : Evaluates registry job deeds verdict evaluated)
    (hknown : registry.contains job.name = true) (hinformed : Informed (registry.get? job.name)) :
    exists reading, reading ∈ readings deeds ∧ evaluated.WaitsFrom reading := by
  cases h with
  | notDue now hloads hdue =>
      exact ⟨now, by simp, DriveJob.waitsFrom_of_not_due hdue⟩
  | due now hloads _ hevaluates =>
      cases hevaluates with
      | phases hinspects _ hpursues hstores =>
          rcases Option.isSome_iff_exists.mp hknown with ⟨configured, hconfigured⟩
          rw [hloads.name_eq, hconfigured] at hinspects
          have hcurrent := hinspects.informed_iff.mpr (hconfigured ▸ hinformed)
          cases hinspects with
          | managed _ answer =>
              rcases hpursues.waitsFrom hcurrent with ⟨reading, hreading, hwaits⟩
              refine ⟨reading, ?_, hstores.waitsFrom hwaits⟩
              simp only [readings_append, readings_cons, reading?_clockRead, List.mem_append,
                List.mem_cons, Option.toList_some] at hreading ⊢
              tauto

/-- Whatever a round does with a job of a domain that lacks nothing, the job waits from one of the
readings that the round took for it. -/
theorem Visits.waitsFrom {visited : DriveJob} (h : Visits registry job deeds visited)
    (hknown : registry.contains job.name = true) (hinformed : Informed (registry.get? job.name)) :
    exists reading, reading ∈ readings deeds ∧ visited.WaitsFrom reading := by
  cases h with
  | early now hdue =>
      exact ⟨now, by simp, DriveJob.waitsFrom_of_not_due hdue⟩
  | evaluated now _ hevaluates =>
      rcases hevaluates.waitsFrom hknown hinformed with ⟨reading, hreading, hwaits⟩
      exact ⟨reading, by simp [hreading], hwaits⟩

end

/-- Every job of the context is that of a domain that lacks nothing. -/
def DriveContext.Equipped (context : DriveContext) : Prop :=
  forall job, job ∈ context.jobs ->
    context.registry.contains job.name = true ∧ Informed (context.registry.get? job.name)

section

variable {context later : DriveContext} {deeds : List Deed}

theorem Rounds.waitsFrom {wait : Span} (h : Rounds context deeds wait later)
    (hequipped : context.Equipped) :
    exists started between t, readings deeds = started :: (between ++ [t]) ∧
      wait = ((later.wake started).since t).wait ∧
      forall job, job ∈ later.jobs ->
        exists reading, reading ∈ between ∧ job.WaitsFrom reading := by
  cases h with
  | @round visiting jobs started t hvisits =>
      refine ⟨started, readings visiting, t, by simp, rfl, ?_⟩
      intro visited hvisited
      rcases hvisits.exists_of_mem hvisited with ⟨job, own, hjob, hvisit, hown⟩
      rcases hequipped job hjob with ⟨hknown, hinformed⟩
      rcases hvisit.waitsFrom hknown hinformed with ⟨reading, hreading, hwaits⟩
      exact ⟨reading, mem_readings.mpr (hown (mem_readings.mp hreading)), hwaits⟩

theorem Notifies.waits_eq {report : NoticeReport} (h : Notifies context deeds report later) :
    later.jobs.map (fun job => (job.nextRun, job.finished, job.validFrom)) =
      context.jobs.map (fun job => (job.nextRun, job.finished, job.validFrom)) := by
  cases h with
  | pass now hannounces =>
      apply hannounces.map_eq
      intro job own result hmark
      cases hmark with
      | passed _ =>
          rfl
      | marked answer _ =>
          cases answer with
          | error _ =>
              rfl
          | ok _ =>
              rfl

theorem Notifies.wake_eq {report : NoticeReport} (h : Notifies context deeds report later)
    (started : Instant) : later.wake started = context.wake started := by
  have hnext : later.jobs.map (·.nextRun) = context.jobs.map (·.nextRun) := by
    have hfirst := congrArg (List.map Prod.fst) h.waits_eq
    rw [List.map_map, List.map_map] at hfirst
    exact hfirst
  have hsettings : later.settings = context.settings := congrArg Setup.settings h.setup_eq
  rw [DriveContext.wake, DriveContext.wake, hsettings, nextWake_congr hnext]

theorem Notifies.waitsFrom {report : NoticeReport} {job : DriveJob}
    (h : Notifies context deeds report later) (hjob : job ∈ later.jobs) :
    exists other, other ∈ context.jobs ∧
      forall reading, other.WaitsFrom reading -> job.WaitsFrom reading := by
  have hparts : (job.nextRun, job.finished, job.validFrom) ∈
      context.jobs.map (fun job => (job.nextRun, job.finished, job.validFrom)) := by
    rw [← h.waits_eq]
    exact List.mem_map_of_mem hjob
  rcases List.mem_map.mp hparts with ⟨other, hother, heq⟩
  simp only [Prod.mk.injEq] at heq
  rcases heq with ⟨hnext, hfinished, hvalid⟩
  refine ⟨other, hother, fun reading hwaits => ⟨?_, ?_⟩⟩
  · rw [← hnext]
    exact hwaits.ahead
  · rw [← hnext, ← hfinished, ← hvalid]
    exact hwaits.valid

theorem Notifies.readings_eq {report : NoticeReport} (h : Notifies context deeds report later) :
    exists noticed, readings deeds = [noticed] := by
  cases h with
  | pass now hannounces =>
      exact ⟨now, by simp [hannounces.readings_eq]⟩

theorem Ticks.waitsFrom {interval : Option Span} (h : Ticks context .running deeds interval later)
    (hequipped : context.Equipped) :
    exists started between t noticed,
      readings deeds = started :: (between ++ [t, noticed]) ∧
      interval = some ((later.wake started).since t).wait ∧
      forall job, job ∈ later.jobs ->
        exists reading, reading ∈ between ∧ job.WaitsFrom reading := by
  cases h with
  | running hrounds hnotifies =>
      rcases hrounds.waitsFrom hequipped with ⟨started, between, t, hrounding, rfl, hwaits⟩
      rcases hnotifies.readings_eq with ⟨noticed, hannouncing⟩
      refine ⟨started, between, t, noticed, ?_, ?_, ?_⟩
      · simp [hrounding, hannouncing]
      · rw [hnotifies.wake_eq]
      · intro job hjob
        rcases hnotifies.waitsFrom hjob with ⟨other, hother, hsame⟩
        rcases hwaits other hother with ⟨reading, hreading, hfrom⟩
        exact ⟨reading, hreading, hsame reading hfrom⟩

end

/-!
## The wait
-/

namespace DriveContext

variable {context : DriveContext} {started t : Instant}

/-- A drive that wakes up at an instant is late for nothing: not for the next full check, not for
a job that waits, and not for staged credentials that become valid. -/
structure InTime (context : DriveContext) (started t woken : Instant) : Prop where
  checks : forall latest, started.add? context.settings.cadence.half = some latest ->
    woken ≤ max t latest
  runs : forall job next, job ∈ context.jobs -> job.nextRun = some next -> woken ≤ max t next
  announces : forall job staged, job ∈ context.jobs -> job.finished = true ->
    job.validFrom = some staged -> t < staged -> woken ≤ staged

theorem wake_le_iff {bound : Instant} :
    bound ≤ context.wake started ↔
      bound ≤ (started.add? context.settings.cadence.half).getD Instant.latest ∧
        forall job next, job ∈ context.jobs -> job.nextRun = some next -> bound ≤ next :=
  nextWake_iff fun _ _ => le_min_iff

theorem lt_wake_iff {bound : Instant} :
    bound < context.wake started ↔
      bound < (started.add? context.settings.cadence.half).getD Instant.latest ∧
        forall job next, job ∈ context.jobs -> job.nextRun = some next -> bound < next :=
  nextWake_iff fun _ _ => lt_min_iff

theorem inTime_of_le {woken : Instant} (hwoken : woken ≤ max t (context.wake started))
    (hawaits : context.AllMeet JobRecord.FinishedAwaits)
    (hwaits : forall job, job ∈ context.jobs ->
      exists reading, reading ≤ t ∧ job.WaitsFrom reading) :
    context.InTime started t woken := by
  rcases wake_le_iff.mp (le_refl (context.wake started)) with ⟨hlatest, hnext⟩
  have hruns : forall job next, job ∈ context.jobs -> job.nextRun = some next ->
      woken ≤ max t next :=
    fun job next hjob hrun => hwoken.trans (max_le_max_left t (hnext job next hjob hrun))
  constructor
  · intro latest hadd
    rw [hadd] at hlatest
    exact hwoken.trans (max_le_max_left t hlatest)
  · exact hruns
  · intro job staged hjob hfinished hstaged ht
    rcases hwaits job hjob with ⟨reading, hreading, hfrom⟩
    -- A finished job that waits does so for its credentials; one that does not has them by now.
    cases hrun : job.nextRun with
    | none =>
        exact absurd ht (not_lt.mpr ((hfrom.valid hfinished hrun staged hstaged).trans hreading))
    | some next =>
        have hsame : job.validFrom = some next := hawaits job hjob hfinished next hrun
        cases hstaged.symm.trans hsame
        rw [← max_eq_right ht.le]
        exact hruns job staged hjob hrun

theorem lt_wake (hcadence : 0 < context.settings.cadence.half.nanoseconds)
    (hlatest : t < Instant.latest)
    (hruns : forall job next, job ∈ context.jobs -> job.nextRun = some next -> t < next) :
    t < context.wake t := by
  refine lt_wake_iff.mpr ⟨?_, hruns⟩
  cases hadd : t.add? context.settings.cadence.half with
  | none =>
      exact hlatest
  | some latest =>
      exact Instant.lt_of_add?_eq_some hadd hcadence

end DriveContext

/-!
## Regular calls
-/

/-- A regular call of a watchdog after a run: the settings of the process are those of a
configuration, and none of its watched domains lacks information. -/
inductive RegularCall (config : Config) (origin : Process) :
    List Deed -> Option Span -> DriveContext -> Prop where
  | call {calls : List Call} {trace : List Happening} {process : Process} {world : Rehearsal}
      {context after : DriveContext} {deeds : List Deed} {interval : Option Span} :
      Run origin calls trace process ->
      process.context = some context ->
      context.settings.cadence = config.cadence ->
      (forall name, name ∈ context.registry.watchedNames ->
        Informed (context.registry.get? name)) ->
      (Rehearsal.host.tick context .running).run process.world = .ok ((interval, after), world) ->
      world.requests = process.world.requests ++ deeds ->
      RegularCall config origin deeds interval after

theorem RegularCall.waits {config : Config} {origin : Process} {deeds : List Deed}
    {interval : Option Span} {after : DriveContext}
    (h : RegularCall config origin deeds interval after) (hfresh : origin.context = none)
    (hstore : forall name record, origin.world.store.loadJob name = some record ->
      record.FinishedAwaits) :
    exists started between t noticed,
      readings deeds = started :: (between ++ [t, noticed]) ∧
      interval = some ((after.wake started).since t).wait ∧
      after.settings.cadence = config.cadence ∧ after.AllMeet JobRecord.FinishedAwaits ∧
      forall job, job ∈ after.jobs ->
        exists reading, reading ∈ between ∧ job.WaitsFrom reading := by
  cases h with
  | @call calls trace process world context after deeds interval hrun hcontext hcadence hinformed
      htick hrequests =>
      rcases Rehearsal.yields_tick context .running process.world _ world htick with
        ⟨done, hpassage, hticks⟩
      cases hpassage.deeds_eq hrequests
      have hnames : context.jobs.map (·.name) = context.registry.watchedNames := by
        refine hrun.names_eq ?_ context hcontext
        intro other hother
        rw [hfresh] at hother
        cases hother
      -- The jobs bear watched names, so none of them is unmanaged or blocked.
      have hequipped : context.Equipped := by
        intro job hjob
        have hwatched : job.name ∈ context.registry.watchedNames :=
          hnames ▸ List.mem_map_of_mem hjob
        exact ⟨Registry.contains_of_mem_watchedNames hwatched, hinformed job.name hwatched⟩
      have hprocess : process.AllMeet JobRecord.FinishedAwaits :=
        upheld_finishedAwaits.run hrun (Process.AllMeet.of_fresh hfresh hstore)
      have hafter := upheld_finishedAwaits.ticks hticks (hprocess.jobs context hcontext) _ _
        hpassage.serves hprocess.records
      have hsettings : after.settings = context.settings :=
        congrArg Setup.settings hticks.setup_eq
      rcases hticks.waitsFrom hequipped with
        ⟨started, between, t, noticed, hreadings, hwait, hwaits⟩
      refine ⟨started, between, t, noticed, hreadings, hwait, ?_, hafter.2, hwaits⟩
      rw [hsettings]
      exact hcadence

/-- The wait that a regular call answers, from the last reading of the clock before it: unless
the drive wakes up for an instant in a leap second, it is late for nothing; and if the clock
stands still, every job waits for an instant that lies ahead or for none, and the wait is none
only in the leap second at the end of a day. -/
theorem wakes_in_time {config : Config} {origin : Process} {deeds : List Deed}
    {interval : Option Span} {after : DriveContext} (hfresh : origin.context = none)
    (hstore : forall name record, origin.world.store.loadJob name = some record ->
      record.FinishedAwaits)
    (hcall : RegularCall config origin deeds interval after)
    (hclock : (readings deeds).Pairwise (· ≤ ·)) :
    exists started between t noticed wait,
      readings deeds = started :: (between ++ [t, noticed]) ∧ interval = some wait ∧
      ((after.wake started).inLeapSecond = false ->
        exists woken, t.add? wait = some woken ∧ after.InTime started t woken) ∧
      ((forall reading, reading ∈ started :: between -> reading = t) ->
        (forall job next, job ∈ after.jobs -> job.nextRun = some next -> t < next) ∧
        ((t.inLeapSecond = true -> t.secondOfDay ≠ 86399) -> t < Instant.latest ->
          0 < wait.nanoseconds)) := by
  rcases hcall.waits hfresh hstore with
    ⟨started, between, t, noticed, hreadings, hinterval, hcadence, hawaits, hwaits⟩
  refine ⟨started, between, t, noticed, _, hreadings, hinterval, ?_, ?_⟩
  · intro hplain
    rcases t.exists_add?_wait hplain with ⟨woken, hadd, hwoken⟩
    refine ⟨woken, hadd, DriveContext.inTime_of_le hwoken hawaits ?_⟩
    intro job hjob
    rcases hwaits job hjob with ⟨reading, hreading, hfrom⟩
    rw [hreadings, List.pairwise_cons, List.pairwise_append] at hclock
    exact ⟨reading, hclock.2.2.2 reading hreading t List.mem_cons_self, hfrom⟩
  · intro hstands
    have hruns : forall job next, job ∈ after.jobs -> job.nextRun = some next -> t < next := by
      intro job next hjob hnext
      rcases hwaits job hjob with ⟨reading, hreading, hfrom⟩
      rw [← hstands reading (List.mem_cons_of_mem started hreading)]
      exact hfrom.ahead next hnext
    refine ⟨hruns, ?_⟩
    intro hleap hlatest
    cases hstands started List.mem_cons_self
    have hhalf : 0 < after.settings.cadence.half.nanoseconds := by
      rw [hcadence]
      exact config.cadence_half_pos
    have hpos := Instant.since_pos hleap (DriveContext.lt_wake hhalf hlatest hruns)
    rw [Span.wait_of_nonneg hpos.le]
    exact hpos

def Process.regularTick (process : Process) :
    Option (Setup × Except Halt (List Deed × Option Span × DriveContext)) :=
  process.context.map fun context =>
    (context.setup, ((Rehearsal.host.tick context .running).run process.world).map fun result =>
      (result.2.requests.drop process.world.requests.length, result.1))

theorem RegularCall.of_play {config : Config} {origin : Process} {calls : List Call}
    {setup : Setup} {deeds : List Deed} {interval : Option Span} {after : DriveContext}
    (h : (origin.play calls).map (fun played => played.1.regularTick) =
      .ok (some (setup, .ok (deeds, interval, after))))
    (hcadence : setup.settings.cadence = config.cadence)
    (hinformed : forall name, name ∈ setup.registry.watchedNames ->
      Informed (setup.registry.get? name)) : RegularCall config origin deeds interval after := by
  cases hplay : origin.play calls with
  | error halt =>
      rw [hplay] at h
      cases h
  | ok played =>
      rw [hplay] at h
      rcases Option.map_eq_some_iff.mp (Except.ok.inj h) with ⟨context, hcontext, hresult⟩
      rcases Prod.mk.inj hresult with ⟨rfl, hticks⟩
      cases htick : (Rehearsal.host.tick context .running).run played.1.world with
      | error halt =>
          rw [htick] at hticks
          cases hticks
      | ok result =>
          rcases result with ⟨⟨answered, later⟩, world⟩
          rw [htick] at hticks
          cases hticks
          have hrun := Process.run_of_play_eq hplay
          refine RegularCall.call hrun hcontext hcadence hinformed htick ?_
          rcases Rehearsal.yields_tick context .running played.1.world _ world htick with
            ⟨done, hpassage, _⟩
          rw [hpassage.requests, List.drop_left]

def Config.checkingEvery (seconds : Nat) : Config where
  storeDirectory := none
  notifyCommand := none
  renewCommand := none
  checkInterval := seconds
  renewWindow := .default
  domains := []

theorem Registry.single_informed {name other : String} {state : DomainState}
    (hstate : state ≠ .missingInformation) : Informed ((single name state).get? other) := by
  intro found hfound
  cases List.mem_singleton.mp (List.mem_of_find?_eq_some hfound)
  exact hstate

def DriveContext.awaiting (seconds : Nat) (staged : Instant) : DriveContext where
  registry := Registry.single "a" .incomplete
  settings := (Config.checkingEvery seconds).settings
  jobs :=
    [{ DriveJob.fresh "a" with finished := true, validFrom := some staged, nextRun := some staged }]

theorem RegularCall.of_waiting {seconds : Nat} {now staged : Instant} {wait : Span}
    (h : ((waiting now staged).play [.start (Registry.single "a" .incomplete)
        (Config.checkingEvery seconds).settings]).map (fun played => played.1.regularTick) =
      .ok (some ((DriveContext.awaiting seconds staged).setup,
        .ok ([.clockRead now, .clockRead now, .clockRead now, .clockRead now], some wait,
          .awaiting seconds staged)))) :
    RegularCall (.checkingEvery seconds) (waiting now staged)
      [.clockRead now, .clockRead now, .clockRead now, .clockRead now] (some wait)
      (.awaiting seconds staged) :=
  RegularCall.of_play h rfl fun _ _ => Registry.single_informed (by decide)

theorem waiting_awaits {now staged : Instant} (name : String) (record : JobRecord)
    (h : (waiting now staged).world.store.loadJob name = some record) : record.FinishedAwaits :=
  (waiting_consistent name record h).awaits

theorem wakes_in_time_when_valid :
    exists deeds after woken,
      RegularCall (.checkingEvery 86400) (waiting .epoch ⟨100, 0, by decide⟩) deeds
        (some (.ofSeconds 100)) after ∧
      Instant.epoch.add? (.ofSeconds 100) = some woken ∧ after.InTime .epoch .epoch woken := by
  have hcall : RegularCall (.checkingEvery 86400) (waiting .epoch ⟨100, 0, by decide⟩)
      [.clockRead .epoch, .clockRead .epoch, .clockRead .epoch, .clockRead .epoch]
      (some (.ofSeconds 100)) (.awaiting 86400 ⟨100, 0, by decide⟩) := by
    apply RegularCall.of_waiting
    cbv
  rcases wakes_in_time rfl waiting_awaits hcall (by decide) with
    ⟨started, between, t, noticed, wait, hreadings, hinterval, hwakes, _⟩
  cases hinterval
  have hsplit : [Instant.epoch, .epoch] ++ [.epoch, .epoch] =
      (started :: between) ++ [t, noticed] := hreadings
  rcases List.append_inj' hsplit rfl with ⟨hearly, hlate⟩
  cases hearly
  cases hlate
  rcases hwakes (by decide) with ⟨woken, hwoken, hintime⟩
  exact ⟨_, _, woken, hcall, hwoken, hintime⟩

namespace Instant

/-- Within a leap second at the end of the first minute of 1970. -/
def minuteLeap : Instant :=
  ⟨59, 1900000000, by decide⟩

/-- Within a leap second at the end of the first day of 1970. -/
def dayLeap : Instant :=
  ⟨86399, 1500000000, by decide⟩

def nextDay : Instant :=
  ⟨100000, 0, by decide⟩

end Instant

/-- In leap seconds the timer is late or spins. A wait for an instant in a leap second ends after
it, as the leap second counts for a second of its own only in the difference of the two. And who
asks in the leap second at the end of a day for an instant in the next day is told not to wait at
all, though the clock stands still. -/
theorem misled_by_leap_seconds :
    ((forall name record, (waiting .epoch .minuteLeap).world.store.loadJob name = some record ->
        record.FinishedAwaits) ∧
      exists after woken job,
        RegularCall (.checkingEvery 86400) (waiting .epoch .minuteLeap)
          [.clockRead .epoch, .clockRead .epoch, .clockRead .epoch, .clockRead .epoch]
          (some ⟨60900000000⟩) after ∧
        Instant.epoch.add? ⟨60900000000⟩ = some woken ∧
        job ∈ after.jobs ∧ job.finished = true ∧ job.notified = false ∧
        job.nextRun = some .minuteLeap ∧ job.validFrom = some .minuteLeap ∧
        Instant.epoch < .minuteLeap ∧ Instant.minuteLeap < woken) ∧
    (forall name record, (waiting .dayLeap .nextDay).world.store.loadJob name = some record ->
        record.FinishedAwaits) ∧
      exists after,
        RegularCall (.checkingEvery 1) (waiting .dayLeap .nextDay)
          [.clockRead .dayLeap, .clockRead .dayLeap, .clockRead .dayLeap, .clockRead .dayLeap]
          (some .zero) after := by
  constructor
  · refine ⟨waiting_awaits, .awaiting 86400 .minuteLeap, ⟨60, 900000000, by decide⟩, _,
      RegularCall.of_waiting ?_, by decide, List.mem_singleton_self _, rfl, rfl, rfl, rfl,
      by decide, by decide⟩
    cbv
  · refine ⟨waiting_awaits, _, RegularCall.of_waiting ?_⟩
    cbv

end RenewalDrive
