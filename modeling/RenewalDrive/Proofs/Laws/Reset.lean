import Mathlib
import RenewalDrive.Proofs.Laws.Completion

/-!
# Resets

A drive that starts over asks the store to remove what is staged, and the next attempt is to
discard whatever is left. That the next attempt is owed a reset is known to the process only:
the record says nothing about it. So when the removal is refused and the process ends before
it makes an attempt, the attempt of a later process resumes what was to be given up.
-/

namespace RenewalDrive

open Deed

/-!
## Starting over
-/

namespace Deed

/-- The deed gives up what is staged for a name: it asks for its removal. -/
def givesUp (name : String) : Deed -> Bool
  | .purged .staging owner _ => owner = name
  | _ => false

/-- The deed removes what is staged for a name. -/
def clears (name : String) : Deed -> Bool
  | .purged .staging owner (.ok _) => owner = name
  | _ => false

def owes (name : String) (owed : Bool) (deed : Deed) : Bool :=
  deed.givesUp name || (owed && !deed.attempts name)

variable {name : String} {owed : Bool} {deed : Deed}

theorem owes_of_idle (hkept : deed.givesUp name = false) (hidle : deed.attempts name = false) :
    deed.owes name owed = owed := by
  rw [owes, hkept, hidle, Bool.false_or, Bool.not_false, Bool.and_true]

theorem givesUp_purged {owner : String} {answer : Except StoreError Unit} :
    (Deed.purged .staging owner answer).givesUp name = decide (owner = name) :=
  rfl

theorem owes_of_givesUp (h : deed.givesUp name = true) : deed.owes name owed = true := by
  rw [owes, h, Bool.true_or]

theorem attempts_attempted {domain : ManagedDomain} {reset : Bool} {outcome : RenewOutcome}
    {took : Span} :
    (Deed.attempted domain reset outcome took).attempts name = decide (domain.name = name) := by
  simp [attempts, attempt?]

theorem owes_of_attempts (hkept : deed.givesUp name = false) (h : deed.attempts name = true) :
    deed.owes name owed = false := by
  rw [owes, hkept, h, Bool.false_or, Bool.not_true, Bool.and_false]

end Deed

section

variable {name : String} {deeds : List Deed} {job : DriveJob}

theorem Starts.givesUp_iff (h : Starts name deeds job) :
    (exists deed, deed ∈ deeds ∧ deed.givesUp name = true) ↔
      exists record, .recordLoaded name (.ok (some record)) ∈ deeds ∧ 0 < record.errorRuns := by
  cases h with
  | resumed answer hnone =>
      refine iff_of_false ?_ ?_
      · simp [givesUp]
      · rintro ⟨record, hmem, herrors⟩
        cases List.mem_singleton.mp hmem
        exact absurd hnone (Fin.pos_iff_ne_zero.mp herrors)
  | recovered answer staging challenges saving herrors =>
      refine iff_of_true ?_ ?_
      · exact ⟨.purged .staging name staging, by simp, by simp [givesUp]⟩
      · rcases answer with error | - | record
        · cases herrors
        · cases herrors
        · exact ⟨record, List.mem_cons_self, herrors⟩

end

/-!
## What an attempt is owed
-/

/-- Whether the next attempt for a name is owed a reset after some deeds. -/
def owedAfter (name : String) (owed : Bool) (deeds : List Deed) : Bool :=
  deeds.foldl (Deed.owes name) owed

section

variable {name : String} {owed : Bool} {first second deeds : List Deed}

@[simp] theorem owedAfter_nil : owedAfter name owed [] = owed :=
  rfl

@[simp] theorem owedAfter_cons {deed : Deed} :
    owedAfter name owed (deed :: deeds) = owedAfter name (deed.owes name owed) deeds :=
  rfl

@[simp] theorem owedAfter_append :
    owedAfter name owed (first ++ second) = owedAfter name (owedAfter name owed first) second :=
  List.foldl_append

theorem owedAfter_of_no_attempt
    (h : forall deed, deed ∈ deeds -> deed.attempts name = false) :
    owedAfter name owed deeds = (owed || deeds.any (Deed.givesUp name)) := by
  induction deeds generalizing owed with
  | nil =>
      simp
  | cons deed rest ih =>
      rcases List.forall_mem_cons.mp h with ⟨hdeed, hrest⟩
      rw [owedAfter_cons, ih hrest, owes, hdeed, List.any_cons]
      cases owed <;> simp

/-- Once a drive has started over, a reset is owed until an attempt is made. -/
theorem owedAfter_of_givesUp {deed : Deed} (hdeed : deed.givesUp name = true)
    (h : forall other, other ∈ second -> other.attempts name = false) :
    owedAfter name owed (first ++ deed :: second) = true := by
  rw [owedAfter_append, owedAfter_cons, owes_of_givesUp hdeed, owedAfter_of_no_attempt h,
    Bool.true_or]

theorem owedAfter_of_foreign {command : Option String} (h : AllForeign command name deeds) :
    owedAfter name owed deeds = owed := by
  induction deeds with
  | nil =>
      rfl
  | cons deed rest ih =>
      rcases List.forall_mem_cons.mp h with ⟨hforeign, hrest⟩
      have hdeed : deed.owes name owed = owed := by
        cases deed with
        | purged group owner answer =>
            cases group with
            | staging =>
                exact owes_of_idle (decide_eq_false (hforeign rfl)) rfl
            | _ =>
                exact owes_of_idle rfl rfl
        | attempted domain reset outcome took =>
            exact owes_of_idle rfl (attempts_attempted.trans (decide_eq_false hforeign))
        | _ =>
            exact owes_of_idle rfl rfl
      rw [owedAfter_cons, hdeed]
      exact ih hrest

end

section

variable {name : String} {registry : Registry} {job : DriveJob} {deeds : List Deed}

theorem DriveJob.reloaded_resetStaging (answer : Except StoreError (Option JobRecord)) :
    (job.reloaded answer).resetStaging = job.resetStaging := by
  unfold reloaded
  split <;> rfl

theorem DriveJob.savedAs_resetStaging (answer : Except StoreError Unit) :
    (job.savedAs answer).resetStaging = job.resetStaging := by
  cases answer <;> rfl

theorem Reloads.owed {loaded : DriveJob} (h : Reloads job deeds loaded) :
    loaded.resetStaging = owedAfter name job.resetStaging deeds := by
  cases h with
  | kept _ =>
      rfl
  | asked answer _ =>
      rw [owedAfter_cons, owes_of_idle rfl rfl]
      exact DriveJob.reloaded_resetStaging answer

theorem Stores.owed {stored : DriveJob} (h : Stores job deeds stored) :
    stored.resetStaging = owedAfter name job.resetStaging deeds := by
  cases h with
  | kept _ =>
      rfl
  | asked answer _ =>
      rw [owedAfter_cons, owes_of_idle rfl rfl]
      exact DriveJob.savedAs_resetStaging answer

theorem Inspects.owed {owed : Bool} {now : Instant} {configured domain : Option ManagedDomain}
    (h : Inspects now configured deeds domain) : owedAfter name owed deeds = owed := by
  cases h with
  | unmanaged =>
      rfl
  | managed _ _ =>
      rw [owedAfter_cons, owes_of_idle rfl rfl, owedAfter_nil]

theorem Begins.owed {domain : Option ManagedDomain} {begun : DriveJob} (hname : job.name = name)
    (h : Begins job domain deeds begun) :
    begun.resetStaging = owedAfter name job.resetStaging deeds := by
  cases h with
  | kept _ =>
      rfl
  | generation _ _ =>
      rw [owedAfter_cons, owes_of_givesUp (givesUp_purged.trans (decide_eq_true hname))]
      rfl

theorem Pursues.owed {now : Instant} {course : Course} {findings : Findings}
    (hname : forall domain, course = .renew domain -> domain.name = name)
    (h : Pursues job now course deeds findings) :
    (DriveJob.recorded findings).resetStaging = owedAfter name job.resetStaging deeds := by
  cases h with
  | completed domain outcome took later _ =>
      rw [owedAfter_cons,
        owes_of_attempts rfl (attempts_attempted.trans (decide_eq_true (hname domain rfl)))]
      rw [owedAfter_cons, owes_of_idle rfl rfl]
      rfl
  | failed domain outcome took next _ _ =>
      rw [owedAfter_cons,
        owes_of_attempts rfl (attempts_attempted.trans (decide_eq_true (hname domain rfl)))]
      rfl
  | _ =>
      rfl

theorem Inspects.name_of_renew {now : Instant} {domain : Option ManagedDomain} {begun : DriveJob}
    {renewed : ManagedDomain} (h : Inspects now (registry.get? name) deeds domain)
    (hcourse : begun.course domain now = .renew renewed) : renewed.name = name := by
  generalize hget : registry.get? name = configured at h
  rcases DriveJob.course_eq_renew_iff.mp hcourse with ⟨rfl, _⟩
  cases h with
  | managed configured answer =>
      rw [ManagedDomain.current_name]
      exact Registry.name_of_get? hget

theorem EvaluatesDue.owed {now : Instant} {evaluated : DriveJob} (hname : job.name = name)
    (h : EvaluatesDue registry job now deeds evaluated) :
    evaluated.resetStaging = owedAfter name job.resetStaging deeds := by
  cases h with
  | phases hinspects hbegins hpursues hstores =>
      rw [hname] at hinspects
      rw [owedAfter_append, owedAfter_append, owedAfter_append, hinspects.owed,
        ← hbegins.owed hname, ← hpursues.owed fun _ => hinspects.name_of_renew]
      exact hstores.owed

theorem Evaluates.owed {verdict : Evaluation} {evaluated : DriveJob} (hname : job.name = name)
    (h : Evaluates registry job deeds verdict evaluated) :
    evaluated.resetStaging = owedAfter name job.resetStaging deeds := by
  cases h with
  | notDue now hloads _ =>
      rw [owedAfter_append, owedAfter_cons, owes_of_idle rfl rfl]
      exact hloads.owed
  | due now hloads _ hevaluates =>
      rw [owedAfter_append, owedAfter_cons, owes_of_idle rfl rfl, ← hloads.owed]
      exact hevaluates.owed (hloads.name_eq.trans hname)

theorem Tries.reset_eq {domain : ManagedDomain} {reset : Bool} {outcome : RenewOutcome}
    {took : Span} {first last : List Deed} {now : Instant} {evaluated : DriveJob}
    (hname : job.name = name)
    (h : Tries registry job domain reset outcome took first now last evaluated) :
    reset = owedAfter name job.resetStaging first := by
  cases h with
  | cut answer hloads _ hinspects hbegins _ hpursues =>
      rw [owedAfter_append, owedAfter_cons, owes_of_idle rfl rfl, owedAfter_append,
        hinspects.owed, ← hloads.owed, ← hbegins.owed (hloads.name_eq.trans hname)]
      cases hpursues with
      | completed _ _ _ _ _ =>
          rfl
      | failed _ _ _ _ _ _ =>
          rfl

theorem Starts.owed (h : Starts name deeds job) :
    job.resetStaging = owedAfter name false deeds := by
  cases h with
  | resumed answer _ =>
      rw [owedAfter_cons, owes_of_idle rfl rfl]
      exact DriveJob.reloaded_resetStaging answer
  | recovered answer staging challenges saving _ =>
      rw [DriveJob.savedAs_resetStaging, owedAfter_cons, owedAfter_cons,
        owes_of_givesUp (givesUp_purged.trans (decide_eq_true rfl)), owedAfter_cons,
        owes_of_idle rfl rfl, owedAfter_cons, owes_of_idle rfl rfl]
      rfl

theorem StartsContext.owed {settings : DriveSettings} {begun : Option DriveContext}
    (hdistinct : registry.Distinct) (h : StartsContext registry settings deeds begun)
    (hjob : begun.bind (·.job? name) = some job) :
    job.resetStaging = owedAfter name false deeds := by
  have hportion := h.portion name hdistinct
  generalize (registry.watchedNames.find? fun owner => owner = name) = owner at hportion
  rw [hjob] at hportion
  cases hportion with
  | present hbefore hstarts hafter =>
      rcases hstarts with ⟨rfl, hstarts⟩
      rw [owedAfter_append, owedAfter_append, owedAfter_of_foreign hbefore,
        owedAfter_of_foreign hafter]
      exact hstarts.owed

end

/-!
## Along a process
-/

section

variable {name : String} {setup : Setup} {standing later : Standing} {trace : List Happening}

theorem Turn.owed {job after : Option DriveJob} {deeds : List Deed}
    (h : Turn name false setup job deeds after) :
    after.map (·.resetStaging) = job.map fun job => owedAfter name job.resetStaging deeds := by
  cases h with
  | foreign hforeign =>
      simp only [owedAfter_of_foreign hforeign]
  | dropped hrestarts =>
      cases hrestarts
  | started hrestarts _ =>
      cases hrestarts
  | evaluated hname hevaluates =>
      exact congrArg some (hevaluates.owed hname)
  | @announced names delivering between now job answer hname _ hdelivers _ hforeign =>
      have hdelivering : forall owed, owedAfter name owed delivering = owed := by
        cases hdelivers with
        | silent _ =>
            exact fun _ => rfl
        | ran _ _ _ =>
            intro owed
            rw [owedAfter_cons, owes_of_idle rfl rfl, owedAfter_nil]
      have hmarked : (job.markedAs answer).resetStaging = job.resetStaging := by
        cases answer <;> rfl
      rw [Option.map_some, Option.map_some, hmarked, owedAfter_append, owedAfter_append,
        hdelivering, owedAfter_of_foreign hforeign, owedAfter_cons, owes_of_idle rfl rfl]
      rfl

theorem owed_append {job mid after : Option DriveJob} {first second : List Deed}
    (hfirst : mid.map (·.resetStaging) =
      job.map fun job => owedAfter name job.resetStaging first)
    (hsecond : after.map (·.resetStaging) =
      mid.map fun job => owedAfter name job.resetStaging second) :
    after.map (·.resetStaging) =
      job.map fun job => owedAfter name job.resetStaging (first ++ second) := by
  rw [hsecond]
  cases job with
  | none =>
      rw [Option.map_eq_none_iff.mp hfirst]
      rfl
  | some job =>
      rcases Option.map_eq_some_iff.mp hfirst with ⟨mid, rfl, hmark⟩
      rw [Option.map_some, Option.map_some, owedAfter_append, hmark]

/-- While a process lives, the mark in the job of a name says what the next attempt is owed. -/
theorem Strand.owed (h : Strand name false standing trace later) :
    later.job.map (·.resetStaging) =
      standing.job.map fun job => owedAfter name job.resetStaging (trace.map (·.deed)) := by
  induction h with
  | nil _ =>
      rfl
  | @cons standing mid later setup deeds rest hturn _ _ ih =>
      have hdeeds : (deeds.map (Happening.mk setup)).map (·.deed) = deeds := by
        simp [Function.comp_def]
      rw [List.map_append, hdeeds]
      exact owed_append hturn.owed ih

/-- An attempt is told what it is owed by all that was done since the process started. -/
theorem Run.reset_eq {origin started later : Process} {registry : Registry}
    {settings : DriveSettings} {calls : List Call} {early made rest : List Happening}
    {domain : ManagedDomain} {reset : Bool} {outcome : RenewOutcome} {took : Span}
    (hstart : Run origin [.start registry settings] early started)
    (hdistinct : registry.Distinct)
    (hrun : Run started calls
      (made ++ ⟨setup, .attempted domain reset outcome took⟩ :: rest) later)
    (hstays : forall call, call ∈ calls -> call.isStart = false) (hname : domain.name = name) :
    reset = owedAfter name false ((early ++ made).map (·.deed)) := by
  rcases hrun.strand_of_stays name (hstart.sound_of_start hdistinct) hstays with ⟨_, hstrand⟩
  rcases hstrand.tries hname with ⟨mid, next, job, evaluated, first, now, last, own, late, hown,
    hjob, howner, htries, _, _, _, rfl, _⟩
  rcases hstart.of_start with ⟨starting, rfl, hstarts, _⟩
  have hmid := hown.owed
  rw [hjob] at hmid
  rcases Option.map_eq_some_iff.mp hmid.symm with ⟨begun, hbegun, howed⟩
  rw [hstarts.owed hdistinct hbegun] at howed
  calc
    reset = owedAfter name job.resetStaging first := htries.reset_eq howner
    _ = owedAfter name (owedAfter name (owedAfter name false starting) (own.map (·.deed)))
        first := by rw [howed]
    _ = _ := by simp [Function.comp_def]

end

/-!
## The first attempt after starting over
-/

/-- Whatever happened before a process was started: once a drive has started over, the first
attempt after that which a process makes is told to reset, or what was staged has been removed
since, exactly when a removal succeeded or the process itself has started the drive over. -/
theorem reset_or_cleared_iff {origin started later : Process} {registry : Registry}
    {settings : DriveSettings} {calls : List Call}
    {past early made rest before between : List Happening} {event : Happening} {setup : Setup}
    {domain : ManagedDomain} {reset : Bool} {outcome : RenewOutcome} {took : Span} {name : String}
    (hdistinct : registry.Distinct)
    (hstart : Run origin [.start registry settings] early started)
    (hrun : Run started calls
      (made ++ ⟨setup, .attempted domain reset outcome took⟩ :: rest) later)
    (hstays : forall call, call ∈ calls -> call.isStart = false) (hname : domain.name = name)
    (hhistory : past ++ (early ++ made) = before ++ event :: between)
    (hevent : event.deed.givesUp name = true)
    (hfirst : forall happening, happening ∈ between -> happening.deed.attempts name = false) :
    (reset = true ∨
        exists happening, happening ∈ event :: between ∧ happening.deed.clears name = true) ↔
      (exists happening, happening ∈ event :: between ∧ happening.deed.clears name = true) ∨
        exists happening, happening ∈ early ++ made ∧ happening.deed.givesUp name = true := by
  have hreset := hstart.reset_eq hdistinct hrun hstays hname
  have hnone : forall deed, deed ∈ between.map (·.deed) -> deed.attempts name = false :=
    List.forall_mem_map.mpr hfirst
  -- A process that has started the drive over owes the reset itself.
  have hown : forall more, early ++ made = more ++ event :: between ->
      reset = true ∧ event ∈ early ++ made := by
    intro more heq
    rw [heq] at hreset ⊢
    refine ⟨?_, by simp⟩
    rw [hreset, List.map_append, List.map_cons]
    exact owedAfter_of_givesUp hevent hnone
  rcases List.append_eq_append_iff.mp hhistory with ⟨more, _, heq⟩ | ⟨more, _, heq⟩
  · rcases hown more heq with ⟨htold, hmem⟩
    exact iff_of_true (Or.inl htold) (Or.inr ⟨event, hmem, hevent⟩)
  · cases more with
    | nil =>
        rcases hown [] heq.symm with ⟨htold, hmem⟩
        exact iff_of_true (Or.inl htold) (Or.inr ⟨event, hmem, hevent⟩)
    | cons first more =>
        -- The drive has started over before, so the process made no attempt yet.
        rw [List.cons_append] at heq
        rcases List.cons_eq_cons.mp heq with ⟨_, hbetween⟩
        have hquiet : forall deed, deed ∈ (early ++ made).map (·.deed) ->
            deed.attempts name = false := by
          intro deed hdeed
          apply hnone
          rw [hbetween, List.map_append]
          exact List.mem_append_right _ hdeed
        rw [or_comm, hreset, owedAfter_of_no_attempt hquiet, Bool.false_or, List.any_map,
          List.any_eq_true]
        rfl

/-- A process that is to be started, in a world where an attempt has failed and where nothing
that is staged can be removed. -/
def unremovable : Process where
  world :=
    { Rehearsal.atRest (MemoryStore.empty.saveJob "a" { name := "a", errorRuns := 1 }) with
      refuses := fun _ request => request = .purge .staging "a" }
  context := none

def refusedRemoval : Happening :=
  ⟨.single .incomplete, .purged .staging "a" (.error (.unavailable (.purge .staging "a")))⟩

def recovering : List Happening :=
  [.purged .challenges "a" (.ok ()), .recordSaved "a" { name := "a" } (.ok ()),
    .listed .challenges (.ok [])].map (Happening.mk (.single .incomplete))

def backingOff : List Happening :=
  [.recordSaved "a"
      { name := "a", nextRun := Instant.epoch.add? (.ofSeconds 5), errorRuns := 1,
        lastStatus := .failed, lastMessage := some "no scripted outcome" } (.ok ()),
    .clockRead .epoch, .clockRead .epoch].map (Happening.mk (.single .incomplete))

def laterAttempt (reset : Bool) : Happening :=
  ⟨.single .incomplete,
    .attempted ⟨"a", .incomplete, .auto, .default, none⟩ reset (.failed "no scripted outcome")
      .zero⟩

theorem reset_after_refused_removal :
    exists before made started later reset,
      Run unremovable [.start (Registry.single "a" .incomplete) {}]
        (before ++ refusedRemoval :: recovering) started ∧
      Run started [.tick .running] (made ++ laterAttempt reset :: backingOff) later ∧
      (reset = true ∨ exists happening,
        happening ∈ refusedRemoval :: (recovering ++ made) ∧ happening.deed.clears "a" = true) := by
  let setup : Setup := .single .incomplete
  let before : List Happening :=
    [⟨setup, .recordLoaded "a" (.ok (some { name := "a", errorRuns := 1 }))⟩]
  let made := looking setup (some { name := "a" })
  have hplay : (unremovable.play [.start (Registry.single "a" .incomplete) {}]).map
      (fun played => ((played.1.play [.tick .running]).map (fun further => further.2), played.2)) =
      .ok (.ok (made ++ laterAttempt true :: backingOff),
        before ++ refusedRemoval :: recovering) := by
    cbv
  rcases Process.runs_of_play hplay with ⟨started, later, hstart, hrun⟩
  refine ⟨before, made, started, later, true, hstart, hrun, ?_⟩
  have hhistory : [] ++ ((before ++ refusedRemoval :: recovering) ++ made) =
      before ++ refusedRemoval :: (recovering ++ made) := rfl
  refine (reset_or_cleared_iff (Registry.single_distinct "a" .incomplete) hstart hrun
    (by decide) rfl hhistory (by decide) (by decide)).mpr (Or.inr ?_)
  exact ⟨refusedRemoval, by simp, by decide⟩

/-- The record that was saved after the refused removal claims a clean state, so the process
after the next one resumes what was given up. -/
theorem leftovers_resumed_after_restart :
    exists before made stopped started later,
      Run unremovable [.start (Registry.single "a" .incomplete) {}]
        (before ++ refusedRemoval :: recovering) stopped ∧
      Run stopped [.start (Registry.single "a" .incomplete) {}]
        (resuming (.single .incomplete) (some { name := "a" })) started ∧
      Run started [.tick .running] (made ++ laterAttempt false :: backingOff) later ∧
      (forall happening,
        happening ∈ recovering ++
          (resuming (.single .incomplete) (some { name := "a" }) ++ made) ->
        happening.deed.attempts "a" = false ∧ happening.deed.clears "a" = false) ∧
      forall happening,
        happening ∈ before ++ recovering ++
          resuming (.single .incomplete) (some { name := "a" }) ++ made ++ backingOff ->
        happening.deed.refused = false := by
  let setup : Setup := .single .incomplete
  let before : List Happening :=
    [⟨setup, .recordLoaded "a" (.ok (some { name := "a", errorRuns := 1 }))⟩]
  let made := looking setup (some { name := "a" })
  have hplay : (unremovable.play [.start (Registry.single "a" .incomplete) {}]).map
      (fun played => ((played.1.play [.start (Registry.single "a" .incomplete) {}]).map
        (fun further => ((further.1.play [.tick .running]).map (fun last => last.2), further.2)),
          played.2)) =
      .ok (.ok (.ok (made ++ laterAttempt false :: backingOff),
          resuming setup (some { name := "a" })),
        before ++ refusedRemoval :: recovering) := by
    cbv
  rcases Process.run_of_play (fun stopped =>
    (stopped.play [.start (Registry.single "a" .incomplete) {}]).map
      (fun further => ((further.1.play [.tick .running]).map (fun last => last.2), further.2)))
    hplay with ⟨stopped, hfirst, hrest⟩
  rcases Process.runs_of_play hrest with ⟨started, later, hstart, hrun⟩
  exact ⟨before, made, stopped, started, later, hfirst, hstart, hrun, by decide, by decide⟩

end RenewalDrive
