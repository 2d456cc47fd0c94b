import Mathlib
import RenewalDrive.Proofs.Run.Record

/-!
# Announcements of a completed renewal

The notify command carries a name at most once for each completed attempt. What was
announced is settled: the job is marked, or the record is, and as long as no other attempt
completes, every turn keeps it that way. A job whose mark could not be saved stays dirty, so
that no reload brings the record without the mark back.
-/

namespace RenewalDrive

open Deed

namespace Deed

def completes (name : String) : Deed -> Bool
  | .attempted domain _ outcome _ => domain.name = name && outcome.isComplete
  | _ => false

end Deed

namespace Happening

/-- A successful execution of the notify command that carries a name. -/
def announces (name : String) (happening : Happening) : Bool :=
  happening.deed.announces happening.setup.settings.notifyCommand name

def completes (name : String) (happening : Happening) : Bool :=
  happening.deed.completes name

end Happening

/-!
## Settled jobs and records
-/

/-- Nothing of the job waits for an announcement. -/
def DriveJob.Settled (job : DriveJob) : Prop :=
  job.finished = true -> job.notified = true

def JobRecord.Settled (record : JobRecord) : Prop :=
  record.finished = true -> record.notified = true

/-- The job is settled, and so is its record unless the job is dirty. -/
def DriveJob.Quiet (job : DriveJob) (record : Option JobRecord) : Prop :=
  job.Settled ∧ (job.dirty = false -> forall found, record = some found -> found.Settled)

theorem DriveJob.settled_of_unfinished {job : DriveJob} (h : job.finished = false) :
    job.Settled := by
  intro hfinished
  rw [h] at hfinished
  cases hfinished

theorem DriveJob.quiet_of_dirty {job : DriveJob} {record : Option JobRecord}
    (hsettled : job.Settled) (hdirty : job.dirty = true) : job.Quiet record := by
  constructor
  · exact hsettled
  · intro hclean
    rw [hdirty] at hclean
    cases hclean

theorem DriveJob.not_settled_of_ready {job : DriveJob} {now : Instant}
    (h : job.isReady now = true) : ¬ job.Settled := by
  intro hsettled
  simp only [isReady, Bool.and_eq_true, Bool.not_eq_true'] at h
  rw [hsettled h.1.1] at h
  cases h.1.2

theorem DriveJob.settled_toRecord {job : DriveJob} (h : job.Settled) : job.toRecord.Settled :=
  h

theorem keeps_quiet (name : String) :
    Keeps name (fun _ => True) (fun deed => deed.completes name = false) DriveJob.Quiet := by
  constructor
  case loaded =>
    intro job found hclean hquiet
    have hfound : found.Settled := hquiet.2 hclean found rfl
    constructor
    · exact hfound
    · intro _ other hother
      cases hother
      exact hfound
  case begun =>
    intro job domain record later _ _ _ _
    exact DriveJob.quiet_of_dirty (DriveJob.settled_of_unfinished rfl) rfl
  case pursued =>
    intro job now domain deeds findings record hdomain _ hallows hpursues hquiet
    have hkeeping : forall nextRun, (DriveJob.recorded (job.keeping nextRun)).Quiet record := by
      intro nextRun
      constructor
      · exact hquiet.1
      · intro hclean
        apply hquiet.2
        simp only [DriveJob.recorded, DriveJob.keeping, Bool.or_eq_false_iff] at hclean
        exact hclean.1.1.1
    have hrenewed : forall renewed, job.course domain now = .renew renewed ->
        renewed.name = name :=
      fun renewed hcourse => course_renew_name hcourse hdomain
    generalize job.course domain now = course at hpursues hrenewed
    cases hpursues with
    | unmanaged =>
        exact hkeeping none
    | blocked =>
        exact DriveJob.quiet_of_dirty hquiet.1 rfl
    | finished =>
        exact hkeeping _
    | rest _ =>
        exact hkeeping none
    | completed renewed outcome took later hcomplete =>
        have hattempt := hallows _ List.mem_cons_self
        simp [completes, hrenewed renewed rfl, hcomplete] at hattempt
    | failed renewed outcome took next _ _ =>
        exact DriveJob.quiet_of_dirty hquiet.1 rfl
  case stored =>
    intro job record hquiet
    constructor
    · exact hquiet.1
    · intro _ found hfound
      cases hfound
      exact DriveJob.settled_toRecord hquiet.1

/-!
## Turns
-/

namespace Standing

def Quiet (standing : Standing) : Prop :=
  (forall job, standing.job = some job -> job.Settled) ∧
    ((forall job, standing.job = some job -> job.dirty = false) ->
      forall found, standing.record = some found -> found.Settled)

def Clean (standing : Standing) : Prop :=
  forall job, standing.job = some job -> job.dirty = false

theorem quiet_some_iff {job : DriveJob} {record : Option JobRecord} :
    Quiet ⟨some job, record⟩ ↔ job.Quiet record := by
  simp [Quiet, DriveJob.Quiet]

end Standing

section

variable {name : String} {restarts : Bool} {setup : Setup} {standing later : Standing}
  {deeds : List Deed}

theorem Turn.clean (h : Turn name restarts setup standing.job deeds later.job)
    (hsaves : SavesSucceed name deeds) (hclean : standing.Clean) : later.Clean := by
  intro job hjob
  generalize hbefore : standing.job = before at h
  rw [hjob] at h
  cases h with
  | foreign _ =>
      exact hclean job hbefore
  | started _ hstarts =>
      cases hstarts with
      | resumed answer _ =>
          rcases answer with error | found
          · rfl
          · rcases found with - | found <;> rfl
      | recovered _ _ _ saving _ =>
          rcases saving with error | done <;> rfl
  | evaluated hname hevaluates =>
      cases hname
      exact hevaluates.clean (hclean _ hbefore) hsaves
  | @announced _ _ _ _ marked answer _ _ _ _ _ =>
      have hcleanBefore := hclean _ hbefore
      rcases answer with error | done
      · exact absurd (by simp) (hsaves marked.announced.toRecord error)
      · exact hcleanBefore

/-- A turn without a completed attempt leaves what is quiet quiet. A start may only replace
a job that is not dirty. -/
theorem Turn.quiet (h : Turn name restarts setup standing.job deeds later.job)
    (hpath : RecordPath name standing.record deeds later.record)
    (hcompletes : forall deed, deed ∈ deeds -> deed.completes name = false)
    (hclean : restarts = true -> standing.Clean) (hquiet : standing.Quiet) : later.Quiet := by
  rcases standing with ⟨before, record⟩
  rcases later with ⟨after, found⟩
  dsimp only at h hpath
  cases h with
  | foreign hforeign =>
      rw [hpath.of_foreign hforeign]
      exact hquiet
  | dropped hrestarts =>
      rw [hpath.eq_of_nil]
      constructor
      · intro job hjob
        cases hjob
      · intro _
        exact hquiet.2 (hclean hrestarts)
  | @started _ job _ hstarts =>
      have hrecord : forall other, record = some other -> other.Settled :=
        hquiet.2 fun job hjob => nomatch hjob
      rw [Standing.quiet_some_iff]
      cases hstarts with
      | resumed answer _ =>
          rcases hpath.of_single with ⟨htells, hfound⟩
          cases hfound
          refine ⟨?_, fun _ => hrecord⟩
          rcases answer with error | answer
          · exact DriveJob.settled_of_unfinished rfl
          · rcases answer with - | other
            · exact DriveJob.settled_of_unfinished rfl
            · exact hrecord other (htells rfl).symm
      | recovered answer staging challenges saving _ =>
          rcases hpath.of_cons with ⟨_, hpath⟩
          rcases hpath.of_cons with ⟨_, hpath⟩
          rcases hpath.of_cons with ⟨_, hpath⟩
          cases hpath.of_single.2
          have hfresh : forall answer,
              ({ DriveJob.fresh name with resetStaging := true }.savedAs answer).Settled := by
            intro answer
            rcases answer with error | done
            · exact DriveJob.settled_of_unfinished rfl
            · exact DriveJob.settled_of_unfinished rfl
          refine ⟨hfresh saving, fun _ other hother => ?_⟩
          rcases saving with error | done
          · rcases staging with error | done
            · exact hrecord other hother
            · simp [recordAfter] at hother
          · simp only [recordAfter, if_true, Option.some.injEq] at hother
            subst hother
            exact DriveJob.settled_toRecord (DriveJob.settled_of_unfinished rfl)
  | evaluated hname hevaluates =>
      rw [Standing.quiet_some_iff] at hquiet ⊢
      exact hevaluates.keeps (keeps_quiet name) hname hpath (fun _ _ _ _ _ => trivial) hcompletes
        hquiet
  | announced answer _ hready _ _ _ =>
      exact absurd (hquiet.1 _ rfl) (DriveJob.not_settled_of_ready hready)

/-- A turn announces nothing, or it announces at most once a job that was not quiet and is
quiet then. -/
theorem Turn.silent_or_announces (h : Turn name restarts setup standing.job deeds later.job)
    (hpath : RecordPath name standing.record deeds later.record) :
    (forall deed, deed ∈ deeds ->
        deed.announces setup.settings.notifyCommand name = false) ∨
      ¬ standing.Quiet ∧ later.Quiet ∧
        deeds.countP (fun deed => deed.announces setup.settings.notifyCommand name) ≤ 1 := by
  rcases standing with ⟨before, record⟩
  rcases later with ⟨after, found⟩
  dsimp only at h hpath
  cases h with
  | foreign hforeign =>
      exact Or.inl fun deed hdeed => (hforeign deed hdeed).announces_eq
  | dropped _ =>
      exact Or.inl (List.forall_mem_nil _)
  | started _ hstarts =>
      exact Or.inl fun deed hdeed => (hstarts.own deed hdeed).announces_eq
  | evaluated _ hevaluates =>
      exact Or.inl fun deed hdeed => (hevaluates.own deed hdeed).announces_eq
  | @announced names delivering between now job answer hname hready hdelivers hmem hforeign =>
      refine Or.inr ⟨?_, ?_, ?_⟩
      · intro hquiet
        exact DriveJob.not_settled_of_ready hready (hquiet.1 _ rfl)
      · rw [Standing.quiet_some_iff]
        rcases hpath.split with ⟨delivered, _, hpath⟩
        rcases hpath.split with ⟨passed, _, hsaving⟩
        rcases answer with error | done
        · exact DriveJob.quiet_of_dirty (fun _ => rfl) rfl
        · refine ⟨fun _ => rfl, fun _ other hother => ?_⟩
          rw [hsaving.of_single.2, recordAfter, if_pos rfl] at hother
          cases hother
          exact fun _ => rfl
      · have hbetween : between.countP
            (fun deed => deed.announces setup.settings.notifyCommand name) = 0 := by
          rw [List.countP_eq_zero]
          intro deed hdeed
          rw [(hforeign deed hdeed).announces_eq]
          exact Bool.false_ne_true
        have hdelivering : delivering.length ≤ 1 := by
          cases hdelivers with
          | silent _ =>
              exact Nat.zero_le 1
          | ran _ _ _ =>
              exact Nat.le_refl 1
        have hcount := List.countP_le_length
          (p := fun deed => deed.announces setup.settings.notifyCommand name) (l := delivering)
        rw [List.countP_append, List.countP_append, hbetween, Nat.zero_add]
        exact Nat.le_trans hcount hdelivering

end

/-!
## Segments of a trace
-/

/-- Without a completed attempt a segment of the trace announces a name at most once, and
not at all if the name was quiet and the segment begins where the trace does. -/
def Sparse (name : String) (quiet : Prop) (trace : List Happening) : Prop :=
  forall segment, (forall happening, happening ∈ segment -> happening.completes name = false) ->
    (segment <:+: trace -> segment.countP (·.announces name) ≤ 1) ∧
      (quiet -> segment <+: trace -> segment.countP (·.announces name) = 0)

theorem sparse_nil (name : String) (quiet : Prop) : Sparse name quiet [] := by
  intro segment _
  constructor
  · intro hinfix
    rw [List.eq_nil_of_infix_nil hinfix]
    exact Nat.zero_le 1
  · intro _ hprefix
    rw [List.prefix_nil.mp hprefix]
    rfl

theorem countP_silent {name : String} {first part : List Happening}
    (hsilent : forall happening, happening ∈ first -> happening.announces name = false)
    (hpart : part.Sublist first) : part.countP (·.announces name) = 0 := by
  rw [List.countP_eq_zero]
  intro happening hmem
  rw [hsilent happening (hpart.mem hmem)]
  exact Bool.false_ne_true

/-- In front of a sparse trace stand happenings that announce nothing, or those of a turn
that leaves the name quiet. -/
theorem sparse_append {name : String} {quiet mid : Prop} {first rest : List Happening}
    (hfirst :
      ((forall happening, happening ∈ first -> happening.announces name = false) ∧
        (quiet -> (forall happening, happening ∈ first -> happening.completes name = false) ->
          mid)) ∨
      ¬ quiet ∧ mid ∧ first.countP (·.announces name) ≤ 1)
    (hrest : Sparse name mid rest) : Sparse name quiet (first ++ rest) := by
  have hcount : first.countP (·.announces name) ≤ 1 := by
    rcases hfirst with ⟨hsilent, _⟩ | ⟨_, _, hcount⟩
    · rw [countP_silent hsilent (List.Sublist.refl first)]
      exact Nat.zero_le 1
    · exact hcount
  intro segment hcompletes
  constructor
  · intro hinfix
    rcases List.infix_append_iff.mp hinfix with hinfix | hinfix | ⟨left, right, rfl, hleft, hright⟩
    · exact Nat.le_trans hinfix.sublist.countP_le hcount
    · exact (hrest segment hcompletes).1 hinfix
    · have hcompletesRight : forall happening, happening ∈ right ->
          happening.completes name = false :=
        fun happening hmem => hcompletes happening (List.mem_append_right _ hmem)
      rcases hrest right hcompletesRight with ⟨hmany, hnone⟩
      rw [List.countP_append]
      rcases hfirst with ⟨hsilent, _⟩ | ⟨_, hmid, _⟩
      · rw [countP_silent hsilent hleft.sublist, Nat.zero_add]
        exact hmany hright.isInfix
      · rw [hnone hmid hright, Nat.add_zero]
        exact Nat.le_trans hleft.sublist.countP_le hcount
  · intro hquiet hprefix
    rcases hfirst with ⟨hsilent, hmid⟩ | ⟨hloud, _, _⟩
    · rcases hprefix with ⟨tail, htail⟩
      rcases List.append_eq_append_iff.mp htail with ⟨more, rfl, _⟩ | ⟨more, rfl, rfl⟩
      · exact countP_silent hsilent (List.sublist_append_left segment more)
      · have hquietMid : mid :=
          hmid hquiet fun happening hmem => hcompletes happening (List.mem_append_left _ hmem)
        have hnone := (hrest more fun happening hmem =>
          hcompletes happening (List.mem_append_right _ hmem)).2 hquietMid
        rw [List.countP_append, countP_silent hsilent (List.Sublist.refl first), Nat.zero_add]
        exact hnone (List.prefix_append more tail)
    · exact absurd hquiet hloud

theorem Strand.sparse {name : String} {restarts : Bool} {standing later : Standing}
    {trace : List Happening} (h : Strand name restarts standing trace later)
    (hclean : restarts = true -> standing.Clean)
    (hsaves : restarts = true -> forall setup record error,
      ⟨setup, .recordSaved name record (.error error)⟩ ∉ trace) :
    Sparse name standing.Quiet trace := by
  induction h with
  | nil standing =>
      exact sparse_nil name _
  | @cons standing mid later setup deeds rest hturn hpath _ ih =>
      have hdeeds : restarts = true -> SavesSucceed name deeds := by
        intro hrestarts record error hsave
        exact hsaves hrestarts setup record error
          (List.mem_append_left _ (mem_trace.mpr ⟨rfl, hsave⟩))
      have hrest := ih
        (fun hrestarts => hturn.clean (hdeeds hrestarts) (hclean hrestarts))
        (fun hrestarts setup record error hsave =>
          hsaves hrestarts setup record error (List.mem_append_right _ hsave))
      apply sparse_append _ hrest
      rcases hturn.silent_or_announces hpath with hsilent | ⟨hloud, hquiet, hcount⟩
      · apply Or.inl
        constructor
        · intro happening hmem
          rcases List.mem_map.mp hmem with ⟨deed, hdeed, rfl⟩
          exact hsilent deed hdeed
        · intro hquiet hcompletes
          apply hturn.quiet hpath _ hclean hquiet
          intro deed hdeed
          exact hcompletes _ (mem_trace.mpr ⟨rfl, hdeed⟩)
      · refine Or.inr ⟨hloud, hquiet, ?_⟩
        rw [List.countP_map]
        exact hcount

/-!
## Runs
-/

theorem StartsContext.silent {registry : Registry} {settings : DriveSettings}
    {deeds : List Deed} {begun : Option DriveContext} (name : String)
    (hdistinct : registry.Distinct) (h : StartsContext registry settings deeds begun) :
    forall deed, deed ∈ deeds -> deed.announces settings.notifyCommand name = false := by
  have hportion := h.portion name hdistinct
  generalize (begun.bind (·.job? name)) = job at hportion
  generalize (registry.watchedNames.find? fun owner => owner = name) = watched at hportion
  cases hportion with
  | absent hforeign =>
      exact fun deed hdeed => (hforeign deed hdeed).announces_eq
  | present hbefore hown hafter =>
      intro deed hdeed
      rcases List.mem_append.mp hdeed with hdeed | hdeed
      · exact (hbefore deed hdeed).announces_eq
      · rcases List.mem_append.mp hdeed with hdeed | hdeed
        · exact (hown.2.own deed hdeed).announces_eq
        · exact (hafter deed hdeed).announces_eq

/-- The trace of one context is sparse: its start announces nothing, and no other start
replaces its jobs. -/
theorem Run.sparse_of_one_start {origin later : Process} {calls : List Call}
    {trace : List Happening} (name : String) (hfresh : origin.context = none)
    (h : Run origin calls trace later)
    (hdistinct : forall call, call ∈ calls -> call.Distinct)
    (hone : calls.countP Call.isStart ≤ 1) : Sparse name False trace := by
  cases calls with
  | nil =>
      rcases h.of_nil rfl with ⟨rfl, _, _⟩
      exact sparse_nil name False
  | cons first rest =>
      rcases Run.split [first] rest h with ⟨mid, early, late, hearly, hlate, rfl⟩
      rcases hearly.of_single with ⟨setup, deeds, hsetup, rfl, hperforms, _⟩
      have hfirst := hdistinct first List.mem_cons_self
      generalize hcontext : mid.context = context at hperforms
      rw [hfresh] at hperforms
      -- Without a context nothing but a start is performed.
      cases hperforms with
      | start hstarts =>
          cases hsetup
          have hsound : mid.Sound := by
            intro begun hbegun
            rw [hcontext] at hbegun
            subst hbegun
            exact hstarts.sound hfirst
          have hstays : forall call, call ∈ rest -> call.isStart = false := by
            rw [List.countP_cons_of_pos rfl] at hone
            have hnone : rest.countP Call.isStart = 0 :=
              Nat.le_zero.mp (Nat.le_of_succ_le_succ hone)
            intro call hcall
            have hkind := List.countP_eq_zero.mp hnone call hcall
            simpa using hkind
          rcases hlate.strand_of_stays name hsound hstays with ⟨_, hstrand⟩
          have hrest : Sparse name (mid.standing name).Quiet late := by
            apply hstrand.sparse
            · intro hrestarts
              cases hrestarts
            · intro hrestarts
              cases hrestarts
          refine sparse_append (Or.inl ⟨?_, False.elim⟩) hrest
          intro happening hmem
          rcases List.mem_map.mp hmem with ⟨deed, hdeed, rfl⟩
          exact hstarts.silent name hfirst deed hdeed

/-- In a run of one context, and in a run with restarts if no save of the name is refused, a
segment of the trace without a completed attempt for a name carries that name to the notify
command at most once. -/
theorem announced_at_most_once {origin later : Process} {calls : List Call}
    {trace segment : List Happening} {name : String} (hfresh : origin.context = none)
    (hrun : Run origin calls trace later)
    (hdistinct : forall call, call ∈ calls -> call.Distinct)
    (hcontexts : calls.countP Call.isStart ≤ 1 ∨
      forall setup record error, ⟨setup, .recordSaved name record (.error error)⟩ ∉ trace)
    (hsegment : segment <:+: trace)
    (hcompletes : forall happening, happening ∈ segment -> happening.completes name = false) :
    segment.countP (·.announces name) ≤ 1 := by
  rcases hcontexts with hone | hsaves
  · have hsparse := hrun.sparse_of_one_start name hfresh hdistinct hone
    exact (hsparse segment hcompletes).1 hsegment
  · rcases hrun.strand name true (Process.sound_of_fresh hfresh) hdistinct fun _ _ _ => rfl
      with ⟨_, hstrand⟩
    have hclean : (origin.standing name).Clean := by
      intro job hjob
      rw [Process.standing, hfresh] at hjob
      cases hjob
    exact (hstrand.sparse (fun _ => hclean) (fun _ => hsaves) segment hcompletes).1 hsegment

/-- A process that is to be started, in a world whose store has a completed renewal that was
not announced. -/
def unannounced : Process where
  world := Rehearsal.atRest (MemoryStore.empty.saveJob "a" { name := "a", finished := true })
  context := none

def telling : DriveSettings :=
  { notifyCommand := some "tell" }

theorem announced_once_over_restart :
    exists trace later,
      Run unannounced
        [.start (Registry.single "a" .incomplete) telling, .tick .starting,
          .start (Registry.single "a" .incomplete) telling, .tick .starting] trace later ∧
      trace.countP (·.announces "a") ≤ 1 ∧ 0 < trace.countP (·.announces "a") := by
  let announced : JobRecord := { name := "a", finished := true, notified := true }
  have hplay : (unannounced.play
      [.start (Registry.single "a" .incomplete) telling, .tick .starting,
        .start (Registry.single "a" .incomplete) telling, .tick .starting]).map
        (fun played => ((), played.2)) =
      .ok ((), [.recordLoaded "a" (.ok (some { name := "a", finished := true })),
        .listed .challenges (.ok []), .clockRead .epoch, .executed ["tell", "a"] (.ok none),
        .recordSaved "a" announced (.ok ()), .recordLoaded "a" (.ok (some announced)),
        .listed .challenges (.ok []), .clockRead .epoch].map
          (Happening.mk ⟨Registry.single "a" .incomplete, telling⟩)) := by
    cbv
  rcases Process.run_of_play (fun _ => ()) hplay with ⟨later, hrun, _⟩
  refine ⟨_, later, hrun, ?_, ?_⟩
  · apply announced_at_most_once rfl hrun
    · simp [Call.Distinct, Registry.Distinct, Registry.single_distinct]
    · apply Or.inr
      simp
    · exact List.infix_refl _
    · decide
  · decide

end RenewalDrive
