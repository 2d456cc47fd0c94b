import Mathlib.Data.List.Basic
import RenewalDrive.Proofs.Run.Record

/-!
# Attempts along a strand

An attempt belongs to an evaluation, which found its job due and asks to save what came of
it. A strand is cut here at an attempt, and what holds of a job and its record is followed
from one attempt of a name to the next.
-/

namespace RenewalDrive

open Deed

/-!
## Evaluations in a strand
-/

/-- Only evaluations look for credentials and make attempts. -/
def Deed.isEvaluation : Deed -> Bool
  | .credentialLoaded _ _ => true
  | .attempted _ _ _ _ => true
  | _ => false

theorem Deed.isEvaluation_of_attempt {deed : Deed} (h : deed.attempt?.isSome = true) :
    deed.isEvaluation = true := by
  cases deed with
  | attempted domain reset answer took =>
      rfl
  | _ =>
      cases h

section

variable {registry : Registry} {job evaluated : DriveJob} {now : Instant} {deeds : List Deed}
  {deed : Deed}

theorem Reloads.not_mem {loaded : DriveJob} (h : Reloads job deeds loaded)
    (hkind : deed.isEvaluation = true) : deed ∉ deeds := by
  intro hdeed
  cases h with
  | kept _ =>
      cases hdeed
  | asked _ _ =>
      cases List.mem_singleton.mp hdeed
      cases hkind

theorem Stores.not_mem {stored : DriveJob} (h : Stores job deeds stored)
    (hkind : deed.isEvaluation = true) : deed ∉ deeds := by
  intro hdeed
  cases h with
  | kept _ =>
      cases hdeed
  | asked _ _ =>
      cases List.mem_singleton.mp hdeed
      cases hkind

theorem Begins.not_mem {domain : Option ManagedDomain} {begun : DriveJob}
    (h : Begins job domain deeds begun) (hkind : deed.isEvaluation = true) : deed ∉ deeds := by
  intro hdeed
  cases h with
  | kept _ =>
      cases hdeed
  | generation _ _ =>
      cases List.mem_singleton.mp hdeed
      cases hkind

theorem Starts.not_mem {name : String} (h : Starts name deeds job)
    (hkind : deed.isEvaluation = true) : deed ∉ deeds := by
  intro hdeed
  cases h with
  | resumed _ _ =>
      cases List.mem_singleton.mp hdeed
      cases hkind
  | recovered _ _ _ _ _ =>
      simp only [List.mem_cons, List.not_mem_nil, or_false] at hdeed
      rcases hdeed with rfl | rfl | rfl | rfl
      · cases hkind
      · cases hkind
      · cases hkind
      · cases hkind

theorem Pursues.attempt_iff {course : Course} {findings : Findings}
    (h : Pursues job now course deeds findings) :
    (exists deed, deed ∈ deeds ∧ deed.attempt?.isSome = true) ↔
      exists domain, course = .renew domain := by
  cases h with
  | completed domain outcome took later _ =>
      exact iff_of_true ⟨_, List.mem_cons_self, rfl⟩ ⟨domain, rfl⟩
  | failed domain outcome took next _ _ =>
      exact iff_of_true ⟨_, List.mem_cons_self, rfl⟩ ⟨domain, rfl⟩
  | _ =>
      simp

theorem Begins.unfinished_iff {domain : ManagedDomain} {begun : DriveJob}
    (h : Begins job (some domain) deeds begun) :
    begun.finished = false ↔
      job.finished = false ∨ job.isActivated domain.credential = true := by
  cases h with
  | kept hkept =>
      exact (or_iff_left hkept).symm
  | generation answer hactivated =>
      exact iff_of_true rfl (Or.inr hactivated)

theorem Turn.evaluation_of_mem {name : String} {restarts : Bool} {setup : Setup}
    {job later : Option DriveJob} {deeds : List Deed} {deed : Deed}
    (h : Turn name restarts setup job deeds later) (hdeed : deed ∈ deeds)
    (hkind : deed.isEvaluation = true) (hname : ¬ deed.Foreign setup.settings.notifyCommand name) :
    exists before verdict after, job = some before ∧ later = some after ∧ before.name = name ∧
      Evaluates setup.registry before deeds verdict after := by
  cases h with
  | foreign hforeign =>
      exact absurd (hforeign deed hdeed) hname
  | dropped _ =>
      cases hdeed
  | started _ hstarts =>
      exact absurd hdeed (hstarts.not_mem hkind)
  | evaluated howner hevaluates =>
      exact ⟨_, _, _, rfl, rfl, howner, hevaluates⟩
  | announced _ _ _ hdelivers _ hforeign =>
      rcases List.mem_append.mp hdeed with hdeed | hdeed
      · cases hdelivers with
        | silent _ =>
            cases hdeed
        | ran _ _ _ =>
            cases List.mem_singleton.mp hdeed
            cases hkind
      · rcases List.mem_append.mp hdeed with hdeed | hdeed
        · exact absurd (hforeign deed hdeed) hname
        · cases List.mem_singleton.mp hdeed
          cases hkind

theorem Evaluates.due_of_mem {verdict : Evaluation}
    (h : Evaluates registry job deeds verdict evaluated) (hdeed : deed ∈ deeds)
    (hkind : deed.isEvaluation = true) :
    exists loading loaded now rest, deeds = (loading ++ [.clockRead now]) ++ rest ∧
      Reloads job loading loaded ∧ loaded.isDue now = true ∧
      EvaluatesDue registry loaded now rest evaluated ∧ deed ∉ loading ++ [.clockRead now] := by
  have hreading : forall now, deed ∉ [Deed.clockRead now] := by
    intro now hmem
    cases List.mem_singleton.mp hmem
    cases hkind
  cases h with
  | notDue now hloads _ =>
      rcases List.mem_append.mp hdeed with hmem | hmem
      · exact absurd hmem (hloads.not_mem hkind)
      · exact absurd hmem (hreading now)
  | @due loading rest loaded _ now hloads hdue hevaluates =>
      refine ⟨loading, loaded, now, rest, by simp, hloads, hdue, hevaluates, ?_⟩
      intro hmem
      rcases List.mem_append.mp hmem with hmem | hmem
      · exact hloads.not_mem hkind hmem
      · exact hreading now hmem

end

/-!
## Evaluations cut at the look for credentials
-/

/-- What an evaluation does before and after it looks for the credentials of its domain, and
what it makes of the job. -/
inductive Looks (registry : Registry) (job : DriveJob)
    (answer : Except StoreError (Option Credential)) :
    List Deed -> List Deed -> DriveJob -> Prop where
  | cut {loading beginning pursuing storing : List Deed} {loaded begun evaluated : DriveJob}
      {configured : ManagedDomain} {now : Instant} {findings : Findings} :
      Reloads job loading loaded ->
      registry.get? loaded.name = some configured ->
      Begins loaded (some (configured.current now answer)) beginning begun ->
      Pursues begun now (begun.course (some (configured.current now answer)) now) pursuing
        findings ->
      Stores (.recorded findings) storing evaluated ->
      Looks registry job answer (loading ++ [.clockRead now])
        (beginning ++ (pursuing ++ storing)) evaluated

theorem Evaluates.looks {registry : Registry} {job evaluated : DriveJob} {deeds : List Deed}
    {verdict : Evaluation} {owner : String} {answer : Except StoreError (Option Credential)}
    (h : Evaluates registry job deeds verdict evaluated)
    (hlook : .credentialLoaded owner answer ∈ deeds) :
    exists before after, deeds = before ++ .credentialLoaded owner answer :: after ∧
      .credentialLoaded owner answer ∉ before ∧ .credentialLoaded owner answer ∉ after ∧
      Looks registry job answer before after evaluated := by
  rcases h.due_of_mem hlook rfl with
    ⟨loading, loaded, now, rest, rfl, hloads, _, hevaluates, hnot⟩
  have hrest : Deed.credentialLoaded owner answer ∈ rest := by
    rcases List.mem_append.mp hlook with hmem | hmem
    · exact absurd hmem hnot
    · exact hmem
  cases hevaluates with
  | @phases domain begun evaluated findings inspecting beginning pursuing storing hinspects hbegins
      hpursues hstores =>
      have hpursuing : Deed.credentialLoaded owner answer ∉ pursuing := by
        intro hmem
        generalize begun.course domain now = course at hpursues
        cases hpursues <;> simp at hmem
      have hafter : Deed.credentialLoaded owner answer ∉ beginning ++ (pursuing ++ storing) := by
        simp only [List.mem_append, not_or]
        exact ⟨hbegins.not_mem rfl, hpursuing, hstores.not_mem rfl⟩
      have hinspecting : Deed.credentialLoaded owner answer ∈ inspecting := by
        rcases List.mem_append.mp hrest with hmem | hmem
        · exact hmem
        · exact absurd hmem hafter
      generalize hget : registry.get? loaded.name = configured at hinspects
      cases hinspects with
      | unmanaged =>
          cases hinspecting
      | managed configured seen =>
          cases List.mem_singleton.mp hinspecting
          exact ⟨loading ++ [.clockRead now], beginning ++ (pursuing ++ storing), rfl, hnot, hafter,
            Looks.cut hloads hget hbegins hpursues hstores⟩

/-- A turn that looks for the credentials of its name is an evaluation, cut at the look. -/
theorem Turn.looks {name : String} {restarts : Bool} {setup : Setup} {job later : Option DriveJob}
    {first last : List Deed} {answer : Except StoreError (Option Credential)}
    (h : Turn name restarts setup job (first ++ .credentialLoaded name answer :: last) later) :
    exists own evaluated, job = some own ∧ later = some evaluated ∧ own.name = name ∧
      Looks setup.registry own answer first last evaluated := by
  rcases h.evaluation_of_mem (List.mem_append_right _ List.mem_cons_self) rfl
    (fun hforeign => hforeign rfl) with
    ⟨own, verdict, evaluated, hjob, hevaluated, howner, hevaluates⟩
  rcases hevaluates.looks (List.mem_append_right _ List.mem_cons_self) with
    ⟨first', last', hdeeds, hfirst, hlast, hlooks⟩
  -- The look stands only once in its turn.
  rcases (List.append_cons_inj_of_notMem hfirst hlast).mp hdeeds.symm with ⟨rfl, _, rfl⟩
  exact ⟨own, evaluated, hjob, hevaluated, howner, hlooks⟩

/-- An evaluation that looks for credentials makes an attempt by the domain that the answer
makes of the configured one. -/
theorem Looks.attempt_iff {answer : Except StoreError (Option Credential)}
    {before after : List Deed} {registry : Registry} {job evaluated : DriveJob}
    (h : Looks registry job answer before after evaluated) (owner : String) :
    exists loading loaded now configured,
      before = loading ++ [.clockRead now] ∧ Reloads job loading loaded ∧
      registry.get? job.name = some configured ∧
      ((exists deed, deed ∈ before ++ .credentialLoaded owner answer :: after ∧
          deed.attempt?.isSome = true) ↔
        (configured.current now answer).state ≠ .missingInformation ∧
        (loaded.finished = false ∨
          loaded.isActivated (configured.current now answer).credential = true) ∧
        (configured.current now answer).shouldRenew now = true) := by
  cases h with
  | @cut loading beginning pursuing storing loaded begun evaluated configured now findings hloads
      hget hbegins hpursues hstores =>
      refine ⟨loading, loaded, now, configured, rfl, hloads, hloads.name_eq ▸ hget, ?_⟩
      rw [← hbegins.unfinished_iff]
      -- The other phases make no attempt, whatever they do.
      have hpursuing : (exists deed, deed ∈ (loading ++ [.clockRead now]) ++
          .credentialLoaded owner answer :: (beginning ++ (pursuing ++ storing)) ∧
            deed.attempt?.isSome = true) ↔
          exists deed, deed ∈ pursuing ∧ deed.attempt?.isSome = true := by
        refine exists_congr fun deed => and_congr_left fun hattempt => ?_
        have hkind := Deed.isEvaluation_of_attempt hattempt
        have hloading := hloads.not_mem hkind
        have hbeginning := hbegins.not_mem hkind
        have hstoring := hstores.not_mem hkind
        have hread : deed ≠ .clockRead now := fun heq => by
          subst heq
          cases hattempt
        have hlook : deed ≠ .credentialLoaded owner answer := fun heq => by
          subst heq
          cases hattempt
        simp [hloading, hbeginning, hstoring, hread, hlook]
      rw [hpursuing, hpursues.attempt_iff]
      constructor
      · rintro ⟨renewed, hcourse⟩
        rcases DriveJob.course_eq_renew_iff.mp hcourse with ⟨hseen, hrenews⟩
        cases hseen
        exact hrenews
      · intro hrenews
        exact ⟨_, DriveJob.course_eq_renew_iff.mpr ⟨rfl, hrenews⟩⟩

/-!
## Evaluations cut at an attempt
-/

def Deed.attempts (name : String) (deed : Deed) : Bool :=
  deed.attempt?.any fun attempt => attempt.1.name = name

/-- What an evaluation does before an attempt and after it, the reading of the clock that it
goes by, and what it makes of the job. -/
inductive Tries (registry : Registry) (job : DriveJob) (domain : ManagedDomain) (reset : Bool)
    (outcome : RenewOutcome) (took : Span) :
    List Deed -> Instant -> List Deed -> DriveJob -> Prop where
  | cut {loading inspecting beginning pursuing : List Deed} {loaded begun : DriveJob}
      {seen : Option ManagedDomain} {now : Instant} {findings : Findings}
      (answer : Except StoreError Unit) :
      Reloads job loading loaded ->
      loaded.isDue now = true ->
      Inspects now (registry.get? loaded.name) inspecting seen ->
      Begins loaded seen beginning begun ->
      begun.course seen now = .renew domain ->
      Pursues begun now (.renew domain) (.attempted domain reset outcome took :: pursuing)
        findings ->
      Tries registry job domain reset outcome took
        (loading ++ .clockRead now :: (inspecting ++ beginning)) now
        (pursuing ++ [.recordSaved job.name (DriveJob.recorded findings).toRecord answer])
        ((DriveJob.recorded findings).savedAs answer)

section

variable {registry : Registry} {job evaluated : DriveJob} {domain : ManagedDomain} {reset : Bool}
  {outcome : RenewOutcome} {took : Span} {before after : List Deed} {now : Instant}

theorem Reloads.errorRuns_cases {deeds : List Deed} {loaded : DriveJob}
    (h : Reloads job deeds loaded) :
    loaded.errorRuns = job.errorRuns ∨
      exists record, .recordLoaded job.name (.ok (some record)) ∈ deeds ∧
        loaded.errorRuns = record.errorRuns := by
  cases h with
  | kept _ =>
      exact .inl rfl
  | asked answer _ =>
      rcases answer with error | - | record
      · exact .inl rfl
      · exact .inl rfl
      · exact .inr ⟨record, List.mem_cons_self, rfl⟩

/-- An attempt that does not complete counts one error more than the job had in memory, or than
the record that replaced it, or one if the job had just started over. -/
theorem Tries.counted (h : Tries registry job domain reset outcome took before now after evaluated)
    (hfailed : outcome.isComplete = false) :
    exists count : ErrorCount, evaluated.errorRuns = count + 1 ∧
      (count = 0 ∨ count = job.errorRuns ∨
        exists record, .recordLoaded job.name (.ok (some record)) ∈ before ∧
          count = record.errorRuns) := by
  cases h with
  | @cut loading _ _ _ loaded begun _ _ _ answer hloads _ _ hbegins _ hpursues =>
      cases hpursues with
      | completed _ _ _ _ hcomplete =>
          rw [hcomplete] at hfailed
          cases hfailed
      | failed _ _ _ next _ _ =>
          refine ⟨begun.errorRuns, by cases answer <;> rfl, ?_⟩
          cases hbegins with
          | generation _ _ =>
              exact .inl rfl
          | kept _ =>
              refine .inr (hloads.errorRuns_cases.imp_right ?_)
              rintro ⟨record, hrecord, hcount⟩
              exact ⟨record, List.mem_append_left _ hrecord, hcount⟩

theorem Inspects.attempt_not_mem {deeds : List Deed} {configured seen : Option ManagedDomain}
    (h : Inspects now configured deeds seen) : .attempted domain reset outcome took ∉ deeds := by
  intro hdeed
  cases h with
  | unmanaged =>
      cases hdeed
  | managed _ _ =>
      cases List.mem_singleton.mp hdeed

theorem Pursues.stores_of_attempt {begun stored : DriveJob} {course : Course}
    {pursuing storing : List Deed} {findings : Findings}
    (h : Pursues begun now course pursuing findings)
    (hattempt : .attempted domain reset outcome took ∈ pursuing)
    (hstores : Stores (.recorded findings) storing stored) :
    course = .renew domain ∧
      (exists rest, pursuing = .attempted domain reset outcome took :: rest ∧
        forall deed, deed ∈ rest -> deed.isEvaluation = false) ∧
      exists answer, storing = [.recordSaved (DriveJob.recorded findings).name
          (DriveJob.recorded findings).toRecord answer] ∧
        stored = (DriveJob.recorded findings).savedAs answer := by
  have hsaved : (DriveJob.recorded findings).dirty = true ->
      exists answer, storing = [.recordSaved (DriveJob.recorded findings).name
          (DriveJob.recorded findings).toRecord answer] ∧
        stored = (DriveJob.recorded findings).savedAs answer := by
    intro hdirty
    cases hstores with
    | kept hclean =>
        rw [hdirty] at hclean
        cases hclean
    | asked answer _ =>
        exact ⟨answer, rfl, rfl⟩
  cases h with
  | completed _ _ _ later _ =>
      rcases List.mem_cons.mp hattempt with heq | hmem
      · cases heq
        refine ⟨rfl, ⟨_, rfl, ?_⟩, hsaved rfl⟩
        exact List.forall_mem_singleton.mpr rfl
      · cases List.mem_singleton.mp hmem
  | failed _ _ _ _ _ _ =>
      cases List.mem_singleton.mp hattempt
      exact ⟨rfl, ⟨[], rfl, List.forall_mem_nil _⟩, hsaved rfl⟩
  | _ =>
      cases hattempt

theorem Evaluates.tries {deeds : List Deed} {verdict : Evaluation}
    (h : Evaluates registry job deeds verdict evaluated)
    (hattempt : .attempted domain reset outcome took ∈ deeds) :
    exists before now after,
      deeds = before ++ .attempted domain reset outcome took :: after ∧
      .attempted domain reset outcome took ∉ before ∧
      .attempted domain reset outcome took ∉ after ∧
      Tries registry job domain reset outcome took before now after evaluated := by
  rcases h.due_of_mem hattempt rfl with
    ⟨loading, loaded, now, rest, rfl, hloads, hdue, hevaluates, hnot⟩
  have hrest : Deed.attempted domain reset outcome took ∈ rest := by
    rcases List.mem_append.mp hattempt with hmem | hmem
    · exact absurd hmem hnot
    · exact hmem
  cases hevaluates with
  | @phases seen begun evaluated findings inspecting beginning pursuing storing hinspects hbegins
      hpursues hstores =>
      have hinspecting : Deed.attempted domain reset outcome took ∉ inspecting :=
        hinspects.attempt_not_mem
      have hbeginning : Deed.attempted domain reset outcome took ∉ beginning := hbegins.not_mem rfl
      have hstoring : Deed.attempted domain reset outcome took ∉ storing := hstores.not_mem rfl
      have hpursuing : Deed.attempted domain reset outcome took ∈ pursuing := by
        simp only [List.mem_append, hinspecting, hbeginning, hstoring, false_or, or_false] at hrest
        exact hrest
      rcases hpursues.stores_of_attempt hpursuing hstores with
        ⟨hcourse, ⟨last, rfl, hlast⟩, answer, rfl, rfl⟩
      rw [hcourse] at hpursues
      have hname : (DriveJob.recorded findings).name = job.name :=
        (hpursues.name_eq.trans hbegins.name_eq).trans hloads.name_eq
      rw [hname]
      refine ⟨loading ++ .clockRead now :: (inspecting ++ beginning), now, _, ?_, ?_, ?_,
        Tries.cut answer hloads hdue hinspects hbegins hcourse hpursues⟩
      · simp
      · simp only [List.mem_append, List.mem_cons, List.not_mem_nil, or_false, not_or] at hnot ⊢
        exact ⟨hnot.1, hnot.2, hinspecting, hbeginning⟩
      · intro hmem
        rcases List.mem_append.mp hmem with hmem | hmem
        · cases hlast _ hmem
        · cases List.mem_singleton.mp hmem

end

theorem Turn.tries {name : String} {restarts : Bool} {setup : Setup} {job later : Option DriveJob}
    {first last : List Deed} {domain : ManagedDomain} {reset : Bool} {outcome : RenewOutcome}
    {took : Span}
    (h : Turn name restarts setup job (first ++ .attempted domain reset outcome took :: last) later)
    (hname : domain.name = name) :
    exists own evaluated now, job = some own ∧ later = some evaluated ∧ own.name = name ∧
      Tries setup.registry own domain reset outcome took first now last evaluated := by
  rcases h.evaluation_of_mem (List.mem_append_right _ List.mem_cons_self) rfl
    (fun hforeign => hforeign hname) with
    ⟨own, verdict, evaluated, hjob, hevaluated, howner, hevaluates⟩
  rcases hevaluates.tries (List.mem_append_right _ List.mem_cons_self) with
    ⟨first', now, last', hdeeds, hfirst, hlast, htries⟩
  -- The attempt stands only once in its turn.
  rcases (List.append_cons_inj_of_notMem hfirst hlast).mp hdeeds.symm with ⟨rfl, _, rfl⟩
  exact ⟨own, evaluated, now, hjob, hevaluated, howner, htries⟩

theorem Strand.tries {name : String} {restarts : Bool} {standing later : Standing}
    {before rest : List Happening} {setup : Setup} {domain : ManagedDomain} {reset : Bool}
    {outcome : RenewOutcome} {took : Span}
    (h : Strand name restarts standing
      (before ++ ⟨setup, .attempted domain reset outcome took⟩ :: rest) later)
    (hname : domain.name = name) :
    exists mid next job evaluated first now last early late,
      Strand name restarts standing early mid ∧ mid.job = some job ∧ job.name = name ∧
      Tries setup.registry job domain reset outcome took first now last evaluated ∧
      RecordPath name mid.record (first ++ .attempted domain reset outcome took :: last)
        next.record ∧
      next.job = some evaluated ∧ Strand name restarts next late later ∧
      before = early ++ first.map (Happening.mk setup) ∧
      rest = last.map (Happening.mk setup) ++ late := by
  rcases h.turn_of_mem with
    ⟨mid, next, owner, first, last, early, late, hearly, hturn, hpath, hlate, rfl, hbefore, hrest⟩
  rcases hturn.tries hname with ⟨job, evaluated, now, hjob, hevaluated, howner, htries⟩
  exact ⟨mid, next, job, evaluated, first, now, last, early, late, hearly, hjob, howner, htries,
    hpath, hevaluated, hlate, hbefore, hrest⟩

/-!
## Conditions on a job and its record
-/

/-- The job meets a condition, and unless it is marked as changed, so does its record. -/
def DriveJob.Backed (holds : JobRecord -> Prop) (job : DriveJob) (record : Option JobRecord) :
    Prop :=
  holds job.toRecord ∧ (job.dirty = false -> forall found, record = some found -> holds found)

section

variable {name : String} {holds : JobRecord -> Prop} {record later : Option JobRecord}
  {job : DriveJob}

theorem Reloads.backed {deeds : List Deed} {loaded : DriveJob} (h : Reloads job deeds loaded)
    (hname : job.name = name) (hpath : RecordPath name record deeds later)
    (hrenamed : forall record name, holds record -> holds { record with name := name })
    (hbacked : job.Backed holds record) : loaded.Backed holds later := by
  rcases h.path hname hpath with ⟨rfl, rfl | ⟨hclean, found, rfl, rfl⟩⟩
  · exact hbacked
  · have hfound : holds found := hbacked.2 hclean found rfl
    constructor
    · exact hrenamed found job.name hfound
    · intro _ other hother
      cases hother
      exact hfound

theorem DriveJob.Backed.markedAs {answer : Except StoreError Unit} (h : job.Backed holds record)
    (hpath : RecordPath name record [.recordSaved name job.announced.toRecord answer] later)
    (hannounced : forall record, holds record -> holds { record with notified := true }) :
    (job.markedAs answer).Backed holds later := by
  have hjob : holds job.announced.toRecord := hannounced job.toRecord h.1
  refine ⟨?_, ?_⟩
  · rcases answer with error | done
    · exact hjob
    · exact hjob
  · intro hclean found hfound
    rcases answer with error | done
    · cases hclean
    · have hlater : later = some job.announced.toRecord := hpath.of_single.2.trans (if_pos rfl)
      rw [hlater] at hfound
      cases hfound
      exact hjob

theorem keeps_backed {admits : Option ManagedDomain -> Prop} {allows : Deed -> Prop}
    (hrenamed : forall record name, holds record -> holds { record with name := name })
    (hinactive : forall (job : DriveJob) domain, admits domain -> holds job.toRecord ->
      ¬ job.Activated domain)
    (hpursued : forall job now domain deeds findings,
      (forall found, domain = some found -> found.name = name) -> admits domain ->
      (forall deed, deed ∈ deeds -> allows deed) ->
      Pursues job now (job.course domain now) deeds findings -> holds job.toRecord ->
      holds (DriveJob.recorded findings).toRecord) :
    Keeps name admits allows (DriveJob.Backed holds) := by
  constructor
  case loaded =>
    intro job found hclean hbacked
    have hfound : holds found := hbacked.2 hclean found rfl
    refine ⟨hrenamed found job.name hfound, ?_⟩
    intro _ other hother
    cases hother
    exact hfound
  case begun =>
    intro job domain record later hadmits hactivated _ hbacked
    exact absurd hactivated (hinactive job domain hadmits hbacked.1)
  case pursued =>
    intro job now domain deeds findings record hdomain hadmits hallows hpursues hbacked
    refine ⟨hpursued job now domain deeds findings hdomain hadmits hallows hpursues hbacked.1, ?_⟩
    intro hclean found hfound
    rw [hpursues.recorded_of_clean hclean] at hclean
    exact hbacked.2 hclean found hfound
  case stored =>
    intro job record hbacked
    refine ⟨hbacked.1, ?_⟩
    intro _ found hfound
    cases hfound
    exact hbacked.1

/-- While a process lives, only evaluations and announcements concern a condition on the job
of a name and its record. -/
theorem Strand.meets {holds : DriveJob -> Option JobRecord -> Prop} {standing final : Standing}
    {trace : List Happening} (h : Strand name false standing trace final)
    (hevaluated : forall setup deeds verdict job evaluated record later,
      (forall deed, deed ∈ deeds -> ⟨setup, deed⟩ ∈ trace) -> job.name = name ->
      Evaluates setup.registry job deeds verdict evaluated ->
      RecordPath name record deeds later -> holds job record -> holds evaluated later)
    (hannounced : forall job record later answer,
      RecordPath name record [.recordSaved name job.announced.toRecord answer] later ->
      holds job record -> holds (job.markedAs answer) later)
    (hmeets : standing.Meets holds) : final.Meets holds := by
  refine h.induct ?_ hmeets
  intro standing mid setup deeds hdeeds hturn hpath hmeets job hjob
  generalize hbefore : standing.job = before at hturn
  rw [hjob] at hturn
  cases hturn with
  | foreign hforeign =>
      rw [hpath.of_foreign hforeign]
      exact hmeets job hbefore
  | started hrestarts _ =>
      cases hrestarts
  | evaluated hname hevaluates =>
      exact hevaluated setup deeds _ _ job _ _ hdeeds hname hevaluates hpath (hmeets _ hbefore)
  | announced answer _ _ hdelivers _ hforeign =>
      rcases hpath.split with ⟨delivered, hdelivering, hpath⟩
      rcases hpath.split with ⟨between, hbetween, hsaving⟩
      cases hbetween.of_foreign hforeign
      rw [hdelivers.path hdelivering] at hsaving
      exact hannounced _ _ _ answer hsaving (hmeets _ hbefore)

end

end RenewalDrive
