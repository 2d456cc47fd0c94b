import RenewalDrive.Proofs.Run.Strand

/-!
# Records along a run

What the phases of an evaluation do to the record in the store beside what they do to the
job, and how a run is cut at one of its calls.
-/

namespace RenewalDrive

open Deed

/-!
## Records along deeds
-/

namespace RecordPath

variable {name : String} {record later : Option JobRecord}

theorem of_single {deed : Deed} (h : RecordPath name record [deed] later) :
    deed.TellsRecord name record ∧ later = deed.recordAfter name record := by
  rcases h.of_cons with ⟨htells, hrest⟩
  exact ⟨htells, hrest.eq_of_nil⟩

theorem of_foreign {command : Option String} {deeds : List Deed}
    (h : RecordPath name record deeds later) (hforeign : AllForeign command name deeds) :
    later = record := by
  induction h with
  | nil _ =>
      rfl
  | @cons record later deed deeds _ _ ih =>
      have hsame : deed.recordAfter name record = record := by
        have hdeed := hforeign deed List.mem_cons_self
        unfold recordAfter
        split
        · exact if_neg hdeed
        · exact if_neg (hdeed rfl)
        · rfl
      rw [hsame] at ih
      exact ih fun other hother => hforeign other (List.mem_cons_of_mem deed hother)

end RecordPath

section

variable {name : String} {record later : Option JobRecord} {deeds : List Deed} {job : DriveJob}

theorem Reloads.path {loaded : DriveJob} (h : Reloads job deeds loaded) (hname : job.name = name)
    (hpath : RecordPath name record deeds later) :
    later = record ∧
      (loaded = job ∨
        job.dirty = false ∧ exists found, record = some found ∧ loaded = job.apply found) := by
  cases h with
  | kept _ =>
      exact ⟨hpath.eq_of_nil, Or.inl rfl⟩
  | asked answer hclean =>
      rcases hpath.of_single with ⟨htells, hlater⟩
      refine ⟨hlater, ?_⟩
      rcases answer with error | found
      · exact Or.inl rfl
      · have hfound := htells hname
        rcases found with - | found
        · exact Or.inl rfl
        · exact Or.inr ⟨hclean, found, hfound.symm, rfl⟩

theorem Inspects.path {now : Instant} {configured domain : Option ManagedDomain}
    (h : Inspects now configured deeds domain) (hpath : RecordPath name record deeds later) :
    later = record := by
  cases h with
  | unmanaged =>
      exact hpath.eq_of_nil
  | managed domain answer =>
      exact hpath.of_single.2

theorem Begins.path {domain : Option ManagedDomain} {begun : DriveJob}
    (h : Begins job domain deeds begun) (hpath : RecordPath name record deeds later) :
    begun = job ∧ later = record ∨
      begun = job.nextGeneration ∧ job.Activated domain ∧ (later = record ∨ later = none) := by
  cases h with
  | kept _ =>
      exact Or.inl ⟨rfl, hpath.eq_of_nil⟩
  | generation answer hactivated =>
      refine Or.inr ⟨rfl, hactivated, ?_⟩
      have hlater := hpath.of_single.2
      rcases answer with error | done
      · exact Or.inl hlater
      · by_cases howner : job.name = name
        · exact Or.inr (hlater.trans (if_pos howner))
        · exact Or.inl (hlater.trans (if_neg howner))

theorem Pursues.path {now : Instant} {course : Course} {findings : Findings}
    (h : Pursues job now course deeds findings) (hpath : RecordPath name record deeds later) :
    later = record := by
  cases h with
  | completed domain outcome took now _ =>
      rcases hpath.of_cons with ⟨_, hrest⟩
      exact hrest.of_single.2
  | failed domain outcome took next _ _ =>
      exact hpath.of_single.2
  | _ =>
      exact hpath.eq_of_nil

theorem Stores.path {stored : DriveJob} (h : Stores job deeds stored) (hname : job.name = name)
    (hpath : RecordPath name record deeds later) :
    stored = job ∧ later = record ∨
      stored = { job with dirty := false } ∧ later = some job.toRecord := by
  cases h with
  | kept _ =>
      exact Or.inl ⟨rfl, hpath.eq_of_nil⟩
  | asked answer _ =>
      have hlater := hpath.of_single.2
      rcases answer with error | done
      · exact Or.inl ⟨rfl, hlater⟩
      · exact Or.inr ⟨rfl, hlater.trans (if_pos hname)⟩

theorem Delivers.path {command : Option String} {names : List String} {delivered : Bool}
    (h : Delivers command names deeds delivered) (hpath : RecordPath name record deeds later) :
    later = record := by
  cases h with
  | silent _ =>
      exact hpath.eq_of_nil
  | ran _ _ _ =>
      exact hpath.of_single.2
  | failed _ _ _ =>
      exact hpath.of_single.2

end

/-!
## What evaluations keep
-/

/-- Every phase of an evaluation keeps something of the job and its record, as long as the
domain that is looked at and the deeds that are done are admitted. -/
structure Keeps (name : String) (admits : Option ManagedDomain -> Prop) (allows : Deed -> Prop)
    (holds : DriveJob -> Option JobRecord -> Prop) : Prop where
  loaded : forall job found, job.dirty = false -> holds job (some found) ->
    holds (job.apply found) (some found)
  begun : forall job domain record later, admits domain -> job.Activated domain ->
    (later = record ∨ later = none) -> holds job record -> holds job.nextGeneration later
  pursued : forall job now domain deeds findings record,
    (forall found, domain = some found -> found.name = name) -> admits domain ->
    (forall deed, deed ∈ deeds -> allows deed) ->
    Pursues job now (job.course domain now) deeds findings -> holds job record ->
    holds (.recorded findings) record
  stored : forall job record, holds job record -> holds { job with dirty := false }
    (some job.toRecord)

section

variable {name : String} {admits : Option ManagedDomain -> Prop} {allows : Deed -> Prop}
  {holds : DriveJob -> Option JobRecord -> Prop} {registry : Registry} {now : Instant}
  {deeds : List Deed} {job evaluated : DriveJob} {record later : Option JobRecord}

theorem EvaluatesDue.keeps (hkeeps : Keeps name admits allows holds)
    (h : EvaluatesDue registry job now deeds evaluated) (hname : job.name = name)
    (hpath : RecordPath name record deeds later)
    (hadmits : forall inspecting domain, Inspects now (registry.get? name) inspecting domain ->
      (forall deed, deed ∈ inspecting -> deed ∈ deeds) -> admits domain)
    (hallows : forall deed, deed ∈ deeds -> allows deed) (hholds : holds job record) :
    holds evaluated later := by
  cases h with
  | @phases domain begun evaluated findings inspecting beginning pursuing storing hinspects hbegins
      hpursues hstores =>
      rw [hname] at hinspects
      have hdomain : admits domain :=
        hadmits inspecting domain hinspects fun _ hdeed => List.mem_append_left _ hdeed
      have hpursuingAllowed : forall deed, deed ∈ pursuing -> allows deed := by
        intro deed hdeed
        apply hallows
        exact List.mem_append_right _
          (List.mem_append_right _ (List.mem_append_left _ hdeed))
      rcases hpath.split with ⟨inspected, hinspecting, hpath⟩
      rcases hpath.split with ⟨started, hbeginning, hpath⟩
      rcases hpath.split with ⟨pursued, hpursuing, hstoring⟩
      cases hinspects.path hinspecting
      cases hpursues.path hpursuing
      have hbegun : holds begun started := by
        rcases hbegins.path hbeginning with ⟨rfl, rfl⟩ | ⟨rfl, hactivated, hlater⟩
        · exact hholds
        · exact hkeeps.begun job domain record started hdomain hactivated hlater hholds
      have hfound : holds (.recorded findings) started :=
        hkeeps.pursued begun now domain pursuing findings started hinspects.domain_name hdomain
          hpursuingAllowed hpursues hbegun
      have hfoundName : (DriveJob.recorded findings).name = name :=
        (hpursues.name_eq.trans hbegins.name_eq).trans hname
      rcases hstores.path hfoundName hstoring with ⟨rfl, rfl⟩ | ⟨rfl, rfl⟩
      · exact hfound
      · exact hkeeps.stored _ started hfound

theorem Evaluates.keeps {verdict : Evaluation} (hkeeps : Keeps name admits allows holds)
    (h : Evaluates registry job deeds verdict evaluated) (hname : job.name = name)
    (hpath : RecordPath name record deeds later)
    (hadmits : forall now inspecting domain,
      Inspects now (registry.get? name) inspecting domain ->
      (forall deed, deed ∈ inspecting -> deed ∈ deeds) -> admits domain)
    (hallows : forall deed, deed ∈ deeds -> allows deed) (hholds : holds job record) :
    holds evaluated later := by
  have hload : forall loading loaded mid, Reloads job loading loaded ->
      RecordPath name record loading mid -> holds loaded mid := by
    intro loading loaded mid hloads hloading
    rcases hloads.path hname hloading with ⟨rfl, rfl | ⟨hclean, found, rfl, rfl⟩⟩
    · exact hholds
    · exact hkeeps.loaded job found hclean hholds
  cases h with
  | notDue now hloads _ =>
      rcases hpath.split with ⟨mid, hloading, hreading⟩
      cases hreading.of_single.2
      exact hload _ _ _ hloads hloading
  | @due loading rest loaded evaluated now hloads _ hevaluates =>
      have hrest : forall deed, deed ∈ rest -> deed ∈ loading ++ .clockRead now :: rest :=
        fun deed hdeed => List.mem_append_right _ (List.mem_cons_of_mem _ hdeed)
      rcases hpath.split with ⟨mid, hloading, hpath⟩
      rcases hpath.of_cons with ⟨_, hdue⟩
      refine hevaluates.keeps hkeeps (hloads.name_eq.trans hname) hdue ?_ ?_
        (hload _ _ _ hloads hloading)
      · intro inspecting domain hinspects hsub
        exact hadmits now inspecting domain hinspects fun deed hdeed => hrest deed (hsub deed hdeed)
      · intro deed hdeed
        exact hallows deed (hrest deed hdeed)

end

/-!
## Clean jobs
-/

def SavesSucceed (name : String) (deeds : List Deed) : Prop :=
  forall record error, .recordSaved name record (.error error) ∉ deeds

theorem EvaluatesDue.clean {registry : Registry} {job evaluated : DriveJob} {now : Instant}
    {deeds : List Deed} (h : EvaluatesDue registry job now deeds evaluated)
    (hsaves : SavesSucceed job.name deeds) : evaluated.dirty = false := by
  cases h with
  | @phases _ begun _ findings _ _ _ _ hinspects hbegins hpursues hstores =>
      cases hstores with
      | kept hclean =>
          exact hclean
      | asked answer hdirty =>
          rcases answer with error | done
          · have hname : (DriveJob.recorded findings).name = job.name :=
              hpursues.name_eq.trans hbegins.name_eq
            rw [hname] at hsaves
            exact absurd (by simp) (hsaves (DriveJob.recorded findings).toRecord error)
          · rfl

theorem Reloads.clean {job loaded : DriveJob} {deeds : List Deed} (h : Reloads job deeds loaded)
    (hclean : job.dirty = false) : loaded.dirty = false := by
  cases h with
  | kept _ =>
      exact hclean
  | asked answer _ =>
      rcases answer with error | found
      · exact hclean
      · rcases found with - | found
        · exact hclean
        · rfl

theorem Evaluates.clean {registry : Registry} {job evaluated : DriveJob} {deeds : List Deed}
    {verdict : Evaluation} (h : Evaluates registry job deeds verdict evaluated)
    (hclean : job.dirty = false) (hsaves : SavesSucceed job.name deeds) :
    evaluated.dirty = false := by
  cases h with
  | notDue _ hloads _ =>
      exact hloads.clean hclean
  | due _ hloads _ hevaluates =>
      apply hevaluates.clean
      intro record error hsave
      rw [hloads.name_eq] at hsave
      exact hsaves record error (List.mem_append_right _ (List.mem_cons_of_mem _ hsave))

theorem Pursues.recorded_of_clean {job : DriveJob} {now : Instant} {course : Course}
    {deeds : List Deed} {findings : Findings}
    (h : Pursues job now course deeds findings)
    (hclean : (DriveJob.recorded findings).dirty = false) :
    DriveJob.recorded findings = job := by
  have hkeeping : forall nextRun, (DriveJob.recorded (job.keeping nextRun)).dirty = false ->
      DriveJob.recorded (job.keeping nextRun) = job := by
    intro nextRun hkept
    simp only [DriveJob.recorded, DriveJob.keeping, Bool.or_eq_false_iff] at hkept
    rcases hkept with ⟨⟨⟨hdirty, hnext⟩, _⟩, _⟩
    cases Decidable.of_not_not (of_decide_eq_false hnext)
    simp [DriveJob.recorded, DriveJob.keeping]
  cases h with
  | unmanaged =>
      exact hkeeping none hclean
  | blocked =>
      cases hclean
  | finished =>
      exact hkeeping _ hclean
  | rest _ =>
      exact hkeeping none hclean
  | completed _ _ _ _ _ =>
      cases hclean
  | failed _ _ _ _ _ _ =>
      cases hclean

/-!
## Jobs that are marked, or as their records say
-/

/-- What is true of every job that is marked as changed, and of every job that was just
loaded or saved. -/
structure Tracks (holds : DriveJob -> Option JobRecord -> Prop) : Prop where
  dirty : forall job record, job.dirty = true -> holds job record
  loaded : forall (job : DriveJob) (found : JobRecord), holds (job.apply found) (some found)
  saved : forall job : DriveJob, holds { job with dirty := false } (some job.toRecord)

def Standing.Meets (holds : DriveJob -> Option JobRecord -> Prop) (standing : Standing) : Prop :=
  forall job, standing.job = some job -> holds job standing.record

namespace Tracks

variable {holds : DriveJob -> Option JobRecord -> Prop}

theorem keeps (h : Tracks holds) (name : String) :
    Keeps name (fun _ => True) (fun _ => True) holds := by
  constructor
  case loaded =>
    intro job found _ _
    exact h.loaded job found
  case begun =>
    intro job domain record later _ _ _ _
    exact h.dirty _ _ rfl
  case pursued =>
    intro job now domain deeds findings record _ _ _ hpursues hholds
    cases hdirty : (DriveJob.recorded findings).dirty with
    | true =>
        exact h.dirty _ _ hdirty
    | false =>
        rw [hpursues.recorded_of_clean hdirty]
        exact hholds
  case stored =>
    intro job record _
    exact h.saved job

theorem markedAs {job : DriveJob} {name : String} {record later : Option JobRecord}
    {answer : Except StoreError Unit} (h : Tracks holds)
    (hpath : RecordPath name record [.recordSaved name job.announced.toRecord answer] later) :
    holds (job.markedAs answer) later := by
  rcases answer with error | done
  · exact h.dirty _ _ rfl
  · cases hpath.of_single.2
    rw [recordAfter, if_pos rfl]
    cases hdirty : job.dirty with
    | true =>
        exact h.dirty _ _ hdirty
    | false =>
        have hsaved := h.saved job.announced
        have hclean : job.announced.dirty = false := hdirty
        rw [← hclean] at hsaved
        exact hsaved

/-- What is tracked holds after every turn if it holds after the start of a process. -/
theorem turn {name : String} {restarts : Bool} {setup : Setup} {standing later : Standing}
    {deeds : List Deed} (h : Tracks holds)
    (hturn : Turn name restarts setup standing.job deeds later.job)
    (hpath : RecordPath name standing.record deeds later.record)
    (hstarts : restarts = true -> forall job, Starts name deeds job -> holds job later.record)
    (hmeets : standing.Meets holds) : later.Meets holds := by
  intro job hjob
  generalize hbefore : standing.job = before at hturn
  rw [hjob] at hturn
  cases hturn with
  | foreign hforeign =>
      rw [hpath.of_foreign hforeign]
      exact hmeets job hbefore
  | started hrestarts hstarted =>
      exact hstarts hrestarts job hstarted
  | evaluated hname hevaluates =>
      exact hevaluates.keeps (h.keeps name) hname hpath (fun _ _ _ _ _ => trivial)
        (fun _ _ => trivial) (hmeets _ hbefore)
  | announced answer _ _ _ _ _ =>
      rcases hpath.split with ⟨delivered, _, hpath⟩
      rcases hpath.split with ⟨between, _, hsaving⟩
      exact h.markedAs hsaving

end Tracks

/-!
## Runs cut at a call
-/

namespace Run

variable {origin later : Process} {trace : List Happening}

theorem of_nil {calls : List Call} (hcalls : calls = []) (h : Run origin calls trace later) :
    trace = [] ∧ later.context = origin.context ∧
      later.world.store.records = origin.world.store.records := by
  induction h with
  | refl =>
      exact ⟨rfl, rfl, rfl⟩
  | call _ _ _ _ _ =>
      exact absurd hcalls (List.append_ne_nil_of_right_ne_nil _ (List.cons_ne_nil _ _))
  | outside _ houtside ih =>
      rcases ih hcalls with ⟨htrace, hcontext, hrecords⟩
      exact ⟨htrace, hcontext, houtside.records.trans hrecords⟩

theorem split (first second : List Call) (h : Run origin (first ++ second) trace later) :
    exists mid early late, Run origin first early mid ∧ Run mid second late later ∧
      trace = early ++ late := by
  generalize hcalls : first ++ second = calls at h
  induction h generalizing second with
  | refl =>
      rcases List.append_eq_nil_iff.mp hcalls with ⟨rfl, rfl⟩
      exact ⟨origin, [], [], Run.refl, Run.refl, rfl⟩
  | @call calls trace process later call setup deeds hrun hsetup hcall hrequests ih =>
      rcases List.eq_nil_or_concat second with rfl | ⟨second, last, rfl⟩
      · rw [List.append_nil] at hcalls
        subst hcalls
        exact ⟨later, _, [], Run.call hrun hsetup hcall hrequests, Run.refl,
          (List.append_nil _).symm⟩
      · rw [List.concat_eq_append, ← List.append_assoc] at hcalls
        rcases List.append_inj' hcalls rfl with ⟨hinit, hlast⟩
        cases hlast
        rcases ih _ hinit with ⟨mid, early, late, hearly, hlate, rfl⟩
        rw [List.concat_eq_append]
        exact ⟨mid, early, late ++ deeds.map (Happening.mk setup), hearly,
          Run.call hlate hsetup hcall hrequests, List.append_assoc _ _ _⟩
  | outside _ houtside ih =>
      rcases ih second hcalls with ⟨mid, early, late, hearly, hlate, htrace⟩
      exact ⟨mid, early, late, hearly, Run.outside hlate houtside, htrace⟩

theorem of_single {call : Call} (h : Run origin [call] trace later) :
    exists setup deeds, origin.setup call = some setup ∧
      trace = deeds.map (Happening.mk setup) ∧
      Performs call origin.context deeds later.context ∧
      forall name, RecordPath name (origin.world.store.records name) deeds
        (later.world.store.records name) := by
  generalize hcalls : [call] = calls at h
  induction h with
  | refl =>
      cases hcalls
  | @call calls trace process later last setup deeds hrun hsetup hcall hrequests _ =>
      rw [← List.nil_append [_]] at hcalls
      rcases List.append_inj' hcalls rfl with ⟨hinit, hlast⟩
      cases hlast
      rcases hrun.of_nil hinit.symm with ⟨rfl, hcontext, hrecords⟩
      rcases Process.performs_of_call hsetup hcall with ⟨done, hpassage, hperforms⟩
      cases hpassage.deeds_eq hrequests
      rw [Process.setup_congr hcontext] at hsetup
      rw [hcontext] at hperforms
      rw [← hrecords]
      exact ⟨setup, deeds, hsetup, rfl, hperforms,
        fun name => recordPath_of_serves name hpassage.serves⟩
  | outside _ houtside ih =>
      rcases ih hcalls with ⟨setup, deeds, hsetup, htrace, hperforms, hpath⟩
      refine ⟨setup, deeds, hsetup, htrace, hperforms, ?_⟩
      intro name
      rw [houtside.records]
      exact hpath name

theorem of_start {registry : Registry} {settings : DriveSettings}
    (h : Run origin [.start registry settings] trace later) :
    exists deeds, trace = deeds.map (Happening.mk ⟨registry, settings⟩) ∧
      StartsContext registry settings deeds later.context ∧
      forall name, RecordPath name (origin.world.store.records name) deeds
        (later.world.store.records name) := by
  rcases h.of_single with ⟨setup, deeds, hsetup, htrace, hperforms, hpath⟩
  cases hsetup
  cases hperforms with
  | start hstarts =>
      exact ⟨deeds, htrace, hstarts, hpath⟩

theorem sound_of_start {registry : Registry} {settings : DriveSettings}
    (h : Run origin [.start registry settings] trace later) (hdistinct : registry.Distinct) :
    later.Sound := by
  rcases h.of_start with ⟨deeds, _, hstarts, _⟩
  intro context hcontext
  rw [hcontext] at hstarts
  exact hstarts.sound hdistinct

theorem setup_of_start {registry : Registry} {settings : DriveSettings}
    (h : Run origin [.start registry settings] trace later) :
    forall context, later.context = some context -> context.setup = ⟨registry, settings⟩ := by
  rcases h.of_start with ⟨deeds, _, hstarts, _⟩
  intro context hcontext
  rw [hcontext] at hstarts
  cases hstarts
  rfl

end Run

end RenewalDrive
