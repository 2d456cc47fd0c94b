import Mathlib
import RenewalDrive.Proofs.Run.Attempt

/-!
# Completed renewals

From the attempt that completes a renewal until the staged credentials are in use, what is
staged should stay, and so should the record that says so. It does unless the job is
evaluated while the configuration of its domain lacks something: that evaluation counts an
error although the drive is finished, and the next start drops what has errors.
-/

namespace RenewalDrive

open Deed

/-!
## What is seen of the store
-/

def ManagedDomain.inUse (domain : ManagedDomain) :
    Except StoreError (Option Credential) -> Option Credential
  | .ok (some credential) => some credential
  | _ => domain.credential

theorem ManagedDomain.current_credential (domain : ManagedDomain) (now : Instant)
    (answer : Except StoreError (Option Credential)) :
    (domain.current now answer).credential = domain.inUse answer := by
  rcases answer with error | found
  · rfl
  · rcases found with - | credential <;> rfl

namespace Happening

/-- An evaluation of a name sees credentials in use that became valid at the time of the
staged ones or later. -/
def activates (name : String) (staged : Instant) (happening : Happening) : Bool :=
  match happening.deed with
  | .credentialLoaded other answer =>
      other = name && (happening.setup.registry.get? name).any fun domain =>
        (domain.inUse answer).any fun credential => staged ≤ credential.validFrom
  | _ => false

/-- An evaluation of a name works with a domain whose configuration lacks something. -/
def blocks (name : String) (happening : Happening) : Bool :=
  match happening.deed with
  | .credentialLoaded other _ =>
      other = name && (happening.setup.registry.get? name).any fun domain =>
        domain.state = .missingInformation
  | _ => false

end Happening

namespace Deed

/-- The deed does not remove what is staged for a name, and does not keep a record of it
that is unfinished or has errors. -/
def Spares (name : String) : Deed -> Prop
  | .recordSaved other record _ => other = name -> record.finished = true ∧ record.errorRuns = 0
  | .purged group other _ => group = .staging -> other ≠ name
  | _ => True

theorem Foreign.spares {command : Option String} {name : String} {deed : Deed}
    (h : deed.Foreign command name) : deed.Spares name := by
  cases deed with
  | recordSaved other record answer =>
      intro hother
      exact absurd hother h
  | purged group other answer =>
      exact h
  | _ =>
      trivial

end Deed

/-!
## Finished drives
-/

/-- The job is finished without errors, and its credentials become valid at a time. -/
def DriveJob.Staged (staged : Instant) (job : DriveJob) : Prop :=
  job.finished = true ∧ job.errorRuns = 0 ∧ job.validFrom = some staged

def JobRecord.Staged (staged : Instant) (record : JobRecord) : Prop :=
  record.finished = true ∧ record.errorRuns = 0 ∧ record.validFrom = some staged

def DriveJob.Lasts (staged : Instant) (job : DriveJob) (record : Option JobRecord) : Prop :=
  job.Staged staged ∧ exists found, record = some found ∧ found.Staged staged

/-- A domain that neither blocks an evaluation nor ends a drive. -/
def Waits (staged : Instant) (domain : Option ManagedDomain) : Prop :=
  forall found, domain = some found -> found.state ≠ .missingInformation ∧
    forall credential, found.credential = some credential -> ¬ staged ≤ credential.validFrom

theorem Waits.not_activated {staged : Instant} {domain : Option ManagedDomain} {job : DriveJob}
    (h : Waits staged domain) (hjob : job.Staged staged) : ¬ job.Activated domain := by
  intro hactivated
  rcases domain with - | found
  · cases hactivated
  · unfold DriveJob.Activated DriveJob.isActivated at hactivated
    rw [hjob.2.2] at hactivated
    simp only [Option.any_some, Bool.and_eq_true, Option.any_eq_true, Option.all_some,
      decide_eq_true_eq] at hactivated
    rcases hactivated with ⟨_, credential, hcredential, hle⟩
    exact (h found rfl).2 credential hcredential hle

theorem Waits.course {staged : Instant} {domain : Option ManagedDomain} {job : DriveJob}
    {now : Instant} (h : Waits staged domain) (hjob : job.Staged staged) :
    job.course domain now = .unmanaged ∨ job.course domain now = .finished := by
  rcases domain with - | found
  · exact Or.inl rfl
  · apply Or.inr
    unfold DriveJob.course
    dsimp only
    rw [if_neg (h found rfl).1, if_pos hjob.1]

theorem keeps_lasts (name : String) (staged : Instant) :
    Keeps name (Waits staged) (fun _ => True) (DriveJob.Lasts staged) := by
  constructor
  case loaded =>
    intro job found _ hlasts
    rcases hlasts.2 with ⟨other, hother, hstaged⟩
    cases hother
    exact ⟨hstaged, found, rfl, hstaged⟩
  case begun =>
    intro job domain record later hwaits hactivated _ hlasts
    exact absurd hactivated (hwaits.not_activated hlasts.1)
  case pursued =>
    intro job now domain deeds findings record _ hwaits _ hpursues hlasts
    have hkeeping : forall nextRun, (DriveJob.recorded (job.keeping nextRun)).Staged staged :=
      fun _ => hlasts.1
    rcases hwaits.course hlasts.1 with hcourse | hcourse
    · rw [hcourse] at hpursues
      cases hpursues
      exact ⟨hkeeping none, hlasts.2⟩
    · rw [hcourse] at hpursues
      cases hpursues
      exact ⟨hkeeping _, hlasts.2⟩
  case stored =>
    intro job record hlasts
    exact ⟨hlasts.1, job.toRecord, rfl, hlasts.1⟩

/-!
## Turns of a finished drive
-/

section

variable {name : String} {staged : Instant} {setup : Setup} {deeds : List Deed}

theorem Inspects.waits {now : Instant} {domain : Option ManagedDomain}
    (h : Inspects now (setup.registry.get? name) deeds domain)
    (hidle : forall deed, deed ∈ deeds ->
      (⟨setup, deed⟩ : Happening).activates name staged = false ∧
        (⟨setup, deed⟩ : Happening).blocks name = false) :
    Waits staged domain := by
  intro found hfound
  generalize hget : setup.registry.get? name = configured at h
  cases h with
  | unmanaged =>
      cases hfound
  | managed configured answer =>
      cases hfound
      have hname : configured.name = name := Registry.name_of_get? hget
      rcases hidle _ List.mem_cons_self with ⟨hactivates, hblocks⟩
      simp only [Happening.activates, Happening.blocks, hget, hname, decide_true, Bool.true_and,
        Option.any_some, Option.any_eq_false, decide_eq_false_iff_not] at hactivates hblocks
      constructor
      · rw [Ne, ManagedDomain.current_missing]
        exact hblocks
      · intro credential hcredential
        rw [ManagedDomain.current_credential] at hcredential
        exact hactivates credential hcredential

theorem Inspects.spares {now : Instant} {configured domain : Option ManagedDomain}
    (h : Inspects now configured deeds domain) : forall deed, deed ∈ deeds -> deed.Spares name := by
  cases h with
  | unmanaged =>
      exact List.forall_mem_nil _
  | managed _ _ =>
      exact List.forall_mem_singleton.mpr trivial

theorem EvaluatesDue.spares {registry : Registry} {job evaluated : DriveJob} {now : Instant}
    (h : EvaluatesDue registry job now deeds evaluated) (hjob : job.Staged staged)
    (hwaits : forall inspecting domain, Inspects now (registry.get? job.name) inspecting domain ->
      (forall deed, deed ∈ inspecting -> deed ∈ deeds) -> Waits staged domain) :
    forall deed, deed ∈ deeds -> deed.Spares name := by
  cases h with
  | @phases domain begun evaluated findings inspecting beginning pursuing storing hinspects hbegins
      hpursues hstores =>
      have hdomain : Waits staged domain :=
        hwaits inspecting domain hinspects fun _ hdeed => List.mem_append_left _ hdeed
      have hinspecting : forall deed, deed ∈ inspecting -> deed.Spares name := hinspects.spares
      cases hbegins with
      | generation _ hactivated =>
          exact absurd hactivated (hdomain.not_activated hjob)
      | kept _ =>
          have hfound : pursuing = [] ∧ (DriveJob.recorded findings).Staged staged := by
            rcases hdomain.course hjob with hcourse | hcourse
            · rw [hcourse] at hpursues
              cases hpursues
              exact ⟨rfl, hjob⟩
            · rw [hcourse] at hpursues
              cases hpursues
              exact ⟨rfl, hjob⟩
          rcases hfound with ⟨rfl, hfinished, herrors, _⟩
          have hstoring : forall deed, deed ∈ storing -> deed.Spares name := by
            cases hstores with
            | kept _ =>
                exact List.forall_mem_nil _
            | asked _ _ =>
                exact List.forall_mem_singleton.mpr fun _ => ⟨hfinished, herrors⟩
          exact List.forall_mem_append.mpr ⟨hinspecting, hstoring⟩

theorem Evaluates.spares {registry : Registry} {job evaluated : DriveJob} {verdict : Evaluation}
    {record later : Option JobRecord} (h : Evaluates registry job deeds verdict evaluated)
    (hname : job.name = name) (hpath : RecordPath name record deeds later)
    (hlasts : job.Lasts staged record)
    (hwaits : forall now inspecting domain,
      Inspects now (registry.get? name) inspecting domain ->
      (forall deed, deed ∈ inspecting -> deed ∈ deeds) -> Waits staged domain) :
    forall deed, deed ∈ deeds -> deed.Spares name := by
  have hload : forall loading loaded mid, Reloads job loading loaded ->
      RecordPath name record loading mid ->
      loaded.Staged staged ∧ forall deed, deed ∈ loading -> deed.Spares name := by
    intro loading loaded mid hloads hloading
    constructor
    · rcases hloads.path hname hloading with ⟨_, rfl | ⟨_, found, hfound, rfl⟩⟩
      · exact hlasts.1
      · rcases hlasts.2 with ⟨other, hother, hstaged⟩
        rw [hfound] at hother
        cases hother
        exact hstaged
    · cases hloads with
      | kept _ =>
          exact List.forall_mem_nil _
      | asked _ _ =>
          exact List.forall_mem_singleton.mpr trivial
  cases h with
  | notDue now hloads _ =>
      rcases hpath.split with ⟨mid, hloading, _⟩
      refine List.forall_mem_append.mpr ⟨(hload _ _ _ hloads hloading).2, ?_⟩
      exact List.forall_mem_singleton.mpr trivial
  | @due loading rest loaded evaluated now hloads _ hevaluates =>
      rcases hpath.split with ⟨mid, hloading, _⟩
      rcases hload _ _ _ hloads hloading with ⟨hloaded, hspares⟩
      refine List.forall_mem_append.mpr ⟨hspares, List.forall_mem_cons.mpr ⟨trivial, ?_⟩⟩
      apply hevaluates.spares hloaded
      intro inspecting domain hinspects hsub
      rw [hloads.name_eq, hname] at hinspects
      exact hwaits now inspecting domain hinspects fun deed hdeed =>
        List.mem_append_right _ (List.mem_cons_of_mem _ (hsub deed hdeed))

end

section

variable {name : String} {staged : Instant} {record later : Option JobRecord} {deeds : List Deed}
  {job : DriveJob}

theorem Starts.lasts (h : Starts name deeds job) (hpath : RecordPath name record deeds later)
    (hloads : forall error, .recordLoaded name (.error error) ∉ deeds)
    (hrecord : exists found, record = some found ∧ found.Staged staged) :
    job.Lasts staged later ∧ forall deed, deed ∈ deeds -> deed.Spares name := by
  rcases hrecord with ⟨found, rfl, hstaged⟩
  have hloaded : forall answer, Deed.recordLoaded name answer ∈ deeds ->
      Deed.TellsRecord name (some found) (.recordLoaded name answer) ->
      ((DriveJob.fresh name).reloaded answer).Staged staged := by
    intro answer hload htells
    rcases answer with error | answer
    · exact absurd hload (hloads error)
    · rw [htells rfl]
      exact hstaged
  cases h with
  | resumed answer _ =>
      rcases hpath.of_single with ⟨htells, rfl⟩
      refine ⟨⟨hloaded answer List.mem_cons_self htells, found, rfl, hstaged⟩, ?_⟩
      exact List.forall_mem_singleton.mpr trivial
  | recovered answer _ _ _ herrors =>
      have hfinished := hloaded answer List.mem_cons_self hpath.of_cons.1
      rw [hfinished.2.1] at herrors
      exact absurd herrors (Nat.lt_irrefl 0)

theorem Delivers.spares {command : Option String} {names : List String} {delivered : Bool}
    (h : Delivers command names deeds delivered) :
    forall deed, deed ∈ deeds -> deed.Spares name := by
  cases h with
  | silent _ =>
      exact List.forall_mem_nil _
  | ran _ _ _ =>
      exact List.forall_mem_singleton.mpr trivial
  | failed _ _ _ =>
      exact List.forall_mem_singleton.mpr trivial

theorem DriveJob.Lasts.markedAs {answer : Except StoreError Unit} (h : job.Lasts staged record)
    (hpath : RecordPath name record [.recordSaved name job.announced.toRecord answer] later) :
    (job.markedAs answer).Lasts staged later := by
  rcases h with ⟨hjob, found, hfound, hstaged⟩
  rcases answer with error | done
  · exact ⟨hjob, found, hpath.of_single.2.trans hfound, hstaged⟩
  · exact ⟨hjob, job.announced.toRecord, hpath.of_single.2.trans (if_pos rfl), hjob⟩

end

def Standing.Lasts (staged : Instant) (standing : Standing) : Prop :=
  (forall job, standing.job = some job -> job.Staged staged) ∧
    exists found, standing.record = some found ∧ found.Staged staged

theorem Standing.lasts_some_iff {staged : Instant} {job : DriveJob} {record : Option JobRecord} :
    Standing.Lasts staged ⟨some job, record⟩ ↔ job.Lasts staged record := by
  constructor
  · intro h
    exact ⟨h.1 job rfl, h.2⟩
  · intro h
    refine ⟨?_, h.2⟩
    intro other hother
    cases hother
    exact h.1

/-- A turn that neither activates nor blocks leaves a finished drive as it is. -/
theorem Turn.lasts {name : String} {restarts : Bool} {setup : Setup} {standing later : Standing}
    {deeds : List Deed} {staged : Instant}
    (h : Turn name restarts setup standing.job deeds later.job)
    (hpath : RecordPath name standing.record deeds later.record)
    (hloads : forall error, .recordLoaded name (.error error) ∉ deeds)
    (hidle : forall deed, deed ∈ deeds ->
      (⟨setup, deed⟩ : Happening).activates name staged = false ∧
        (⟨setup, deed⟩ : Happening).blocks name = false)
    (hlasts : standing.Lasts staged) :
    later.Lasts staged ∧ forall deed, deed ∈ deeds -> deed.Spares name := by
  rcases standing with ⟨before, record⟩
  rcases later with ⟨after, found⟩
  dsimp only at h hpath
  cases h with
  | foreign hforeign =>
      rw [hpath.of_foreign hforeign]
      exact ⟨hlasts, fun deed hdeed => (hforeign deed hdeed).spares⟩
  | dropped _ =>
      rw [hpath.eq_of_nil]
      refine ⟨⟨?_, hlasts.2⟩, List.forall_mem_nil _⟩
      intro job hnone
      cases hnone
  | started _ hstarts =>
      rw [Standing.lasts_some_iff]
      exact hstarts.lasts hpath hloads hlasts.2
  | evaluated hname hevaluates =>
      rw [Standing.lasts_some_iff] at hlasts ⊢
      have hwaits : forall now inspecting domain,
          Inspects now (setup.registry.get? name) inspecting domain ->
          (forall deed, deed ∈ inspecting -> deed ∈ deeds) -> Waits staged domain :=
        fun now inspecting domain hinspects hsub =>
          hinspects.waits fun deed hdeed => hidle deed (hsub deed hdeed)
      constructor
      · exact hevaluates.keeps (keeps_lasts name staged) hname hpath hwaits
          (fun _ _ => trivial) hlasts
      · exact hevaluates.spares hname hpath hlasts hwaits
  | announced answer _ _ hdelivers _ hforeign =>
      rw [Standing.lasts_some_iff] at hlasts ⊢
      rcases hpath.split with ⟨delivered, hdelivering, hpath⟩
      rcases hpath.split with ⟨passed, hpassing, hsaving⟩
      cases hpassing.of_foreign hforeign
      cases hdelivers.path hdelivering
      constructor
      · exact hlasts.markedAs hsaving
      · refine List.forall_mem_append.mpr
          ⟨hdelivers.spares, List.forall_mem_append.mpr ⟨?_, ?_⟩⟩
        · exact fun deed hdeed => (hforeign deed hdeed).spares
        · exact List.forall_mem_singleton.mpr fun _ => ⟨hlasts.1.1, hlasts.1.2.1⟩

/-!
## Evaluations that look for credentials
-/

section

variable {registry : Registry} {job evaluated : DriveJob} {now : Instant} {deeds : List Deed}
  {deed : Deed}

theorem Reloads.spares {name : String} {loaded : DriveJob} (h : Reloads job deeds loaded) :
    forall deed, deed ∈ deeds -> deed.Spares name := by
  cases h with
  | kept _ =>
      exact List.forall_mem_nil _
  | asked _ _ =>
      exact List.forall_mem_singleton.mpr trivial

/-- An evaluation looks for credentials before it does anything else that matters. -/
theorem Evaluates.look {name : String} {verdict : Evaluation} {owner : String}
    {answer : Except StoreError (Option Credential)}
    (h : Evaluates registry job deeds verdict evaluated)
    (hlook : .credentialLoaded owner answer ∈ deeds) :
    exists first last, deeds = first ++ .credentialLoaded owner answer :: last ∧
      forall deed, deed ∈ first -> deed.Spares name ∧ deed.isEvaluation = false := by
  rcases h.looks hlook with ⟨first, last, rfl, _, _, hlooks⟩
  refine ⟨first, last, rfl, ?_⟩
  cases hlooks with
  | cut hloads _ _ _ _ =>
      intro deed hdeed
      rcases List.mem_append.mp hdeed with hmem | hmem
      · refine ⟨hloads.spares deed hmem, ?_⟩
        by_cases hkind : deed.isEvaluation = true
        · exact absurd hmem (hloads.not_mem hkind)
        · simpa using hkind
      · cases List.mem_singleton.mp hmem
        exact ⟨trivial, rfl⟩

theorem Reloads.errorRuns_eq_zero {staged : Instant} {name : String} {loaded : DriveJob}
    {record later : Option JobRecord} (h : Reloads job deeds loaded) (hname : job.name = name)
    (hpath : RecordPath name record deeds later) (hlasts : job.Lasts staged record) :
    loaded.errorRuns = 0 := by
  rcases h.path hname hpath with ⟨_, rfl | ⟨_, found, hfound, rfl⟩⟩
  · exact hlasts.1.2.1
  · rcases hlasts.2 with ⟨other, hother, hstaged⟩
    cases hfound.symm.trans hother
    exact hstaged.2.1

theorem Begins.errorRuns_eq_zero {begun : DriveJob} {domain : Option ManagedDomain}
    (h : Begins job domain deeds begun) (herrors : job.errorRuns = 0) : begun.errorRuns = 0 := by
  cases h with
  | kept _ =>
      exact herrors
  | generation _ _ =>
      rfl

theorem Evaluates.not_spares_of_blocks {setup : Setup} {staged : Instant} {name : String}
    {verdict : Evaluation} {record later : Option JobRecord}
    (h : Evaluates setup.registry job deeds verdict evaluated) (hname : job.name = name)
    (hpath : RecordPath name record deeds later) (hlasts : job.Lasts staged record)
    (hdeed : deed ∈ deeds) (hblocks : (⟨setup, deed⟩ : Happening).blocks name = true) :
    exists done, done ∈ deeds ∧ ¬ done.Spares name := by
  cases deed with
  | credentialLoaded owner answer =>
      simp only [Happening.blocks, Bool.and_eq_true, decide_eq_true_eq, Option.any_eq_true]
        at hblocks
      rcases hblocks with ⟨rfl, configured, hget, hmissing⟩
      rcases h.looks hdeed with ⟨first, last, rfl, _, _, hlooks⟩
      cases hlooks with
      | @cut loading beginning pursuing storing loaded begun _ seen now findings hloads hseen
          hbegins hpursues hstores =>
          have hloaded : loaded.name = owner := hloads.name_eq.trans hname
          rw [hloaded, hget] at hseen
          cases hseen
          rcases hpath.split with ⟨cut, hcut, _⟩
          rcases hcut.split with ⟨loadedRecord, hloading, _⟩
          have herrors : begun.errorRuns = 0 :=
            hbegins.errorRuns_eq_zero (hloads.errorRuns_eq_zero hname hloading hlasts)
          have hcourse : begun.course (some (configured.current now answer)) now = .blocked := by
            unfold DriveJob.course
            dsimp only
            rw [if_pos ((ManagedDomain.current_missing configured now answer).mpr hmissing)]
          rw [hcourse] at hpursues
          cases hpursues with
          | blocked =>
              cases hstores with
              | kept hclean =>
                  cases hclean
              | asked saved _ =>
                  let counted := DriveJob.recorded begun.blocked
                  refine ⟨.recordSaved counted.name counted.toRecord saved, ?_, ?_⟩
                  · simp [counted]
                  · intro hspares
                    have howner : begun.name = owner := hbegins.name_eq.trans hloaded
                    have hcounted : begun.errorRuns + 1 = 0 := (hspares howner).2
                    rw [herrors] at hcounted
                    cases hcounted
  | _ =>
      cases hblocks

end

/-!
## From a completed attempt to its activation
-/

theorem Happening.activates_eq_false {happening : Happening} (name : String) (staged : Instant)
    (h : happening.deed.isEvaluation = false) : happening.activates name staged = false := by
  rcases happening with ⟨setup, deed⟩
  cases deed with
  | credentialLoaded _ _ =>
      cases h
  | _ =>
      rfl

theorem Happening.blocks_eq_false {happening : Happening} (name : String)
    (h : happening.deed.isEvaluation = false) : happening.blocks name = false := by
  rcases happening with ⟨setup, deed⟩
  cases deed with
  | credentialLoaded _ _ =>
      cases h
  | _ =>
      rfl

/-- What happens before an evaluation of a name sees credentials in use that became valid at
the time of the staged ones or later. -/
def untilActivated (name : String) (staged : Instant) (trace : List Happening) :
    List Happening :=
  trace.takeWhile fun happening => !happening.activates name staged

section

variable {name : String} {staged : Instant} {restarts : Bool}

theorem untilActivated_append {first rest : List Happening}
    (h : forall happening, happening ∈ first -> happening.activates name staged = false) :
    untilActivated name staged (first ++ rest) = first ++ untilActivated name staged rest := by
  apply List.takeWhile_append_of_pos
  intro happening hmem
  rw [h happening hmem]
  rfl

theorem untilActivated_cons_of_activates {happening : Happening} {rest : List Happening}
    (h : happening.activates name staged = true) :
    untilActivated name staged (happening :: rest) = [] := by
  apply List.takeWhile_cons_of_neg
  rw [h]
  exact Bool.false_ne_true

theorem idle_of_mem_untilActivated {happening : Happening} {trace : List Happening}
    (h : happening ∈ untilActivated name staged trace) :
    happening.activates name staged = false := by
  simpa using List.mem_takeWhile_imp h

theorem activates_of_eq_untilActivated {activating : Happening} {trace rest : List Happening}
    (h : trace = untilActivated name staged trace ++ activating :: rest) :
    activating.activates name staged = true := by
  have hdrop : trace.dropWhile (fun happening => !happening.activates name staged) =
      activating :: rest := by
    apply List.append_cancel_left
    rw [← h]
    exact List.takeWhile_append_dropWhile
  have hhead :=
    List.head?_dropWhile_not (fun happening => !happening.activates name staged) trace
  rw [hdrop] at hhead
  simpa using hhead

/-- A turn activates nothing, or what it does before is harmless. -/
theorem Turn.idle_or_cut {setup : Setup} {job later : Option DriveJob} {deeds : List Deed}
    (staged : Instant) (h : Turn name restarts setup job deeds later) :
    (forall deed, deed ∈ deeds -> (⟨setup, deed⟩ : Happening).activates name staged = false) ∨
      exists first deed last, deeds = first ++ deed :: last ∧
        (⟨setup, deed⟩ : Happening).activates name staged = true ∧
        forall deed, deed ∈ first -> deed.Spares name ∧ deed.isEvaluation = false := by
  by_cases hidle : forall deed, deed ∈ deeds ->
      (⟨setup, deed⟩ : Happening).activates name staged = false
  · exact Or.inl hidle
  · apply Or.inr
    simp only [not_forall, Bool.not_eq_false] at hidle
    rcases hidle with ⟨deed, hdeed, hactivates⟩
    cases deed with
    | credentialLoaded owner answer =>
        have howner : owner = name := by
          simp only [Happening.activates, Bool.and_eq_true, decide_eq_true_eq] at hactivates
          exact hactivates.1
        rcases h.evaluation_of_mem hdeed rfl (fun hforeign => hforeign howner) with
          ⟨before, verdict, after, rfl, rfl, _, hevaluates⟩
        rcases hevaluates.look hdeed with ⟨first, last, hdeeds, hfirst⟩
        exact ⟨first, _, last, hdeeds, hactivates, hfirst⟩
    | _ =>
        cases hactivates

theorem Turn.not_spares_of_blocks {setup : Setup} {standing later : Standing}
    {deeds : List Deed} {deed : Deed}
    (h : Turn name restarts setup standing.job deeds later.job)
    (hpath : RecordPath name standing.record deeds later.record) (hlasts : standing.Lasts staged)
    (hdeed : deed ∈ deeds) (hblocks : (⟨setup, deed⟩ : Happening).blocks name = true) :
    exists done, done ∈ deeds ∧ ¬ done.Spares name := by
  cases deed with
  | credentialLoaded owner answer =>
      have howner : owner = name := by
        simp only [Happening.blocks, Bool.and_eq_true, decide_eq_true_eq] at hblocks
        exact hblocks.1
      rcases h.evaluation_of_mem hdeed rfl (fun hforeign => hforeign howner) with
        ⟨before, verdict, after, hbefore, _, hname, hevaluates⟩
      have hjob : before.Lasts staged standing.record := ⟨hlasts.1 before hbefore, hlasts.2⟩
      exact hevaluates.not_spares_of_blocks hname hpath hjob hdeed hblocks
  | _ =>
      cases hblocks

/-- A turn that activates nothing spares a finished drive just when it blocks nothing. -/
theorem Turn.spares_iff {setup : Setup} {standing later : Standing} {deeds : List Deed}
    (h : Turn name restarts setup standing.job deeds later.job)
    (hpath : RecordPath name standing.record deeds later.record)
    (hloads : forall error, .recordLoaded name (.error error) ∉ deeds)
    (hidle : forall deed, deed ∈ deeds ->
      (⟨setup, deed⟩ : Happening).activates name staged = false)
    (hlasts : standing.Lasts staged) :
    ((forall deed, deed ∈ deeds -> deed.Spares name) ↔
      forall deed, deed ∈ deeds -> (⟨setup, deed⟩ : Happening).blocks name = false) ∧
    ((forall deed, deed ∈ deeds -> (⟨setup, deed⟩ : Happening).blocks name = false) ->
      later.Lasts staged) := by
  have hkept : (forall deed, deed ∈ deeds -> (⟨setup, deed⟩ : Happening).blocks name = false) ->
      later.Lasts staged ∧ forall deed, deed ∈ deeds -> deed.Spares name := by
    intro hquiet
    exact h.lasts hpath hloads (fun deed hdeed => ⟨hidle deed hdeed, hquiet deed hdeed⟩) hlasts
  constructor
  · constructor
    · intro hspares deed hdeed
      by_contra hblocks
      rcases h.not_spares_of_blocks hpath hlasts hdeed (by simpa using hblocks) with
        ⟨done, hdone, hspoils⟩
      exact hspoils (hspares done hdone)
    · intro hquiet
      exact (hkept hquiet).2
  · intro hquiet
    exact (hkept hquiet).1

/-- A finished drive is spared until its activation just when no evaluation is blocked. -/
theorem Strand.spares_iff {standing later : Standing} {trace : List Happening}
    (h : Strand name restarts standing trace later)
    (hloads : forall setup error, ⟨setup, .recordLoaded name (.error error)⟩ ∉ trace)
    (hlasts : standing.Lasts staged) :
    ((forall happening, happening ∈ untilActivated name staged trace ->
        happening.deed.Spares name) ↔
      forall happening, happening ∈ untilActivated name staged trace ->
        happening.blocks name = false) ∧
    ((forall happening, happening ∈ untilActivated name staged trace ->
        happening.blocks name = false) ->
      untilActivated name staged trace = trace -> later.Lasts staged) := by
  induction h with
  | nil standing =>
      refine ⟨?_, fun _ _ => hlasts⟩
      simp [untilActivated]
  | @cons standing mid later setup deeds rest hturn hpath _ ih =>
      rcases hturn.idle_or_cut staged with hidle | ⟨first, deed, last, rfl, hcut, hfirst⟩
      · have hloadsTurn : forall error, .recordLoaded name (.error error) ∉ deeds :=
          fun error hload => hloads setup error
            (List.mem_append_left _ (mem_trace.mpr ⟨rfl, hload⟩))
        rcases hturn.spares_iff hpath hloadsTurn hidle hlasts with ⟨hiff, hmid⟩
        have hrest := fun hquiet => ih
          (fun setup error hload => hloads setup error (List.mem_append_right _ hload))
          (hmid hquiet)
        rw [untilActivated_append (List.forall_mem_map.mpr hidle), List.forall_mem_append,
          List.forall_mem_append, List.forall_mem_map, List.forall_mem_map]
        constructor
        · constructor
          · rintro ⟨hspares, hlater⟩
            have hquiet := hiff.mp hspares
            exact ⟨hquiet, (hrest hquiet).1.mp hlater⟩
          · rintro ⟨hquiet, hlater⟩
            exact ⟨hiff.mpr hquiet, (hrest hquiet).1.mpr hlater⟩
        · rintro ⟨hquiet, hlater⟩ heq
          exact (hrest hquiet).2 hlater (List.append_cancel_left heq)
      · -- The turn cuts the trace, so nothing of what follows counts.
        have huntil : untilActivated name staged
            ((first ++ deed :: last).map (Happening.mk setup) ++ rest) =
              first.map (Happening.mk setup) := by
          rw [List.map_append, List.append_assoc, untilActivated_append, List.map_cons,
            List.cons_append, untilActivated_cons_of_activates hcut, List.append_nil]
          exact List.forall_mem_map.mpr fun done hdone =>
            Happening.activates_eq_false name staged (hfirst done hdone).2
        rw [huntil, List.forall_mem_map, List.forall_mem_map]
        constructor
        · apply iff_of_true
          · exact fun done hdone => (hfirst done hdone).1
          · exact fun done hdone => Happening.blocks_eq_false name (hfirst done hdone).2
        · intro _ heq
          have hlength := congrArg List.length heq
          simp only [List.length_append, List.length_map, List.length_cons] at hlength
          omega

end

/-- The store holds the record of a finished drive without errors for a name, and so does
the process if it has a job of that name. -/
def Process.Holds (name : String) (process : Process) : Prop :=
  (exists record, process.world.store.loadJob name = some record ∧ record.finished = true ∧
      record.errorRuns = 0) ∧
    forall context job, process.context = some context -> job ∈ context.jobs -> job.name = name ->
      job.finished = true ∧ job.errorRuns = 0

theorem Process.holds_of_lasts {process : Process} {name : String} {staged : Instant}
    (hsound : process.Sound) (h : (process.standing name).Lasts staged) : process.Holds name := by
  rcases h with ⟨hjob, record, hrecord, hfinished, herrors, _⟩
  refine ⟨⟨record, hrecord, hfinished, herrors⟩, ?_⟩
  intro context job hcontext hmem hname
  have hstaged : job.Staged staged := by
    apply hjob
    subst hname
    rw [standing, hcontext]
    exact (hsound context hcontext).job?_of_mem hmem
  exact ⟨hstaged.1, hstaged.2.1⟩

/-- On a strand, an attempt that completes and a reading of the clock are followed by a save,
and if that is not refused, the drive is finished from then on. -/
theorem Strand.completed {name : String} {restarts : Bool} {standing later : Standing}
    {before rest : List Happening} {setup : Setup} {domain : ManagedDomain} {reset : Bool}
    {outcome : RenewOutcome} {took : Span} {reading : Instant}
    (h : Strand name restarts standing
      (before ++ ⟨setup, .attempted domain reset outcome took⟩ ::
        ⟨setup, .clockRead reading⟩ :: rest) later)
    (hname : domain.name = name) (hcomplete : outcome.isComplete = true) :
    exists record answer next late,
      rest = ⟨setup, .recordSaved name record answer⟩ :: late ∧
      record.Staged (outcome.validFrom.getD reading) ∧ Strand name restarts next late later ∧
      (forall done, answer = .ok done -> next.Lasts (outcome.validFrom.getD reading)) := by
  rcases h.tries hname with ⟨mid, next, job, evaluated, first, now, last, early, late, _, _, howner,
    htries, hpath, hevaluated, hlate, _, hrest⟩
  cases htries with
  | cut answer _ _ _ _ _ hpursues =>
      cases hpursues with
      | failed _ _ _ _ hfailed _ =>
          rw [hcomplete] at hfailed
          cases hfailed
      | completed _ _ _ reading' _ =>
          rw [howner] at hpath hrest
          simp only [List.cons_append, List.nil_append, List.map_cons, List.map_nil,
            List.cons.injEq, Happening.mk.injEq, Deed.clockRead.injEq] at hrest
          rcases hrest with ⟨⟨_, rfl⟩, rfl⟩
          refine ⟨_, answer, next, late, rfl, ⟨rfl, rfl, rfl⟩, hlate, ?_⟩
          intro done hanswer
          subst hanswer
          constructor
          · intro other hother
            rw [hevaluated] at hother
            cases hother
            exact ⟨rfl, rfl, rfl⟩
          · rcases hpath.split with ⟨_, _, hpath⟩
            rcases hpath.of_cons with ⟨_, hpath⟩
            rcases hpath.of_cons with ⟨_, hpath⟩
            exact ⟨_, hpath.of_single.2.trans (if_pos rfl), rfl, rfl, rfl⟩

/-- In a run without refusals of the store, from an attempt for a name that completes until
an evaluation sees the staged credentials or newer ones in use, every record of the name
that is kept is finished and has no errors and nothing that is staged for it is removed, just
when no evaluation of the name in that time works with a configuration that lacks something. -/
theorem completion_spared_iff {origin later : Process} {calls : List Call}
    {before rest : List Happening} {setup : Setup} {domain : ManagedDomain} {reset : Bool}
    {outcome : RenewOutcome} {took : Span} {reading staged : Instant} {name : String}
    (hfresh : origin.context = none)
    (hrun : Run origin calls
      (before ++ ⟨setup, .attempted domain reset outcome took⟩ ::
        ⟨setup, .clockRead reading⟩ :: rest) later)
    (hdistinct : forall call, call ∈ calls -> call.Distinct)
    (hstore : forall happening,
      happening ∈ before ++ ⟨setup, .attempted domain reset outcome took⟩ ::
        ⟨setup, .clockRead reading⟩ :: rest -> happening.deed.refused = false)
    (hname : domain.name = name) (hcomplete : outcome.isComplete = true)
    (hstaged : outcome.validFrom.getD reading = staged) :
    ((forall happening, happening ∈ untilActivated name staged rest ->
        happening.deed.Spares name) ∧
      (untilActivated name staged rest = rest -> later.Holds name)) ↔
    forall happening, happening ∈ untilActivated name staged rest ->
      happening.blocks name = false := by
  subst hstaged
  rcases hrun.strand name true (Process.sound_of_fresh hfresh) hdistinct fun _ _ _ => rfl
    with ⟨hsound, hstrand⟩
  rcases hstrand.completed hname hcomplete with
    ⟨record, answer, next, late, rfl, hrecord, hlate, hlasts⟩
  have hsaved : exists done, answer = .ok done := by
    rcases answer with error | done
    · have hrefused := hstore ⟨setup, .recordSaved name record (.error error)⟩ (by simp)
      cases hrefused
    · exact ⟨done, rfl⟩
  rcases hsaved with ⟨done, rfl⟩
  rcases hlate.spares_iff
    (fun setup error hload => by
      have hrefused := hstore ⟨setup, .recordLoaded name (.error error)⟩ (by simp [hload])
      cases hrefused) (hlasts done rfl) with ⟨hiff, hlater⟩
  have huntil : untilActivated name (outcome.validFrom.getD reading)
      ([⟨setup, .recordSaved name record (.ok done)⟩] ++ late) =
        [⟨setup, .recordSaved name record (.ok done)⟩] ++
          untilActivated name (outcome.validFrom.getD reading) late :=
    untilActivated_append (List.forall_mem_singleton.mpr rfl)
  rw [List.singleton_append] at huntil
  rw [huntil, List.singleton_append]
  constructor
  · rintro ⟨hspares, _⟩
    refine List.forall_mem_cons.mpr ⟨rfl, hiff.mp ?_⟩
    exact fun happening hmem => hspares happening (List.mem_cons_of_mem _ hmem)
  · intro hquiet
    have hquietLate := (List.forall_mem_cons.mp hquiet).2
    constructor
    · refine List.forall_mem_cons.mpr ⟨?_, hiff.mpr hquietLate⟩
      exact fun _ => ⟨hrecord.1, hrecord.2.1⟩
    · intro heq
      apply Process.holds_of_lasts hsound
      exact hlater hquietLate (List.cons.inj heq).2

/-- A process that is to be started, in a world whose next attempt completes with
credentials that are valid at once. -/
def completing : Process where
  world :=
    { Rehearsal.atRest MemoryStore.empty with scripts := [⟨none, .complete .epoch, .zero⟩] }
  context := none

def finishedRecord : JobRecord :=
  { name := "a", finished := true, validFrom := some .epoch }

def resuming (setup : Setup) (record : Option JobRecord) : List Happening :=
  [.recordLoaded "a" (.ok record), .listed .challenges (.ok [])].map (Happening.mk setup)

def looking (setup : Setup) (record : Option JobRecord) : List Happening :=
  [.clockRead .epoch, .clockRead .epoch, .recordLoaded "a" (.ok record), .clockRead .epoch,
    .credentialLoaded "a" (.ok none)].map (Happening.mk setup)

def finishing (setup : Setup) : List Happening :=
  [.recordSaved "a" finishedRecord (.ok ()), .clockRead .epoch, .clockRead .epoch,
    .recordSaved "a" { finishedRecord with notified := true } (.ok ())].map (Happening.mk setup)

def resting (setup : Setup) : List Happening :=
  [.clockRead .epoch, .clockRead .epoch].map (Happening.mk setup)

def Setup.single (state : DomainState) : Setup :=
  ⟨Registry.single "a" state, {}⟩

def completedAttempt : Happening :=
  ⟨.single .incomplete,
    .attempted ⟨"a", .incomplete, .auto, .default, none⟩ false (.complete .epoch) .zero⟩

theorem completion_spared_over_restart :
    exists trace later,
      Run completing
        [.start (Registry.single "a" .incomplete) {}, .tick .running,
          .start (Registry.single "a" .incomplete) {}, .tick .running] trace later ∧
      later.Holds "a" := by
  let setup : Setup := .single .incomplete
  let announced : JobRecord := { finishedRecord with notified := true }
  let rest := finishing setup ++ resuming setup (some announced) ++
    looking setup (some announced) ++ resting setup
  have hplay : (completing.play
      [.start (Registry.single "a" .incomplete) {}, .tick .running,
        .start (Registry.single "a" .incomplete) {}, .tick .running]).map
        (fun played => ((), played.2)) =
      .ok ((), (resuming setup none ++ looking setup none) ++
        completedAttempt :: ⟨setup, .clockRead .epoch⟩ :: rest) := by
    cbv
  rcases Process.run_of_play (fun _ => ()) hplay with ⟨later, hrun, _⟩
  refine ⟨_, later, hrun, ?_⟩
  have huntil : untilActivated "a" .epoch rest = rest := rfl
  have hstaged : (RenewOutcome.complete .epoch).validFrom.getD .epoch = .epoch := rfl
  have hspared := completion_spared_iff rfl hrun
    (by simp [Call.Distinct, Registry.Distinct, Registry.single_distinct])
    (by decide) rfl rfl hstaged
  rw [huntil] at hspared
  exact (hspared.mpr (by decide)).2 rfl

/-- A round that works with a configuration that lacks something counts an error for the
finished drive, and the start after it removes what is staged, though the credentials were
never activated. -/
theorem completion_dropped_after_blocked_round :
    exists before rest later,
      Run completing
        [.start (Registry.single "a" .incomplete) {}, .tick .running,
          .start (Registry.single "a" .missingInformation) {}, .tick .running,
          .start (Registry.single "a" .incomplete) {}]
        (before ++ completedAttempt :: ⟨.single .incomplete, .clockRead .epoch⟩ :: rest) later ∧
      (forall happening, happening ∈
          before ++ completedAttempt :: ⟨.single .incomplete, .clockRead .epoch⟩ :: rest ->
        happening.deed.refused = false) ∧
      untilActivated "a" .epoch rest = rest ∧
      ⟨.single .incomplete, .purged .staging "a" (.ok ())⟩ ∈ rest := by
  let announced : JobRecord := { finishedRecord with notified := true }
  let counted : JobRecord := { announced with errorRuns := 1, lastStatus := .incomplete }
  let recovering : List Happening :=
    [.recordLoaded "a" (.ok (some counted)), .purged .staging "a" (.ok ()),
      .purged .challenges "a" (.ok ()), .recordSaved "a" { name := "a" } (.ok ()),
      .listed .challenges (.ok [])].map (Happening.mk (.single .incomplete))
  let rest := finishing (.single .incomplete) ++
    resuming (.single .missingInformation) (some announced) ++
    looking (.single .missingInformation) (some announced) ++
    ⟨.single .missingInformation, .recordSaved "a" counted (.ok ())⟩ ::
      resting (.single .missingInformation) ++ recovering
  have hplay : (completing.play
      [.start (Registry.single "a" .incomplete) {}, .tick .running,
        .start (Registry.single "a" .missingInformation) {}, .tick .running,
        .start (Registry.single "a" .incomplete) {}]).map (fun played => ((), played.2)) =
      .ok ((), (resuming (.single .incomplete) none ++ looking (.single .incomplete) none) ++
        completedAttempt :: ⟨.single .incomplete, .clockRead .epoch⟩ :: rest) := by
    cbv
  rcases Process.run_of_play (fun _ => ()) hplay with ⟨later, hrun, _⟩
  refine ⟨_, rest, later, hrun, by decide, rfl, ?_⟩
  simp [rest, recovering]

end RenewalDrive
