import RenewalDrive.Proofs.Run.Process

/-!
# Deeds for other names

A process drives the jobs of all its domains side by side. A deed is foreign to a name when
it neither concerns the job of that name nor announces it. Whatever is done for one job
bears the name of that job, so it is foreign to every other name.
-/

namespace RenewalDrive

/-!
## Announcements of a name
-/

/-- The names that the words of a notify command carry behind the command itself. -/
def appendedNames (command : Option String) (words : List String) : List String :=
  match effectiveCommand command with
  | none => []
  | some text => words.drop (Text.words text).length

namespace Deed

/-- A successful execution of the notify command that carries a name. -/
def announces (command : Option String) (name : String) : Deed -> Bool
  | .executed words (.ok _) => (appendedNames command words).contains name
  | _ => false

/-- The deed does not concern the job of a name and does not announce it. -/
def Foreign (command : Option String) (name : String) : Deed -> Prop
  | .recordLoaded other _ => other ≠ name
  | .recordSaved other _ _ => other ≠ name
  | .credentialLoaded other _ => other ≠ name
  | .purged group other _ => group = .staging -> other ≠ name
  | .attempted domain _ _ _ => domain.name ≠ name
  | .executed words answer => (executed words answer).announces command name = false
  | _ => True

/-- The deed is done for the job of a name, and is no command. -/
def Of (owner : String) : Deed -> Prop
  | .clockRead _ => True
  | .recordLoaded other _ => other = owner
  | .recordSaved other _ _ => other = owner
  | .credentialLoaded other _ => other = owner
  | .purged _ other _ => other = owner
  | .attempted domain _ _ _ => domain.name = owner
  | _ => False

def AllOf (owner : String) (deeds : List Deed) : Prop :=
  forall deed, deed ∈ deeds -> deed.Of owner

def AllForeign (command : Option String) (name : String) (deeds : List Deed) : Prop :=
  forall deed, deed ∈ deeds -> deed.Foreign command name

variable {command : Option String} {name : String}

theorem Of.foreign {owner : String} {deed : Deed} (h : deed.Of owner) (hname : owner ≠ name) :
    deed.Foreign command name := by
  cases deed with
  | clockRead _ =>
      trivial
  | purged group other answer =>
      intro _
      rw [h]
      exact hname
  | executed words answer =>
      cases h
  | listed group answer =>
      trivial
  | noted entry =>
      trivial
  | _ =>
      change _ ≠ name
      rw [h]
      exact hname

theorem AllOf.foreign {owner : String} {deeds : List Deed} (h : AllOf owner deeds)
    (hname : owner ≠ name) : AllForeign command name deeds :=
  fun deed hdeed => (h deed hdeed).foreign hname

theorem Of.announces_eq {owner : String} {deed : Deed} (h : deed.Of owner) :
    deed.announces command name = false := by
  cases deed with
  | executed words answer =>
      cases h
  | _ =>
      rfl

theorem Foreign.announces_eq {deed : Deed} (h : deed.Foreign command name) :
    deed.announces command name = false := by
  cases deed with
  | executed words answer =>
      exact h
  | _ =>
      rfl

end Deed

theorem appendedNames_of_effective {command : Option String} {text : String}
    {names : List String} (h : effectiveCommand command = some text) :
    appendedNames command (Text.words text ++ names) = names := by
  simp [appendedNames, h]

/-!
## The deeds of a job

Evaluations, starts and marks keep the name of their job, and all their deeds bear it.
-/

open Deed

namespace ManagedDomain

@[simp] theorem current_name (domain : ManagedDomain) (now : Instant)
    (answer : Except StoreError (Option Credential)) :
    (domain.current now answer).name = domain.name := by
  unfold current
  split <;> rfl

@[simp] theorem current_missing (domain : ManagedDomain) (now : Instant)
    (answer : Except StoreError (Option Credential)) :
    (domain.current now answer).state = .missingInformation ↔
      domain.state = .missingInformation := by
  unfold current
  split
  · by_cases hmissing : domain.state = .missingInformation
    · simp [install, hmissing]
    · simp only [install, hmissing, iff_false, if_false, DomainState.assess]
      split
      · simp_all
      · split <;> simp
  · exact Iff.rfl

end ManagedDomain

/-- A domain that an evaluation looks at has all the information that it needs. -/
def Informed (domain : Option ManagedDomain) : Prop :=
  forall found, domain = some found -> found.state ≠ .missingInformation

theorem Informed.course_eq {job : DriveJob} {domain : ManagedDomain} {now : Instant}
    (h : Informed (some domain)) :
    job.course (some domain) now =
      if job.finished then .finished
      else if domain.shouldRenew now then .renew domain
      else .rest domain := by
  rw [DriveJob.course]
  exact if_neg (h domain rfl)

theorem Inspects.informed_iff {now : Instant} {configured domain : Option ManagedDomain}
    {deeds : List Deed} (h : Inspects now configured deeds domain) :
    Informed domain ↔ Informed configured := by
  cases h with
  | unmanaged =>
      exact Iff.rfl
  | managed configured answer =>
      simp [Informed, ManagedDomain.current_missing]

theorem Registry.name_of_get? {registry : Registry} {name : String} {domain : ManagedDomain}
    (h : registry.get? name = some domain) : domain.name = name := by
  simpa using List.find?_some h

section

variable {command : Option String} {registry : Registry} {job : DriveJob} {now : Instant}
  {deeds : List Deed} {name : String}

theorem Reloads.name_eq {loaded : DriveJob} (h : Reloads job deeds loaded) :
    loaded.name = job.name := by
  cases h with
  | kept _ =>
      rfl
  | asked answer _ =>
      unfold DriveJob.reloaded
      split <;> rfl

theorem Stores.name_eq {stored : DriveJob} (h : Stores job deeds stored) :
    stored.name = job.name := by
  cases h with
  | kept _ =>
      rfl
  | asked answer _ =>
      cases answer <;> rfl

theorem Begins.name_eq {domain : Option ManagedDomain} {begun : DriveJob}
    (h : Begins job domain deeds begun) : begun.name = job.name := by
  cases h <;> rfl

theorem Pursues.name_eq {course : Course} {findings : Findings}
    (h : Pursues job now course deeds findings) : findings.job.name = job.name := by
  cases h <;> rfl

theorem DriveJob.recorded_name (findings : Findings) :
    (DriveJob.recorded findings).name = findings.job.name :=
  rfl

theorem EvaluatesDue.name_eq {evaluated : DriveJob}
    (h : EvaluatesDue registry job now deeds evaluated) : evaluated.name = job.name := by
  cases h with
  | phases _ hbegins hpursues hstores =>
      rw [hstores.name_eq]
      exact hpursues.name_eq.trans hbegins.name_eq

theorem Evaluates.name_eq {verdict : Evaluation} {evaluated : DriveJob}
    (h : Evaluates registry job deeds verdict evaluated) : evaluated.name = job.name := by
  cases h with
  | notDue _ hloads _ =>
      exact hloads.name_eq
  | due _ hloads _ hevaluates =>
      exact hevaluates.name_eq.trans hloads.name_eq

theorem Visits.name_eq {visited : DriveJob} (h : Visits registry job deeds visited) :
    visited.name = job.name := by
  cases h with
  | early _ _ =>
      rfl
  | evaluated _ _ hevaluates =>
      exact hevaluates.name_eq

theorem Marks.name_eq {marked : DriveJob} (h : Marks now job deeds marked) :
    marked.name = job.name := by
  cases h with
  | passed _ =>
      rfl
  | marked answer _ =>
      cases answer <;> rfl

theorem Starts.name_eq {started : DriveJob} (h : Starts name deeds started) :
    started.name = name := by
  cases h with
  | resumed answer _ =>
      unfold DriveJob.reloaded
      split <;> rfl
  | recovered _ _ _ saving _ =>
      cases saving <;> rfl

theorem course_renew_name {domain : Option ManagedDomain} {renewed : ManagedDomain}
    (hcourse : job.course domain now = .renew renewed)
    (hname : forall found, domain = some found -> found.name = name) : renewed.name = name :=
  hname renewed (DriveJob.course_eq_renew_iff.mp hcourse).1

theorem Inspects.domain_name {domain : Option ManagedDomain}
    (h : Inspects now (registry.get? name) deeds domain) :
    forall found, domain = some found -> found.name = name := by
  intro found hfound
  generalize hget : registry.get? name = configured at h
  cases h with
  | unmanaged =>
      cases hfound
  | managed configured answer =>
      cases hfound
      simpa using Registry.name_of_get? hget

/-!
### The owner of deeds
-/

theorem Reloads.own {loaded : DriveJob} (h : Reloads job deeds loaded) :
    AllOf job.name deeds := by
  cases h with
  | kept _ =>
      exact List.forall_mem_nil _
  | asked answer _ =>
      exact List.forall_mem_singleton.mpr rfl

theorem Stores.own {stored : DriveJob} (h : Stores job deeds stored) : AllOf job.name deeds := by
  cases h with
  | kept _ =>
      exact List.forall_mem_nil _
  | asked answer _ =>
      exact List.forall_mem_singleton.mpr rfl

theorem Inspects.own {domain : Option ManagedDomain}
    (h : Inspects now (registry.get? name) deeds domain) : AllOf name deeds := by
  generalize hget : registry.get? name = configured at h
  cases h with
  | unmanaged =>
      exact List.forall_mem_nil _
  | managed configured answer =>
      exact List.forall_mem_singleton.mpr (Registry.name_of_get? hget)

theorem Begins.own {domain : Option ManagedDomain} {begun : DriveJob}
    (h : Begins job domain deeds begun) : AllOf job.name deeds := by
  cases h with
  | kept _ =>
      exact List.forall_mem_nil _
  | generation answer _ =>
      exact List.forall_mem_singleton.mpr rfl

theorem Pursues.own {domain : Option ManagedDomain} {findings : Findings}
    (h : Pursues job now (job.course domain now) deeds findings)
    (hdomain : forall found, domain = some found -> found.name = name) : AllOf name deeds := by
  have hrenewed : forall renewed, job.course domain now = .renew renewed ->
      renewed.name = name :=
    fun renewed hcourse => course_renew_name hcourse hdomain
  generalize job.course domain now = course at h hrenewed
  cases h with
  | completed renewed outcome took later _ =>
      refine List.forall_mem_cons.mpr ⟨hrenewed renewed rfl, ?_⟩
      exact List.forall_mem_singleton.mpr trivial
  | failed renewed outcome took next _ _ =>
      exact List.forall_mem_singleton.mpr (hrenewed renewed rfl)
  | _ =>
      exact List.forall_mem_nil _

theorem EvaluatesDue.own {evaluated : DriveJob}
    (h : EvaluatesDue registry job now deeds evaluated) : AllOf job.name deeds := by
  cases h with
  | phases hinspects hbegins hpursues hstores =>
      have hpursuing := hpursues.own hinspects.domain_name
      have hstoring := hstores.own
      rw [DriveJob.recorded_name, hpursues.name_eq, hbegins.name_eq] at hstoring
      refine List.forall_mem_append.mpr ⟨hinspects.own, ?_⟩
      refine List.forall_mem_append.mpr ⟨hbegins.own, ?_⟩
      exact List.forall_mem_append.mpr ⟨hpursuing, hstoring⟩

theorem Evaluates.own {verdict : Evaluation} {evaluated : DriveJob}
    (h : Evaluates registry job deeds verdict evaluated) : AllOf job.name deeds := by
  cases h with
  | notDue now hloads _ =>
      exact List.forall_mem_append.mpr ⟨hloads.own, List.forall_mem_singleton.mpr trivial⟩
  | due now hloads _ hevaluates =>
      have hdue := hevaluates.own
      rw [hloads.name_eq] at hdue
      refine List.forall_mem_append.mpr ⟨hloads.own, ?_⟩
      exact List.forall_mem_cons.mpr ⟨trivial, hdue⟩

theorem Visits.own {visited : DriveJob} (h : Visits registry job deeds visited) :
    AllOf job.name deeds := by
  cases h with
  | early _ _ =>
      exact List.forall_mem_singleton.mpr trivial
  | evaluated _ _ hevaluates =>
      exact List.forall_mem_cons.mpr ⟨trivial, hevaluates.own⟩

theorem Marks.own {marked : DriveJob} (h : Marks now job deeds marked) :
    AllOf job.name deeds := by
  cases h with
  | passed _ =>
      exact List.forall_mem_nil _
  | marked answer _ =>
      exact List.forall_mem_singleton.mpr rfl

theorem Starts.own {started : DriveJob} (h : Starts name deeds started) : AllOf name deeds := by
  cases h with
  | resumed answer _ =>
      exact List.forall_mem_singleton.mpr rfl
  | recovered _ _ _ _ _ =>
      simp [AllOf, Of]

end

theorem Sweeps.foreign {command : Option String} {name : String} {registry : Registry}
    {deeds : List Deed} (h : Sweeps registry deeds) : AllForeign command name deeds := by
  cases h with
  | unlisted error =>
      exact List.forall_mem_singleton.mpr trivial
  | swept hpurges =>
      refine List.forall_mem_cons.mpr ⟨trivial, ?_⟩
      apply hpurges.all (Deed.Foreign command name)
      intro owner own result hpurge
      rcases hpurge with ⟨answer, rfl⟩
      refine List.forall_mem_singleton.mpr ?_
      intro hgroup
      cases hgroup

theorem Delivers.foreign {command : Option String} {names deeds} {delivered : Bool}
    {name : String} (h : Delivers command names deeds delivered) (hname : name ∉ names) :
    AllForeign command name deeds := by
  cases h with
  | silent _ =>
      exact List.forall_mem_nil _
  | ran text code htext =>
      refine List.forall_mem_singleton.mpr ?_
      change announces command name _ = false
      simpa [announces, appendedNames_of_effective htext] using hname
  | failed text error _ =>
      exact List.forall_mem_singleton.mpr rfl

end RenewalDrive
