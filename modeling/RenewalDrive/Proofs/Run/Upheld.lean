import RenewalDrive.Proofs.Run.Process

/-!
# Conditions that a drive upholds

A condition on job records may be one that no step of a drive breaks. It is then true of all
jobs and of all records at any time, if it was true of the records that a store held at
first. The store is followed as a whole here, so nothing is asked of the names.
-/

namespace RenewalDrive

/-!
## Stores
-/

namespace MemoryStore

def AllMeet (holds : JobRecord -> Prop) (store : MemoryStore) : Prop :=
  forall name found, store.loadJob name = some found -> holds found

variable {holds : JobRecord -> Prop} {store later : MemoryStore}

theorem AllMeet.after {deed : Deed} (h : store.AllMeet holds)
    (hsaves : forall name record, deed = .recordSaved name record (.ok ()) -> holds record) :
    (store.after deed).AllMeet holds := by
  intro name found hfound
  have hrecord : deed.recordAfter name (store.records name) = some found := by
    rw [← Deed.records_after]
    exact hfound
  unfold Deed.recordAfter at hrecord
  split at hrecord
  next other saved done =>
    split at hrecord
    · cases hrecord
      exact hsaves other found rfl
    · exact h name found hrecord
  next other done =>
    split at hrecord
    · cases hrecord
    · exact h name found hrecord
  next =>
    exact h name found hrecord

theorem AllMeet.serves {deeds : List Deed} (h : store.AllMeet holds)
    (hserves : store.Serves deeds later)
    (hsaves : forall name record, .recordSaved name record (.ok ()) ∈ deeds -> holds record) :
    later.AllMeet holds := by
  induction hserves with
  | nil _ =>
      exact h
  | @cons store later deed rest _ _ ih =>
      apply ih
      · apply h.after
        intro name record hdeed
        exact hsaves name record (List.mem_cons.mpr (Or.inl hdeed.symm))
      · intro name record hdeed
        exact hsaves name record (List.mem_cons_of_mem deed hdeed)

end MemoryStore

/-!
## Deeds that maintain a condition
-/

/-- Before a store whose records meet a condition the deeds come to a good end, and leave a
store whose records meet the condition. -/
def Maintains (holds : JobRecord -> Prop) (deeds : List Deed) (good : Prop) : Prop :=
  forall store later : MemoryStore, store.Serves deeds later -> store.AllMeet holds ->
    later.AllMeet holds ∧ good

section

variable {holds : JobRecord -> Prop} {first second deeds : List Deed} {good better : Prop}

theorem maintains_append (hfirst : Maintains holds first good)
    (hsecond : good -> Maintains holds second better) :
    Maintains holds (first ++ second) better := by
  intro store later hserves hstore
  rcases hserves.split with ⟨mid, hearly, hlate⟩
  rcases hfirst store mid hearly hstore with ⟨hmid, hgood⟩
  exact hsecond hgood mid later hlate hmid

theorem maintains_mono (h : Maintains holds deeds good) (hgood : good -> better) :
    Maintains holds deeds better := by
  intro store later hserves hstore
  rcases h store later hserves hstore with ⟨hlater, hend⟩
  exact ⟨hlater, hgood hend⟩

theorem maintains_unsaved (hgood : good)
    (hsaves : forall deed, deed ∈ deeds -> deed.isSave = false) :
    Maintains holds deeds good := by
  intro store later hserves hstore
  constructor
  · apply hstore.serves hserves
    intro name record hdeed
    cases hsaves _ hdeed
  · exact hgood

theorem maintains_nil (hgood : good) : Maintains holds [] good :=
  maintains_unsaved hgood (List.forall_mem_nil _)

theorem maintains_single {deed : Deed} (hgood : good) (hsave : deed.isSave = false) :
    Maintains holds [deed] good :=
  maintains_unsaved hgood (List.forall_mem_singleton.mpr hsave)

theorem maintains_saved {name : String} {record : JobRecord} {answer : Except StoreError Unit}
    (hrecord : holds record) (hgood : good) :
    Maintains holds [.recordSaved name record answer] good := by
  intro store later hserves hstore
  constructor
  · apply hstore.serves hserves
    intro other saved hdeed
    cases List.mem_singleton.mp hdeed
    exact hrecord
  · exact hgood

theorem maintains_loaded {name : String} {answer : Except StoreError (Option JobRecord)}
    (hgood : (forall found, answer = .ok (some found) -> holds found) -> good) :
    Maintains holds [.recordLoaded name answer] good := by
  intro store later hserves hstore
  cases hserves with
  | cons hvouches hrest =>
      cases hrest
      constructor
      · exact hstore
      · apply hgood
        intro found hanswer
        subst hanswer
        exact hstore name found hvouches.symm

theorem Each.maintains {α β : Type} {deals : α -> List Deed -> β -> Prop} {items : List α}
    {results : List β} {after : β -> Prop} (h : Each deals items deeds results)
    (hdeals : forall item own result, item ∈ items -> deals item own result ->
      Maintains holds own (after result)) :
    Maintains holds deeds (forall result, result ∈ results -> after result) := by
  induction h with
  | nil =>
      exact maintains_nil (List.forall_mem_nil _)
  | @cons item items first rest result results hfirst _ ih =>
      apply maintains_append (hdeals item first result List.mem_cons_self hfirst)
      intro hresult
      apply maintains_mono (ih fun other own result hother =>
        hdeals other own result (List.mem_cons_of_mem item hother))
      intro hresults
      exact List.forall_mem_cons.mpr ⟨hresult, hresults⟩

end

/-!
## What upholds a condition
-/

/-- A drive upholds a condition on records, step by step, with the job as its record says. -/
structure Upheld (holds : JobRecord -> Prop) : Prop where
  renamed : forall record name, holds record -> holds { record with name := name }
  fresh : forall name, holds (DriveJob.fresh name).toRecord
  begun : forall job : DriveJob, holds job.toRecord -> holds job.nextGeneration.toRecord
  pursued : forall job now domain deeds findings,
    Pursues job now (job.course domain now) deeds findings -> holds job.toRecord ->
      holds (DriveJob.recorded findings).toRecord
  announced : forall (job : DriveJob) now, job.isReady now = true -> holds job.toRecord ->
    holds job.announced.toRecord

namespace Upheld

variable {holds other : JobRecord -> Prop}

theorem and (h : Upheld holds) (hother : Upheld other) :
    Upheld fun record => holds record ∧ other record where
  renamed := fun record name hrecord =>
    ⟨h.renamed record name hrecord.1, hother.renamed record name hrecord.2⟩
  fresh := fun name => ⟨h.fresh name, hother.fresh name⟩
  begun := fun job hjob => ⟨h.begun job hjob.1, hother.begun job hjob.2⟩
  pursued := fun job now domain deeds findings hpursues hjob =>
    ⟨h.pursued job now domain deeds findings hpursues hjob.1,
      hother.pursued job now domain deeds findings hpursues hjob.2⟩
  announced := fun job now hready hjob =>
    ⟨h.announced job now hready hjob.1, hother.announced job now hready hjob.2⟩

section

variable {job : DriveJob} {registry : Registry} {now : Instant} {deeds : List Deed}

theorem reloaded {answer : Except StoreError (Option JobRecord)} (h : Upheld holds)
    (hjob : holds job.toRecord)
    (hanswer : forall found, answer = .ok (some found) -> holds found) :
    holds (job.reloaded answer).toRecord := by
  rcases answer with error | found
  · exact hjob
  · rcases found with - | found
    · exact hjob
    · exact h.renamed found job.name (hanswer found rfl)

theorem reloads {loaded : DriveJob} (h : Upheld holds) (hloads : Reloads job deeds loaded)
    (hjob : holds job.toRecord) : Maintains holds deeds (holds loaded.toRecord) := by
  cases hloads with
  | kept _ =>
      exact maintains_nil hjob
  | asked answer _ =>
      exact maintains_loaded (h.reloaded hjob)

theorem savedAs {answer : Except StoreError Unit} (hjob : holds job.toRecord) :
    holds (job.savedAs answer).toRecord := by
  cases answer with
  | error _ =>
      exact hjob
  | ok _ =>
      exact hjob

theorem stores {stored : DriveJob} (hstores : Stores job deeds stored)
    (hjob : holds job.toRecord) : Maintains holds deeds (holds stored.toRecord) := by
  cases hstores with
  | kept _ =>
      exact maintains_nil hjob
  | asked answer _ =>
      exact maintains_saved hjob (savedAs hjob)

theorem inspects {configured domain : Option ManagedDomain}
    (hinspects : Inspects now configured deeds domain) : Maintains holds deeds True := by
  cases hinspects with
  | unmanaged =>
      exact maintains_nil trivial
  | managed _ _ =>
      exact maintains_single trivial rfl

theorem begins {domain : Option ManagedDomain} {begun : DriveJob} (h : Upheld holds)
    (hbegins : Begins job domain deeds begun) (hjob : holds job.toRecord) :
    Maintains holds deeds (holds begun.toRecord) := by
  cases hbegins with
  | kept _ =>
      exact maintains_nil hjob
  | generation _ _ =>
      exact maintains_single (h.begun job hjob) rfl

theorem pursues {domain : Option ManagedDomain} {findings : Findings} (h : Upheld holds)
    (hpursues : Pursues job now (job.course domain now) deeds findings)
    (hjob : holds job.toRecord) :
    Maintains holds deeds (holds (DriveJob.recorded findings).toRecord) := by
  apply maintains_unsaved (h.pursued job now domain deeds findings hpursues hjob)
  generalize job.course domain now = course at hpursues
  cases hpursues with
  | completed _ _ _ _ _ =>
      simp [Deed.isSave]
  | failed _ _ _ _ _ _ =>
      simp [Deed.isSave]
  | _ =>
      exact List.forall_mem_nil _

theorem evaluatesDue {evaluated : DriveJob} (h : Upheld holds)
    (hevaluates : EvaluatesDue registry job now deeds evaluated) (hjob : holds job.toRecord) :
    Maintains holds deeds (holds evaluated.toRecord) := by
  cases hevaluates with
  | phases hinspects hbegins hpursues hstores =>
      apply maintains_append (inspects hinspects)
      intro _
      apply maintains_append (h.begins hbegins hjob)
      intro hbegun
      apply maintains_append (h.pursues hpursues hbegun)
      intro hfound
      exact stores hstores hfound

theorem evaluates {verdict : Evaluation} {evaluated : DriveJob} (h : Upheld holds)
    (hevaluates : Evaluates registry job deeds verdict evaluated) (hjob : holds job.toRecord) :
    Maintains holds deeds (holds evaluated.toRecord) := by
  cases hevaluates with
  | notDue now hloads _ =>
      apply maintains_append (h.reloads hloads hjob)
      intro hloaded
      exact maintains_single hloaded rfl
  | due now hloads _ hdue =>
      apply maintains_append (h.reloads hloads hjob)
      intro hloaded
      rw [← List.singleton_append]
      apply maintains_append (maintains_single hloaded rfl)
      exact h.evaluatesDue hdue

theorem visits {visited : DriveJob} (h : Upheld holds) (hvisits : Visits registry job deeds visited)
    (hjob : holds job.toRecord) : Maintains holds deeds (holds visited.toRecord) := by
  cases hvisits with
  | early _ _ =>
      exact maintains_single hjob rfl
  | evaluated now _ hevaluates =>
      rw [← List.singleton_append]
      apply maintains_append (maintains_single hjob rfl)
      exact h.evaluates hevaluates

theorem marks {marked : DriveJob} (h : Upheld holds) (hmarks : Marks now job deeds marked)
    (hjob : holds job.toRecord) : Maintains holds deeds (holds marked.toRecord) := by
  cases hmarks with
  | passed _ =>
      exact maintains_nil hjob
  | marked answer hready =>
      have hannounced := h.announced job now hready hjob
      apply maintains_saved hannounced
      cases answer with
      | error _ =>
          exact hannounced
      | ok _ =>
          exact hannounced

theorem starts {name : String} (h : Upheld holds) (hstarts : Starts name deeds job) :
    Maintains holds deeds (holds job.toRecord) := by
  cases hstarts with
  | resumed answer _ =>
      exact maintains_loaded (h.reloaded (h.fresh name))
  | recovered answer staging challenges saving _ =>
      have hfresh := h.fresh name
      -- Only the last of the four deeds saves something.
      have hclearing : Maintains holds [.recordLoaded name answer, .purged .staging name staging,
          .purged .challenges name challenges] True :=
        maintains_unsaved trivial (by simp [Deed.isSave])
      exact maintains_append hclearing fun _ => maintains_saved hfresh (savedAs hfresh)

end

end Upheld

/-!
## What upholds a condition over a run
-/

def DriveContext.AllMeet (holds : JobRecord -> Prop) (context : DriveContext) : Prop :=
  forall job, job ∈ context.jobs -> holds job.toRecord

structure Process.AllMeet (holds : JobRecord -> Prop) (process : Process) : Prop where
  records : process.world.store.AllMeet holds
  jobs : forall context, process.context = some context -> context.AllMeet holds

theorem Process.AllMeet.of_fresh {holds : JobRecord -> Prop} {process : Process}
    (hfresh : process.context = none) (hstore : process.world.store.AllMeet holds) :
    process.AllMeet holds := by
  refine ⟨hstore, ?_⟩
  intro context hcontext
  rw [hfresh] at hcontext
  cases hcontext

namespace Upheld

variable {holds : JobRecord -> Prop} {context later : DriveContext} {deeds : List Deed}

theorem delivers {command : Option String} {names : List String} {delivered : Bool}
    (hdelivers : Delivers command names deeds delivered) : Maintains holds deeds True := by
  cases hdelivers with
  | silent _ =>
      exact maintains_nil trivial
  | ran _ _ _ =>
      exact maintains_single trivial rfl
  | failed _ _ _ =>
      exact maintains_single trivial rfl

theorem announces {command : Option String} {now : Instant} {jobs marked : List DriveJob}
    {report : NoticeReport} (h : Upheld holds)
    (hannounces : Announces command now jobs deeds report marked)
    (hjobs : forall job, job ∈ jobs -> holds job.toRecord) :
    Maintains holds deeds (forall job, job ∈ marked -> holds job.toRecord) := by
  cases hannounces with
  | idle _ =>
      exact maintains_nil hjobs
  | failed _ hdelivers =>
      rw [← List.append_nil deeds]
      exact maintains_append (delivers hdelivers) fun _ => maintains_nil hjobs
  | delivered _ hdelivers hmarks =>
      apply maintains_append (delivers hdelivers)
      intro _
      exact hmarks.maintains fun job _ _ hjob hmark => h.marks hmark (hjobs job hjob)

theorem notifies {report : NoticeReport} (h : Upheld holds)
    (hnotifies : Notifies context deeds report later) (hjobs : context.AllMeet holds) :
    Maintains holds deeds (later.AllMeet holds) := by
  cases hnotifies with
  | pass now hannounces =>
      rw [← List.singleton_append]
      apply maintains_append (maintains_single trivial rfl)
      intro _
      exact h.announces hannounces hjobs

theorem rounds {wait : Span} (h : Upheld holds) (hrounds : Rounds context deeds wait later)
    (hjobs : context.AllMeet holds) : Maintains holds deeds (later.AllMeet holds) := by
  cases hrounds with
  | round started now hvisits =>
      rw [List.cons_append, ← List.singleton_append]
      apply maintains_append (maintains_single trivial rfl)
      intro _
      apply maintains_append
        (hvisits.maintains fun job _ _ hjob hvisit => h.visits hvisit (hjobs job hjob))
      intro hvisited
      exact maintains_single hvisited rfl

theorem ticks {state : WatchState} {interval : Option Span} (h : Upheld holds)
    (hticks : Ticks context state deeds interval later) (hjobs : context.AllMeet holds) :
    Maintains holds deeds (later.AllMeet holds) := by
  cases hticks with
  | starting hnotifies =>
      exact h.notifies hnotifies hjobs
  | running hrounds hnotifies =>
      apply maintains_append (h.rounds hrounds hjobs)
      exact h.notifies hnotifies
  | stopping hnotifies =>
      exact h.notifies hnotifies hjobs

theorem sweeps {registry : Registry} (hsweeps : Sweeps registry deeds) :
    Maintains holds deeds True := by
  apply maintains_unsaved trivial
  cases hsweeps with
  | unlisted _ =>
      exact List.forall_mem_singleton.mpr rfl
  | swept hpurges =>
      refine List.forall_mem_cons.mpr ⟨rfl, ?_⟩
      apply hpurges.all
      rintro owner own result ⟨answer, rfl⟩
      exact List.forall_mem_singleton.mpr rfl

theorem startsContext {registry : Registry} {settings : DriveSettings}
    {begun : Option DriveContext} (h : Upheld holds)
    (hstarts : StartsContext registry settings deeds begun) :
    Maintains holds deeds (forall context, begun = some context -> context.AllMeet holds) := by
  have hjobs : forall {starting : List Deed} {jobs : List DriveJob},
      Each Starts registry.watchedNames starting jobs ->
        Maintains holds starting (forall job, job ∈ jobs -> holds job.toRecord) := by
    intro starting jobs heach
    exact heach.maintains fun _ _ _ _ hjob => h.starts hjob
  cases hstarts with
  | idle heach hsweeps =>
      apply maintains_append (hjobs heach)
      intro _
      apply maintains_mono (sweeps hsweeps)
      intro _ context hcontext
      cases hcontext
  | begun heach hsweeps _ =>
      apply maintains_append (hjobs heach)
      intro hmade
      apply maintains_mono (sweeps hsweeps)
      intro _ context hcontext
      cases hcontext
      exact hmade

theorem evaluatesAt {position : Nat} {job evaluated : DriveJob} {verdict : Evaluation}
    (h : Upheld holds) (hjob : context.jobs[position]? = some job)
    (hevaluates : Evaluates context.registry job deeds verdict evaluated)
    (hjobs : context.AllMeet holds) :
    Maintains holds deeds
      (({ context with jobs := context.jobs.set position evaluated } : DriveContext).AllMeet
        holds) := by
  apply maintains_mono (h.evaluates hevaluates (hjobs job (List.mem_of_getElem? hjob)))
  intro hevaluated other hother
  rcases List.mem_or_eq_of_mem_set hother with hmem | rfl
  · exact hjobs other hmem
  · exact hevaluated

theorem performs {call : Call} {before after : Option DriveContext} (h : Upheld holds)
    (hperforms : Performs call before deeds after)
    (hjobs : forall context, before = some context -> context.AllMeet holds) :
    Maintains holds deeds (forall context, after = some context -> context.AllMeet holds) := by
  have hlater : forall {later : DriveContext}, Maintains holds deeds (later.AllMeet holds) ->
      Maintains holds deeds
        (forall context, some later = some context -> context.AllMeet holds) := by
    intro later hmaintains
    apply maintains_mono hmaintains
    rintro hmeets context ⟨⟩
    exact hmeets
  cases hperforms with
  | start hstarts =>
      exact h.startsContext hstarts
  | tick hticks =>
      exact hlater (h.ticks hticks (hjobs _ rfl))
  | runJobs hrounds =>
      exact hlater (h.rounds hrounds (hjobs _ rfl))
  | missing _ =>
      exact maintains_nil hjobs
  | evaluate hjob hevaluates =>
      exact hlater (h.evaluatesAt hjob hevaluates (hjobs _ rfl))
  | announce hnotifies =>
      exact hlater (h.notifies hnotifies (hjobs _ rfl))

/-- What every step upholds holds of all jobs and records after a run, whatever the run was
told, if it held of those before. -/
theorem run {origin final : Process} {calls : List Call} {trace : List Happening}
    (h : Upheld holds) (hrun : Run origin calls trace final) (horigin : origin.AllMeet holds) :
    final.AllMeet holds := by
  induction hrun with
  | refl =>
      exact horigin
  | call _ hsetup hcall _ ih =>
      rcases Process.performs_of_call hsetup hcall with ⟨done, hpassage, hperforms⟩
      rcases h.performs hperforms ih.jobs _ _ hpassage.serves ih.records with ⟨hrecords, hjobs⟩
      exact ⟨hrecords, hjobs⟩
  | outside _ houtside ih =>
      refine ⟨?_, ih.jobs⟩
      intro name found hfound
      apply ih.records name found
      rw [MemoryStore.loadJob, ← houtside.records]
      exact hfound

end Upheld
end RenewalDrive
