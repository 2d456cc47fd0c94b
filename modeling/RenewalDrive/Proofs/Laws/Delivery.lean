import RenewalDrive.Proofs.Drive.Lasting
import RenewalDrive.Proofs.Drive.Notice
import RenewalDrive.Proofs.Store.Memory
import RenewalDrive.Proofs.Text.Words

/-!
# A pass of announcements is complete or leaves all as it was

A pass never halts. With nothing to announce it does nothing at all. Otherwise the command runs
once, if it has words, and only a command that cannot be run keeps the pass from marking the
ready jobs. Then each of them is marked and saved, no other job or record is touched, and none
is ready any more.
-/

namespace RenewalDrive

open Act

/-!
## The command
-/

section

variable {command : Option String} {text : String}

theorem effectiveCommand_eq_none_iff :
    effectiveCommand command = none ↔
      forall text, command = some text -> Text.Blanks text.toList := by
  cases command with
  | none => simp [effectiveCommand]
  | some text =>
      have htrimmed : Text.trimmed text = "" ↔ Text.Blanks text.toList := by
        rw [Text.trimmed_eq_empty_iff, Text.allBlank, List.all_eq_true]
        exact Iff.rfl
      simp [effectiveCommand, Option.filter_eq_none_iff, htrimmed]

theorem exists_madeOf_of_effectiveCommand (h : effectiveCommand command = some text) :
    exists given words, command = some given ∧ Text.MadeOf given.toList words ∧ words ≠ [] ∧
      Text.words text = words.map String.ofList := by
  cases command with
  | none => cases h
  | some given =>
      rcases Option.filter_eq_some_iff.mp h with ⟨htext, hsome⟩
      cases htext
      refine ⟨given, Text.wordsOf given.toList, rfl, Text.madeOf_wordsOf _, ?_, ?_⟩
      · intro hnone
        have hblank : Text.allBlank given = true :=
          List.all_eq_true.mpr (Text.wordsOf_eq_nil_iff.mp hnone)
        simp [Text.trimmed_eq_empty_iff, hblank] at hsome
      · rw [Text.words_trimmed, Text.words]

end

/-- What is told of some ready names: a command without words does not run, any other one runs
once, with the names behind its words. Nothing is told if it cannot be run. -/
inductive Conveys (command : Option String) (ready : List String) : List Deed -> Bool -> Prop where
  | quietly :
      (forall text, command = some text -> Text.Blanks text.toList) ->
      Conveys command ready [] true
  | running {text : String} {words : List (List Char)}
      (answer : Except LaunchError (Option Int)) :
      command = some text ->
      Text.MadeOf text.toList words ->
      words ≠ [] ->
      Conveys command ready [.executed (words.map String.ofList ++ ready) answer] answer.isOk

theorem Delivers.conveys {command : Option String} {ready : List String} {deeds : List Deed}
    {delivered : Bool} (h : Delivers command ready deeds delivered) :
    Conveys command ready deeds delivered := by
  cases h with
  | silent hnone =>
      exact Conveys.quietly (effectiveCommand_eq_none_iff.mp hnone)
  | ran text code hsome =>
      rcases exists_madeOf_of_effectiveCommand hsome with ⟨given, words, rfl, hmade, hne, hwords⟩
      rw [hwords]
      exact Conveys.running (.ok code) rfl hmade hne
  | failed text error hsome =>
      rcases exists_madeOf_of_effectiveCommand hsome with ⟨given, words, rfl, hmade, hne, hwords⟩
      rw [hwords]
      exact Conveys.running (.error error) rfl hmade hne

theorem Delivers.store_eq {command : Option String} {ready : List String} {deeds : List Deed}
    {delivered : Bool} {store later : MemoryStore} (h : Delivers command ready deeds delivered)
    (hserves : store.Serves deeds later) : later = store := by
  cases h with
  | silent _ =>
      cases hserves
      rfl
  | ran text code _ =>
      cases hserves with
      | cons _ hrest =>
          cases hrest
          rfl
  | failed text error _ =>
      cases hserves with
      | cons _ hrest =>
          cases hrest
          rfl

/-!
## Stores after saves
-/

def Deed.asksSave : Deed -> Bool
  | .recordSaved _ _ _ => true
  | _ => false

namespace MemoryStore

variable {store mid later : MemoryStore} {deed : Deed} {deeds : List Deed}

/-- A store after some requests to save: the last save of a name that was granted is its record,
and all else is as before. -/
structure SavedBy (deeds : List Deed) (store later : MemoryStore) : Prop where
  saved : forall before name record after,
    deeds = before ++ .recordSaved name record (.ok ()) :: after ->
    (forall other, .recordSaved name other (.ok ()) ∉ after) ->
    later.records name = some record
  kept : forall name, (forall record, .recordSaved name record (.ok ()) ∉ deeds) ->
    later.records name = store.records name
  credentials : later.credentials = store.credentials
  entries : forall group name, name ∈ later.entries group ↔
    name ∈ store.entries group ∨
      group = .staging ∧ exists record, .recordSaved name record (.ok ()) ∈ deeds

theorem credentials_after_save (hdeed : deed.asksSave = true) :
    (store.after deed).credentials = store.credentials := by
  cases deed with
  | recordSaved name record answer => cases answer <;> rfl
  | _ => cases hdeed

theorem mem_entries_after_save (hdeed : deed.asksSave = true) (group : Group) (name : String) :
    name ∈ (store.after deed).entries group ↔
      name ∈ store.entries group ∨
        group = .staging ∧ exists record, deed = .recordSaved name record (.ok ()) := by
  cases deed with
  | recordSaved other record answer =>
      cases answer with
      | error error => simp [MemoryStore.after]
      | ok done =>
          by_cases hgroup : group = .staging
          · simp [MemoryStore.after, saveJob, addEntry, hgroup, mem_insertName, or_comm, eq_comm]
          · simp [MemoryStore.after, saveJob, addEntry, hgroup]
  | _ => cases hdeed

theorem recordAfter_of_not_saved {name : String} {record : Option JobRecord}
    (hdeed : deed.asksSave = true) (hname : forall saved, deed ≠ .recordSaved name saved (.ok ())) :
    deed.recordAfter name record = record := by
  cases deed with
  | recordSaved other saved answer =>
      cases answer with
      | error error => rfl
      | ok done =>
          refine if_neg ?_
          rintro rfl
          exact hname saved rfl
  | _ => cases hdeed

theorem Serves.records_eq {name : String} (h : store.Serves deeds later)
    (hdeeds : forall deed, deed ∈ deeds -> deed.asksSave = true)
    (hname : forall record, .recordSaved name record (.ok ()) ∉ deeds) :
    later.records name = store.records name := by
  induction h with
  | nil store => rfl
  | cons _ _ ih =>
      rcases List.forall_mem_cons.mp hdeeds with ⟨hdeed, hrest⟩
      have hlater := ih hrest fun record hmem => hname record (List.mem_cons_of_mem _ hmem)
      rw [hlater, Deed.records_after, recordAfter_of_not_saved hdeed]
      rintro record rfl
      exact hname record List.mem_cons_self

theorem Serves.savedBy (h : store.Serves deeds later)
    (hdeeds : forall deed, deed ∈ deeds -> deed.asksSave = true) : SavedBy deeds store later where
  saved := by
    rintro before name record after rfl hafter
    rcases h.split with ⟨mid, _, hlast⟩
    cases hlast with
    | cons _ hrest =>
        have hrestSaves : forall deed, deed ∈ after -> deed.asksSave = true := fun deed hdeed =>
          hdeeds deed (List.mem_append_right _ (List.mem_cons_of_mem _ hdeed))
        rw [hrest.records_eq hrestSaves hafter]
        exact if_pos rfl
  kept _ := h.records_eq hdeeds
  credentials := by
    induction h with
    | nil store => rfl
    | cons _ _ ih =>
        rcases List.forall_mem_cons.mp hdeeds with ⟨hdeed, hrest⟩
        rw [ih hrest, credentials_after_save hdeed]
  entries group name := by
    induction h with
    | nil store => simp
    | cons _ _ ih =>
        rcases List.forall_mem_cons.mp hdeeds with ⟨hdeed, hrest⟩
        rw [ih hrest, mem_entries_after_save hdeed]
        simp only [List.mem_cons, exists_or, and_or_left, or_assoc, eq_comm]

end MemoryStore

/-!
## The marks of the ready jobs
-/

section

variable {now : Instant} {job marked : DriveJob} {jobs passed : List DriveJob}
  {deeds marking : List Deed}

theorem Marks.asksSave (h : Marks now job deeds marked) :
    forall deed, deed ∈ deeds -> deed.asksSave = true := by
  cases h with
  | passed _ => exact List.forall_mem_nil _
  | marked answer _ => exact List.forall_mem_singleton.mpr rfl

theorem Marks.not_ready (h : Marks now job deeds marked) : marked.isReady now = false := by
  cases h with
  | passed hready => exact hready
  | marked answer _ =>
      cases answer <;> simp [DriveJob.markedAs, DriveJob.announced, DriveJob.isReady]

theorem Marks.ready_of_mem {name : String} {record : JobRecord}
    {answer : Except StoreError Unit} (h : Marks now job deeds marked)
    (hmem : .recordSaved name record answer ∈ deeds) :
    name = job.name ∧ job.isReady now = true := by
  cases h with
  | passed _ => cases hmem
  | marked answer hready =>
      cases List.mem_singleton.mp hmem
      exact ⟨rfl, hready⟩

theorem not_mem_marking {name : String} {record : JobRecord} {answer : Except StoreError Unit}
    (h : Each (Marks now) jobs marking passed) (hname : name ∉ DriveJob.readyNames jobs now) :
    .recordSaved name record answer ∉ marking := by
  intro hmem
  refine h.all_of_mem (fun deed => deed ≠ .recordSaved name record answer) ?_ _ hmem rfl
  rintro job own marked hjob hmarks _ hown rfl
  rcases hmarks.ready_of_mem hown with ⟨rfl, hready⟩
  exact hname (List.mem_map.mpr ⟨job, List.mem_filter.mpr ⟨hjob, hready⟩, rfl⟩)

end

/-!
## Passes that end
-/

namespace Rehearsal

def Ends {α : Type} (act : Act Rehearsal α) : Prop :=
  act.InStep (Still fun _ => True) fun _ => True

theorem ends_execute (words : List String) : Ends (host.execute words) := by
  refine inStep_still_iff.mpr fun world _ => ?_
  exact ⟨world.runner world.moment words, _, rfl, trivial, trivial⟩

theorem ends_saveJob (name : String) (record : JobRecord) : Ends (host.saveJob name record) := by
  show (saveJob name record).InStep _ _
  apply inStep_ask
  · rintro world _ ⟨rfl, _⟩
    rfl
  · rintro world _ error ⟨rfl, _⟩
    exact ⟨rfl, trivial⟩
  · rintro world _ ⟨rfl, _⟩
    exact ⟨rfl, ⟨rfl, trivial⟩, trivial⟩
  · exact fun _ => trivial

theorem ends_noting {α : Type} {event : Event} {next : Unit -> Act Rehearsal α}
    (hevent : event.date? = none) (hnext : Ends (next ())) : Ends (host.note event >>= next) := by
  have hnote : Ends (host.note event) := by
    refine inStep_still_iff.mpr fun world _ => ?_
    rcases run_note_of_told (Event.told_of_undated hevent) with ⟨entries, hrun⟩
    exact ⟨(), _, hrun, trivial, trivial⟩
  exact inStep_bind hnote fun _ _ => hnext

theorem ends_deliver (command : Option String) (names : List String) :
    Ends (host.deliver command names) := by
  unfold Host.deliver
  split
  next => exact inStep_pure trivial
  next text _ =>
    refine inStep_bind (ends_execute (Text.words text ++ names)) fun answer _ => ?_
    cases answer with
    | error error => exact ends_noting rfl (inStep_pure trivial)
    | ok code => exact ends_noting rfl (inStep_pure trivial)

theorem ends_markNotified (now : Instant) (job : DriveJob) :
    Ends (host.markNotified now job) := by
  unfold Host.markNotified
  split
  next =>
    refine inStep_bind (ends_saveJob job.name job.announced.toRecord) fun answer _ => ?_
    cases answer with
    | error error => exact ends_noting rfl (inStep_pure trivial)
    | ok done => exact inStep_pure trivial
  next => exact inStep_pure trivial

theorem run_notifyReady_of_idle {command : Option String} {now : Instant} {jobs : List DriveJob}
    (world : Rehearsal) (h : DriveJob.readyNames jobs now = []) :
    (host.notifyReady command now jobs).run world = .ok ((⟨[], false⟩, jobs), world) := by
  unfold Host.notifyReady
  rw [h]
  rfl

theorem ends_notifyReady (command : Option String) (now : Instant) (jobs : List DriveJob) :
    Ends (host.notifyReady command now jobs) := by
  unfold Host.notifyReady
  split
  next => exact inStep_pure trivial
  next =>
    refine inStep_bind (ends_deliver command _) fun delivered _ => ?_
    split
    next =>
      refine inStep_bind (inStep_mapM fun job _ => ends_markNotified now job) fun marked _ => ?_
      exact ends_noting rfl (inStep_pure trivial)
    next =>
      rw [pure_bind]
      exact ends_noting rfl (inStep_pure trivial)

end Rehearsal

/-- Every pass of announcements ends. If no job is ready, nothing is asked for, nothing changes
and nothing is delivered. If some are, a command with words runs once, with the ready names in
the order of the jobs behind its words. When it cannot be run, the jobs and the store stay as
they are. Otherwise the pass is delivered: each ready job is marked and a save of it is asked
for, all other jobs and records stay as they are, and no job is ready any more. -/
theorem pass_delivers_all_or_nothing (command : Option String) (now : Instant)
    (jobs : List DriveJob) (world : Rehearsal) :
    exists report passed later running marking,
      (Rehearsal.host.notifyReady command now jobs).run world = .ok ((report, passed), later) ∧
      later.requests = world.requests ++ (running ++ marking) ∧
      report.ready = DriveJob.readyNames jobs now ∧
      (report.ready = [] ->
        report.delivered = false ∧ running = [] ∧ marking = [] ∧ passed = jobs ∧ later = world) ∧
      (report.ready ≠ [] -> Conveys command report.ready running report.delivered) ∧
      (report.delivered = false -> marking = [] ∧ passed = jobs ∧ later.store = world.store) ∧
      (report.delivered = true ->
        Each (Marks now) jobs marking passed ∧
        MemoryStore.SavedBy marking world.store later.store ∧
        (forall name record answer, .recordSaved name record answer ∈ marking ->
          name ∈ report.ready) ∧
        forall job, job ∈ passed -> job.isReady now = false) := by
  rcases inStep_still_iff.mp (Rehearsal.ends_notifyReady command now jobs) world trivial with
    ⟨⟨report, passed⟩, later, hrun, _, _⟩
  rcases Rehearsal.yields_notifyReady command now jobs world _ later hrun with
    ⟨deeds, hpassage, hannounces⟩
  dsimp only at hannounces
  cases hannounces with
  | idle hidle =>
      cases hrun.symm.trans (Rehearsal.run_notifyReady_of_idle world hidle)
      refine ⟨_, _, _, [], [], hrun, by simp, hidle.symm, ?_, ?_, ?_, ?_⟩
      · exact fun _ => ⟨rfl, rfl, rfl, rfl, rfl⟩
      · exact fun hready => absurd rfl hready
      · exact fun _ => ⟨rfl, rfl, rfl⟩
      · exact fun hdelivered => absurd hdelivered Bool.false_ne_true
  | failed hready hdelivers =>
      refine ⟨_, _, _, deeds, [], hrun, by simpa using hpassage.requests, rfl, ?_, ?_, ?_, ?_⟩
      · exact fun hidle => absurd hidle hready
      · exact fun _ => hdelivers.conveys
      · exact fun _ => ⟨rfl, rfl, hdelivers.store_eq hpassage.serves⟩
      · exact fun hdelivered => absurd hdelivered Bool.false_ne_true
  | @delivered running marking _ hready hdelivers hmarks =>
      rcases hpassage.serves.split with ⟨mid, hrunning, hmarking⟩
      rw [hdelivers.store_eq hrunning] at hmarking
      have hsaves : forall deed, deed ∈ marking -> deed.asksSave = true :=
        hmarks.all (fun deed => deed.asksSave = true) fun _ _ _ => Marks.asksSave
      refine ⟨_, _, _, running, marking, hrun, hpassage.requests, rfl, ?_, ?_, ?_, ?_⟩
      · exact fun hidle => absurd hidle hready
      · exact fun _ => hdelivers.conveys
      · exact fun hfailed => absurd hfailed.symm Bool.false_ne_true
      · refine fun _ => ⟨hmarks, hmarking.savedBy hsaves, ?_, ?_⟩
        · intro name record answer hmem
          by_contra hname
          exact not_mem_marking hmarks hname hmem
        · intro marked hmarked
          rcases hmarks.exists_of_mem hmarked with ⟨job, own, _, hown, _⟩
          exact hown.not_ready

end RenewalDrive
