import Mathlib.Data.String.Basic
import RenewalDrive.Proofs.Store.Interruption
import RenewalDrive.Proofs.Store.Mirror

/-!
# A save is done as a whole or not at all

Wherever an attempt to save a record stops, loading it again answers what it answered before, or
the new record; it answers the former when the attempt has failed. Two things may stand between.
The file that is written to is not flushed, so it may be silent about a part of the text that it
could not write: the text comes to its place without that part. And the directories that a save
makes are made first: where the way to the record goes on behind a missing one by a step up, or by
a name that a file system does not take, making that one shows what the step leads to.
-/

namespace RenewalDrive

/-!
## Records of both kinds
-/

namespace RecordKind

abbrev Record : RecordKind -> Type
  | .job => JobRecord
  | .credential => Credential

def reader : (kind : RecordKind) -> Json.Reader kind.Record
  | .job => JobRecord.reader
  | .credential => Credential.reader

def toJson : (kind : RecordKind) -> kind.Record -> Json.Value
  | .job => JobRecord.toJson
  | .credential => Credential.toJson

theorem read_pretty (kind : RecordKind) (record : kind.Record) :
    Json.readText kind.reader (kind.toJson record).pretty = .ok record := by
  cases kind with
  | job => exact JobRecord.read_pretty record
  | credential => exact Credential.read_pretty record

def bytes (kind : RecordKind) (record : kind.Record) : List UInt8 :=
  Json.bytesOf (kind.toJson record).pretty

end RecordKind

namespace FileStore

variable {store : FileStore} {kind : RecordKind} {name : String} {record next : kind.Record}
  {tree later saved : Tree} {ending : Ending} {error : StoreError}

def load (store : FileStore) :
    (kind : RecordKind) -> String -> StoreAct (Option kind.Record)
  | .job => store.loadJob
  | .credential => store.loadCredential

def save (store : FileStore) : (kind : RecordKind) -> String -> kind.Record -> StoreAct Unit
  | .job => store.saveJob
  | .credential => store.saveCredential

def home (store : FileStore) (kind : RecordKind) (name : String) : Route :=
  (store.groupRoute kind.group).child name

def saving (store : FileStore) (kind : RecordKind) (name : String) (record : kind.Record) :
    List SaveStep :=
  saveSteps (store.home kind name) kind.temporary kind.file (kind.bytes record)

theorem home_eq (store : FileStore) (kind : RecordKind) (name : String) :
    store.home kind name = store.below [kind.group.name, name] :=
  child_groupRoute

theorem start_home (store : FileStore) (kind : RecordKind) (name : String) :
    (store.home kind name).start = store.base.start := by
  rw [home_eq]

section

variable (hname : NameFault.ofName? name = none)

include hname

theorem load_eq (tree : Tree) :
    store.load kind name tree =
      (recordAt kind.reader (tree.find ((store.home kind name).child kind.file)), tree) := by
  rw [home_eq]
  cases kind with
  | job => exact (run_atEntry hname _).trans (run_readRecord_eq _ _ tree)
  | credential => exact (run_atEntry hname _).trans (run_readRecord_eq _ _ tree)

theorem save_eq (tree : Tree) :
    store.save kind name record tree =
      ofFiles ((store.saving kind name record).forM SaveStep.run) tree := by
  unfold saving
  rw [home_eq]
  cases kind with
  | job => exact run_atEntry hname _
  | credential => exact run_atEntry hname _

theorem place_home : Place (store.home kind name) kind.temporary kind.file where
  child := by
    intro last
    have hne : name ≠ "" := by
      rintro rfl
      cases hname
    rw [home_eq]
    refine (Route.child_names (List.cons_ne_nil _ _) ?_ last).trans ?_
    · intro part hpart
      rcases List.mem_pair.mp hpart with rfl | rfl
      · exact kind.group.isName_name.ne_empty
      · exact hne
    · rw [List.append_assoc]
  distinct := (kind.file_ne_temporary kind).symm
  name_temporary := kind.isName_temporary
  name_target := kind.isName_file

theorem done_of_save (h : store.save kind name record tree = (.ok (), later)) :
    ((store.saving kind name record).forM SaveStep.run) tree = (.ok (), later) := by
  rw [save_eq hname, ofFiles] at h
  split at h
  · rename_i hrun
    cases h
    exact hrun
  · cases h

theorem attempts_of_save (h : store.save kind name record tree = (.error error, later)) :
    exists failure, Attempts (store.saving kind name record) tree (.failed failure) later := by
  rw [save_eq hname, ofFiles] at h
  split at h
  · cases h
  · rename_i hrun
    cases h
    exact ⟨_, attempts_of_error hrun⟩

end

section

variable (hname : NameFault.ofName? name = none) (hs : tree.Sound)
  (hstart : tree.get? store.base.start = some .directory)

include hname hs hstart

theorem load_saved {next : kind.Record}
    (hsave : store.save kind name next tree = (.ok (), saved)) :
    (store.load kind name saved).1 = .ok (some next) := by
  rw [← start_home store kind name] at hstart
  rw [load_eq hname, (find_of_written (place_home hname) hs hstart (done_of_save hname hsave)).2.2]
  exact recordAt_written (kind.read_pretty next)

/-- An attempt to write something as a record leaves what is loaded as it was, or lets it be read
from what was written; it is done or has failed accordingly. -/
theorem attempt_cases {written : List UInt8}
    (hdown : (store.load kind name tree).1 = .ok none ->
      tree.Descends (store.home kind name).start (store.home kind name).steps)
    (h : Attempts (saveSteps (store.home kind name) kind.temporary kind.file written) tree ending
      later) :
    later.Sound ∧ later.get? store.base.start = some .directory ∧
      ((store.load kind name later).1 = (store.load kind name tree).1 ∧ ending ≠ .done ∨
        (store.load kind name later).1 = recordAt kind.reader (.ok (.file written)) ∧
          forall error, ending ≠ .failed error) := by
  have hstart' := hstart
  rw [← start_home store kind name] at hstart' ⊢
  have hwritten : ((saveSteps (store.home kind name) kind.temporary kind.file written).forM
        SaveStep.run) tree = (.ok (), later) ->
      later.Sound ∧ later.get? (store.home kind name).start = some .directory ∧
        (store.load kind name later).1 = recordAt kind.reader (.ok (.file written)) := by
    intro hrun
    rcases find_of_written (place_home hname) hs hstart' hrun with ⟨hsLater, hstartLater, hfind⟩
    refine ⟨hsLater, hstartLater, ?_⟩
    rw [load_eq hname, hfind]
  cases h with
  | done hrun =>
      rcases hwritten hrun with ⟨hsLater, hstartLater, hload⟩
      exact ⟨hsLater, hstartLater, .inr ⟨hload, nofun⟩⟩
  | unanswered hrun =>
      rcases hwritten hrun with ⟨hsLater, hstartLater, hload⟩
      exact ⟨hsLater, hstartLater, .inr ⟨hload, nofun⟩⟩
  | stopped hending hsteps hbefore hleaves =>
      have hway : tree.find ((store.home kind name).child kind.file) = .error .notFound ->
          tree.Descends (store.home kind name).start (store.home kind name).steps := by
        intro hmissing
        refine hdown ?_
        rw [load_eq hname, hmissing]
        rfl
      rcases find_of_stopped (place_home hname) hs hstart' hway hsteps hbefore hleaves with
        ⟨hsLater, hstartLater, hfind⟩
      refine ⟨hsLater, hstartLater, .inl ⟨?_, hending⟩⟩
      rw [load_eq hname, load_eq hname, hfind]

end

/-- What becomes of a save depends on the file that is written to, which may be silent about a part
of a write. A record is then loaded as it was before, and so it is where the save fails; or as
the new one; or, where the file was silent, as what was really written reads: the torn text
has come to its place, and any save that can be done is done with it just as well. A later save
that is written as a whole is loaded back, whatever this one has left. -/
theorem saves_whole_unless_silent (hs : tree.Sound)
    (hstart : tree.get? store.base.start = some .directory)
    (hname : NameFault.ofName? name = none)
    (hdown : (store.load kind name tree).1 = .ok none ->
      tree.Descends (store.home kind name).start (store.home kind name).steps)
    (silent : List UInt8 -> List UInt8 -> Prop) :
    (forall ending later,
      AttemptsWith silent (store.saving kind name record) tree ending later ->
      ((store.load kind name later).1 = (store.load kind name tree).1 ∧ ending ≠ .done ∨
        (forall error, ending ≠ .failed error) ∧
          ((store.load kind name later).1 = .ok (some record) ∨
            exists part, silent (kind.bytes record) part ∧
              (store.load kind name later).1 = recordAt kind.reader (.ok (.file part)))) ∧
      forall next saved, store.save kind name next later = (.ok (), saved) ->
        (store.load kind name saved).1 = .ok (some next)) ∧
    (forall part saved, silent (kind.bytes record) part ->
      store.save kind name record tree = (.ok (), saved) ->
      exists later, AttemptsWith silent (store.saving kind name record) tree .done later ∧
        (store.load kind name later).1 = recordAt kind.reader (.ok (.file part))) ∧
    (forall error later, store.save kind name record tree = (.error error, later) ->
      (store.load kind name later).1 = (store.load kind name tree).1) ∧
    forall later, store.save kind name record tree = (.ok (), later) ->
      (store.load kind name later).1 = .ok (some record) := by
  refine ⟨fun ending later hattempts => ?_, fun part saved hsilent hsave => ?_,
    fun error later hsave => ?_, fun later hsave => load_saved hname hs hstart hsave⟩
  · rcases hattempts with ⟨counted, hcounted, hattempt⟩
    rcases counted_cases hcounted with ⟨written, hwritten, rfl⟩
    rcases attempt_cases hname hs hstart hdown hattempt with ⟨hsLater, hstartLater, hload⟩
    refine ⟨hload.imp_right ?_, fun next saved => load_saved hname hsLater hstartLater⟩
    rintro ⟨hread, hanswer⟩
    refine ⟨hanswer, ?_⟩
    rcases hwritten with rfl | hsilent
    · exact .inl (hread.trans (recordAt_written (kind.read_pretty record)))
    · exact .inr ⟨written, hsilent, hread⟩
  · have hstart' := hstart
    rw [← start_home store kind name] at hstart'
    rcases written_of_written (place_home hname) hs hstart' (done_of_save hname hsave) part with
      ⟨later, hrun, _, _, hfind⟩
    refine ⟨later, attemptsWith_of_silent hsilent (.done hrun), ?_⟩
    rw [load_eq hname, hfind]
  · rcases attempts_of_save hname hsave with ⟨failure, hattempt⟩
    rcases attempt_cases hname hs hstart hdown hattempt with ⟨_, _, ⟨hold, _⟩ | ⟨_, hanswer⟩⟩
    · exact hold
    · exact absurd rfl (hanswer failure)

theorem descends_of_names {start : Path} {steps : List String}
    (h : forall step, step ∈ steps -> Route.isIdle step = true ∨ Tree.IsName step) :
    tree.Descends start steps := by
  rintro front rest rfl - step hstep
  exact h step (List.mem_append_right front hstep)

/-- The bytes that are handed to a file at once. -/
def pieceLength : Nat := 2097152

/-- A save into an empty tree that fails when it has written two bytes of the record. -/
theorem nothing_of_failed_save :
    exists later,
      AttemptsWith (Unflushed pieceLength)
        ((FileStore.mk (Route.ofText [] "/store")).saving .job "a" { name := "a" }) .empty
        (.failed .permissionDenied) later ∧
      ((FileStore.mk (Route.ofText [] "/store")).load .job "a" later).1 = .ok none := by
  let store := FileStore.mk (Route.ofText [] "/store")
  let record : RecordKind.Record .job := ({ name := "a" } : JobRecord)
  have hnames : forall step, step ∈ (store.home .job "a").steps ->
      Route.isIdle step = true ∨ Tree.IsName step := by
    change forall step, step ∈ ["", "store", "staging", "a"] -> _
    simp only [List.forall_mem_cons]
    exact ⟨.inl rfl, .inr ⟨by decide, by decide, by decide⟩, .inr ⟨by decide, by decide, by decide⟩,
      .inr ⟨by decide, by decide, by decide⟩, nofun⟩
  have hname : NameFault.ofName? "a" = none := by decide
  let begun : List SaveStep := (store.saving .job "a" record).take 2
  have hbegun : (begun.forM SaveStep.run .empty).1 = .ok () := by decide +kernel
  have hattempt : AttemptsWith (Unflushed pieceLength) (store.saving .job "a" record) .empty
      (.failed .permissionDenied) _ :=
    attemptsWith_of_attempts
      (.stopped nofun rfl (Prod.ext hbegun rfl) (.appended _ _ (List.take_prefix 2 _)))
  have hmissing : Tree.empty.find ((store.home .job "a").child jobFileName) = .error .notFound := by
    decide
  have hnone : (store.load .job "a" .empty).1 = .ok none := by
    rw [load_eq hname]
    exact congrArg (recordAt JobRecord.reader) hmissing
  have hroot : Tree.empty.get? store.base.start = some .directory := rfl
  have hkept := ((saves_whole_unless_silent Tree.sound_empty hroot hname
    (fun _ => descends_of_names hnames) (Unflushed pieceLength)).1 _ _ hattempt).1
  rcases hkept with ⟨hold, _⟩ | ⟨hanswer, _⟩
  · exact ⟨_, hattempt, hold.trans hnone⟩
  · exact absurd rfl (hanswer .permissionDenied)

/-!
## A full disk
-/

def holding (record : JobRecord) : Tree :=
  ⟨[(["store"], .directory), (["store", "staging"], .directory),
    (["store", "staging", "a"], .directory),
    (["store", "staging", "a", "job.json"], .file (RecordKind.bytes .job record))]⟩

/-- On a full disk nothing of a new record is written. The save is done all the same, and what is
loaded then is neither the old record nor the new one. -/
theorem error_of_full_disk :
    ((FileStore.mk (Route.ofText [] "/store")).load .job "a" (holding { name := "a" })).1 =
        .ok (some { name := "a" }) ∧
      exists later,
        AttemptsWith (Unflushed pieceLength)
          ((FileStore.mk (Route.ofText [] "/store")).saving .job "a"
            { name := "a", errorRuns := 1 })
          (holding { name := "a" }) .done later ∧
        ((FileStore.mk (Route.ofText [] "/store")).load .job "a" later).1 =
          .error (.json ⟨.endInValue, 1, 0⟩) := by
  let store := FileStore.mk (Route.ofText [] "/store")
  let old : Tree := holding { name := "a" }
  have hname : NameFault.ofName? "a" = none := by decide
  have hshort : (RecordKind.bytes .job { name := "a", errorRuns := 1 }).length ≤ pieceLength := by
    decide +kernel
  have hsilent : Unflushed pieceLength
      (RecordKind.bytes .job { name := "a", errorRuns := 1 }) [] := by
    refine ⟨List.nil_prefix, Nat.le_of_eq ?_⟩
    have hone : (RecordKind.bytes .job { name := "a", errorRuns := 1 }).length - 1 < pieceLength :=
      Nat.lt_of_le_of_lt (Nat.sub_le_sub_right hshort 1) (by decide)
    rw [Nat.div_eq_of_lt hone, Nat.zero_mul]
    rfl
  let steps := saveSteps (store.home .job "a") jobTemporaryName jobFileName []
  have hdone : (steps.forM SaveStep.run old).1 = .ok () := by decide +kernel
  have htorn : (steps.forM SaveStep.run old).2.find ((store.home .job "a").child jobFileName) =
      .ok (.file []) := by
    decide +kernel
  rcases hrun : steps.forM SaveStep.run old with ⟨result, later⟩
  rw [hrun] at hdone htorn
  cases hdone
  refine ⟨?_, later, attemptsWith_of_silent hsilent (.done hrun), ?_⟩
  · have hfound : old.find ((store.home .job "a").child jobFileName) =
        .ok (.file (RecordKind.bytes .job { name := "a" })) := by
      decide +kernel
    rw [load_eq hname]
    dsimp only
    exact (congrArg (recordAt JobRecord.reader) hfound).trans
      (recordAt_written (JobRecord.read_pretty { name := "a" }))
  · have hread : recordAt JobRecord.reader (.ok (.file [])) =
        .error (.json ⟨.endInValue, 1, 0⟩) := by
      cbv
    rw [load_eq hname]
    exact (congrArg (recordAt JobRecord.reader) htorn).trans hread

/-!
## A name that is too long
-/

theorem follow_long {rest : List String} (hidle : Route.isIdle name = false) (hup : name ≠ "..")
    (hlong : Tree.nameLimit < name.utf8ByteSize) (hbase : tree.get? ["store"] = some .directory)
    (hgroup : tree.get? ["store", "staging"] = some .directory) :
    tree.follow [] ("" :: "store" :: "staging" :: name :: rest) = .error .nameTooLong := by
  have hstore : Tree.IsName "store" := ⟨by decide, by decide, by decide⟩
  have hstaging : Tree.IsName "staging" := ⟨by decide, by decide, by decide⟩
  rw [Tree.follow, if_pos (by decide), Tree.follow_names hstore (by simp), List.nil_append, hbase]
  dsimp only
  rw [Tree.follow_names hstaging (by simp), List.singleton_append, hgroup]
  dsimp only
  rw [Tree.follow, if_neg (by simp [hidle]), if_neg hup, if_pos hlong]

theorem makeDirectoriesUp_long (hidle : Route.isIdle name = false) (hup : name ≠ "..")
    (hlong : Tree.nameLimit < name.utf8ByteSize)
    (hfault : Route.fault? ⟨[], ["", "store", "staging", name]⟩ = none) :
    exists made : Tree,
      FileAct.makeDirectoriesUp [] [name, "staging", "store", ""] .empty =
        (.error .nameTooLong, made) ∧
      made.get? ["store"] = some .directory ∧ made.get? ["store", "staging"] = some .directory := by
  have hmissing : FileAct.makeDirectory ⟨[], ["", "store", "staging", name]⟩ .empty =
      (.error .notFound, .empty) := by
    rw [FileAct.run_makeDirectory, Tree.reach, hfault]
    rfl
  have hmake : (FileAct.makeDirectoriesUp [] ["staging", "store", ""] .empty).1 = .ok () := by
    decide +kernel
  have hbase : (FileAct.makeDirectoriesUp [] ["staging", "store", ""] .empty).2.get? ["store"] =
      some .directory := by
    decide +kernel
  have hgroup : (FileAct.makeDirectoriesUp [] ["staging", "store", ""] .empty).2.get?
      ["store", "staging"] = some .directory := by
    decide +kernel
  rcases hrun : FileAct.makeDirectoriesUp [] ["staging", "store", ""] .empty with ⟨result, made⟩
  rw [hrun] at hmake hbase hgroup
  subst hmake
  have hreach : made.reach ⟨[], ["", "store", "staging", name]⟩ = .error .nameTooLong := by
    simp only [Tree.reach, hfault]
    exact follow_long hidle hup hlong hbase hgroup
  refine ⟨made, ?_, hbase, hgroup⟩
  rw [FileAct.run_makeDirectoriesUp hidle]
  simp only [List.reverse_cons, List.reverse_nil, List.nil_append, List.cons_append, hmissing,
    if_true]
  refine (FileAct.run_bind_ok hrun).trans ?_
  rw [FileAct.run_ensureDirectory, FileAct.run_makeDirectory, hreach]
  simp [Tree.isDirectory, Tree.find, hreach, bind, Except.bind]

section

variable (hname : NameFault.ofName? name = none)
  (hfault : Route.fault? ⟨[], ["", "store", "staging", name, jobFileName]⟩ = none)

include hname

theorem file_home_store :
    ((FileStore.mk (Route.ofText [] "/store")).home .job name).child jobFileName =
      ⟨[], ["", "store", "staging", name, jobFileName]⟩ := by
  have hplace : Place ((FileStore.mk (Route.ofText [] "/store")).home .job name) jobTemporaryName
      jobFileName := place_home hname
  rw [hplace.child, home_eq]
  rfl

include hfault

theorem load_from_empty :
    ((FileStore.mk (Route.ofText [] "/store")).load .job name .empty).1 = .ok none := by
  have hmissing : Tree.empty.find
      (((FileStore.mk (Route.ofText [] "/store")).home .job name).child jobFileName) =
        .error .notFound := by
    rw [file_home_store hname, Tree.find, Tree.reach, hfault]
    rfl
  rw [load_eq hname]
  exact congrArg (recordAt JobRecord.reader) hmissing

theorem load_long (hlong : Tree.nameLimit < name.utf8ByteSize)
    (hbase : tree.get? ["store"] = some .directory)
    (hgroup : tree.get? ["store", "staging"] = some .directory) :
    ((FileStore.mk (Route.ofText [] "/store")).load .job name tree).1 =
      .error (.file .nameTooLong) := by
  rcases NameFault.moves_of_faultless hname with ⟨hidle, hup⟩
  have hrefused : tree.find
      (((FileStore.mk (Route.ofText [] "/store")).home .job name).child jobFileName) =
        .error .nameTooLong := by
    rw [file_home_store hname, Tree.find, Tree.reach, hfault]
    simp only [follow_long hidle hup hlong hbase hgroup, bind, Except.bind]
  rw [load_eq hname]
  exact congrArg (recordAt JobRecord.reader) hrefused

end

/-- Under a name that is too long nothing is found before the first save, which fails; from then
on looking for it fails as well. -/
theorem error_of_save_long (hname : NameFault.ofName? name = none)
    (hlong : Tree.nameLimit < name.utf8ByteSize)
    (hfault : Route.fault? ⟨[], ["", "store", "staging", name, jobFileName]⟩ = none)
    (record : RecordKind.Record .job) :
    exists later,
      (FileStore.mk (Route.ofText [] "/store")).save .job name record .empty =
        (.error (.file .nameTooLong), later) ∧
      ((FileStore.mk (Route.ofText [] "/store")).load .job name .empty).1 = .ok none ∧
      ((FileStore.mk (Route.ofText [] "/store")).load .job name later).1 =
        .error (.file .nameTooLong) := by
  rcases NameFault.moves_of_faultless hname with ⟨hidle, hup⟩
  let store := FileStore.mk (Route.ofText [] "/store")
  have hhome : store.home .job name = ⟨[], ["", "store", "staging", name]⟩ :=
    home_eq store .job name
  have hne : name ≠ "" := by
    rintro rfl
    cases hname
  have htext : Route.text ⟨[], ["", "store", "staging"] ++ [name]⟩ ≠ "" := Route.text_ne_empty hne
  have hentry : Route.fault? ⟨[], ["", "store", "staging"] ++ [name]⟩ = none :=
    Route.fault?_of_append hfault htext
  rcases makeDirectoriesUp_long hidle hup hlong hentry with ⟨made, hmake, hbase, hgroup⟩
  refine ⟨made, ?_, load_from_empty hname hfault, load_long hname hfault hlong hbase hgroup⟩
  have hrun : SaveStep.run (.makeDirectories (store.home .job name)) .empty =
      (.error .nameTooLong, made) := by
    rw [hhome]
    exact hmake
  have hsteps : ((store.saving .job name record).forM SaveStep.run) .empty =
      (.error .nameTooLong, made) := FileAct.run_bind_error hrun
  rw [save_eq hname, ofFiles, hsteps]

def longName (length : Nat) : String :=
  String.ofList (List.replicate length 'a')

section

variable {length : Nat}

theorem utf8ByteSize_longName (length : Nat) : (longName length).utf8ByteSize = length := by
  induction length with
  | zero => rfl
  | succ length ih =>
      rw [longName, String.utf8ByteSize_ofList] at ih ⊢
      rw [List.replicate_succ, String.utf8Len_cons, ih]
      rfl

theorem longName_ne {text : String} (h : text.utf8ByteSize < length) : longName length ≠ text := by
  rintro rfl
  rw [utf8ByteSize_longName] at h
  exact h.false

theorem ofName?_longName (h : 2 < length) : NameFault.ofName? (longName length) = none := by
  rw [NameFault.ofName?, if_neg (longName_ne (Nat.zero_lt_of_lt h)), if_neg]
  simp only [not_or]
  refine ⟨longName_ne (Nat.lt_of_succ_lt h), longName_ne h, ?_⟩
  rw [longName, String.toList_ofList, List.any_replicate, if_neg (by omega)]
  decide

theorem fault?_longName (h : length ≤ 4000) :
    Route.fault? ⟨[], ["", "store", "staging", longName length, "job.json"]⟩ = none := by
  have hzero : '\x00' ∉ (longName length).toList := by
    rw [longName, String.toList_ofList, List.mem_replicate]
    exact fun hmem => absurd hmem.2 (by decide)
  rw [Route.fault?_eq_none_iff]
  simp only [Route.text, String.intercalate_cons_cons, String.intercalate_singleton,
    String.utf8ByteSize_append, utf8ByteSize_longName, String.toList_append, List.mem_append, hzero]
  refine ⟨by decide, by simp, ?_⟩
  change 0 + 1 + (5 + 1 + (7 + 1 + (length + 1 + 8))) ≤ 4095
  omega

end

/-- A save that answers an error turns nothing into an error. -/
theorem error_of_failed_save :
    NameFault.ofName? (longName 256) = none ∧
      exists error later,
        (FileStore.mk (Route.ofText [] "/store")).save .job (longName 256)
          { name := longName 256 } .empty = (.error error, later) ∧
        ((FileStore.mk (Route.ofText [] "/store")).load .job (longName 256) .empty).1 = .ok none ∧
        ((FileStore.mk (Route.ofText [] "/store")).load .job (longName 256) later).1 =
          .error (.file .nameTooLong) := by
  have hname : NameFault.ofName? (longName 256) = none := ofName?_longName (by omega)
  have hlong : Tree.nameLimit < (longName 256).utf8ByteSize := by
    rw [utf8ByteSize_longName]
    exact Nat.lt_succ_self 255
  rcases error_of_save_long hname hlong (fault?_longName (by omega))
    { name := longName 256 } with ⟨later, hsave, hmissing, hrefused⟩
  exact ⟨hname, _, later, hsave, hmissing, hrefused⟩

/-- Neither all nor nothing: a save that is done tears a record, and one that answers an error
turns nothing into an error. -/
theorem saves_neither_all_nor_nothing :
    (exists later,
      ((FileStore.mk (Route.ofText [] "/store")).load .job "a" (holding { name := "a" })).1 =
          .ok (some { name := "a" }) ∧
        AttemptsWith (Unflushed pieceLength)
          ((FileStore.mk (Route.ofText [] "/store")).saving .job "a"
            { name := "a", errorRuns := 1 })
          (holding { name := "a" }) .done later ∧
        ((FileStore.mk (Route.ofText [] "/store")).load .job "a" later).1 =
          .error (.json ⟨.endInValue, 1, 0⟩)) ∧
      exists error later,
        NameFault.ofName? (longName 256) = none ∧
        (FileStore.mk (Route.ofText [] "/store")).save .job (longName 256)
          { name := longName 256 } .empty = (.error error, later) ∧
        ((FileStore.mk (Route.ofText [] "/store")).load .job (longName 256) .empty).1 = .ok none ∧
        ((FileStore.mk (Route.ofText [] "/store")).load .job (longName 256) later).1 =
          .error (.file .nameTooLong) := by
  rcases error_of_full_disk with ⟨hold, later, hattempt, htorn⟩
  rcases error_of_failed_save with ⟨hname, error, failed, hsave, hmissing, hrefused⟩
  exact ⟨⟨later, hold, hattempt, htorn⟩, error, failed, hname, hsave, hmissing, hrefused⟩

end FileStore

end RenewalDrive
