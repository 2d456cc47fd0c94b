import RenewalDrive.Proofs.Store.Memory
import RenewalDrive.Proofs.Store.Records
import RenewalDrive.Proofs.Store.Acts
import RenewalDrive.Store.Files

/-!
# Trees that mirror a memory store

What a file store keeps is what stands below its base: a directory for each entry, and in it
the file of a record. A tree mirrors a memory store when these directories and files are the
entries and the records of that store. From such a tree each question is answered as the
memory store answers it.
-/

namespace RenewalDrive

inductive RecordKind where
  | job
  | credential
deriving DecidableEq

namespace RecordKind

def group : RecordKind -> Group
  | .job => .staging
  | .credential => .domains

def file : RecordKind -> String
  | .job => jobFileName
  | .credential => credentialFileName

def temporary : RecordKind -> String
  | .job => jobTemporaryName
  | .credential => credentialTemporaryName

variable (kind other : RecordKind)

theorem file_ne_temporary : kind.file ≠ other.temporary := by
  cases kind <;> cases other <;> decide

theorem isName_file : Tree.IsName kind.file := by
  cases kind <;> exact ⟨by decide, by decide, by decide⟩

theorem isName_temporary : Tree.IsName kind.temporary := by
  cases kind <;> exact ⟨by decide, by decide, by decide⟩

theorem temporary_le : kind.temporary.utf8ByteSize ≤ kind.file.utf8ByteSize := by
  cases kind <;> decide

end RecordKind

def MemoryStore.file? (memory : MemoryStore) (kind : RecordKind) (name : String) : Option Node :=
  match kind with
  | .job => (memory.records name).map fun record => .file (Json.bytesOf record.toJson.pretty)
  | .credential =>
      (memory.credentials name).map fun credential =>
        .file (Json.bytesOf credential.toJson.pretty)

namespace Group

variable {group other : Group}

theorem isName_name (group : Group) : Tree.IsName group.name := by
  cases group <;> exact ⟨by decide, by decide, by decide⟩

theorem name_inj : group.name = other.name ↔ group = other := by
  cases group <;> cases other <;> decide

end Group

theorem NameFault.moves_of_faultless {name : String} (h : NameFault.ofName? name = none) :
    Route.isIdle name = false ∧ name ≠ ".." := by
  unfold ofName? at h
  split_ifs at h with hempty hpath
  simp only [not_or] at hpath
  exact ⟨by simp [Route.isIdle, hempty, hpath.1], hpath.2.1⟩

structure NameFault.Accepts (name : String) : Prop where
  faultless : NameFault.ofName? name = none
  fits : name.utf8ByteSize ≤ Tree.nameLimit

theorem NameFault.Accepts.isName {name : String} (h : NameFault.Accepts name) :
    Tree.IsName name where
  moves := (moves_of_faultless h.faultless).1
  down := (moves_of_faultless h.faultless).2
  fits := h.fits

namespace FileStore

variable {store : FileStore} {made tree later : Tree} {home : Path}
variable {memory memory' : MemoryStore} {kind : RecordKind} {group : Group} {name : String}

structure Founded (store : FileStore) (made : Tree) (home : Path) : Prop where
  sound : made.Sound
  leads : made.Leads store.base.start store.base.stem home
  bare : forall name, made.get? (home ++ [name]) = none

theorem Founded.none_below (h : store.Founded made home) {names : List String}
    (hne : names ≠ []) {path : Path} (hpre : home ++ names <+: path) : made.get? path = none := by
  rcases List.exists_cons_of_ne_nil hne with ⟨first, rest, rfl⟩
  refine h.sound.none_of_prefix (h.bare first) (List.IsPrefix.trans ?_ hpre)
  exact (List.prefix_append_right_inj home).mpr ⟨rest, rfl⟩

/-- A tree mirrors a memory store: what stood around the base of the file store still stands
there, and below the base stand the entries and the records of the memory store. -/
structure Mirrors (store : FileStore) (made : Tree) (home : Path) (tree : Tree)
    (memory : MemoryStore) : Prop where
  founded : store.Founded made home
  sound : tree.Sound
  kept : forall path, made.get? path = some .directory -> tree.get? path = some .directory
  groups : forall (group : Group) (content : List UInt8),
    tree.get? (home ++ [group.name]) ≠ some (.file content)
  entries : forall (group : Group) (name : String), tree.get? (home ++ [group.name, name]) =
    if name ∈ memory.entries group then some .directory else none
  files : forall (kind : RecordKind) (name : String),
    tree.get? (home ++ [kind.group.name, name, kind.file]) = memory.file? kind name
  temporaries : forall (kind : RecordKind) (name : String),
    tree.get? (home ++ [kind.group.name, name, kind.temporary]) = none
  ascending : forall group, Ascending (memory.entries group)

theorem Mirrors.leads (h : store.Mirrors made home tree memory) :
    tree.Leads store.base.start store.base.stem home :=
  h.founded.leads.mono h.kept

theorem Founded.mirrors (h : store.Founded made home) :
    store.Mirrors made home made .empty where
  founded := h
  sound := h.sound
  kept := fun _ hpath => hpath
  groups := by
    intro group content
    rw [h.bare]
    simp
  entries := fun group name => h.none_below (List.cons_ne_nil _ _) (List.prefix_refl _)
  files := by
    intro kind name
    rw [h.none_below (List.cons_ne_nil _ _) (List.prefix_refl _)]
    cases kind <;> rfl
  temporaries := fun kind name => h.none_below (List.cons_ne_nil _ _) (List.prefix_refl _)
  ascending := fun _ => List.Pairwise.nil

/-!
## Routes
-/

abbrev below (store : FileStore) (names : List String) : Route :=
  ⟨store.base.start, store.base.stem ++ names⟩

theorem groupRoute_eq : store.groupRoute group = store.below [group.name] :=
  Route.child_eq _ _

theorem child_groupRoute :
    (store.groupRoute group).child name = store.below [group.name, name] := by
  rw [groupRoute_eq]
  refine Route.child_names (List.cons_ne_nil _ _) ?_ name
  intro part hpart
  rw [List.mem_singleton.mp hpart]
  exact group.isName_name.ne_empty

theorem entryRoute_eq (h : NameFault.ofName? name = none) :
    store.entryRoute group name = .ok (store.below [group.name, name]) := by
  unfold entryRoute
  rw [h, child_groupRoute]

theorem isName_of_mem_entry (h : NameFault.Accepts name) :
    forall part, part ∈ [group.name, name] -> Tree.IsName part := by
  intro part hpart
  rcases List.mem_pair.mp hpart with rfl | rfl
  · exact group.isName_name
  · exact h.isName

theorem child_file (h : NameFault.Accepts name) (file : String) :
    (store.below [group.name, name]).child file = store.below [group.name, name, file] :=
  Route.child_names (List.cons_ne_nil _ _)
    (fun part hpart => (isName_of_mem_entry h part hpart).ne_empty) file

theorem fault?_entry {file : String} (h : NameFault.Accepts name)
    (hfault : (store.below [group.name, name, file]).fault? = none) :
    (store.below [group.name, name]).fault? = none := by
  have hsplit : [group.name, name, file] = [group.name, name] ++ [file] := rfl
  rw [hsplit] at hfault
  exact Route.fault?_of_names hfault (List.cons_ne_nil _ _)
    fun part hpart => (isName_of_mem_entry h part hpart).ne_empty

theorem fault?_temporary
    (hfault : (store.below [kind.group.name, name, kind.file]).fault? = none) :
    (store.below [kind.group.name, name, kind.temporary]).fault? = none := by
  have hsplit : forall file, store.below [kind.group.name, name, file] =
      ⟨store.base.start, store.base.stem ++ [kind.group.name, name] ++ [file]⟩ := by simp
  rw [hsplit] at hfault ⊢
  refine Route.fault?_of_shorter hfault (by simp) ?_ kind.temporary_le
  cases kind <;> decide

/-!
## Questions
-/

theorem prefix_cases {path : Path} {first second : String}
    (h : path <+: home ++ [first, second]) :
    path <+: home ∨ path = home ++ [first] ∨ path = home ++ [first, second] := by
  rcases List.prefix_or_prefix_of_prefix h (List.prefix_append home _) with hpre | ⟨rest, rfl⟩
  · exact .inl hpre
  · have hrest := (List.prefix_append_right_inj home).mp h
    rcases List.prefix_cons_iff.mp hrest with rfl | ⟨more, rfl, hmore⟩
    · exact .inl (by simp)
    · rcases List.prefix_cons_iff.mp hmore with rfl | ⟨last, rfl, hlast⟩
      · exact .inr (.inl rfl)
      · rw [List.prefix_nil.mp hlast]
        exact .inr (.inr rfl)

namespace Mirrors

theorem no_file (h : store.Mirrors made home tree memory) {path : Path} {content : List UInt8}
    (hpre : path <+: home ++ [group.name, name]) : tree.get? path ≠ some (.file content) := by
  rcases prefix_cases hpre with hpre | rfl | rfl
  · intro hfile
    have hdirectory : tree.get? path = some .directory := by
      by_cases heq : path = home
      · rw [heq]
        exact h.leads.at_home
      · exact h.sound.directory_of_prefix h.leads.at_home hpre heq
    rw [hfile] at hdirectory
    cases hdirectory
  · exact h.groups group content
  · rw [h.entries]
    split_ifs <;> simp

theorem reach_entry (h : store.Mirrors made home tree memory) (hname : NameFault.Accepts name)
    (hfault : (store.below [group.name, name]).fault? = none)
    (hmem : name ∈ memory.entries group) :
    tree.reach (store.below [group.name, name]) = .ok (home ++ [group.name, name]) := by
  have hentry := h.entries group name
  rw [if_pos hmem] at hentry
  rw [Tree.reach_names h.sound h.leads hfault (List.cons_ne_nil _ _),
    Tree.follow_of_get? h.sound (isName_of_mem_entry hname) hentry]

theorem find_entry (h : store.Mirrors made home tree memory) (hname : NameFault.Accepts name)
    (hfault : (store.below [group.name, name]).fault? = none) :
    tree.find (store.below [group.name, name]) =
      if name ∈ memory.entries group then .ok .directory else .error .notFound := by
  have hnames : forall part, part ∈ [group.name, name] -> Tree.IsName part :=
    isName_of_mem_entry hname
  have hentry := h.entries group name
  split_ifs at hentry ⊢ with hmem
  · exact Tree.find_of_get? h.sound h.leads hfault (List.cons_ne_nil _ _) hnames hentry
  · exact Tree.find_of_missing h.sound h.leads hfault (List.cons_ne_nil _ _) hnames hentry
      fun path content hpre => h.no_file hpre

theorem find_file (h : store.Mirrors made home tree memory) (kind : RecordKind)
    (hname : NameFault.Accepts name)
    (hfault : (store.below [kind.group.name, name, kind.file]).fault? = none) :
    tree.find (store.below [kind.group.name, name, kind.file]) =
      match memory.file? kind name with
      | some node => .ok node
      | none => .error .notFound := by
  have hnames : forall part, part ∈ [kind.group.name, name, kind.file] -> Tree.IsName part := by
    intro part hpart
    rcases List.mem_cons.mp hpart with rfl | hpart
    · exact kind.group.isName_name
    · rcases List.mem_pair.mp hpart with rfl | rfl
      · exact hname.isName
      · exact kind.isName_file
  have hfile := h.files kind name
  cases hnode : memory.file? kind name with
  | some node =>
      rw [hnode] at hfile
      exact Tree.find_of_get? h.sound h.leads hfault (List.cons_ne_nil _ _) hnames hfile
  | none =>
      rw [hnode] at hfile
      refine Tree.find_of_missing h.sound h.leads hfault (List.cons_ne_nil _ _) hnames hfile ?_
      intro path content hpre
      have hsplit : home ++ [kind.group.name, name, kind.file] =
          home ++ [kind.group.name, name] ++ [kind.file] := by simp
      rw [hsplit] at hpre
      rcases List.prefix_concat_iff.mp hpre with rfl | hpre
      · rw [← hsplit, hfile]
        simp
      · exact h.no_file hpre

end Mirrors

def recordAt {α : Type} (r : Json.Reader α) :
    Except FileError Node -> Except StoreError (Option α)
  | .error .notFound => .ok none
  | .error error => .error (.file error)
  | .ok .directory => .error (.file .isDirectory)
  | .ok (.file content) =>
      match String.fromUTF8? ⟨content.toArray⟩ with
      | none => .error (.file .notText)
      | some text =>
          match Json.readText r text with
          | .ok value => .ok (some value)
          | .error fault => .error (.json fault)

theorem run_readRecord_eq {α : Type} (r : Json.Reader α) (route : Route) (tree : Tree) :
    readRecord r route tree = (recordAt r (tree.find route), tree) := by
  have hread := FileAct.run_readText route tree
  rw [FileAct.run_readBytes] at hread
  rcases hfind : tree.find route with error | _ | content
  · simp only [hfind] at hread
    cases error with
    | notFound =>
        have hmissing : unlessMissing (FileAct.readText route) tree = (.ok none, tree) := by
          simp only [unlessMissing, hread]
        exact FileAct.run_bind_ok hmissing
    | _ =>
        exact FileAct.run_bind_error (by simp only [unlessMissing, hread])
  · simp only [hfind] at hread
    have hmissing : unlessMissing (FileAct.readText route) tree =
        (.error (.file .isDirectory), tree) := by
      simp only [unlessMissing, hread]
    exact FileAct.run_bind_error hmissing
  · simp only [hfind] at hread
    cases htext : String.fromUTF8? ⟨content.toArray⟩ with
    | none =>
        have hmissing : unlessMissing (FileAct.readText route) tree =
            (.error (.file .notText), tree) := by
          simp only [unlessMissing, hread, htext]
        simp only [recordAt, htext]
        exact FileAct.run_bind_error hmissing
    | some text =>
        have hfound : unlessMissing (FileAct.readText route) tree = (.ok (some text), tree) := by
          simp only [unlessMissing, hread, htext]
        refine (FileAct.run_bind_ok hfound).trans ?_
        simp only [recordAt, htext]
        cases Json.readText r text <;> rfl

theorem recordAt_written {α : Type} {r : Json.Reader α} {value : α} {text : String}
    (hread : Json.readText r text = .ok value) :
    recordAt r (.ok (.file (Json.bytesOf text))) = .ok (some value) := by
  simp only [recordAt, Text.fromUTF8?_bytesOf, hread]

theorem run_readRecord {α : Type} {r : Json.Reader α} {route : Route} {value : α} {text : String}
    (hfind : tree.find route = .ok (.file (Json.bytesOf text)))
    (hread : Json.readText r text = .ok value) :
    readRecord r route tree = (.ok (some value), tree) := by
  rw [run_readRecord_eq, hfind, recordAt_written hread]

theorem run_readRecord_missing {α : Type} {r : Json.Reader α} {route : Route}
    (hfind : tree.find route = .error .notFound) :
    readRecord r route tree = (.ok none, tree) := by
  rw [run_readRecord_eq, hfind, recordAt]

theorem run_atEntry {α : Type} (h : NameFault.ofName? name = none) (act : Route -> StoreAct α) :
    (do act (← store.entryRoute group name) : StoreAct α) tree =
      act (store.below [group.name, name]) tree := by
  rw [entryRoute_eq h]
  rfl

theorem run_atEntry_congr {α : Type} (h : NameFault.ofName? name = none)
    {act : Route -> StoreAct α}
    (hact : act (store.below [group.name, name]) tree =
      act (store.below [group.name, name]) later) :
    (do act (← store.entryRoute group name) : StoreAct α) tree =
      (do act (← store.entryRoute group name) : StoreAct α) later :=
  (run_atEntry h act).trans (hact.trans (run_atEntry h act).symm)

namespace Mirrors

theorem run_loadJob (h : store.Mirrors made home tree memory) (hname : NameFault.Accepts name)
    (hfault : (store.below [Group.staging.name, name, jobFileName]).fault? = none) :
    store.loadJob name tree = (.ok (memory.loadJob name), tree) := by
  refine (run_atEntry hname.faultless _).trans ?_
  rw [child_file hname]
  have hfind := h.find_file .job hname hfault
  unfold MemoryStore.loadJob
  cases hrecord : memory.records name with
  | none =>
      refine run_readRecord_missing (hfind.trans ?_)
      simp only [MemoryStore.file?, hrecord, Option.map_none]
  | some record =>
      refine run_readRecord (hfind.trans ?_) (JobRecord.read_pretty record)
      simp only [MemoryStore.file?, hrecord, Option.map_some]

theorem run_loadCredential (h : store.Mirrors made home tree memory)
    (hname : NameFault.Accepts name)
    (hfault : (store.below [Group.domains.name, name, credentialFileName]).fault? = none) :
    store.loadCredential name tree = (.ok (memory.loadCredential name), tree) := by
  refine (run_atEntry hname.faultless _).trans ?_
  rw [child_file hname]
  have hfind := h.find_file .credential hname hfault
  unfold MemoryStore.loadCredential
  cases hcredential : memory.credentials name with
  | none =>
      refine run_readRecord_missing (hfind.trans ?_)
      simp only [MemoryStore.file?, hcredential, Option.map_none]
  | some credential =>
      refine run_readRecord (hfind.trans ?_) (Credential.read_pretty credential)
      simp only [MemoryStore.file?, hcredential, Option.map_some]

theorem entries_eq_nil (h : store.Mirrors made home tree memory)
    (hget : tree.get? (home ++ [group.name]) = none) : memory.entries group = [] := by
  refine List.eq_nil_iff_forall_not_mem.mpr fun name hname => ?_
  have hentry := h.entries group name
  rw [if_pos hname, h.sound.none_of_prefix hget] at hentry
  · cases hentry
  · exact (List.prefix_append_right_inj home).mpr ⟨[name], rfl⟩

theorem childDirectories_eq (h : store.Mirrors made home tree memory) :
    ((tree.childDirectories (home ++ [group.name])).mergeSort fun a b => a ≤ b) =
      memory.entries group := by
  refine mergeSort_eq_of_ascending (h.ascending group) h.sound.nodup_childDirectories ?_
  intro name
  rw [h.sound.mem_childDirectories, List.append_assoc]
  show tree.get? (home ++ [group.name, name]) = _ ↔ _
  rw [h.entries]
  split_ifs with hmem <;> simp [hmem]

theorem run_listNames (h : store.Mirrors made home tree memory)
    (hfault : (store.below [group.name]).fault? = none) :
    store.listNames group tree = (.ok (memory.listNames group), tree) := by
  have hnames : forall part, part ∈ [group.name] -> Tree.IsName part := by
    intro part hpart
    rw [List.mem_singleton.mp hpart]
    exact group.isName_name
  have hne : [group.name] ≠ [] := List.cons_ne_nil _ _
  have hreach := Tree.reach_names h.sound h.leads hfault hne
  rw [Tree.follow_name group.isName_name] at hreach
  unfold MemoryStore.listNames
  cases hget : tree.get? (home ++ [group.name]) with
  | none =>
      have hfind : tree.find (store.below [group.name]) = .error .notFound := by
        refine Tree.find_of_missing h.sound h.leads hfault hne hnames hget ?_
        intro path content hpre
        exact h.no_file (hpre.trans ((List.prefix_append_right_inj home).mpr ⟨[""], rfl⟩))
      have hanswer : unlessMissing (FileAct.listDirectories (store.groupRoute group)) tree =
          (.ok none, tree) := by
        unfold unlessMissing
        rw [FileAct.run_listDirectories, groupRoute_eq, hreach, hfind]
      refine (FileAct.run_bind_ok hanswer).trans ?_
      rw [h.entries_eq_nil hget, Option.getD_none, List.mergeSort_nil]
      rfl
  | some node =>
      have hdirectory : node = .directory := by
        cases node with
        | directory => rfl
        | file content => exact absurd hget (h.groups group content)
      subst hdirectory
      have hfind := Tree.find_of_get? h.sound h.leads hfault hne hnames hget
      have hanswer : unlessMissing (FileAct.listDirectories (store.groupRoute group)) tree =
          (.ok (some (tree.childDirectories (home ++ [group.name]))), tree) := by
        unfold unlessMissing
        rw [FileAct.run_listDirectories, groupRoute_eq, hreach, hfind]
      refine (FileAct.run_bind_ok hanswer).trans ?_
      rw [← h.childDirectories_eq]
      rfl

end Mirrors

end FileStore

end RenewalDrive
