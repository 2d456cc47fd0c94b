import RenewalDrive.Proofs.Store.Changes

/-!
# The file store is the memory store on disk

Whoever works with a store cannot tell a file store from a memory store: begun on a base that
is not there, with names that are accepted and a file system that does not fail, each call
gets the answer of the memory store. Until something is first kept, nothing stands at the
base; from then on the tree mirrors the memory store.
-/

namespace RenewalDrive

/-!
## Calls and answers
-/

inductive StoreCall where
  | saveJob (name : String) (record : JobRecord)
  | loadJob (name : String)
  | saveCredential (name : String) (credential : Credential)
  | loadCredential (name : String)
  | purge (group : Group) (name : String)
  | listNames (group : Group)
  /-- Makes an entry of which the store knows nothing but its name. -/
  | addEntry (group : Group) (name : String)

inductive StoreAnswer where
  | done
  | job (record : Option JobRecord)
  | credential (credential : Option Credential)
  | names (names : List String)

def FileStore.addEntry (store : FileStore) (group : Group) (name : String) : StoreAct Unit := do
  let entry ← store.entryRoute group name
  ofFiles (FileAct.makeDirectories entry)

def FileStore.serve (store : FileStore) : StoreCall -> StoreAct StoreAnswer
  | .saveJob name record => do
      store.saveJob name record
      return .done
  | .loadJob name => do return .job (← store.loadJob name)
  | .saveCredential name credential => do
      store.saveCredential name credential
      return .done
  | .loadCredential name => do return .credential (← store.loadCredential name)
  | .purge group name => do
      let _ ← store.purge group name
      return .done
  | .listNames group => do return .names (← store.listNames group)
  | .addEntry group name => do
      store.addEntry group name
      return .done

def MemoryStore.serve (memory : MemoryStore) : StoreCall -> StoreAnswer × MemoryStore
  | .saveJob name record => (.done, memory.saveJob name record)
  | .loadJob name => (.job (memory.loadJob name), memory)
  | .saveCredential name credential => (.done, memory.saveCredential name credential)
  | .loadCredential name => (.credential (memory.loadCredential name), memory)
  | .purge group name => (.done, memory.purge group name)
  | .listNames group => (.names (memory.listNames group), memory)
  | .addEntry group name => (.done, memory.addEntry group name)

def FileStore.answers (store : FileStore) :
    Tree -> List StoreCall -> List (Except StoreError StoreAnswer)
  | _, [] => []
  | tree, call :: calls =>
      (store.serve call tree).1 :: store.answers (store.serve call tree).2 calls

def MemoryStore.answers (memory : MemoryStore) : List StoreCall -> List StoreAnswer
  | [] => []
  | call :: calls => (memory.serve call).1 :: (memory.serve call).2.answers calls

/-!
## Calls without failures
-/

namespace StoreCall

def name? : StoreCall -> Option String
  | .saveJob name _ => some name
  | .loadJob name => some name
  | .saveCredential name _ => some name
  | .loadCredential name => some name
  | .purge _ name => some name
  | .listNames _ => none
  | .addEntry _ name => some name

/-- The longest route that a call has a file system go, temporary files apart. -/
def route (store : FileStore) : StoreCall -> Route
  | .saveJob name _ => ((store.groupRoute .staging).child name).child jobFileName
  | .loadJob name => ((store.groupRoute .staging).child name).child jobFileName
  | .saveCredential name _ => ((store.groupRoute .domains).child name).child credentialFileName
  | .loadCredential name => ((store.groupRoute .domains).child name).child credentialFileName
  | .purge group name => (store.groupRoute group).child name
  | .listNames group => store.groupRoute group
  | .addEntry group name => (store.groupRoute group).child name

structure Accepted (store : FileStore) (call : StoreCall) : Prop where
  name : forall name, call.name? = some name -> NameFault.Accepts name
  route : (call.route store).fault? = none

end StoreCall

/-- The base of a store is absent from a tree: nothing is found there, and it can be made and is
empty then. The last is not a matter of course, since a route may lead back up. -/
structure FileStore.Absent (store : FileStore) (tree : Tree) : Prop where
  sound : tree.Sound
  start : tree.get? store.base.start = some .directory
  fault : store.base.fault? = none
  missing : tree.find store.base = .error .notFound
  creatable : exists made, FileAct.makeDirectories store.base tree = (.ok (), made) ∧
    forall home name, made.reach store.base = .ok home -> made.get? (home ++ [name]) = none

namespace FileStore

variable {store : FileStore} {first made tree : Tree} {home : Path} {memory : MemoryStore}
variable {group : Group} {name : String}

/-!
## Once something is kept
-/

theorem run_addEntry (hname : NameFault.Accepts name) {later : Tree}
    (hmake : FileAct.makeDirectories (store.below [group.name, name]) tree = (.ok (), later)) :
    store.addEntry group name tree = (.ok (), later) := by
  refine (run_atEntry hname.faultless _).trans ?_
  unfold ofFiles
  rw [hmake]

/-- A tree that mirrors a memory store gives its answers, and mirrors it afterwards. -/
theorem Mirrors.serve (h : store.Mirrors made home tree memory) {call : StoreCall}
    (hcall : call.Accepted store) :
    exists later, store.serve call tree = (.ok (memory.serve call).1, later) ∧
      store.Mirrors made home later (memory.serve call).2 := by
  have hroute := hcall.route
  cases call with
  | saveJob name record =>
      have hname := hcall.name name rfl
      rw [StoreCall.route, child_groupRoute, child_file hname] at hroute
      rcases h.run_saveJob hname hroute record with ⟨later, hsave, hlater⟩
      exact ⟨later, FileAct.run_bind_ok hsave, hlater⟩
  | loadJob name =>
      have hname := hcall.name name rfl
      rw [StoreCall.route, child_groupRoute, child_file hname] at hroute
      refine ⟨tree, ?_, h⟩
      exact FileAct.run_bind_ok (h.run_loadJob hname hroute)
  | saveCredential name credential =>
      have hname := hcall.name name rfl
      rw [StoreCall.route, child_groupRoute, child_file hname] at hroute
      rcases h.run_saveCredential hname hroute credential with ⟨later, hsave, hlater⟩
      exact ⟨later, FileAct.run_bind_ok hsave, hlater⟩
  | loadCredential name =>
      have hname := hcall.name name rfl
      rw [StoreCall.route, child_groupRoute, child_file hname] at hroute
      refine ⟨tree, ?_, h⟩
      exact FileAct.run_bind_ok (h.run_loadCredential hname hroute)
  | purge group name =>
      have hname := hcall.name name rfl
      rw [StoreCall.route, child_groupRoute] at hroute
      rcases h.run_purge hname hroute with ⟨later, hpurge, hlater⟩
      exact ⟨later, FileAct.run_bind_ok hpurge, hlater⟩
  | listNames group =>
      rw [StoreCall.route, groupRoute_eq] at hroute
      refine ⟨tree, ?_, h⟩
      exact FileAct.run_bind_ok (h.run_listNames hroute)
  | addEntry group name =>
      have hname := hcall.name name rfl
      rw [StoreCall.route, child_groupRoute] at hroute
      rcases h.run_makeEntry hname hroute with ⟨later, hmake, hlater⟩
      exact ⟨later, FileAct.run_bind_ok (run_addEntry hname hmake), hlater⟩

/-!
## Before anything is kept
-/

structure Unfounded (store : FileStore) (first made : Tree) (home : Path) : Prop where
  sound : first.Sound
  start : first.get? store.base.start = some .directory
  missing : FileAct.Missing first store.base.start store.base.stem
  makes : FileAct.makeDirectoriesUp store.base.start store.base.stem.reverse first =
    (.ok (), made)
  founded : store.Founded made home

theorem Absent.unfounded (h : store.Absent first) :
    exists made home, store.Unfounded first made home := by
  rcases h.creatable with ⟨made, hmake, hempty⟩
  change FileAct.makeDirectoriesUp store.base.start store.base.steps.reverse first = _ at hmake
  have hgrows := FileAct.grows_makeDirectoriesUp h.sound h.start store.base.steps.reverse
  rw [hmake] at hgrows
  have hs := hgrows.sound h.sound
  have hstart := hgrows.get? h.start
  have hmissing := FileAct.missing_of_find h.fault h.missing
  rcases FileAct.arrives_of_makeDirectoriesUp h.sound h.start hmake with ⟨home, hfollow, hhome⟩
  rw [List.reverse_reverse] at hfollow
  have hbare name := hempty home name (Tree.reach_eq_ok_iff.mpr ⟨h.fault, hfollow⟩)
  rcases store.base.steps_eq with hsteps | hsteps
  · rw [hsteps] at hmake hfollow hmissing
    exact ⟨made, home, h.sound, h.start, hmissing, hmake, hs, ⟨hstart, hfollow, hhome⟩, hbare⟩
  · rw [hsteps] at hmake hfollow hmissing
    rw [List.reverse_append, List.reverse_singleton, List.singleton_append,
      FileAct.run_makeDirectoriesUp_idle rfl] at hmake
    exact ⟨made, home, h.sound, h.start, hmissing.of_empty_step h.sound h.start, hmake, hs,
      ⟨hstart, Tree.follow_of_empty_step hs hstart hfollow, hhome⟩, hbare⟩

namespace Unfounded

theorem find (h : store.Unfounded first made home) {names : List String} (hne : names ≠ [])
    (hfault : (store.below names).fault? = none) :
    first.find (store.below names) = .error .notFound := by
  rw [Tree.find, FileAct.reach_behind_missing h.sound h.start h.missing hne hfault]
  rfl

theorem makeDirectories (h : store.Unfounded first made home) (hname : NameFault.Accepts name)
    (hfault : (store.below [group.name, name]).fault? = none) :
    FileAct.makeDirectories (store.below [group.name, name]) first =
      FileAct.makeDirectories (store.below [group.name, name]) made :=
  FileAct.run_makeDirectories_missing h.sound h.start h.missing h.makes h.founded.leads
    h.founded.bare (List.cons_ne_nil _ _) (isName_of_mem_entry hname) hfault

theorem writeRecord (h : store.Unfounded first made home) (hname : NameFault.Accepts name)
    {file : String}
    (hfault : (store.below [group.name, name, file]).fault? = none)
    (temporary target : String) (value : Json.Value) :
    FileStore.writeRecord (store.below [group.name, name]) temporary target value first =
      FileStore.writeRecord (store.below [group.name, name]) temporary target value made := by
  unfold FileStore.writeRecord ofFiles saveSteps
  have hmake := h.makeDirectories hname (fault?_entry hname hfault)
  have hsteps : forall rest : List SaveStep,
      ((SaveStep.makeDirectories (store.below [group.name, name]) ::
        rest).forM SaveStep.run) first =
      ((SaveStep.makeDirectories (store.below [group.name, name]) ::
        rest).forM SaveStep.run) made := fun rest => FileAct.run_bind_congr hmake
  rw [hsteps]

/-- Before anything is kept, a call either finds nothing and changes nothing, or goes on as if
the store had been founded. -/
theorem serve (h : store.Unfounded first made home) {call : StoreCall}
    (hcall : call.Accepted store) :
    store.serve call first = (.ok (MemoryStore.empty.serve call).1, first) ∧
        (MemoryStore.empty.serve call).2 = .empty ∨
      store.serve call first = store.serve call made := by
  have hroute := hcall.route
  cases call with
  | saveJob name record =>
      have hname := hcall.name name rfl
      rw [StoreCall.route, child_groupRoute, child_file hname] at hroute
      refine .inr (FileAct.run_bind_congr (run_atEntry_congr hname.faultless ?_))
      exact h.writeRecord hname hroute _ _ _
  | loadJob name =>
      have hname := hcall.name name rfl
      rw [StoreCall.route, child_groupRoute, child_file hname] at hroute
      refine .inl ⟨FileAct.run_bind_ok ?_, rfl⟩
      refine (run_atEntry hname.faultless _).trans ?_
      rw [child_file hname]
      exact run_readRecord_missing (h.find (by simp) hroute)
  | saveCredential name credential =>
      have hname := hcall.name name rfl
      rw [StoreCall.route, child_groupRoute, child_file hname] at hroute
      refine .inr (FileAct.run_bind_congr (run_atEntry_congr hname.faultless ?_))
      exact h.writeRecord hname hroute _ _ _
  | loadCredential name =>
      have hname := hcall.name name rfl
      rw [StoreCall.route, child_groupRoute, child_file hname] at hroute
      refine .inl ⟨FileAct.run_bind_ok ?_, rfl⟩
      refine (run_atEntry hname.faultless _).trans ?_
      rw [child_file hname]
      exact run_readRecord_missing (h.find (by simp) hroute)
  | purge group name =>
      have hname := hcall.name name rfl
      rw [StoreCall.route, child_groupRoute] at hroute
      have hremove : unlessMissing (FileAct.removeDirectory (store.below [group.name, name]))
          first = (.ok none, first) := by
        unfold unlessMissing
        rw [FileAct.run_removeDirectory, h.find (by simp) hroute]
      have hpurge : store.purge group name first = (.ok false, first) :=
        (run_atEntry hname.faultless _).trans (FileAct.run_bind_ok hremove)
      exact .inl ⟨FileAct.run_bind_ok hpurge, MemoryStore.purge_empty group name⟩
  | listNames group =>
      rw [StoreCall.route, groupRoute_eq] at hroute
      have hlist : unlessMissing (FileAct.listDirectories (store.groupRoute group)) first =
          (.ok none, first) := by
        unfold unlessMissing
        rw [FileAct.run_listDirectories, groupRoute_eq, h.find (by simp) hroute]
      refine .inl ⟨FileAct.run_bind_ok ((FileAct.run_bind_ok hlist).trans ?_), rfl⟩
      rw [Option.getD_none, List.mergeSort_nil]
      rfl
  | addEntry group name =>
      have hname := hcall.name name rfl
      rw [StoreCall.route, child_groupRoute] at hroute
      refine .inr (FileAct.run_bind_congr (run_atEntry_congr hname.faultless ?_))
      unfold ofFiles
      rw [h.makeDirectories hname hroute]

end Unfounded

/-!
## Runs
-/

theorem Mirrors.answers (h : store.Mirrors made home tree memory) {calls : List StoreCall}
    (hcalls : forall call, call ∈ calls -> call.Accepted store) :
    store.answers tree calls = (memory.answers calls).map .ok := by
  induction calls generalizing tree memory with
  | nil => rfl
  | cons call calls ih =>
      rcases h.serve (hcalls call List.mem_cons_self) with ⟨later, hserve, hlater⟩
      have hrest := ih hlater fun other hother => hcalls other (List.mem_cons_of_mem call hother)
      rw [FileStore.answers, MemoryStore.answers, hserve, hrest]
      rfl

theorem Unfounded.answers (h : store.Unfounded first made home) {calls : List StoreCall}
    (hcalls : forall call, call ∈ calls -> call.Accepted store) :
    store.answers first calls = (MemoryStore.empty.answers calls).map .ok := by
  induction calls with
  | nil => rfl
  | cons call calls ih =>
      rcases h.serve (hcalls call List.mem_cons_self) with ⟨hserve, hempty⟩ | hserve
      · have hrest := ih fun other hother => hcalls other (List.mem_cons_of_mem call hother)
        rw [FileStore.answers, MemoryStore.answers, hserve, hempty, hrest]
        rfl
      · rw [FileStore.answers, hserve, ← FileStore.answers]
        exact h.founded.mirrors.answers hcalls

theorem absent_of_names (hs : tree.Sound) {steps names : List String} {here : Path}
    (h : tree.Leads store.base.start steps here) (hsteps : store.base.steps = steps ++ names)
    (hne : names ≠ []) (hnames : forall name, name ∈ names -> Tree.IsName name)
    (hfault : store.base.fault? = none) (hget : tree.get? (here ++ names) = none)
    (hfiles : forall path content, path <+: here ++ names ->
      tree.get? path ≠ some (.file content)) : store.Absent tree := by
  rcases store with ⟨start, _⟩
  cases hsteps
  rcases FileAct.run_makeDirectories_names hs h hne hnames hfault hfiles with
    ⟨made, hmake, hpaved⟩
  refine ⟨hs, h.at_start, hfault, Tree.find_of_missing hs h hfault hne hnames hget hfiles, made,
    hmake, ?_⟩
  intro home name hreach
  have hs' := hpaved.grows.sound hs
  have h' := h.mono fun path hpath => hpaved.grows.get? hpath
  have hfollow := (Tree.reach_names hs' h' hfault hne).trans
    (Tree.follow_of_get? hs' hnames hpaved.at_end)
  cases hreach.symm.trans hfollow
  rw [hpaved.get?, if_neg Tree.not_concat_prefix,
    hs.none_of_prefix hget (List.prefix_append _ _)]

theorem absent_in_empty {steps names : List String} (hstart : store.base.start = [])
    (hroot : Tree.empty.follow [] steps = .ok []) (hsteps : store.base.steps = steps ++ names)
    (hne : names ≠ []) (hnames : forall name, name ∈ names -> Tree.IsName name)
    (hfault : store.base.fault? = none) : store.Absent .empty := by
  have hempty (path : Path) : path ≠ [] -> Tree.empty.get? path = none := fun h => if_neg h
  have hleads : Tree.empty.Leads store.base.start steps [] := by
    rw [hstart]
    exact ⟨rfl, hroot, rfl⟩
  refine absent_of_names Tree.sound_empty hleads hsteps hne hnames hfault (hempty names hne) ?_
  intro path content _
  by_cases hpath : path = []
  · subst hpath
    nofun
  · rw [hempty path hpath]
    nofun

/-- The file store refines the memory store: begun on an absent base and on nothing, both give
the same answer to each of any sequence of accepted calls. -/
theorem answers_refine (h : store.Absent tree) {calls : List StoreCall}
    (hcalls : forall call, call ∈ calls -> call.Accepted store) :
    store.answers tree calls = (MemoryStore.empty.answers calls).map .ok := by
  rcases h.unfounded with ⟨made, home, hunfounded⟩
  exact hunfounded.answers hcalls

/-- A store that begins in an empty tree, as it is served its first calls. -/
theorem answers_from_nothing :
    (FileStore.mk (Route.ofText [] "/store")).answers .empty
      [.listNames .staging, .saveJob "a" { name := "a", errorRuns := 2 }, .loadJob "a",
        .addEntry .staging "B", .listNames .staging, .purge .staging "a", .loadJob "a"] =
      [.ok (.names []), .ok .done, .ok (.job (some { name := "a", errorRuns := 2 })), .ok .done,
        .ok (.names ["B", "a"]), .ok .done, .ok (.job none)] := by
  have hbase : forall name, name ∈ ["store"] -> Tree.IsName name :=
    List.forall_mem_singleton.mpr ⟨by decide, by decide, by decide⟩
  have habsent : (FileStore.mk (Route.ofText [] "/store")).Absent .empty :=
    absent_in_empty rfl (rfl : Tree.empty.follow [] [""] = _) rfl (List.cons_ne_nil _ _) hbase
      (by decide)
  have hA : NameFault.Accepts "a" := ⟨by decide, by decide⟩
  have hB : NameFault.Accepts "B" := ⟨by decide, by decide⟩
  refine (answers_refine habsent fun call hcall => ?_).trans rfl
  simp only [List.mem_cons, List.not_mem_nil, or_false] at hcall
  rcases hcall with rfl | rfl | rfl | rfl | rfl | rfl | rfl
  · exact ⟨nofun, by decide⟩
  · exact ⟨by rintro _ ⟨⟩; exact hA, by decide⟩
  · exact ⟨by rintro _ ⟨⟩; exact hA, by decide⟩
  · exact ⟨by rintro _ ⟨⟩; exact hB, by decide⟩
  · exact ⟨nofun, by decide⟩
  · exact ⟨by rintro _ ⟨⟩; exact hA, by decide⟩
  · exact ⟨by rintro _ ⟨⟩; exact hA, by decide⟩

end FileStore

end RenewalDrive
