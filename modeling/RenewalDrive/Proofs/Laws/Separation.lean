import RenewalDrive.Proofs.Laws.Atomicity
import RenewalDrive.Proofs.Laws.Refinement
import RenewalDrive.Proofs.Store.Effects

/-!
# Entries of a file store are kept apart

A name that a file store accepts is one component of a path, so all that is done under the name
is done at or below the directory of its entry, directories on the way apart. The entries of
other names lie beside it: whatever is asked of them is answered as before. Only two things may
stand between. Directories on the way to another entry may be made on the way to this one, which
shows what comes behind them if that does not simply lead down; and a base that is reached
through an entry is gone with it.
-/

namespace RenewalDrive

/-!
## Names that are refused
-/

/-- A name that is no component of a path. -/
def NameFault.Unfit (name : String) : Prop :=
  name = "" ∨ name = "." ∨ name = ".." ∨
    '/' ∈ name.toList ∨ '\\' ∈ name.toList ∨ '\x00' ∈ name.toList

theorem NameFault.any_forbidden_iff {name : String} :
    name.toList.any (forbidden.contains ·) = true ↔
      '/' ∈ name.toList ∨ '\\' ∈ name.toList ∨ '\x00' ∈ name.toList := by
  rw [List.any_eq_true]
  constructor
  · rintro ⟨c, hmem, hforbidden⟩
    rcases List.mem_cons.mp (List.contains_iff_mem.mp hforbidden) with rfl | hrest
    · exact .inl hmem
    · rcases List.mem_pair.mp hrest with rfl | rfl
      · exact .inr (.inl hmem)
      · exact .inr (.inr hmem)
  · rintro (hmem | hmem | hmem)
    · exact ⟨_, hmem, by decide⟩
    · exact ⟨_, hmem, by decide⟩
    · exact ⟨_, hmem, by decide⟩

theorem NameFault.ofName?_eq_none_iff {name : String} :
    NameFault.ofName? name = none ↔ ¬ NameFault.Unfit name := by
  unfold ofName? Unfit
  rw [← any_forbidden_iff]
  split_ifs with hempty hpath
  · simp [hempty]
  · exact iff_of_false nofun (not_not_intro (.inr hpath))
  · exact iff_of_true rfl (not_or.mpr ⟨hempty, hpath⟩)

/-- All that has changed is at or below a place, but for missing directories that were made on
the way there. -/
def Tree.Confined (tree later : Tree) (entry : Path) (way : Route) : Prop :=
  forall path, ¬ entry <+: path -> later.get? path = tree.get? path ∨
    tree.get? path = none ∧ later.get? path = some .directory ∧
      exists front, front <+: way.steps ∧ path = Route.place way.start front

def StoreCall.entry? : StoreCall -> Option (Group × String)
  | .saveJob name _ => some (.staging, name)
  | .loadJob name => some (.staging, name)
  | .saveCredential name _ => some (.domains, name)
  | .loadCredential name => some (.domains, name)
  | .purge group name => some (group, name)
  | .listNames _ => none
  | .addEntry group name => some (group, name)

namespace FileStore

variable {α β : Type} {store : FileStore} {tree later : Tree} {call : StoreCall}
  {group other : Group} {name name' : String} {fault : NameFault}

theorem run_map (act : StoreAct α) (f : α -> β) (tree : Tree) :
    (do return f (← act) : StoreAct β) tree = ((act tree).1.map f, (act tree).2) := by
  rcases hact : act tree with ⟨error | value, later⟩
  · exact FileAct.run_bind_error hact
  · exact FileAct.run_bind_ok hact

theorem run_atEntry_of_fault (h : NameFault.ofName? name = some fault)
    (act : Route -> StoreAct α) (tree : Tree) :
    (do act (← store.entryRoute group name) : StoreAct α) tree = (.error (.name fault), tree) := by
  unfold entryRoute
  rw [h]
  rfl

theorem serve_of_fault (hcall : call.entry? = some (group, name))
    (h : NameFault.ofName? name = some fault) (tree : Tree) :
    store.serve call tree = (.error (.name fault), tree) := by
  cases call with
  | listNames _ => cases hcall
  | _ =>
      cases hcall
      exact FileAct.run_bind_error (run_atEntry_of_fault h _ tree)

/-!
## What a call may do
-/

/-- The place of an entry: the directory `<base>/<group>/<name>`. -/
def place (store : FileStore) (group : Group) (name : String) : Path :=
  Route.place store.base.start store.base.steps ++ [group.name, name]

theorem place_eq (store : FileStore) (group : Group) (name : String) :
    store.place group name =
      Route.place store.base.start store.base.stem ++ [group.name, name] := by
  rw [place, Route.place_stem]

theorem snd_ofFiles (act : FileAct α) (tree : Tree) : (ofFiles act tree).2 = (act tree).2 := by
  unfold ofFiles
  rcases act tree with ⟨error | value, later⟩ <;> rfl

theorem ofFiles_ne_name (act : FileAct α) (tree : Tree) (fault : NameFault) :
    (ofFiles act tree).1 ≠ .error (.name fault) := by
  unfold ofFiles
  rcases act tree with ⟨error | value, later⟩ <;> nofun

def purgedAt : Except FileError Node -> Except StoreError Bool
  | .error .notFound => .ok false
  | .error error => .error (.file error)
  | .ok .directory => .ok true
  | .ok (.file _) => .error (.file .notDirectory)

theorem goesDown_of_mem_entry (hname : NameFault.ofName? name = none) :
    forall part, part ∈ [group.name, name] -> Route.GoesDown part := by
  intro part hpart
  rcases List.mem_pair.mp hpart with rfl | rfl
  · exact ⟨group.isName_name.moves, group.isName_name.down⟩
  · exact NameFault.moves_of_faultless hname

theorem place_below (hname : NameFault.ofName? name = none) :
    Route.place (store.below [group.name, name]).start (store.below [group.name, name]).steps =
      store.place group name := by
  rw [place_eq, Route.place_append, Route.place_names (goesDown_of_mem_entry hname)]

theorem run_purge_eq (hname : NameFault.ofName? name = none) (tree : Tree) :
    (store.purge group name tree).1 = purgedAt (tree.find (store.below [group.name, name])) ∧
      ((store.purge group name tree).2 = tree ∨
        (store.purge group name tree).2 = tree.without (store.place group name)) := by
  have hpurge : store.purge group name tree = _ :=
    (run_atEntry hname _).trans (run_map _ Option.isSome tree)
  rw [hpurge, unlessMissing, FileAct.run_removeDirectory]
  rcases hfind : tree.find (store.below [group.name, name]) with error | _ | content
  · cases error <;> exact ⟨rfl, .inl rfl⟩
  · rcases Tree.find_eq_ok_iff.mp hfind with ⟨path, hreach, -⟩
    have hplace : path = store.place group name :=
      (Tree.place_of_follow (Tree.reach_eq_ok_iff.mp hreach).2).trans (place_below hname)
    simp only [hreach, hplace]
    exact ⟨rfl, .inr trivial⟩
  · exact ⟨rfl, .inl rfl⟩

inductive Effect (store : FileStore) (group : Group) (name : String) (tree : Tree) :
    StoreCall -> Tree -> Prop
  | grown {call : StoreCall} {later : Tree} :
      tree.GrowsAlong store.base.start (store.base.stem ++ [group.name, name]) later ->
      Effect store group name tree call later
  | filed {call : StoreCall} {made later : Tree} :
      tree.GrowsAlong store.base.start (store.base.stem ++ [group.name, name]) made ->
      Inside made store.base.start (store.base.stem ++ [group.name, name])
        (store.place group name) [] ->
      made.Refiled (store.place group name) later ->
      later.Sound ->
      Effect store group name tree call later
  | emptied : Effect store group name tree (.purge group name)
      (tree.without (store.place group name))

theorem effect_of_same {call : StoreCall} : store.Effect group name tree call tree :=
  .grown (.refl tree)

section

variable (hname : NameFault.ofName? name = none) (hs : tree.Sound)
  (hstart : tree.get? store.base.start = some .directory)

include hname hs hstart

theorem effect_of_save (kind : RecordKind) (record : kind.Record) (call : StoreCall) :
    store.Effect kind.group name tree call (store.save kind name record tree).2 := by
  rw [save_eq hname, snd_ofFiles, saving]
  have hstart' := hstart
  rw [← start_home store kind name] at hstart'
  have hfiles : Place (store.home kind name) kind.temporary kind.file := place_home hname
  have hcases := refiled_of_saved hfiles hs hstart' (Json.bytesOf (kind.toJson record).pretty)
  rw [home_eq] at hcases ⊢
  rcases hcases with hgrows | ⟨made, home, hgrows, hinside, hrefiled, hsound⟩
  · exact .grown hgrows
  · have hplace : home = store.place kind.group name :=
      (Tree.place_of_follow hinside.leads.follows).trans (place_below hname)
    subst hplace
    exact .filed hgrows hinside hrefiled hsound

end

theorem recordAt_ne_name (r : Json.Reader α) (found : Except FileError Node)
    (fault : NameFault) : recordAt r found ≠ .error (.name fault) := by
  rcases found with error | _ | content
  · cases error <;> simp [recordAt]
  · simp [recordAt]
  · cases htext : String.fromUTF8? ⟨content.toArray⟩ with
    | none => simp [recordAt, htext]
    | some text => cases hread : Json.readText r text <;> simp [recordAt, htext, hread]

theorem purgedAt_ne_name (found : Except FileError Node) (fault : NameFault) :
    purgedAt found ≠ .error (.name fault) := by
  rcases found with error | _ | content
  · cases error <;> simp [purgedAt]
  · simp [purgedAt]
  · simp [purgedAt]

section

variable (hname : NameFault.ofName? name = none)

include hname

theorem save_ne_name (kind : RecordKind) (record : kind.Record) (fault : NameFault) :
    (store.save kind name record tree).1 ≠ .error (.name fault) := by
  rw [save_eq hname]
  exact ofFiles_ne_name _ tree fault

theorem load_ne_name (kind : RecordKind) (fault : NameFault) :
    (store.load kind name tree).1 ≠ .error (.name fault) := by
  rw [load_eq hname]
  exact recordAt_ne_name _ _ fault

theorem effect_of_load (kind : RecordKind) (call : StoreCall) :
    store.Effect group name tree call (store.load kind name tree).2 := by
  rw [load_eq hname]
  exact effect_of_same

end

theorem serve_of_map (act : StoreAct α) {f : α -> StoreAnswer}
    (hserve : store.serve call tree = (do return f (← act) : StoreAct StoreAnswer) tree)
    (hanswer : forall fault, (act tree).1 ≠ .error (.name fault))
    (heffect : store.Effect group name tree call (act tree).2) :
    (forall fault, (store.serve call tree).1 ≠ .error (.name fault)) ∧
      store.Effect group name tree call (store.serve call tree).2 := by
  rw [hserve, run_map]
  refine ⟨fun fault hfault => hanswer fault ?_, heffect⟩
  rcases hact : (act tree).1 with error | value
  · rw [hact] at hfault
    exact congrArg _ (Except.error.inj hfault)
  · rw [hact] at hfault
    cases hfault

/-- Under an accepted name, a call does what it may do, and does not fail because of the name. -/
theorem serve_effect (hcall : call.entry? = some (group, name))
    (hname : NameFault.ofName? name = none) (hs : tree.Sound)
    (hstart : tree.get? store.base.start = some .directory) :
    (forall fault, (store.serve call tree).1 ≠ .error (.name fault)) ∧
      store.Effect group name tree call (store.serve call tree).2 := by
  cases call with
  | listNames _ => cases hcall
  | saveJob _ record =>
      cases hcall
      exact serve_of_map (store.save .job name record) rfl (save_ne_name hname .job record)
        (effect_of_save hname hs hstart .job record _)
  | loadJob _ =>
      cases hcall
      exact serve_of_map (store.load .job name) rfl (load_ne_name hname .job)
        (effect_of_load hname .job _)
  | saveCredential _ credential =>
      cases hcall
      exact serve_of_map (store.save .credential name credential) rfl
        (save_ne_name hname .credential credential)
        (effect_of_save hname hs hstart .credential credential _)
  | loadCredential _ =>
      cases hcall
      exact serve_of_map (store.load .credential name) rfl (load_ne_name hname .credential)
        (effect_of_load hname .credential _)
  | purge _ _ =>
      cases hcall
      rcases run_purge_eq hname tree with ⟨hanswer, hlater⟩
      refine serve_of_map (store.purge group name) rfl ?_ ?_
      · intro fault
        rw [hanswer]
        exact purgedAt_ne_name _ fault
      · rcases hlater with hsame | hwithout
        · rw [hsame]
          exact effect_of_same
        · rw [hwithout]
          exact .emptied
  | addEntry _ _ =>
      cases hcall
      have hmake : store.addEntry group name tree =
          ofFiles (FileAct.makeDirectories (store.below [group.name, name])) tree :=
        run_atEntry hname _
      refine serve_of_map (store.addEntry group name) rfl ?_ ?_
      · intro fault
        rw [hmake]
        exact ofFiles_ne_name _ tree fault
      · rw [hmake, snd_ofFiles]
        have hgrows := FileAct.growsAlong_makeDirectoriesUp store.base.start
          (store.below [group.name, name]).steps.reverse tree
        rw [List.reverse_reverse] at hgrows
        exact .grown hgrows

/-- The way to the base of a store does not lead through an entry. -/
def Avoids (store : FileStore) (group : Group) (name : String) : Prop :=
  forall front, front <+: store.base.steps ->
    ¬ store.place group name <+: Route.place store.base.start front

theorem place_ne_nil : store.place group name ≠ [] :=
  List.append_ne_nil_of_right_ne_nil _ (List.cons_ne_nil _ _)

namespace Effect

section

variable (hs : tree.Sound) (hstart : tree.get? store.base.start = some .directory)

include hs hstart

/-- A call stays within its entry. -/
theorem confined (h : store.Effect group name tree call later) :
    tree.Confined later (store.place group name) (store.below [group.name, name]) := by
  intro path hoff
  cases h with
  | grown hgrows => exact hgrows.get?_on_way hs hstart path
  | filed hgrows _ hrefiled _ =>
      rcases hrefiled path with hsame | ⟨hbelow, -, -⟩
      · rw [hsame]
        exact hgrows.get?_on_way hs hstart path
      · exact absurd hbelow hoff
  | emptied =>
      left
      rw [Tree.get?_without place_ne_nil, if_neg hoff]

/-- A call changes nothing beside its entry. -/
theorem beside (h : store.Effect group name tree call later)
    (hname : NameFault.ofName? name = none)
    (hdown : tree.Descends store.base.start store.base.stem)
    (havoids : call = .purge group name -> store.Avoids group name) :
    tree.Beside later store.base.start store.base.stem [group.name, name] := by
  have hnames : forall part, part ∈ [group.name, name] -> Route.GoesDown part :=
    goesDown_of_mem_entry hname
  have hne : [group.name, name] ≠ [] := List.cons_ne_nil _ _
  cases h with
  | grown hgrows => exact hgrows.beside hs hstart hnames hdown
  | filed hgrows hinside hrefiled hsound =>
      rw [place_eq] at hinside hrefiled
      exact hrefiled.beside hs hstart hnames hgrows hinside hsound hne hdown
  | emptied =>
      rw [place_eq]
      refine Tree.without_beside hs hne fun front hfront => ?_
      rw [← place_eq]
      refine havoids rfl front (hfront.trans ?_)
      rcases store.base.steps_eq with hsteps | hsteps
      · simp [hsteps]
      · rw [hsteps]
        exact List.prefix_append _ _

end

end Effect

/-!
## What is seen of other entries
-/

/-- What is seen of an entry is the same in two trees: the records in it, whether there is
something to purge, whether it is listed, and all that stands at or below its place. -/
structure SameView (store : FileStore) (group : Group) (name : String) (tree later : Tree) :
    Prop where
  load : forall kind : RecordKind, kind.group = group ->
    (store.load kind name later).1 = (store.load kind name tree).1
  purge : (store.purge group name later).1 = (store.purge group name tree).1
  listed : (store.listNames group later).1.map (·.contains name) =
    (store.listNames group tree).1.map (·.contains name)
  content : forall path, store.place group name <+: path -> later.get? path = tree.get? path

theorem entry_unique {path : Path} (h : store.place group name <+: path)
    (hother : store.place other name' <+: path) : (other, name') = (group, name) := by
  have hlength : (store.place other name').length = (store.place group name).length := by
    simp [place]
  have heq := (List.prefix_of_prefix_length_le hother h hlength.le).eq_of_length hlength
  have hnames : [other.name, name'] = [group.name, name] := List.append_cancel_left heq
  simp only [List.cons.injEq, and_true] at hnames
  rw [Group.name_inj.mp hnames.1, hnames.2]

def listedAt (entered : Bool) : Except FileError Node -> Except StoreError Bool
  | .error .notFound => .ok false
  | .error error => .error (.file error)
  | .ok .directory => .ok entered
  | .ok (.file _) => .error (.file .notDirectory)

theorem contains_listNames_eq (hs : tree.Sound) :
    (store.listNames group tree).1.map (·.contains name) =
      listedAt (tree.get? (store.place group name) = some .directory)
        (tree.find (store.below [group.name])) := by
  have hlist : store.listNames group tree = _ :=
    run_map (unlessMissing (FileAct.listDirectories (store.groupRoute group)))
      (fun names => (names.getD []).mergeSort fun a b => a ≤ b) tree
  rw [hlist, unlessMissing, FileAct.run_listDirectories, groupRoute_eq]
  rcases hfind : tree.find (store.below [group.name]) with error | _ | content
  · cases error with
    | notFound => simp [listedAt, Except.map]
    | _ => rfl
  · rcases Tree.find_eq_ok_iff.mp hfind with ⟨path, hreach, -⟩
    have hplace : path = Route.place store.base.start (store.base.stem ++ [group.name]) :=
      Tree.place_of_follow (Tree.reach_eq_ok_iff.mp hreach).2
    have hentry : path ++ [name] = store.place group name := by
      rw [hplace, place_eq, Route.place_append, Route.place_names, List.append_assoc]
      · rfl
      · exact List.forall_mem_singleton.mpr ⟨group.isName_name.moves, group.isName_name.down⟩
    have hmem : name ∈ tree.childDirectories path ↔
        tree.get? (store.place group name) = some .directory := by
      rw [hs.mem_childDirectories, hentry]
    simp only [hreach, listedAt, Except.map, Option.getD_some, Except.ok.injEq]
    rw [Bool.eq_iff_iff, List.contains_iff_mem, List.mem_mergeSort, hmem, decide_eq_true_iff]
  · rfl

theorem content_beside
    (h : tree.Beside later store.base.start store.base.stem [group.name, name])
    (hne : (other, name') ≠ (group, name)) {path : Path}
    (hpath : store.place other name' <+: path) : later.get? path = tree.get? path := by
  refine h.kept path (fun hentry => ?_) (fun hentry => ?_)
  · rw [← place_eq] at hentry
    exact hne (entry_unique hentry hpath)
  · rw [← place_eq] at hentry
    exact hne (entry_unique (List.prefix_refl _) (hpath.trans hentry))

theorem listedAt_beside
    (h : tree.Beside later store.base.start store.base.stem [group.name, name]) (hs : tree.Sound)
    (hdown : tree.Descends store.base.start (store.below [other.name, name']).steps) :
    listedAt (tree.get? (store.place other name') = some .directory)
        (later.find (store.below [other.name])) =
      listedAt (tree.get? (store.place other name') = some .directory)
        (tree.find (store.below [other.name])) := by
  have hgoes : forall part, part ∈ [other.name] -> Route.GoesDown part :=
    List.forall_mem_singleton.mpr ⟨other.isName_name.moves, other.isName_name.down⟩
  have hway : tree.Descends store.base.start (store.below [other.name]).steps := by
    have hentry : (store.below [other.name, name']).steps =
        (store.below [other.name]).steps ++ [name'] := (List.append_assoc _ [other.name] _).symm
    rw [hentry] at hdown
    exact hdown.of_append
  have hshort : ¬ [group.name, name] <+: [other.name] :=
    fun hpre => absurd hpre.length_le (by simp)
  rcases h.finds _ (List.cons_ne_nil _ _) hgoes hshort hway with hsame | ⟨hnone, hmade⟩
  · rw [hsame]
  · have hfault := (Tree.reach_eq_ok_iff.mp (Tree.find_eq_ok_iff.mp hmade).choose_spec.1).1
    have hgroup := Tree.get?_place_of_missing hs hway (FileAct.missing_of_find hfault hnone)
    have hentry : tree.get? (store.place other name') = none := by
      refine hs.none_of_prefix hgroup ?_
      rw [Route.place_append, Route.place_names hgoes, place_eq, List.prefix_append_right_inj]
      exact List.prefix_append [other.name] [name']
    rw [hnone, hmade, hentry]
    rfl

section

variable (hbeside : tree.Beside later store.base.start store.base.stem [group.name, name])
  (hs : tree.Sound) (hname : NameFault.ofName? name' = none)
  (hne : (other, name') ≠ (group, name))

include hbeside hs hname hne

theorem find_beside (inner : List String)
    (hinner : forall part, part ∈ inner -> Route.GoesDown part)
    (hdown : tree.Descends store.base.start (store.below ([other.name, name'] ++ inner)).steps) :
    later.find (store.below ([other.name, name'] ++ inner)) =
      tree.find (store.below ([other.name, name'] ++ inner)) := by
  have hgoes : forall part, part ∈ [other.name, name'] ++ inner -> Route.GoesDown part :=
    List.forall_mem_append.mpr ⟨goesDown_of_mem_entry hname, hinner⟩
  have hplace : Route.place store.base.start (store.below ([other.name, name'] ++ inner)).steps =
      store.place other name' ++ inner := by
    rw [Route.place_append, Route.place_names hgoes, place_eq, List.append_assoc]
  refine Tree.find_eq_of_place hs hdown ?_ (hbeside.finds _ (by simp) hgoes ?_ hdown)
  · rw [hplace]
    exact content_beside hbeside hne (List.prefix_append _ _)
  · intro hpre
    have hpair :=
      (List.prefix_of_prefix_length_le hpre (List.prefix_append _ _) le_rfl).eq_of_length rfl
    simp only [List.cons.injEq, and_true] at hpair
    exact hne (by rw [Group.name_inj.mp hpair.1, hpair.2])

/-- What is alike beside an entry looks the same to those who ask for another entry. -/
theorem sameView_of_beside
    (hdown : tree.Descends store.base.start (store.below [other.name, name']).steps) :
    store.SameView other name' tree later where
  content := fun path hpath => content_beside hbeside hne hpath
  load := by
    intro kind hkind
    subst hkind
    have hplace : Place (store.home kind name') kind.temporary kind.file := place_home hname
    have hroute : (store.home kind name').child kind.file =
        store.below ([kind.group.name, name'] ++ [kind.file]) := by
      rw [hplace.child, home_eq]
      exact congrArg (Route.mk _) (List.append_assoc _ _ _)
    have hway := hdown.concat kind.isName_file
    rw [List.append_assoc] at hway
    rw [load_eq hname, load_eq hname, hroute, find_beside hbeside hs hname hne [kind.file]
      (List.forall_mem_singleton.mpr ⟨kind.isName_file.moves, kind.isName_file.down⟩) hway]
  purge := by
    have hfind := find_beside hbeside hs hname hne [] nofun
    rw [List.append_nil] at hfind
    rw [(run_purge_eq hname later).1, (run_purge_eq hname tree).1, hfind hdown]
  listed := by
    rw [contains_listNames_eq hbeside.sound, contains_listNames_eq hs,
      content_beside hbeside hne (List.prefix_refl _),
      listedAt_beside hbeside hs hdown]

end

/-!
## Entries are kept apart
-/

/-- A call under a name that is no component of a path is refused, and changes nothing. Any other
call stays within its entry, directories on the way to it apart, and is not refused. Two entries
have no path in common, and a call about one of them changes nothing about what is seen of the
other, if what is missing on the way to the other is behind nothing but steps that lead down, and
if the base is not reached through an entry that is purged. -/
theorem entries_kept_apart (store : FileStore) {tree : Tree} (hs : tree.Sound)
    (hstart : tree.get? store.base.start = some .directory) {call : StoreCall} {group : Group}
    {name : String} (hcall : call.entry? = some (group, name)) :
    ((exists fault, (store.serve call tree).1 = .error (.name fault)) ↔ NameFault.Unfit name) ∧
    ((exists fault, store.entryRoute group name = .error (.name fault)) ↔ NameFault.Unfit name) ∧
    (NameFault.Unfit name -> (store.serve call tree).2 = tree) ∧
    tree.Confined (store.serve call tree).2 (store.place group name)
      (store.below [group.name, name]) ∧
    forall (other : Group) (name' : String), ¬ NameFault.Unfit name -> ¬ NameFault.Unfit name' ->
      (other, name') ≠ (group, name) ->
      (forall path, store.place group name <+: path -> ¬ store.place other name' <+: path) ∧
      (tree.Descends store.base.start (store.below [other.name, name']).steps ->
        (call = .purge group name -> store.Avoids group name) ->
        store.SameView other name' tree (store.serve call tree).2) := by
  cases hname : NameFault.ofName? name with
  | some fault =>
      have hunfit : NameFault.Unfit name := by
        by_contra hfit
        rw [NameFault.ofName?_eq_none_iff.mpr hfit] at hname
        cases hname
      have hserve : store.serve call tree = (.error (.name fault), tree) :=
        serve_of_fault hcall hname tree
      have hroute : store.entryRoute group name = .error (.name fault) := by
        rw [entryRoute, hname]
      refine ⟨iff_of_true ⟨fault, congrArg Prod.fst hserve⟩ hunfit,
        iff_of_true ⟨fault, hroute⟩ hunfit, fun _ => congrArg Prod.snd hserve, ?_,
        fun _ _ hfit => absurd hunfit hfit⟩
      rw [hserve]
      exact fun path _ => .inl rfl
  | none =>
      have hfit := NameFault.ofName?_eq_none_iff.mp hname
      rcases serve_effect hcall hname hs hstart with ⟨hanswer, heffect⟩
      have hroute : forall fault, store.entryRoute group name ≠ .error (.name fault) := by
        rw [entryRoute_eq hname]
        nofun
      refine ⟨iff_of_false (fun ⟨fault, h⟩ => hanswer fault h) hfit,
        iff_of_false (fun ⟨fault, h⟩ => hroute fault h) hfit, fun h => absurd h hfit,
        heffect.confined hs hstart, fun other name' _ hother hne => ⟨fun path hpath hpath' => ?_,
          fun hdown havoids => ?_⟩⟩
      · exact hne (entry_unique hpath hpath')
      · have hbase : tree.Descends store.base.start store.base.stem := hdown.of_append
        exact sameView_of_beside (heffect.beside hs hstart hname hbase havoids) hs
          (NameFault.ofName?_eq_none_iff.mpr hother) hne hdown

def entryOfA : Tree :=
  ((Tree.empty.put ["store"] .directory).put ["store", "staging"] .directory).put
    ["store", "staging", "a"] .directory

theorem sound_entryOfA : entryOfA.Sound := by
  have hbase : (Tree.empty.put ["store"] .directory).Sound :=
    Tree.sound_empty.put nofun rfl (.inl rfl)
  have hgroup : ((Tree.empty.put ["store"] .directory).put ["store", "staging"] .directory).Sound :=
    hbase.put nofun rfl (.inl rfl)
  exact hgroup.put nofun rfl (.inl rfl)

/-- Saving a record of "b" is not seen by those who ask for "a", which stays listed. -/
theorem a_kept_apart_from_b :
    (FileStore.mk (Route.ofText [] "/store")).SameView .staging "a" entryOfA
        ((FileStore.mk (Route.ofText [] "/store")).serve (.saveJob "b" { name := "b" })
          entryOfA).2 ∧
      ((FileStore.mk (Route.ofText [] "/store")).listNames .staging
        ((FileStore.mk (Route.ofText [] "/store")).serve (.saveJob "b" { name := "b" })
          entryOfA).2).1.map (·.contains "a") = .ok true := by
  let store := FileStore.mk (Route.ofText [] "/store")
  have ha : ¬ NameFault.Unfit "a" := NameFault.ofName?_eq_none_iff.mp (by decide)
  have hb : ¬ NameFault.Unfit "b" := NameFault.ofName?_eq_none_iff.mp (by decide)
  have hnames : forall step, step ∈ (store.below [Group.staging.name, "a"]).steps ->
      Route.isIdle step = true ∨ Tree.IsName step := by
    change forall step, step ∈ ["", "store", "staging", "a"] -> _
    simp only [List.forall_mem_cons]
    exact ⟨.inl rfl, .inr ⟨by decide, by decide, by decide⟩, .inr ⟨by decide, by decide, by decide⟩,
      .inr ⟨by decide, by decide, by decide⟩, nofun⟩
  have hview : store.SameView .staging "a" entryOfA
      (store.serve (.saveJob "b" { name := "b" }) entryOfA).2 :=
    ((entries_kept_apart store sound_entryOfA rfl rfl).2.2.2.2 .staging "a" hb ha
      (by decide)).2 (descends_of_names hnames) nofun
  have hlisted : (store.listNames .staging entryOfA).1.map (·.contains "a") = .ok true := by
    have hfind : entryOfA.find (store.below [Group.staging.name]) = .ok .directory := by decide
    have hget : entryOfA.get? (store.place .staging "a") = some .directory := by decide
    rw [contains_listNames_eq sound_entryOfA, hfind, hget]
    rfl
  exact ⟨hview, hview.listed.trans hlisted⟩

/-- Another entry is not always spared. A name that is too long is not found as long as the
directory of its group is missing, and saving under another name makes that directory. Saving
also makes the missing directory behind which the way to a base leads back up. And with a base
that is reached through an entry, purging the entry cuts off all others. -/
theorem other_entries_not_spared :
    (¬ NameFault.Unfit (longName 256) ∧ ¬ NameFault.Unfit "b" ∧
      ((FileStore.mk (Route.ofText [] "/store")).load .job (longName 256) .empty).1 = .ok none ∧
      ((FileStore.mk (Route.ofText [] "/store")).load .job (longName 256)
        ((FileStore.mk (Route.ofText [] "/store")).save .job "b" { name := "b" } .empty).2).1 =
        .error (.file .nameTooLong)) ∧
    (((FileStore.mk (Route.ofText [] "/new/../store")).purge .staging "a" entryOfA).1 = .ok false ∧
      ((FileStore.mk (Route.ofText [] "/new/../store")).purge .staging "a"
        ((FileStore.mk (Route.ofText [] "/new/../store")).save .job "b" { name := "b" }
          entryOfA).2).1 = .ok true) ∧
    ((FileStore.mk (Route.ofText [] "/store/staging/a/../..")).purge .staging "b"
        (entryOfA.put ["store", "staging", "b"] .directory)).1 = .ok true ∧
      ((FileStore.mk (Route.ofText [] "/store/staging/a/../..")).purge .staging "b"
        ((FileStore.mk (Route.ofText [] "/store/staging/a/../..")).purge .staging "a"
          (entryOfA.put ["store", "staging", "b"] .directory)).2).1 = .ok false := by
  have hname : NameFault.ofName? (longName 256) = none := ofName?_longName (by omega)
  have ha : NameFault.ofName? "a" = none := by decide
  have hb : NameFault.ofName? "b" = none := by decide
  refine ⟨⟨NameFault.ofName?_eq_none_iff.mp hname, NameFault.ofName?_eq_none_iff.mp hb,
    load_from_empty hname (fault?_longName (by omega)), ?_⟩, ⟨?_, ?_⟩, ?_, ?_⟩
  · have hlong : Tree.nameLimit < (longName 256).utf8ByteSize := by
      rw [utf8ByteSize_longName]
      exact Nat.lt_succ_self 255
    exact load_long hname (fault?_longName (by omega)) hlong (by decide +kernel)
      (by decide +kernel)
  · have hfind : entryOfA.find (below ⟨Route.ofText [] "/new/../store"⟩ ["staging", "a"]) =
        .error .notFound := by decide
    rw [(run_purge_eq ha _).1]
    exact congrArg purgedAt hfind
  · have hfind : Tree.find ((FileStore.mk (Route.ofText [] "/new/../store")).save .job "b"
        { name := "b" } entryOfA).2
        (below ⟨Route.ofText [] "/new/../store"⟩ ["staging", "a"]) = .ok .directory := by
      decide +kernel
    rw [(run_purge_eq ha _).1]
    exact congrArg purgedAt hfind
  · have hfind : Tree.find (entryOfA.put ["store", "staging", "b"] .directory)
        (below ⟨Route.ofText [] "/store/staging/a/../.."⟩ ["staging", "b"]) =
          .ok .directory := by
      decide
    rw [(run_purge_eq hb _).1]
    exact congrArg purgedAt hfind
  · have hfind : Tree.find ((FileStore.mk (Route.ofText [] "/store/staging/a/../..")).purge
        .staging "a" (entryOfA.put ["store", "staging", "b"] .directory)).2
        (below ⟨Route.ofText [] "/store/staging/a/../.."⟩ ["staging", "b"]) =
          .error .notFound := by
      decide +kernel
    rw [(run_purge_eq hb _).1]
    exact congrArg purgedAt hfind

end FileStore

end RenewalDrive
