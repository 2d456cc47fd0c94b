import RenewalDrive.Proofs.Store.Mirror
import RenewalDrive.Proofs.Store.Saving

/-!
# Changes of a mirrored store

Each change of a memory store is a change of the tree that mirrors it: a purge takes an entry
with all below it, a new entry is a new directory, and a record is put in its entry under its
own name after it was written under another.
-/

namespace RenewalDrive

namespace FileStore

variable {store : FileStore} {made tree later : Tree} {home : Path}
variable {memory memory' : MemoryStore} {kind : RecordKind} {group : Group} {name : String}

namespace Mirrors

theorem none_of_not_mem (h : store.Mirrors made home tree memory)
    (hmem : name ∉ memory.entries group) {path : Path}
    (hpre : home ++ [group.name, name] <+: path) : tree.get? path = none := by
  refine h.sound.none_of_prefix ?_ hpre
  rw [h.entries, if_neg hmem]

theorem entry_prefix_iff {other : Group} {name' : String} {rest : List String} :
    home ++ [group.name, name] <+: home ++ other.name :: name' :: rest ↔
      group = other ∧ name = name' := by
  rw [List.prefix_append_right_inj]
  simp only [List.cons_prefix_cons, List.nil_prefix, and_true, Group.name_inj]

theorem purged (h : store.Mirrors made home tree memory) (hs : later.Sound)
    (hget : forall path, later.get? path =
      if home ++ [group.name, name] <+: path then none else tree.get? path) :
    store.Mirrors made home later (memory.purge group name) where
  founded := h.founded
  sound := hs
  kept := by
    intro path hpath
    rw [hget, if_neg]
    · exact h.kept path hpath
    · intro hpre
      rw [h.founded.none_below (List.cons_ne_nil _ _) hpre] at hpath
      cases hpath
  groups := by
    intro other content
    rw [hget]
    split_ifs
    · simp
    · exact h.groups other content
  entries := by
    intro other name'
    rw [hget, h.entries]
    simp only [entry_prefix_iff]
    by_cases hgroup : other = group
    · by_cases heq : name' = name
      · simp [MemoryStore.purge, hgroup, heq]
      · simp [MemoryStore.purge, hgroup, heq, Ne.symm heq]
    · simp [MemoryStore.purge, hgroup, Ne.symm hgroup]
  files := by
    intro kind name'
    rw [hget, h.files]
    simp only [entry_prefix_iff]
    by_cases heq : name' = name
    · cases kind <;> simp [MemoryStore.file?, MemoryStore.purge, RecordKind.group, heq] <;>
        split_ifs <;> rfl
    · cases kind <;> simp [MemoryStore.file?, MemoryStore.purge, heq, Ne.symm heq]
  temporaries := by
    intro kind name'
    rw [hget, h.temporaries]
    split_ifs <;> rfl
  ascending := by
    intro other
    show Ascending (if other = group then _ else _)
    split_ifs
    · exact (h.ascending other).filter _
    · exact h.ascending other

/-- A purge takes an entry with all below it out of the tree, and nothing else. -/
theorem run_purge_entry (h : store.Mirrors made home tree memory) (hname : NameFault.Accepts name)
    (hfault : (store.below [group.name, name]).fault? = none) :
    exists later, store.purge group name tree = (.ok (name ∈ memory.entries group), later) ∧
      later.Sound ∧ forall path, later.get? path =
        if home ++ [group.name, name] <+: path then none else tree.get? path := by
  have hfind := h.find_entry hname hfault
  by_cases hmem : name ∈ memory.entries group
  · have hremove : unlessMissing (FileAct.removeDirectory (store.below [group.name, name])) tree =
        (.ok (some ()), tree.without (home ++ [group.name, name])) := by
      unfold unlessMissing
      rw [FileAct.run_removeDirectory, hfind, if_pos hmem, h.reach_entry hname hfault hmem]
    have hroot : home ++ [group.name, name] ≠ [] := by simp
    refine ⟨tree.without (home ++ [group.name, name]), ?_, h.sound.without hroot,
      fun path => Tree.get?_without hroot⟩
    refine (run_atEntry hname.faultless _).trans ((FileAct.run_bind_ok hremove).trans ?_)
    simp only [hmem, decide_true]
    rfl
  · have hremove : unlessMissing (FileAct.removeDirectory (store.below [group.name, name])) tree =
        (.ok none, tree) := by
      unfold unlessMissing
      rw [FileAct.run_removeDirectory, hfind, if_neg hmem]
    refine ⟨tree, ?_, h.sound, fun path => ?_⟩
    · refine (run_atEntry hname.faultless _).trans ((FileAct.run_bind_ok hremove).trans ?_)
      simp only [hmem, decide_false]
      rfl
    · split_ifs with hpre
      · exact h.none_of_not_mem hmem hpre
      · rfl

theorem run_purge (h : store.Mirrors made home tree memory) (hname : NameFault.Accepts name)
    (hfault : (store.below [group.name, name]).fault? = none) :
    exists later, store.purge group name tree = (.ok (name ∈ memory.entries group), later) ∧
      store.Mirrors made home later (memory.purge group name) := by
  rcases h.run_purge_entry hname hfault with ⟨later, hpurge, hs, hget⟩
  exact ⟨later, hpurge, h.purged hs hget⟩

theorem no_entry {first second file : String} {other name' : String} :
    ¬ home ++ [first, second, file] <+: home ++ [other, name'] := by
  simp [List.prefix_append_right_inj, List.cons_prefix_cons]

theorem entered (h : store.Mirrors made home tree memory)
    (hpaved : tree.Paved later (home ++ [group.name, name])) :
    store.Mirrors made home later (memory.addEntry group name) where
  founded := h.founded
  sound := hpaved.grows.sound h.sound
  kept := fun path hpath => hpaved.grows.get? (h.kept path hpath)
  groups := by
    intro other content
    rw [hpaved.get?]
    split_ifs
    · simp
    · exact h.groups other content
  entries := by
    intro other name'
    rw [hpaved.get?, h.entries]
    simp only [List.prefix_append_right_inj, List.cons_prefix_cons, List.prefix_nil,
      Group.name_inj]
    by_cases hgroup : other = group
    · by_cases heq : name' = name
      · simp [MemoryStore.addEntry, hgroup, heq, mem_insertName]
      · simp [MemoryStore.addEntry, hgroup, heq, mem_insertName]
    · simp [MemoryStore.addEntry, hgroup]
  files := by
    intro kind name'
    rw [hpaved.get?, if_neg no_entry]
    exact h.files kind name'
  temporaries := by
    intro kind name'
    rw [hpaved.get?, if_neg no_entry]
    exact h.temporaries kind name'
  ascending := by
    intro other
    show Ascending (if other = group then _ else _)
    split_ifs
    · exact (h.ascending other).insertName
    · exact h.ascending other

theorem run_paveEntry (h : store.Mirrors made home tree memory) (hname : NameFault.Accepts name)
    (hfault : (store.below [group.name, name]).fault? = none) :
    exists later,
      FileAct.makeDirectories (store.below [group.name, name]) tree = (.ok (), later) ∧
      tree.Paved later (home ++ [group.name, name]) :=
  FileAct.run_makeDirectories_names h.sound h.leads (List.cons_ne_nil _ _)
    (isName_of_mem_entry hname) hfault fun _ _ hpre => h.no_file hpre

theorem run_makeEntry (h : store.Mirrors made home tree memory) (hname : NameFault.Accepts name)
    (hfault : (store.below [group.name, name]).fault? = none) :
    exists later,
      FileAct.makeDirectories (store.below [group.name, name]) tree = (.ok (), later) ∧
      store.Mirrors made home later (memory.addEntry group name) := by
  rcases h.run_paveEntry hname hfault with ⟨later, hmake, hpaved⟩
  exact ⟨later, hmake, h.entered hpaved⟩

theorem written (h : store.Mirrors made home tree memory) (hs : later.Sound)
    {content : List UInt8}
    (hget : forall path, later.get? path =
      if path = home ++ [kind.group.name, name] ++ [kind.file] then some (.file content)
      else if path = home ++ [kind.group.name, name] ++ [kind.temporary] then none
      else tree.get? path)
    (hentries : memory'.entries = memory.entries)
    (hfiles : forall kind' name', memory'.file? kind' name' =
      if kind' = kind ∧ name' = name then some (.file content) else memory.file? kind' name') :
    store.Mirrors made home later memory' := by
  have hpath : forall {kind' : RecordKind} {name' file last : String},
      home ++ [kind'.group.name, name', file] = home ++ [kind.group.name, name] ++ [last] ↔
        kind'.group = kind.group ∧ name' = name ∧ file = last := by
    intro kind' name' file last
    rw [List.append_assoc, List.append_cancel_left_eq, ← Group.name_inj]
    simp
  have hshort : forall {names : List String} {last : String}, names.length < 3 ->
      home ++ names ≠ home ++ [kind.group.name, name] ++ [last] := by
    intro names last hlt heq
    have hlen := congrArg List.length heq
    simp only [List.length_append, List.length_cons, List.length_nil] at hlen
    omega
  have hsame : forall {kind' : RecordKind}, kind'.group = kind.group ↔ kind' = kind := by
    intro kind'
    cases kind' <;> cases kind <;> decide
  have hbelow : forall {last : String} {path : Path}, made.get? path = some .directory ->
      path ≠ home ++ [kind.group.name, name] ++ [last] := by
    rintro last _ hdirectory rfl
    rw [List.append_assoc, h.founded.none_below (by simp) (List.prefix_refl _)] at hdirectory
    cases hdirectory
  refine ⟨h.founded, hs, ?_, ?_, ?_, ?_, ?_, ?_⟩
  · intro path hdirectory
    rw [hget, if_neg (hbelow hdirectory), if_neg (hbelow hdirectory)]
    exact h.kept path hdirectory
  · intro group content
    rw [hget, if_neg (hshort (by simp)), if_neg (hshort (by simp))]
    exact h.groups group content
  · intro group name'
    rw [hget, if_neg (hshort (by simp)), if_neg (hshort (by simp)), hentries]
    exact h.entries group name'
  · intro kind' name'
    rw [hget, hfiles, h.files]
    simp only [hpath, hsame]
    by_cases hkind : kind' = kind
    · by_cases heq : name' = name
      · simp [hkind, heq]
      · simp [heq]
    · simp [hkind]
  · intro kind' name'
    rw [hget, h.temporaries]
    simp only [hpath]
    simp [Ne.symm (kind.file_ne_temporary kind')]
  · intro group
    rw [hentries]
    exact h.ascending group

/-- Writing a record makes the directory of its entry and puts its file there, and that is all
that is seen of it. -/
theorem run_writeRecord_entry (h : store.Mirrors made home tree memory) (kind : RecordKind)
    (hname : NameFault.Accepts name)
    (hfault : (store.below [kind.group.name, name, kind.file]).fault? = none)
    (value : Json.Value) :
    exists mid later, tree.Paved mid (home ++ [kind.group.name, name]) ∧
      writeRecord (store.below [kind.group.name, name]) kind.temporary kind.file value tree =
        (.ok (), later) ∧
      later.Sound ∧ forall path, later.get? path =
        if path = home ++ [kind.group.name, name] ++ [kind.file] then
          some (.file (Json.bytesOf value.pretty))
        else if path = home ++ [kind.group.name, name] ++ [kind.temporary] then none
        else mid.get? path := by
  rcases h.run_paveEntry hname (fault?_entry hname hfault) with ⟨mid, hmake, hpaved⟩
  have hmid := h.entered hpaved
  have hinside : Inside mid store.base.start store.base.stem home [kind.group.name, name] := by
    refine ⟨hmid.sound, hmid.leads, isName_of_mem_entry hname, ?_⟩
    rw [hmid.entries]
    simp [MemoryStore.addEntry, mem_insertName]
  have hwritable : Writable mid (home ++ [kind.group.name, name]) kind.temporary kind.file := by
    refine ⟨Ne.symm (kind.file_ne_temporary kind), kind.isName_temporary, kind.isName_file, ?_, ?_⟩
    · rw [List.append_assoc]
      show mid.get? (home ++ [kind.group.name, name, kind.temporary]) ≠ _
      rw [hmid.temporaries]
      simp
    · rw [List.append_assoc]
      show mid.get? (home ++ [kind.group.name, name, kind.file]) ≠ _
      rw [hmid.files]
      cases kind <;> simp [MemoryStore.file?, MemoryStore.addEntry]
  rcases run_writing hinside hwritable hfault (fault?_temporary hfault) with
    ⟨later, hwrite, hlater, hget⟩
  refine ⟨mid, later, hpaved, ?_, hlater, hget⟩
  have hsteps : ((saveSteps (store.below [kind.group.name, name]) kind.temporary kind.file
      (Json.bytesOf value.pretty)).forM SaveStep.run) tree = (.ok (), later) := by
    unfold saveSteps
    rw [child_file hname, child_file hname]
    exact (FileAct.run_bind_ok hmake).trans hwrite
  unfold writeRecord ofFiles
  rw [hsteps]

theorem run_writeRecord (h : store.Mirrors made home tree memory) (kind : RecordKind)
    (hname : NameFault.Accepts name)
    (hfault : (store.below [kind.group.name, name, kind.file]).fault? = none)
    {value : Json.Value} (hentries : memory'.entries = (memory.addEntry kind.group name).entries)
    (hfiles : forall kind' name', memory'.file? kind' name' =
      if kind' = kind ∧ name' = name then some (.file (Json.bytesOf value.pretty))
      else memory.file? kind' name') :
    exists later,
      writeRecord (store.below [kind.group.name, name]) kind.temporary kind.file value tree =
        (.ok (), later) ∧
      store.Mirrors made home later memory' := by
  rcases h.run_writeRecord_entry kind hname hfault value with
    ⟨mid, later, hpaved, hwrite, hlater, hget⟩
  refine ⟨later, hwrite, (h.entered hpaved).written hlater hget hentries ?_⟩
  intro kind' name'
  rw [hfiles]
  cases kind' <;> rfl

theorem run_saveJob (h : store.Mirrors made home tree memory) (hname : NameFault.Accepts name)
    (hfault : (store.below [Group.staging.name, name, jobFileName]).fault? = none)
    (record : JobRecord) :
    exists later, store.saveJob name record tree = (.ok (), later) ∧
      store.Mirrors made home later (memory.saveJob name record) := by
  have hfiles : forall kind name', (memory.saveJob name record).file? kind name' =
      if kind = .job ∧ name' = name then some (.file (Json.bytesOf record.toJson.pretty))
      else memory.file? kind name' := by
    intro kind name'
    cases kind with
    | credential => rfl
    | job => by_cases heq : name' = name <;> simp [MemoryStore.file?, MemoryStore.saveJob, heq]
  have hentries : (memory.saveJob name record).entries =
      (memory.addEntry .staging name).entries := rfl
  rcases h.run_writeRecord .job hname hfault hentries hfiles with
    ⟨later, hwrite, hlater⟩
  exact ⟨later, (run_atEntry hname.faultless _).trans hwrite, hlater⟩

theorem run_saveCredential (h : store.Mirrors made home tree memory)
    (hname : NameFault.Accepts name)
    (hfault : (store.below [Group.domains.name, name, credentialFileName]).fault? = none)
    (credential : Credential) :
    exists later, store.saveCredential name credential tree = (.ok (), later) ∧
      store.Mirrors made home later (memory.saveCredential name credential) := by
  have hfiles : forall kind name', (memory.saveCredential name credential).file? kind name' =
      if kind = .credential ∧ name' = name then
        some (.file (Json.bytesOf credential.toJson.pretty))
      else memory.file? kind name' := by
    intro kind name'
    cases kind with
    | job => rfl
    | credential =>
        by_cases heq : name' = name <;> simp [MemoryStore.file?, MemoryStore.saveCredential, heq]
  have hentries : (memory.saveCredential name credential).entries =
      (memory.addEntry .domains name).entries := rfl
  rcases h.run_writeRecord .credential hname hfault hentries hfiles with
    ⟨later, hwrite, hlater⟩
  exact ⟨later, (run_atEntry hname.faultless _).trans hwrite, hlater⟩

end Mirrors

end FileStore

end RenewalDrive
