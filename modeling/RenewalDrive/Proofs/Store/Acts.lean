import RenewalDrive.Proofs.Store.Walk

/-!
# What the operations on a tree do

Each operation is told by what its route leads to: it fails and leaves the tree alone, or it
makes its one change.
-/

namespace RenewalDrive

namespace FileAct

variable {α β : Type} {tree mid : Tree} {a : α} {route : Route}

/-!
## Sequences
-/

section

variable {σ ε : Type} {state later : σ} {error : ε} {act : ExceptT ε (StateM σ) α}
variable {f : α -> ExceptT ε (StateM σ) β}

theorem run_bind_ok (h : act state = (.ok a, later)) : (act >>= f) state = f a later := by
  show (ExceptT.bindCont f (act state).1) (act state).2 = _
  rw [h]
  rfl

theorem run_bind_error (h : act state = (.error error, later)) :
    (act >>= f) state = (.error error, later) := by
  show (ExceptT.bindCont f (act state).1) (act state).2 = _
  rw [h]
  rfl

theorem run_bind_congr (h : act state = act later) : (act >>= f) state = (act >>= f) later := by
  show (ExceptT.bindCont f (act state).1) (act state).2 =
    (ExceptT.bindCont f (act later).1) (act later).2
  rw [h]

end

theorem run_tryCatch (act : FileAct α) (rescue : FileError -> FileAct α) (tree : Tree) :
    (tryCatch act rescue) tree =
      match act tree with
      | (.ok value, mid) => (.ok value, mid)
      | (.error error, mid) => rescue error mid := by
  simp only [tryCatch, tryCatchThe, MonadExceptOf.tryCatch, ExceptT.tryCatch, ExceptT.mk, bind,
    StateT.bind]
  rcases act tree with ⟨error | value, mid⟩ <;> rfl

theorem run_reach (route : Route) (tree : Tree) : reach route tree = (tree.reach route, tree) := by
  refine (run_bind_ok rfl).trans ?_
  cases tree.reach route <;> rfl

theorem run_find (route : Route) (tree : Tree) : find route tree = (tree.find route, tree) := by
  refine (run_bind_ok rfl).trans ?_
  cases tree.find route <;> rfl

/-!
## Single operations
-/

theorem run_makeDirectory (route : Route) (tree : Tree) :
    makeDirectory route tree =
      match tree.reach route with
      | .error error => (.error error, tree)
      | .ok path =>
          match tree.get? path with
          | some _ => (.error .alreadyExists, tree)
          | none => (.ok (), tree.put path .directory) := by
  cases hreach : tree.reach route with
  | error error => exact run_bind_error (by rw [run_reach, hreach])
  | ok path =>
      refine (run_bind_ok (by rw [run_reach, hreach])).trans ?_
      refine (run_bind_ok rfl).trans ?_
      dsimp only
      cases tree.get? path <;> rfl

theorem run_createFile (route : Route) (tree : Tree) :
    createFile route tree =
      match tree.reach route with
      | .error error => (.error error, tree)
      | .ok path =>
          match tree.get? path with
          | some .directory => (.error .isDirectory, tree)
          | _ => (.ok (), tree.put path (.file [])) := by
  cases hreach : tree.reach route with
  | error error => exact run_bind_error (by rw [run_reach, hreach])
  | ok path =>
      refine (run_bind_ok (by rw [run_reach, hreach])).trans ?_
      refine (run_bind_ok rfl).trans ?_
      dsimp only
      rcases tree.get? path with _ | _ | _ <;> rfl

theorem run_readBytes (route : Route) (tree : Tree) :
    readBytes route tree =
      match tree.find route with
      | .error error => (.error error, tree)
      | .ok .directory => (.error .isDirectory, tree)
      | .ok (.file content) => (.ok content, tree) := by
  cases hfind : tree.find route with
  | error error => exact run_bind_error (by rw [run_find, hfind])
  | ok node =>
      refine (run_bind_ok (by rw [run_find, hfind])).trans ?_
      cases node <;> rfl

theorem run_readText (route : Route) (tree : Tree) :
    readText route tree =
      match readBytes route tree with
      | (.error error, tree) => (.error error, tree)
      | (.ok content, tree) =>
          match String.fromUTF8? ⟨content.toArray⟩ with
          | some text => (.ok text, tree)
          | none => (.error .notText, tree) := by
  rcases hread : readBytes route tree with ⟨error | content, mid⟩
  · exact run_bind_error hread
  · refine (run_bind_ok hread).trans ?_
    dsimp only
    cases String.fromUTF8? ⟨content.toArray⟩ <;> rfl

theorem run_appendBytes (bytes : List UInt8) {path : Path} {content : List UInt8}
    (hreach : tree.reach route = .ok path) (hfind : tree.find route = .ok (.file content)) :
    appendBytes route bytes tree = (.ok (), tree.put path (.file (content ++ bytes))) := by
  refine (run_bind_ok (by rw [run_reach, hreach])).trans ?_
  exact run_bind_ok (by rw [run_readBytes, hfind])

theorem run_renameFile {target : Route} {old new : Path} {content : List UInt8}
    (hfind : tree.find route = .ok (.file content)) (hold : tree.reach route = .ok old)
    (hnew : tree.reach target = .ok new) (hget : tree.get? new ≠ some .directory) :
    renameFile route target tree = (.ok (), (tree.without old).put new (.file content)) := by
  refine (run_bind_ok (by rw [run_readBytes, hfind])).trans ?_
  refine (run_bind_ok (by rw [run_reach, hold])).trans ?_
  refine (run_bind_ok (by rw [run_reach, hnew])).trans ?_
  refine (run_bind_ok rfl).trans ?_
  rcases hnode : tree.get? new with _ | _ | _
  · rfl
  · exact absurd hnode hget
  · rfl

theorem run_readBytes_snd (route : Route) (tree : Tree) : (readBytes route tree).2 = tree := by
  rw [run_readBytes]
  rcases tree.find route with _ | _ | _ <;> rfl

theorem find_of_readBytes {content : List UInt8} (h : readBytes route tree = (.ok content, mid)) :
    tree.find route = .ok (.file content) ∧ mid = tree := by
  rw [run_readBytes] at h
  rcases hfind : tree.find route with error | _ | other
  · rw [hfind] at h
    cases h
  · rw [hfind] at h
    cases h
  · rw [hfind] at h
    cases h
    exact ⟨rfl, rfl⟩

/-- A file is moved at once: a move that fails changes nothing, and one that is done has found a
file and a place for it. -/
theorem run_renameFile_cases {source target : Route} {result : Except FileError Unit}
    {later : Tree} (h : renameFile source target tree = (result, later)) :
    (exists error, result = .error error ∧ later = tree) ∨
      result = .ok () ∧ exists old new content, tree.find source = .ok (.file content) ∧
        tree.reach source = .ok old ∧ tree.reach target = .ok new ∧
        tree.get? new ≠ some .directory ∧
        later = (tree.without old).put new (.file content) := by
  rcases hread : readBytes source tree with ⟨error | content, mid⟩
  · have hsame := run_readBytes_snd source tree
    rw [hread] at hsame
    cases (run_bind_error hread).symm.trans h
    exact .inl ⟨error, rfl, hsame⟩
  · rcases find_of_readBytes hread with ⟨hfind, rfl⟩
    rcases Tree.find_eq_ok_iff.mp hfind with ⟨old, hold, -⟩
    cases hnew : mid.reach target with
    | error error =>
        replace h := (run_bind_ok hread).symm.trans h
        replace h := (run_bind_ok (by rw [run_reach, hold])).symm.trans h
        cases (run_bind_error (by rw [run_reach, hnew])).symm.trans h
        exact .inl ⟨error, rfl, rfl⟩
    | ok new =>
        by_cases hnode : mid.get? new = some .directory
        · replace h := (run_bind_ok hread).symm.trans h
          replace h := (run_bind_ok (by rw [run_reach, hold])).symm.trans h
          replace h := (run_bind_ok (by rw [run_reach, hnew])).symm.trans h
          replace h := (run_bind_ok rfl).symm.trans h
          rw [hnode] at h
          cases h
          exact .inl ⟨.isDirectory, rfl, rfl⟩
        · cases (run_renameFile hfind hold hnew hnode).symm.trans h
          exact .inr ⟨rfl, old, new, content, hfind, hold, rfl, hnode, rfl⟩

theorem run_atDirectory (route : Route) (act : Path -> FileAct α) (tree : Tree) :
    (do
      let path ← reach route
      match ← find route with
      | .directory => act path
      | .file _ => throw FileError.notDirectory : FileAct α) tree =
      match tree.find route, tree.reach route with
      | .error error, _ => (.error error, tree)
      | .ok (.file _), _ => (.error .notDirectory, tree)
      | .ok .directory, .error error => (.error error, tree)
      | .ok .directory, .ok path => act path tree := by
  cases hreach : tree.reach route with
  | error error =>
      have hfind : tree.find route = .error error := by
        rw [Tree.find, hreach]
        rfl
      rw [hfind]
      exact run_bind_error (by rw [run_reach, hreach])
  | ok path =>
      refine (run_bind_ok (by rw [run_reach, hreach])).trans ?_
      cases hfind : tree.find route with
      | error error => exact run_bind_error (by rw [run_find, hfind])
      | ok node =>
          refine (run_bind_ok (by rw [run_find, hfind])).trans ?_
          cases node <;> rfl

theorem run_removeDirectory (route : Route) (tree : Tree) :
    removeDirectory route tree =
      match tree.find route, tree.reach route with
      | .error error, _ => (.error error, tree)
      | .ok (.file _), _ => (.error .notDirectory, tree)
      | .ok .directory, .error error => (.error error, tree)
      | .ok .directory, .ok path => (.ok (), tree.without path) :=
  run_atDirectory route (fun path => modify fun tree : Tree => tree.without path) tree

theorem run_listDirectories (route : Route) (tree : Tree) :
    listDirectories route tree =
      match tree.find route, tree.reach route with
      | .error error, _ => (.error error, tree)
      | .ok (.file _), _ => (.error .notDirectory, tree)
      | .ok .directory, .error error => (.error error, tree)
      | .ok .directory, .ok path => (.ok (tree.childDirectories path), tree) :=
  run_atDirectory route (fun path => do return (← get).childDirectories path) tree

end FileAct

end RenewalDrive
