import RenewalDrive.Proofs.Store.Directories
import RenewalDrive.Store.Files

/-!
# Writing a file through a temporary one

The steps of writing a file leave the file with its new content in its directory, and no
temporary file next to it, whatever files stood there before; nothing else changes.
-/

namespace RenewalDrive

open FileAct

variable {tree : Tree} {start home : Path} {steps names : List String}
variable {temporary name : String} {content : List UInt8}

/-!
## In a directory
-/

structure Inside (tree : Tree) (start : Path) (steps : List String) (home : Path)
    (names : List String) : Prop where
  sound : tree.Sound
  leads : tree.Leads start steps home
  all_names : forall name, name ∈ names -> Tree.IsName name
  at_end : tree.get? (home ++ names) = some .directory

namespace Inside

theorem ne_nil : home ++ names ++ [name] ≠ [] := by
  simp

theorem put_file (h : Inside tree start steps home names)
    (hget : tree.get? (home ++ names ++ [name]) ≠ some .directory) (content : List UInt8) :
    Inside (tree.put (home ++ names ++ [name]) (.file content)) start steps home names := by
  have hkept : forall path, tree.get? path = some .directory ->
      (tree.put (home ++ names ++ [name]) (.file content)).get? path = some .directory := by
    intro path hpath
    rw [Tree.get?_put_of_ne ne_nil]
    · exact hpath
    · rintro rfl
      exact hget hpath
  refine ⟨h.sound.put ne_nil ?_ (.inr hget), h.leads.mono hkept, h.all_names, hkept _ h.at_end⟩
  rw [List.dropLast_concat]
  exact h.at_end

theorem without_file (h : Inside tree start steps home names)
    (hget : tree.get? (home ++ names ++ [name]) = some (.file content)) :
    Inside (tree.without (home ++ names ++ [name])) start steps home names := by
  have hkept : forall path, tree.get? path = some .directory ->
      (tree.without (home ++ names ++ [name])).get? path = some .directory := by
    intro path hpath
    rw [h.sound.get?_without_file hget, if_neg]
    · exact hpath
    · rintro rfl
      rw [hget] at hpath
      cases hpath
  exact ⟨h.sound.without ne_nil, h.leads.mono hkept, h.all_names, hkept _ h.at_end⟩

section

variable (h : Inside tree start steps home names) (hname : Tree.IsName name)
  (hfault : Route.fault? ⟨start, steps ++ (names ++ [name])⟩ = none)

include h hname hfault

theorem reach : tree.reach ⟨start, steps ++ (names ++ [name])⟩ = .ok (home ++ names ++ [name]) := by
  refine Tree.reach_of_directory h.sound h.leads hfault rfl ?_ h.at_end
  intro part hpart
  rcases List.mem_append.mp hpart with hpart | hpart
  · exact h.all_names part hpart
  · rw [List.mem_singleton.mp hpart]
    exact hname

theorem find {node : Node} (hget : tree.get? (home ++ names ++ [name]) = some node) :
    tree.find ⟨start, steps ++ (names ++ [name])⟩ = .ok node :=
  Tree.find_eq_ok_iff.mpr ⟨_, h.reach hname hfault, hget⟩

theorem run_create (hget : tree.get? (home ++ names ++ [name]) ≠ some .directory) :
    SaveStep.run (.create ⟨start, steps ++ (names ++ [name])⟩) tree =
      (.ok (), tree.put (home ++ names ++ [name]) (.file [])) := by
  refine (run_createFile _ tree).trans ?_
  rw [h.reach hname hfault]
  dsimp only
  rcases hnode : tree.get? (home ++ names ++ [name]) with _ | _ | _
  · rfl
  · exact absurd hnode hget
  · rfl

theorem run_sync (hget : tree.get? (home ++ names ++ [name]) = some (.file content)) :
    SaveStep.run (.sync ⟨start, steps ++ (names ++ [name])⟩) tree = (.ok (), tree) := by
  have hread : readBytes ⟨start, steps ++ (names ++ [name])⟩ tree = (.ok content, tree) := by
    rw [run_readBytes, h.find hname hfault hget]
  exact (run_bind_ok hread).trans rfl

end

end Inside

/-!
## The steps of writing a file
-/

structure Writable (tree : Tree) (directory : Path) (temporary name : String) : Prop where
  distinct : temporary ≠ name
  name_temporary : Tree.IsName temporary
  name_target : Tree.IsName name
  no_directory : tree.get? (directory ++ [temporary]) ≠ some .directory
  no_directory_target : tree.get? (directory ++ [name]) ≠ some .directory

/-- In a directory, a file is written by making the temporary file and moving it to its place. -/
theorem run_writing (h : Inside tree start steps home names)
    (hw : Writable tree (home ++ names) temporary name)
    (hfault : Route.fault? ⟨start, steps ++ (names ++ [name])⟩ = none)
    (hfault' : Route.fault? ⟨start, steps ++ (names ++ [temporary])⟩ = none) :
    exists later,
      ([SaveStep.create ⟨start, steps ++ (names ++ [temporary])⟩,
        .append ⟨start, steps ++ (names ++ [temporary])⟩ content,
        .sync ⟨start, steps ++ (names ++ [temporary])⟩,
        .rename ⟨start, steps ++ (names ++ [temporary])⟩
          ⟨start, steps ++ (names ++ [name])⟩].forM SaveStep.run) tree = (.ok (), later) ∧
      later.Sound ∧ forall path, later.get? path =
        if path = home ++ names ++ [name] then some (.file content)
        else if path = home ++ names ++ [temporary] then none
        else tree.get? path := by
  have hdistinct : home ++ names ++ [name] ≠ home ++ names ++ [temporary] := by
    intro heq
    exact hw.distinct (List.singleton_inj.mp (List.append_cancel_left heq)).symm
  -- the temporary file is made, empty at first, and takes the content
  have hcreate := h.run_create hw.name_temporary hfault' hw.no_directory
  have hcreated := h.put_file hw.no_directory []
  have happend := run_appendBytes content (hcreated.reach hw.name_temporary hfault')
    (hcreated.find hw.name_temporary hfault' (Tree.get?_put_self Inside.ne_nil))
  rw [List.nil_append, Tree.put_put] at happend
  have hfilled := h.put_file hw.no_directory content
  have hfull : (tree.put (home ++ names ++ [temporary]) (.file content)).get?
      (home ++ names ++ [temporary]) = some (.file content) := Tree.get?_put_self Inside.ne_nil
  have hsync := hfilled.run_sync hw.name_temporary hfault' hfull
  -- then it is moved to its place
  have hfree : (tree.put (home ++ names ++ [temporary]) (.file content)).get?
      (home ++ names ++ [name]) ≠ some .directory := by
    rw [Tree.get?_put_of_ne Inside.ne_nil hdistinct]
    exact hw.no_directory_target
  have hrename := run_renameFile (hfilled.find hw.name_temporary hfault' hfull)
    (hfilled.reach hw.name_temporary hfault') (hfilled.reach hw.name_target hfault) hfree
  have hmoved := hfilled.without_file hfull
  have hvacated : ((tree.put (home ++ names ++ [temporary]) (.file content)).without
      (home ++ names ++ [temporary])).get? (home ++ names ++ [name]) ≠ some .directory := by
    rw [hfilled.sound.get?_without_file hfull, if_neg hdistinct]
    exact hfree
  refine ⟨_, ?_, (hmoved.put_file hvacated content).sound, fun path => ?_⟩
  · refine (run_bind_ok hcreate).trans ?_
    refine (run_bind_ok happend).trans ?_
    refine (run_bind_ok hsync).trans ?_
    exact (run_bind_ok hrename).trans rfl
  · rw [Tree.get?_put Inside.ne_nil, hfilled.sound.get?_without_file hfull]
    split_ifs with hname htemporary
    · rfl
    · rfl
    · exact Tree.get?_put_of_ne Inside.ne_nil htemporary

end RenewalDrive
