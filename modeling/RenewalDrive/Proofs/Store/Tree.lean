import Mathlib.Data.List.Induction
import Mathlib.Data.List.Nodup
import Mathlib.Tactic.SplitIfs
import RenewalDrive.Store.Tree

/-!
# Trees as a file system keeps them

A tree lists what stands at its paths. In a sound tree each path stands once and in a
directory, so what is found at a path says everything about the tree there. Putting a node
into a directory and removing all below a path keep a tree sound.
-/

namespace RenewalDrive

namespace Tree

variable {tree : Tree} {path other : Path} {node : Node} {name : String}

/-!
## What stands at a path
-/

theorem get?_eq_lookup (h : path ≠ []) : tree.get? path = tree.nodes.lookup path :=
  if_neg h

theorem lookup_filter (keep : Path -> Bool) (nodes : List (Path × Node)) (path : Path) :
    (nodes.filter fun entry => keep entry.1).lookup path =
      if keep path then nodes.lookup path else none := by
  induction nodes with
  | nil => simp
  | cons entry nodes ih =>
      rcases entry with ⟨key, node⟩
      by_cases hkey : path = key
      · subst hkey
        cases hkeep : keep path with
        | true => simp [hkeep]
        | false => simpa [hkeep] using ih
      · have hbeq : (path == key) = false := by simpa using hkey
        cases hkeep : keep key with
        | true => simpa [List.filter_cons, List.lookup_cons, hkeep, hbeq] using ih
        | false => simpa [List.filter_cons, List.lookup_cons, hkeep, hbeq] using ih

theorem get?_put (h : path ≠ []) :
    (tree.put path node).get? other = if other = path then some node else tree.get? other := by
  by_cases hroot : other = []
  · subst hroot
    rw [if_neg fun hpath => h hpath.symm]
    rfl
  · rw [get?_eq_lookup hroot, get?_eq_lookup hroot]
    show List.lookup other ((path, node) :: tree.nodes.filter fun entry => entry.1 ≠ path) = _
    by_cases hpath : other = path
    · rw [if_pos hpath, hpath, List.lookup_cons_self]
    · have hbeq : (other == path) = false := by simpa using hpath
      rw [if_neg hpath, List.lookup_cons, hbeq]
      simpa [hpath] using lookup_filter (fun key => key ≠ path) tree.nodes other

theorem put_put (first last : Node) : (tree.put path first).put path last = tree.put path last := by
  simp [put, List.filter_filter]

theorem get?_put_self (h : path ≠ []) : (tree.put path node).get? path = some node := by
  rw [get?_put h, if_pos rfl]

theorem get?_put_of_ne (h : path ≠ []) (hne : other ≠ path) :
    (tree.put path node).get? other = tree.get? other := by
  rw [get?_put h, if_neg hne]

theorem get?_without (h : path ≠ []) :
    (tree.without path).get? other = if path <+: other then none else tree.get? other := by
  by_cases hroot : other = []
  · subst hroot
    rw [if_neg fun hpre => h (List.prefix_nil.mp hpre)]
    rfl
  · rw [get?_eq_lookup hroot, get?_eq_lookup hroot]
    have hfilter := lookup_filter (fun key => ¬ path.isPrefixOf key) tree.nodes other
    rw [show (tree.without path).nodes =
      tree.nodes.filter fun entry => ¬ path.isPrefixOf entry.1 from rfl, hfilter]
    by_cases hpre : path <+: other <;> simp [hpre]

theorem not_concat_prefix : ¬ path ++ [name] <+: path := by
  intro h
  have hlen := h.length_le
  rw [List.length_append, List.length_singleton] at hlen
  exact Nat.not_succ_le_self path.length hlen

/-!
## Sound trees
-/

/-- A tree as a file system keeps it: each path stands once, never the root, and whatever
stands somewhere stands in a directory. -/
structure Sound (tree : Tree) : Prop where
  nodup : (tree.nodes.map (·.1)).Nodup
  not_root : forall entry, entry ∈ tree.nodes -> entry.1 ≠ []
  parent : forall {path : Path} {node : Node}, tree.get? path = some node ->
    tree.get? path.dropLast = some .directory

theorem sound_empty : empty.Sound where
  nodup := List.nodup_nil
  not_root := fun _ h => nomatch h
  parent := by
    intro path node h
    by_cases hroot : path = []
    · subst hroot
      rfl
    · rw [get?_eq_lookup hroot] at h
      cases h

namespace Sound

theorem directory_of_prefix (hs : tree.Sound) (h : tree.get? path = some node)
    (hpre : other <+: path) (hne : other ≠ path) : tree.get? other = some .directory := by
  induction path using List.reverseRecOn generalizing node with
  | nil => exact absurd (List.prefix_nil.mp hpre) hne
  | append_singleton outer name ih =>
      have houter : tree.get? outer = some .directory := by
        simpa using hs.parent h
      rcases List.prefix_concat_iff.mp hpre with heq | hpre
      · exact absurd heq hne
      · by_cases heq : other = outer
        · rw [heq]
          exact houter
        · exact ih houter hpre heq

theorem none_of_prefix (hs : tree.Sound) (h : tree.get? path = none) (hpre : path <+: other) :
    tree.get? other = none := by
  by_cases heq : path = other
  · rw [← heq]
    exact h
  · cases hother : tree.get? other with
    | none => rfl
    | some node =>
        have hdirectory := hs.directory_of_prefix hother hpre heq
        rw [h] at hdirectory
        cases hdirectory

theorem none_below_file (hs : tree.Sound) {content : List UInt8}
    (h : tree.get? path = some (.file content)) (hpre : path <+: other) (hne : path ≠ other) :
    tree.get? other = none := by
  cases hother : tree.get? other with
  | none => rfl
  | some node =>
      have hdirectory := hs.directory_of_prefix hother hpre hne
      rw [h] at hdirectory
      cases hdirectory

theorem get?_without_file (hs : tree.Sound) {content : List UInt8}
    (h : tree.get? path = some (.file content)) :
    (tree.without path).get? other = if other = path then none else tree.get? other := by
  have hroot : path ≠ [] := by
    rintro rfl
    cases h
  rw [get?_without hroot]
  by_cases heq : other = path
  · rw [heq, if_pos (List.prefix_refl path), if_pos rfl]
  · rw [if_neg heq]
    split_ifs with hpre
    · exact (hs.none_below_file h hpre (Ne.symm heq)).symm
    · rfl

theorem lookup_eq_some_iff (hs : tree.Sound) :
    tree.nodes.lookup path = some node ↔ (path, node) ∈ tree.nodes := by
  have hnodup := hs.nodup
  generalize tree.nodes = nodes at hnodup
  induction nodes with
  | nil => simp
  | cons entry nodes ih =>
      rcases entry with ⟨key, first⟩
      rcases List.nodup_cons.mp hnodup with ⟨hkey, hrest⟩
      by_cases hpath : path = key
      · subst hpath
        rw [List.lookup_cons_self, List.mem_cons]
        constructor
        · rintro h
          cases h
          exact .inl rfl
        · rintro (h | h)
          · cases h
            rfl
          · exact absurd (List.mem_map_of_mem h) hkey
      · have hbeq : (path == key) = false := by simpa using hpath
        rw [List.lookup_cons, hbeq, List.mem_cons]
        simp [hpath, ih hrest]

theorem get?_eq_some_iff (hs : tree.Sound) (h : path ≠ []) :
    tree.get? path = some node ↔ (path, node) ∈ tree.nodes := by
  rw [get?_eq_lookup h, hs.lookup_eq_some_iff]

theorem put (hs : tree.Sound) (h : path ≠ [])
    (hparent : tree.get? path.dropLast = some .directory)
    (hnode : node = .directory ∨ tree.get? path ≠ some .directory) :
    (tree.put path node).Sound where
  nodup := by
    show (((path, node) :: tree.nodes.filter fun entry => entry.1 ≠ path).map (·.1)).Nodup
    rw [List.map_cons, List.nodup_cons]
    refine ⟨?_, (hs.nodup.sublist (List.filter_sublist.map _))⟩
    intro hmem
    rcases List.mem_map.mp hmem with ⟨entry, hentry, heq⟩
    simpa [heq] using (List.mem_filter.mp hentry).2
  not_root := by
    intro entry hentry
    rcases List.mem_cons.mp hentry with rfl | hentry
    · exact h
    · exact hs.not_root entry (List.mem_filter.mp hentry).1
  parent := by
    intro other found hother
    have hself : other.dropLast = path -> other ≠ [] -> node = .directory := by
      intro hdrop hroot
      rcases hnode with hnode | hnode
      · exact hnode
      · by_cases hpath : other = path
        · exfalso
          have hlen := congrArg List.length (hdrop.trans hpath.symm)
          rw [List.length_dropLast] at hlen
          have hpos := List.length_pos_iff.mpr hroot
          omega
        · rw [get?_put_of_ne h hpath] at hother
          exact absurd (hdrop ▸ hs.parent hother) hnode
    by_cases hroot : other = []
    · subst hroot
      rfl
    · by_cases hdrop : other.dropLast = path
      · rw [hdrop, get?_put_self h, hself hdrop hroot]
      · rw [get?_put_of_ne h hdrop]
        by_cases hpath : other = path
        · rw [hpath]
          exact hparent
        · rw [get?_put_of_ne h hpath] at hother
          exact hs.parent hother

theorem without (hs : tree.Sound) (h : path ≠ []) : (tree.without path).Sound where
  nodup := hs.nodup.sublist (List.filter_sublist.map _)
  not_root := fun entry hentry => hs.not_root entry (List.mem_filter.mp hentry).1
  parent := by
    intro other found hother
    rw [get?_without h] at hother
    rw [get?_without h]
    split_ifs at hother with hpre
    rw [if_neg fun hdrop => hpre (hdrop.trans (List.dropLast_prefix other))]
    exact hs.parent hother

/-!
## The directories in a directory
-/

theorem childDirectories_eq_some_iff {entry : Path × Node} :
    (match entry.2, entry.1.getLast? with
      | .directory, some last => if entry.1 = path ++ [last] then some last else none
      | _, _ => none) = some name ↔ entry = (path ++ [name], .directory) := by
  rcases entry with ⟨key, node⟩
  cases node with
  | file content => simp
  | directory =>
      cases hlast : key.getLast? with
      | none =>
          rw [List.getLast?_eq_none_iff.mp hlast]
          simp
      | some last =>
          simp only [Option.ite_none_right_eq_some, Option.some.injEq, Prod.mk.injEq, and_true]
          constructor
          · rintro ⟨hkey, rfl⟩
            exact hkey
          · rintro rfl
            rw [List.getLast?_concat] at hlast
            cases hlast
            exact ⟨rfl, rfl⟩

theorem mem_childDirectories (hs : tree.Sound) :
    name ∈ tree.childDirectories path ↔ tree.get? (path ++ [name]) = some .directory := by
  have hroot : path ++ [name] ≠ [] := by simp
  rw [hs.get?_eq_some_iff hroot, childDirectories, List.mem_filterMap]
  constructor
  · rintro ⟨entry, hmem, hsome⟩
    rw [childDirectories_eq_some_iff.mp hsome] at hmem
    exact hmem
  · intro hmem
    exact ⟨_, hmem, childDirectories_eq_some_iff.mpr rfl⟩

theorem nodup_childDirectories (hs : tree.Sound) : (tree.childDirectories path).Nodup := by
  refine List.Nodup.filterMap ?_ (List.Nodup.of_map _ hs.nodup)
  intro entry other name hentry hother
  rw [childDirectories_eq_some_iff.mp hentry, childDirectories_eq_some_iff.mp hother]

end Sound

end Tree

end RenewalDrive
