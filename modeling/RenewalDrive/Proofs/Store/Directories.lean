import RenewalDrive.Proofs.Store.Acts

/-!
# Making directories

A directory is made together with the missing ones on the way to it. Whatever happens, the
tree only grows by directories. Behind a directory all goes well as long as no file stands in
the way, and the names behind it are directories then; where even that directory is missing,
it is made first.
-/

namespace RenewalDrive

namespace Tree

variable {tree mid later : Tree} {path more : Path} {node : Node} {name : String}

/-!
## Growing trees
-/

inductive Grows : Tree -> Tree -> Prop
  | refl (tree : Tree) : Grows tree tree
  | step {tree later : Tree} {path : Path} (missing : tree.get? path = none)
      (inside : tree.get? path.dropLast = some .directory)
      (rest : Grows (tree.put path .directory) later) : Grows tree later

theorem Grows.trans (h : tree.Grows mid) (h' : mid.Grows later) : tree.Grows later := by
  induction h with
  | refl tree => exact h'
  | step missing inside rest ih => exact .step missing inside (ih h')

theorem ne_nil_of_missing (h : tree.get? path = none) : path ≠ [] := by
  rintro rfl
  cases h

theorem Grows.sound (h : tree.Grows later) (hs : tree.Sound) : later.Sound := by
  induction h with
  | refl tree => exact hs
  | step missing inside rest ih =>
      exact ih (hs.put (ne_nil_of_missing missing) inside (.inl rfl))

theorem Grows.get? (h : tree.Grows later) (hget : tree.get? path = some node) :
    later.get? path = some node := by
  induction h with
  | refl tree => exact hget
  | step missing inside rest ih =>
      refine ih ?_
      rw [get?_put_of_ne (ne_nil_of_missing missing) ?_]
      · exact hget
      · rintro rfl
        rw [missing] at hget
        cases hget

inductive GrowsAlong (start : Path) (steps : List String) : Tree -> Tree -> Prop
  | refl (tree : Tree) : GrowsAlong start steps tree tree
  | step {tree later : Tree} {front : List String} {path : Path} (within : front <+: steps)
      (leads : tree.follow start front = .ok path) (missing : tree.get? path = none)
      (rest : GrowsAlong start steps (tree.put path .directory) later) :
      GrowsAlong start steps tree later

namespace GrowsAlong

variable {start : Path} {steps further : List String}

theorem trans (h : tree.GrowsAlong start steps mid) (h' : mid.GrowsAlong start steps later) :
    tree.GrowsAlong start steps later := by
  induction h with
  | refl tree => exact h'
  | step within leads missing _ ih => exact .step within leads missing (ih h')

theorem mono (h : tree.GrowsAlong start steps later) (hsteps : steps <+: further) :
    tree.GrowsAlong start further later := by
  induction h with
  | refl tree => exact .refl tree
  | step within leads missing _ ih => exact .step (within.trans hsteps) leads missing ih

theorem grows (h : tree.GrowsAlong start steps later) (hs : tree.Sound)
    (hstart : tree.get? start = some .directory) : tree.Grows later := by
  induction h with
  | refl tree => exact .refl tree
  | @step tree later front path _ leads missing _ ih =>
      have hinside : tree.get? path.dropLast = some .directory := by
        rcases directory_of_follow hs hstart leads with hself | ⟨hparent, -⟩
        · rw [missing] at hself
          cases hself
        · exact hparent
      have hmade : tree.Grows (tree.put path .directory) := .step missing hinside (.refl _)
      exact hmade.trans (ih (hmade.sound hs) (hmade.get? hstart))

end GrowsAlong

/-- A tree has grown by the directories on the way to a path, and by no others. -/
structure Paved (tree later : Tree) (path : Path) : Prop where
  grows : tree.Grows later
  get? : forall other,
    later.get? other = if other <+: path then some .directory else tree.get? other

namespace Paved

theorem at_end (h : tree.Paved later path) : later.get? path = some .directory := by
  rw [h.get?, if_pos (List.prefix_refl _)]

theorem of_directory (hs : tree.Sound) (hget : tree.get? path = some .directory) :
    tree.Paved tree path := by
  refine ⟨.refl tree, fun other => ?_⟩
  split_ifs with hpre
  · by_cases heq : other = path
    · rw [heq]
      exact hget
    · exact hs.directory_of_prefix hget hpre heq
  · rfl

theorem put (hs : tree.Sound) (hget : tree.get? path = some .directory)
    (hmissing : tree.get? (path ++ [name]) = none) :
    tree.Paved (tree.put (path ++ [name]) .directory) (path ++ [name]) := by
  refine ⟨.step hmissing ?_ (.refl _), fun other => ?_⟩
  · rwa [List.dropLast_concat]
  · rw [Tree.get?_put (ne_nil_of_missing hmissing)]
    split_ifs with heq hpre hpre
    · rfl
    · exact absurd (heq ▸ List.prefix_refl _) hpre
    · have hshort := (List.prefix_concat_iff.mp hpre).resolve_left heq
      rw [(of_directory hs hget).get? other, if_pos hshort]
    · rfl

theorem trans (h : tree.Paved mid path) (h' : mid.Paved later more) (hpre : path <+: more) :
    tree.Paved later more := by
  refine ⟨h.grows.trans h'.grows, fun other => ?_⟩
  rw [h'.get?, h.get?]
  split_ifs with hmore hpath
  · rfl
  · exact absurd (hpath.trans hpre) hmore
  · rfl

end Paved

end Tree

namespace FileAct

variable {tree made : Tree} {route : Route} {start home : Path} {step name : String}
variable {steps outer names : List String}

theorem isDirectory_eq : tree.isDirectory route = true ↔ tree.find route = .ok .directory := by
  unfold Tree.isDirectory
  rcases tree.find route with _ | _ | _ <;> simp

theorem run_unlessDirectory (route : Route) (error : FileError) (tree : Tree) :
    (do if ¬ (← get).isDirectory route then throw error : FileAct Unit) tree =
      if tree.isDirectory route then (.ok (), tree) else (.error error, tree) := by
  refine (run_bind_ok rfl).trans ?_
  cases h : tree.isDirectory route <;> rfl

theorem run_ensureDirectory (route : Route) (tree : Tree) :
    ensureDirectory route tree =
      match makeDirectory route tree with
      | (.ok value, mid) => (.ok value, mid)
      | (.error error, mid) =>
          if mid.isDirectory route then (.ok (), mid) else (.error error, mid) := by
  rw [ensureDirectory, run_tryCatch]
  rcases makeDirectory route tree with ⟨error | value, mid⟩
  · exact run_unlessDirectory route error mid
  · rfl

theorem run_makeDirectoriesUp_idle (h : Route.isIdle step = true) :
    makeDirectoriesUp start (step :: outer) tree = makeDirectoriesUp start outer tree := by
  rw [makeDirectoriesUp, if_pos h]

theorem run_makeDirectoriesUp (h : Route.isIdle step = false) :
    makeDirectoriesUp start (step :: outer) tree =
      match makeDirectory ⟨start, (step :: outer).reverse⟩ tree with
      | (.ok value, mid) => (.ok value, mid)
      | (.error error, mid) =>
          if error = .notFound then
            (makeDirectoriesUp start outer >>= fun _ =>
              ensureDirectory ⟨start, (step :: outer).reverse⟩) mid
          else if mid.isDirectory ⟨start, (step :: outer).reverse⟩ then (.ok (), mid)
          else (.error error, mid) := by
  rw [makeDirectoriesUp, if_neg (by simp [h])]
  refine (run_tryCatch _ _ _).trans ?_
  rcases makeDirectory ⟨start, (step :: outer).reverse⟩ tree with ⟨error | value, mid⟩
  · by_cases hmissing : error = .notFound
    · simp only [hmissing, if_true]
    · simp only [hmissing, if_false]
      exact run_unlessDirectory _ error mid
  · rfl

/-!
## Only directories are made
-/

theorem growsAlong_makeDirectory (route : Route) (tree : Tree) :
    tree.GrowsAlong route.start route.steps (makeDirectory route tree).2 := by
  rw [run_makeDirectory]
  cases hreach : tree.reach route with
  | error error => exact .refl tree
  | ok path =>
      dsimp only
      cases hget : tree.get? path with
      | some node => exact .refl tree
      | none =>
          exact .step (List.prefix_refl _) (Tree.reach_eq_ok_iff.mp hreach).2 hget (.refl _)

theorem growsAlong_ensureDirectory (route : Route) (tree : Tree) :
    tree.GrowsAlong route.start route.steps (ensureDirectory route tree).2 := by
  have hmake := growsAlong_makeDirectory route tree
  rw [run_ensureDirectory]
  rcases hrun : makeDirectory route tree with ⟨error | value, mid⟩
  · rw [hrun] at hmake
    dsimp only
    split_ifs <;> exact hmake
  · rw [hrun] at hmake
    exact hmake

theorem growsAlong_makeDirectoriesUp (start : Path) (steps : List String) (tree : Tree) :
    tree.GrowsAlong start steps.reverse (makeDirectoriesUp start steps tree).2 := by
  induction steps generalizing tree with
  | nil => exact .refl tree
  | cons step outer ih =>
      have hshort : outer.reverse <+: (step :: outer).reverse := by simp
      by_cases hidle : Route.isIdle step = true
      · rw [run_makeDirectoriesUp_idle hidle]
        exact (ih tree).mono hshort
      · rw [run_makeDirectoriesUp (Bool.eq_false_iff.mpr hidle)]
        have hmake := growsAlong_makeDirectory ⟨start, (step :: outer).reverse⟩ tree
        rcases hrun : makeDirectory ⟨start, (step :: outer).reverse⟩ tree with
          ⟨error | value, mid⟩
        · rw [hrun] at hmake
          dsimp only
          split_ifs
          · have houter := (ih mid).mono hshort
            refine hmake.trans ?_
            rcases hup : makeDirectoriesUp start outer mid with ⟨error | value, later⟩
            · rw [run_bind_error hup]
              rw [hup] at houter
              exact houter
            · rw [run_bind_ok hup]
              rw [hup] at houter
              exact houter.trans (growsAlong_ensureDirectory ⟨start, (step :: outer).reverse⟩ later)
          · exact hmake
          · exact hmake
        · rw [hrun] at hmake
          exact hmake

theorem grows_makeDirectoriesUp (hs : tree.Sound) (hstart : tree.get? start = some .directory)
    (steps : List String) : tree.Grows (makeDirectoriesUp start steps tree).2 :=
  (growsAlong_makeDirectoriesUp start steps tree).grows hs hstart

/-!
## What was made is there
-/

def Arrives (tree : Tree) (start : Path) (steps : List String) : Prop :=
  exists home, tree.follow start steps = .ok home ∧ tree.get? home = some .directory

theorem arrives_of_isDirectory (h : tree.isDirectory ⟨start, steps⟩ = true) :
    Arrives tree start steps := by
  rcases Tree.find_eq_ok_iff.mp (isDirectory_eq.mp h) with ⟨home, hreach, hhome⟩
  exact ⟨home, (Tree.reach_eq_ok_iff.mp hreach).2, hhome⟩

theorem arrives_of_makeDirectory (hrun : makeDirectory ⟨start, steps⟩ tree = (.ok (), made)) :
    Arrives made start steps := by
  rw [run_makeDirectory] at hrun
  cases hreach : tree.reach ⟨start, steps⟩ with
  | error error =>
      rw [hreach] at hrun
      cases hrun
  | ok home =>
      cases hget : tree.get? home with
      | some node =>
          simp only [hreach, hget] at hrun
          cases hrun
      | none =>
          simp only [hreach, hget] at hrun
          cases hrun
          have hroot := Tree.ne_nil_of_missing hget
          refine ⟨home, ?_, Tree.get?_put_self hroot⟩
          refine Tree.follow_mono (fun path hpath => ?_) (Tree.reach_eq_ok_iff.mp hreach).2
          rw [Tree.get?_put hroot]
          split_ifs
          · rfl
          · exact hpath

theorem arrives_of_ensureDirectory (hrun : ensureDirectory ⟨start, steps⟩ tree = (.ok (), made)) :
    Arrives made start steps := by
  rw [run_ensureDirectory] at hrun
  rcases hmake : makeDirectory ⟨start, steps⟩ tree with ⟨error | value, mid⟩
  · simp only [hmake] at hrun
    split_ifs at hrun with hdirectory
    · cases hrun
      exact arrives_of_isDirectory hdirectory
    · cases hrun
  · rw [hmake] at hrun
    cases hrun
    exact arrives_of_makeDirectory hmake

theorem arrives_of_makeDirectoriesUp (hs : tree.Sound)
    (hstart : tree.get? start = some .directory)
    (hrun : makeDirectoriesUp start steps tree = (.ok (), made)) :
    Arrives made start steps.reverse := by
  induction steps with
  | nil =>
      cases hrun
      exact ⟨start, rfl, hstart⟩
  | cons step outer ih =>
      by_cases hidle : Route.isIdle step = true
      · rw [run_makeDirectoriesUp_idle hidle] at hrun
        have hgrows := grows_makeDirectoriesUp hs hstart outer
        rw [hrun] at hgrows
        rcases ih hrun with ⟨home, hfollow, hhome⟩
        refine ⟨home, ?_, hhome⟩
        rw [List.reverse_cons, Tree.follow_append (hgrows.sound hs) (hgrows.get? hstart)
          (List.cons_ne_nil step []), hfollow]
        simp only [hhome, Tree.follow, hidle, if_true]
      · rw [run_makeDirectoriesUp (Bool.eq_false_iff.mpr hidle)] at hrun
        rcases hmake : makeDirectory ⟨start, (step :: outer).reverse⟩ tree with
          ⟨error | value, mid⟩
        · simp only [hmake] at hrun
          split_ifs at hrun with hmissing hdirectory
          · rcases hup : makeDirectoriesUp start outer mid with ⟨error | value, later⟩
            · rw [run_bind_error hup] at hrun
              cases hrun
            · rw [run_bind_ok hup] at hrun
              exact arrives_of_ensureDirectory hrun
          · cases hrun
            exact arrives_of_isDirectory hdirectory
          · cases hrun
        · rw [hmake] at hrun
          cases hrun
          exact arrives_of_makeDirectory hmake

/-!
## Directories behind a directory
-/

/-- Behind a directory, everything on the way to some names is a directory once it was made,
unless a file is in the way; nothing else changes. -/
theorem run_makeDirectories_names (hs : tree.Sound) (h : tree.Leads start steps home)
    (hne : names ≠ []) (hnames : forall name, name ∈ names -> Tree.IsName name)
    (hfault : Route.fault? ⟨start, steps ++ names⟩ = none)
    (hfiles : forall path content, path <+: home ++ names ->
      tree.get? path ≠ some (.file content)) :
    exists later, makeDirectories ⟨start, steps ++ names⟩ tree = (.ok (), later) ∧
      tree.Paved later (home ++ names) := by
  unfold makeDirectories
  dsimp only
  induction names using List.reverseRecOn with
  | nil => exact absurd rfl hne
  | append_singleton outer name ih =>
      have hname : Tree.IsName name := hnames name (by simp)
      have hreverse : (steps ++ (outer ++ [name])).reverse = name :: (steps ++ outer).reverse := by
        simp
      have hroute : (name :: (steps ++ outer).reverse).reverse = steps ++ (outer ++ [name]) := by
        simp
      have hreach := Tree.reach_names hs h hfault hne
      rw [hreverse, run_makeDirectoriesUp hname.moves, hroute, run_makeDirectory, hreach]
      cases hget : tree.get? (home ++ (outer ++ [name])) with
      | some node =>
          have hdirectory : node = .directory := by
            cases node with
            | directory => rfl
            | file content => exact absurd hget (hfiles _ content (List.prefix_refl _))
          have hfind := Tree.find_of_get? hs h hfault hne hnames hget
          subst hdirectory
          rw [Tree.follow_of_get? hs hnames hget]
          simp only [hget, isDirectory_eq.mpr hfind]
          exact ⟨tree, rfl, .of_directory hs hget⟩
      | none =>
          rcases Tree.follow_of_missing hnames hget hfiles with hfollow | hfollow
          -- the directory in front of the last name is missing, too
          · have houter : outer ≠ [] := by
              rintro rfl
              rw [List.nil_append, Tree.follow_name hname] at hfollow
              cases hfollow
            have houterNames : forall other, other ∈ outer -> Tree.IsName other :=
              fun other hother => hnames other (List.mem_append_left _ hother)
            have hpre : home ++ outer <+: home ++ (outer ++ [name]) := by
              rw [← List.append_assoc]
              exact List.prefix_append _ _
            rcases ih houter houterNames
              (Route.fault?_of_names hfault houter fun other hother =>
                (houterNames other hother).ne_empty)
              (fun path content hpath => hfiles path content (hpath.trans hpre)) with
              ⟨mid, hmid, hpaved⟩
            have hsMid := hpaved.grows.sound hs
            have hleads := h.mono fun path hpath => hpaved.grows.get? hpath
            have hreachMid := Tree.reach_of_directory hsMid hleads hfault rfl hnames hpaved.at_end
            have hmissing : mid.get? (home ++ outer ++ [name]) = none := by
              rw [hpaved.get?, if_neg Tree.not_concat_prefix, List.append_assoc, hget]
            rw [hfollow]
            simp only [if_true]
            rw [run_bind_ok hmid, run_ensureDirectory, run_makeDirectory, hreachMid]
            simp only [hmissing]
            refine ⟨_, rfl, ?_⟩
            rw [← List.append_assoc]
            exact hpaved.trans (.put hsMid hpaved.at_end hmissing) (List.prefix_append _ _)
          · have houter : tree.get? (home ++ outer) = some .directory := by
              rcases Tree.directory_of_follow hs h.at_home hfollow with hself | ⟨hparent, -⟩
              · rw [hget] at hself
                cases hself
              · rwa [← List.append_assoc, List.dropLast_concat] at hparent
            rw [hfollow]
            simp only [hget]
            refine ⟨_, rfl, ?_⟩
            rw [← List.append_assoc] at hget ⊢
            exact .put hs houter hget

/-- Steps that lead to nothing in a tree, be it at their end or before. -/
def Missing (tree : Tree) (start : Path) (steps : List String) : Prop :=
  tree.follow start steps = .error .notFound ∨
    exists path, tree.follow start steps = .ok path ∧ tree.get? path = none

theorem missing_of_find (hfault : route.fault? = none)
    (h : tree.find route = .error .notFound) : Missing tree route.start route.steps := by
  cases hreach : tree.reach route with
  | error error =>
      rw [Tree.find, hreach] at h
      cases h
      simp only [Tree.reach, hfault] at hreach
      exact .inl hreach
  | ok path =>
      refine .inr ⟨path, (Tree.reach_eq_ok_iff.mp hreach).2, ?_⟩
      cases hget : tree.get? path with
      | none => rfl
      | some node =>
          rw [Tree.find_eq_ok_iff.mpr ⟨path, hreach, hget⟩] at h
          cases h

theorem Missing.of_empty_step (hs : tree.Sound) (hstart : tree.get? start = some .directory)
    (h : Missing tree start (steps ++ [""])) : Missing tree start steps := by
  unfold Missing at h
  rw [Tree.follow_append hs hstart (List.cons_ne_nil "" [])] at h
  cases hfollow : tree.follow start steps with
  | error error =>
      rw [hfollow] at h
      rcases h with h | ⟨path, h, -⟩
      · cases h
        exact .inl hfollow
      · cases h
  | ok path =>
      rw [hfollow] at h
      cases hget : tree.get? path with
      | none => exact .inr ⟨path, hfollow, hget⟩
      | some node =>
          simp only [hget] at h
          cases node with
          | file content => rcases h with h | ⟨path, h, -⟩ <;> cases h
          | directory =>
              rcases h with h | ⟨other, h, hother⟩
              · cases h
              · cases h
                rw [hget] at hother
                cases hother

theorem reach_behind_missing (hs : tree.Sound) (hstart : tree.get? start = some .directory)
    (h : Missing tree start steps) (hne : names ≠ [])
    (hfault : Route.fault? ⟨start, steps ++ names⟩ = none) :
    tree.reach ⟨start, steps ++ names⟩ = .error .notFound := by
  simp only [Tree.reach, hfault, Tree.follow_append hs hstart hne]
  rcases h with hfollow | ⟨path, hfollow, hget⟩
  · rw [hfollow]
  · simp only [hfollow, hget]

/-- Where the directory in front of some names is missing, too, it is made first; with nothing
in it yet, all goes on as it would have begun there. -/
theorem run_makeDirectories_missing (hs : tree.Sound) (hstart : tree.get? start = some .directory)
    (hmissing : Missing tree start steps)
    (hmake : makeDirectoriesUp start steps.reverse tree = (.ok (), made))
    (h : made.Leads start steps home) (hbare : forall name, made.get? (home ++ [name]) = none)
    (hne : names ≠ []) (hnames : forall name, name ∈ names -> Tree.IsName name)
    (hfault : Route.fault? ⟨start, steps ++ names⟩ = none) :
    makeDirectories ⟨start, steps ++ names⟩ tree =
      makeDirectories ⟨start, steps ++ names⟩ made := by
  have hsMade : made.Sound := by
    have hgrows := grows_makeDirectoriesUp hs hstart steps.reverse
    rw [hmake] at hgrows
    exact hgrows.sound hs
  unfold makeDirectories
  dsimp only
  induction names using List.reverseRecOn with
  | nil => exact absurd rfl hne
  | append_singleton outer name ih =>
      have hname : Tree.IsName name := hnames name (by simp)
      have hreverse : (steps ++ (outer ++ [name])).reverse = name :: (steps ++ outer).reverse := by
        simp
      have hroute : (name :: (steps ++ outer).reverse).reverse = steps ++ (outer ++ [name]) := by
        simp
      rw [hreverse, run_makeDirectoriesUp hname.moves, run_makeDirectoriesUp hname.moves, hroute,
        run_makeDirectory, run_makeDirectory, reach_behind_missing hs hstart hmissing hne hfault,
        Tree.reach_names hsMade h hfault hne]
      simp only [if_true]
      by_cases houter : outer = []
      · subst houter
        have hget := hbare name
        rw [List.append_nil, run_bind_ok hmake, run_ensureDirectory, run_makeDirectory,
          Tree.reach_names hsMade h hfault hne, List.nil_append, Tree.follow_name hname]
        simp only [hget]
      · have houterNames : forall other, other ∈ outer -> Tree.IsName other :=
          fun other hother => hnames other (List.mem_append_left _ hother)
        have hsame := ih houter houterNames
          (Route.fault?_of_names hfault houter fun other hother =>
            (houterNames other hother).ne_empty)
        have hfollow : made.follow home (outer ++ [name]) = .error .notFound := by
          rcases List.exists_cons_of_ne_nil houter with ⟨first, rest, rfl⟩
          rw [List.cons_append, Tree.follow_names (houterNames first List.mem_cons_self) (by simp),
            hbare]
        rw [hfollow]
        simp only [if_true]
        rcases hrun : makeDirectoriesUp start (steps ++ outer).reverse made with
          ⟨error | value, later⟩
        · rw [run_bind_error (hsame.trans hrun), run_bind_error hrun]
        · rw [run_bind_ok (hsame.trans hrun), run_bind_ok hrun]

end FileAct

end RenewalDrive
