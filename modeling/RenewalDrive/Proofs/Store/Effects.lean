import RenewalDrive.Proofs.Store.Places

/-!
# What happens beside an entry

Below a base, an entry is the directory at some names. Making it, writing files in it and
removing it change nothing but what stands at or below its place, and directories on the way to
it. Along other names the same is found as before.
-/

namespace RenewalDrive

open FileAct

/-!
## Files in a directory
-/

/-- Nothing has changed but what stands below a directory, and no directory came or went. -/
def Tree.Refiled (directory : Path) (tree later : Tree) : Prop :=
  forall path, later.get? path = tree.get? path ∨
    directory <+: path ∧ tree.get? path ≠ some .directory ∧ later.get? path ≠ some .directory

namespace Tree.Refiled

variable {directory : Path} {tree mid later : Tree}

theorem refl (directory : Path) (tree : Tree) : tree.Refiled directory tree :=
  fun _ => .inl rfl

theorem trans (h : tree.Refiled directory mid) (h' : mid.Refiled directory later) :
    tree.Refiled directory later := by
  intro path
  rcases h path with hsame | ⟨hpre, htree, hmid⟩
  · have hlater := h' path
    rwa [hsame] at hlater
  · rcases h' path with hsame | ⟨-, -, hlater⟩
    · rw [← hsame] at hmid
      exact .inr ⟨hpre, htree, hmid⟩
    · exact .inr ⟨hpre, htree, hlater⟩

end Tree.Refiled

section

variable {tree later : Tree} {start home : Path} {steps : List String}
  {temporary name : String} {directory : Route} {content : List UInt8}

theorem Tree.refiled_of_touches (h : Inside tree start steps home []) (hname : Tree.IsName name)
    (htouches : tree.Touches ⟨start, steps ++ ([] ++ [name])⟩ later) :
    tree.Refiled home later := by
  cases htouches with
  | same => exact .refl home tree
  | put content hreach hget =>
      cases hreach.symm.trans (h.reach hname (Tree.reach_eq_ok_iff.mp hreach).1)
      intro path
      by_cases hpath : path = home ++ [] ++ [name]
      · subst hpath
        rw [Tree.get?_put_self Inside.ne_nil]
        refine .inr ⟨?_, hget, nofun⟩
        rw [List.append_nil]
        exact List.prefix_append _ _
      · exact .inl (Tree.get?_put_of_ne Inside.ne_nil hpath)

theorem Inside.renamed (h : Inside tree start steps home []) (hsource : Tree.IsName temporary)
    (htarget : Tree.IsName name) :
    Inside (renameFile ⟨start, steps ++ ([] ++ [temporary])⟩ ⟨start, steps ++ ([] ++ [name])⟩
        tree).2 start steps home [] ∧
      tree.Refiled home (renameFile ⟨start, steps ++ ([] ++ [temporary])⟩
        ⟨start, steps ++ ([] ++ [name])⟩ tree).2 := by
  rcases hrun : renameFile ⟨start, steps ++ ([] ++ [temporary])⟩
    ⟨start, steps ++ ([] ++ [name])⟩ tree with ⟨result, later⟩
  rcases run_renameFile_cases hrun with
    ⟨_, _, rfl⟩ | ⟨-, old, new, content, hfind, hold, hnew, hvacant, rfl⟩
  · exact ⟨h, .refl home later⟩
  · rcases Tree.find_eq_ok_iff.mp hfind with ⟨_, hold', hfile⟩
    cases hold.symm.trans hold'
    cases hold.symm.trans (h.reach hsource (Tree.reach_eq_ok_iff.mp hold).1)
    cases hnew.symm.trans (h.reach htarget (Tree.reach_eq_ok_iff.mp hnew).1)
    have hgone := h.without_file hfile
    have hget : forall path, (tree.without (home ++ [] ++ [temporary])).get? path =
        if path = home ++ [] ++ [temporary] then none else tree.get? path :=
      fun path => h.sound.get?_without_file hfile
    have hvacated : (tree.without (home ++ [] ++ [temporary])).get? (home ++ [] ++ [name]) ≠
        some .directory := by
      rw [hget]
      split_ifs
      · nofun
      · exact hvacant
    refine ⟨hgone.put_file hvacated content, fun path => ?_⟩
    have hbelow : forall last : String, home <+: home ++ [] ++ [last] := by
      intro last
      rw [List.append_nil]
      exact List.prefix_append _ _
    rw [Tree.get?_put Inside.ne_nil, hget]
    split_ifs with hpath hgone
    · subst hpath
      exact .inr ⟨hbelow name, hvacant, nofun⟩
    · subst hgone
      exact .inr ⟨hbelow temporary, by rw [hfile]; nofun, nofun⟩
    · exact .inl rfl

theorem Inside.forM_refiled {rest : List SaveStep}
    (hsteps : forall step, step ∈ rest -> forall mid : Tree, Inside mid start steps home [] ->
      Inside (step.run mid).2 start steps home [] ∧ mid.Refiled home (step.run mid).2)
    (h : Inside tree start steps home []) :
    Inside ((rest.forM SaveStep.run) tree).2 start steps home [] ∧
      tree.Refiled home ((rest.forM SaveStep.run) tree).2 := by
  induction rest generalizing tree with
  | nil => exact ⟨h, .refl home tree⟩
  | cons step rest ih =>
      rcases List.forall_mem_cons.mp hsteps with ⟨hstep, hrest⟩
      rcases hstep tree h with ⟨hmid, hfirst⟩
      rcases hrun : step.run tree with ⟨error | value, mid⟩
      · have hall : ((step :: rest).forM SaveStep.run) tree = _ := run_bind_error hrun
        rw [hrun] at hmid hfirst
        rw [hall]
        exact ⟨hmid, hfirst⟩
      · have hall : ((step :: rest).forM SaveStep.run) tree = _ := run_bind_ok hrun
        rw [hrun] at hmid hfirst
        rw [hall]
        rcases ih hrest hmid with ⟨hlater, hlast⟩
        exact ⟨hlater, hfirst.trans hlast⟩

/-- Writing a file in a directory, whether all goes well or not, makes directories on the way to
it, and then changes files in it only. -/
theorem refiled_of_saved (hplace : Place directory temporary name) (hs : tree.Sound)
    (hstart : tree.get? directory.start = some .directory) (content : List UInt8) :
    tree.GrowsAlong directory.start directory.steps
        (((saveSteps directory temporary name content).forM SaveStep.run) tree).2 ∨
      exists made home, tree.GrowsAlong directory.start directory.steps made ∧
        Inside made directory.start directory.steps home [] ∧
        made.Refiled home
          (((saveSteps directory temporary name content).forM SaveStep.run) tree).2 ∧
        (((saveSteps directory temporary name content).forM SaveStep.run) tree).2.Sound := by
  rcases hmake : SaveStep.run (.makeDirectories directory) tree with ⟨error | value, made⟩
  · have hall : ((saveSteps directory temporary name content).forM SaveStep.run) tree = _ :=
      run_bind_error hmake
    rw [hall]
    exact .inl (growsAlong_of_made hmake)
  · have hall : ((saveSteps directory temporary name content).forM SaveStep.run) tree = _ :=
      run_bind_ok hmake
    rw [hall]
    rcases inside_of_made hs hstart hmake with ⟨home, hmade⟩
    have hwrites := writes_temporarySteps (directory.child temporary) content
    have hrest : forall step, step ∈ temporarySteps (directory.child temporary) content ++
        [SaveStep.rename (directory.child temporary) (directory.child name)] ->
        forall mid : Tree, Inside mid directory.start directory.steps home [] ->
          Inside (step.run mid).2 directory.start directory.steps home [] ∧
            mid.Refiled home (step.run mid).2 := by
      rw [hplace.child, hplace.child] at *
      intro step hstep mid hmid
      rcases List.mem_append.mp hstep with hwrite | hlast
      · have htouches := (hwrites step hwrite).touches_run mid
        exact ⟨(hmid.touches hplace.name_temporary htouches).1,
          Tree.refiled_of_touches hmid hplace.name_temporary htouches⟩
      · cases List.mem_singleton.mp hlast
        exact hmid.renamed hplace.name_temporary hplace.name_target
    rcases hmade.forM_refiled hrest with ⟨hlater, hrefiled⟩
    exact .inr ⟨made, home, growsAlong_of_made hmake, hmade, hrefiled, hlater.sound⟩

end

/-!
## Beside some names
-/

/-- Below the end of some steps, two trees are alike beside the place of some names: they differ
only on the way to this place, and at and below it, and other names that lead down find the same,
but for a directory that was made. -/
structure Tree.Beside (tree later : Tree) (start : Path) (steps names : List String) : Prop where
  sound : later.Sound
  kept : forall path, ¬ Route.place start steps ++ names <+: path ->
    ¬ path <+: Route.place start steps ++ names -> later.get? path = tree.get? path
  finds : forall others, others ≠ [] -> (forall name, name ∈ others -> Route.GoesDown name) ->
    ¬ names <+: others -> tree.Descends start (steps ++ others) ->
    later.find ⟨start, steps ++ others⟩ = tree.find ⟨start, steps ++ others⟩ ∨
      tree.find ⟨start, steps ++ others⟩ = .error .notFound ∧
        later.find ⟨start, steps ++ others⟩ = .ok .directory

section

variable {tree made later : Tree} {start : Path} {steps names others : List String}

theorem Route.not_below_place (hothers : forall name, name ∈ others -> Route.GoesDown name)
    (hapart : ¬ names <+: others) {part : List String} (hpart : part <+: others) :
    ¬ Route.place start steps ++ names <+: Route.place start (steps ++ part) := by
  rw [Route.place_append, Route.place_names fun name hname => hothers name (hpart.subset hname),
    List.prefix_append_right_inj]
  exact fun hpre => hapart (hpre.trans hpart)

theorem Tree.Refiled.find_eq (hrefiled : made.Refiled (Route.place start steps ++ names) later)
    (hinside : Inside made start (steps ++ names) (Route.place start steps ++ names) [])
    (hne : names ≠ []) (hothers : forall name, name ∈ others -> Route.GoesDown name)
    (hapart : ¬ names <+: others) :
    later.find ⟨start, steps ++ others⟩ = made.find ⟨start, steps ++ others⟩ := by
  refine Tree.find_congr fun front path hfront hfollow => ?_
  rcases hrefiled path with hsame | ⟨hbelow, hnot, -⟩
  · exact hsame
  · exfalso
    rcases Route.front_cases hfront with ⟨rest, rfl⟩ | ⟨part, hpart, rfl⟩
    · -- the way to the directory goes through the base
      have hway := hinside.leads.follows
      rw [List.append_assoc] at hway
      exact hnot (Tree.directory_on_way hinside.sound hinside.leads.at_start
        (List.append_ne_nil_of_right_ne_nil rest hne) hfollow hway)
    · rw [Tree.place_of_follow hfollow] at hbelow
      exact Route.not_below_place hothers hapart hpart hbelow

section

variable (hs : tree.Sound) (hstart : tree.get? start = some .directory)
  (hnames : forall name, name ∈ names -> Route.GoesDown name)

include hs hstart hnames

theorem Tree.GrowsAlong.beside (h : tree.GrowsAlong start (steps ++ names) later)
    (hdown : tree.Descends start steps) : tree.Beside later start steps names where
  sound := (h.grows hs hstart).sound hs
  kept := by
    intro path _ hway
    rcases h.get?_above hs hstart hnames hdown path with hsame | ⟨-, -, habove⟩
    · exact hsame
    · exact absurd habove hway
  finds := by
    intro others hne hothers _ hdescends
    rcases (List.eq_nil_or_concat others).resolve_left hne with ⟨front, last, rfl⟩
    rw [List.concat_eq_append, ← List.append_assoc] at hdescends ⊢
    exact (h.grows hs hstart).find_cases hs hstart (hothers last (by simp)).1 hdescends

theorem Tree.Refiled.beside (hrefiled : made.Refiled (Route.place start steps ++ names) later)
    (hgrows : tree.GrowsAlong start (steps ++ names) made)
    (hinside : Inside made start (steps ++ names) (Route.place start steps ++ names) [])
    (hsound : later.Sound) (hne : names ≠ []) (hdown : tree.Descends start steps) :
    tree.Beside later start steps names where
  sound := hsound
  kept := by
    intro path hbelow hway
    rcases hrefiled path with hsame | ⟨hpre, -, -⟩
    · exact hsame.trans ((hgrows.beside hs hstart hnames hdown).kept path hbelow hway)
    · exact absurd hpre hbelow
  finds := by
    intro others hothers hgoes hapart hdescends
    rw [hrefiled.find_eq hinside hne hgoes hapart]
    exact (hgrows.beside hs hstart hnames hdown).finds others hothers hgoes hapart hdescends

end

theorem Tree.without_beside (hs : tree.Sound) (hne : names ≠ [])
    (havoids : forall front, front <+: steps ->
      ¬ Route.place start steps ++ names <+: Route.place start front) :
    tree.Beside (tree.without (Route.place start steps ++ names)) start steps names where
  sound := hs.without (List.append_ne_nil_of_right_ne_nil _ hne)
  kept := by
    intro path hbelow _
    rw [Tree.get?_without (List.append_ne_nil_of_right_ne_nil _ hne), if_neg hbelow]
  finds := by
    intro others _ hothers hapart _
    refine .inl (Tree.find_congr fun front path hfront hfollow => ?_)
    rw [Tree.get?_without (List.append_ne_nil_of_right_ne_nil _ hne), if_neg]
    rw [Tree.place_of_follow hfollow]
    rcases Route.front_cases hfront with hpre | ⟨part, hpart, rfl⟩
    · exact havoids front hpre
    · exact Route.not_below_place hothers hapart hpart

end

end RenewalDrive
