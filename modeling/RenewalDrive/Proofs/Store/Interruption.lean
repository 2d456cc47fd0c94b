import RenewalDrive.Proofs.Store.Saving

/-!
# Interrupted writing

The steps of writing a file may be cut off anywhere, and any of them may fail, having done a
part of its work. As long as the last step, which moves the new file to its place, is not done,
the route to the file leads to what stood there before: the directories on the way hold nothing
yet when they are made, and what happens in the directory itself happens to the temporary file.
-/

namespace RenewalDrive

open FileAct

/-!
## Attempts at some steps
-/

/-- What a step may leave behind when it does not come to its end, or fails. Directories are
made one after the other, and a file is written byte by byte, but it is moved at once. -/
inductive SaveStep.Leaves : SaveStep -> Tree -> Tree -> Prop
  | untouched (step : SaveStep) (tree : Tree) : Leaves step tree tree
  | directories {route : Route} {tree later : Tree} :
      tree.GrowsAlong route.start route.steps later ->
      Leaves (.makeDirectories route) tree later
  | created (route : Route) (tree : Tree) :
      Leaves (.create route) tree (createFile route tree).2
  | appended (route : Route) (tree : Tree) {bytes part : List UInt8} :
      part <+: bytes ->
      Leaves (.append route bytes) tree (appendBytes route part tree).2

inductive Ending where
  | done
  | failed (error : FileError)
  | silent

/-- The attempts at some steps. They may be cut off before, within or behind each step, and each
step may fail with any error. -/
inductive Attempts (steps : List SaveStep) (tree : Tree) : Ending -> Tree -> Prop
  | done {later : Tree} :
      (steps.forM SaveStep.run) tree = (.ok (), later) ->
      Attempts steps tree .done later
  | unanswered {later : Tree} :
      (steps.forM SaveStep.run) tree = (.ok (), later) ->
      Attempts steps tree .silent later
  | stopped {ending : Ending} {before behind : List SaveStep} {step : SaveStep}
      {mid later : Tree} :
      ending ≠ .done ->
      steps = before ++ step :: behind ->
      (before.forM SaveStep.run) tree = (.ok (), mid) ->
      step.Leaves mid later ->
      Attempts steps tree ending later

/-- What is done of a step that counts as done. Of the bytes of a write that may be only a part,
if the file is silent about the others. -/
inductive SaveStep.Counts (silent : List UInt8 -> List UInt8 -> Prop) :
    SaveStep -> SaveStep -> Prop
  | whole (step : SaveStep) : Counts silent step step
  | short {route : Route} {bytes part : List UInt8} :
      silent bytes part ->
      Counts silent (.append route bytes) (.append route part)

def AttemptsWith (silent : List UInt8 -> List UInt8 -> Prop) (steps : List SaveStep) (tree : Tree)
    (ending : Ending) (later : Tree) : Prop :=
  exists counted, List.Forall₂ (SaveStep.Counts silent) steps counted ∧
    Attempts counted tree ending later

/-- A file hands its bytes over in pieces. It tells that a piece could not be written when it is
given the next one, or when it is flushed; so without a flush it is silent about the last piece,
of which any part may have been written. -/
def Unflushed (piece : Nat) (bytes part : List UInt8) : Prop :=
  part <+: bytes ∧ (bytes.length - 1) / piece * piece ≤ part.length

section

variable {tree mid later : Tree} {error : FileError} {step : SaveStep} {steps : List SaveStep}

theorem SaveStep.leaves_of_error (h : step.run tree = (.error error, later)) :
    step.Leaves tree later := by
  cases step with
  | makeDirectories route =>
      have hgrows := growsAlong_makeDirectoriesUp route.start route.steps.reverse tree
      rw [List.reverse_reverse] at hgrows
      change makeDirectoriesUp route.start route.steps.reverse tree = _ at h
      rw [h] at hgrows
      exact .directories hgrows
  | create route =>
      have hleaves := SaveStep.Leaves.created route tree
      change createFile route tree = _ at h
      rw [h] at hleaves
      exact hleaves
  | append route bytes =>
      have hleaves := SaveStep.Leaves.appended route tree (List.prefix_refl bytes)
      change appendBytes route bytes tree = _ at h
      rw [h] at hleaves
      exact hleaves
  | sync route =>
      have hsame := run_readBytes_snd route tree
      rcases hread : readBytes route tree with ⟨failure | content, mid⟩
      · have hrun : SaveStep.run (.sync route) tree = _ := run_bind_error hread
        cases hrun.symm.trans h
        rw [hread] at hsame
        cases hsame
        exact .untouched _ _
      · have hrun : SaveStep.run (.sync route) tree = _ := run_bind_ok hread
        cases hrun.symm.trans h
  | rename source target =>
      rcases run_renameFile_cases h with ⟨_, _, rfl⟩ | ⟨hdone, _⟩
      · exact .untouched _ _
      · cases hdone

theorem attempts_of_error (h : (steps.forM SaveStep.run) tree = (.error error, later)) :
    Attempts steps tree (.failed error) later := by
  suffices hstopped : exists before step behind mid, steps = before ++ step :: behind ∧
      (before.forM SaveStep.run) tree = (.ok (), mid) ∧ step.Leaves mid later by
    rcases hstopped with ⟨before, step, behind, mid, hsteps, hbefore, hleaves⟩
    exact .stopped nofun hsteps hbefore hleaves
  induction steps generalizing tree with
  | nil => cases h
  | cons step rest ih =>
      rcases hrun : step.run tree with ⟨failure | value, mid⟩
      · cases (run_bind_error hrun).symm.trans h
        exact ⟨[], step, rest, tree, rfl, rfl, step.leaves_of_error hrun⟩
      · rcases ih ((run_bind_ok hrun).symm.trans h) with
          ⟨before, other, behind, late, rfl, hbefore, hleaves⟩
        exact ⟨step :: before, other, behind, late, rfl, (run_bind_ok hrun).trans hbefore, hleaves⟩

end

section

variable {silent : List UInt8 -> List UInt8 -> Prop} {directory : Route} {temporary name : String}
  {content part : List UInt8} {counted : List SaveStep} {tree later : Tree} {ending : Ending}

/-- Whatever the file is silent about, a writing is done as one of what was written. -/
theorem counted_cases
    (h : List.Forall₂ (SaveStep.Counts silent) (saveSteps directory temporary name content)
      counted) :
    exists written, (written = content ∨ silent content written) ∧
      counted = saveSteps directory temporary name written := by
  rcases h with - | ⟨hmake, - | ⟨hcreate, - | ⟨happend, - | ⟨hsync, - | ⟨hrename, hnil⟩⟩⟩⟩⟩
  cases hmake
  cases hcreate
  cases hsync
  cases hrename
  cases hnil
  cases happend with
  | whole _ => exact ⟨content, .inl rfl, rfl⟩
  | short hsilent => exact ⟨_, .inr hsilent, rfl⟩

theorem attemptsWith_of_silent (hsilent : silent content part)
    (h : Attempts (saveSteps directory temporary name part) tree ending later) :
    AttemptsWith silent (saveSteps directory temporary name content) tree ending later := by
  refine ⟨_, ?_, h⟩
  exact .cons (.whole _) (.cons (.whole _) (.cons (.short hsilent) (.cons (.whole _)
    (.cons (.whole _) .nil))))

theorem attemptsWith_of_attempts {steps : List SaveStep} (h : Attempts steps tree ending later) :
    AttemptsWith silent steps tree ending later :=
  ⟨steps, List.forall₂_same.mpr fun step _ => .whole step, h⟩

end

/-!
## Ways that lead down
-/

namespace Tree

variable {tree later : Tree} {start here path : Path} {steps front rest : List String}
  {name : String} {error : FileError} {route : Route}

/-- Behind a directory that is missing, some steps lead on by names that a file system takes. -/
def Descends (tree : Tree) (start : Path) (steps : List String) : Prop :=
  forall front rest, steps = front ++ rest -> Missing tree start front ->
    forall step, step ∈ rest -> Route.isIdle step = true ∨ IsName step

theorem find_of_fault (h : route.fault? = some error) : tree.find route = .error error := by
  simp [find, reach, h, bind, Except.bind]

theorem find_of_missing_steps (hfault : route.fault? = none)
    (h : Missing tree route.start route.steps) : tree.find route = .error .notFound := by
  rcases h with hfollow | ⟨path, hfollow, hget⟩
  · simp [find, reach, hfault, hfollow, bind, Except.bind]
  · exact find_of_none (reach_eq_ok_iff.mpr ⟨hfault, hfollow⟩) hget

theorem follow_error_mono
    (h : forall path node, tree.get? path = some node -> later.get? path = some node)
    (hfollow : tree.follow here steps = .error error) (hne : error ≠ .notFound) :
    later.follow here steps = .error error := by
  induction steps generalizing here with
  | nil => cases hfollow
  | cons step rest ih =>
      simp only [follow] at hfollow ⊢
      split_ifs at hfollow ⊢ with hidle hup hlong hlast
      · exact ih hfollow
      · exact ih hfollow
      · exact hfollow
      · rcases hget : tree.get? (here ++ [step]) with _ | _ | content
        · rw [hget] at hfollow
          cases hfollow
          exact absurd rfl hne
        · rw [hget] at hfollow
          rw [h _ _ hget]
          exact ih hfollow
        · rw [hget] at hfollow
          rw [h _ _ hget]
          exact hfollow

theorem missing_of_grows (hgrows : tree.Grows later) (h : Missing later start steps) :
    Missing tree start steps := by
  cases hfollow : tree.follow start steps with
  | error error =>
      by_cases hne : error = .notFound
      · exact .inl (by rw [hfollow, hne])
      · have hlater := follow_error_mono (fun _ _ hget => hgrows.get? hget) hfollow hne
        rcases h with h | ⟨path, h, -⟩
        · cases hlater.symm.trans h
          exact absurd rfl hne
        · cases hlater.symm.trans h
  | ok path =>
      cases hget : tree.get? path with
      | none => exact .inr ⟨path, hfollow, hget⟩
      | some node =>
          have hlater := follow_mono (fun _ hpath => hgrows.get? hpath) hfollow
          rcases h with h | ⟨other, h, hother⟩
          · cases hlater.symm.trans h
          · cases hlater.symm.trans h
            cases hother.symm.trans (hgrows.get? hget)

theorem Descends.grows (h : tree.Descends start steps) (hgrows : tree.Grows later) :
    later.Descends start steps :=
  fun front rest hsteps hmissing => h front rest hsteps (missing_of_grows hgrows hmissing)

theorem missing_in_bare
    (hsteps : forall step, step ∈ steps -> Route.isIdle step = true ∨ IsName step)
    (hname : IsName name) (hbare : forall other, tree.get? (here ++ [other]) = none) :
    Missing tree here (steps ++ [name]) := by
  induction steps with
  | nil => exact .inr ⟨_, follow_name hname, hbare name⟩
  | cons step rest ih =>
      rcases List.forall_mem_cons.mp hsteps with ⟨hidle | hstep, hrest⟩
      · have hskip : tree.follow here (step :: rest ++ [name]) =
            tree.follow here (rest ++ [name]) := by
          rw [List.cons_append, follow, if_pos hidle]
        unfold Missing
        rw [hskip]
        exact ih hrest
      · refine .inl ?_
        rw [List.cons_append, follow_names hstep (by simp), hbare]

theorem missing_append (hs : tree.Sound) (hstart : tree.get? start = some .directory)
    (hne : rest ≠ []) (hfollow : tree.follow start front = .ok path)
    (hget : tree.get? path = some .directory) (h : Missing tree path rest) :
    Missing tree start (front ++ rest) := by
  unfold Missing at h ⊢
  simpa only [follow_append hs hstart hne, hfollow, hget] using h

theorem GrowsAlong.find_eq (h : tree.GrowsAlong start steps later) (hs : tree.Sound)
    (hstart : tree.get? start = some .directory) (hname : IsName name)
    (hdown : tree.find ⟨start, steps ++ [name]⟩ = .error .notFound -> tree.Descends start steps) :
    later.find ⟨start, steps ++ [name]⟩ = tree.find ⟨start, steps ++ [name]⟩ := by
  cases hfault : Route.fault? ⟨start, steps ++ [name]⟩ with
  | some error => rw [find_of_fault hfault, find_of_fault hfault]
  | none =>
      induction h with
      | refl tree => rfl
      | @step tree later front path within leads missing _ ih =>
          rcases within with ⟨rest, rfl⟩
          have hgrows : tree.Grows (tree.put path .directory) :=
            (GrowsAlong.step (List.prefix_refl _) leads missing (.refl _)).grows hs hstart
          have hsLater := hgrows.sound hs
          have hbefore : Missing tree start (front ++ rest ++ [name]) := by
            refine .inl ?_
            rw [List.append_assoc, follow_append hs hstart (by simp), leads]
            simp only [missing]
          replace hdown := hdown (find_of_missing_steps hfault hbefore)
          have hbehind := hdown front rest rfl (.inr ⟨path, leads, missing⟩)
          have hroot := ne_nil_of_missing missing
          have hbare : forall other, (tree.put path .directory).get? (path ++ [other]) = none := by
            intro other
            rw [get?_put_of_ne hroot (by simp)]
            exact hs.none_of_prefix missing (List.prefix_append _ _)
          have hafter : Missing (tree.put path .directory) start (front ++ rest ++ [name]) := by
            rw [List.append_assoc]
            exact missing_append hsLater (hgrows.get? hstart) (by simp)
              (follow_mono (fun _ hpath => hgrows.get? hpath) leads) (get?_put_self hroot)
              (missing_in_bare hbehind hname hbare)
          rw [ih hsLater (hgrows.get? hstart) fun _ => hdown.grows hgrows,
            find_of_missing_steps hfault hafter, find_of_missing_steps hfault hbefore]

end Tree

/-!
## In the directory
-/

inductive Tree.Touches (route : Route) (tree : Tree) : Tree -> Prop
  | same : Touches route tree tree
  | put {path : Path} (content : List UInt8) :
      tree.reach route = .ok path ->
      tree.get? path ≠ some .directory ->
      Touches route tree (tree.put path (.file content))

/-- The step is about the file at the end of a route alone. -/
def SaveStep.Writes (route : Route) : SaveStep -> Prop
  | .create target => target = route
  | .append target _ => target = route
  | .sync target => target = route
  | _ => False

section

variable {tree later : Tree} {route : Route} {step : SaveStep} {taken : List SaveStep}
  {start home : Path} {steps names : List String} {temporary name : String}

theorem touches_createFile (route : Route) (tree : Tree) :
    tree.Touches route (createFile route tree).2 := by
  rw [run_createFile]
  cases hreach : tree.reach route with
  | error error => exact .same
  | ok path =>
      dsimp only
      rcases hget : tree.get? path with _ | _ | content
      · exact .put [] hreach (by rw [hget]; nofun)
      · exact .same
      · exact .put [] hreach (by rw [hget]; nofun)

theorem touches_appendBytes (route : Route) (bytes : List UInt8) (tree : Tree) :
    tree.Touches route (appendBytes route bytes tree).2 := by
  cases hreach : tree.reach route with
  | error error =>
      have hrun : appendBytes route bytes tree = _ := run_bind_error (by rw [run_reach, hreach])
      rw [hrun]
      exact .same
  | ok path =>
      have hrun : appendBytes route bytes tree = _ := run_bind_ok (by rw [run_reach, hreach])
      rcases hfind : tree.find route with error | _ | content
      · rw [hrun, run_bind_error (by rw [run_readBytes, hfind])]
        exact .same
      · rw [hrun, run_bind_error (by rw [run_readBytes, hfind])]
        exact .same
      · rw [run_appendBytes bytes hreach hfind]
        refine .put _ hreach ?_
        rcases Tree.find_eq_ok_iff.mp hfind with ⟨other, hother, hget⟩
        cases hreach.symm.trans hother
        rw [hget]
        nofun

theorem SaveStep.Leaves.touches (h : step.Leaves tree later) (hstep : step.Writes route) :
    tree.Touches route later := by
  cases h with
  | untouched _ _ => exact .same
  | directories _ => cases hstep
  | created target _ =>
      cases hstep
      exact touches_createFile route tree
  | appended target _ _ =>
      cases hstep
      exact touches_appendBytes route _ tree

theorem SaveStep.Writes.touches_run (hstep : step.Writes route) (tree : Tree) :
    tree.Touches route (step.run tree).2 := by
  cases step with
  | create target =>
      cases hstep
      exact touches_createFile route tree
  | append target bytes =>
      cases hstep
      exact touches_appendBytes route bytes tree
  | sync target =>
      have hsame := run_readBytes_snd target tree
      rcases hread : readBytes target tree with ⟨error | content, mid⟩
      · rw [hread] at hsame
        have hrun : SaveStep.run (.sync target) tree = _ := run_bind_error hread
        rw [hrun, hsame]
        exact .same
      · rw [hread] at hsame
        have hrun : SaveStep.run (.sync target) tree = _ := run_bind_ok hread
        rw [hrun]
        cases hsame
        exact .same
  | makeDirectories _ => cases hstep
  | rename _ _ => cases hstep

theorem SaveStep.Writes.touches (hstep : step.Writes route)
    (hrun : step.run tree = (.ok (), later)) : tree.Touches route later := by
  have htouches := hstep.touches_run tree
  rwa [hrun] at htouches

namespace Inside

theorem touches (h : Inside tree start steps home names) (hname : Tree.IsName name)
    (htouches : tree.Touches ⟨start, steps ++ (names ++ [name])⟩ later) :
    Inside later start steps home names ∧
      forall path, path ≠ home ++ names ++ [name] -> later.get? path = tree.get? path := by
  cases htouches with
  | same => exact ⟨h, fun _ _ => rfl⟩
  | put content hreach hget =>
      cases hreach.symm.trans (h.reach hname (Tree.reach_eq_ok_iff.mp hreach).1)
      exact ⟨h.put_file hget content, fun path hpath => Tree.get?_put_of_ne ne_nil hpath⟩

theorem writes (h : Inside tree start steps home names) (hname : Tree.IsName name)
    (htaken : forall step, step ∈ taken -> step.Writes ⟨start, steps ++ (names ++ [name])⟩)
    (hrun : (taken.forM SaveStep.run) tree = (.ok (), later)) :
    Inside later start steps home names ∧
      forall path, path ≠ home ++ names ++ [name] -> later.get? path = tree.get? path := by
  induction taken generalizing tree with
  | nil =>
      cases hrun
      exact ⟨h, fun _ _ => rfl⟩
  | cons step rest ih =>
      rcases List.forall_mem_cons.mp htaken with ⟨hstep, hrest⟩
      rcases hone : step.run tree with ⟨error | value, mid⟩
      · cases (run_bind_error hone).symm.trans hrun
      · rcases h.touches hname (hstep.touches hone) with ⟨hmid, hfirst⟩
        rcases ih hmid hrest ((run_bind_ok hone).symm.trans hrun) with ⟨hlater, hlast⟩
        exact ⟨hlater, fun path hpath => (hlast path hpath).trans (hfirst path hpath)⟩

theorem find_congr (h : Inside tree start steps home names)
    (hlater : Inside later start steps home names) (hname : Tree.IsName name)
    (hget : later.get? (home ++ names ++ [name]) = tree.get? (home ++ names ++ [name])) :
    later.find ⟨start, steps ++ (names ++ [name])⟩ =
      tree.find ⟨start, steps ++ (names ++ [name])⟩ := by
  cases hfault : Route.fault? ⟨start, steps ++ (names ++ [name])⟩ with
  | some error => rw [Tree.find_of_fault hfault, Tree.find_of_fault hfault]
  | none =>
      simp only [Tree.find, bind, Except.bind, h.reach hname hfault, hlater.reach hname hfault,
        hget]

end Inside

end

/-!
## Attempts at writing a file
-/

structure Place (directory : Route) (temporary name : String) : Prop where
  child : forall last, directory.child last = ⟨directory.start, directory.steps ++ [last]⟩
  distinct : temporary ≠ name
  name_temporary : Tree.IsName temporary
  name_target : Tree.IsName name

theorem Place.other {directory : Route} {temporary name : String}
    (h : Place directory temporary name) (home : Path) :
    home ++ [] ++ [name] ≠ home ++ [] ++ [temporary] := by
  intro heq
  exact h.distinct (List.singleton_inj.mp (List.append_cancel_left heq)).symm

section

variable {tree mid later made : Tree} {directory : Route} {temporary name : String}
  {content : List UInt8}

theorem growsAlong_of_made {result : Except FileError Unit}
    (hmake : SaveStep.run (.makeDirectories directory) tree = (result, made)) :
    tree.GrowsAlong directory.start directory.steps made := by
  have hgrows := growsAlong_makeDirectoriesUp directory.start directory.steps.reverse tree
  change makeDirectoriesUp directory.start directory.steps.reverse tree = _ at hmake
  rwa [List.reverse_reverse, hmake] at hgrows

theorem inside_of_made (hs : tree.Sound) (hstart : tree.get? directory.start = some .directory)
    (hmake : SaveStep.run (.makeDirectories directory) tree = (.ok (), made)) :
    exists home, Inside made directory.start directory.steps home [] := by
  have hgrows := (growsAlong_of_made hmake).grows hs hstart
  rcases arrives_of_makeDirectoriesUp hs hstart hmake with ⟨home, hfollow, hhome⟩
  rw [List.reverse_reverse] at hfollow
  refine ⟨home, hgrows.sound hs, ⟨hgrows.get? hstart, hfollow, hhome⟩, nofun, ?_⟩
  rw [List.append_nil]
  exact hhome

def temporarySteps (route : Route) (content : List UInt8) : List SaveStep :=
  [.create route, .append route content, .sync route]

theorem writes_temporarySteps (route : Route) (content : List UInt8) :
    forall step, step ∈ temporarySteps route content -> step.Writes route := by
  simp [temporarySteps, SaveStep.Writes]

theorem stop_cases {steps before behind : List SaveStep} {last step : SaveStep}
    (h : steps ++ [last] = before ++ step :: behind) :
    before = steps ∧ step = last ∨ exists more, steps = before ++ step :: more := by
  rcases List.append_eq_append_iff.mp h with ⟨more, rfl, hlast⟩ | ⟨more, rfl, hlast⟩
  · rcases List.append_eq_singleton_iff.mp hlast.symm with ⟨rfl, hstep⟩ | ⟨_, hstep⟩
    · cases hstep
      exact .inl ⟨List.append_nil _, rfl⟩
    · cases hstep
  · rcases more with _ | ⟨first, more⟩
    · cases hlast
      exact .inl ⟨(List.append_nil _).symm, rfl⟩
    · cases hlast
      exact .inr ⟨more, rfl⟩

/-- A writing that stops anywhere leaves what its route leads to as it was. -/
theorem find_of_stopped (hplace : Place directory temporary name) (hs : tree.Sound)
    (hstart : tree.get? directory.start = some .directory)
    (hdown : tree.find (directory.child name) = .error .notFound ->
      tree.Descends directory.start directory.steps)
    {before behind : List SaveStep} {step : SaveStep}
    (hsteps : saveSteps directory temporary name content = before ++ step :: behind)
    (hbefore : (before.forM SaveStep.run) tree = (.ok (), mid)) (hleaves : step.Leaves mid later) :
    later.Sound ∧ later.get? directory.start = some .directory ∧
      later.find (directory.child name) = tree.find (directory.child name) := by
  rw [hplace.child] at hdown ⊢
  have hgrown : forall {grown : Tree}, tree.GrowsAlong directory.start directory.steps grown ->
      grown.Sound ∧ grown.get? directory.start = some .directory ∧
        grown.find ⟨directory.start, directory.steps ++ [name]⟩ =
          tree.find ⟨directory.start, directory.steps ++ [name]⟩ := by
    intro grown hgrows
    have hmore := hgrows.grows hs hstart
    exact ⟨hmore.sound hs, hmore.get? hstart,
      hgrows.find_eq hs hstart hplace.name_target hdown⟩
  cases before with
  | nil =>
      -- it stops while the directories are made
      cases hsteps
      cases hbefore
      cases hleaves with
      | untouched _ _ => exact hgrown (.refl tree)
      | directories hgrows => exact hgrown hgrows
  | cons first taken =>
      rcases List.cons.inj hsteps with ⟨rfl, hrest⟩
      rcases hmake : SaveStep.run (.makeDirectories directory) tree with ⟨error | value, made⟩
      · cases (run_bind_error hmake).symm.trans hbefore
      · rcases hgrown (growsAlong_of_made hmake) with ⟨_, _, hfind⟩
        rcases inside_of_made hs hstart hmake with ⟨home, hmade⟩
        have htaken : (taken.forM SaveStep.run) made = (.ok (), mid) :=
          (run_bind_ok hmake).symm.trans hbefore
        have hchild := hplace.child temporary
        change temporarySteps (directory.child temporary) content ++ [_] = _ at hrest
        rw [hchild] at hrest
        have hwrites := writes_temporarySteps
          ⟨directory.start, directory.steps ++ [temporary]⟩ content
        have hreaches : Inside later directory.start directory.steps home [] ∧
            forall path, path ≠ home ++ [] ++ [temporary] -> later.get? path = made.get? path := by
          rcases stop_cases hrest with ⟨rfl, rfl⟩ | ⟨more, hmore⟩
          · cases hleaves
            exact hmade.writes hplace.name_temporary hwrites htaken
          · rw [hmore] at hwrites
            rcases List.forall_mem_append.mp hwrites with ⟨hdone, hbehind⟩
            rcases hmade.writes hplace.name_temporary hdone htaken with ⟨hmid, hfirst⟩
            rcases hmid.touches hplace.name_temporary
              (hleaves.touches (List.forall_mem_cons.mp hbehind).1) with ⟨hlater, hlast⟩
            exact ⟨hlater, fun path hpath => (hlast path hpath).trans (hfirst path hpath)⟩
        rcases hreaches with ⟨hlater, hkept⟩
        have hsame := hmade.find_congr hlater hplace.name_target (hkept _ (hplace.other home))
        exact ⟨hlater.sound, hlater.leads.at_start, hsame.trans hfind⟩

theorem createFile_ok {route : Route} (h : createFile route tree = (.ok (), later)) :
    exists path, tree.reach route = .ok path ∧ tree.get? path ≠ some .directory := by
  rw [run_createFile] at h
  cases hreach : tree.reach route with
  | error error =>
      rw [hreach] at h
      cases h
  | ok path =>
      refine ⟨path, rfl, ?_⟩
      intro hget
      simp only [hreach, hget] at h
      cases h

theorem writable_of_done (hplace : Place directory temporary name) {home : Path}
    (h : Inside tree directory.start directory.steps home [])
    (hcreate : (createFile (directory.child temporary) tree).1 = .ok ())
    (hrun : ((temporarySteps (directory.child temporary) content ++
      [SaveStep.rename (directory.child temporary) (directory.child name)]).forM
        SaveStep.run) tree =
        (.ok (), later)) :
    Writable tree (home ++ []) temporary name ∧ (directory.child name).fault? = none ∧
      (directory.child temporary).fault? = none := by
  rw [hplace.child, hplace.child] at *
  rcases createFile_ok (Prod.ext hcreate rfl) with ⟨path, hreach, hfree⟩
  have hfault := (Tree.reach_eq_ok_iff.mp hreach).1
  cases hreach.symm.trans (h.reach hplace.name_temporary hfault)
  replace hrun := (congrFun List.forM_append tree).symm.trans hrun
  rcases hwrite : ((temporarySteps ⟨directory.start, directory.steps ++ [temporary]⟩
    content).forM SaveStep.run) tree with ⟨error | value, filled⟩
  · cases (run_bind_error hwrite).symm.trans hrun
  · rcases h.writes hplace.name_temporary (writes_temporarySteps _ content) hwrite with
      ⟨hfilled, hkept⟩
    replace hrun := (run_bind_ok hwrite).symm.trans hrun
    rcases hmove : renameFile ⟨directory.start, directory.steps ++ [temporary]⟩
      ⟨directory.start, directory.steps ++ [name]⟩ filled with ⟨error | value, moved⟩
    · cases (run_bind_error hmove).symm.trans hrun
    · rcases (run_renameFile_cases hmove).resolve_left nofun with
        ⟨_, _, target, _, _, _, htarget, hvacant, _⟩
      have hfault' := (Tree.reach_eq_ok_iff.mp htarget).1
      cases htarget.symm.trans (hfilled.reach hplace.name_target hfault')
      rw [hkept _ (hplace.other home)] at hvacant
      exact ⟨⟨hplace.distinct, hplace.name_temporary, hplace.name_target, hfree, hvacant⟩, hfault',
        hfault⟩

theorem written_of_written (hplace : Place directory temporary name) (hs : tree.Sound)
    (hstart : tree.get? directory.start = some .directory)
    (hrun : ((saveSteps directory temporary name content).forM SaveStep.run) tree =
      (.ok (), later)) (other : List UInt8) :
    exists written,
      ((saveSteps directory temporary name other).forM SaveStep.run) tree = (.ok (), written) ∧
      written.Sound ∧ written.get? directory.start = some .directory ∧
      written.find (directory.child name) = .ok (.file other) := by
  rcases hmake : SaveStep.run (.makeDirectories directory) tree with ⟨error | value, made⟩
  · cases (run_bind_error hmake).symm.trans hrun
  · rcases inside_of_made hs hstart hmake with ⟨home, hmade⟩
    replace hrun := (run_bind_ok hmake).symm.trans hrun
    have hcreate : (createFile (directory.child temporary) made).1 = .ok () := by
      rcases hone : createFile (directory.child temporary) made with ⟨error | value, created⟩
      · cases (run_bind_error hone).symm.trans hrun
      · rfl
    rcases writable_of_done hplace hmade hcreate hrun with ⟨hwritable, hfault, hfault'⟩
    rw [hplace.child] at hfault hfault'
    rcases run_writing hmade hwritable hfault hfault' with ⟨written, hwritten, hsound, hget⟩
    have hkept : forall path, made.get? path = some .directory ->
        written.get? path = some .directory := by
      intro path hpath
      rw [hget, if_neg, if_neg]
      · exact hpath
      · rintro rfl
        exact hwritable.no_directory hpath
      · rintro rfl
        exact hwritable.no_directory_target hpath
    have hinside : Inside written directory.start directory.steps home [] :=
      ⟨hsound, hmade.leads.mono hkept, nofun, hkept _ hmade.at_end⟩
    refine ⟨written, (run_bind_ok hmake).trans ?_, hsound, hinside.leads.at_start, ?_⟩
    · rw [hplace.child, hplace.child]
      exact hwritten
    · rw [hplace.child]
      exact hinside.find hplace.name_target hfault (by rw [hget, if_pos rfl])

theorem find_of_written (hplace : Place directory temporary name) (hs : tree.Sound)
    (hstart : tree.get? directory.start = some .directory)
    (hrun : ((saveSteps directory temporary name content).forM SaveStep.run) tree =
      (.ok (), later)) :
    later.Sound ∧ later.get? directory.start = some .directory ∧
      later.find (directory.child name) = .ok (.file content) := by
  rcases written_of_written hplace hs hstart hrun content with ⟨written, hwritten, hfound⟩
  cases hwritten.symm.trans hrun
  exact hfound

end

end RenewalDrive
