import RenewalDrive.Proofs.Store.Interruption

/-!
# Where steps lead by themselves

Without links, steps lead to one place only, whatever stands there; a tree just decides how far
they get. What is made on the way to some names below a base lies on the way, and as long as the
way leads down behind what is missing, it lies straight above the names. So whoever goes another
way from the base meets what was met before.
-/

namespace RenewalDrive

open FileAct

namespace Route

variable {here : Path} {steps more front names others : List String} {name step : String}

def move (here : Path) (step : String) : Path :=
  if isIdle step then here else if step = ".." then here.dropLast else here ++ [step]

/-- Where steps lead, one after the other. -/
def place (here : Path) (steps : List String) : Path :=
  steps.foldl move here

def GoesDown (step : String) : Prop :=
  isIdle step = false ∧ step ≠ ".."

theorem move_of_goesDown (h : GoesDown step) : move here step = here ++ [step] := by
  simp [move, h.1, h.2]

theorem place_append : place here (steps ++ more) = place (place here steps) more :=
  List.foldl_append

theorem place_names (h : forall name, name ∈ names -> GoesDown name) :
    place here names = here ++ names := by
  induction names generalizing here with
  | nil => exact (List.append_nil here).symm
  | cons name rest ih =>
      rcases List.forall_mem_cons.mp h with ⟨hname, hrest⟩
      change place (move here name) rest = _
      rw [ih hrest, move_of_goesDown hname, List.append_assoc, List.singleton_append]

theorem prefix_place
    (h : forall step, step ∈ steps -> isIdle step = true ∨ Tree.IsName step) :
    here <+: place here steps := by
  induction steps generalizing here with
  | nil => exact List.prefix_refl here
  | cons step rest ih =>
      rcases List.forall_mem_cons.mp h with ⟨hstep, hrest⟩
      refine List.IsPrefix.trans ?_ (ih hrest)
      rcases hstep with hidle | hname
      · simp [move, hidle]
      · rw [move_of_goesDown ⟨hname.moves, hname.down⟩]
        exact List.prefix_append here [step]

theorem place_stem (route : Route) :
    place route.start route.stem = place route.start route.steps := by
  rcases route.steps_eq with hsteps | hsteps
  · rw [← hsteps]
  · rw [hsteps, place_append]
    rfl

theorem front_cases (h : front <+: steps ++ names) :
    front <+: steps ∨ exists part, part <+: names ∧ front = steps ++ part := by
  rcases List.prefix_or_prefix_of_prefix h (List.prefix_append steps names) with hpre | ⟨part, rfl⟩
  · exact .inl hpre
  · exact .inr ⟨part, (List.prefix_append_right_inj steps).mp h, rfl⟩

end Route

namespace Tree

variable {tree mid later : Tree} {here start path home : Path} {route : Route}
  {steps more front rest names others : List String} {name : String}

/-!
## The places on a way
-/

theorem place_of_follow (h : tree.follow here steps = .ok path) :
    path = Route.place here steps := by
  induction steps generalizing here with
  | nil =>
      cases h
      rfl
  | cons step rest ih =>
      change path = Route.place (Route.move here step) rest
      simp only [follow] at h
      split_ifs at h with hidle hup hlong hlast
      · rw [Route.move, if_pos hidle]
        exact ih h
      · rw [Route.move, if_neg hidle, if_pos hup]
        exact ih h
      · rw [Route.move, if_neg hidle, if_neg hup, hlast]
        cases h
        rfl
      · rw [Route.move, if_neg hidle, if_neg hup]
        cases hget : tree.get? (here ++ [step]) with
        | none =>
            rw [hget] at h
            cases h
        | some node =>
            rw [hget] at h
            cases node with
            | file content => cases h
            | directory => exact ih h

theorem follow_congr
    (h : forall front path, front <+: steps -> tree.follow here front = .ok path ->
      later.get? path = tree.get? path) :
    later.follow here steps = tree.follow here steps := by
  induction steps generalizing here with
  | nil => rfl
  | cons step rest ih =>
      have hrest : forall next, (forall front, front <+: rest ->
          tree.follow here (step :: front) = tree.follow next front) ->
          later.follow next rest = tree.follow next rest := by
        intro next hnext
        refine ih fun front path hfront hfollow => ?_
        exact h (step :: front) path (List.cons_prefix_cons.mpr ⟨rfl, hfront⟩)
          ((hnext front hfront).trans hfollow)
      simp only [follow]
      split_ifs with hidle hup hlong hlast
      · exact hrest here fun front _ => by simp only [follow, if_pos hidle]
      · exact hrest here.dropLast fun front _ => by simp only [follow, if_neg hidle, if_pos hup]
      · rfl
      · rfl
      · have hfirst : tree.follow here [step] = .ok (here ++ [step]) := by
          simp [follow, hidle, hup, hlong]
        have hsame := h [step] _ (List.cons_prefix_cons.mpr ⟨rfl, List.nil_prefix⟩) hfirst
        rw [hsame]
        rcases hget : tree.get? (here ++ [step]) with _ | _ | content
        · rfl
        · refine hrest (here ++ [step]) fun front _ => ?_
          cases front with
          | nil => exact hfirst
          | cons next front => simp only [follow, hidle, hup, hlong, hget, if_false,
              Bool.false_eq_true, reduceCtorEq]
        · rfl

theorem find_congr
    (h : forall front path, front <+: route.steps -> tree.follow route.start front = .ok path ->
      later.get? path = tree.get? path) :
    later.find route = tree.find route := by
  have hreach : later.reach route = tree.reach route := by
    simp only [reach, follow_congr h]
  cases hpath : tree.reach route with
  | error error => simp only [find, hreach, hpath, bind, Except.bind]
  | ok path =>
      have hget := h route.steps path (List.prefix_refl _) (reach_eq_ok_iff.mp hpath).2
      simp only [find, hreach, hpath, bind, Except.bind, hget]

theorem directory_on_way (hs : tree.Sound) (hstart : tree.get? start = some .directory)
    (hmore : more ≠ []) (hpath : tree.follow start steps = .ok path)
    (h : tree.follow start (steps ++ more) = .ok home) : tree.get? path = some .directory := by
  rw [follow_append hs hstart hmore, hpath] at h
  rcases hget : tree.get? path with _ | _ | content
  · simp only [hget] at h
    cases h
  · rfl
  · simp only [hget] at h
    cases h

/-!
## What is missing on a way
-/

theorem exists_missing (h : tree.follow here steps = .error .notFound) :
    exists front rest path, steps = front ++ rest ∧ rest ≠ [] ∧
      tree.follow here front = .ok path ∧ tree.get? path = none := by
  induction steps generalizing here with
  | nil => cases h
  | cons step rest ih =>
      simp only [follow] at h
      split_ifs at h with hidle hup hlong hlast
      · rcases ih h with ⟨front, more, path, rfl, hmore, hfollow, hget⟩
        exact ⟨step :: front, more, path, rfl, hmore, by simpa only [follow, if_pos hidle], hget⟩
      · rcases ih h with ⟨front, more, path, rfl, hmore, hfollow, hget⟩
        refine ⟨step :: front, more, path, rfl, hmore, ?_, hget⟩
        simpa only [follow, if_neg hidle, if_pos hup]
      · cases h
      · have hfirst : tree.follow here [step] = .ok (here ++ [step]) := by
          simp [follow, hidle, hup, hlong]
        rcases hget : tree.get? (here ++ [step]) with _ | _ | content
        · exact ⟨[step], rest, _, rfl, hlast, hfirst, hget⟩
        · rw [hget] at h
          rcases ih h with ⟨front, more, path, rfl, hmore, hfollow, hmissing⟩
          refine ⟨step :: front, more, path, rfl, hmore, ?_, hmissing⟩
          cases front with
          | nil =>
              cases hfollow
              exact hfirst
          | cons next front =>
              simpa only [follow, hidle, hup, hlong, hget, if_false, Bool.false_eq_true,
                reduceCtorEq] using hfollow
        · rw [hget] at h
          cases h

theorem Descends.of_append (h : tree.Descends start (steps ++ more)) :
    tree.Descends start steps := by
  rintro front rest rfl hmissing step hstep
  exact h front (rest ++ more) (List.append_assoc _ _ _) hmissing step
    (List.mem_append_left more hstep)

theorem Descends.concat (h : tree.Descends start steps) (hname : IsName name) :
    tree.Descends start (steps ++ [name]) := by
  intro front rest hsteps hmissing step hstep
  rcases List.eq_nil_or_concat rest with rfl | ⟨more, last, rfl⟩
  · cases hstep
  · rw [List.concat_eq_append] at hsteps hstep
    rw [← List.append_assoc] at hsteps
    rcases List.append_inj' hsteps rfl with ⟨rfl, hlast⟩
    cases hlast
    rcases List.mem_append.mp hstep with hmore | hlast
    · exact h front more rfl hmissing step hmore
    · rw [List.mem_singleton.mp hlast]
      exact .inr hname

theorem get?_place_of_missing (hs : tree.Sound) (hdown : tree.Descends start steps)
    (h : Missing tree start steps) : tree.get? (Route.place start steps) = none := by
  rcases h with hfollow | ⟨path, hfollow, hget⟩
  · rcases exists_missing hfollow with ⟨front, rest, path, rfl, -, hpath, hget⟩
    have hbehind := hdown front rest rfl (.inr ⟨path, hpath, hget⟩)
    refine hs.none_of_prefix hget ?_
    rw [place_of_follow hpath, Route.place_append]
    exact Route.prefix_place hbehind
  · rwa [← place_of_follow hfollow]

/-!
## Directories made on the way
-/

/-- Whatever stands in a place after directories were made on a way stood there before, or is
one of these directories, of which all that they have in common is known. -/
theorem GrowsAlong.get?_cases (Made : Path -> Prop) (h : tree.GrowsAlong start steps later)
    (hs : tree.Sound) (hstart : tree.get? start = some .directory)
    (hmade : forall mid front path, tree.Grows mid -> front <+: steps ->
      mid.follow start front = .ok path -> mid.get? path = none -> Made path) (other : Path) :
    later.get? other = tree.get? other ∨
      tree.get? other = none ∧ later.get? other = some .directory ∧ Made other := by
  induction h with
  | refl tree => exact .inl rfl
  | @step tree later front path within leads missing _ ih =>
      have hgrows : tree.Grows (tree.put path .directory) :=
        (GrowsAlong.step (List.prefix_refl _) leads missing (.refl _)).grows hs hstart
      have hroot := ne_nil_of_missing missing
      have hlater := ih (hgrows.sound hs) (hgrows.get? hstart)
        fun mid front path hmid => hmade mid front path (hgrows.trans hmid)
      by_cases heq : other = path
      · subst heq
        rw [get?_put_self hroot] at hlater
        rcases hlater with hsame | ⟨hnone, -⟩
        · exact .inr ⟨missing, hsame, hmade tree front other (.refl tree) within leads missing⟩
        · cases hnone
      · rwa [get?_put_of_ne hroot heq] at hlater

theorem GrowsAlong.get?_on_way (h : tree.GrowsAlong start steps later)
    (hs : tree.Sound) (hstart : tree.get? start = some .directory) (other : Path) :
    later.get? other = tree.get? other ∨ tree.get? other = none ∧
      later.get? other = some .directory ∧
      exists front, front <+: steps ∧ other = Route.place start front :=
  h.get?_cases (fun other => exists front, front <+: steps ∧ other = Route.place start front)
    hs hstart (fun _ front _ _ hfront hfollow _ => ⟨front, hfront, place_of_follow hfollow⟩) other

/-- If the way to a base leads down behind what is missing, the directories made on the way to
some names below the base lie straight above the last one. -/
theorem GrowsAlong.get?_above (h : tree.GrowsAlong start (steps ++ names) later)
    (hs : tree.Sound) (hstart : tree.get? start = some .directory)
    (hnames : forall name, name ∈ names -> Route.GoesDown name)
    (hdown : tree.Descends start steps) (other : Path) :
    later.get? other = tree.get? other ∨ tree.get? other = none ∧
      later.get? other = some .directory ∧ other <+: Route.place start steps ++ names := by
  refine h.get?_cases (· <+: Route.place start steps ++ names) hs hstart
    (fun mid front path hgrows hfront hfollow hmissing => ?_) other
  rw [place_of_follow hfollow]
  rcases Route.front_cases hfront with ⟨rest, rfl⟩ | ⟨part, hpart, rfl⟩
  · have hbehind := hdown.grows hgrows front rest rfl (.inr ⟨path, hfollow, hmissing⟩)
    rw [Route.place_append]
    exact (Route.prefix_place hbehind).trans (List.prefix_append _ _)
  · rw [Route.place_append, Route.place_names fun name hname => hnames name (hpart.subset hname)]
    exact (List.prefix_append_right_inj _).mpr hpart

theorem missing_put (hs : tree.Sound) (hstart : tree.get? start = some .directory)
    (hname : Route.isIdle name = false) (hdown : tree.Descends start (steps ++ [name]))
    (hgrows : tree.Grows (tree.put path .directory)) (hmissing : tree.get? path = none)
    (h : tree.follow start (steps ++ [name]) = .error .notFound) :
    Missing (tree.put path .directory) start (steps ++ [name]) := by
  have hroot := ne_nil_of_missing hmissing
  have hsLater := hgrows.sound hs
  rcases exists_missing h with ⟨front, rest, other, hsteps, hrest, hother, hget⟩
  have hother' := follow_mono (fun _ hpath => hgrows.get? hpath) hother
  by_cases heq : other = path
  · subst heq
    have hbehind := hdown front rest hsteps (.inr ⟨other, hother, hget⟩)
    rcases (List.eq_nil_or_concat rest).resolve_left hrest with ⟨more, last, rfl⟩
    rw [List.concat_eq_append] at hsteps hbehind hrest
    have hlast : name = last := by
      rw [← List.append_assoc] at hsteps
      exact List.singleton_inj.mp (List.append_inj' hsteps rfl).2
    subst hlast
    rcases List.forall_mem_append.mp hbehind with ⟨hmore, hend⟩
    have hisName : IsName name :=
      (hend name (List.mem_singleton_self name)).resolve_left (by rw [hname]; nofun)
    have hbare : forall next, (tree.put other .directory).get? (other ++ [next]) = none := by
      intro next
      rw [get?_put_of_ne hroot (by simp)]
      exact hs.none_of_prefix hmissing (List.prefix_append _ _)
    rw [hsteps]
    exact missing_append hsLater (hgrows.get? hstart) hrest hother' (get?_put_self hroot)
      (missing_in_bare hmore hisName hbare)
  · left
    rw [hsteps, follow_append hsLater (hgrows.get? hstart) hrest, hother']
    simp only [get?_put_of_ne hroot heq, hget]

theorem find_put_cases (hs : tree.Sound) (hstart : tree.get? start = some .directory)
    (hname : Route.isIdle name = false) (hdown : tree.Descends start (steps ++ [name]))
    (hgrows : tree.Grows (tree.put path .directory)) (hmissing : tree.get? path = none) :
    (tree.put path .directory).find ⟨start, steps ++ [name]⟩ =
        tree.find ⟨start, steps ++ [name]⟩ ∨
      tree.find ⟨start, steps ++ [name]⟩ = .error .notFound ∧
        (tree.put path .directory).find ⟨start, steps ++ [name]⟩ = .ok .directory := by
  have hroot := ne_nil_of_missing hmissing
  cases hfault : Route.fault? ⟨start, steps ++ [name]⟩ with
  | some error => exact .inl (by rw [find_of_fault hfault, find_of_fault hfault])
  | none =>
      cases hfollow : tree.follow start (steps ++ [name]) with
      | ok home =>
          have hreach : tree.reach ⟨start, steps ++ [name]⟩ = .ok home :=
            reach_eq_ok_iff.mpr ⟨hfault, hfollow⟩
          have hreach' : (tree.put path .directory).reach ⟨start, steps ++ [name]⟩ = .ok home :=
            reach_eq_ok_iff.mpr ⟨hfault, follow_mono (fun _ hpath => hgrows.get? hpath) hfollow⟩
          by_cases heq : home = path
          · subst heq
            exact .inr ⟨find_of_none hreach hmissing,
              find_eq_ok_iff.mpr ⟨home, hreach', get?_put_self hroot⟩⟩
          · left
            simp only [find, hreach, hreach', bind, Except.bind, get?_put_of_ne hroot heq]
      | error error =>
          left
          by_cases hne : error = .notFound
          · subst hne
            rw [find_of_missing_steps hfault (.inl hfollow)]
            exact find_of_missing_steps hfault
              (missing_put hs hstart hname hdown hgrows hmissing hfollow)
          · have hfollow' := follow_error_mono (fun _ _ hget => hgrows.get? hget) hfollow hne
            simp only [find, reach, hfault, hfollow, hfollow', bind, Except.bind]

/-- While a tree grows, what is found at the end of a way that leads down stays the same, but
for the directory that is made there. -/
theorem Grows.find_cases (h : tree.Grows later) (hs : tree.Sound)
    (hstart : tree.get? start = some .directory) (hname : Route.isIdle name = false)
    (hdown : tree.Descends start (steps ++ [name])) :
    later.find ⟨start, steps ++ [name]⟩ = tree.find ⟨start, steps ++ [name]⟩ ∨
      tree.find ⟨start, steps ++ [name]⟩ = .error .notFound ∧
        later.find ⟨start, steps ++ [name]⟩ = .ok .directory := by
  induction h with
  | refl tree => exact .inl rfl
  | @step tree later path missing inside _ ih =>
      have hgrows : tree.Grows (tree.put path .directory) := .step missing inside (.refl _)
      have hput := find_put_cases hs hstart hname hdown hgrows missing
      have hlater := ih (hgrows.sound hs) (hgrows.get? hstart) (hdown.grows hgrows)
      rcases hput with hsame | ⟨hnone, hmade⟩
      · rwa [hsame] at hlater
      · rw [hmade] at hlater
        rcases hlater with hsame | ⟨hnone', -⟩
        · exact .inr ⟨hnone, hsame⟩
        · cases hnone'

theorem find_eq_of_place (hs : tree.Sound) (hdown : tree.Descends route.start route.steps)
    (hsame : later.get? (Route.place route.start route.steps) =
      tree.get? (Route.place route.start route.steps))
    (h : later.find route = tree.find route ∨
      tree.find route = .error .notFound ∧ later.find route = .ok .directory) :
    later.find route = tree.find route := by
  rcases h with h | ⟨hnone, hmade⟩
  · exact h
  · exfalso
    rcases find_eq_ok_iff.mp hmade with ⟨path, hreach, hget⟩
    rcases reach_eq_ok_iff.mp hreach with ⟨hfault, hfollow⟩
    rw [place_of_follow hfollow, hsame,
      get?_place_of_missing hs hdown (missing_of_find hfault hnone)] at hget
    cases hget

end Tree

end RenewalDrive
