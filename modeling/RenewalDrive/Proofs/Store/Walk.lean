import RenewalDrive.Proofs.Store.Tree

/-!
# Where routes lead

The steps of a route are followed one after the other, so a route with more steps leads to
where the rest leads from the end of the first steps, if a directory stands there. Names lead
straight down.
-/

namespace RenewalDrive

namespace Route

variable {route : Route} {start : Path} {steps more : List String} {name other : String}

/-!
## Texts of routes
-/

theorem fault?_eq_none_iff :
    route.fault? = none ↔
      '\x00' ∉ route.text.toList ∧ route.text ≠ "" ∧ route.text.utf8ByteSize ≤ limit := by
  unfold fault?
  simp only [List.contains_iff_mem]
  split_ifs with hzero hempty hlong
  · simp [hzero]
  · simp [hempty]
  · simp [hlong]
  · simp [hzero, hempty, Nat.le_of_not_lt hlong]

theorem fault?_of_append (h : fault? ⟨start, steps ++ more⟩ = none)
    (hne : text ⟨start, steps⟩ ≠ "") : fault? ⟨start, steps⟩ = none := by
  by_cases hmore : more = []
  · simpa [hmore] using h
  · have hsteps : steps ≠ [] := by
      rintro rfl
      exact hne rfl
    rw [fault?_eq_none_iff] at h ⊢
    rcases h with ⟨hzero, -, hlong⟩
    simp only [text, String.intercalate_append_of_ne_nil hsteps hmore, String.toList_append,
      String.utf8ByteSize_append, List.mem_append, not_or] at hzero hlong
    exact ⟨hzero.1.1, hne, by simp only [text]; omega⟩

theorem fault?_of_shorter (h : fault? ⟨start, steps ++ [name]⟩ = none)
    (hsteps : steps ≠ []) (hzero : '\x00' ∉ other.toList)
    (hle : other.utf8ByteSize ≤ name.utf8ByteSize) : fault? ⟨start, steps ++ [other]⟩ = none := by
  have hcons : forall last : String, [last] ≠ [] := fun last => List.cons_ne_nil last []
  rw [fault?_eq_none_iff] at h ⊢
  simp only [text, String.intercalate_append_of_ne_nil hsteps (hcons _), String.toList_append,
    String.utf8ByteSize_append, String.intercalate_singleton, List.mem_append, not_or] at h ⊢
  refine ⟨⟨h.1.1, hzero⟩, ?_, by omega⟩
  simp

theorem text_ne_empty (hname : name ≠ "") : text ⟨start, steps ++ [name]⟩ ≠ "" := by
  by_cases hsteps : steps = []
  · rw [hsteps, text, List.nil_append, String.intercalate_singleton]
    exact hname
  · rw [text, String.intercalate_append_of_ne_nil hsteps (List.cons_ne_nil name [])]
    simp

theorem fault?_of_names {outer : List String} (h : fault? ⟨start, steps ++ (outer ++ more)⟩ = none)
    (hne : outer ≠ []) (hnames : forall name, name ∈ outer -> name ≠ "") :
    fault? ⟨start, steps ++ outer⟩ = none := by
  rw [← List.append_assoc] at h
  refine fault?_of_append h ?_
  rcases (List.eq_nil_or_concat outer).resolve_left hne with ⟨front, last, rfl⟩
  rw [List.concat_eq_append, ← List.append_assoc]
  exact text_ne_empty (hnames last (by simp))

/-!
## Names at the end of a route
-/

/-- The steps of a route without an empty one at the end, as names are added behind them. -/
def stem (route : Route) : List String :=
  if route.steps.getLast? = some "" then route.steps.dropLast else route.steps

theorem child_eq (route : Route) (name : String) :
    route.child name = ⟨route.start, route.stem ++ [name]⟩ := by
  unfold child stem
  split_ifs <;> rfl

theorem steps_eq (route : Route) :
    route.steps = route.stem ∨ route.steps = route.stem ++ [""] := by
  unfold stem
  split_ifs with hlast
  · exact .inr (List.dropLast_append_getLast? "" hlast).symm
  · exact .inl rfl

theorem stem_of_name (hname : name ≠ "") : stem ⟨start, steps ++ [name]⟩ = steps ++ [name] := by
  unfold stem
  rw [List.getLast?_concat, if_neg (by simpa using hname)]

theorem child_names {names : List String} (hne : names ≠ [])
    (hnames : forall name, name ∈ names -> name ≠ "") (other : String) :
    child ⟨start, steps ++ names⟩ other = ⟨start, steps ++ (names ++ [other])⟩ := by
  rcases (List.eq_nil_or_concat names).resolve_left hne with ⟨front, last, rfl⟩
  have hstem : stem ⟨start, steps ++ front ++ [last]⟩ = steps ++ front ++ [last] :=
    stem_of_name (hnames last (by simp))
  rw [child_eq, List.concat_eq_append, ← List.append_assoc, hstem]
  simp

end Route

namespace Tree

variable {tree : Tree} {here home path : Path} {start : Path} {steps more rest names : List String}
variable {name : String} {node : Node}

/-!
## Following steps
-/

theorem follow_append (hs : tree.Sound) (hhere : tree.get? here = some .directory)
    (hmore : more ≠ []) :
    tree.follow here (steps ++ more) =
      match tree.follow here steps with
      | .error error => .error error
      | .ok path =>
          match tree.get? path with
          | none => .error .notFound
          | some (.file _) => .error .notDirectory
          | some .directory => tree.follow path more := by
  induction steps generalizing here with
  | nil =>
      simp only [List.nil_append, follow, hhere]
  | cons step rest ih =>
      have hne : rest ++ more ≠ [] := List.append_ne_nil_of_right_ne_nil rest hmore
      simp only [List.cons_append, follow]
      split_ifs with hidle hup hlong hlast
      · exact ih hhere
      · exact ih (hs.parent hhere)
      · rfl
      · subst hlast
        cases hget : tree.get? (here ++ [step]) with
        | none => simp [hget]
        | some found => cases found <;> simp [hget]
      · cases hget : tree.get? (here ++ [step]) with
        | none => rfl
        | some found =>
            cases found with
            | file content => rfl
            | directory => exact ih hget

theorem follow_of_empty_step (hs : tree.Sound) (hhere : tree.get? here = some .directory)
    (h : tree.follow here (steps ++ [""]) = .ok path) : tree.follow here steps = .ok path := by
  rw [follow_append hs hhere (List.cons_ne_nil "" [])] at h
  cases hfollow : tree.follow here steps with
  | error error =>
      rw [hfollow] at h
      cases h
  | ok other =>
      rw [hfollow] at h
      rcases hget : tree.get? other with _ | _ | content
      · simp only [hget] at h
        cases h
      · simp only [hget] at h
        cases h
        rfl
      · simp only [hget] at h
        cases h

theorem reach_eq_ok_iff {route : Route} :
    tree.reach route = .ok path ↔
      route.fault? = none ∧ tree.follow route.start route.steps = .ok path := by
  unfold reach
  cases route.fault? <;> simp

theorem find_eq_ok_iff {route : Route} :
    tree.find route = .ok node ↔
      exists path, tree.reach route = .ok path ∧ tree.get? path = some node := by
  unfold find
  cases hreach : tree.reach route with
  | error error => simp [bind, Except.bind]
  | ok path => cases hget : tree.get? path <;> simp [bind, Except.bind, hget]

theorem find_of_none {route : Route} (hreach : tree.reach route = .ok path)
    (hget : tree.get? path = none) : tree.find route = .error .notFound := by
  simp [find, bind, Except.bind, hreach, hget]

/-- More directories lead at least as far. -/
theorem follow_mono {other : Tree}
    (h : forall path, tree.get? path = some .directory -> other.get? path = some .directory)
    (hfollow : tree.follow here steps = .ok path) : other.follow here steps = .ok path := by
  induction steps generalizing here with
  | nil => exact hfollow
  | cons step rest ih =>
      simp only [follow] at hfollow ⊢
      split_ifs at hfollow ⊢ with hidle hup hlong hlast
      · exact ih hfollow
      · exact ih hfollow
      · exact hfollow
      · cases hget : tree.get? (here ++ [step]) with
        | none =>
            rw [hget] at hfollow
            cases hfollow
        | some found =>
            rw [hget] at hfollow
            cases found with
            | file content => cases hfollow
            | directory =>
                rw [h _ hget]
                exact ih hfollow

theorem directory_of_follow (hs : tree.Sound) (hhere : tree.get? here = some .directory)
    (hfollow : tree.follow here steps = .ok path) :
    tree.get? path = some .directory ∨ tree.get? path.dropLast = some .directory ∧ path ≠ [] := by
  induction steps generalizing here with
  | nil =>
      cases hfollow
      exact .inl hhere
  | cons step rest ih =>
      simp only [follow] at hfollow
      split_ifs at hfollow with hidle hup hlong hlast
      · exact ih hhere hfollow
      · exact ih (hs.parent hhere) hfollow
      · cases hfollow
        exact .inr ⟨by rw [List.dropLast_concat]; exact hhere, by simp⟩
      · cases hget : tree.get? (here ++ [step]) with
        | none =>
            rw [hget] at hfollow
            cases hfollow
        | some found =>
            rw [hget] at hfollow
            cases found with
            | file content => cases hfollow
            | directory => exact ih hget hfollow

/-!
## Names
-/

structure IsName (name : String) : Prop where
  moves : Route.isIdle name = false
  down : name ≠ ".."
  fits : name.utf8ByteSize ≤ nameLimit

theorem IsName.ne_empty (h : IsName name) : name ≠ "" := by
  rintro rfl
  exact Bool.noConfusion h.moves

theorem follow_name (h : IsName name) : tree.follow here [name] = .ok (here ++ [name]) := by
  simp [follow, h.moves, h.down, Nat.not_lt_of_le h.fits]

theorem follow_names (h : IsName name) (hrest : rest ≠ []) :
    tree.follow here (name :: rest) =
      match tree.get? (here ++ [name]) with
      | none => .error .notFound
      | some (.file _) => .error .notDirectory
      | some .directory => tree.follow (here ++ [name]) rest := by
  rcases hget : tree.get? (here ++ [name]) with _ | ⟨_⟩ | _
  all_goals
    simp only [follow, h.moves, h.down, Nat.not_lt_of_le h.fits, hrest, if_false,
      Bool.false_eq_true, hget]

theorem follow_of_get? (hs : tree.Sound) (hnames : forall name, name ∈ names -> IsName name)
    (h : tree.get? (here ++ names) = some node) :
    tree.follow here names = .ok (here ++ names) := by
  induction names generalizing here with
  | nil => rw [List.append_nil]; rfl
  | cons name rest ih =>
      have hname := hnames name List.mem_cons_self
      by_cases hrest : rest = []
      · rw [hrest]
        exact follow_name hname
      · have happend : here ++ name :: rest = here ++ [name] ++ rest := by simp
        have hdirectory : tree.get? (here ++ [name]) = some .directory := by
          refine hs.directory_of_prefix h ?_ ?_
          · rw [happend]
            exact List.prefix_append _ _
          · rw [happend]
            simpa using hrest
        rw [follow_names hname hrest, hdirectory, happend]
        rw [happend] at h
        exact ih (fun other hother => hnames other (List.mem_cons_of_mem name hother)) h

/-- Names that lead to nothing lead to no file on the way either: they are not found, be it at
their end or before. -/
theorem follow_of_missing (hnames : forall name, name ∈ names -> IsName name)
    (h : tree.get? (here ++ names) = none)
    (hfiles : forall path content, path <+: here ++ names ->
      tree.get? path ≠ some (.file content)) :
    tree.follow here names = .error .notFound ∨ tree.follow here names = .ok (here ++ names) := by
  induction names generalizing here with
  | nil =>
      rw [List.append_nil]
      exact .inr rfl
  | cons name rest ih =>
      have hname := hnames name List.mem_cons_self
      by_cases hrest : rest = []
      · rw [hrest]
        exact .inr (follow_name hname)
      · have happend : here ++ name :: rest = here ++ [name] ++ rest := by simp
        rw [follow_names hname hrest, happend]
        rw [happend] at h hfiles
        cases hget : tree.get? (here ++ [name]) with
        | none => exact .inl rfl
        | some found =>
            cases found with
            | file content => exact absurd hget (hfiles _ content (List.prefix_append _ _))
            | directory =>
                exact ih (fun other hother => hnames other (List.mem_cons_of_mem name hother)) h
                  hfiles

/-!
## Routes behind a directory
-/

structure Leads (tree : Tree) (start : Path) (steps : List String) (home : Path) : Prop where
  at_start : tree.get? start = some .directory
  follows : tree.follow start steps = .ok home
  at_home : tree.get? home = some .directory

theorem Leads.mono {other : Tree} (h : tree.Leads start steps home)
    (hdirectories : forall path,
      tree.get? path = some .directory -> other.get? path = some .directory) :
    other.Leads start steps home where
  at_start := hdirectories start h.at_start
  follows := follow_mono hdirectories h.follows
  at_home := hdirectories home h.at_home

section

variable (hs : tree.Sound) (h : tree.Leads start steps home)
  (hfault : Route.fault? ⟨start, steps ++ names⟩ = none)

include hs h hfault

theorem reach_names (hne : names ≠ []) :
    tree.reach ⟨start, steps ++ names⟩ = tree.follow home names := by
  simp only [reach, hfault, follow_append hs h.at_start hne, h.follows, h.at_home]

theorem reach_of_directory {outer : List String} (heq : names = outer ++ [name])
    (hnames : forall name, name ∈ names -> IsName name)
    (hget : tree.get? (home ++ outer) = some .directory) :
    tree.reach ⟨start, steps ++ names⟩ = .ok (home ++ outer ++ [name]) := by
  subst heq
  have houter : forall name, name ∈ outer -> IsName name :=
    fun name hname => hnames name (List.mem_append_left _ hname)
  rw [reach_names hs h hfault (by simp), follow_append hs h.at_home (List.cons_ne_nil name []),
    follow_of_get? hs houter hget]
  simp only [hget]
  exact follow_name (hnames name (by simp))

theorem find_of_get? (hne : names ≠ []) (hnames : forall name, name ∈ names -> IsName name)
    (hget : tree.get? (home ++ names) = some node) :
    tree.find ⟨start, steps ++ names⟩ = .ok node := by
  refine find_eq_ok_iff.mpr ⟨home ++ names, ?_, hget⟩
  rw [reach_names hs h hfault hne, follow_of_get? hs hnames hget]

theorem find_of_missing (hne : names ≠ []) (hnames : forall name, name ∈ names -> IsName name)
    (hget : tree.get? (home ++ names) = none)
    (hfiles : forall path content, path <+: home ++ names ->
      tree.get? path ≠ some (.file content)) :
    tree.find ⟨start, steps ++ names⟩ = .error .notFound := by
  have hreach := reach_names hs h hfault hne
  rcases follow_of_missing hnames hget hfiles with hfollow | hfollow
  · rw [find, hreach, hfollow]
    rfl
  · exact find_of_none (hreach.trans hfollow) hget

end

end Tree

end RenewalDrive
