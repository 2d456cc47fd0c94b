import Mathlib
import RenewalDrive.Daemon.Site
import RenewalDrive.Proofs.Drive.Followed
import RenewalDrive.Proofs.Laws.Recovery

/-!
# The effect of a start

A start comes to a job for each watched name, and what it changes in the store is the recovery of
names that fail and the removal of challenges that nobody waits for. In a file tree this can be
seen to the last file: whatever else a failed drive left in its entry is gone.
-/

namespace RenewalDrive

/-!
## Rehearsals
-/

namespace Rehearsal

open Act

/-- The store of the world is the given one, and refuses nothing. -/
def Offers (store : MemoryStore) (world : Rehearsal) : Prop :=
  world.Serving ∧ world.store = store

theorem carries_ask {α : Type} {request : Request} {deed : Except StoreError α -> Deed}
    {serve : MemoryStore -> α × MemoryStore} (store : MemoryStore) :
    (ask request deed serve).Carries Offers store (.ok (serve store).1) (serve store).2 := by
  rintro world ⟨hserving, rfl⟩
  refine ⟨{ world with store := (serve world.store).2 }.after (deed (.ok (serve world.store).1)),
    ?_, hserving, rfl⟩
  have hserved := hserving world.moment request
  show ask request deed serve world = _
  rw [ask, if_neg (by simp [hserved])]

theorem serves_of_serving (admits : MemoryStore -> StoreCall -> Prop) :
    host.Serves admits Offers where
  note := by
    rintro event _ hevent world ⟨hserving, rfl⟩
    rcases run_note_of_told (Event.told_of_undated hevent) with ⟨entries, hrun⟩
    have hnoted : forall (mid : Rehearsal) (entry : LogEntry), Offers world.store mid ->
        Offers world.store (mid.after (.noted entry)) := fun _ _ hmid => hmid
    exact ⟨_, hrun, holds_after_notes hnoted entries ⟨hserving, rfl⟩⟩
  loadJob name store _ := by
    show (loadJob name).Carries Offers store _ _
    exact carries_ask store
  saveJob name record store _ := by
    show (saveJob name record).Carries Offers store _ _
    exact carries_ask store
  purge group name store _ := by
    show (purge group name).Carries Offers store _ _
    exact carries_ask store
  listNames group store _ := by
    show (listNames group).Carries Offers store _ _
    exact carries_ask store

end Rehearsal

/-!
## File trees
-/

/-- A tree differs from a later one in what a start changes below the base of a file store: the
entries of some names hold a fresh record and nothing else, and the challenges of some names are
gone. -/
structure Tree.Restarts (home : Path) (recovers clears : String -> Prop) (tree later : Tree) :
    Prop where
  entry : forall name, recovers name ->
    later.get? (home ++ [Group.staging.name, name]) = some .directory
  recovered : forall name, recovers name ->
    later.get? (home ++ [Group.staging.name, name, jobFileName]) =
      some (.file (Json.bytesOf (DriveJob.fresh name).toRecord.toJson.pretty))
  emptied : forall name rest, recovers name -> rest ≠ [] -> rest ≠ [jobFileName] ->
    later.get? (home ++ Group.staging.name :: name :: rest) = none
  cleared : forall name rest, clears name ->
    later.get? (home ++ Group.challenges.name :: name :: rest) = none
  kept : forall path,
    (forall name, recovers name -> ¬ home ++ [Group.staging.name, name] <+: path) ->
    (forall name, clears name -> ¬ home ++ [Group.challenges.name, name] <+: path) ->
    later.get? path = tree.get? path

namespace FileStore

structure Takes (store : FileStore) (name : String) : Prop where
  accepts : NameFault.Accepts name
  record : (store.below [Group.staging.name, name, jobFileName]).fault? = none
  challenges : (store.below [Group.challenges.name, name]).fault? = none

variable {store : FileStore} {made first tree mid later : Tree} {home : Path}
  {registry : Registry} {origin memory : MemoryStore} {group : Group} {name : String}

/-- What a start leaves of a tree at any time: the tree mirrors the store that the start has come
to, an entry whose record does not fail any more holds nothing but a record, and nothing has
changed beside the entries and the challenges that the start is to remove. -/
structure Underway (store : FileStore) (made : Tree) (home : Path) (registry : Registry)
    (origin : MemoryStore) (first : Tree) (memory : MemoryStore) (tree : Tree) : Prop where
  mirrors : store.Mirrors made home tree memory
  emptied : forall name rest, registry.Recovers origin name -> ¬ memory.Failing name ->
    rest ≠ [] -> rest ≠ [jobFileName] ->
    tree.get? (home ++ Group.staging.name :: name :: rest) = none
  kept : forall path,
    (forall name, registry.Recovers origin name ->
      ¬ home ++ [Group.staging.name, name] <+: path) ->
    (forall name, registry.Clearable origin.Failing name ->
      ¬ home ++ [Group.challenges.name, name] <+: path) ->
    tree.get? path = first.get? path

namespace Underway

theorem begin (h : store.Mirrors made home first origin) :
    store.Underway made home registry origin first origin first where
  mirrors := h
  emptied := fun _ _ hrecovers hfailing => absurd hrecovers.2 hfailing
  kept := fun _ _ _ => rfl

theorem purged (h : store.Underway made home registry origin first memory tree)
    (hcall : registry.StartCall origin memory (.purge group name)) (hs : later.Sound)
    (hget : forall path, later.get? path =
      if home ++ [group.name, name] <+: path then none else tree.get? path) :
    store.Underway made home registry origin first (memory.purge group name) later where
  mirrors := h.mirrors.purged hs hget
  emptied := by
    intro other rest hrecovers hfailing hne hrest
    rw [hget]
    split_ifs with hpre
    · rfl
    · refine h.emptied other rest hrecovers ?_ hne hrest
      -- The record of another entry fails as it did before.
      have hother : ¬ (group = .staging ∧ other = name) := by
        rintro ⟨rfl, rfl⟩
        exact hpre (Mirrors.entry_prefix_iff.mpr ⟨rfl, rfl⟩)
      simpa [MemoryStore.Failing, MemoryStore.loadJob, MemoryStore.purge, hother] using hfailing
  kept := by
    intro path hentries hchallenges
    have houtside : ¬ home ++ [group.name, name] <+: path := by
      cases group with
      | staging => exact hentries name hcall
      | challenges => exact hchallenges name hcall.1
      | domains => exact hcall.elim
    rw [hget, if_neg houtside]
    exact h.kept path hentries hchallenges

theorem saved (h : store.Underway made home registry origin first memory tree)
    (horigin : store.Mirrors made home first origin) {record : JobRecord}
    (hcall : registry.StartCall origin memory (.saveJob name record))
    (hmirrors : store.Mirrors made home later (memory.saveJob name record))
    (hpaved : tree.Paved mid (home ++ [Group.staging.name, name])) {node : Node}
    (hget : forall path, later.get? path =
      if path = home ++ [Group.staging.name, name] ++ [jobFileName] then some node
      else if path = home ++ [Group.staging.name, name] ++ [jobTemporaryName] then none
      else mid.get? path) :
    store.Underway made home registry origin first (memory.saveJob name record) later := by
  rcases hcall with ⟨hrecovers, -, hnone⟩
  constructor
  case mirrors => exact hmirrors
  case emptied =>
    intro other rest hother hfailing hne hrest
    have hbefore : ¬ memory.Failing other := by
      by_cases heq : other = name
      · rw [heq]
        simp [MemoryStore.Failing, hnone]
      · simpa [MemoryStore.Failing, MemoryStore.loadJob, MemoryStore.saveJob, heq] using hfailing
    have hfile : home ++ Group.staging.name :: other :: rest ≠
        home ++ [Group.staging.name, name] ++ [jobFileName] := by
      simp [hrest]
    have hshort : ¬ home ++ Group.staging.name :: other :: rest <+:
        home ++ [Group.staging.name, name] := by
      simp [List.prefix_append_right_inj, List.cons_prefix_cons, hne]
    rw [hget, if_neg hfile]
    split_ifs
    · rfl
    · rw [hpaved.get?, if_neg hshort]
      exact h.emptied other rest hother hbefore hne hrest
  case kept =>
    intro path hentries hchallenges
    have hinside : forall file, path ≠ home ++ [Group.staging.name, name] ++ [file] := by
      rintro file rfl
      exact hentries name hrecovers (List.prefix_append _ _)
    rw [hget, if_neg (hinside _), if_neg (hinside _), hpaved.get?]
    split_ifs with hpre
    · -- On the way to the entry of a record there are directories from the first.
      rcases hrecovers.2 with ⟨found, hfound, -⟩
      have hrecord : first.get? (home ++ [Group.staging.name, name, jobFileName]) = _ :=
        horigin.files .job name
      rw [MemoryStore.file?, show origin.records name = some found from hfound] at hrecord
      refine (horigin.sound.directory_of_prefix hrecord (hpre.trans ?_) ?_).symm
      · exact (List.prefix_append_right_inj home).mpr ⟨[jobFileName], rfl⟩
      · simpa using hinside jobFileName
    · exact h.kept path hentries hchallenges

theorem restarts (h : store.Underway made home registry origin first memory tree)
    (hrestarts : origin.Restarts (registry.Recovers origin) (registry.Clearable origin.Failing)
      memory) :
    first.Restarts home (registry.Recovers origin) (registry.Clearable origin.Failing) tree where
  entry := by
    intro name hname
    rw [h.mirrors.entries, if_pos ((hrestarts.staging name).mpr (.inr hname))]
  recovered := by
    intro name hname
    refine (h.mirrors.files .job name).trans ?_
    rw [MemoryStore.file?, hrestarts.recovered name hname]
    rfl
  emptied := by
    intro name rest hname hne hrest
    refine h.emptied name rest hname ?_ hne hrest
    simp [MemoryStore.Failing, MemoryStore.loadJob, hrestarts.recovered name hname,
      DriveJob.fresh, DriveJob.toRecord]
  cleared := by
    intro name rest hname
    have hgone : name ∉ memory.entries .challenges := fun hmem =>
      ((hrestarts.challenges name).mp hmem).2 hname
    exact h.mirrors.none_of_not_mem hgone (Mirrors.entry_prefix_iff.mpr ⟨rfl, rfl⟩)
  kept := h.kept

end Underway
end FileStore

/-!
## Sites
-/

namespace Site

open Act

variable {store : FileStore} {command : RenewCommand} {made first : Tree} {home : Path}
  {registry : Registry} {origin memory later : MemoryStore}

theorem run_onTree {ε α : Type} {act : ExceptT ε (StateM Tree) α} {site : Site}
    {result : Except ε α} {tree : Tree} (h : act site.tree = (result, tree)) :
    (onTree act).run site = .ok (result, { site with tree := tree }) := by
  show onTree act site = _
  rw [onTree, h]

abbrev Underway (store : FileStore) (made : Tree) (home : Path) (registry : Registry)
    (origin : MemoryStore) (first : Tree) (memory : MemoryStore) (site : Site) : Prop :=
  store.Underway made home registry origin first memory site.tree

theorem carries_note {event : Event} (hevent : event.date? = none) :
    (note event).Carries (Underway store made home registry origin first) memory () memory := by
  intro site hsite
  have htold : event.Told (LogLevel.takes site.kept) := Event.told_of_undated hevent
  rcases Event.exists_entries htold with ⟨entries, hentries⟩
  refine ⟨{ site with log := entries.reverse ++ site.log }, ?_, hsite⟩
  show note event site = _
  rw [note, hentries]
  rfl

theorem carries_onTree {ε α : Type} {act : ExceptT ε (StateM Tree) α} {result : Except ε α}
    (h : forall tree, store.Underway made home registry origin first memory tree ->
      exists final, act tree = (result, final) ∧
        store.Underway made home registry origin first later final) :
    (onTree act).Carries (Underway store made home registry origin first) memory result later := by
  intro site hsite
  rcases h site.tree hsite with ⟨final, hrun, hfinal⟩
  exact ⟨{ site with tree := final }, run_onTree hrun, hfinal⟩

/-- Where the file system takes all routes, the host of a site serves the calls of a start. -/
theorem serves_start (horigin : store.Mirrors made home first origin)
    (hlisting : (store.below [Group.challenges.name]).fault? = none)
    (htakes : forall name, name ∈ registry.watchedNames ∨ name ∈ origin.entries .challenges ->
      store.Takes name) :
    (host store command).Serves (registry.StartCall origin)
      (Underway store made home registry origin first) where
  note event memory hevent := carries_note hevent
  loadJob name memory hcall := by
    have hname := htakes name (.inl hcall)
    refine carries_onTree fun tree htree => ⟨tree, ?_, htree⟩
    exact htree.mirrors.run_loadJob hname.accepts hname.record
  saveJob name record memory hcall := by
    have hname := htakes name (.inl hcall.1.1)
    refine carries_onTree fun tree htree => ?_
    rcases htree.mirrors.run_saveJob hname.accepts hname.record record with
      ⟨final, hsave, hmirrors⟩
    rcases htree.mirrors.run_writeRecord_entry .job hname.accepts hname.record record.toJson with
      ⟨mid, written, hpaved, hwrite, -, hget⟩
    have hsaveWritten : store.saveJob name record tree = (.ok (), written) :=
      (FileStore.run_atEntry hname.accepts.faultless _).trans hwrite
    cases hsave.symm.trans hsaveWritten
    exact ⟨final, hsave, htree.saved horigin hcall hmirrors hpaved hget⟩
  purge group name memory hcall := by
    have hroute : NameFault.Accepts name ∧
        (store.below [group.name, name]).fault? = none := by
      cases group with
      | staging =>
          have hname := htakes name (.inl hcall.1)
          exact ⟨hname.accepts, FileStore.fault?_entry hname.accepts hname.record⟩
      | challenges => exact ⟨(htakes name hcall.2).accepts, (htakes name hcall.2).challenges⟩
      | domains => exact hcall.elim
    have hpurge : (onTree (store.purge group name)).Carries
        (Underway store made home registry origin first) memory
        (.ok (decide (name ∈ memory.entries group))) (memory.purge group name) := by
      refine carries_onTree fun tree htree => ?_
      rcases htree.mirrors.run_purge_entry hroute.1 hroute.2 with ⟨final, hpurge, hs, hget⟩
      exact ⟨final, hpurge, htree.purged hcall hs hget⟩
    refine carries_bind hpurge ?_
    dsimp only
    split
    · exact carries_bind (carries_note rfl) (carries_pure _ _)
    · exact carries_pure _ _
  listNames group memory hcall := by
    cases hcall
    show (onTree (store.listNames .challenges)).Carries _ memory _ memory
    refine carries_onTree fun tree htree => ⟨tree, ?_, htree⟩
    exact htree.mirrors.run_listNames hlisting

end Site

/-!
## The effect of a start
-/

/-- A start with distinct names comes to its end wherever the store refuses nothing. It gives a
job for each watched name, taken from its record or fresh, and recovers the names that fail; the
challenges of these and of unknown names are gone, and nothing else in the store has changed. The
same holds of a file store, where an entry that was recovered holds a fresh record only. -/
theorem start_restarts {registry : Registry} (hdistinct : registry.Distinct)
    (settings : DriveSettings) :
    (forall world : Rehearsal, world.Serving ->
      exists later,
        (Rehearsal.host.start registry settings).run world =
          .ok (registry.begun settings world.store, later) ∧
        world.store.Restarts (registry.Recovers world.store)
          (registry.Clearable world.store.Failing) later.store) ∧
    (forall (store : FileStore) (command : RenewCommand) (made : Tree) (home : Path)
        (memory : MemoryStore) (site : Site),
      store.Mirrors made home site.tree memory ->
      (store.below [Group.challenges.name]).fault? = none ->
      (forall name, name ∈ registry.watchedNames ∨ name ∈ memory.entries .challenges ->
        store.Takes name) ->
      exists later,
        ((Site.host store command).start registry settings).run site =
          .ok (registry.begun settings memory, later) ∧
        site.tree.Restarts home (registry.Recovers memory) (registry.Clearable memory.Failing)
          later.tree) := by
  constructor
  · intro world hworld
    have hserves := Rehearsal.serves_of_serving (registry.StartCall world.store)
    rcases hserves.start hdistinct settings world ⟨hworld, rfl⟩ with ⟨later, hrun, _, hstore⟩
    refine ⟨later, hrun, ?_⟩
    rw [hstore]
    exact world.store.restarts_restarted registry
  · intro store command made home memory site hmirrors hlisting htakes
    have hserves : (Site.host store command).Serves (registry.StartCall memory) _ :=
      Site.serves_start hmirrors hlisting htakes
    rcases hserves.start hdistinct settings site (.begin hmirrors) with ⟨later, hrun, hlater⟩
    exact ⟨later, hrun, hlater.restarts (memory.restarts_restarted registry)⟩

theorem FileStore.Mirrors.exists_served {store : FileStore} {made tree : Tree} {home : Path}
    {memory : MemoryStore} {calls : List StoreCall} (h : store.Mirrors made home tree memory)
    (hcalls : forall call, call ∈ calls -> call.Accepted store) :
    exists later, store.Mirrors made home later
      (calls.foldl (fun memory call => (memory.serve call).2) memory) := by
  induction calls generalizing tree memory with
  | nil => exact ⟨tree, h⟩
  | cons call rest ih =>
      rw [List.forall_mem_cons] at hcalls
      rcases h.serve hcalls.1 with ⟨mid, _, hmid⟩
      exact ih hmid hcalls.2

def leftoverCalls : List StoreCall :=
  [.saveJob "a" { name := "a", errorRuns := 1 }, .saveJob "b" { name := "b", finished := true },
    .addEntry .challenges "a", .addEntry .challenges "c", .addEntry .challenges "d"]

def MemoryStore.leftovers : MemoryStore :=
  leftoverCalls.foldl (fun memory call => (memory.serve call).2) .empty

theorem MemoryStore.failing_leftovers_iff {name : String} :
    MemoryStore.leftovers.Failing name ↔ name = "a" := by
  have hrecord : MemoryStore.leftovers.loadJob name =
      if name = "b" then some { name := "b", finished := true }
      else if name = "a" then some { name := "a", errorRuns := 1 } else none := rfl
  unfold Failing
  rw [hrecord]
  split_ifs with hb ha
  · simp [hb]
  · simp [ha]
  · simp [ha]

def Registry.watchful : Registry :=
  ⟨[⟨"a", .incomplete, .auto, .default, none⟩, ⟨"b", .incomplete, .always, .default, none⟩,
    ⟨"c", .incomplete, .manual, .default, none⟩]⟩

theorem Registry.recovers_leftovers : Registry.watchful.Recovers .leftovers "a" :=
  ⟨by decide, MemoryStore.failing_leftovers_iff.mpr rfl⟩

theorem Registry.clearable_leftovers_iff {name : String}
    (h : name ∈ MemoryStore.leftovers.entries .challenges) :
    Registry.watchful.Clearable MemoryStore.leftovers.Failing name ↔ name ≠ "c" := by
  have hname : name ∈ ["a", "c", "d"] := h
  simp only [List.mem_cons, List.not_mem_nil, or_false] at hname
  rcases hname with rfl | rfl | rfl
  · exact iff_of_true (.inr recovers_leftovers) (by decide)
  · refine iff_of_false ?_ (by decide)
    rintro (hunknown | ⟨hwatched, -⟩)
    · exact absurd hunknown (by decide)
    · exact absurd hwatched (by decide)
  · exact iff_of_true (.inl (by decide)) (by decide)

theorem FileStore.exists_mirrors_leftovers :
    exists made home tree,
      (FileStore.mk (Route.ofText [] "/store")).Mirrors made home tree .leftovers := by
  have hbase : forall name, name ∈ ["store"] -> Tree.IsName name :=
    List.forall_mem_singleton.mpr ⟨by decide, by decide, by decide⟩
  have habsent : (FileStore.mk (Route.ofText [] "/store")).Absent .empty :=
    absent_in_empty rfl (rfl : Tree.empty.follow [] [""] = _) rfl (List.cons_ne_nil _ _) hbase
      (by decide)
  rcases habsent.unfounded with ⟨made, home, hunfounded⟩
  have haccepted : forall call, call ∈ leftoverCalls ->
      call.Accepted (FileStore.mk (Route.ofText [] "/store")) := by
    intro call hcall
    simp only [leftoverCalls, List.mem_cons, List.not_mem_nil, or_false] at hcall
    rcases hcall with rfl | rfl | rfl | rfl | rfl
    all_goals
      refine ⟨?_, by decide⟩
      rintro _ ⟨⟩
      exact ⟨by decide, by decide⟩
  rcases hunfounded.founded.mirrors.exists_served haccepted with ⟨tree, htree⟩
  exact ⟨made, home, tree, htree⟩

theorem FileStore.takes_leftovers (name : String)
    (h : name ∈ Registry.watchful.watchedNames ∨
      name ∈ MemoryStore.leftovers.entries .challenges) :
    (FileStore.mk (Route.ofText [] "/store")).Takes name := by
  have hname : name ∈ ["a", "b"] ∨ name ∈ ["a", "c", "d"] := h
  simp only [List.mem_cons, List.not_mem_nil, or_false] at hname
  rcases hname with (rfl | rfl) | rfl | rfl | rfl <;>
    exact ⟨⟨by decide, by decide⟩, by decide, by decide⟩

theorem restarts_leftovers :
    Registry.watchful.Distinct ∧
    (exists later,
      (Rehearsal.host.start .watchful {}).run (.atRest .leftovers) =
        .ok (some ⟨.watchful, {}, [{ name := "a", resetStaging := true },
          { name := "b", finished := true }]⟩, later) ∧
      later.store.records "a" = some { name := "a" } ∧
      later.store.records "b" = some { name := "b", finished := true } ∧
      forall name, name ∈ later.store.entries .challenges ↔ name = "c") ∧
    exists made home tree,
      (FileStore.mk (Route.ofText [] "/store")).Mirrors made home tree .leftovers ∧
      forall command clock programs, exists later,
        ((Site.host (FileStore.mk (Route.ofText [] "/store")) command).start .watchful {}).run
          ⟨tree, clock, programs, none, []⟩ =
          .ok (some ⟨.watchful, {}, [{ name := "a", resetStaging := true },
            { name := "b", finished := true }]⟩, later) ∧
        later.tree.get? (home ++ ["staging", "a", "job.json"]) =
          some (.file (Json.bytesOf (DriveJob.fresh "a").toRecord.toJson.pretty)) ∧
        (forall file, file ≠ "job.json" ->
          later.tree.get? (home ++ ["staging", "a", file]) = none) ∧
        later.tree.get? (home ++ ["challenges", "d"]) = none := by
  have hdistinct : Registry.watchful.Distinct := by simp [Registry.Distinct, Registry.watchful]
  rcases start_restarts hdistinct {} with ⟨hrehearsal, hsite⟩
  refine ⟨hdistinct, ?_, ?_⟩
  · rcases hrehearsal (.atRest .leftovers) fun _ _ => rfl with ⟨later, hrun, hrestarts⟩
    refine ⟨later, hrun, hrestarts.recovered "a" Registry.recovers_leftovers, ?_, ?_⟩
    · refine hrestarts.records "b" fun hrecovers => ?_
      exact absurd (MemoryStore.failing_leftovers_iff.mp hrecovers.2) (by decide)
    · intro name
      rw [hrestarts.challenges]
      constructor
      · rintro ⟨hname, hkept⟩
        exact not_not.mp ((Registry.clearable_leftovers_iff hname).not.mp hkept)
      · rintro rfl
        exact ⟨by decide, fun h => (Registry.clearable_leftovers_iff (by decide)).mp h rfl⟩
  · rcases FileStore.exists_mirrors_leftovers with ⟨made, home, tree, hmirrors⟩
    refine ⟨made, home, tree, hmirrors, fun command clock programs => ?_⟩
    rcases hsite _ command made home _ ⟨tree, clock, programs, none, []⟩ hmirrors (by decide)
      FileStore.takes_leftovers with ⟨later, hrun, hrestarts⟩
    refine ⟨later, hrun, hrestarts.recovered "a" Registry.recovers_leftovers, ?_, ?_⟩
    · intro file hfile
      exact hrestarts.emptied "a" [file] Registry.recovers_leftovers (List.cons_ne_nil _ _)
        fun heq => hfile (List.singleton_inj.mp heq)
    · exact hrestarts.cleared "d" [] (.inl (by decide))

end RenewalDrive
