import RenewalDrive.Proofs.Deeds.Scripts
import RenewalDrive.Proofs.Drive.Lasting
import RenewalDrive.Proofs.Run.Attempt
import RenewalDrive.Proofs.Store.Memory

/-!
# The sight of a name

All that a world holds under one name: what the store has of it, the outcomes that are set
down for its attempts, and the attempts that were made. What is done for another name leaves
the sight of a name as it is, and what is done for the name itself depends on nothing else.
-/

namespace RenewalDrive

/-!
## Sights
-/

@[ext]
structure Sight where
  record : Option JobRecord
  credential : Option Credential
  /-- The groups that have an entry for the name. -/
  entered : Group -> Bool
  /-- The outcomes of the attempts to come. -/
  scripts : List Script
  /-- The attempts that were made, the last one first. -/
  attempts : List Deed

namespace Sight

def saved (sight : Sight) (record : JobRecord) : Sight :=
  { sight with
    record := some record
    entered := fun group => group = .staging || sight.entered group }

def purged (sight : Sight) (group : Group) : Sight :=
  { sight with
    record := if group = .staging then none else sight.record
    credential := if group = .domains then none else sight.credential
    entered := fun other => other ≠ group && sight.entered other }

def outcome (sight : Sight) : RenewOutcome :=
  (sight.scripts.headD .unscripted).outcome

def attempted (sight : Sight) (domain : ManagedDomain) (reset : Bool) : Sight :=
  { sight with
    scripts := sight.scripts.tail
    attempts := .attempted domain reset sight.outcome .zero :: sight.attempts }

end Sight

namespace Rehearsal

def sight (name : String) (world : Rehearsal) : Sight where
  record := world.store.records name
  credential := world.store.credentials name
  entered group := (world.store.entries group).contains name
  scripts := Script.reservedFor name world.scripts
  attempts := world.journal.filter (Deed.attempts name)

variable {name other : String}

theorem sight_after {deed : Deed} (world : Rehearsal) (h : deed.attempt? = none) :
    (world.after deed).sight name = world.sight name := by
  have hattempts : deed.attempts name = false := by
    simp [Deed.attempts, h]
  ext1
  case attempts =>
    exact List.filter_cons_of_neg (by simp [hattempts])
  all_goals rfl

theorem sight_saveJob (world : Rehearsal) (record : JobRecord) :
    ({ world with store := world.store.saveJob name record }).sight name =
      (world.sight name).saved record := by
  ext1
  case record =>
    simp [sight, Sight.saved, MemoryStore.saveJob]
  case entered =>
    funext group
    by_cases hgroup : group = .staging
    · simp [sight, Sight.saved, MemoryStore.saveJob, MemoryStore.addEntry, hgroup, mem_insertName]
    · simp [sight, Sight.saved, MemoryStore.saveJob, MemoryStore.addEntry, hgroup]
  all_goals rfl

theorem sight_saveJob_of_ne (world : Rehearsal) (record : JobRecord) (h : other ≠ name) :
    ({ world with store := world.store.saveJob other record }).sight name =
      world.sight name := by
  ext1
  case record =>
    simp [sight, MemoryStore.saveJob, Ne.symm h]
  case entered =>
    funext group
    by_cases hgroup : group = .staging
    · simp [sight, MemoryStore.saveJob, MemoryStore.addEntry, hgroup, mem_insertName, Ne.symm h]
    · simp [sight, MemoryStore.saveJob, MemoryStore.addEntry, hgroup]
  all_goals rfl

theorem sight_purge (world : Rehearsal) (group : Group) :
    ({ world with store := world.store.purge group name }).sight name =
      (world.sight name).purged group := by
  ext1
  case record =>
    simp [sight, Sight.purged, MemoryStore.purge]
  case credential =>
    simp [sight, Sight.purged, MemoryStore.purge]
  case entered =>
    funext entry
    by_cases hgroup : entry = group
    · simp [sight, Sight.purged, MemoryStore.purge, hgroup]
    · simp [sight, Sight.purged, MemoryStore.purge, hgroup]
  all_goals rfl

theorem sight_purge_of_ne (world : Rehearsal) (group : Group) (h : other ≠ name) :
    ({ world with store := world.store.purge group other }).sight name = world.sight name := by
  ext1
  case record =>
    simp [sight, MemoryStore.purge, Ne.symm h]
  case credential =>
    simp [sight, MemoryStore.purge, Ne.symm h]
  case entered =>
    funext entry
    by_cases hgroup : entry = group
    · simp [sight, MemoryStore.purge, hgroup, Ne.symm h]
    · simp [sight, MemoryStore.purge, hgroup]
  all_goals rfl

/-!
## Plain worlds
-/

/-- Every outcome to come is for one name only and takes no time, and all times that a drive
may tell of have mail dates. -/
structure Plain (world : Rehearsal) : Prop where
  reserved : forall script, script ∈ world.scripts -> script.reserved ≠ none
  prompt : forall script, script ∈ world.scripts -> script.took = .zero
  staged : forall script, script ∈ world.scripts -> forall t,
    script.outcome.validFrom = some t -> t.Writable
  installed : forall name credential, world.store.credentials name = some credential ->
    credential.expires.Writable

def afterAttempt (world : Rehearsal) (domain : ManagedDomain) (reset : Bool) : Rehearsal :=
  { world with scripts := (Script.next domain.name world.scripts).2 }.after
    (.attempted domain reset (Script.next domain.name world.scripts).1.outcome .zero)

namespace Plain

variable {world : Rehearsal} {domain : ManagedDomain} {reset : Bool}

theorem after (h : world.Plain) (deed : Deed) : (world.after deed).Plain :=
  ⟨h.reserved, h.prompt, h.staged, h.installed⟩

theorem saveJob (h : world.Plain) (record : JobRecord) :
    ({ world with store := world.store.saveJob name record }).Plain :=
  ⟨h.reserved, h.prompt, h.staged, h.installed⟩

theorem purge (h : world.Plain) (group : Group) :
    ({ world with store := world.store.purge group name }).Plain := by
  refine ⟨h.reserved, h.prompt, h.staged, ?_⟩
  intro owner credential hcredential
  apply h.installed owner credential
  change (if group = .domains ∧ owner = name then none else _) = _ at hcredential
  split at hcredential
  · cases hcredential
  · exact hcredential

theorem afterAttempt (h : world.Plain) : (world.afterAttempt domain reset).Plain :=
  ⟨fun script hscript => h.reserved script (Script.mem_of_mem_next hscript),
    fun script hscript => h.prompt script (Script.mem_of_mem_next hscript),
    fun script hscript => h.staged script (Script.mem_of_mem_next hscript), h.installed⟩

theorem run_attempt (h : world.Plain) :
    (host.attempt domain reset).run world =
      .ok ((world.sight domain.name).outcome, world.afterAttempt domain reset) := by
  have htook := Script.next_holds domain.name (show Script.unscripted.took = .zero from rfl)
    h.prompt
  rw [run_attempt_of_zero reset htook, (Script.next_own domain.name h.reserved).1]
  rw [Rehearsal.afterAttempt, (Script.next_own domain.name h.reserved).1]
  rfl

theorem sight_afterAttempt (h : world.Plain) :
    (world.afterAttempt domain reset).sight domain.name =
      (world.sight domain.name).attempted domain reset := by
  have hnext := Script.next_own domain.name h.reserved
  ext1
  case scripts =>
    exact hnext.2
  case attempts =>
    rw [Rehearsal.afterAttempt, hnext.1]
    exact List.filter_cons_of_pos (by simp [Deed.attempts, Deed.attempt?])
  all_goals rfl

theorem sight_afterAttempt_of_ne (h : world.Plain) (hname : domain.name ≠ name) :
    (world.afterAttempt domain reset).sight name = world.sight name := by
  ext1
  case scripts =>
    exact Script.next_other (Ne.symm hname) h.reserved
  case attempts =>
    exact List.filter_cons_of_neg (by simp [Deed.attempts, Deed.attempt?, hname])
  all_goals rfl

theorem outcome_staged (h : world.Plain) (name : String) {t : Instant}
    (ht : (world.sight name).outcome.validFrom = some t) : t.Writable := by
  have hnext := (Script.next_own name h.reserved).1
  have hstaged : forall t, (Script.next name world.scripts).1.outcome.validFrom = some t ->
      t.Writable := by
    apply Script.next_holds name _ h.staged
    intro t ht
    cases ht
  rw [hnext] at hstaged
  exact hstaged t ht

end Plain

end Rehearsal

/-!
## Weather
-/

def Request.name? : Request -> Option String
  | .load name => some name
  | .save name => some name
  | .credential name => some name
  | .list _ => none
  | .purge _ name => some name

structure Weather where
  now : Instant
  refuses : Nat -> Request -> Bool

/-- The weather is the same for a name: the time is, and so are the requests for the name that
are refused, whenever they are made. -/
structure Weather.Alike (name : String) (weather weather' : Weather) : Prop where
  now : weather.now = weather'.now
  refuses : forall request moment moment', request.name? = some name ->
    weather.refuses moment request = weather'.refuses moment' request

namespace Rehearsal

open Act

def under (weather : Weather) (world : Rehearsal) : Rehearsal :=
  { world with clock := fun _ => weather.now, refuses := weather.refuses }

structure Calm (weather : Weather) (world : Rehearsal) : Prop where
  plain : world.Plain
  clock : world.clock = fun _ => weather.now
  refuses : world.refuses = weather.refuses

theorem Plain.calm {world : Rehearsal} (h : world.Plain) (weather : Weather) :
    (world.under weather).Calm weather :=
  ⟨⟨h.reserved, h.prompt, h.staged, h.installed⟩, rfl, rfl⟩

section

variable {name other : String} {weather weather' : Weather}

theorem lasts_calm (hnow : weather.now.InYears) :
    Lasts (fun _ => true) (Calm weather) := by
  constructor
  case reading =>
    intro world hworld
    show (world.clock world.moment).InYears
    rw [hworld.clock]
    exact hnow
  case told =>
    intro world event _ htold
    exact fun _ => htold rfl
  case after =>
    intro world deed _ hworld
    exact ⟨hworld.plain.after deed, hworld.clock, hworld.refuses⟩

theorem lastsFor_calm (hnow : weather.now.InYears) (name : String) :
    LastsFor (fun _ => true) Instant.Writable Instant.Writable (Calm weather) name := by
  constructor
  case toLasts =>
    exact lasts_calm hnow
  case saveJob =>
    intro world record hworld
    exact ⟨hworld.plain.saveJob record, hworld.clock, hworld.refuses⟩
  case purge =>
    intro world group hworld
    exact ⟨hworld.plain.purge group, hworld.clock, hworld.refuses⟩
  case expires =>
    intro world credential hworld hcredential
    exact hworld.plain.installed name credential hcredential
  case attempt =>
    intro world domain reset _ hworld
    refine ⟨_, _, hworld.plain.run_attempt, ?_, ?_⟩
    · exact ⟨hworld.plain.afterAttempt, hworld.clock, hworld.refuses⟩
    · exact fun t ht => hworld.plain.outcome_staged domain.name ht

/-- A calm world in which a name has a given sight. -/
def Seen (name : String) (weather : Weather) (sight : Sight) (world : Rehearsal) : Prop :=
  world.Calm weather ∧ world.sight name = sight

theorem lasts_seen (hnow : weather.now.InYears) (sight : Sight) :
    Lasts (fun _ => true) (Seen name weather sight) := by
  have hcalm := lasts_calm hnow
  constructor
  case reading =>
    exact fun world hworld => hcalm.reading world hworld.1
  case told =>
    exact fun world event hworld => hcalm.told world event hworld.1
  case after =>
    intro world deed hdeed hworld
    exact ⟨hcalm.after world deed hdeed hworld.1, (sight_after world hdeed).trans hworld.2⟩

theorem lastsFor_seen (hnow : weather.now.InYears) (sight : Sight) (h : other ≠ name) :
    LastsFor (fun _ => true) Instant.Writable Instant.Writable (Seen name weather sight)
      other := by
  have hcalm := lastsFor_calm hnow other
  constructor
  case toLasts =>
    exact lasts_seen hnow sight
  case saveJob =>
    intro world record hworld
    exact ⟨hcalm.saveJob world record hworld.1,
      (sight_saveJob_of_ne world record h).trans hworld.2⟩
  case purge =>
    intro world group hworld
    exact ⟨hcalm.purge world group hworld.1, (sight_purge_of_ne world group h).trans hworld.2⟩
  case expires =>
    exact fun world credential hworld => hcalm.expires world credential hworld.1
  case attempt =>
    intro world domain reset hname hworld
    have hplain := hworld.1.plain
    refine ⟨_, _, hplain.run_attempt, ⟨?_, ?_⟩, ?_⟩
    · exact ⟨hplain.afterAttempt, hworld.1.clock, hworld.1.refuses⟩
    · rw [← hname] at h
      exact (hplain.sight_afterAttempt_of_ne h).trans hworld.2
    · exact fun t ht => hplain.outcome_staged domain.name ht

/-!
## Twin worlds
-/

structure Twins (name : String) (weather weather' : Weather) (world world' : Rehearsal) : Prop where
  first : world.Calm weather
  second : world'.Calm weather'
  sight : world.sight name = world'.sight name

namespace Twins

variable {world world' later : Rehearsal}

theorem after {deed deed' : Deed} (h : Twins name weather weather' world world')
    (hdeed : deed.attempt? = none) (hdeed' : deed'.attempt? = none) :
    Twins name weather weather' (world.after deed) (world'.after deed') where
  first := ⟨h.first.plain.after deed, h.first.clock, h.first.refuses⟩
  second := ⟨h.second.plain.after deed', h.second.clock, h.second.refuses⟩
  sight := by rw [sight_after world hdeed, sight_after world' hdeed', h.sight]

theorem refuses_eq {request : Request} (h : Twins name weather weather' world world')
    (halike : weather.Alike name weather') (hname : request.name? = some name) :
    world.refuses world.moment request = world'.refuses world'.moment request := by
  rw [h.first.refuses, h.second.refuses]
  exact halike.refuses request _ _ hname

theorem reading_eq (h : Twins name weather weather' world world')
    (halike : weather.Alike name weather') : world'.reading = world.reading := by
  unfold reading
  rw [h.first.clock, h.second.clock]
  exact halike.now.symm

end Twins

theorem ask_twins {α : Type} {request : Request} {deed : Except StoreError α -> Deed}
    {serve : MemoryStore -> α × MemoryStore} {ends : Except StoreError α -> Prop}
    (halike : weather.Alike name weather') (hname : request.name? = some name)
    (hdeed : forall answer, (deed answer).attempt? = none)
    (hserved : forall world world', Twins name weather weather' world world' ->
      (serve world.store).1 = (serve world'.store).1 ∧
      Twins name weather weather' { world with store := (serve world.store).2 }
        { world' with store := (serve world'.store).2 } ∧
      ends (.ok (serve world.store).1))
    (hends : forall error, ends (.error error)) :
    (ask request deed serve).InStep (Twins name weather weather') ends := by
  apply inStep_ask
  · exact fun world world' hworlds => hworlds.refuses_eq halike hname
  · exact fun world world' error hworlds => hworlds.after (hdeed _) (hdeed _)
  · intro world world' hworlds
    rcases hserved world world' hworlds with ⟨hanswer, hlaters, hends⟩
    exact ⟨hanswer, hlaters.after (hdeed _) (hdeed _), hends⟩
  · exact hends

theorem Twins.left {α : Type} {act : Act Rehearsal α} {ends : α -> Prop}
    {world world' : Rehearsal} (h : Twins name weather weather' world world')
    (hact : act.InStep (Still (Seen name weather (world.sight name))) ends) :
    exists a later, act.run world = .ok (a, later) ∧ Twins name weather weather' later world' ∧
      ends a := by
  rcases inStep_still_iff.mp hact world ⟨h.first, rfl⟩ with
    ⟨a, later, hrun, ⟨hcalm, hsight⟩, ha⟩
  exact ⟨a, later, hrun, ⟨hcalm, h.second, hsight.trans h.sight⟩, ha⟩

theorem Twins.right {α : Type} {act : Act Rehearsal α} {ends : α -> Prop}
    {world world' : Rehearsal} (h : Twins name weather weather' world world')
    (hact : act.InStep (Still (Seen name weather' (world'.sight name))) ends) :
    exists a later, act.run world' = .ok (a, later) ∧ Twins name weather weather' world later ∧
      ends a := by
  rcases inStep_still_iff.mp hact world' ⟨h.second, rfl⟩ with
    ⟨a, later, hrun, ⟨hcalm, hsight⟩, ha⟩
  exact ⟨a, later, hrun, ⟨h.first, hcalm, h.sight.trans hsight.symm⟩, ha⟩

theorem note_twins (hnow : weather.now.InYears) (hnow' : weather'.now.InYears) {event : Event}
    (hevent : event.Told fun _ => true) :
    (host.note event).InStep (Twins name weather weather') fun _ => True := by
  intro world world' hworlds
  rcases hworlds.left ((lasts_seen hnow _).note hevent) with ⟨_, later, hrun, hleft, _⟩
  rcases hleft.right ((lasts_seen hnow' _).note hevent) with ⟨_, later', hrun', hright, _⟩
  exact ⟨(), later, later', hrun, hrun', hright, trivial⟩

theorem steady_twins (hnow : weather.now.InYears) (halike : weather.Alike name weather') :
    Steady (fun _ => true) Instant.Writable Instant.Writable (Twins name weather weather')
      name := by
  have hnow' : weather'.now.InYears := halike.now ▸ hnow
  have hfirst := lastsFor_calm hnow name
  have hsecond := lastsFor_calm hnow' name
  constructor
  case now =>
    intro world world' hworlds
    refine ⟨world.reading, world.after (.clockRead world.reading),
      world'.after (.clockRead world.reading), rfl, ?_, hworlds.after rfl rfl, ?_⟩
    · rw [← hworlds.reading_eq halike]
      rfl
    · exact hfirst.reading world hworlds.first
  case loadJob =>
    show (Rehearsal.loadJob name).InStep _ _
    apply ask_twins halike rfl
    · exact fun _ => rfl
    · exact fun _ _ hworlds => ⟨congrArg Sight.record hworlds.sight, hworlds, trivial⟩
    · exact fun _ => trivial
  case saveJob =>
    intro record
    show (Rehearsal.saveJob name record).InStep _ _
    apply ask_twins halike rfl
    · exact fun _ => rfl
    · intro world world' hworlds
      refine ⟨rfl, ⟨?_, ?_, ?_⟩, trivial⟩
      · exact hfirst.saveJob world record hworlds.first
      · exact hsecond.saveJob world' record hworlds.second
      · rw [sight_saveJob, sight_saveJob, hworlds.sight]
    · exact fun _ => trivial
  case loadCredential =>
    show (Rehearsal.loadCredential name).InStep _ _
    apply ask_twins halike rfl
    · exact fun _ => rfl
    · intro world world' hworlds
      refine ⟨congrArg Sight.credential hworlds.sight, hworlds, ?_⟩
      intro credential hcredential
      exact hfirst.expires world credential hworlds.first (Except.ok.inj hcredential)
    · intro error credential hcredential
      cases hcredential
  case purge =>
    intro group
    show (Rehearsal.purge group name).InStep _ _
    apply ask_twins halike rfl
    · exact fun _ => rfl
    · intro world world' hworlds
      refine ⟨rfl, ⟨?_, ?_, ?_⟩, trivial⟩
      · exact hfirst.purge world group hworlds.first
      · exact hsecond.purge world' group hworlds.second
      · rw [sight_purge, sight_purge, hworlds.sight]
    · exact fun _ => trivial
  case attempt =>
    intro domain reset hname world world' hworlds
    subst hname
    have hplain := hworlds.first.plain
    have hplain' := hworlds.second.plain
    refine ⟨_, world.afterAttempt domain reset, world'.afterAttempt domain reset,
      hplain.run_attempt, ?_, ⟨?_, ?_, ?_⟩, ?_⟩
    · rw [hworlds.sight]
      exact hplain'.run_attempt
    · exact ⟨hplain.afterAttempt, hworlds.first.clock, hworlds.first.refuses⟩
    · exact ⟨hplain'.afterAttempt, hworlds.second.clock, hworlds.second.refuses⟩
    · rw [hplain.sight_afterAttempt, hplain'.sight_afterAttempt, hworlds.sight]
    · exact fun t ht => hplain.outcome_staged domain.name ht
  case note =>
    intro event hevent
    exact note_twins hnow hnow' hevent

end
end Rehearsal
end RenewalDrive
