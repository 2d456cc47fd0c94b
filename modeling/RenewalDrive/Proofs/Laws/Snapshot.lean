import Mathlib
import RenewalDrive.Config.Basic
import RenewalDrive.Proofs.Deeds.Steps
import RenewalDrive.Proofs.Run.Attempt

/-!
# The registry of a start

A process keeps the registry that it read when it started, and an evaluation patches the domain
of its job with the credentials that the store has by then. What the evaluation works with is
what the configuration would give now, except where the credentials are gone; and where they
cannot be read, it goes by those that the start has found.
-/

namespace RenewalDrive

open Rehearsal Act

/-!
## Registries of a configuration
-/

namespace Config

def registryAt (config : Config) (store : MemoryStore) (now : Instant) : Registry :=
  Id.run (config.registry (fun name => pure (store.loadCredential name)) now)

def entry? (config : Config) (name : String) : Option DomainEntry :=
  config.domains.find? fun entry => entry.name = name

theorem registryAt_eq (config : Config) (store : MemoryStore) (now : Instant) :
    config.registryAt store now =
      ⟨config.domains.map fun entry =>
        config.domain entry (store.loadCredential entry.name) now⟩ := by
  unfold registryAt registry
  simp only [pure_bind, List.mapM_pure]
  rfl

theorem get?_registryAt (config : Config) (store : MemoryStore) (now : Instant)
    (name : String) :
    (config.registryAt store now).get? name =
      (config.entry? name).map fun entry =>
        config.domain entry (store.loadCredential name) now := by
  rw [registryAt_eq]
  unfold Registry.get? entry?
  rw [List.find?_map]
  change (config.domains.find? fun entry => entry.name = name).map _ = _
  cases hfind : config.domains.find? fun entry => entry.name = name with
  | none =>
      rfl
  | some entry =>
      have hname : entry.name = name := by
        simpa using List.find?_some hfind
      simp only [Option.map_some, hname]

theorem contains_registryAt (config : Config) (store : MemoryStore) (now : Instant)
    (name : String) :
    (config.registryAt store now).contains name = (config.entry? name).isSome := by
  unfold Registry.contains
  rw [get?_registryAt, Option.isSome_map]

def reading {σ : Type} (host : Host σ) (config : Config) (now : Instant) :
    Act σ (Except StoreError Registry) :=
  (config.registry (fun name => ExceptT.mk (host.loadCredential name)) now).run

end Config

namespace Rehearsal

theorem run_loadCredential_eq_ok {name : String} {world later : Rehearsal}
    {answer : Option Credential}
    (h : (host.loadCredential name).run world = .ok (.ok answer, later)) :
    answer = world.store.loadCredential name ∧ later.store = world.store := by
  rcases yields_loadCredential name world _ later h with ⟨_, hpassage, rfl⟩
  have hserves := hpassage.serves
  generalize later.store = store at hserves
  cases hserves with
  | cons hvouches hrest =>
      cases hrest
      exact ⟨hvouches, rfl⟩

end Rehearsal

theorem Act.run_bind_eq_ok_ok {σ α β : Type} {act : ExceptT StoreError (Act σ) α}
    {next : α -> ExceptT StoreError (Act σ) β} {world later : σ} {b : β} :
    (act >>= next).run.run world = .ok (.ok b, later) ↔
      exists a mid, act.run.run world = .ok (.ok a, mid) ∧
        (next a).run.run mid = .ok (.ok b, later) := by
  rw [ExceptT.run_bind, run_bind_eq_ok]
  constructor
  · rintro ⟨answer, mid, hact, hnext⟩
    cases answer with
    | error error =>
        cases hnext
    | ok a =>
        exact ⟨a, mid, hact, hnext⟩
  · rintro ⟨a, mid, hact, hnext⟩
    exact ⟨.ok a, mid, hact, hnext⟩

namespace Config

def readEntry {σ : Type} (host : Host σ) (config : Config) (now : Instant) (entry : DomainEntry) :
    ExceptT StoreError (Act σ) ManagedDomain := do
  let credential ← ExceptT.mk (host.loadCredential entry.name)
  return config.domain entry credential now

theorem readEntry_eq_ok {config : Config} {now : Instant} {entry : DomainEntry}
    {world later : Rehearsal} {domain : ManagedDomain}
    (h : (readEntry host config now entry).run.run world = .ok (.ok domain, later)) :
    domain = config.domain entry (world.store.loadCredential entry.name) now ∧
      later.store = world.store := by
  rcases run_bind_eq_ok_ok.mp h with ⟨credential, mid, hload, hlast⟩
  cases hlast
  rcases run_loadCredential_eq_ok hload with ⟨rfl, hstore⟩
  exact ⟨rfl, hstore⟩

theorem mapM_readEntry_eq_ok {config : Config} {now : Instant} {entries : List DomainEntry}
    {world later : Rehearsal} {domains : List ManagedDomain}
    (h : (entries.mapM (readEntry host config now)).run.run world = .ok (.ok domains, later)) :
    domains = entries.map fun entry =>
      config.domain entry (world.store.loadCredential entry.name) now := by
  induction entries generalizing world domains with
  | nil =>
      rw [List.mapM_nil] at h
      cases h
      rfl
  | cons entry rest ih =>
      rw [List.mapM_cons] at h
      rcases run_bind_eq_ok_ok.mp h with ⟨domain, mid, hentry, hrest⟩
      rcases run_bind_eq_ok_ok.mp hrest with ⟨others, final, hothers, hlast⟩
      cases hlast
      rcases readEntry_eq_ok hentry with ⟨rfl, hstore⟩
      rw [ih hothers, hstore]
      rfl

theorem reading_eq_ok {config : Config} {started : Instant} {opening opened : Rehearsal}
    {registry : Registry}
    (h : (config.reading host started).run opening = .ok (.ok registry, opened)) :
    registry = config.registryAt opening.store started := by
  rcases run_bind_eq_ok_ok.mp h with ⟨domains, mid, hdomains, hlast⟩
  cases hlast
  rw [registryAt_eq]
  exact congrArg Registry.mk (mapM_readEntry_eq_ok hdomains)

end Config

/-!
## The domain of an evaluation
-/

namespace Host

variable {σ : Type} (host : Host σ)

/-- The domain that an evaluation of a name works with. -/
def domainAt (registry : Registry) (name : String) (now : Instant) :
    Act σ (Option ManagedDomain) :=
  (registry.get? name).mapM fun domain => host.currentDomain domain now

/-- An evaluation depends on the registry by the domain that it works with only. -/
theorem evaluateDue_eq (job : DriveJob) (now : Instant) :
    exists conclude : Option ManagedDomain -> Act σ DriveJob, forall registry,
      host.evaluateDue registry job now = host.domainAt registry job.name now >>= conclude :=
  ⟨_, fun _ => rfl⟩

end Host

theorem Config.domain_missing_iff (config : Config) (entry : DomainEntry)
    (credential : Option Credential) (now : Instant) :
    (config.domain entry credential now).state = .missingInformation ↔ entry.contacts = [] := by
  unfold Config.domain DomainState.assess
  cases entry.contacts with
  | nil =>
      simp
  | cons contact rest =>
      cases credential with
      | none =>
          simp
      | some credential =>
          by_cases hexpired : credential.expires ≤ now
          · simp [hexpired]
          · simp [hexpired]

theorem Config.install_domain (config : Config) (entry : DomainEntry) (started now : Instant)
    (found : Option Credential) (credential : Credential) :
    (config.domain entry found started).install credential now =
      config.domain entry (some credential) now := by
  have hmissing := config.domain_missing_iff entry found started
  unfold ManagedDomain.install
  rw [ManagedDomain.mk.injEq]
  refine ⟨rfl, ?_, rfl, rfl, rfl⟩
  simp only [hmissing]
  cases hcontacts : entry.contacts with
  | nil =>
      rw [if_pos rfl, hmissing.mpr hcontacts]
      exact ((config.domain_missing_iff entry (some credential) now).mpr hcontacts).symm
  | cons contact rest =>
      rw [if_neg (List.cons_ne_nil contact rest)]
      simp [Config.domain, hcontacts]

/-- Credentials that are read again make of a domain what the configuration makes of them,
unless there are none any more. -/
theorem Config.current_eq_iff (config : Config) (entry : DomainEntry) (started now : Instant)
    (found installed : Option Credential) :
    (config.domain entry found started).current now (.ok installed) =
        config.domain entry installed now ↔
      (found ≠ none -> installed ≠ none) := by
  cases installed with
  | some credential =>
      refine iff_of_true ?_ (by simp)
      exact config.install_domain entry started now found credential
  | none =>
      change config.domain entry found started = config.domain entry none now ↔ _
      cases found with
      | none =>
          exact iff_of_true rfl (by simp)
      | some credential =>
          simp [Config.domain]

def Rehearsal.afterLook (name : String) (world : Rehearsal) : Rehearsal :=
  world.after (.credentialLoaded name (.ok (world.store.loadCredential name)))

section

variable {name : String} {world : Rehearsal}

theorem run_currentDomain_of_served {domain : ManagedDomain} (now : Instant)
    (h : world.refuses world.moment (.credential domain.name) = false) :
    (host.currentDomain domain now).run world =
      .ok (domain.current now (.ok (world.store.loadCredential domain.name)),
        world.afterLook domain.name) := by
  have hload : (host.loadCredential domain.name).run world =
      .ok (.ok (world.store.loadCredential domain.name), world.afterLook domain.name) := by
    show Rehearsal.loadCredential domain.name world = _
    unfold Rehearsal.loadCredential ask
    rw [if_neg (by simp [h])]
    rfl
  unfold Host.currentDomain
  rw [run_bind_of_ok hload]
  cases world.store.loadCredential domain.name with
  | none =>
      rfl
  | some credential =>
      rfl

theorem run_domainAt_of_served (registry : Registry) (now : Instant)
    (h : world.refuses world.moment (.credential name) = false) :
    (host.domainAt registry name now).run world =
      .ok ((registry.get? name).map fun domain =>
          domain.current now (.ok (world.store.loadCredential name)),
        if registry.contains name then world.afterLook name else world) := by
  unfold Host.domainAt Registry.contains
  cases hget : registry.get? name with
  | none =>
      rfl
  | some domain =>
      have hname := Registry.name_of_get? hget
      subst hname
      show (some <$> host.currentDomain domain now).run world = _
      rw [map_eq_pure_bind, run_bind_of_ok (run_currentDomain_of_served now h)]
      rfl

end

/-- The domain that an evaluation works with, when it can read the credentials, is the one
that the configuration would give with the store as it is, exactly when credentials that the
start has found are not gone. The evaluation then goes as it would with that registry. -/
theorem agrees_with_configuration_iff {config : Config} {started : Instant}
    {opening opened later : Rehearsal} {registry : Registry} {name : String} (now : Instant)
    (hregistry : (config.reading host started).run opening = .ok (.ok registry, opened))
    (hserved : later.refuses later.moment (.credential name) = false) :
    exists worked after,
      (host.domainAt registry name now).run later = .ok (worked, after) ∧
      (worked = (config.registryAt later.store now).get? name ↔
        (config.entry? name ≠ none -> opening.store.loadCredential name ≠ none ->
          later.store.loadCredential name ≠ none)) ∧
      (worked = (config.registryAt later.store now).get? name -> forall job : DriveJob,
        job.name = name ->
          (host.evaluateDue registry job now).run later =
            (host.evaluateDue (config.registryAt later.store now) job now).run later) := by
  have hrun := run_domainAt_of_served registry now hserved
  have hfresh := run_domainAt_of_served (config.registryAt later.store now) now hserved
  rw [Config.reading_eq_ok hregistry] at hrun ⊢
  refine ⟨_, _, hrun, ?_, ?_⟩
  · rw [Config.get?_registryAt, Config.get?_registryAt]
    cases hentry : config.entry? name with
    | none =>
        exact iff_of_true rfl (by simp)
    | some entry =>
        have hcurrent := config.current_eq_iff entry started now
          (opening.store.loadCredential name) (later.store.loadCredential name)
        simp only [Option.map_some, Option.some_inj, hcurrent]
        simp
  · intro hworked job hname
    subst hname
    rcases host.evaluateDue_eq job now with ⟨conclude, hconclude⟩
    have hsame : ((config.registryAt later.store now).get? job.name).map (fun domain =>
        domain.current now (.ok (later.store.loadCredential job.name))) =
          (config.registryAt later.store now).get? job.name := by
      rw [Config.get?_registryAt, Option.map_map]
      congr 1
      funext entry
      exact (config.current_eq_iff entry now now _ _).mpr id
    rw [hconclude, hconclude, run_bind_of_ok hrun, run_bind_of_ok hfresh, hworked, hsame,
      config.contains_registryAt, config.contains_registryAt]

def Config.managing : Config where
  storeDirectory := none
  notifyCommand := none
  renewCommand := none
  checkInterval := defaultCheckInterval
  renewWindow := .default
  domains := [⟨"a", ["admin"], .auto, none⟩]

/-- A world at rest with credentials for "a" that are valid until an instant. -/
def installed (expires : Instant) : Rehearsal :=
  Rehearsal.atRest (MemoryStore.empty.saveCredential "a" ⟨.epoch, expires⟩)

/-- Credentials that were replaced since the start are taken up. -/
theorem agrees_after_replacement :
    exists registry opened worked after,
      (Config.managing.reading host .epoch).run (installed .epoch) = .ok (.ok registry, opened) ∧
      (host.domainAt registry "a" .epoch).run (installed .latest) = .ok (worked, after) ∧
      worked = (Config.managing.registryAt (installed .latest).store .epoch).get? "a" := by
  have hreading : (Config.managing.reading host .epoch).run (installed .epoch) =
      .ok (.ok _, _) := rfl
  have hserved : (installed .latest).refuses (installed .latest).moment (.credential "a") =
      false := rfl
  rcases agrees_with_configuration_iff .epoch hreading hserved with
    ⟨worked, after, hrun, hagrees, _⟩
  refine ⟨_, _, worked, after, hreading, hrun, hagrees.mpr ?_⟩
  intro _ _
  exact Option.some_ne_none _

/-- Credentials that were removed since the start are kept. -/
theorem disagrees_after_removal :
    exists registry opened worked after,
      (Config.managing.reading host .epoch).run (installed .latest) = .ok (.ok registry, opened) ∧
      (host.domainAt registry "a" .epoch).run
        (Rehearsal.atRest ((installed .latest).store.purge .domains "a")) = .ok (worked, after) ∧
      worked ≠ (Config.managing.registryAt
        ((installed .latest).store.purge .domains "a") .epoch).get? "a" := by
  refine ⟨_, _, _, _, rfl, rfl, ?_⟩
  decide

/-!
## Attempts after a failed look
-/

theorem Config.domain_shouldRenew_iff (config : Config) {entry : DomainEntry}
    (found : Option Credential) (started now : Instant) (h : entry.contacts ≠ []) :
    (config.domain entry found started).shouldRenew now = true ↔
      forall credential, found = some credential -> credential.expires ≤ started ∨
        ManagedDomain.windowOpen (config.window entry) credential now = true := by
  unfold Config.domain DomainState.assess ManagedDomain.shouldRenew
  cases found with
  | none =>
      simp [h]
  | some credential =>
      by_cases hexpired : credential.expires ≤ started
      · simp [h, hexpired]
      · simp [h, hexpired]

/-- An evaluation that cannot read the credentials goes by those that the start has found,
whatever the store holds: it makes an attempt unless they had not expired at the start and
their window is not open yet, or the job waits for others that are staged, or the
configuration of the domain lacks something. -/
theorem attempted_after_failed_read_iff {config : Config} {started : Instant}
    {opening opened world later : Rehearsal} {registry : Registry} {job : DriveJob}
    {result : Evaluation × DriveJob} {deeds : List Deed} {error : StoreError}
    (hregistry : (config.reading host started).run opening = .ok (.ok registry, opened))
    (hevaluate : (host.evaluate registry job).run world = .ok (result, later))
    (hdeeds : later.requests = world.requests ++ deeds)
    (hfailed : .credentialLoaded job.name (.error error) ∈ deeds) :
    exists loading loaded now rest entry,
      deeds = (loading ++ [.clockRead now]) ++ rest ∧ Reloads job loading loaded ∧
      config.entry? job.name = some entry ∧
      ((exists deed, deed ∈ deeds ∧ deed.attempt?.isSome = true) ↔
        entry.contacts ≠ [] ∧
        (loaded.finished = false ∨
          loaded.isActivated (opening.store.loadCredential job.name) = true) ∧
        forall credential, opening.store.loadCredential job.name = some credential ->
          credential.expires ≤ started ∨
            ManagedDomain.windowOpen (config.window entry) credential now = true) := by
  rcases yields_evaluate registry job world result later hevaluate with
    ⟨done, hpassage, hevaluates⟩
  have hdone : done = deeds := List.append_cancel_left (hpassage.requests.symm.trans hdeeds)
  subst hdone
  rcases hevaluates.looks hfailed with ⟨before, after, rfl, _, _, hlooks⟩
  rcases hlooks.attempt_iff job.name with
    ⟨loading, loaded, now, configured, rfl, hloads, hget, hattempt⟩
  rw [Config.reading_eq_ok hregistry, Config.get?_registryAt] at hget
  rcases Option.map_eq_some_iff.mp hget with ⟨entry, hentry, rfl⟩
  refine ⟨loading, loaded, now, _, entry, rfl, hloads, hentry, hattempt.trans ?_⟩
  -- A failed look leaves the domain as the start has assessed it.
  have hmissing := config.domain_missing_iff entry (opening.store.loadCredential job.name) started
  refine (and_congr hmissing.not Iff.rfl).trans ?_
  refine and_congr_right fun hcontacts => and_congr_right fun _ => ?_
  exact config.domain_shouldRenew_iff _ started now hcontacts

def unreadable (expires : Instant) : Rehearsal :=
  { installed expires with refuses := fun _ request => request = .credential "a" }

/-- Credentials that were fine at the start and still are need not be read again. -/
theorem spared_after_failed_read :
    exists registry opened result later deeds error,
      (Config.managing.reading host .epoch).run (installed .latest) = .ok (.ok registry, opened) ∧
      (host.evaluate registry (.fresh "a")).run (unreadable .latest) = .ok (result, later) ∧
      later.requests = (unreadable .latest).requests ++ deeds ∧
      .credentialLoaded "a" (.error error) ∈ deeds ∧
      forall deed, deed ∈ deeds -> deed.attempt?.isSome = false := by
  let registry : Registry := ⟨[⟨"a", .complete, .auto, .default, some ⟨.epoch, .latest⟩⟩]⟩
  let deeds : List Deed := [.recordLoaded "a" (.ok none), .clockRead .epoch,
    .credentialLoaded "a" (.error (.unavailable (.credential "a")))]
  have hreading : (Config.managing.reading host .epoch).run (installed .latest) =
      .ok (.ok registry, (installed .latest).afterLook "a") := rfl
  have hevaluate : (host.evaluate registry (.fresh "a")).run (unreadable .latest) =
      .ok (_, _) := rfl
  have hfailed : .credentialLoaded "a" (.error (.unavailable (.credential "a"))) ∈ deeds := by
    simp [deeds]
  refine ⟨registry, _, _, _, deeds, _, hreading, hevaluate, rfl, hfailed, ?_⟩
  rcases attempted_after_failed_read_iff hreading hevaluate rfl hfailed with
    ⟨loading, loaded, now, rest, entry, hsplit, hloads, hentry, hattempt⟩
  cases hentry
  have hnow : now = .epoch := by
    cases hloads with
    | kept hdirty =>
        cases hdirty
    | asked _ _ =>
        cases hsplit
        rfl
  subst hnow
  intro deed hdeed
  rw [Bool.eq_false_iff]
  intro hmade
  rcases (hattempt.mp ⟨deed, hdeed, hmade⟩).2.2 ⟨.epoch, .latest⟩ rfl with hexpired | hopen
  · exact absurd hexpired (by decide)
  · exact absurd hopen (by decide)

/-- A process that has found no credentials at its start makes an attempt when it cannot read
those that were installed since, although their window is not open. -/
theorem attempted_despite_installed_credentials :
    exists registry opened early started world trace later,
      (Config.managing.reading host .epoch).run (Rehearsal.atRest .empty) =
        .ok (.ok registry, opened) ∧
      Run ⟨opened, none⟩ [.start registry Config.managing.settings] early started ∧
      started.world.Outside world ∧ (forall moment, world.clock moment = .epoch) ∧
      world.store.loadCredential "a" = some ⟨.epoch, .latest⟩ ∧ Instant.epoch < Instant.latest ∧
      ManagedDomain.windowOpen .default ⟨.epoch, .latest⟩ .epoch = false ∧
      Run ⟨world, started.context⟩ [.evaluate 0] trace later ∧
      (exists setup error, ⟨setup, .credentialLoaded "a" (.error error)⟩ ∈ trace) ∧
      exists happening, happening ∈ trace ∧ happening.deed.attempt?.isSome = true := by
  let registry : Registry := .single "a" .incomplete
  let setup : Setup := ⟨registry, Config.managing.settings⟩
  let context : DriveContext := ⟨registry, Config.managing.settings, [.fresh "a"]⟩
  let journal : List Deed :=
    [.listed .challenges (.ok []), .recordLoaded "a" (.ok none), .credentialLoaded "a" (.ok none)]
  let world : Rehearsal := { unreadable .latest with journal := journal }
  let unfound : ManagedDomain := ⟨"a", .incomplete, .auto, .default, none⟩
  let failed : JobRecord :=
    { name := "a", nextRun := some ⟨5, 0, by decide⟩, errorRuns := 1, lastStatus := .failed,
      lastMessage := some "no scripted outcome" }
  let refused : Deed := .credentialLoaded "a" (.error (.unavailable (.credential "a")))
  let attempt : Deed := .attempted unfound false (.failed "no scripted outcome") .zero
  have hstart : (Process.mk ((Rehearsal.atRest .empty).afterLook "a") none).play
      [.start registry Config.managing.settings] =
        .ok (⟨{ Rehearsal.atRest .empty with journal := journal }, some context⟩,
          [.recordLoaded "a" (.ok none), .listed .challenges (.ok [])].map
            (Happening.mk setup)) := rfl
  have hplay : ((Process.mk world (some context)).play [.evaluate 0]).map
      (fun played => ((), played.2)) =
        .ok ((), [.recordLoaded "a" (.ok none), .clockRead .epoch, refused, attempt,
          .recordSaved "a" failed (.ok ())].map (Happening.mk setup)) := by
    cbv
  rcases Process.run_of_play (fun _ => ()) hplay with ⟨later, hevaluate, _⟩
  refine ⟨registry, _, _, _, world, _, later, rfl, Process.run_of_play_eq hstart, ⟨rfl, rfl⟩,
    fun _ => rfl, rfl, by decide, by decide, hevaluate, ?_, ⟨setup, attempt⟩, ?_, rfl⟩
  · exact ⟨setup, .unavailable (.credential "a"), by simp [refused]⟩
  · simp

end RenewalDrive
