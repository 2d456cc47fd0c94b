import Mathlib
import RenewalDrive.Config.Load
import RenewalDrive.Proofs.Run.Share
import RenewalDrive.Proofs.Store.Acts
import RenewalDrive.Proofs.Text.Words

/-!
# Valid configurations and their registries

Validation blames the first flaw: the commands come first, then the entries in their order. What
passes has a name for each entry that no other entry has, so whatever a store answers for the
names, the registry has one domain for each entry, and a name finds the domain of its own entry.
-/

namespace RenewalDrive

open Text

namespace Config

/-!
## What is valid
-/

def Wordless (command : Option String) : Prop :=
  exists text, command = some text ∧ Blanks text.toList

structure Unambiguous (entries : List DomainEntry) : Prop where
  named : forall entry, entry ∈ entries -> ¬ Blanks entry.name.toList
  distinct : (entries.map (·.name)).Nodup

structure Valid (config : Config) : Prop where
  notify : ¬ Wordless config.notifyCommand
  renew : ¬ Wordless config.renewCommand
  entries : Unambiguous config.domains

inductive Blamed (before : List String) (entry : DomainEntry) : Flaw -> Prop
  | empty : Blanks entry.name.toList -> Blamed before entry .emptyDomainName
  | repeated : ¬ Blanks entry.name.toList -> entry.name ∈ before ->
      Blamed before entry (.repeatedDomain entry.name)

/-- The first flaw of some entries behind entries with some names: those before the blamed one
are all right. -/
def FirstBlamed (before : List String) (entries : List DomainEntry) (flaw : Flaw) : Prop :=
  exists front entry rest, entries = front ++ entry :: rest ∧ Unambiguous front ∧
    (forall other, other ∈ front -> other.name ∉ before) ∧
    Blamed (front.map (·.name) ++ before) entry flaw

inductive Blames (config : Config) : Flaw -> Prop
  | notify : Wordless config.notifyCommand -> Blames config (.blankCommand "notify_cmd")
  | renew : ¬ Wordless config.notifyCommand -> Wordless config.renewCommand ->
      Blames config (.blankCommand "renew_cmd")
  | entry {flaw : Flaw} : ¬ Wordless config.notifyCommand -> ¬ Wordless config.renewCommand ->
      FirstBlamed [] config.domains flaw -> Blames config flaw

section

variable {field : String} {command : Option String} {seen before : List String} {flaw : Flaw}
variable {first entry : DomainEntry} {entries : List DomainEntry}

theorem allBlank_iff {text : String} : allBlank text = true ↔ Blanks text.toList :=
  List.all_eq_true

theorem commandFlaw?_eq_some_iff :
    commandFlaw? field command = some flaw ↔ Wordless command ∧ flaw = .blankCommand field := by
  have hany : command.any allBlank = true ↔ Wordless command := by
    simp only [Option.any_eq_true, allBlank_iff, Wordless]
  unfold commandFlaw?
  rw [Option.ite_none_right_eq_some, hany, Option.some_inj, eq_comm]

theorem commandFlaw?_eq_none_iff : commandFlaw? field command = none ↔ ¬ Wordless command := by
  rw [Option.eq_none_iff_forall_ne_some]
  constructor
  · exact fun h hwordless => h _ (commandFlaw?_eq_some_iff.mpr ⟨hwordless, rfl⟩)
  · exact fun h flaw hflaw => h (commandFlaw?_eq_some_iff.mp hflaw).1

theorem Blamed.congr (h : Blamed seen entry flaw)
    (hmem : entry.name ∈ seen -> entry.name ∈ before) : Blamed before entry flaw := by
  cases h with
  | empty hblank => exact .empty hblank
  | repeated hname hseen => exact .repeated hname (hmem hseen)

theorem unambiguous_nil : Unambiguous [] :=
  ⟨nofun, List.nodup_nil⟩

theorem unambiguous_cons_iff :
    Unambiguous (first :: entries) ↔ ¬ Blanks first.name.toList ∧ Unambiguous entries ∧
      forall entry, entry ∈ entries -> entry.name ≠ first.name := by
  constructor
  · rintro ⟨hnamed, hdistinct⟩
    rcases List.forall_mem_cons.mp hnamed with ⟨hfirst, hrest⟩
    rcases List.nodup_cons.mp hdistinct with ⟨hnew, hnodup⟩
    refine ⟨hfirst, ⟨hrest, hnodup⟩, fun entry hentry heq => hnew ?_⟩
    exact List.mem_map.mpr ⟨entry, hentry, heq⟩
  · rintro ⟨hfirst, ⟨hnamed, hdistinct⟩, hne⟩
    refine ⟨List.forall_mem_cons.mpr ⟨hfirst, hnamed⟩, List.nodup_cons.mpr ⟨?_, hdistinct⟩⟩
    intro hmem
    rcases List.mem_map.mp hmem with ⟨entry, hentry, heq⟩
    exact hne entry hentry heq

theorem domainFlaw?_eq_none_iff :
    domainFlaw? seen entries = none ↔
      Unambiguous entries ∧ forall entry, entry ∈ entries -> entry.name ∉ seen := by
  induction entries generalizing seen with
  | nil =>
      exact iff_of_true rfl ⟨unambiguous_nil, nofun⟩
  | cons first rest ih =>
      unfold domainFlaw?
      rw [unambiguous_cons_iff, List.forall_mem_cons]
      split_ifs with hblank hseen
      · rw [allBlank_iff] at hblank
        exact iff_of_false nofun fun h => h.1.1 hblank
      · rw [List.contains_iff_mem] at hseen
        exact iff_of_false nofun fun h => h.2.1 hseen
      · rw [allBlank_iff] at hblank
        rw [List.contains_iff_mem] at hseen
        rw [ih]
        simp only [List.mem_cons, not_or]
        constructor
        · rintro ⟨hrest, hnew⟩
          exact ⟨⟨hblank, hrest, fun entry hentry => (hnew entry hentry).1⟩, hseen,
            fun entry hentry => (hnew entry hentry).2⟩
        · rintro ⟨⟨_, hrest, hne⟩, _, hnew⟩
          exact ⟨hrest, fun entry hentry => ⟨hne entry hentry, hnew entry hentry⟩⟩

theorem not_firstBlamed_nil : ¬ FirstBlamed seen [] flaw := by
  rintro ⟨front, entry, rest, hentries, -⟩
  cases front <;> cases hentries

theorem firstBlamed_cons_iff :
    FirstBlamed seen (first :: entries) flaw ↔ Blamed seen first flaw ∨
      ¬ Blanks first.name.toList ∧ first.name ∉ seen ∧
        FirstBlamed (first.name :: seen) entries flaw := by
  constructor
  · rintro ⟨front, entry, rest, hentries, hfront, hnew, hblamed⟩
    cases front with
    | nil =>
        cases hentries
        exact .inl hblamed
    | cons other front =>
        cases hentries
        rcases unambiguous_cons_iff.mp hfront with ⟨hfirst, hrest, hne⟩
        rcases List.forall_mem_cons.mp hnew with ⟨hunseen, hnew⟩
        refine .inr ⟨hfirst, hunseen, front, entry, rest, rfl, hrest, fun other hother hmem => ?_,
          hblamed.congr List.perm_middle.mem_iff.mpr⟩
        rcases List.mem_cons.mp hmem with heq | hmem
        · exact hne other hother heq
        · exact hnew other hother hmem
  · rintro (hblamed | ⟨hfirst, hunseen, front, entry, rest, rfl, hfront, hnew, hblamed⟩)
    · exact ⟨[], first, entries, rfl, unambiguous_nil, nofun, hblamed⟩
    · simp only [List.mem_cons, not_or] at hnew
      refine ⟨first :: front, entry, rest, rfl, ?_, ?_, hblamed.congr List.perm_middle.mem_iff.mp⟩
      · exact unambiguous_cons_iff.mpr ⟨hfirst, hfront, fun other hother => (hnew other hother).1⟩
      · exact List.forall_mem_cons.mpr ⟨hunseen, fun other hother => (hnew other hother).2⟩

theorem blamed_iff_of_blank (h : Blanks entry.name.toList) :
    Blamed seen entry flaw ↔ flaw = .emptyDomainName := by
  constructor
  · rintro (_ | ⟨hname, _⟩)
    · rfl
    · exact absurd h hname
  · rintro rfl
    exact .empty h

theorem blamed_iff_of_named (h : ¬ Blanks entry.name.toList) :
    Blamed seen entry flaw ↔ entry.name ∈ seen ∧ flaw = .repeatedDomain entry.name := by
  constructor
  · rintro (hblank | ⟨_, hseen⟩)
    · exact absurd hblank h
    · exact ⟨hseen, rfl⟩
  · rintro ⟨hseen, rfl⟩
    exact .repeated h hseen

/-- The first flaw of some entries is that of the first entry to be blamed for one. -/
theorem domainFlaw?_eq_some_iff :
    domainFlaw? seen entries = some flaw ↔ FirstBlamed seen entries flaw := by
  induction entries generalizing seen with
  | nil => exact iff_of_false nofun not_firstBlamed_nil
  | cons first rest ih =>
      unfold domainFlaw?
      rw [firstBlamed_cons_iff]
      split_ifs with hblank hseen
      · rw [allBlank_iff] at hblank
        simp [blamed_iff_of_blank hblank, hblank, eq_comm]
      · rw [allBlank_iff] at hblank
        rw [List.contains_iff_mem] at hseen
        simp [blamed_iff_of_named hblank, hseen, eq_comm]
      · rw [allBlank_iff] at hblank
        rw [List.contains_iff_mem] at hseen
        simp [blamed_iff_of_named hblank, hblank, hseen, ih]

variable {config : Config}

theorem flaw?_eq_none_iff : config.flaw? = none ↔ config.Valid := by
  simp only [flaw?, Option.orElse_eq_orElse, Option.orElse_eq_or, Option.or_eq_none_iff,
    commandFlaw?_eq_none_iff, domainFlaw?_eq_none_iff]
  constructor
  · rintro ⟨hnotify, hrenew, hentries, -⟩
    exact ⟨hnotify, hrenew, hentries⟩
  · rintro ⟨hnotify, hrenew, hentries⟩
    exact ⟨hnotify, hrenew, hentries, nofun⟩

theorem flaw?_eq_some_iff : config.flaw? = some flaw ↔ config.Blames flaw := by
  simp only [flaw?, Option.orElse_eq_orElse, Option.orElse_eq_or, Option.or_eq_some_iff,
    commandFlaw?_eq_none_iff, commandFlaw?_eq_some_iff, domainFlaw?_eq_some_iff]
  constructor
  · rintro (⟨hnotify, rfl⟩ | ⟨hnotify, ⟨hrenew, rfl⟩ | ⟨hrenew, hentry⟩⟩)
    · exact .notify hnotify
    · exact .renew hnotify hrenew
    · exact .entry hnotify hrenew hentry
  · rintro (hnotify | ⟨hnotify, hrenew⟩ | ⟨hnotify, hrenew, hentry⟩)
    · exact .inl ⟨hnotify, rfl⟩
    · exact .inr ⟨hnotify, .inl ⟨hrenew, rfl⟩⟩
    · exact .inr ⟨hnotify, .inr ⟨hrenew, hentry⟩⟩

theorem validated_eq_ok_iff : config.validated = .ok config ↔ config.Valid := by
  rw [← flaw?_eq_none_iff, validated]
  cases config.flaw? <;> simp

theorem validated_eq_error_iff {error : ConfigError} :
    config.validated = .error error ↔ exists flaw, config.Blames flaw ∧ error = .flawed flaw := by
  simp only [← flaw?_eq_some_iff, validated]
  cases config.flaw? <;> simp [eq_comm]

end

/-!
## Reading a registry
-/

/-- A store as it is asked for credentials. An answer may depend on all that the store was asked
before. -/
abbrev Source (σ : Type) :=
  String -> ExceptT StoreError (StateM σ) (Option Credential)

inductive Answers {σ : Type} (source : Source σ) :
    σ -> List String -> List (Option Credential) -> σ -> Prop
  | nil (state : σ) : Answers source state [] [] state
  | cons {state mid later : σ} {name : String} {names : List String}
      {credential : Option Credential} {credentials : List (Option Credential)} :
      source name state = (.ok credential, mid) ->
      Answers source mid names credentials later ->
      Answers source state (name :: names) (credential :: credentials) later

inductive Refuses {σ : Type} (source : Source σ) :
    σ -> List String -> StoreError -> σ -> Prop
  | here {state later : σ} {name : String} {names : List String} {error : StoreError} :
      source name state = (.error error, later) ->
      Refuses source state (name :: names) error later
  | later {state mid later : σ} {name : String} {names : List String}
      {credential : Option Credential} {error : StoreError} :
      source name state = (.ok credential, mid) ->
      Refuses source mid names error later ->
      Refuses source state (name :: names) error later

def domainsOf {σ : Type} (config : Config) (source : Source σ) (now : Instant)
    (entries : List DomainEntry) : ExceptT StoreError (StateM σ) (List ManagedDomain) :=
  entries.mapM fun entry => do return config.domain entry (← source entry.name) now

section

variable {σ : Type} {config : Config} {source : Source σ} {now : Instant} {state later mid : σ}
variable {entry : DomainEntry} {entries : List DomainEntry} {error : StoreError}
variable {credential : Option Credential}

theorem domainsOf_cons :
    config.domainsOf source now (entry :: entries) = (do
      let credential ← source entry.name
      let domains ← config.domainsOf source now entries
      return config.domain entry credential now :: domains) := by
  unfold domainsOf
  rw [List.mapM_cons, bind_assoc]
  rfl

theorem domainsOf_cons_of_error (h : source entry.name state = (.error error, later)) :
    config.domainsOf source now (entry :: entries) state = (.error error, later) := by
  rw [domainsOf_cons]
  exact FileAct.run_bind_error h

theorem domainsOf_cons_of_ok (h : source entry.name state = (.ok credential, mid)) :
    config.domainsOf source now (entry :: entries) state =
      match config.domainsOf source now entries mid with
      | (.error error, later) => (.error error, later)
      | (.ok domains, later) => (.ok (config.domain entry credential now :: domains), later) := by
  rw [domainsOf_cons]
  refine (FileAct.run_bind_ok h).trans ?_
  rcases hrest : config.domainsOf source now entries mid with ⟨error | domains, later⟩
  · exact FileAct.run_bind_error hrest
  · exact FileAct.run_bind_ok hrest

/-- The domains are read exactly when the store answers for all names, each with the credentials
that it answered. -/
theorem domainsOf_eq_ok_iff {domains : List ManagedDomain} :
    config.domainsOf source now entries state = (.ok domains, later) ↔
      exists credentials, Answers source state (entries.map (·.name)) credentials later ∧
        domains = entries.zipWith (fun entry credential => config.domain entry credential now)
          credentials := by
  induction entries generalizing state domains with
  | nil =>
      constructor
      · rintro ⟨⟩
        exact ⟨[], .nil _, rfl⟩
      · rintro ⟨_, ⟨⟩, rfl⟩
        rfl
  | cons entry rest ih =>
      rcases hentry : source entry.name state with ⟨error | credential, mid⟩
      · rw [domainsOf_cons_of_error hentry]
        refine iff_of_false nofun ?_
        rintro ⟨_, hanswers, -⟩
        cases hanswers with
        | cons hfirst _ => cases hentry.symm.trans hfirst
      · rw [domainsOf_cons_of_ok hentry]
        rcases hrest : config.domainsOf source now rest mid with ⟨error | others, last⟩
        · refine iff_of_false nofun ?_
          rintro ⟨_, hanswers, -⟩
          cases hanswers with
          | cons hfirst hothers =>
              cases hentry.symm.trans hfirst
              cases hrest.symm.trans (ih.mpr ⟨_, hothers, rfl⟩)
        · constructor
          · rintro ⟨⟩
            rcases ih.mp hrest with ⟨credentials, hothers, rfl⟩
            exact ⟨credential :: credentials, .cons hentry hothers, rfl⟩
          · rintro ⟨_, hanswers, rfl⟩
            cases hanswers with
            | cons hfirst hothers =>
                cases hentry.symm.trans hfirst
                cases hrest.symm.trans (ih.mpr ⟨_, hothers, rfl⟩)
                rfl

/-- The domains are not read exactly when the store refuses one of the credentials. -/
theorem domainsOf_eq_error_iff :
    config.domainsOf source now entries state = (.error error, later) ↔
      Refuses source state (entries.map (·.name)) error later := by
  induction entries generalizing state with
  | nil => exact iff_of_false nofun nofun
  | cons entry rest ih =>
      rcases hentry : source entry.name state with ⟨failure | credential, mid⟩
      · rw [domainsOf_cons_of_error hentry]
        constructor
        · rintro ⟨⟩
          exact .here hentry
        · rintro (hfirst | ⟨hfirst, _⟩)
          · cases hentry.symm.trans hfirst
            rfl
          · cases hentry.symm.trans hfirst
      · rw [domainsOf_cons_of_ok hentry]
        constructor
        · intro h
          rcases hrest : config.domainsOf source now rest mid with ⟨failure | others, last⟩
          · rw [hrest] at h
            cases h
            exact .later hentry (ih.mp hrest)
          · rw [hrest] at h
            cases h
        · rintro (hfirst | ⟨hfirst, hothers⟩)
          · cases hentry.symm.trans hfirst
          · cases hentry.symm.trans hfirst
            rw [ih.mpr hothers]

theorem registry_eq (config : Config) (source : Source σ) (now : Instant) (state : σ) :
    config.registry source now state =
      match config.domainsOf source now config.domains state with
      | (.error error, later) => (.error error, later)
      | (.ok domains, later) => (.ok ⟨domains⟩, later) := by
  rcases hdomains : config.domainsOf source now config.domains state with ⟨error | domains, later⟩
  · exact FileAct.run_bind_error hdomains
  · exact FileAct.run_bind_ok hdomains

theorem registry_eq_error_iff :
    config.registry source now state = (.error error, later) ↔
      Refuses source state (config.domains.map (·.name)) error later := by
  have hdomains : config.domainsOf source now config.domains state = (.error error, later) ↔
      Refuses source state (config.domains.map (·.name)) error later := domainsOf_eq_error_iff
  rw [registry_eq, ← hdomains]
  rcases config.domainsOf source now config.domains state with ⟨failure | domains, last⟩
  · constructor <;> rintro ⟨⟩ <;> rfl
  · exact iff_of_false nofun nofun

theorem registry_eq_ok_iff {registry : Registry} :
    config.registry source now state = (.ok registry, later) ↔
      exists credentials, Answers source state (config.domains.map (·.name)) credentials later ∧
        registry.domains = config.domains.zipWith
          (fun entry credential => config.domain entry credential now) credentials := by
  rw [registry_eq, ← domainsOf_eq_ok_iff]
  rcases config.domainsOf source now config.domains state with ⟨failure | domains, last⟩
  · exact iff_of_false nofun nofun
  · rcases registry with ⟨others⟩
    constructor <;> rintro ⟨⟩ <;> rfl

end

/-!
## Registries of valid configurations
-/

/-- A registry has the domains of a configuration with some credentials, entry by entry, and
finds each by its name. -/
structure Lists (config : Config) (credentials : List (Option Credential)) (now : Instant)
    (registry : Registry) : Prop where
  in_order : registry.domains.map (·.name) = config.domains.map (·.name)
  found : forall {i : Nat} {entry : DomainEntry}, config.domains[i]? = some entry ->
    exists credential, credentials[i]? = some credential ∧
      registry.domains[i]? = registry.get? entry.name ∧
      registry.get? entry.name = some
        { name := entry.name
          state := .assess (!entry.contacts.isEmpty) credential now
          driveMode := entry.driveMode
          renewWindow := entry.renewWindow.getD config.renewWindow
          credential := credential }
  watched : registry.watchedNames =
    (config.domains.filter fun entry => entry.driveMode ≠ .manual).map (·.name)
  watched_once : registry.watchedNames.Nodup

section

variable {σ : Type} {config : Config} {source : Source σ} {now : Instant} {state later : σ}
variable {names : List String} {credentials : List (Option Credential)} {registry : Registry}

theorem Answers.length_eq (h : Answers source state names credentials later) :
    credentials.length = names.length := by
  induction h with
  | nil state => rfl
  | cons _ _ ih => rw [List.length_cons, List.length_cons, ih]

theorem map_zipWith_domain {β : Type} {entries : List DomainEntry} {f : ManagedDomain -> β}
    {g : DomainEntry -> β}
    (h : forall entry credential, f (config.domain entry credential now) = g entry)
    (hlength : credentials.length = entries.length) :
    (entries.zipWith (fun entry credential => config.domain entry credential now)
      credentials).map f = entries.map g := by
  induction entries generalizing credentials with
  | nil => rfl
  | cons entry rest ih =>
      cases credentials with
      | nil => cases hlength
      | cons credential credentials =>
          rw [List.zipWith_cons_cons, List.map_cons, List.map_cons, h,
            ih (Nat.succ.inj hlength)]

theorem lists_of_valid (hvalid : config.Valid)
    (hlength : credentials.length = config.domains.length)
    (hdomains : registry.domains = config.domains.zipWith
      (fun entry credential => config.domain entry credential now) credentials) :
    config.Lists credentials now registry := by
  have hnames : registry.domains.map (·.name) = config.domains.map (·.name) := by
    rw [hdomains]
    exact map_zipWith_domain (fun _ _ => rfl) hlength
  have hdistinct : registry.Distinct := by
    unfold Registry.Distinct
    rw [hnames]
    exact hvalid.entries.distinct
  refine ⟨hnames, ?_, ?_, Registry.watchedNames_nodup hdistinct⟩
  · intro i entry hentry
    have hlt : i < credentials.length := by
      rw [hlength]
      exact (List.getElem?_eq_some_iff.mp hentry).1
    have hcredential := List.getElem?_eq_getElem hlt
    have hdomain : registry.domains[i]? = some (config.domain entry credentials[i] now) := by
      rw [hdomains, List.getElem?_zipWith, hentry, hcredential]
    have hget : registry.get? entry.name = some (config.domain entry credentials[i] now) :=
      Registry.get?_of_mem hdistinct (List.mem_of_getElem? hdomain)
    exact ⟨credentials[i], hcredential, hdomain.trans hget.symm, hget⟩
  · -- names and modes come from the entries together
    have hpairs : registry.domains.map (fun domain => (domain.name, domain.driveMode)) =
        config.domains.map fun entry => (entry.name, entry.driveMode) := by
      rw [hdomains]
      exact map_zipWith_domain (fun _ _ => rfl) hlength
    have hwatched := congrArg
      (fun pairs => (pairs.filter fun pair => pair.2 ≠ DriveMode.manual).map Prod.fst) hpairs
    simp only [List.filter_map, List.map_map] at hwatched
    exact hwatched

end

/-- A configuration passes exactly if it is valid, and otherwise its first flaw is the error. Any
store then gives a valid configuration no registry exactly if it refuses the credentials for one
of the names, with the first refusal as the error, and otherwise the registry of all its entries
with the credentials that the store has answered. -/
theorem valid_registry_unambiguous (config : Config) :
    (config.validated = .ok config ↔ config.Valid) ∧
    (forall error, config.validated = .error error ↔
      exists flaw, config.Blames flaw ∧ error = .flawed flaw) ∧
    (config.Valid -> forall {σ : Type} (source : Source σ) (now : Instant) (state later : σ),
      (forall error, config.registry source now state = (.error error, later) ↔
        Refuses source state (config.domains.map (·.name)) error later) ∧
      (forall registry, config.registry source now state = (.ok registry, later) ->
        exists credentials,
          Answers source state (config.domains.map (·.name)) credentials later ∧
          config.Lists credentials now registry) ∧
      (forall credentials,
        Answers source state (config.domains.map (·.name)) credentials later ->
        exists registry, config.registry source now state = (.ok registry, later) ∧
          config.Lists credentials now registry)) := by
  refine ⟨validated_eq_ok_iff, fun error => validated_eq_error_iff, ?_⟩
  intro hvalid σ source now state later
  have hlists : forall {credentials registry},
      Answers source state (config.domains.map (·.name)) credentials later ->
      registry.domains = config.domains.zipWith
        (fun entry credential => config.domain entry credential now) credentials ->
      config.Lists credentials now registry := by
    intro credentials registry hanswers hdomains
    exact lists_of_valid hvalid (hanswers.length_eq.trans (List.length_map _)) hdomains
  refine ⟨fun error => registry_eq_error_iff, fun registry hregistry => ?_,
    fun credentials hanswers => ?_⟩
  · rcases registry_eq_ok_iff.mp hregistry with ⟨credentials, hanswers, hdomains⟩
    exact ⟨credentials, hanswers, hlists hanswers hdomains⟩
  · refine ⟨⟨_⟩, registry_eq_ok_iff.mpr ⟨credentials, hanswers, rfl⟩, hlists hanswers rfl⟩

/-- A configuration of "a", with a window of its own, and of "b", which is managed by hand. -/
def managingTwo : Config where
  storeDirectory := none
  notifyCommand := some "notify"
  renewCommand := none
  checkInterval := defaultCheckInterval
  renewWindow := .default
  domains := [⟨"a", ["admin"], .auto, some (.percent 50)⟩, ⟨"b", [], .manual, none⟩]

def counting : Source Nat :=
  fun _ count => (.ok none, count + 1)

/-- Each of two domains is found by its name with its window, and one of them is watched. -/
theorem registry_of_two_entries :
    managingTwo.Valid ∧ exists registry,
      managingTwo.registry counting .epoch 0 = (.ok registry, 2) ∧
      registry.get? "a" = some ⟨"a", .incomplete, .auto, .percent 50, none⟩ ∧
      registry.get? "b" = some ⟨"b", .missingInformation, .manual, .default, none⟩ ∧
      registry.watchedNames = ["a"] := by
  have hvalid : managingTwo.Valid := flaw?_eq_none_iff.mp (by decide)
  have hanswers : Answers counting 0 ["a", "b"] [none, none] 2 := .cons rfl (.cons rfl (.nil _))
  rcases ((valid_registry_unambiguous managingTwo).2.2 hvalid counting .epoch 0 2).2.2 _ hanswers
    with ⟨registry, hregistry, hlists⟩
  have hfirst := hlists.found (i := 0) rfl
  have hsecond := hlists.found (i := 1) rfl
  simp only [List.getElem?_cons_zero, List.getElem?_cons_succ, Option.some_inj] at hfirst hsecond
  rcases hfirst with ⟨_, rfl, -, hfirst⟩
  rcases hsecond with ⟨_, rfl, -, hsecond⟩
  exact ⟨hvalid, registry, hregistry, hfirst, hsecond, hlists.watched⟩

end Config

end RenewalDrive
