import Mathlib
import RenewalDrive.Proofs.Run.Checked
import RenewalDrive.Proofs.Run.Sight

/-!
# Domains do not interfere

Two processes whose configurations, stores and weathers agree on one name do the same for that
name, however much else they drive. Their lists of jobs are walked side by side: what stands
before and after the job of the name leaves the sight of the name as it is, and the job itself
is dealt with in step.

On a host that checks its counts a neighbour can still end the whole run, by one error more than
its count has room for; short of that, the run is the same.
-/

namespace RenewalDrive

open Rehearsal Act

/-!
## Acts side by side
-/

/-- Runs of two acts from related worlds complete in related worlds, and their answers fit. -/
def Act.Beside {σ α β : Type} (related : σ -> σ -> Prop) (act : Act σ α) (act' : Act σ β)
    (ends : α -> β -> Prop) : Prop :=
  forall world world', related world world' ->
    exists a b later later', act.run world = .ok (a, later) ∧ act'.run world' = .ok (b, later') ∧
      related later later' ∧ ends a b

/-- What the act does leaves the sight of a name as it is. -/
def Act.Aside {α : Type} (name : String) (weather : Weather) (act : Act Rehearsal α) : Prop :=
  forall sight, act.InStep (Still (Seen name weather sight)) fun _ => True

section

variable {α β γ δ : Type} {name : String} {weather weather' : Weather}

theorem beside_pure {a : α} {b : β} {ends : α -> β -> Prop} (h : ends a b) :
    (pure a : Act Rehearsal α).Beside (Twins name weather weather') (pure b) ends := by
  intro world world' hworlds
  exact ⟨a, b, world, world', run_pure_eq_ok.mpr ⟨rfl, rfl⟩, run_pure_eq_ok.mpr ⟨rfl, rfl⟩,
    hworlds, h⟩

theorem beside_bind {act : Act Rehearsal α} {act' : Act Rehearsal β}
    {next : α -> Act Rehearsal γ} {next' : β -> Act Rehearsal δ} {meets : α -> β -> Prop}
    {ends : γ -> δ -> Prop} (hact : act.Beside (Twins name weather weather') act' meets)
    (hnext : forall a b, meets a b ->
      (next a).Beside (Twins name weather weather') (next' b) ends) :
    (act >>= next).Beside (Twins name weather weather') (act' >>= next') ends := by
  intro world world' hworlds
  rcases hact world world' hworlds with ⟨a, b, mid, mid', hrun, hrun', hmids, hab⟩
  rw [run_bind_of_ok hrun, run_bind_of_ok hrun']
  exact hnext a b hab mid mid' hmids

theorem Act.InStep.beside {act : Act Rehearsal α} {meets : α -> Prop}
    (h : act.InStep (Twins name weather weather') meets) :
    act.Beside (Twins name weather weather') act fun a b => a = b ∧ meets a := by
  intro world world' hworlds
  rcases h world world' hworlds with ⟨a, later, later', hrun, hrun', hlaters, ha⟩
  exact ⟨a, a, later, later', hrun, hrun', hlaters, rfl, ha⟩

theorem beside_left {act : Act Rehearsal α} {next : α -> Act Rehearsal β}
    {act' : Act Rehearsal γ} {ends : β -> γ -> Prop} (hact : act.Aside name weather)
    (hnext : forall a, (next a).Beside (Twins name weather weather') act' ends) :
    (act >>= next).Beside (Twins name weather weather') act' ends := by
  intro world world' hworlds
  rcases hworlds.left (hact _) with ⟨a, mid, hrun, hmid, _⟩
  rw [run_bind_of_ok hrun]
  exact hnext a mid world' hmid

theorem beside_right {act : Act Rehearsal α} {act' : Act Rehearsal β}
    {next' : β -> Act Rehearsal γ} {ends : α -> γ -> Prop} (hact : act'.Aside name weather')
    (hnext : forall b, act.Beside (Twins name weather weather') (next' b) ends) :
    act.Beside (Twins name weather weather') (act' >>= next') ends := by
  intro world world' hworlds
  rcases hworlds.right (hact _) with ⟨b, mid, hrun, hmid, _⟩
  rw [run_bind_of_ok hrun]
  exact hnext b world mid hmid

theorem aside_mapM {act : α -> Act Rehearsal β} {items : List α}
    (h : forall item, item ∈ items -> (act item).Aside name weather) :
    (items.mapM act).Aside name weather :=
  fun sight => inStep_mapM fun item hitem => h item hitem sight

/-- Of two lists that share an item, the item is dealt with in step and all others aside. -/
theorem beside_mapM {act act' : α -> Act Rehearsal β} {items items' : List α} {item : α}
    {meets : β -> Prop} (hitem : item ∈ items) (hitem' : item ∈ items')
    (hother : forall before after, items = before ++ item :: after ->
      forall other, other ∈ before ++ after -> (act other).Aside name weather)
    (hother' : forall before after, items' = before ++ item :: after ->
      forall other, other ∈ before ++ after -> (act' other).Aside name weather')
    (hsame : act' item = act item)
    (hown : (act item).InStep (Twins name weather weather') meets) :
    (items.mapM act).Beside (Twins name weather weather') (items'.mapM act')
      fun results results' => exists result, meets result ∧ result ∈ results ∧
        result ∈ results' := by
  rcases List.append_of_mem hitem with ⟨before, after, rfl⟩
  rcases List.append_of_mem hitem' with ⟨before', after', rfl⟩
  have hasides := hother before after rfl
  have hasides' := hother' before' after' rfl
  rw [List.forall_mem_append] at hasides hasides'
  rw [List.mapM_append, List.mapM_append]
  apply beside_left (aside_mapM hasides.1)
  intro first
  apply beside_right (aside_mapM hasides'.1)
  intro first'
  rw [List.mapM_cons, List.mapM_cons, bind_assoc, bind_assoc, hsame]
  apply beside_bind hown.beside
  rintro result _ ⟨rfl, hresult⟩
  rw [bind_assoc, bind_assoc]
  apply beside_left (aside_mapM hasides.2)
  intro rest
  apply beside_right (aside_mapM hasides'.2)
  intro rest'
  rw [pure_bind, pure_bind]
  apply beside_pure
  exact ⟨result, hresult, by simp, by simp⟩

end

/-!
## The domain of a job
-/

namespace Host

variable {σ α : Type} (host : Host σ)

/-- After a reload it matters only what is done with jobs of the same name. -/
theorem reload_bind_congr {job : DriveJob} {next next' : DriveJob -> Act σ α}
    (h : forall loaded : DriveJob, loaded.name = job.name -> next loaded = next' loaded) :
    host.reload job >>= next = host.reload job >>= next' := by
  unfold reload
  split
  next =>
    simp only [bind_assoc, pure_bind, h job rfl]
  next =>
    simp only [bind_assoc]
    congr 1
    funext answer
    cases answer with
    | error error =>
        simp only [bind_assoc, pure_bind, h job rfl]
    | ok loaded =>
        cases loaded with
        | none =>
            simp only [pure_bind, h job rfl]
        | some record =>
            simp only [pure_bind, h (job.apply record) rfl]

/-- Of a registry a job is concerned with the domain of its name only. -/
theorem runJob_congr {registry registry' : Registry} {job : DriveJob}
    (h : registry.get? job.name = registry'.get? job.name) :
    host.runJob registry job = host.runJob registry' job := by
  unfold runJob evaluate
  congr 1
  funext now
  split
  next =>
    rw [bind_assoc, bind_assoc]
    apply reload_bind_congr
    intro loaded hname
    unfold evaluateDue
    rw [hname, h]
  next =>
    rfl

end Host

def Registry.Dated (registry : Registry) : Prop :=
  forall name domain t, registry.get? name = some domain -> domain.expires = some t ->
    t.Writable

theorem tells_writable : Tells (fun _ => true) Instant.Writable Instant.Writable :=
  ⟨fun _ _ ht => Event.told_of_writable rfl ht, fun _ _ _ ht => Event.told_of_writable rfl ht⟩

/-!
## Calls side by side
-/

/-- Two lists of jobs share the job of a name. -/
def SharesJob (name : String) (jobs jobs' : List DriveJob) : Prop :=
  exists job : DriveJob, job.name = name ∧ job ∈ jobs ∧ job ∈ jobs'

theorem name_ne_of_split {α : Type} {nameOf : α -> String} {items before after : List α}
    {item : α} (hnodup : (items.map nameOf).Nodup) (hsplit : items = before ++ item :: after) :
    forall other, other ∈ before ++ after -> nameOf other ≠ nameOf item := by
  subst hsplit
  intro other hother hname
  rw [List.map_append, List.map_cons, List.nodup_middle, List.nodup_cons, ← List.map_append]
    at hnodup
  exact hnodup.1 (hname ▸ List.mem_map_of_mem hother)

section

variable {name : String} {weather weather' : Weather}

theorem aside_note (hnow : weather.now.InYears) {event : Event} (hevent : event.date? = none) :
    (host.note event).Aside name weather :=
  fun sight => (lasts_seen hnow sight).note (Event.told_of_undated hevent)

theorem aside_sweep (hnow : weather.now.InYears) {registry : Registry}
    (hname : registry.contains name = true) :
    (host.purgeStaleChallenges registry).Aside name weather := by
  intro sight
  apply purgeStaleChallenges_inStep (lasts_seen hnow sight)
  intro other hother
  apply lastsFor_seen hnow sight
  rintro rfl
  rw [hname] at hother
  cases hother

theorem start_beside (hnow : weather.now.InYears) (halike : weather.Alike name weather')
    {registry registry' : Registry} {settings settings' : DriveSettings}
    (hdistinct : registry.Distinct) (hdistinct' : registry'.Distinct)
    (hname : name ∈ registry.watchedNames) (hname' : name ∈ registry'.watchedNames) :
    (host.start registry settings).Beside (Twins name weather weather')
      (host.start registry' settings') fun begun begun' => exists jobs jobs',
        begun = some ⟨registry, settings, jobs⟩ ∧ begun' = some ⟨registry', settings', jobs'⟩ ∧
        SharesJob name jobs jobs' := by
  have hnow' : weather'.now.InYears := halike.now ▸ hnow
  have hown : (host.startJob name).InStep (Twins name weather weather') fun job =>
      job.name = name :=
    ((steady_twins hnow halike).startJob.yielding (yields_startJob name)).mono fun job hjob =>
      hjob.2.elim fun deeds hstarts => hstarts.name_eq
  have haside : forall {setting : Weather} (other : String), setting.now.InYears ->
      other ≠ name -> (host.startJob other).Aside name setting :=
    fun other hyears hother sight => (lastsFor_seen hyears sight hother).steady.startJob
  have hnodup : forall {watched : Registry}, watched.Distinct ->
      (watched.watchedNames.map id).Nodup := by
    intro watched hwatched
    rw [List.map_id]
    exact Registry.watchedNames_nodup hwatched
  have hjobs := beside_mapM hname hname'
    (fun before after hsplit other hother =>
      haside other hnow (name_ne_of_split (hnodup hdistinct) hsplit other hother))
    (fun before after hsplit other hother =>
      haside other hnow' (name_ne_of_split (hnodup hdistinct') hsplit other hother)) rfl hown
  unfold Host.start
  apply beside_bind hjobs
  rintro jobs jobs' ⟨job, hjobName, hjob, hjob'⟩
  apply beside_left (aside_sweep hnow (Registry.contains_of_mem_watchedNames hname))
  intro _
  apply beside_right (aside_sweep hnow' (Registry.contains_of_mem_watchedNames hname'))
  intro _
  rw [if_neg (by simp [List.ne_nil_of_mem hjob]), if_neg (by simp [List.ne_nil_of_mem hjob'])]
  apply beside_pure
  exact ⟨jobs, jobs', rfl, rfl, job, hjobName, hjob, hjob'⟩

/-- Rounds that share the job of a name, and the domain of the name, share it afterwards. -/
theorem runJobs_beside (hnow : weather.now.InYears) (halike : weather.Alike name weather')
    {context context' : DriveContext} (hsound : context.Sound) (hsound' : context'.Sound)
    (hdated : context.registry.Dated) (hdated' : context'.registry.Dated)
    (hget : context.registry.get? name = context'.registry.get? name)
    (hshares : SharesJob name context.jobs context'.jobs) :
    (host.runJobs context).Beside (Twins name weather weather') (host.runJobs context')
      fun result result' => SharesJob name result.2.jobs result'.2.jobs := by
  have hnow' : weather'.now.InYears := halike.now ▸ hnow
  rcases hshares with ⟨job, rfl, hjob, hjob'⟩
  have hown : (host.runJob context.registry job).InStep (Twins job.name weather weather')
      fun visited => visited.name = job.name :=
    (((steady_twins hnow halike).runJob tells_writable (hdated job.name)).yielding
      (yields_runJob context.registry job)).mono fun visited hvisited =>
        hvisited.2.elim fun deeds hvisits => hvisits.name_eq
  have haside : forall {setting : Weather} {registry : Registry} (other : DriveJob),
      setting.now.InYears -> registry.Dated -> other.name ≠ job.name ->
      (host.runJob registry other).Aside job.name setting :=
    fun other hyears hregistry hother sight =>
      (lastsFor_seen hyears sight hother).steady.runJob tells_writable (hregistry other.name)
  have hjobs := beside_mapM hjob hjob'
    (fun before after hsplit other hother =>
      haside other hnow hdated (name_ne_of_split hsound.nodup hsplit other hother))
    (fun before after hsplit other hother =>
      haside other hnow' hdated' (name_ne_of_split hsound'.nodup hsplit other hother))
    (host.runJob_congr hget.symm) hown
  have hreading : host.now.InStep (Twins job.name weather weather') Instant.InYears :=
    (steady_twins hnow halike).now
  unfold Host.runJobs
  apply beside_bind hreading.beside
  rintro started _ ⟨rfl, _⟩
  apply beside_bind hjobs
  rintro jobs jobs' ⟨visited, hname, hvisited, hvisited'⟩
  apply beside_bind hreading.beside
  rintro now _ ⟨rfl, _⟩
  apply beside_left (aside_note hnow rfl)
  intro _
  apply beside_right (aside_note hnow' rfl)
  intro _
  apply beside_pure
  exact ⟨visited, hname, hvisited, hvisited'⟩

end

/-!
## Processes
-/

/-- The process after some rounds of evaluations, each under its own weather. -/
def Process.rounds (process : Process) : List Weather -> Except Halt Process
  | [] => .ok process
  | weather :: rest => do
      let later ← (Process.mk (process.world.under weather) process.context).call .runJobs
      later.rounds rest

def Rehearsal.driven (world : Rehearsal) (setup : Setup) (opening : Weather)
    (weathers : List Weather) : Except Halt Process := do
  let process ← (Process.mk (world.under opening) none).call
    (.start setup.registry setup.settings)
  process.rounds weathers

def Process.checkedRounds (process : Process) : List Weather -> Except Halt Process
  | [] => .ok process
  | weather :: rest => do
      let later ← (Process.mk (process.world.under weather) process.context).within
        fun context => do return (← host.checked.runJobs context).2
      later.checkedRounds rest

/-- The process that is started and driven for some rounds on a host that checks its counts. -/
def Rehearsal.checkedDriven (world : Rehearsal) (setup : Setup) (opening : Weather)
    (weathers : List Weather) : Except Halt Process := do
  let (context, started) ← (host.checked.start setup.registry setup.settings).run
    (world.under opening)
  (Process.mk started context).checkedRounds weathers

namespace Process

theorem call_start_eq_ok {world : Rehearsal} {setup : Setup} {begun : Option DriveContext}
    {later : Rehearsal} {context : Option DriveContext}
    (h : (host.start setup.registry setup.settings).run world = .ok (begun, later)) :
    (Process.mk world context).call (.start setup.registry setup.settings) =
      .ok ⟨later, begun⟩ := by
  simp [call, h, bind, Except.bind, pure, Except.pure]

theorem call_runJobs_eq_ok {world : Rehearsal} {context : DriveContext}
    {result : Span × DriveContext} {later : Rehearsal}
    (h : (host.runJobs context).run world = .ok (result, later)) :
    (Process.mk world (some context)).call .runJobs = .ok ⟨later, some result.2⟩ := by
  have hrun : (do return (← host.runJobs context).2 : Act Rehearsal DriveContext).run world =
      .ok (result.2, later) := run_bind_of_ok h
  unfold call within
  dsimp only
  rw [hrun]
  rfl

theorem sound_of_runJobs {process later : Process} (hsound : process.Sound)
    (h : process.call .runJobs = .ok later) : later.Sound := by
  rcases process with ⟨world, - | context⟩
  · cases h
    exact hsound
  · have hdistinct : Call.runJobs.Distinct := trivial
    rcases performs_of_call rfl h with ⟨_, _, hperforms⟩
    exact hperforms.sound hdistinct hsound

theorem abides_rounds {excess : Prop} {process : Process} {weathers : List Weather}
    (hsound : process.Sound) (hroom : ¬ excess -> process.HasRoom weathers.length) :
    Abides excess (process.checkedRounds weathers) (process.rounds weathers) := by
  induction weathers generalizing process with
  | nil =>
      exact Abides.refl _ _
  | cons weather rest ih =>
      have hunder : (Process.mk (process.world.under weather) process.context).Sound := hsound
      unfold checkedRounds rounds
      apply Abides.bind
      · apply abides_runJobs hunder
        intro hexcess name
        exact (hroom hexcess name).mono (Nat.le_add_left 1 rest.length)
      · intro mid hcall
        apply ih (sound_of_runJobs hunder hcall)
        intro hexcess
        have hbefore : (Process.mk (process.world.under weather) process.context).HasRoom
            (rest.length + 1) := hroom hexcess
        exact hbefore.runJobs hunder hcall

end Process

/-- A run for which all counts have room is the same on a host that checks them. -/
theorem Rehearsal.abides_driven (world : Rehearsal) {setup : Setup} (opening : Weather)
    (weathers : List Weather) (hdistinct : setup.registry.Distinct) :
    Abides (¬ world.HasRoom weathers.length) (world.checkedDriven setup opening weathers)
      (world.driven setup opening weathers) := by
  have hstart : world.checkedDriven setup opening weathers = (do
      let process ← (Process.mk (world.under opening) none).call
        (.start setup.registry setup.settings)
      process.checkedRounds weathers) := by
    unfold checkedDriven Process.call
    rw [bind_assoc]
    rfl
  rw [hstart]
  unfold driven
  apply (Abides.refl _ _).bind
  intro process hcall
  have hdistinctCall : (Call.start setup.registry setup.settings).Distinct := hdistinct
  have hsound : process.Sound := by
    rcases Process.performs_of_call rfl hcall with ⟨_, _, hperforms⟩
    exact hperforms.sound hdistinctCall (by rintro _ ⟨⟩)
  apply Process.abides_rounds hsound
  intro hroom
  have hworld := Classical.not_not.mp hroom
  exact Process.HasRoom.start ⟨hworld.fresh, hworld.records⟩ hdistinct hcall

/-!
## Every run goes on
-/

structure Process.Plain (registry : Registry) (process : Process) : Prop where
  world : process.world.Plain
  registry : forall context, process.context = some context -> context.registry = registry

theorem Process.Plain.call_runJobs {registry : Registry} {process : Process} {weather : Weather}
    (h : process.Plain registry) (hdated : registry.Dated) (hnow : weather.now.InYears) :
    exists later, (Process.mk (process.world.under weather) process.context).call .runJobs =
      .ok later ∧ later.Plain registry := by
  cases hcontext : process.context with
  | none =>
      refine ⟨_, rfl, (h.world.calm weather).plain, ?_⟩
      intro context hnone
      cases hnone
  | some context =>
      have hregistry := h.registry context hcontext
      rw [← hregistry] at hdated
      have hround := runJobs_inStep context tells_writable (lasts_calm hnow)
        (lastsFor_calm hnow) hdated
      rcases inStep_still_iff.mp (hround.yielding (yields_runJobs context)) _
        (h.world.calm weather) with ⟨result, later, hrun, hlater, _, deeds, hrounds⟩
      refine ⟨_, Process.call_runJobs_eq_ok hrun, hlater.plain, ?_⟩
      intro context' hcontext'
      cases hcontext'
      rw [← hregistry]
      exact congrArg Setup.registry hrounds.setup_eq

theorem Process.Plain.rounds {registry : Registry} {process : Process} {weathers : List Weather}
    (h : process.Plain registry) (hdated : registry.Dated)
    (hnow : forall weather, weather ∈ weathers -> weather.now.InYears) :
    exists later, process.rounds weathers = .ok later := by
  induction weathers generalizing process with
  | nil =>
      exact ⟨process, rfl⟩
  | cons weather rest ih =>
      rw [List.forall_mem_cons] at hnow
      rcases h.call_runJobs hdated hnow.1 with ⟨mid, hcall, hmid⟩
      rcases ih hmid hnow.2 with ⟨later, hrest⟩
      refine ⟨later, ?_⟩
      simp [Process.rounds, hcall, hrest, bind, Except.bind]

theorem exists_driven {world : Rehearsal} (setup : Setup) {opening : Weather}
    {weathers : List Weather} (h : world.Plain) (hdated : setup.registry.Dated)
    (hopening : opening.now.InYears)
    (hnow : forall weather, weather ∈ weathers -> weather.now.InYears) :
    exists process, world.driven setup opening weathers = .ok process := by
  have hstart : (host.start setup.registry setup.settings).InStep (Still (Calm opening))
      fun _ => True :=
    start_inStep (lasts_calm hopening) (lastsFor_calm hopening)
  rcases inStep_still_iff.mp (hstart.yielding (yields_start _ _)) _ (h.calm opening) with
    ⟨begun, started, hrun, hcalm, _, deeds, hstarts⟩
  have hplain : (Process.mk started begun).Plain setup.registry := by
    constructor
    · exact hcalm.plain
    · intro context hcontext
      subst hcontext
      exact hstarts.names_eq.1
  rcases hplain.rounds hdated hnow with ⟨process, hrounds⟩
  refine ⟨process, ?_⟩
  unfold driven
  rw [Process.call_start_eq_ok hrun]
  exact hrounds

/-!
## Runs side by side
-/

structure Process.Akin (name : String) (registry registry' : Registry)
    (process process' : Process) : Prop where
  first : process.Plain registry
  second : process'.Plain registry'
  sight : process.world.sight name = process'.world.sight name
  contexts : exists context context', process.context = some context ∧
    process'.context = some context' ∧ context.Sound ∧ context'.Sound ∧
    SharesJob name context.jobs context'.jobs

namespace Process.Akin

variable {name : String} {registry registry' : Registry} {process process' : Process}

theorem job_eq (h : process.Akin name registry registry' process') :
    process.context.bind (·.job? name) = process'.context.bind (·.job? name) := by
  rcases h.contexts with ⟨context, context', hcontext, hcontext', hsound, hsound', job, rfl,
    hjob, hjob'⟩
  rw [hcontext, hcontext']
  exact (hsound.job?_of_mem hjob).trans (hsound'.job?_of_mem hjob').symm

/-- A round under weathers that are alike for the name keeps two processes akin. -/
theorem call_runJobs {weather weather' : Weather}
    (h : process.Akin name registry registry' process')
    (hdated : registry.Dated) (hdated' : registry'.Dated)
    (hget : registry.get? name = registry'.get? name) (hnow : weather.now.InYears)
    (halike : weather.Alike name weather') :
    exists later later',
      (Process.mk (process.world.under weather) process.context).call .runJobs = .ok later ∧
      (Process.mk (process'.world.under weather') process'.context).call .runJobs = .ok later' ∧
      later.Akin name registry registry' later' := by
  rcases h.contexts with ⟨context, context', hcontext, hcontext', hsound, hsound', hshares⟩
  have hregistry := h.first.registry context hcontext
  have hregistry' := h.second.registry context' hcontext'
  subst hregistry
  subst hregistry'
  have htwins : Twins name weather weather' (process.world.under weather)
      (process'.world.under weather') :=
    ⟨h.first.world.calm weather, h.second.world.calm weather', h.sight⟩
  rcases runJobs_beside hnow halike hsound hsound' hdated hdated' hget hshares _ _ htwins with
    ⟨result, result', later, later', hrun, hrun', hlaters, hjobs⟩
  rcases yields_runJobs context _ _ _ hrun with ⟨_, _, hrounds⟩
  rcases yields_runJobs context' _ _ _ hrun' with ⟨_, _, hrounds'⟩
  rw [hcontext, hcontext']
  refine ⟨_, _, Process.call_runJobs_eq_ok hrun, Process.call_runJobs_eq_ok hrun', ?_⟩
  constructor
  case first =>
    refine ⟨hlaters.first.plain, ?_⟩
    rintro _ ⟨⟩
    exact congrArg Setup.registry hrounds.setup_eq
  case second =>
    refine ⟨hlaters.second.plain, ?_⟩
    rintro _ ⟨⟩
    exact congrArg Setup.registry hrounds'.setup_eq
  case sight =>
    exact hlaters.sight
  case contexts =>
    exact ⟨result.2, result'.2, rfl, rfl, hrounds.sound hsound, hrounds'.sound hsound', hjobs⟩

theorem rounds {weathers : List (Weather × Weather)}
    (h : process.Akin name registry registry' process')
    (hdated : registry.Dated) (hdated' : registry'.Dated)
    (hget : registry.get? name = registry'.get? name)
    (hnow : forall pair, pair ∈ weathers -> pair.1.now.InYears)
    (halike : forall pair, pair ∈ weathers -> pair.1.Alike name pair.2) :
    exists later later', process.rounds (weathers.map Prod.fst) = .ok later ∧
      process'.rounds (weathers.map Prod.snd) = .ok later' ∧
      later.Akin name registry registry' later' := by
  induction weathers generalizing process process' with
  | nil =>
      exact ⟨process, process', rfl, rfl, h⟩
  | cons pair rest ih =>
      rw [List.forall_mem_cons] at hnow halike
      rcases h.call_runJobs hdated hdated' hget hnow.1 halike.1 with
        ⟨mid, mid', hcall, hcall', hmids⟩
      rcases ih hmids hnow.2 halike.2 with ⟨later, later', hrest, hrest', hlaters⟩
      refine ⟨later, later', ?_, ?_, hlaters⟩
      · simp [Process.rounds, hcall, hrest, bind, Except.bind]
      · simp [Process.rounds, hcall', hrest', bind, Except.bind]

end Process.Akin

theorem Registry.watched_of_get? {registry registry' : Registry} {name : String}
    (hdistinct : registry.Distinct) (hget : registry.get? name = registry'.get? name)
    (h : name ∈ registry.watchedNames) : name ∈ registry'.watchedNames := by
  unfold watchedNames at h ⊢
  rcases List.mem_map.mp h with ⟨domain, hdomain, rfl⟩
  rcases List.mem_filter.mp hdomain with ⟨hmem, hmode⟩
  have hfound := get?_of_mem hdistinct hmem
  rw [hget] at hfound
  refine List.mem_map.mpr ⟨domain, List.mem_filter.mpr ⟨?_, hmode⟩, rfl⟩
  exact List.mem_of_find?_eq_some hfound

theorem driven_akin {name : String} {setup setup' : Setup} {world world' : Rehearsal}
    {opening opening' : Weather} {weathers : List (Weather × Weather)}
    (hdistinct : setup.registry.Distinct) (hdistinct' : setup'.registry.Distinct)
    (hdated : setup.registry.Dated) (hdated' : setup'.registry.Dated)
    (hplain : world.Plain) (hplain' : world'.Plain)
    (hopening : opening.now.InYears)
    (hnow : forall pair, pair ∈ weathers -> pair.1.now.InYears)
    (hname : name ∈ setup.registry.watchedNames)
    (hget : setup.registry.get? name = setup'.registry.get? name)
    (hsight : world.sight name = world'.sight name)
    (halike : opening.Alike name opening')
    (halikes : forall pair, pair ∈ weathers -> pair.1.Alike name pair.2) :
    exists process process',
      world.driven setup opening (weathers.map Prod.fst) = .ok process ∧
      world'.driven setup' opening' (weathers.map Prod.snd) = .ok process' ∧
      process.Akin name setup.registry setup'.registry process' := by
  have htwins : Twins name opening opening' (world.under opening) (world'.under opening') :=
    ⟨hplain.calm opening, hplain'.calm opening', hsight⟩
  rcases start_beside hopening halike hdistinct hdistinct' hname
    (Registry.watched_of_get? hdistinct hget hname) _ _ htwins with
    ⟨_, _, started, started', hrun, hrun', hlaters, jobs, jobs', rfl, rfl, hshares⟩
  rcases yields_start setup.registry setup.settings _ _ _ hrun with ⟨_, _, hstarts⟩
  rcases yields_start setup'.registry setup'.settings _ _ _ hrun' with ⟨_, _, hstarts'⟩
  have hakin : (Process.mk started (some ⟨setup.registry, setup.settings, jobs⟩)).Akin name
      setup.registry setup'.registry
      (Process.mk started' (some ⟨setup'.registry, setup'.settings, jobs'⟩)) := by
    constructor
    case first =>
      refine ⟨hlaters.first.plain, ?_⟩
      rintro _ ⟨⟩
      rfl
    case second =>
      refine ⟨hlaters.second.plain, ?_⟩
      rintro _ ⟨⟩
      rfl
    case sight =>
      exact hlaters.sight
    case contexts =>
      exact ⟨_, _, rfl, rfl, hstarts.sound hdistinct, hstarts'.sound hdistinct', hshares⟩
  rcases hakin.rounds hdated hdated' hget hnow halikes with
    ⟨process, process', hrounds, hrounds', hprocesses⟩
  refine ⟨process, process', ?_, ?_, hprocesses⟩
  · unfold driven
    rw [Process.call_start_eq_ok hrun]
    exact hrounds
  · unfold driven
    rw [Process.call_start_eq_ok hrun']
    exact hrounds'

/-!
## Names that are not watched
-/

theorem Turns.foreign_of_none {name : String} {setup : Setup} {before job : Option DriveJob}
    {deeds : List Deed} (h : Turns name false setup before deeds job) (hnone : before = none) :
    job = none ∧ Deed.AllForeign setup.settings.notifyCommand name deeds := by
  induction h with
  | nil _ =>
      exact ⟨hnone, List.forall_mem_nil _⟩
  | cons hturn _ ih =>
      subst hnone
      cases hturn with
      | foreign hforeign =>
          rcases ih rfl with ⟨hjob, hrest⟩
          exact ⟨hjob, List.forall_mem_append.mpr ⟨hforeign, hrest⟩⟩
      | dropped hrestarts =>
          cases hrestarts
      | started hrestarts _ =>
          cases hrestarts

namespace Process

theorem call_runJobs_unwatched {name : String} {process later : Process} (hsound : process.Sound)
    (hjob : process.context.bind (·.job? name) = none)
    (h : process.call .runJobs = .ok later) : later.standing name = process.standing name := by
  cases hcontext : process.context with
  | none =>
      unfold call within at h
      rw [hcontext] at h
      cases h
      rfl
  | some context =>
      have hdistinct : Call.runJobs.Distinct := trivial
      have hsetup : process.setup .runJobs = some context.setup :=
        setup_of_context hcontext rfl
      rcases performs_of_call hsetup h with ⟨deeds, hpassage, hperforms⟩
      have hturns : Turns name false context.setup (process.context.bind (·.job? name)) deeds
          (later.context.bind (·.job? name)) := by
        apply hperforms.turns hdistinct _ hsound hsetup
        intro hstart
        cases hstart
      rcases hturns.foreign_of_none hjob with ⟨hlater, hforeign⟩
      have hrecord := (recordPath_of_serves name hpassage.serves).of_foreign hforeign
      unfold standing
      rw [hlater, hrecord, hjob]

theorem rounds_unwatched {name : String} {process later : Process} {weathers : List Weather}
    (hsound : process.Sound) (hjob : process.context.bind (·.job? name) = none)
    (h : process.rounds weathers = .ok later) :
    later.standing name = process.standing name := by
  induction weathers generalizing process with
  | nil =>
      cases h
      rfl
  | cons weather rest ih =>
      unfold rounds at h
      cases hcall : (Process.mk (process.world.under weather) process.context).call .runJobs with
      | error halt =>
          simp [hcall, bind, Except.bind] at h
      | ok mid =>
          simp only [hcall, bind, Except.bind] at h
          have hunder : (Process.mk (process.world.under weather) process.context).Sound := hsound
          have hstanding := call_runJobs_unwatched hunder hjob hcall
          have hnone : mid.context.bind (·.job? name) = none :=
            (congrArg Standing.job hstanding).trans hjob
          exact (ih (sound_of_runJobs hunder hcall) hnone h).trans hstanding

end Process

theorem driven_unwatched {name : String} {world : Rehearsal} {setup : Setup} {opening : Weather}
    {weathers : List Weather} {process : Process} (hdistinct : setup.registry.Distinct)
    (hname : name ∉ setup.registry.watchedNames)
    (h : world.driven setup opening weathers = .ok process) :
    process.standing name = ⟨none, world.store.records name⟩ := by
  unfold driven at h
  cases hcall : (Process.mk (world.under opening) none).call
      (.start setup.registry setup.settings) with
  | error halt =>
      simp [hcall, bind, Except.bind] at h
  | ok started =>
      simp only [hcall, bind, Except.bind] at h
      rcases Process.performs_of_call rfl hcall with ⟨deeds, hpassage, hperforms⟩
      have hstart : (Call.start setup.registry setup.settings).Distinct := hdistinct
      have hsound : started.Sound :=
        hperforms.sound hstart fun context hcontext => by cases hcontext
      cases hperforms with
      | start hstarts =>
          have hportion := hstarts.portion name hdistinct
          have hnone : (setup.registry.watchedNames.find? fun owner => owner = name) = none := by
            rw [List.find?_eq_none]
            intro owner howner hsame
            rw [decide_eq_true_iff] at hsame
            exact hname (hsame ▸ howner)
          rw [hnone] at hportion
          generalize hjob : started.context.bind (·.job? name) = job at hportion
          cases hportion with
          | absent hforeign =>
              have hrecord := (recordPath_of_serves name hpassage.serves).of_foreign hforeign
              rw [Process.rounds_unwatched hsound hjob h]
              unfold Process.standing
              rw [hjob, hrecord]
              rfl

/-!
## Configurations that agree on a name
-/

structure Registry.Fit (registry : Registry) : Prop where
  distinct : registry.Distinct
  dated : registry.Dated

theorem Registry.get?_eq_of_perm {registry registry' : Registry} (hdistinct : registry.Distinct)
    (hdistinct' : registry'.Distinct) (h : registry.domains.Perm registry'.domains)
    (name : String) : registry.get? name = registry'.get? name := by
  have hfound : forall domain, registry.get? name = some domain ->
      registry'.get? name = some domain := by
    intro domain hget
    have hname := name_of_get? hget
    subst hname
    exact get?_of_mem hdistinct' (h.mem_iff.mp (List.mem_of_find?_eq_some hget))
  have hfound' : forall domain, registry'.get? name = some domain ->
      registry.get? name = some domain := by
    intro domain hget
    have hname := name_of_get? hget
    subst hname
    exact get?_of_mem hdistinct (h.mem_iff.mpr (List.mem_of_find?_eq_some hget))
  exact Option.ext fun domain => ⟨hfound domain, hfound' domain⟩

/-- Two runs over configurations, worlds and weathers that agree on a watched name come to the
same job, record, store entries and attempts of that name, whatever else they drive. Where
they agree on all names, the order of the configuration changes no job and no record. A host
that checks its counts runs in the same way, or halts over a count that had too little room. -/
theorem domains_do_not_interfere {setup setup' : Setup} {world world' : Rehearsal}
    {opening opening' : Weather} {weathers : List (Weather × Weather)}
    (hfit : setup.registry.Fit) (hfit' : setup'.registry.Fit)
    (hplain : world.Plain) (hplain' : world'.Plain)
    (hnow : forall pair, pair ∈ (opening, opening') :: weathers ->
      pair.1.now.InYears ∧ pair.2.now.InYears) :
    exists process process',
      world.driven setup opening (weathers.map Prod.fst) = .ok process ∧
      world'.driven setup' opening' (weathers.map Prod.snd) = .ok process' ∧
      Abides (¬ world.HasRoom weathers.length)
        (world.checkedDriven setup opening (weathers.map Prod.fst)) (.ok process) ∧
      Abides (¬ world'.HasRoom weathers.length)
        (world'.checkedDriven setup' opening' (weathers.map Prod.snd)) (.ok process') ∧
      (forall name, name ∈ setup.registry.watchedNames ->
        setup.registry.get? name = setup'.registry.get? name ->
        world.sight name = world'.sight name ->
        (forall pair, pair ∈ (opening, opening') :: weathers -> pair.1.Alike name pair.2) ->
        process.standing name = process'.standing name ∧
          process.world.sight name = process'.world.sight name) ∧
      (setup.registry.domains.Perm setup'.registry.domains ->
        (forall name, world.sight name = world'.sight name) ->
        (forall name pair, pair ∈ (opening, opening') :: weathers ->
          pair.1.Alike name pair.2) ->
        forall name, process.standing name = process'.standing name) := by
  rw [List.forall_mem_cons] at hnow
  rcases hnow with ⟨⟨hopening, hopening'⟩, hnow⟩
  have hfirst : forall weather, weather ∈ weathers.map Prod.fst -> weather.now.InYears :=
    List.forall_mem_map.mpr fun pair hpair => (hnow pair hpair).1
  have hsecond : forall weather, weather ∈ weathers.map Prod.snd -> weather.now.InYears :=
    List.forall_mem_map.mpr fun pair hpair => (hnow pair hpair).2
  rcases exists_driven setup hplain hfit.dated hopening hfirst with ⟨process, hrun⟩
  rcases exists_driven setup' hplain' hfit'.dated hopening' hsecond with
    ⟨process', hrun'⟩
  have hwatched : forall name, name ∈ setup.registry.watchedNames ->
      setup.registry.get? name = setup'.registry.get? name ->
      world.sight name = world'.sight name ->
      (forall pair, pair ∈ (opening, opening') :: weathers -> pair.1.Alike name pair.2) ->
      process.standing name = process'.standing name ∧
        process.world.sight name = process'.world.sight name := by
    intro name hname hget hsight halike
    rw [List.forall_mem_cons] at halike
    rcases driven_akin hfit.distinct hfit'.distinct hfit.dated hfit'.dated hplain hplain' hopening
      (fun pair hpair => (hnow pair hpair).1) hname hget hsight halike.1 halike.2 with
      ⟨_, _, hsame, hsame', hakin⟩
    rw [hrun] at hsame
    rw [hrun'] at hsame'
    cases hsame
    cases hsame'
    refine ⟨?_, hakin.sight⟩
    unfold Process.standing
    rw [hakin.job_eq, show process.world.store.records name = process'.world.store.records name from
      congrArg Sight.record hakin.sight]
  have hchecked := world.abides_driven opening (weathers.map Prod.fst) hfit.distinct
  have hchecked' := world'.abides_driven opening' (weathers.map Prod.snd) hfit'.distinct
  rw [List.length_map, hrun] at hchecked
  rw [List.length_map, hrun'] at hchecked'
  refine ⟨process, process', hrun, hrun', hchecked, hchecked', hwatched, ?_⟩
  intro hperm hsight halike name
  have hget := Registry.get?_eq_of_perm hfit.distinct hfit'.distinct hperm name
  by_cases hname : name ∈ setup.registry.watchedNames
  · exact (hwatched name hname hget (hsight name) (halike name)).1
  · have hname' : name ∉ setup'.registry.watchedNames := fun hmem =>
      hname (Registry.watched_of_get? hfit'.distinct hget.symm hmem)
    rw [driven_unwatched hfit.distinct hname hrun, driven_unwatched hfit'.distinct hname' hrun']
    rw [show world.store.records name = world'.store.records name from
      congrArg Sight.record (hsight name)]

def driving (names : List String) : Setup :=
  ⟨⟨names.map fun name => ⟨name, .incomplete, .auto, .default, none⟩⟩, {}⟩

theorem driving_fit {names : List String} (h : names.Nodup) : (driving names).registry.Fit := by
  constructor
  · unfold Registry.Distinct driving
    rw [List.map_map]
    change (names.map fun name => name).Nodup
    rwa [List.map_id']
  · intro name domain t hget ht
    rcases List.mem_map.mp (List.mem_of_find?_eq_some hget) with ⟨owner, _, rfl⟩
    cases ht

def renewable (store : MemoryStore) : Rehearsal :=
  { Rehearsal.atRest store with
    scripts := [⟨some "a", .complete .epoch, .zero⟩] }

theorem renewable_plain {store : MemoryStore} (h : forall name, store.credentials name = none) :
    (renewable store).Plain := by
  constructor
  case reserved =>
    exact List.forall_mem_singleton.mpr (by simp)
  case prompt =>
    exact List.forall_mem_singleton.mpr rfl
  case staged =>
    intro script hscript t ht
    cases List.mem_singleton.mp hscript
    cases ht
    decide
  case installed =>
    intro name credential hcredential
    change store.credentials name = some credential at hcredential
    rw [h name] at hcredential
    cases hcredential

/-- The epoch, at which every request for the given names is refused. -/
def refusing (names : List String) : Weather :=
  ⟨.epoch, fun _ request => request.name?.any fun name => names.contains name⟩

/-- A neighbour that stands first, has a record with errors, and is refused everything does
not change what is driven for a name, whether counts are checked or not. -/
theorem undisturbed_by_failing_neighbour :
    exists process process',
      (renewable .empty).driven (driving ["a"]) (refusing []) [refusing []] = .ok process ∧
      (renewable (MemoryStore.empty.saveJob "b" { name := "b", errorRuns := 3 })).driven
        (driving ["b", "a"]) (refusing ["b"]) [refusing ["b"]] = .ok process' ∧
      (renewable (MemoryStore.empty.saveJob "b" { name := "b", errorRuns := 3 })).checkedDriven
        (driving ["b", "a"]) (refusing ["b"]) [refusing ["b"]] = .ok process' ∧
      process.standing "a" = process'.standing "a" := by
  have hplain : (renewable .empty).Plain :=
    renewable_plain fun _ => rfl
  have hplain' : (renewable (MemoryStore.empty.saveJob "b"
      { name := "b", errorRuns := 3 })).Plain :=
    renewable_plain fun _ => rfl
  have hroom : (renewable (MemoryStore.empty.saveJob "b"
      { name := "b", errorRuns := 3 })).HasRoom 1 := by
    constructor
    · decide
    · intro name record hrecord
      change (if name = "b" then some _ else none) = some record at hrecord
      split at hrecord
      · cases hrecord
        decide
      · cases hrecord
  have hyears : Instant.epoch.InYears := by
    decide
  have hnow : forall pair, pair ∈ [(refusing [], refusing ["b"]), (refusing [], refusing ["b"])] ->
      pair.1.now.InYears ∧ pair.2.now.InYears := by
    intro pair hpair
    rcases List.mem_pair.mp hpair with rfl | rfl
    · exact ⟨hyears, hyears⟩
    · exact ⟨hyears, hyears⟩
  have halike : (refusing []).Alike "a" (refusing ["b"]) := by
    constructor
    · rfl
    · intro request _ _ hrequest
      simp [refusing, hrequest]
  have hfit : (driving ["a"]).registry.Fit :=
    driving_fit (by decide)
  have hfit' : (driving ["b", "a"]).registry.Fit :=
    driving_fit (by decide)
  rcases domains_do_not_interfere hfit hfit' hplain hplain' hnow with
    ⟨process, process', hrun, hrun', _, hchecked, hwatched, _⟩
  have hsame := hchecked.resolve_right fun hhalts => hhalts.1 hroom
  refine ⟨process, process', hrun, hrun', hsame, (hwatched "a" ?_ ?_ ?_ ?_).1⟩
  · decide
  · decide
  · exact (sight_saveJob_of_ne (renewable .empty) _ (by decide)).symm
  · intro pair hpair
    rcases List.mem_pair.mp hpair with rfl | rfl
    · exact halike
    · exact halike

-- A neighbour whose count has no room left halts a run that checks it.
example : ((renewable (MemoryStore.empty.saveJob "b"
    { name := "b", errorRuns := 4294967295 })).checkedDriven
      (driving ["b", "a"]) (refusing ["b"]) [refusing []]).toOption.isNone = true := by
  decide +kernel

end RenewalDrive
