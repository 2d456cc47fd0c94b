import RenewalDrive.Proofs.Drive.Context

/-!
# Runs of a drive

A run is a sequence of calls to processes that live one after the other in the same world:
starts, calls of a watchdog, and the rounds, evaluations and announcements that make up
such calls. Between two calls the world may change as it likes, except that nobody else
writes job records. The trace of a run is the list of all its deeds, each with the setup of
the process that did it.
-/

namespace RenewalDrive

/-!
## Processes
-/

structure Setup where
  registry : Registry
  settings : DriveSettings

structure Happening where
  setup : Setup
  deed : Deed

theorem mem_trace {setup other : Setup} {deeds : List Deed} {deed : Deed} :
    (⟨other, deed⟩ : Happening) ∈ deeds.map (Happening.mk setup) ↔
      other = setup ∧ deed ∈ deeds := by
  simp only [List.mem_map, Happening.mk.injEq]
  constructor
  · rintro ⟨done, hdone, rfl, rfl⟩
    exact ⟨rfl, hdone⟩
  · rintro ⟨rfl, hdeed⟩
    exact ⟨deed, hdeed, rfl, rfl⟩

inductive Call where
  | start (registry : Registry) (settings : DriveSettings)
  | tick (state : WatchState)
  | runJobs
  /-- The evaluation of a single job, due or not. -/
  | evaluate (position : Nat)
  | announce

def Call.isStart : Call -> Bool
  | .start _ _ => true
  | _ => false

structure Process where
  world : Rehearsal
  context : Option DriveContext

namespace Process

/-- The process after an act on its context; without a context nothing is done. -/
def within (process : Process) (act : DriveContext -> Act Rehearsal DriveContext) :
    Except Halt Process :=
  match process.context with
  | none => .ok process
  | some context => do
      let (context, world) ← (act context).run process.world
      return ⟨world, some context⟩

def evaluateAt (position : Nat) (context : DriveContext) : Act Rehearsal DriveContext :=
  match context.jobs[position]? with
  | none => return context
  | some job => do
      let result ← Rehearsal.host.evaluate context.registry job
      return { context with jobs := context.jobs.set position result.2 }

def call (process : Process) : Call -> Except Halt Process
  | .start registry settings => do
      let (context, world) ← (Rehearsal.host.start registry settings).run process.world
      return ⟨world, context⟩
  | .tick state => process.within fun context => do
      return (← Rehearsal.host.tick context state).2
  | .runJobs => process.within fun context => do
      return (← Rehearsal.host.runJobs context).2
  | .evaluate position => process.within (evaluateAt position)
  | .announce => process.within fun context => do
      return (← Rehearsal.host.notifyContext context).2

def setup (process : Process) : Call -> Option Setup
  | .start registry settings => some ⟨registry, settings⟩
  | _ => process.context.map fun context => ⟨context.registry, context.settings⟩

end Process

/-!
## What a call performs
-/

inductive Performs : Call -> Option DriveContext -> List Deed -> Option DriveContext -> Prop where
  | start {registry : Registry} {settings : DriveSettings} {before context : Option DriveContext}
      {deeds : List Deed} :
      StartsContext registry settings deeds context ->
      Performs (.start registry settings) before deeds context
  | tick {state : WatchState} {context later : DriveContext} {deeds : List Deed}
      {interval : Option Span} :
      Ticks context state deeds interval later ->
      Performs (.tick state) (some context) deeds (some later)
  | runJobs {context later : DriveContext} {deeds : List Deed} {wait : Span} :
      Rounds context deeds wait later ->
      Performs .runJobs (some context) deeds (some later)
  | missing {position : Nat} {context : DriveContext} :
      context.jobs[position]? = none ->
      Performs (.evaluate position) (some context) [] (some context)
  | evaluate {position : Nat} {context : DriveContext} {deeds : List Deed}
      {job evaluated : DriveJob} {verdict : Evaluation} :
      context.jobs[position]? = some job ->
      Evaluates context.registry job deeds verdict evaluated ->
      Performs (.evaluate position) (some context) deeds
        (some { context with jobs := context.jobs.set position evaluated })
  | announce {context later : DriveContext} {deeds : List Deed} {report : NoticeReport} :
      Notifies context deeds report later ->
      Performs .announce (some context) deeds (some later)

namespace Process

open Act Rehearsal

theorem yields_evaluateAt (position : Nat) (context : DriveContext) :
    (evaluateAt position context).Yields fun deeds later =>
      Performs (.evaluate position) (some context) deeds (some later) := by
  unfold evaluateAt
  split
  next hmissing =>
    exact yields_pure (Performs.missing hmissing)
  next job hjob =>
    apply yields_bind (yields_evaluate context.registry job)
    intro deeds result hevaluates
    apply yields_pure
    rw [List.append_nil]
    exact Performs.evaluate hjob hevaluates

theorem performs_of_within {process later : Process} {context : DriveContext} {call : Call}
    {act : DriveContext -> Act Rehearsal DriveContext}
    (hcontext : process.context = some context)
    (hact : (act context).Yields fun deeds context' =>
      Performs call (some context) deeds (some context'))
    (h : process.within act = .ok later) :
    exists deeds, Passage process.world deeds later.world ∧
      Performs call process.context deeds later.context := by
  unfold within at h
  rw [hcontext] at h ⊢
  cases hrun : (act context).run process.world with
  | error halt =>
      simp [hrun, bind, Except.bind] at h
  | ok result =>
      cases result with
      | mk context' world =>
          simp only [hrun, bind, Except.bind, pure, Except.pure, Except.ok.injEq] at h
          subst h
          exact hact process.world context' world hrun

theorem performs_of_call {process later : Process} {call : Call} {setup : Setup}
    (hsetup : process.setup call = some setup) (h : process.call call = .ok later) :
    exists deeds, Passage process.world deeds later.world ∧
      Performs call process.context deeds later.context := by
  cases call with
  | start registry settings =>
      unfold Process.call at h
      cases hrun : (host.start registry settings).run process.world with
      | error halt =>
          simp [hrun, bind, Except.bind] at h
      | ok result =>
          cases result with
          | mk context world =>
              simp only [hrun, bind, Except.bind, pure, Except.pure, Except.ok.injEq] at h
              subst h
              rcases yields_start registry settings process.world context world hrun with
                ⟨deeds, hpassage, hstarts⟩
              exact ⟨deeds, hpassage, Performs.start hstarts⟩
  | tick state =>
      rcases Option.map_eq_some_iff.mp hsetup with ⟨context, hcontext, _⟩
      refine performs_of_within hcontext ?_ h
      apply yields_bind (yields_tick context state)
      intro deeds result hticks
      apply yields_pure
      rw [List.append_nil]
      exact Performs.tick hticks
  | runJobs =>
      rcases Option.map_eq_some_iff.mp hsetup with ⟨context, hcontext, _⟩
      refine performs_of_within hcontext ?_ h
      apply yields_bind (yields_runJobs context)
      intro deeds result hrounds
      apply yields_pure
      rw [List.append_nil]
      exact Performs.runJobs hrounds
  | evaluate position =>
      rcases Option.map_eq_some_iff.mp hsetup with ⟨context, hcontext, _⟩
      exact performs_of_within hcontext (yields_evaluateAt position context) h
  | announce =>
      rcases Option.map_eq_some_iff.mp hsetup with ⟨context, hcontext, _⟩
      refine performs_of_within hcontext ?_ h
      apply yields_bind (yields_notifyContext context)
      intro deeds result hnotifies
      apply yields_pure
      rw [List.append_nil]
      exact Performs.announce hnotifies

end Process

/-!
## Runs
-/

/-- A world changes from outside: nobody but the drive writes job records or asks for
anything in its name. -/
structure Rehearsal.Outside (world later : Rehearsal) : Prop where
  records : later.store.records = world.store.records
  requests : later.requests = world.requests

inductive Run (origin : Process) : List Call -> List Happening -> Process -> Prop where
  | refl : Run origin [] [] origin
  | call {calls : List Call} {trace : List Happening} {process later : Process} {call : Call}
      {setup : Setup} {deeds : List Deed} :
      Run origin calls trace process ->
      process.setup call = some setup ->
      process.call call = .ok later ->
      later.world.requests = process.world.requests ++ deeds ->
      Run origin (calls ++ [call]) (trace ++ deeds.map (Happening.mk setup)) later
  | outside {calls : List Call} {trace : List Happening} {process : Process} {world : Rehearsal} :
      Run origin calls trace process ->
      process.world.Outside world ->
      Run origin calls trace { process with world := world }

theorem Run.trans {origin mid later : Process} {calls calls' : List Call}
    {trace trace' : List Happening} (hfirst : Run origin calls trace mid)
    (hsecond : Run mid calls' trace' later) :
    Run origin (calls ++ calls') (trace ++ trace') later := by
  induction hsecond with
  | refl =>
      rw [List.append_nil, List.append_nil]
      exact hfirst
  | call _ hsetup hcall hrequests ih =>
      rw [← List.append_assoc, ← List.append_assoc]
      exact Run.call ih hsetup hcall hrequests
  | outside _ houtside ih =>
      exact Run.outside ih houtside

/-!
## A world at rest
-/

def Instant.epoch : Instant :=
  ⟨0, 0, by decide⟩

/-- A world in which time stands still, nothing is refused, every attempt fails, every
command returns, and no log is kept. -/
def Rehearsal.atRest (store : MemoryStore) : Rehearsal where
  store := store
  refuses := fun _ _ => false
  clock := fun _ => Instant.epoch
  scripts := []
  runner := fun _ _ => .ok none
  kept := none
  journal := []

def Registry.single (name : String) (state : DomainState) : Registry :=
  ⟨[⟨name, state, .auto, .default, none⟩]⟩

theorem Registry.single_distinct (name : String) (state : DomainState) :
    ((single name state).domains.map (·.name)).Nodup := by
  simp [single]

/-!
## Runs that are played
-/

namespace Process

def play (process : Process) : List Call -> Except Halt (Process × List Happening)
  | [] => .ok (process, [])
  | call :: calls =>
      match process.setup call with
      | none => .error .timeOutOfRange
      | some setup => do
          let later ← process.call call
          let (final, trace) ← later.play calls
          let deeds := later.world.requests.drop process.world.requests.length
          return (final, deeds.map (Happening.mk setup) ++ trace)

theorem run_of_play_eq {process final : Process} {calls : List Call} {trace : List Happening}
    (h : process.play calls = .ok (final, trace)) : Run process calls trace final := by
  induction calls generalizing process trace with
  | nil =>
      cases h
      exact Run.refl
  | cons call calls ih =>
      unfold play at h
      cases hsetup : process.setup call with
      | none =>
          rw [hsetup] at h
          cases h
      | some setup =>
          cases hcall : process.call call with
          | error halt =>
              simp [hsetup, hcall, bind, Except.bind] at h
          | ok later =>
              cases hplay : later.play calls with
              | error halt =>
                  simp [hsetup, hcall, hplay, bind, Except.bind] at h
              | ok result =>
                  simp only [hsetup, hcall, hplay, bind, Except.bind, pure, Except.pure,
                    Except.ok.injEq, Prod.mk.injEq] at h
                  rcases h with ⟨rfl, rfl⟩
                  rcases performs_of_call hsetup hcall with ⟨deeds, hpassage, _⟩
                  rw [hpassage.requests, List.drop_left]
                  have hfirst := Run.call Run.refl hsetup hcall hpassage.requests
                  exact hfirst.trans (ih hplay)

theorem run_of_play {process : Process} {calls : List Call} {trace : List Happening}
    {α : Type} {seen : α} (observe : Process -> α)
    (h : (process.play calls).map (fun played => (observe played.1, played.2)) =
      .ok (seen, trace)) :
    exists final, Run process calls trace final ∧ observe final = seen := by
  cases hplay : process.play calls with
  | error halt =>
      rw [hplay] at h
      cases h
  | ok played =>
      rw [hplay] at h
      simp only [Except.map, Except.ok.injEq, Prod.mk.injEq] at h
      rcases h with ⟨hseen, rfl⟩
      exact ⟨played.1, run_of_play_eq hplay, hseen⟩

theorem runs_of_play {process : Process} {first second : List Call} {early late : List Happening}
    (h : (process.play first).map
        (fun played => ((played.1.play second).map (fun further => further.2), played.2)) =
      .ok (.ok late, early)) :
    exists mid later, Run process first early mid ∧ Run mid second late later := by
  rcases run_of_play (fun mid => (mid.play second).map fun further => further.2) h with
    ⟨mid, hfirst, hsecond⟩
  cases hplay : mid.play second with
  | error halt =>
      rw [hplay] at hsecond
      cases hsecond
  | ok played =>
      rw [hplay] at hsecond
      cases hsecond
      exact ⟨mid, played.1, hfirst, run_of_play_eq hplay⟩

end Process

end RenewalDrive
