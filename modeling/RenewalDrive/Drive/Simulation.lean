import RenewalDrive.Drive.Rehearsal

/-!
# Simulated runs

A drive under a watchdog in a rehearsed world, whose clock follows the time of the
watchdog: only pauses and attempts take time, and attempts take whole milliseconds.
-/

namespace RenewalDrive

structure Sighting where
  state : WatchState
  /-- The time of the call in milliseconds. -/
  time : Nat
  /-- The pause that is programmed after the call. -/
  interval : Span
  jobs : List DriveJob
  world : Rehearsal

structure Simulation where
  world : Rehearsal
  context : DriveContext
  /-- The clock at the beginning of the run. -/
  origin : Instant
  interval : Span
  /-- The number of regular calls so far. -/
  turns : Nat
  /-- The calls so far, the last one first. -/
  sightings : List Sighting
  halted : Option Halt

namespace Simulation

/-- An attempt in a simulated run is a sleep, which takes whole milliseconds. -/
def asSleep (script : Script) : Script :=
  { script with
    took := ⟨Watchdog.slept script.took.ceilMilliseconds * Span.perMillisecond⟩ }

def sleeps (world : Rehearsal) (moment : Nat) : List Nat :=
  (world.deedsFrom moment).filterMap fun deed =>
    match deed with
    | .attempted _ _ _ took => some took.ceilMilliseconds
    | _ => none

def worldAt (simulation : Simulation) (time : Nat) : Except Halt Rehearsal :=
  match simulation.origin.add? ⟨time * Span.perMillisecond⟩ with
  | some t => .ok { simulation.world.pinned t with scripts := simulation.world.scripts.map asSleep }
  | none => .error .timeOutOfRange

def tick (simulation : Simulation) (state : WatchState) (time : Nat) :
    Except Halt (Simulation × List Nat) := do
  let world ← simulation.worldAt time
  let ((interval, context), later) ← (Rehearsal.host.tick simulation.context state).run world
  let interval := interval.getD simulation.interval
  let turns := if state = .running then simulation.turns + 1 else simulation.turns
  return ({ simulation with
      world := later
      context := context
      interval := interval
      turns := turns
      sightings := ⟨state, time, interval, context.jobs, later⟩ :: simulation.sightings },
    sleeps later world.moment)

/-- What happens in the world after a number of regular calls. -/
abbrev Plan := Nat -> Act Rehearsal Unit

def followPlan (plan : Plan) (state : WatchState) (simulation : Simulation) :
    Except Halt Simulation := do
  if state = .running then
    let ((), world) ← (plan simulation.turns).run simulation.world
    return { simulation with world := world }
  else
    return simulation

/-- The steps of a call: it sleeps, and programs the pause; the signal is sent with the
last of the wanted regular calls. -/
def steps (limit : Nat) (state : WatchState) (simulation : Simulation) (sleeps : List Nat) :
    List Watchdog.CallStep :=
  sleeps.map .sleep ++ [.interfere (.program simulation.interval)] ++
    if state = .running ∧ limit ≤ simulation.turns then [.interfere (.send true)] else []

/-- One call. A drive that halts stops the watchdog. -/
def call (limit : Nat) (plan : Plan) (state : WatchState) (time : Nat)
    (simulation : Simulation) : Simulation × List Watchdog.CallStep :=
  if simulation.halted.isSome then (simulation, [.interfere (.send true)])
  else
    let result := do
      let (simulation, sleeps) ← simulation.tick state time
      return (← simulation.followPlan plan state, sleeps)
    match result with
    | .ok (simulation, sleeps) => (simulation, simulation.steps limit state sleeps)
    | .error halt => ({ simulation with halted := some halt }, [.interfere (.send true)])

def note (event : Event) (simulation : Simulation) : Simulation :=
  match (Rehearsal.note event).run simulation.world with
  | .ok ((), world) => { simulation with world := world }
  | .error halt => { simulation with halted := some halt }

def callback (limit : Nat) (plan : Plan) : Watchdog.Callback Simulation where
  call := call limit plan
  note := note

/-- Runs a context that was started in a world for a number of regular calls; answers
what was seen of each call. -/
def run (world : Rehearsal) (context : DriveContext) (plan : Plan) (limit : Nat) :
    Except Halt (List Sighting) :=
  let simulation : Simulation := ⟨world, context, world.reading, .zero, 0, [], none⟩
  match Watchdog.run (callback limit plan) (limit + 1) (.new false .zero []) simulation with
  | none => .ok []
  | some run =>
      match run.state.halted with
      | some halt => .error halt
      | none => .ok run.state.sightings.reverse

end Simulation
end RenewalDrive
