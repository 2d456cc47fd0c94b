import RenewalDrive.Drive.Event

/-!
# Watchdogs

A watchdog calls back once when it starts, then again and again with a pause after
each call, and once more when it stops. The calls between may program the length of
the pause. A signal from outside stops it; every message on the signal ends a pause
early, and so does the loss of the sender.

Time is counted in milliseconds from the beginning, and a pause takes its length
rounded up to one, but never more than thirty years. What happens outside reaches the
watchdog when it pauses, while a call sleeps, or before a watchdog that runs beside its
maker makes its first call.
-/

namespace RenewalDrive

inductive WatchState where
  | starting
  | running
  | stopping
deriving DecidableEq

namespace WatchState

def name : WatchState -> String
  | .starting => "starting"
  | .running => "running"
  | .stopping => "stopping"

def byName : List (String × WatchState) :=
  [WatchState.starting, .running, .stopping].map fun state => (state.name, state)

end WatchState

/-! ## The signal -/

structure StopSignal where
  /-- The last value that was sent. -/
  value : Bool
  /-- A value was sent that no pause has noticed yet. -/
  unseen : Bool := false
  /-- The sender is gone. -/
  closed : Bool := false
deriving DecidableEq

namespace StopSignal

def send (signal : StopSignal) (value : Bool) : StopSignal :=
  if signal.closed then signal else { signal with value := value, unseen := true }

def close (signal : StopSignal) : StopSignal :=
  { signal with closed := true }

/-- The signal has something to tell to a pause. -/
def rings (signal : StopSignal) : Bool :=
  signal.unseen || signal.closed

end StopSignal

/-! ## Watchdogs between two calls -/

inductive Interference where
  | send (value : Bool)
  | close
  | program (interval : Span)
deriving DecidableEq

/-- A watchdog: its time, its signal, the programmed pause, and what is going to
happen outside, in the order of time. -/
structure Watchdog where
  time : Nat
  signal : StopSignal
  interval : Span
  outside : List (Nat × Interference)

namespace Watchdog

/-- The longest sleep in milliseconds: thirty years of 365 days. -/
def longestSleep : Nat := 946080000000

def slept (milliseconds : Nat) : Nat :=
  min milliseconds longestSleep

/-- What happens outside, in the order of time, when each event comes after a sleep of
its own from the beginning. -/
def afterSleeps (events : List (Nat × Interference)) : List (Nat × Interference) :=
  (events.map fun event => (slept event.1, event.2)).mergeSort fun a b => a.1 ≤ b.1

/-- A new watchdog, which makes no pause unless it is told to. -/
def new (signal : Bool) (interval : Span) (outside : List (Nat × Interference)) : Watchdog :=
  ⟨0, { value := signal }, interval, outside⟩

def suffer (watchdog : Watchdog) : Interference -> Watchdog
  | .send value => { watchdog with signal := watchdog.signal.send value }
  | .close => { watchdog with signal := watchdog.signal.close }
  | .program interval => { watchdog with interval := interval }

/-- The watchdog after all that happens outside up to its own time. -/
def catchUp (watchdog : Watchdog) : Watchdog :=
  let (past, future) := watchdog.outside.span fun event => event.1 ≤ watchdog.time
  past.foldl (fun watchdog event => watchdog.suffer event.2) { watchdog with outside := future }

def moveTo (watchdog : Watchdog) (time : Nat) : Watchdog :=
  catchUp { watchdog with time := max watchdog.time time }

def sleep (watchdog : Watchdog) (milliseconds : Nat) : Watchdog :=
  if milliseconds = 0 then watchdog else watchdog.moveTo (watchdog.time + slept milliseconds)

/-- Waits until a time, or until the signal rings. -/
def waitUntil (deadline : Nat) : (outside : List (Nat × Interference)) -> Watchdog -> Watchdog
  | [], watchdog => watchdog.moveTo deadline
  | (time, _) :: later, watchdog =>
      if deadline < time then watchdog.moveTo deadline
      else
        let watchdog := watchdog.moveTo time
        if watchdog.signal.rings then watchdog else waitUntil deadline later watchdog

/-- Makes the programmed pause, or the part of it until the signal rings. -/
def pause (watchdog : Watchdog) : Watchdog :=
  let milliseconds := watchdog.interval.ceilMilliseconds
  if watchdog.signal.rings ∨ milliseconds = 0 then watchdog
  else waitUntil (watchdog.time + slept milliseconds) watchdog.outside watchdog

/-! ## Runs -/

inductive CallStep where
  | sleep (milliseconds : Nat)
  | interfere (interference : Interference)
deriving DecidableEq

def afterStep (watchdog : Watchdog) : CallStep -> Watchdog
  | .sleep milliseconds => watchdog.sleep milliseconds
  | .interfere interference => watchdog.suffer interference

/-- What a watchdog calls: each call changes a state and does something to the
watchdog, whose time it is told. -/
structure Callback (β : Type) where
  call : WatchState -> Nat -> β -> β × List CallStep
  /-- Is told of the events of the watchdog itself. -/
  note : Event -> β -> β

structure Call where
  state : WatchState
  time : Nat
  interval : Span
deriving DecidableEq

structure Run (β : Type) where
  watchdog : Watchdog
  state : β
  calls : List Call

namespace Run

variable {β : Type} (callback : Callback β)

def call (run : Run β) (state : WatchState) : Run β :=
  let (inner, steps) := callback.call state run.watchdog.time run.state
  { watchdog := steps.foldl afterStep run.watchdog
    state := inner
    calls := ⟨state, run.watchdog.time, run.watchdog.interval⟩ :: run.calls }

def note (run : Run β) (event : Event) : Run β :=
  { run with state := callback.note event run.state }

def looked (run : Run β) : Run β :=
  { run with
    watchdog :=
      { run.watchdog with signal := { run.watchdog.signal with unseen := false } } }

inductive Verdict where
  /-- The run goes on. -/
  | goOn
  /-- The signal was sent, or nobody can send it any more. -/
  | stop
deriving DecidableEq

/-- The verdict after a pause. A value that was sent counts before the loss of the
sender. -/
def verdict (signal : StopSignal) : Verdict :=
  if signal.unseen then if signal.value then .stop else .goOn
  else if signal.closed then .stop
  else .goOn

/-- A regular call and the pause after it. -/
def turn (run : Run β) : Verdict × Run β :=
  let run := run.call callback .running
  let run := run.note callback (.timerSleeping run.watchdog.interval)
  let run := { run with watchdog := run.watchdog.pause }
  (verdict run.watchdog.signal, run.looked)

def finish (run : Run β) : Run β :=
  (run.call callback .stopping).note callback .timerStopped

/-- Regular calls until the signal stops them, at most the given number; `none` if
that did not suffice. -/
def loop : Nat -> Run β -> Option (Run β)
  | 0, run => if run.watchdog.signal.value then some (run.finish callback) else none
  | limit + 1, run =>
      if run.watchdog.signal.value then some (run.finish callback)
      else
        match run.turn callback with
        | (.stop, run) => some (run.finish callback)
        | (.goOn, run) => loop limit run

def begin (watchdog : Watchdog) (state : β) : Run β :=
  let run := note callback ⟨watchdog, state, []⟩ .timerStarting
  run.call callback .starting

end Run

inductive SpawnError where
  /-- Nothing is there that would run it. -/
  | noReactor
deriving DecidableEq

def SpawnError.message : SpawnError -> String
  | .noReactor =>
      "watchdog unavailable: there is no reactor running, must be called from the context of " ++
        "a Tokio 1.x runtime"

def run {β : Type} (callback : Callback β) (limit : Nat) (watchdog : Watchdog) (state : β) :
    Option (Run β) :=
  (Run.begin callback watchdog state).loop callback limit

/-- A whole run beside its maker, if there is a reactor that runs it. The maker was
there first, so what happens outside at the beginning comes before the first call. -/
def spawn {β : Type} (reactor : Bool) (callback : Callback β) (limit : Nat) (watchdog : Watchdog)
    (state : β) : Except SpawnError (Option (Run β)) :=
  if reactor then .ok (run callback limit watchdog.catchUp state) else .error .noReactor

end Watchdog
end RenewalDrive
