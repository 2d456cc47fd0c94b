import RenewalDrive.Config.Load
import RenewalDrive.Daemon.Site

/-!
# The daemon

The daemon drives the domains of a configuration under a watchdog until it is
interrupted.
-/

namespace RenewalDrive

inductive DaemonError where
  | noRenewCommand
  | config (error : ConfigError)

def DaemonError.message : DaemonError -> String
  | .noRenewCommand => "no renew_cmd configured"
  | .config error => error.message

/-! ## Drives under a watchdog -/

structure Hosted (σ : Type) where
  world : σ
  context : DriveContext
  /-- The number of regular calls so far. -/
  turns : Nat
  halted : Option Halt

namespace Hosted

variable {σ : Type} (host : Host σ) (lastTurn : Nat)

/-- What a call does to the watchdog: it programs the pause, and the interrupt comes
during the last wanted call. -/
def steps (state : WatchState) (turns : Nat) (interval : Option Span) :
    List Watchdog.CallStep :=
  (interval.toList.map fun interval => .interfere (.program interval)) ++
    if state = .running ∧ lastTurn ≤ turns then [.interfere (.send true)] else []

/-- One call. A drive that halts stops the watchdog. -/
def call (state : WatchState) (hosted : Hosted σ) : Hosted σ × List Watchdog.CallStep :=
  if hosted.halted.isSome then (hosted, [.interfere (.send true)])
  else
    match (host.tick hosted.context state).run hosted.world with
    | .error halt => ({ hosted with halted := some halt }, [.interfere (.send true)])
    | .ok ((interval, context), world) =>
        let turns := if state = .running then hosted.turns + 1 else hosted.turns
        ({ hosted with world := world, context := context, turns := turns },
          steps lastTurn state turns interval)

def note (event : Event) (hosted : Hosted σ) : Hosted σ :=
  match (host.note event).run hosted.world with
  | .ok ((), world) => { hosted with world := world }
  | .error halt => { hosted with halted := some halt }

def callback : Watchdog.Callback (Hosted σ) where
  call state _ hosted := call host lastTurn state hosted
  note := note host

/-- Runs a context until it is interrupted during the given regular call. -/
def run (context : DriveContext) : Act σ Unit :=
  fun world =>
    let hosted : Hosted σ := ⟨world, context, 0, none⟩
    match Watchdog.run (callback host lastTurn) (lastTurn + 1) (.new false .zero []) hosted with
    | none => .ok ((), world)
    | some run =>
        match run.state.halted with
        | some halt => .error halt
        | none => .ok ((), run.state.world)

end Hosted

/-! ## The daemon -/

namespace Daemon

def drive (config : Config) (host : Host Site) (registry : Registry) (lastTurn : Nat) :
    Act Site Unit := do
  Site.note (.daemonStarting registry.domains.length)
  if ¬ config.intervalInRange then Site.note (.intervalOutOfRange config.checkInterval)
  match ← host.start registry config.settings with
  | none => Site.note .daemonIdle
  | some context => do
      Hosted.run host lastTurn context
      Site.note .daemonStopped

def run (config : Config) (store : FileStore) (lastTurn : Nat) :
    Act Site (Except DaemonError Unit) := do
  match config.renewCommand with
  | none => return .error .noRenewCommand
  | some text =>
      let host := Site.host store (.ofText text store)
      let now ← host.now
      match ← (config.registry (fun name => ExceptT.mk (host.loadCredential name)) now).run with
      | .error error => return .error (.config (.store error))
      | .ok registry =>
          drive config host registry lastTurn
          return .ok ()

end Daemon
end RenewalDrive
