import Mathlib.Data.List.TakeDrop
import RenewalDrive.Drive.Watchdog

/-!
# What happens to a watchdog

Time and the signal of a watchdog while somebody interferes with it, while it sleeps and
while it pauses: time never goes back, a signal whose sender is gone never changes, and only
a value that is sent or the loss of the sender ends a pause early.
-/

namespace RenewalDrive

/-!
## Signals
-/

def Interference.rings : Interference -> Bool
  | .send _ => true
  | .close => true
  | .program _ => false

namespace Watchdog

@[simp]
theorem suffer_time (watchdog : Watchdog) (interference : Interference) :
    (watchdog.suffer interference).time = watchdog.time := by
  cases interference <;> rfl

@[simp]
theorem suffer_outside (watchdog : Watchdog) (interference : Interference) :
    (watchdog.suffer interference).outside = watchdog.outside := by
  cases interference <;> rfl

theorem suffer_rings (watchdog : Watchdog) (interference : Interference) :
    (watchdog.suffer interference).signal.rings =
      (watchdog.signal.rings || interference.rings) := by
  cases interference with
  | send value =>
      change (watchdog.signal.send value).rings = _
      unfold StopSignal.send
      split
      next hclosed =>
        simp [StopSignal.rings, hclosed]
      next =>
        simp [StopSignal.rings, Interference.rings]
  | close =>
      simp [suffer, StopSignal.close, StopSignal.rings, Interference.rings]
  | program interval =>
      simp [suffer, Interference.rings]

theorem suffer_of_closed {watchdog : Watchdog} {interference : Interference}
    (hclosed : watchdog.signal.closed = true) :
    (watchdog.suffer interference).signal = watchdog.signal := by
  cases interference with
  | send value =>
      exact if_pos hclosed
  | close =>
      change { watchdog.signal with closed := true } = watchdog.signal
      rw [← hclosed]
  | program interval =>
      rfl

/-!
## Later watchdogs
-/

/-- One watchdog is what another one becomes: no time is taken back, nothing that happens
outside is added, and without a sender the signal stays. -/
structure Later (watchdog later : Watchdog) : Prop where
  time : watchdog.time ≤ later.time
  outside : later.outside <:+ watchdog.outside
  closed : watchdog.signal.closed = true -> later.signal = watchdog.signal

theorem Later.refl (watchdog : Watchdog) : Later watchdog watchdog :=
  ⟨Nat.le_refl _, List.suffix_refl _, fun _ => rfl⟩

theorem Later.trans {watchdog mid later : Watchdog} (hfirst : Later watchdog mid)
    (hsecond : Later mid later) : Later watchdog later := by
  refine ⟨Nat.le_trans hfirst.time hsecond.time, hsecond.outside.trans hfirst.outside, ?_⟩
  intro hclosed
  have hmid := hfirst.closed hclosed
  rw [← hmid] at hclosed ⊢
  exact hsecond.closed hclosed

theorem later_suffer (watchdog : Watchdog) (interference : Interference) :
    Later watchdog (watchdog.suffer interference) := by
  refine ⟨?_, ?_, suffer_of_closed⟩
  · exact Nat.le_of_eq (suffer_time watchdog interference).symm
  · exact ⟨[], suffer_outside watchdog interference⟩

def sufferAll (watchdog : Watchdog) (events : List (Nat × Interference)) : Watchdog :=
  events.foldl (fun watchdog event => watchdog.suffer event.2) watchdog

theorem sufferAll_time (watchdog : Watchdog) (events : List (Nat × Interference)) :
    (watchdog.sufferAll events).time = watchdog.time := by
  induction events generalizing watchdog with
  | nil =>
      rfl
  | cons event rest ih =>
      exact (ih _).trans (suffer_time watchdog event.2)

theorem sufferAll_outside (watchdog : Watchdog) (events : List (Nat × Interference)) :
    (watchdog.sufferAll events).outside = watchdog.outside := by
  induction events generalizing watchdog with
  | nil =>
      rfl
  | cons event rest ih =>
      exact (ih _).trans (suffer_outside watchdog event.2)

theorem sufferAll_rings (watchdog : Watchdog) (events : List (Nat × Interference)) :
    (watchdog.sufferAll events).signal.rings =
      (watchdog.signal.rings || events.any fun event => event.2.rings) := by
  induction events generalizing watchdog with
  | nil =>
      exact (Bool.or_false _).symm
  | cons event rest ih =>
      refine (ih _).trans ?_
      rw [suffer_rings, List.any_cons, Bool.or_assoc]

theorem sufferAll_of_closed {watchdog : Watchdog} {events : List (Nat × Interference)}
    (hclosed : watchdog.signal.closed = true) :
    (watchdog.sufferAll events).signal = watchdog.signal := by
  induction events generalizing watchdog with
  | nil =>
      rfl
  | cons event rest ih =>
      have hfirst : (watchdog.suffer event.2).signal = watchdog.signal := suffer_of_closed hclosed
      refine (ih ?_).trans hfirst
      rw [hfirst]
      exact hclosed

/-!
## The passing of time
-/

def happened (watchdog : Watchdog) (time : Nat) : List (Nat × Interference) :=
  watchdog.outside.takeWhile fun event => event.1 ≤ time

def ahead (watchdog : Watchdog) (time : Nat) : List (Nat × Interference) :=
  watchdog.outside.dropWhile fun event => event.1 ≤ time

theorem catchUp_eq (watchdog : Watchdog) :
    watchdog.catchUp =
      sufferAll { watchdog with outside := watchdog.ahead watchdog.time }
        (watchdog.happened watchdog.time) := by
  simp only [catchUp, List.span_eq_takeWhile_dropWhile]
  rfl

theorem moveTo_eq (watchdog : Watchdog) (time : Nat) :
    watchdog.moveTo time =
      sufferAll
        { watchdog with
          time := max watchdog.time time
          outside := watchdog.ahead (max watchdog.time time) }
        (watchdog.happened (max watchdog.time time)) :=
  catchUp_eq _

theorem moveTo_time (watchdog : Watchdog) (time : Nat) :
    (watchdog.moveTo time).time = max watchdog.time time := by
  rw [moveTo_eq, sufferAll_time]

theorem moveTo_outside (watchdog : Watchdog) (time : Nat) :
    (watchdog.moveTo time).outside = watchdog.ahead (max watchdog.time time) := by
  rw [moveTo_eq, sufferAll_outside]

theorem moveTo_rings (watchdog : Watchdog) (time : Nat) :
    (watchdog.moveTo time).signal.rings =
      (watchdog.signal.rings ||
        (watchdog.happened (max watchdog.time time)).any fun event => event.2.rings) := by
  rw [moveTo_eq, sufferAll_rings]

theorem later_moveTo (watchdog : Watchdog) (time : Nat) :
    Later watchdog (watchdog.moveTo time) := by
  constructor
  case time =>
    rw [moveTo_time]
    exact Nat.le_max_left _ _
  case outside =>
    rw [moveTo_outside]
    exact List.dropWhile_suffix _
  case closed =>
    intro hclosed
    rw [moveTo_eq]
    exact sufferAll_of_closed hclosed

theorem later_sleep (watchdog : Watchdog) (milliseconds : Nat) :
    Later watchdog (watchdog.sleep milliseconds) := by
  unfold sleep
  split
  · exact Later.refl watchdog
  · exact later_moveTo watchdog _

theorem later_afterStep (watchdog : Watchdog) (step : CallStep) :
    Later watchdog (watchdog.afterStep step) := by
  cases step with
  | sleep milliseconds =>
      exact later_sleep watchdog milliseconds
  | interfere interference =>
      exact later_suffer watchdog interference

theorem later_steps (watchdog : Watchdog) (steps : List CallStep) :
    Later watchdog (steps.foldl afterStep watchdog) := by
  induction steps generalizing watchdog with
  | nil =>
      exact Later.refl watchdog
  | cons step rest ih =>
      exact (later_afterStep watchdog step).trans (ih _)

theorem later_waitUntil (deadline : Nat) (events : List (Nat × Interference))
    (watchdog : Watchdog) : Later watchdog (waitUntil deadline events watchdog) := by
  induction events generalizing watchdog with
  | nil =>
      exact later_moveTo watchdog deadline
  | cons event rest ih =>
      rcases event with ⟨time, interference⟩
      unfold waitUntil
      split
      · exact later_moveTo watchdog deadline
      · dsimp only
        split
        · exact later_moveTo watchdog time
        · exact (later_moveTo watchdog time).trans (ih _)

theorem later_pause (watchdog : Watchdog) : Later watchdog watchdog.pause := by
  unfold pause
  dsimp only
  split
  · exact Later.refl watchdog
  · exact later_waitUntil _ _ watchdog

end Watchdog
end RenewalDrive
