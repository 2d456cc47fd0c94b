import Mathlib.Data.List.TakeWhile
import RenewalDrive.Proofs.Watchdog.Calls

/-!
# The interval between regular calls

A pause takes the interval that was programmed when the call before it returned, unless a
value is sent on the signal, or its sender is lost, before the pause is over. A value that
does not stop the watchdog makes the next call begin at once, so the interval is kept exactly
when nobody touches the signal; and no pause is longer than the longest sleep.
-/

namespace RenewalDrive

namespace Watchdog

/-!
## Waiting for a deadline
-/

def Ordered (events : List (Nat × Interference)) : Prop :=
  events.Pairwise fun first second => first.1 ≤ second.1

/-- Nothing outside touches the signal of a watchdog before a deadline. -/
def QuietUntil (deadline : Nat) (watchdog : Watchdog) : Prop :=
  forall event, event ∈ watchdog.outside -> event.2.rings = true ->
    deadline ≤ max watchdog.time event.1

section

variable {watchdog : Watchdog} {time deadline : Nat}

theorem lt_of_mem_ahead {event : Nat × Interference} (hordered : Ordered watchdog.outside)
    (h : event ∈ watchdog.ahead time) : time < event.1 := by
  unfold ahead at h
  generalize watchdog.outside = events at hordered h
  induction events with
  | nil =>
      cases h
  | cons first rest ih =>
      rcases List.pairwise_cons.mp hordered with ⟨hfirst, hrest⟩
      by_cases hpast : first.1 ≤ time
      · rw [List.dropWhile_cons_of_pos (by simpa using hpast)] at h
        exact ih hrest h
      · rw [List.dropWhile_cons_of_neg (by simpa using hpast)] at h
        rcases List.mem_cons.mp h with rfl | hmem
        · exact Nat.lt_of_not_le hpast
        · exact Nat.lt_of_lt_of_le (Nat.lt_of_not_le hpast) (hfirst event hmem)

theorem quietUntil_moveTo_iff (hordered : Ordered watchdog.outside)
    (hquiet : (watchdog.moveTo time).signal.rings = false) :
    QuietUntil deadline (watchdog.moveTo time) ↔ QuietUntil deadline watchdog := by
  rw [moveTo_rings, Bool.or_eq_false_iff, List.any_eq_false] at hquiet
  rcases hquiet with ⟨_, hhappened⟩
  unfold QuietUntil
  rw [moveTo_time, moveTo_outside]
  -- An event that is still ahead lies behind either time.
  have hmax : forall event, event ∈ watchdog.ahead (max watchdog.time time) ->
      max (max watchdog.time time) event.1 = max watchdog.time event.1 := by
    intro event hevent
    have hlt := lt_of_mem_ahead hordered hevent
    omega
  constructor
  · intro h event hevent hrings
    rw [← List.takeWhile_append_dropWhile
      (p := fun event => decide (event.1 ≤ max watchdog.time time)) (l := watchdog.outside)]
      at hevent
    rcases List.mem_append.mp hevent with hmem | hmem
    · exact absurd hrings (hhappened event hmem)
    · rw [← hmax event hmem]
      exact h event hmem hrings
  · intro h event hevent hrings
    rw [hmax event hevent]
    exact h event ((List.dropWhile_sublist _).mem hevent) hrings

theorem waitUntil_time_le {events : List (Nat × Interference)} (hle : watchdog.time ≤ deadline) :
    (waitUntil deadline events watchdog).time ≤ deadline := by
  induction events generalizing watchdog with
  | nil =>
      change (watchdog.moveTo deadline).time ≤ deadline
      rw [moveTo_time]
      exact Nat.max_le.mpr ⟨hle, Nat.le_refl _⟩
  | cons event rest ih =>
      rcases event with ⟨time, interference⟩
      have hmoved : time ≤ deadline -> (watchdog.moveTo time).time ≤ deadline := by
        intro htime
        rw [moveTo_time]
        exact Nat.max_le.mpr ⟨hle, htime⟩
      unfold waitUntil
      split
      next =>
        rw [moveTo_time]
        exact Nat.max_le.mpr ⟨hle, Nat.le_refl _⟩
      next hbefore =>
        dsimp only
        split
        · exact hmoved (Nat.le_of_not_lt hbefore)
        · exact ih (hmoved (Nat.le_of_not_lt hbefore))

theorem le_moveTo_time : deadline ≤ (watchdog.moveTo deadline).time := by
  rw [moveTo_time]
  exact Nat.le_max_right _ _

theorem quietUntil_of_late (hlate : forall event, event ∈ watchdog.outside -> time ≤ event.1)
    (hle : deadline ≤ max watchdog.time time) : QuietUntil deadline watchdog := by
  intro event hevent _
  have htime := hlate event hevent
  omega

/-- An event that rings has happened by the time at which it is heard, so a later deadline is
missed. -/
theorem QuietUntil.le_of_rings (h : QuietUntil deadline watchdog)
    (hquiet : watchdog.signal.rings = false)
    (hrings : (watchdog.moveTo time).signal.rings = true) :
    deadline ≤ max watchdog.time time := by
  rw [moveTo_rings, hquiet, Bool.false_or, List.any_eq_true] at hrings
  rcases hrings with ⟨ringing, hmem, hringing⟩
  have hpast : ringing.1 ≤ max watchdog.time time := by
    simpa using List.mem_takeWhile_imp hmem
  have hle := h ringing ((List.takeWhile_sublist _).mem hmem) hringing
  omega

/-- A wait lasts up to its deadline just if the signal is left alone until then. -/
theorem le_waitUntil_time_iff {events : List (Nat × Interference)} (hordered : Ordered events)
    (houtside : watchdog.outside <:+ events) (hquiet : watchdog.signal.rings = false) :
    deadline ≤ (waitUntil deadline events watchdog).time ↔ QuietUntil deadline watchdog := by
  induction events generalizing watchdog with
  | nil =>
      have hnone : watchdog.outside = [] := List.suffix_nil.mp houtside
      refine iff_of_true le_moveTo_time ?_
      intro event hevent
      rw [hnone] at hevent
      cases hevent
  | cons event rest ih =>
      rcases event with ⟨time, interference⟩
      rcases List.pairwise_cons.mp hordered with ⟨hfirst, hrest⟩
      have hmine : Ordered watchdog.outside := hordered.sublist houtside.sublist
      have hlate : forall event, event ∈ watchdog.outside -> time ≤ event.1 := by
        intro event hevent
        rcases List.mem_cons.mp (houtside.mem hevent) with rfl | hmem
        · exact Nat.le_refl _
        · exact hfirst event hmem
      unfold waitUntil
      split
      next hafter =>
        have hbehind : deadline ≤ max watchdog.time time :=
          Nat.le_trans (Nat.le_of_lt hafter) (Nat.le_max_right _ _)
        exact iff_of_true le_moveTo_time (quietUntil_of_late hlate hbehind)
      next hbefore =>
        dsimp only
        split
        next hrings =>
          rw [moveTo_time]
          constructor
          · intro hle
            exact quietUntil_of_late hlate hle
          · intro h
            exact h.le_of_rings hquiet hrings
        next hrings =>
          rw [Bool.not_eq_true] at hrings
          rw [ih hrest ?_ hrings, quietUntil_moveTo_iff hmine hrings]
          rw [moveTo_outside]
          rcases List.suffix_cons_iff.mp houtside with hsame | hsuffix
          · have hhead : time ≤ max watchdog.time time := Nat.le_max_right _ _
            simp only [ahead, hsame, List.dropWhile_cons, hhead, decide_true, if_true]
            exact List.dropWhile_suffix _
          · exact (List.dropWhile_suffix _).trans hsuffix

end

/-!
## Pauses
-/

/-- Nobody touches the signal of a watchdog before a deadline, and nothing is left to be
noticed. -/
structure Undisturbed (deadline : Nat) (watchdog : Watchdog) : Prop where
  silent : watchdog.signal.rings = false
  untouched : forall event, event ∈ watchdog.outside -> event.2.rings = true -> deadline ≤ event.1

section

variable {watchdog : Watchdog}

theorem pause_time_le :
    watchdog.pause.time ≤ watchdog.time + slept watchdog.interval.ceilMilliseconds := by
  unfold pause
  dsimp only
  split
  · exact Nat.le_add_right _ _
  · exact waitUntil_time_le (Nat.le_add_right _ _)

theorem le_pause_time_iff (hordered : Ordered watchdog.outside)
    (hpositive : watchdog.interval.ceilMilliseconds ≠ 0) :
    watchdog.time + slept watchdog.interval.ceilMilliseconds ≤ watchdog.pause.time ↔
      Undisturbed (watchdog.time + slept watchdog.interval.ceilMilliseconds) watchdog := by
  have hslept : 0 < slept watchdog.interval.ceilMilliseconds :=
    Nat.lt_min.mpr ⟨Nat.pos_of_ne_zero hpositive, by decide⟩
  unfold pause
  dsimp only
  by_cases hrings : watchdog.signal.rings = true
  · rw [if_pos (Or.inl hrings)]
    refine iff_of_false (by omega) ?_
    intro h
    rw [h.silent] at hrings
    cases hrings
  · rw [if_neg (by simp [hrings, hpositive])]
    rw [Bool.not_eq_true] at hrings
    rw [le_waitUntil_time_iff hordered (List.suffix_refl _) hrings]
    constructor
    · intro h
      refine ⟨hrings, ?_⟩
      intro event hevent htouches
      have hle := h event hevent htouches
      omega
    · intro h event hevent htouches
      exact Nat.le_trans (h.untouched event hevent htouches) (Nat.le_max_right _ _)

end

/-!
## Consecutive calls
-/

namespace Run

variable {β : Type} {callback : Callback β}

/-- The regular call of a later run begins no earlier than the interval after the call of
this run returned that was programmed then. -/
def Spaced (callback : Callback β) (run later : Run β) : Prop :=
  (run.call callback .running).watchdog.interval.nanoseconds ≤
    ((later.watchdog.time : Int) - (run.call callback .running).watchdog.time) *
      Span.perMillisecond

theorem Proceeds.head_eq {run first last : Run β} {rest : List (Run β)} {verdict : Verdict}
    (h : Proceeds callback run (first :: rest) verdict last) : first = run := by
  cases h with
  | stop _ _ =>
      rfl
  | goOn _ _ _ =>
      rfl

theorem turn_outside {run next : Run β} {verdict : Verdict}
    (hturn : run.turn callback = (verdict, next)) :
    next.watchdog.outside <:+ run.watchdog.outside := by
  rw [(turned_of_turn hturn).watchdog_eq]
  exact (later_paused run).outside

theorem Proceeds.turn_of_consecutive {run last earlier later : Run β}
    {before after : List (Run β)} {verdict : Verdict}
    (h : Proceeds callback run (before ++ earlier :: later :: after) verdict last) :
    earlier.watchdog.outside <:+ run.watchdog.outside ∧
      earlier.turn callback = (.goOn, later) := by
  generalize hbegun : before ++ earlier :: later :: after = begun at h
  induction h generalizing before with
  | rest _ =>
      exact absurd hbegun (List.append_ne_nil_of_right_ne_nil _ (List.cons_ne_nil _ _))
  | stop _ _ =>
      have hlength := congrArg List.length hbegun
      simp only [List.length_append, List.length_cons, List.length_nil] at hlength
      omega
  | goOn _ hturn hnext ih =>
      cases before with
      | nil =>
          rcases List.cons_eq_cons.mp hbegun with ⟨rfl, rfl⟩
          rw [hnext.head_eq]
          exact ⟨List.suffix_refl _, hturn⟩
      | cons first before =>
          rcases ih (List.cons_eq_cons.mp hbegun).2 with ⟨houtside, hlater⟩
          exact ⟨houtside.trans (turn_outside hturn), hlater⟩

end Run

theorem nanoseconds_le_iff {span : Span} {milliseconds : Nat} :
    span.nanoseconds ≤ (milliseconds : Int) * Span.perMillisecond ↔
      span.ceilMilliseconds ≤ milliseconds := by
  simp only [Span.ceilMilliseconds, Span.perMillisecond]
  omega

theorem ceilMilliseconds_eq_zero_iff {span : Span} :
    span.ceilMilliseconds = 0 ↔ ¬ 0 < span.nanoseconds := by
  simp only [Span.ceilMilliseconds, Span.perMillisecond]
  omega

/-- A pause takes all of its interval exactly when there is none, or when it is no longer than
the longest sleep and nobody touches the signal while it lasts. -/
theorem ceilMilliseconds_le_pause_iff {watchdog : Watchdog}
    (hordered : Ordered watchdog.outside) :
    watchdog.interval.ceilMilliseconds ≤ watchdog.pause.time - watchdog.time ↔
      (0 < watchdog.interval.nanoseconds ->
        watchdog.interval.ceilMilliseconds ≤ longestSleep ∧
        Undisturbed (watchdog.time + watchdog.interval.ceilMilliseconds) watchdog) := by
  by_cases hzero : watchdog.interval.ceilMilliseconds = 0
  · refine iff_of_true ?_ ?_
    · rw [hzero]
      exact Nat.zero_le _
    · intro hpositive
      exact absurd hpositive (ceilMilliseconds_eq_zero_iff.mp hzero)
  · have hpositive : 0 < watchdog.interval.nanoseconds :=
      Decidable.of_not_not fun hnot => hzero (ceilMilliseconds_eq_zero_iff.mpr hnot)
    have hmost : watchdog.pause.time ≤
        watchdog.time + slept watchdog.interval.ceilMilliseconds := pause_time_le
    have hpause := le_pause_time_iff hordered hzero
    rw [imp_iff_right hpositive]
    unfold slept at hmost hpause
    by_cases hfits : watchdog.interval.ceilMilliseconds ≤ longestSleep
    · rw [Nat.min_eq_left hfits] at hpause
      rw [and_iff_right hfits, ← hpause]
      omega
    · refine iff_of_false ?_ fun h => hfits h.1
      omega

/-- Two consecutive regular calls are apart by the interval that was programmed when the
first one returned exactly when there is no interval to keep, or nobody touches the signal
while it lasts and it is no longer than the longest sleep. -/
theorem interval_kept_iff {β : Type} {callback : Callback β} {watchdog : Watchdog} {state : β}
    {before after : List (Run β)} {earlier later last : Run β} {verdict : Run.Verdict}
    (hordered : Ordered watchdog.outside)
    (h : (Run.begin callback watchdog state).Proceeds callback
      (before ++ earlier :: later :: after) verdict last) :
    earlier.Spaced callback later ↔
      (0 < (earlier.call callback .running).watchdog.interval.nanoseconds ->
        (earlier.call callback .running).watchdog.interval.ceilMilliseconds ≤ longestSleep ∧
        Undisturbed
          ((earlier.call callback .running).watchdog.time +
            (earlier.call callback .running).watchdog.interval.ceilMilliseconds)
          (earlier.call callback .running).watchdog) := by
  rcases h.turn_of_consecutive with ⟨houtside, hturn⟩
  have hlater : later.watchdog.time = (earlier.call callback .running).watchdog.pause.time := by
    rw [(Run.turned_of_turn hturn).watchdog_eq]
    rfl
  have hreturned : Ordered (earlier.call callback .running).watchdog.outside :=
    hordered.sublist
      (((Run.later_call earlier .running).outside.trans houtside).trans
        (Run.later_call _ .starting).outside).sublist
  unfold Run.Spaced
  rw [hlater, ← Int.ofNat_sub (later_pause _).time, nanoseconds_le_iff]
  exact ceilMilliseconds_le_pause_iff hreturned

def everySecond : Callback Unit where
  call := fun _ _ state => (state, [.interfere (.program (.ofSeconds 1))])
  note := fun _ state => state

theorem Run.Proceeds.twice {β : Type} {callback : Callback β} {run : Run β}
    (hunset : run.watchdog.signal.value = false) (hfirst : (run.turn callback).1 = .goOn)
    (hlater : (run.turn callback).2.watchdog.signal.value = false)
    (hsecond : ((run.turn callback).2.turn callback).1 = .goOn) :
    run.Proceeds callback [run, (run.turn callback).2] .goOn
      ((run.turn callback).2.turn callback).2 :=
  goOn hunset (Prod.ext hfirst rfl) (goOn hlater (Prod.ext hsecond rfl) (rest _))

theorem interval_kept_up_to_message :
    exists earlier later last,
      (Run.begin everySecond (new false .zero [(1000, .send false)]) ()).Proceeds everySecond
        [earlier, later] .goOn last ∧
      earlier.Spaced everySecond later := by
  have hordered : Ordered (new false .zero [(1000, .send false)]).outside :=
    List.pairwise_singleton _ _
  have hproceeds := @Run.Proceeds.twice _ everySecond
    (Run.begin everySecond (new false .zero [(1000, .send false)]) ()) rfl rfl rfl (by decide)
  refine ⟨_, _, _, hproceeds, (@interval_kept_iff _ _ _ _ [] _ _ _ _ _ hordered hproceeds).mpr ?_⟩
  intro _
  refine ⟨by decide, rfl, ?_⟩
  exact List.forall_mem_singleton.mpr fun _ => by decide

/-- The signal is told that nothing has changed, and the next call comes too early. -/
theorem interval_cut_short :
    exists earlier later last,
      (Run.begin everySecond (new false .zero [(300, .send false)]) ()).Proceeds everySecond
        [earlier, later] .goOn last ∧
      ¬ earlier.Spaced everySecond later := by
  refine ⟨_, _, _, Run.Proceeds.twice rfl rfl rfl rfl, ?_⟩
  unfold Run.Spaced
  decide

end Watchdog
end RenewalDrive
