import RenewalDrive.Proofs.Watchdog.Signal

/-!
# Calls of a watchdog

The loop of a watchdog, unrolled: `Run.Proceeds` follows a run from one regular call to the
next, whether the run ends or not, and `Run.loop_eq_some_iff` and `Run.loop_eq_none_iff` say
that the loop is this and nothing else.
-/

namespace RenewalDrive

namespace Watchdog

namespace Run

variable {β : Type} {callback : Callback β}

/-!
## Single calls
-/

def opening (run : Run β) (state : WatchState) : Call :=
  ⟨state, run.watchdog.time, run.watchdog.interval⟩

theorem later_call (run : Run β) (state : WatchState) :
    Later run.watchdog (run.call callback state).watchdog :=
  later_steps run.watchdog _

/-- The watchdog when the callback returns from a call: it has taken the steps of the call, one
after the other. -/
def left (callback : Callback β) (state : WatchState) (run : Run β) : Watchdog :=
  (callback.call state run.watchdog.time run.state).2.foldl afterStep run.watchdog

def paused (callback : Callback β) (run : Run β) : Watchdog :=
  (run.left callback .running).pause

theorem later_paused (run : Run β) : Later run.watchdog (run.paused callback) :=
  (later_call run .running).trans (later_pause _)

/-- What a regular call and the pause after it make of a run: the callback is called with the
state and the time of the run, and then told of the pause. -/
structure Turned (callback : Callback β) (run : Run β) (verdict : Verdict) (next : Run β) :
    Prop where
  verdict_eq : verdict = Run.verdict (run.paused callback).signal
  state_eq : next.state =
    callback.note (.timerSleeping (run.left callback .running).interval)
      (callback.call .running run.watchdog.time run.state).1
  watchdog_eq : next.watchdog =
    { run.paused callback with signal := { (run.paused callback).signal with unseen := false } }
  calls_eq : next.calls = run.opening .running :: run.calls

theorem turned_of_turn {run next : Run β} {verdict : Verdict}
    (hturn : run.turn callback = (verdict, next)) : Turned callback run verdict next := by
  cases hturn
  exact ⟨rfl, rfl, rfl, rfl⟩

/-!
## What a callback is told
-/

inductive Told where
  | called (state : WatchState) (time : Nat)
  | noted (event : Event)

/-- The state of a callback that was called and told of events in this order. -/
def heard (callback : Callback β) (told : List Told) (state : β) : β :=
  told.foldl (fun state told =>
    match told with
    | .called signal time => (callback.call signal time state).1
    | .noted event => callback.note event state) state

theorem heard_append (first second : List Told) (state : β) :
    heard callback (first ++ second) state = heard callback second (heard callback first state) :=
  List.foldl_append

def told (callback : Callback β) (run : Run β) : List Told :=
  [.called .running run.watchdog.time,
    .noted (.timerSleeping (run.left callback .running).interval)]

/-!
## Regular calls one after the other
-/

/-- A run makes regular calls, each from the run that is listed for it, up to a later run
and the verdict after the last pause. -/
inductive Proceeds (callback : Callback β) : Run β -> List (Run β) -> Verdict -> Run β -> Prop where
  | rest (run : Run β) : Proceeds callback run [] .goOn run
  | stop {run last : Run β} :
      run.watchdog.signal.value = false ->
      run.turn callback = (.stop, last) ->
      Proceeds callback run [run] .stop last
  | goOn {run next last : Run β} {begun : List (Run β)} {verdict : Verdict} :
      run.watchdog.signal.value = false ->
      run.turn callback = (.goOn, next) ->
      Proceeds callback next begun verdict last ->
      Proceeds callback run (run :: begun) verdict last

/-- No regular call follows: the last pause was told to stop, or the signal is set. -/
def Ends (verdict : Verdict) (last : Run β) : Prop :=
  verdict = .stop ∨ last.watchdog.signal.value = true

/-- A run of the loop that ends has made its regular calls and then the last call. -/
theorem loop_eq_some_iff {limit : Nat} {run final : Run β} :
    run.loop callback limit = some final ↔
      exists begun verdict last, Proceeds callback run begun verdict last ∧
        begun.length ≤ limit ∧ Ends verdict last ∧ final = last.finish callback := by
  constructor
  · intro h
    induction limit generalizing run with
    | zero =>
        unfold loop at h
        split at h
        next hset =>
          cases h
          exact ⟨[], .goOn, run, Proceeds.rest run, Nat.le_refl _, Or.inr hset, rfl⟩
        next =>
          cases h
    | succ limit ih =>
        unfold loop at h
        split at h
        next hset =>
          cases h
          exact ⟨[], .goOn, run, Proceeds.rest run, Nat.zero_le _, Or.inr hset, rfl⟩
        next hunset =>
          have hvalue : run.watchdog.signal.value = false := Bool.eq_false_iff.mpr hunset
          split at h
          next last hturn =>
            cases h
            exact ⟨[run], .stop, last, Proceeds.stop hvalue hturn, Nat.le_add_left 1 limit,
              Or.inl rfl, rfl⟩
          next next hturn =>
            rcases ih h with ⟨begun, verdict, last, hproceeds, hlength, hends, hfinal⟩
            exact ⟨run :: begun, verdict, last, Proceeds.goOn hvalue hturn hproceeds,
              Nat.succ_le_succ hlength, hends, hfinal⟩
  · rintro ⟨begun, verdict, last, hproceeds, hlength, hends, rfl⟩
    induction hproceeds generalizing limit with
    | rest run =>
        have hset : run.watchdog.signal.value = true := hends.resolve_left (by decide)
        cases limit <;> exact if_pos hset
    | stop hvalue hturn =>
        cases limit with
        | zero =>
            cases hlength
        | succ limit =>
            simp [loop, hvalue, hturn]
    | goOn hvalue hturn _ ih =>
        cases limit with
        | zero =>
            cases hlength
        | succ limit =>
            simpa [loop, hvalue, hturn] using ih (Nat.le_of_succ_le_succ hlength) hends

/-- A run of the loop that was cut off has made all the regular calls that it was allowed,
and would make another one. -/
theorem loop_eq_none_iff {limit : Nat} {run : Run β} :
    run.loop callback limit = none ↔
      exists begun later, Proceeds callback run begun .goOn later ∧
        begun.length = limit ∧ later.watchdog.signal.value = false := by
  induction limit generalizing run with
  | zero =>
      unfold loop
      constructor
      · intro h
        split at h
        next =>
          cases h
        next hunset =>
          exact ⟨[], run, Proceeds.rest run, rfl, Bool.eq_false_iff.mpr hunset⟩
      · rintro ⟨begun, later, hproceeds, hlength, hunset⟩
        cases List.length_eq_zero_iff.mp hlength
        cases hproceeds
        simp [hunset]
  | succ limit ih =>
      unfold loop
      constructor
      · intro h
        split at h
        next =>
          cases h
        next hunset =>
          have hvalue : run.watchdog.signal.value = false := Bool.eq_false_iff.mpr hunset
          split at h
          next =>
            cases h
          next next hturn =>
            rcases ih.mp h with ⟨begun, later, hproceeds, hlength, hlater⟩
            exact ⟨run :: begun, later, Proceeds.goOn hvalue hturn hproceeds,
              congrArg Nat.succ hlength, hlater⟩
      · rintro ⟨begun, later, hproceeds, hlength, hunset⟩
        cases hproceeds with
        | rest _ =>
            cases hlength
        | goOn hvalue hturn hproceeds =>
            simp only [hvalue, hturn, Bool.false_eq_true, if_false]
            exact ih.mpr ⟨_, later, hproceeds, Nat.succ.inj hlength, hunset⟩

/-- The calls of a run are those that were made before, and the regular ones. -/
theorem Proceeds.calls_eq {run last : Run β} {begun : List (Run β)} {verdict : Verdict}
    (h : Proceeds callback run begun verdict last) :
    last.calls.reverse = run.calls.reverse ++ begun.map (·.opening .running) := by
  have hturn : forall {run next : Run β} {verdict : Verdict},
      run.turn callback = (verdict, next) ->
      next.calls.reverse = run.calls.reverse ++ [run.opening .running] := by
    intro run next verdict hturn
    rw [(turned_of_turn hturn).calls_eq, List.reverse_cons]
  induction h with
  | rest _ =>
      exact (List.append_nil _).symm
  | stop _ hstop =>
      exact hturn hstop
  | goOn _ hgoOn _ ih =>
      rw [ih, hturn hgoOn, List.append_assoc, List.map_cons, List.singleton_append]

theorem Proceeds.turned {run last : Run β} {begun : List (Run β)} {verdict : Verdict}
    (h : Proceeds callback run begun verdict last) :
    (begun ++ [last]).head? = some run ∧
      (begun ++ [last]).IsChain fun run next =>
        exists verdict, Turned callback run verdict next := by
  induction h with
  | rest run =>
      exact ⟨rfl, .singleton run⟩
  | stop _ hturn =>
      exact ⟨rfl, .cons_cons ⟨_, turned_of_turn hturn⟩ (.singleton _)⟩
  | @goOn run next last begun verdict _ hturn _ ih =>
      rcases ih with ⟨hhead, hchain⟩
      rcases List.head?_eq_some_iff.mp hhead with ⟨rest, hrest⟩
      refine ⟨rfl, ?_⟩
      rw [List.cons_append]
      rw [hrest] at hchain ⊢
      exact .cons_cons ⟨_, turned_of_turn hturn⟩ hchain

/-- The state of a later run is what the callback makes of all its calls. -/
theorem Proceeds.state_eq {run last : Run β} {begun : List (Run β)} {verdict : Verdict}
    (h : Proceeds callback run begun verdict last) :
    last.state = heard callback (begun.flatMap (·.told callback)) run.state := by
  induction h with
  | rest _ =>
      rfl
  | stop _ hturn =>
      exact (turned_of_turn hturn).state_eq
  | goOn _ hturn _ ih =>
      rw [ih, List.flatMap_cons, heard_append, (turned_of_turn hturn).state_eq]
      rfl

end Run
end Watchdog
end RenewalDrive
