import RenewalDrive.Proofs.Watchdog.Calls

/-!
# The life of a watchdog

A watchdog calls back once when it starts, then for regular calls only, and once more when
it stops, if it does. A regular call never begins while the signal is set, and at most two
of them begin after the sender of the signal is gone: one more than the value that was still
to be noticed, if there was one.
-/

namespace RenewalDrive

namespace Watchdog

namespace Run

variable {β : Type} {callback : Callback β} {run last : Run β} {begun : List (Run β)}
  {verdict : Verdict}

/-!
## Calls that heed the signal
-/

structure Heeds (begun : List (Run β)) : Prop where
  unset : forall run, run ∈ begun -> run.watchdog.signal.value = false
  deserted : begun.countP (fun run => run.watchdog.signal.closed) ≤ 2

theorem Proceeds.unset (h : Proceeds callback run begun verdict last) :
    forall run, run ∈ begun -> run.watchdog.signal.value = false := by
  induction h with
  | rest _ =>
      exact List.forall_mem_nil _
  | stop hvalue _ =>
      exact List.forall_mem_singleton.mpr hvalue
  | goOn hvalue _ _ ih =>
      exact List.forall_mem_cons.mpr ⟨hvalue, ih⟩

theorem turn_of_closed {next : Run β} (hclosed : run.watchdog.signal.closed = true)
    (hturn : run.turn callback = (verdict, next)) :
    verdict = Run.verdict run.watchdog.signal ∧
      next.watchdog.signal = { run.watchdog.signal with unseen := false } := by
  have hturned := turned_of_turn hturn
  have hpaused : (run.paused callback).signal = run.watchdog.signal :=
    (later_paused run).closed hclosed
  rw [← hpaused]
  exact ⟨hturned.verdict_eq, congrArg Watchdog.signal hturned.watchdog_eq⟩

theorem Proceeds.length_le_one (h : Proceeds callback run begun verdict last)
    (hclosed : run.watchdog.signal.closed = true)
    (hseen : run.watchdog.signal.unseen = false) : begun.length ≤ 1 := by
  cases h with
  | rest _ =>
      exact Nat.zero_le 1
  | stop _ _ =>
      exact Nat.le_refl 1
  | goOn _ hturn _ =>
      have hgoOn := (turn_of_closed hclosed hturn).1
      simp [Run.verdict, hclosed, hseen] at hgoOn

theorem Proceeds.length_le_two (h : Proceeds callback run begun verdict last)
    (hclosed : run.watchdog.signal.closed = true) : begun.length ≤ 2 := by
  cases h with
  | rest _ =>
      exact Nat.zero_le 2
  | stop _ _ =>
      exact Nat.le_succ 1
  | goOn _ hturn hnext =>
      have hsignal := (turn_of_closed hclosed hturn).2
      refine Nat.succ_le_succ (hnext.length_le_one ?_ ?_)
      · rw [hsignal]
        exact hclosed
      · rw [hsignal]

theorem Proceeds.deserted (h : Proceeds callback run begun verdict last) :
    begun.countP (fun run => run.watchdog.signal.closed) ≤ 2 := by
  induction h with
  | rest _ =>
      exact Nat.zero_le 2
  | stop _ _ =>
      exact Nat.le_trans List.countP_le_length (Nat.le_succ 1)
  | @goOn run next last begun verdict hvalue hturn hnext ih =>
      cases hclosed : run.watchdog.signal.closed with
      | true =>
          have hlength := (Proceeds.goOn hvalue hturn hnext).length_le_two hclosed
          exact Nat.le_trans List.countP_le_length hlength
      | false =>
          rw [List.countP_cons_of_neg (by simp [hclosed])]
          exact ih

theorem Proceeds.heeds (h : Proceeds callback run begun verdict last) : Heeds begun :=
  ⟨h.unset, h.deserted⟩

/-!
## Calls that are made
-/

/-- What the callback is told from its first call up to the pause after the last of some regular
calls. -/
def script (callback : Callback β) (watchdog : Watchdog) (begun : List (Run β)) : List Told :=
  .noted .timerStarting :: .called .starting watchdog.time :: begun.flatMap (·.told callback)

/-- The callback is called and not merely logged: the regular calls go on from what the starting
call made of the watchdog and of the state, each of them from what the one before it left, and
the state in the end is what the callback made of all that it was told. -/
structure Played (callback : Callback β) (watchdog : Watchdog) (state : β) (begun : List (Run β))
    (last : Run β) : Prop where
  first : exists run, (begun ++ [last]).head? = some run ∧
    run.state =
      (callback.call .starting watchdog.time (callback.note .timerStarting state)).1 ∧
    run.watchdog =
      (callback.call .starting watchdog.time (callback.note .timerStarting state)).2.foldl
        afterStep watchdog
  turned : (begun ++ [last]).IsChain fun run next =>
    exists verdict, Turned callback run verdict next
  state_eq : last.state = heard callback (script callback watchdog begun) state

theorem Proceeds.played {watchdog : Watchdog} {state : β}
    (h : Proceeds callback (begin callback watchdog state) begun verdict last) :
    Played callback watchdog state begun last := by
  rcases h.turned with ⟨hhead, hchain⟩
  exact ⟨⟨_, hhead, rfl, rfl⟩, hchain, h.state_eq⟩

/-!
## Whole lives
-/

/-- The calls of a watchdog that has gone on to some regular calls. -/
theorem Proceeds.calls_of_begin {watchdog : Watchdog} {state : β}
    (h : Proceeds callback (begin callback watchdog state) begun verdict last) :
    last.calls.reverse =
      ⟨.starting, watchdog.time, watchdog.interval⟩ :: begun.map (·.opening .running) :=
  h.calls_eq

theorem Played.state_finish {watchdog : Watchdog} {state : β}
    (h : Played callback watchdog state begun last) :
    (last.finish callback).state =
      heard callback
        (script callback watchdog begun ++
          [.called .stopping last.watchdog.time, .noted .timerStopped]) state := by
  rw [heard_append, ← h.state_eq]
  rfl

end Run

/-- Whatever its callback does and whatever is sent on its signal, a watchdog makes one
starting call, then regular calls that heed the signal, and when it ends, one stopping call;
it does not end before a pause or the signal told it to. The callback is called each time with
the state that it left, and what it does to the watchdog in a call is done. -/
theorem watchdog_life_cycle {β : Type} (callback : Callback β) (watchdog : Watchdog) (state : β) :
    (forall begun verdict later,
      (Run.begin callback watchdog state).Proceeds callback begun verdict later ->
        later.calls.reverse =
          ⟨.starting, watchdog.time, watchdog.interval⟩ :: begun.map (·.opening .running) ∧
        Run.Heeds begun ∧
        Run.Played callback watchdog state begun later) ∧
    (forall limit final, run callback limit watchdog state = some final ->
      exists begun verdict last,
        (Run.begin callback watchdog state).Proceeds callback begun verdict last ∧
        Run.Ends verdict last ∧
        final.calls.reverse =
          ⟨.starting, watchdog.time, watchdog.interval⟩ :: begun.map (·.opening .running) ++
            [last.opening .stopping] ∧
        final.watchdog = last.left callback .stopping ∧
        final.state =
          Run.heard callback
            (Run.script callback watchdog begun ++
              [.called .stopping last.watchdog.time, .noted .timerStopped]) state) ∧
    forall limit, run callback limit watchdog state = none ->
      exists begun later,
        (Run.begin callback watchdog state).Proceeds callback begun .goOn later ∧
        begun.length = limit ∧ later.watchdog.signal.value = false := by
  refine ⟨?_, ?_, ?_⟩
  · intro begun verdict later hproceeds
    exact ⟨hproceeds.calls_of_begin, hproceeds.heeds, hproceeds.played⟩
  · intro limit final hrun
    rcases Run.loop_eq_some_iff.mp hrun with ⟨begun, verdict, last, hproceeds, _, hends, rfl⟩
    refine ⟨begun, verdict, last, hproceeds, hends, ?_, rfl, hproceeds.played.state_finish⟩
    change (last.opening .stopping :: last.calls).reverse = _
    rw [List.reverse_cons, hproceeds.calls_of_begin]
  · intro limit hrun
    exact Run.loop_eq_none_iff.mp hrun

def counting : Callback Nat where
  call := fun _ _ count => (count + 1, [])
  note := fun _ count => count

/-- A watchdog whose signal was taken back, and whose sender is gone. -/
def deserted : Watchdog :=
  { new false .zero [] with signal := ((StopSignal.mk false false false).send false).close }

theorem watchdog_life_cycle_without_sender :
    exists begun verdict last,
      (Run.begin counting deserted 0).Proceeds counting begun verdict last ∧
      Run.Ends verdict last ∧ Run.Heeds begun ∧
      Run.Played counting deserted 0 begun last ∧
      ([⟨.starting, 0, .zero⟩, ⟨.running, 0, .zero⟩, ⟨.running, 0, .zero⟩,
          ⟨.stopping, 0, .zero⟩] : List Call) =
        ⟨.starting, 0, .zero⟩ :: begun.map (·.opening .running) ++ [last.opening .stopping] ∧
      4 =
        Run.heard counting
          (Run.script counting deserted begun ++
            [.called .stopping last.watchdog.time, .noted .timerStopped]) 0 := by
  rcases watchdog_life_cycle counting deserted 0 with ⟨hcalls, hends, _⟩
  rcases hends 2 _ rfl with ⟨begun, verdict, last, hproceeds, hend, hfinal, _, hstate⟩
  rcases hcalls _ _ _ hproceeds with ⟨_, hheeds, hplayed⟩
  exact ⟨begun, verdict, last, hproceeds, hend, hheeds, hplayed, hfinal, hstate⟩

end Watchdog
end RenewalDrive
