import RenewalDrive.Proofs.Deeds.Acts
import RenewalDrive.Proofs.Time.Years

/-!
# Acts in step

Two runs of an act from related worlds are in step when neither of them halts, both give the
same answer, and the worlds that they come to are related again. The rules follow the way
acts are put together. Where a world is related to itself only, they say of a single run that
it goes on to its end.
-/

namespace RenewalDrive
namespace Act

variable {σ α β : Type}

theorem run_bind_of_ok {act : Act σ α} {next : α -> Act σ β} {world mid : σ} {a : α}
    (h : act.run world = .ok (a, mid)) : (act >>= next).run world = (next a).run mid := by
  rw [StateT.run_bind, h]
  rfl

theorem run_bind_of_error {act : Act σ α} {next : α -> Act σ β} {world : σ} {halt : Halt}
    (h : act.run world = .error halt) : (act >>= next).run world = .error halt := by
  rw [StateT.run_bind, h]
  rfl

/-- Both runs of the act from related worlds complete in related worlds, with the same answer,
which meets the condition. -/
def InStep (related : σ -> σ -> Prop) (act : Act σ α) (ends : α -> Prop) : Prop :=
  forall world world', related world world' ->
    exists a later later', act.run world = .ok (a, later) ∧ act.run world' = .ok (a, later') ∧
      related later later' ∧ ends a

/-- A world that meets the condition is related to itself. -/
def Still (holds : σ -> Prop) (world world' : σ) : Prop :=
  world = world' ∧ holds world

theorem inStep_still_iff {holds : σ -> Prop} {act : Act σ α} {ends : α -> Prop} :
    act.InStep (Still holds) ends ↔ forall world, holds world ->
      exists a later, act.run world = .ok (a, later) ∧ holds later ∧ ends a := by
  constructor
  · intro h world hworld
    rcases h world world ⟨rfl, hworld⟩ with ⟨a, later, later', hrun, _, hlater, ha⟩
    exact ⟨a, later, hrun, hlater.2, ha⟩
  · intro h world world' hworlds
    rcases hworlds with ⟨rfl, hworld⟩
    rcases h world hworld with ⟨a, later, hrun, hlater, ha⟩
    exact ⟨a, later, later, hrun, hrun, ⟨rfl, hlater⟩, ha⟩

section

variable {related : σ -> σ -> Prop} {meets : α -> Prop} {ends : β -> Prop}

theorem inStep_pure {a : α} (h : meets a) : (pure a : Act σ α).InStep related meets := by
  intro world world' hworlds
  exact ⟨a, world, world', run_pure_eq_ok.mpr ⟨rfl, rfl⟩, run_pure_eq_ok.mpr ⟨rfl, rfl⟩,
    hworlds, h⟩

theorem inStep_bind {act : Act σ α} {next : α -> Act σ β} (hact : act.InStep related meets)
    (hnext : forall a, meets a -> (next a).InStep related ends) :
    (act >>= next).InStep related ends := by
  intro world world' hworlds
  rcases hact world world' hworlds with ⟨a, mid, mid', hrun, hrun', hmids, ha⟩
  rcases hnext a ha mid mid' hmids with ⟨b, later, later', hlast, hlast', hlaters, hb⟩
  exact ⟨b, later, later', run_bind_eq_ok.mpr ⟨a, mid, hrun, hlast⟩,
    run_bind_eq_ok.mpr ⟨a, mid', hrun', hlast'⟩, hlaters, hb⟩

theorem InStep.mono {act : Act σ α} {weaker : α -> Prop} (h : act.InStep related meets)
    (himp : forall a, meets a -> weaker a) : act.InStep related weaker := by
  intro world world' hworlds
  rcases h world world' hworlds with ⟨a, later, later', hrun, hrun', hlaters, ha⟩
  exact ⟨a, later, later', hrun, hrun', hlaters, himp a ha⟩

theorem inStep_instant {candidate : Option Instant} {t : Instant} (h : candidate = some t) :
    (Act.instant candidate : Act σ Instant).InStep related fun _ => True := by
  subst h
  exact inStep_pure trivial

theorem inStep_mapM {act : α -> Act σ β} {items : List α}
    (h : forall item, item ∈ items -> (act item).InStep related fun _ => True) :
    (items.mapM act).InStep related fun _ => True := by
  induction items with
  | nil =>
      rw [List.mapM_nil]
      exact inStep_pure trivial
  | cons item rest ih =>
      rw [List.mapM_cons]
      apply inStep_bind (h item List.mem_cons_self)
      intro result _
      apply inStep_bind (ih fun other hother => h other (List.mem_cons_of_mem item hother))
      intro results _
      exact inStep_pure trivial

theorem inStep_forM {act : α -> Act σ PUnit} {items : List α}
    (h : forall item, item ∈ items -> (act item).InStep related fun _ => True) :
    (items.forM act).InStep related fun _ => True := by
  induction items with
  | nil =>
      exact inStep_pure trivial
  | cons item rest ih =>
      rw [List.forM_eq_forM, List.forM_cons]
      apply inStep_bind (h item List.mem_cons_self)
      intro _ _
      exact ih fun other hother => h other (List.mem_cons_of_mem item hother)

end

theorem InStep.yielding {related : Rehearsal -> Rehearsal -> Prop} {act : Act Rehearsal α}
    {ends : α -> Prop} {meets : List Deed -> α -> Prop} (h : act.InStep related ends)
    (hyields : act.Yields meets) :
    act.InStep related fun a => ends a ∧ exists deeds, meets deeds a := by
  intro world world' hworlds
  rcases h world world' hworlds with ⟨a, later, later', hrun, hrun', hlaters, ha⟩
  rcases hyields world a later hrun with ⟨deeds, _, hdeeds⟩
  exact ⟨a, later, later', hrun, hrun', hlaters, ha, deeds, hdeeds⟩

end Act

/-!
## Dated events
-/

namespace Event

/-- The time that is written as a mail date in the text of an event. -/
def date? : Event -> Option Instant
  | .renewed _ validFrom _ => some validFrom
  | .nothingToRenew _ expires => some expires
  | _ => none

/-- A log that takes some levels can tell of the event. -/
def Told (takes : LogLevel -> Bool) (event : Event) : Prop :=
  takes event.level = true -> forall date, event.date? = some date -> date.Writable

theorem told_of_undated {takes : LogLevel -> Bool} {event : Event} (h : event.date? = none) :
    event.Told takes := by
  intro _ date hdate
  rw [h] at hdate
  cases hdate

theorem told_of_writable {takes : LogLevel -> Bool} {event : Event} {date : Instant}
    (hdate : event.date? = some date) (h : date.Writable) : event.Told takes := by
  intro _ other hother
  rw [hdate] at hother
  cases hother
  exact h

theorem mailDate_of_writable {t : Instant} (h : t.Writable) :
    exists text, mailDate t = .ok text := by
  rcases Instant.exists_write?_iff.mpr h with ⟨text, htext⟩
  exact ⟨text, by simp [mailDate, htext]⟩

theorem mailDate_of_not_writable {t : Instant} (h : ¬ t.Writable) :
    mailDate t = .error .yearUnwritable := by
  unfold mailDate
  split
  next text htext =>
    exact absurd (Instant.exists_write?_iff.mp ⟨text, htext⟩) h
  next =>
    rfl

theorem exists_text {event : Event}
    (h : forall date, event.date? = some date -> date.Writable) :
    exists text, event.text = .ok text := by
  cases event with
  | renewed name validFrom now =>
      rcases mailDate_of_writable (h validFrom rfl) with ⟨date, hdate⟩
      simp [text, hdate, bind, Except.bind, pure, Except.pure]
  | nothingToRenew name expires =>
      rcases mailDate_of_writable (h expires rfl) with ⟨date, hdate⟩
      simp [text, hdate, bind, Except.bind, pure, Except.pure]
  | _ =>
      exact ⟨_, rfl⟩

theorem text_eq_error {event : Event} {date : Instant} (hdate : event.date? = some date)
    (h : ¬ date.Writable) : event.text = .error .yearUnwritable := by
  cases event with
  | renewed name validFrom now =>
      cases hdate
      simp [text, mailDate_of_not_writable h, bind, Except.bind]
  | nothingToRenew name expires =>
      cases hdate
      simp [text, mailDate_of_not_writable h, bind, Except.bind]
  | _ =>
      cases hdate

theorem exists_entries {kept : Option LogLevel} {event : Event}
    (h : event.Told (LogLevel.takes kept)) :
    exists entries, event.entries kept = .ok entries := by
  unfold entries
  split
  next htakes =>
    rcases exists_text (h htakes) with ⟨text, htext⟩
    simp [htext, bind, Except.bind, pure, Except.pure]
  next =>
    exact ⟨[], rfl⟩

theorem entries_eq_error {kept : Option LogLevel} {event : Event}
    (h : ¬ event.Told (LogLevel.takes kept)) :
    event.entries kept = .error .yearUnwritable := by
  unfold Told at h
  push Not at h
  rcases h with ⟨htakes, date, hdate, hwritable⟩
  simp [entries, htakes, text_eq_error hdate hwritable, bind, Except.bind]

end Event

/-!
## Notes
-/

namespace Rehearsal

theorem holds_after_notes {holds : Rehearsal -> Prop} {world : Rehearsal}
    (hnoted : forall world entry, holds world -> holds (world.after (.noted entry)))
    (entries : List LogEntry) (h : holds world) :
    holds (entries.foldl (fun world entry => world.after (.noted entry)) world) := by
  induction entries generalizing world with
  | nil =>
      exact h
  | cons entry rest ih =>
      exact ih (hnoted world entry h)

theorem run_note_of_told {world : Rehearsal} {event : Event}
    (h : event.Told (LogLevel.takes world.kept)) :
    exists entries : List LogEntry, (host.note event).run world =
      .ok ((), entries.foldl (fun world entry => world.after (.noted entry)) world) := by
  rcases Event.exists_entries h with ⟨entries, hentries⟩
  refine ⟨entries, ?_⟩
  show note event world = _
  simp [note, hentries, bind, Except.bind, pure, Except.pure]

theorem run_note_of_not_told {world : Rehearsal} {event : Event}
    (h : ¬ event.Told (LogLevel.takes world.kept)) :
    (host.note event).run world = .error .yearUnwritable := by
  show note event world = _
  simp [note, Event.entries_eq_error h, bind, Except.bind]

end Rehearsal
end RenewalDrive
