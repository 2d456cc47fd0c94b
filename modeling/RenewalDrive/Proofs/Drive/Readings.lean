import RenewalDrive.Proofs.Drive.Context

/-!
# Readings of the clock

The readings that some deeds were given, in order. An evaluation goes by a reading that it
takes after its reload, and reads the clock once more only when an attempt completed.
-/

namespace RenewalDrive

def Deed.reading? : Deed -> Option Instant
  | .clockRead answer => some answer
  | _ => none

def readings (deeds : List Deed) : List Instant :=
  deeds.filterMap Deed.reading?

@[simp] theorem readings_nil : readings [] = [] :=
  rfl

@[simp] theorem readings_append (first second : List Deed) :
    readings (first ++ second) = readings first ++ readings second :=
  List.filterMap_append

@[simp] theorem readings_cons (deed : Deed) (deeds : List Deed) :
    readings (deed :: deeds) = deed.reading?.toList ++ readings deeds := by
  rw [readings, List.filterMap_cons]
  cases deed.reading? with
  | none =>
      rfl
  | some _ =>
      rfl

@[simp] theorem reading?_clockRead (answer : Instant) :
    (Deed.clockRead answer).reading? = some answer :=
  rfl

theorem mem_readings {t : Instant} {deeds : List Deed} :
    t ∈ readings deeds ↔ .clockRead t ∈ deeds := by
  rw [readings, List.mem_filterMap]
  constructor
  · rintro ⟨deed, hdeed, hreading⟩
    cases deed with
    | clockRead answer =>
        cases hreading
        exact hdeed
    | _ =>
        cases hreading
  · intro hmem
    exact ⟨.clockRead t, hmem, rfl⟩

section

variable {job : DriveJob} {deeds : List Deed}

theorem Reloads.readings_eq {loaded : DriveJob} (h : Reloads job deeds loaded) :
    readings deeds = [] := by
  cases h with
  | kept _ =>
      rfl
  | asked _ _ =>
      rfl

theorem Inspects.readings_eq {now : Instant} {configured domain : Option ManagedDomain}
    (h : Inspects now configured deeds domain) : readings deeds = [] := by
  cases h with
  | unmanaged =>
      rfl
  | managed _ _ =>
      rfl

theorem Begins.readings_eq {domain : Option ManagedDomain} {begun : DriveJob}
    (h : Begins job domain deeds begun) : readings deeds = [] := by
  cases h with
  | kept _ =>
      rfl
  | generation _ _ =>
      rfl

theorem Evaluates.reads {registry : Registry} {evaluated : DriveJob} {verdict : Evaluation}
    (h : Evaluates registry job deeds verdict evaluated) : exists now, .clockRead now ∈ deeds := by
  cases h with
  | notDue now _ _ =>
      exact ⟨now, by simp⟩
  | due now _ _ _ =>
      exact ⟨now, by simp⟩

theorem Announces.readings_eq {command : Option String} {now : Instant}
    {jobs marked : List DriveJob} {report : NoticeReport}
    (h : Announces command now jobs deeds report marked) : readings deeds = [] := by
  have hdelivery : forall {names : List String} {delivered : Bool} {own : List Deed},
      Delivers command names own delivered -> readings own = [] := by
    intro names delivered own hdelivers
    cases hdelivers <;> rfl
  cases h with
  | idle _ =>
      rfl
  | failed _ hdelivers =>
      exact hdelivery hdelivers
  | @delivered _ marking _ _ hdelivers hmarks =>
      have hmarking : forall deed, deed ∈ marking -> deed.reading? = none := by
        apply hmarks.all
        intro job own result hmark
        cases hmark with
        | passed _ =>
            exact List.forall_mem_nil _
        | marked _ _ =>
            exact List.forall_mem_singleton.mpr rfl
      rw [readings_append, hdelivery hdelivers]
      exact List.filterMap_eq_nil_iff.mpr hmarking

end
end RenewalDrive
