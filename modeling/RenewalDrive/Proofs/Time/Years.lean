import RenewalDrive.Job.Basic
import RenewalDrive.Proofs.Time.Moves
import RenewalDrive.Time.Rfc2822

/-!
# Years that can be written

A mail date has four digits for the year. An instant in the years that have such a date lies
so far from the end of time that a pause after a failure never leads beyond it.
-/

namespace RenewalDrive
namespace Instant

def Writable (t : Instant) : Prop :=
  0 ≤ t.date.year ∧ t.date.year ≤ 9999

instance (t : Instant) : Decidable t.Writable :=
  inferInstanceAs (Decidable (_ ∧ _))

/-- The instant lies in the years 0 to 9998. -/
def InYears (t : Instant) : Prop :=
  0 ≤ t.date.year ∧ t.date.year ≤ 9998

instance (t : Instant) : Decidable t.InYears :=
  inferInstanceAs (Decidable (_ ∧ _))

theorem InYears.writable {t : Instant} (h : t.InYears) : t.Writable :=
  ⟨h.1, Int.le_trans h.2 (by decide)⟩

theorem exists_write?_iff {t : Instant} :
    (exists text, Rfc2822.write? t = some text) ↔ t.Writable := by
  rw [← Option.isSome_iff_exists]
  simp [Rfc2822.write?, Writable]

theorem cycle_le_year (t : Instant) :
    400 * ((t.day + Date.epochDays) / 146097) ≤ t.date.year := by
  -- A cycle of four hundred years has 146097 days.
  unfold date Date.ofDays
  generalize t.day + Date.epochDays = days
  have hday : 0 ≤ days % 146097 := by omega
  dsimp only
  generalize days % 146097 = day at hday
  split
  · dsimp only
    omega
  · dsimp only
    omega

theorem InYears.second_lt {t : Instant} (h : t.InYears) : t.second < 253407484800 := by
  have hcycle := t.cycle_le_year
  have hyear := h.2
  unfold day Date.epochDays at hcycle
  omega

theorem exists_add?_of_lt (t : Instant) {span : Span} (hspan : 0 ≤ span.nanoseconds)
    (hroom : t.reading + span.nanoseconds < (latest.second + 1) * Span.perSecond) :
    exists next, t.add? span = some next := by
  have hfraction := t.fraction_lt
  rw [reading_eq] at hroom
  rw [add?_of_nonneg t hspan, reading_eq]
  split
  next hleap =>
    rw [inLeapSecond_iff] at hleap
    split
    next hstays =>
      have hrange : InRange t.second (t.fraction + span.nanoseconds).toNat := by
        have hinRange := t.inRange
        unfold InRange at hinRange ⊢
        simp only [Span.perSecond] at hinRange ⊢
        omega
      exact ⟨_, dif_pos hrange⟩
    next hleaves =>
      apply exists_ofReading? t latest
      · simp only [Span.perSecond]
        omega
      · omega
  next =>
    apply exists_ofReading? t latest
    · simp only [Span.perSecond]
      omega
    · exact hroom

theorem InYears.exists_add?_delay {t : Instant} (h : t.InYears) (errorRuns : Nat) :
    exists next, t.add? (Backoff.delay errorRuns) = some next := by
  have hsecond := h.second_lt
  have hfraction := t.fraction_lt
  have hlimit : Backoff.seconds errorRuns ≤ 3600 := Nat.min_le_right _ _
  have hdelay : (Backoff.delay errorRuns).nanoseconds =
      (Backoff.seconds errorRuns : Int) * 1000000000 := rfl
  have hend : (latest.second + 1) * (Span.perSecond : Int) = 8210266876800000000000 := rfl
  apply exists_add?_of_lt
  · omega
  · rw [hend, reading_eq]
    omega

end Instant
end RenewalDrive
