import Mathlib
import RenewalDrive.Proofs.Time.Order

/-!
# Moving forward in time

Instants that are moved by spans that are not negative, and the wait from one instant to
another. Leap seconds make the difference of two instants and the move by a span disagree at
times, but a wait for an instant that is in no leap second never goes beyond it.
-/

namespace RenewalDrive

namespace Span

theorem wait_of_nonneg {span : Span} (h : 0 ≤ span.nanoseconds) : span.wait = span := by
  rw [wait, if_neg (by omega)]

theorem wait_of_neg {span : Span} (h : span.nanoseconds < 0) : span.wait = zero := by
  rw [wait, if_pos h]

end Span

namespace Instant

theorem ofParts?_eq_some_iff {second : Int} {fraction : Nat} {t : Instant} :
    ofParts? second fraction = some t ↔ t.second = second ∧ t.fraction = fraction := by
  unfold ofParts?
  constructor
  · intro h
    split at h
    · cases h
      exact ⟨rfl, rfl⟩
    · cases h
  · rintro ⟨rfl, rfl⟩
    rw [dif_pos t.inRange]

theorem inLeapSecond_iff {t : Instant} :
    t.inLeapSecond = true ↔ (1000000000 : Int) ≤ t.fraction := by
  rw [inLeapSecond, decide_eq_true_iff, Span.perSecond]
  omega

theorem not_inLeapSecond_iff {t : Instant} :
    t.inLeapSecond = false ↔ (t.fraction : Int) < 1000000000 := by
  rw [← Bool.not_eq_true, inLeapSecond_iff]
  omega

theorem fraction_lt (t : Instant) : (t.fraction : Int) < 2000000000 := by
  have h := t.inRange
  unfold InRange at h
  simp only [Span.perSecond] at h
  omega

theorem reading_eq (t : Instant) : t.reading = t.second * 1000000000 + t.fraction :=
  rfl

theorem ofReading?_eq_some_iff {nanoseconds : Int} {t : Instant} :
    ofReading? nanoseconds = some t ↔ t.reading = nanoseconds ∧ t.inLeapSecond = false := by
  rw [ofReading?, ofParts?_eq_some_iff, reading_eq, not_inLeapSecond_iff, Span.perSecond]
  constructor
  · rintro ⟨hsecond, hfraction⟩
    omega
  · rintro ⟨hreading, hleap⟩
    omega

theorem exists_ofReading? {nanoseconds : Int} (first last : Instant)
    (hfirst : first.second * Span.perSecond ≤ nanoseconds)
    (hlast : nanoseconds < (last.second + 1) * Span.perSecond) :
    exists t, ofReading? nanoseconds = some t := by
  unfold ofReading? ofParts?
  rw [dif_pos]
  · exact ⟨_, rfl⟩
  · have hbegin := first.inRange
    have hend := last.inRange
    unfold InRange at hbegin hend ⊢
    simp only [Span.perSecond] at hfirst hlast ⊢
    omega

theorem add?_of_nonneg (t : Instant) {span : Span} (h : 0 ≤ span.nanoseconds) :
    t.add? span =
      if t.inLeapSecond then
        if t.fraction + span.nanoseconds < 2000000000 then
          ofParts? t.second (t.fraction + span.nanoseconds).toNat
        else ofReading? (t.reading - 1000000000 + span.nanoseconds)
      else ofReading? (t.reading + span.nanoseconds) := by
  unfold add?
  split
  next hleap =>
    rw [inLeapSecond_iff] at hleap
    have hwhole : span.wholeSeconds = span.nanoseconds / 1000000000 :=
      Int.tdiv_eq_ediv_of_nonneg h
    have hrest : span.subsecond = span.nanoseconds % 1000000000 :=
      Int.tmod_eq_emod_of_nonneg h
    have hfraction := t.fraction_lt
    simp only [hwhole, hrest, Span.perSecond]
    by_cases hstays : t.fraction + span.nanoseconds < 2000000000
    · rw [if_neg (by omega), if_neg (by omega), if_pos hstays]
      congr 2
      omega
    · rw [if_pos (by omega), if_neg hstays]
      rfl
  next =>
    rfl

theorem lt_of_add?_eq_some {t next : Instant} {span : Span} (h : t.add? span = some next)
    (hspan : 0 < span.nanoseconds) : t < next := by
  rw [add?_of_nonneg t (by omega)] at h
  rw [lt_iff]
  split at h
  next hleap =>
    rw [inLeapSecond_iff] at hleap
    split at h
    · rw [ofParts?_eq_some_iff] at h
      omega
    · rw [ofReading?_eq_some_iff, reading_eq, reading_eq, not_inLeapSecond_iff] at h
      omega
  next hplain =>
    rw [Bool.not_eq_true, not_inLeapSecond_iff] at hplain
    rw [ofReading?_eq_some_iff, reading_eq, reading_eq, not_inLeapSecond_iff] at h
    omega

/-!
## Waiting for an instant
-/

/-- Only a leap second on either side makes a difference count a second more or less. -/
theorem since_cases (wake t : Instant) :
    (wake.since t).nanoseconds = wake.reading - t.reading ∨
      (t.inLeapSecond = true ∧ t.second % 86400 < wake.second % 86400 ∧
        (wake.since t).nanoseconds = wake.reading - t.reading + 1000000000) ∨
      (wake.inLeapSecond = true ∧ wake.second % 86400 < t.second % 86400 ∧
        (wake.since t).nanoseconds = wake.reading - t.reading - 1000000000) := by
  have hnanoseconds : (wake.since t).nanoseconds =
      wake.reading - t.reading + wake.leapBetween t * 1000000000 := rfl
  rw [hnanoseconds]
  unfold leapBetween secondOfDay
  split
  next hlater =>
    split
    next hleap =>
      refine Or.inr (Or.inl ⟨hleap, ?_, ?_⟩)
      · omega
      · omega
    next =>
      exact Or.inl (by omega)
  next =>
    split
    next hearlier =>
      split
      next hleap =>
        refine Or.inr (Or.inr ⟨hleap, ?_, ?_⟩)
        · omega
        · omega
      next =>
        exact Or.inl (by omega)
    next =>
      exact Or.inl (by omega)

/-- Only from the leap second at the end of a day an instant that lies ahead may seem to be
none. -/
theorem since_pos {wake t : Instant} (ht : t.inLeapSecond = true -> t.secondOfDay ≠ 86399)
    (h : t < wake) : 0 < (wake.since t).nanoseconds := by
  have hnanoseconds : (wake.since t).nanoseconds =
      wake.reading - t.reading + wake.leapBetween t * 1000000000 := rfl
  rw [hnanoseconds, reading_eq, reading_eq]
  rw [lt_iff] at h
  rw [inLeapSecond_iff] at ht
  have hfraction := t.fraction_lt
  unfold leapBetween secondOfDay
  unfold secondOfDay at ht
  split
  · split
    · omega
    next hplain =>
      rw [inLeapSecond_iff] at hplain
      omega
  · split
    · split
      next hleap =>
        rw [inLeapSecond_iff] at hleap
        omega
      · omega
    · omega

theorem add?_zero (t : Instant) : t.add? .zero = some t := by
  have hzero : 0 ≤ Span.zero.nanoseconds := Int.le_refl 0
  have hfraction := t.fraction_lt
  rw [add?_of_nonneg t hzero]
  simp only [Span.zero, Int.add_zero, Int.toNat_natCast]
  split
  · exact ofParts?_eq_some_iff.mpr ⟨rfl, rfl⟩
  next hplain =>
    exact ofReading?_eq_some_iff.mpr ⟨rfl, by simpa using hplain⟩

theorem exists_add?_wait (t : Instant) {wake : Instant} (hwake : wake.inLeapSecond = false) :
    exists woken, t.add? (wake.since t).wait = some woken ∧ woken ≤ max t wake := by
  rcases lt_or_ge (wake.since t).nanoseconds 0 with hneg | hnonneg
  · rw [Span.wait_of_neg hneg]
    exact ⟨t, t.add?_zero, le_max_left t wake⟩
  · rw [Span.wait_of_nonneg hnonneg, add?_of_nonneg t hnonneg]
    have hplain := not_inLeapSecond_iff.mp hwake
    have hsince := since_cases wake t
    generalize (wake.since t).nanoseconds = span at hnonneg hsince
    cases hleap : t.inLeapSecond with
    | false =>
        have hspan : t.reading + span = wake.reading := by
          simp only [hleap, hwake, Bool.false_eq_true, false_and, or_false] at hsince
          omega
        rw [if_neg Bool.false_ne_true, hspan]
        exact ⟨wake, ofReading?_eq_some_iff.mpr ⟨rfl, hwake⟩, le_max_right t wake⟩
    | true =>
        -- The instant lies in a later second, and the wait is as long as the readings differ,
        -- or a second longer.
        have hfraction := inLeapSecond_iff.mp hleap
        have hlimit := t.fraction_lt
        have hspan : span = wake.reading - t.reading ∨
            t.second % 86400 < wake.second % 86400 ∧
              span = wake.reading - t.reading + 1000000000 := by
          rcases hsince with hspan | ⟨_, hday, hspan⟩ | ⟨hother, _, _⟩
          · exact Or.inl hspan
          · exact Or.inr ⟨hday, hspan⟩
          · rw [hwake] at hother
            cases hother
        rw [reading_eq, reading_eq] at hspan
        have hlater : t.second < wake.second := by
          omega
        rw [if_pos rfl]
        split
        next hstays =>
          have hrange : InRange t.second (t.fraction + span).toNat := by
            have hinRange := t.inRange
            unfold InRange at hinRange ⊢
            simp only [Span.perSecond] at hinRange ⊢
            omega
          refine ⟨⟨t.second, (t.fraction + span).toNat, hrange⟩, dif_pos hrange, ?_⟩
          exact le_max_of_le_right (le_iff.mpr (Or.inl hlater))
        next hleaves =>
          rw [reading_eq]
          have hexists : exists woken,
              ofReading? (t.second * 1000000000 + t.fraction - 1000000000 + span) = some woken := by
            apply exists_ofReading? t wake
            · simp only [Span.perSecond]
              omega
            · simp only [Span.perSecond]
              omega
          rcases hexists with ⟨woken, hwoken⟩
          refine ⟨woken, hwoken, le_max_of_le_right ?_⟩
          rw [ofReading?_eq_some_iff, reading_eq, not_inLeapSecond_iff] at hwoken
          rw [le_iff]
          omega

/-!
## One move after another
-/

section

variable {t mid next : Instant} {first second : Span}

theorem add?_eq_some_iff (h : 0 ≤ first.nanoseconds) :
    t.add? first = some next ↔
      if t.inLeapSecond ∧ t.fraction + first.nanoseconds < 2000000000 then
        next.second = t.second ∧ (next.fraction : Int) = t.fraction + first.nanoseconds
      else next.inLeapSecond = false ∧ next.reading =
        (if t.inLeapSecond then t.reading - 1000000000 else t.reading) + first.nanoseconds := by
  rw [add?_of_nonneg t h]
  cases t.inLeapSecond with
  | false =>
      simp only [Bool.false_eq_true, if_false, false_and]
      rw [ofReading?_eq_some_iff, and_comm]
  | true =>
      simp only [if_true, true_and]
      split
      next => 
        rw [ofParts?_eq_some_iff]
        omega
      next =>
        rw [ofReading?_eq_some_iff, and_comm]

theorem add?_add? (hmid : t.add? first = some mid) (hfirst : 0 ≤ first.nanoseconds)
    (hsecond : 0 ≤ second.nanoseconds) :
    mid.add? second = t.add? ⟨first.nanoseconds + second.nanoseconds⟩ := by
  have hboth : 0 ≤ (⟨first.nanoseconds + second.nanoseconds⟩ : Span).nanoseconds :=
    Int.add_nonneg hfirst hsecond
  ext next
  rw [add?_eq_some_iff hfirst] at hmid
  rw [add?_eq_some_iff hsecond, add?_eq_some_iff hboth]
  simp only [reading_eq, not_inLeapSecond_iff, inLeapSecond_iff] at hmid ⊢
  split_ifs at hmid ⊢
  all_goals omega

theorem add?_le_iff {other : Instant} (hnext : t.add? first = some next)
    (hother : t.add? second = some other) (hfirst : 0 ≤ first.nanoseconds)
    (hsecond : 0 ≤ second.nanoseconds) :
    next ≤ other ↔ first.nanoseconds ≤ second.nanoseconds := by
  rw [add?_eq_some_iff hfirst] at hnext
  rw [add?_eq_some_iff hsecond] at hother
  rw [le_iff]
  simp only [reading_eq, not_inLeapSecond_iff, inLeapSecond_iff] at hnext hother
  have := next.fraction_lt
  have := other.fraction_lt
  have := t.fraction_lt
  split_ifs at hnext hother
  all_goals omega

end

end Instant
end RenewalDrive
