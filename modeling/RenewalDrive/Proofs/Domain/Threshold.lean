import RenewalDrive.Domain.Managed
import RenewalDrive.Proofs.Domain.Window
import RenewalDrive.Proofs.Time.Moves

/-!
# The threshold of a renewal

A renewal is due from a fixed moment on: the expiry less the lead of the window, both counted as
whole numbers, without regard to the range of instants. The policy reaches its answer in two
ways, by the state that it finds expired or by the opening of the window, and both ways agree
with that threshold as long as no leap second is involved.
-/

namespace RenewalDrive

namespace Instant

section

variable {a b t earlier now : Instant} {span : Span}

/-- Outside of the leap seconds the order of instants is the order of their readings. -/
theorem le_iff_reading_le (ha : a.inLeapSecond = false) (hb : b.inLeapSecond = false) :
    a ≤ b ↔ a.reading ≤ b.reading := by
  rw [not_inLeapSecond_iff] at ha hb
  rw [le_iff, reading_eq, reading_eq]
  omega

theorem since_of_plain (ha : a.inLeapSecond = false) (hb : b.inLeapSecond = false) :
    (a.since b).nanoseconds = a.reading - b.reading := by
  rcases since_cases a b with h | ⟨hleap, _⟩ | ⟨hleap, _⟩
  · exact h
  · rw [hb] at hleap
    cases hleap
  · rw [ha] at hleap
    cases hleap

theorem sub?_eq_some_iff (ht : t.inLeapSecond = false) :
    t.sub? span = some earlier ↔
      earlier.reading = t.reading - span.nanoseconds ∧ earlier.inLeapSecond = false := by
  rw [sub?, add?, ht, if_neg Bool.false_ne_true, ofReading?_eq_some_iff, Span.negate,
    ← Int.sub_eq_add_neg]

theorem le_of_sub?_eq_none (ht : t.inLeapSecond = false) (hspan : 0 ≤ span.nanoseconds)
    (h : t.sub? span = none) (now : Instant) : t.reading - span.nanoseconds ≤ now.reading := by
  by_contra hlate
  have hin : exists earlier, ofReading? (t.reading - span.nanoseconds) = some earlier := by
    have hfraction := not_inLeapSecond_iff.mp ht
    rw [reading_eq, reading_eq] at hlate
    apply exists_ofReading? now t
    · simp only [reading_eq, Span.perSecond]
      omega
    · simp only [reading_eq, Span.perSecond]
      omega
  rcases hin with ⟨earlier, hearlier⟩
  rw [(sub?_eq_some_iff ht).mpr (ofReading?_eq_some_iff.mp hearlier)] at h
  cases h

end

end Instant

namespace RenewWindow

/-- The nanoseconds before expiry at which a renewal is due, as whole numbers without limits. -/
def intendedLead (window : RenewWindow) (credential : Credential) : Int :=
  match window with
  | .fixed span => span.nanoseconds
  | .percent share =>
      let lifetime := credential.expires.reading - credential.validFrom.reading
      max 0 (lifetime.tdiv Span.perSecond) * share / 100 * Span.perSecond

/-- One window is no longer than another of its kind. -/
inductive Within : RenewWindow -> RenewWindow -> Prop where
  | share {share share' : Nat} :
      share ≤ share' -> Within (.percent share) (.percent share')
  | span {span span' : Span} :
      span.nanoseconds ≤ span'.nanoseconds -> Within (.fixed span) (.fixed span')

section

variable {window wider : RenewWindow} {credential : Credential}

theorem lead_eq (hfrom : credential.validFrom.inLeapSecond = false)
    (hexpires : credential.expires.inLeapSecond = false) :
    (window.lead credential).nanoseconds = window.intendedLead credential := by
  cases window with
  | fixed span => rfl
  | percent share =>
      have hlifetime := Instant.since_of_plain hexpires hfrom
      simp only [lead, Span.ofSeconds, intendedLead, Credential.lifetime, Span.wholeSeconds,
        hlifetime, Int.ofNat_toNat, max_comm (0 : Int)]

theorem Readable.intendedLead_nonneg (h : window.Readable) (credential : Credential) :
    0 ≤ window.intendedLead credential := by
  rcases readable_cases h with ⟨share, _, rfl⟩ | ⟨seconds, _, rfl⟩
  · unfold intendedLead
    positivity
  · exact Int.mul_nonneg (Int.natCast_nonneg seconds) (Int.natCast_nonneg _)

theorem Within.intendedLead_le (h : window.Within wider) (credential : Credential) :
    window.intendedLead credential ≤ wider.intendedLead credential := by
  cases h with
  | @share share share' hshare =>
      have hlifetime := Int.le_max_left 0
        ((credential.expires.reading - credential.validFrom.reading).tdiv Span.perSecond)
      have hproduct := Int.mul_le_mul_of_nonneg_left (Int.ofNat_le.mpr hshare) hlifetime
      exact Int.mul_le_mul_of_nonneg_right (Int.ediv_le_ediv (by decide) hproduct) (by decide)
  | span hspan => exact hspan

end

end RenewWindow

namespace ManagedDomain

section

variable {domain : ManagedDomain} {window : RenewWindow} {credential : Credential}
  {now : Instant}

/-- The window is open from the threshold on, also when the threshold lies before the first
instant. -/
theorem windowOpen_iff (hwindow : window.Readable)
    (hfrom : credential.validFrom.inLeapSecond = false)
    (hexpires : credential.expires.inLeapSecond = false) (hnow : now.inLeapSecond = false) :
    windowOpen window credential now = true ↔
      credential.expires.reading - window.intendedLead credential ≤ now.reading := by
  rw [← RenewWindow.lead_eq hfrom hexpires]
  unfold windowOpen
  split
  next hbeyond =>
    refine ⟨fun _ => Instant.le_of_sub?_eq_none hexpires ?_ hbeyond now, fun _ => rfl⟩
    rw [RenewWindow.lead_eq hfrom hexpires]
    exact hwindow.intendedLead_nonneg credential
  next opens hopens =>
    rcases (Instant.sub?_eq_some_iff hexpires).mp hopens with ⟨hreading, hplain⟩
    rw [decide_eq_true_iff, Instant.le_iff_reading_le hplain hnow, hreading]

theorem shouldRenew_install (hinformation : domain.state ≠ .missingInformation) :
    (domain.install credential now).shouldRenew now = true ↔
      credential.expires ≤ now ∨ windowOpen domain.renewWindow credential now = true := by
  by_cases hexpired : credential.expires ≤ now
  · simp [install, shouldRenew, DomainState.assess, hinformation, hexpired]
  · simp [install, shouldRenew, DomainState.assess, hinformation, hexpired]

/-- A domain that an earlier assessment left complete is judged by its window alone. -/
theorem shouldRenew_complete (hstate : domain.state = .complete)
    (hcredential : domain.credential = some credential) :
    domain.shouldRenew now = windowOpen domain.renewWindow credential now := by
  rw [shouldRenew, hstate, hcredential]

theorem shouldRenew_install_iff (hinformation : domain.state ≠ .missingInformation)
    (hwindow : domain.renewWindow.Readable)
    (hfrom : credential.validFrom.inLeapSecond = false)
    (hexpires : credential.expires.inLeapSecond = false) (hnow : now.inLeapSecond = false) :
    (domain.install credential now).shouldRenew now = true ↔
      credential.expires.reading - domain.renewWindow.intendedLead credential ≤ now.reading := by
  rw [shouldRenew_install hinformation, windowOpen_iff hwindow hfrom hexpires hnow,
    Instant.le_iff_reading_le hexpires hnow]
  -- Whoever is past the expiry is past the threshold, for no lead is negative.
  have hlead := hwindow.intendedLead_nonneg credential
  omega

end

/-- Once its credentials are installed, a domain is due exactly from the expiry less the intended
lead on. So it stays due as time goes on, and a wider window finds it due no later. A domain that
was left complete by some earlier assessment is judged like the one that is assessed now. -/
theorem due_from_threshold (domain : ManagedDomain) (credential : Credential) (now : Instant)
    (hinformation : domain.state ≠ .missingInformation)
    (hwindow : domain.renewWindow.Readable)
    (hfrom : credential.validFrom.inLeapSecond = false)
    (hexpires : credential.expires.inLeapSecond = false) (hnow : now.inLeapSecond = false) :
    ((domain.install credential now).shouldRenew now = true ↔
      credential.expires.reading - domain.renewWindow.intendedLead credential ≤ now.reading) ∧
    (forall later, later.inLeapSecond = false -> now ≤ later ->
      (domain.install credential now).shouldRenew now = true ->
      (domain.install credential later).shouldRenew later = true) ∧
    (forall wider, wider.Readable -> domain.renewWindow.Within wider ->
      (domain.install credential now).shouldRenew now = true ->
      ({ domain with renewWindow := wider }.install credential now).shouldRenew now = true) ∧
    forall stale : ManagedDomain, stale.state = .complete -> stale.credential = some credential ->
      stale.renewWindow = domain.renewWindow ->
      stale.shouldRenew now = (domain.install credential now).shouldRenew now := by
  have hdue := shouldRenew_install_iff hinformation hwindow hfrom hexpires hnow
  refine ⟨hdue, ?_, ?_, ?_⟩
  · intro later hlater hle h
    rw [Instant.le_iff_reading_le hnow hlater] at hle
    rw [hdue] at h
    rw [shouldRenew_install_iff hinformation hwindow hfrom hexpires hlater]
    exact h.trans hle
  · intro wider hwider hwithin h
    have hlead := hwithin.intendedLead_le credential
    have hwide : (({ domain with renewWindow := wider } : ManagedDomain).install credential
        now).shouldRenew now = true ↔
          credential.expires.reading - wider.intendedLead credential ≤ now.reading :=
      shouldRenew_install_iff hinformation hwider hfrom hexpires hnow
    rw [hdue] at h
    rw [hwide]
    omega
  · intro stale hstate hcredential hsame
    rw [shouldRenew_complete hstate hcredential, hsame]
    refine Bool.eq_iff_iff.mpr ?_
    rw [hdue, windowOpen_iff hwindow hfrom hexpires hnow]

/-- The longest window that can be read opens long before the first instant, so a domain is due
at that instant already, whether it is assessed then or was left complete before. -/
theorem due_before_every_instant :
    let domain : ManagedDomain :=
      { name := "a", state := .complete, driveMode := .auto,
        renewWindow := .fixed (.ofSeconds RenewWindow.longestSpan), credential := none }
    let credential : Credential := ⟨⟨0, 0, by decide⟩, .latest⟩
    let first : Instant := ⟨Instant.firstSecond, 0, by decide⟩
    domain.renewWindow.Readable ∧
      credential.expires.sub? (domain.renewWindow.lead credential) = none ∧
      (domain.install credential first).shouldRenew first = true ∧
      { domain with credential := some credential }.shouldRenew first = true := by
  intro domain credential first
  have hwindow : domain.renewWindow.Readable := ⟨"9223372036854775s", by rfl⟩
  rcases due_from_threshold domain credential first (by decide) hwindow (by decide) (by decide)
    (by decide) with ⟨hthreshold, _, _, hstale⟩
  have hdue := hthreshold.mpr (by decide)
  have hsame := hstale { domain with credential := some credential } rfl rfl rfl
  exact ⟨hwindow, by decide, hdue, hsame.trans hdue⟩

end ManagedDomain
end RenewalDrive
