import RenewalDrive.Drive.Rehearsal

/-!
# Outcomes to come

An attempt takes one of the outcomes that were set down, or none is left for it. Where every
outcome is reserved for one name, the outcomes for a name are taken in order, and attempts
for other names leave them as they are.
-/

namespace RenewalDrive
namespace Script

theorem pick?_eq_some {fits : Script -> Bool} {scripts rest : List Script} {script : Script}
    (h : pick? fits scripts = some (script, rest)) :
    exists before after, scripts = before ++ script :: after ∧ rest = before ++ after ∧
      fits script = true ∧ forall other, other ∈ before -> fits other = false := by
  induction scripts generalizing rest with
  | nil =>
      cases h
  | cons first others ih =>
      unfold pick? at h
      split at h
      next hfits =>
        cases h
        exact ⟨[], others, rfl, rfl, hfits, List.forall_mem_nil _⟩
      next hfits =>
        rcases Option.map_eq_some_iff.mp h with ⟨⟨found, left⟩, hfound, heq⟩
        cases heq
        rcases ih hfound with ⟨before, after, rfl, rfl, hscript, hbefore⟩
        refine ⟨first :: before, after, rfl, rfl, hscript, ?_⟩
        exact List.forall_mem_cons.mpr ⟨by simpa using hfits, hbefore⟩

theorem pick?_eq_none {fits : Script -> Bool} {scripts : List Script}
    (h : pick? fits scripts = none) : forall script, script ∈ scripts -> fits script = false := by
  induction scripts with
  | nil =>
      exact List.forall_mem_nil _
  | cons first others ih =>
      unfold pick? at h
      split at h
      next =>
        cases h
      next hfits =>
        rw [Option.map_eq_none_iff] at h
        exact List.forall_mem_cons.mpr ⟨by simpa using hfits, ih h⟩

theorem next_cases (name : String) (scripts : List Script) :
    (exists script before after, scripts = before ++ script :: after ∧
      next name scripts = (script, before ++ after)) ∨
    next name scripts = (unscripted, scripts) := by
  unfold next
  split
  next script rest hpick =>
    rcases pick?_eq_some hpick with ⟨before, after, rfl, rfl, _, _⟩
    exact Or.inl ⟨script, before, after, rfl, rfl⟩
  next =>
    cases hpick : pick? (fun script => script.reserved = none) scripts with
    | none =>
        exact Or.inr rfl
    | some picked =>
        rcases picked with ⟨script, rest⟩
        rcases pick?_eq_some hpick with ⟨before, after, rfl, rfl, _, _⟩
        exact Or.inl ⟨script, before, after, rfl, rfl⟩

theorem next_mem (name : String) (scripts : List Script) :
    (next name scripts).1 ∈ scripts ∨ (next name scripts).1 = unscripted := by
  rcases next_cases name scripts with ⟨script, before, after, rfl, hnext⟩ | hnext
  · rw [hnext]
    exact Or.inl (List.mem_append_right before List.mem_cons_self)
  · rw [hnext]
    exact Or.inr rfl

theorem mem_of_mem_next {name : String} {scripts : List Script} {script : Script}
    (h : script ∈ (next name scripts).2) : script ∈ scripts := by
  rcases next_cases name scripts with ⟨taken, before, after, rfl, hnext⟩ | hnext
  · rw [hnext] at h
    rcases List.mem_append.mp h with h | h
    · exact List.mem_append_left _ h
    · exact List.mem_append_right before (List.mem_cons_of_mem taken h)
  · rw [hnext] at h
    exact h

theorem next_holds {holds : Script -> Prop} {scripts : List Script} (name : String)
    (hunscripted : holds unscripted) (h : forall script, script ∈ scripts -> holds script) :
    holds (next name scripts).1 := by
  rcases next_mem name scripts with hmem | hnone
  · exact h _ hmem
  · rw [hnone]
    exact hunscripted

/-!
## Reserved outcomes
-/

def reservedFor (name : String) (scripts : List Script) : List Script :=
  scripts.filter fun script => script.reserved = some name

theorem next_of_reserved {scripts : List Script} (name : String)
    (h : forall script, script ∈ scripts -> script.reserved ≠ none) :
    next name scripts = (unscripted, scripts) ∧ reservedFor name scripts = [] ∨
    exists script before after, next name scripts = (script, before ++ after) ∧
      scripts = before ++ script :: after ∧ script.reserved = some name ∧
      reservedFor name before = [] := by
  unfold next
  split
  next script rest hpick =>
    rcases pick?_eq_some hpick with ⟨before, after, rfl, rfl, hscript, hbefore⟩
    refine Or.inr ⟨script, before, after, rfl, rfl, by simpa using hscript, ?_⟩
    exact List.filter_eq_nil_iff.mpr fun other hother => by simp [hbefore other hother]
  next hpick =>
    have hnone : pick? (fun script => script.reserved = none) scripts = none := by
      cases hshared : pick? (fun script => script.reserved = none) scripts with
      | none =>
          rfl
      | some picked =>
          rcases pick?_eq_some hshared with ⟨before, after, rfl, _, hscript, _⟩
          exact absurd (by simpa using hscript) (h picked.1 (by simp))
    rw [hnone]
    refine Or.inl ⟨rfl, ?_⟩
    exact List.filter_eq_nil_iff.mpr fun other hother => by simp [pick?_eq_none hpick other hother]

theorem next_own {scripts : List Script} (name : String)
    (h : forall script, script ∈ scripts -> script.reserved ≠ none) :
    (next name scripts).1 = (reservedFor name scripts).headD unscripted ∧
      reservedFor name (next name scripts).2 = (reservedFor name scripts).tail := by
  rcases next_of_reserved name h with
    ⟨hnext, hnone⟩ | ⟨script, before, after, hnext, rfl, hscript, hbefore⟩
  · rw [hnext, hnone]
    exact ⟨rfl, rfl⟩
  · rw [hnext]
    unfold reservedFor at hbefore ⊢
    simp [hbefore, hscript]

theorem next_other {scripts : List Script} {name other : String} (hother : other ≠ name)
    (h : forall script, script ∈ scripts -> script.reserved ≠ none) :
    reservedFor other (next name scripts).2 = reservedFor other scripts := by
  rcases next_of_reserved name h with
    ⟨hnext, _⟩ | ⟨script, before, after, hnext, rfl, hscript, _⟩
  · rw [hnext]
  · rw [hnext]
    simp [reservedFor, hscript, Ne.symm hother]

end Script

/-!
## Attempts
-/

namespace Rehearsal

theorem advance_eq_ok {world later : Rehearsal} {span : Span}
    (h : world.advance span = .ok later) :
    exists clock, later = { world with clock := clock } := by
  unfold advance at h
  split at h
  · cases h
    exact ⟨world.clock, rfl⟩
  · split at h
    · cases h
      exact ⟨_, rfl⟩
    · cases h

theorem run_attempt_eq_ok {world later : Rehearsal} {domain : ManagedDomain} {reset : Bool}
    {outcome : RenewOutcome} (h : (host.attempt domain reset).run world = .ok (outcome, later)) :
    outcome = (Script.next domain.name world.scripts).1.outcome ∧
      exists clock deed, later = { world with
        scripts := (Script.next domain.name world.scripts).2, clock := clock }.after deed := by
  change attempt domain reset world = _ at h
  unfold attempt at h
  cases hadvance : ({ world with scripts := (Script.next domain.name world.scripts).2 } :
      Rehearsal).advance (Script.next domain.name world.scripts).1.took with
  | error halt =>
      simp [hadvance, bind, Except.bind] at h
  | ok mid =>
      rcases advance_eq_ok hadvance with ⟨clock, rfl⟩
      simp only [hadvance, bind, Except.bind, pure, Except.pure, Except.ok.injEq,
        Prod.mk.injEq] at h
      rcases h with ⟨rfl, rfl⟩
      exact ⟨rfl, clock, _, rfl⟩

theorem run_attempt_of_zero {world : Rehearsal} {domain : ManagedDomain} (reset : Bool)
    (h : (Script.next domain.name world.scripts).1.took = .zero) :
    (host.attempt domain reset).run world =
      .ok ((Script.next domain.name world.scripts).1.outcome,
        { world with scripts := (Script.next domain.name world.scripts).2 }.after
          (.attempted domain reset (Script.next domain.name world.scripts).1.outcome .zero)) := by
  show attempt domain reset world = _
  simp [attempt, advance, h, bind, Except.bind, pure, Except.pure]

end Rehearsal
end RenewalDrive
