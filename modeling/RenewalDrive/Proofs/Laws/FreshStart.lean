import RenewalDrive.Proofs.Laws.Reset
import RenewalDrive.Proofs.Run.Life

/-!
# One reset for each fresh start

A drive starts over when a process finds errors in its record, and when an evaluation finds the
staged credentials in use. Each time it gives up what is staged, and the next attempt of the
process, and no other, is told to reset. That is the mark of a job in memory: no reload of the
record, no failed save and no evaluation without an attempt touches it.
-/

namespace RenewalDrive

open Deed

/-!
## Fresh starts
-/

/-- After some deeds, the drive of a name has started over and made no attempt since. -/
def FreshSince (name : String) (deeds : List Deed) : Prop :=
  exists before event between, deeds = before ++ event :: between ∧
    event.givesUp name = true ∧ forall deed, deed ∈ between -> deed.attempts name = false

/-- What an evaluation knows once it has looked for the credentials of a name: the job of a
process that began with the given one, reloaded, and the domain as it is now. -/
inductive Knows (setup : Setup) (name : String) (begun : Option DriveJob)
    (answer : Except StoreError (Option Credential)) :
    List Deed -> DriveJob -> ManagedDomain -> Prop where
  | looked {early loading : List Deed} {job loaded : DriveJob} {configured : ManagedDomain}
      {now : Instant} :
      Turns name false setup begun early (some job) ->
      job.name = name ->
      Reloads job loading loaded ->
      setup.registry.get? name = some configured ->
      Knows setup name begun answer (early ++ (loading ++ [.clockRead now])) loaded
        (configured.current now answer)

section

variable {name : String} {deeds : List Deed}

theorem freshSince_concat {deed : Deed} :
    FreshSince name (deeds ++ [deed]) ↔
      deed.givesUp name = true ∨ (FreshSince name deeds ∧ deed.attempts name = false) := by
  constructor
  · rintro ⟨before, event, between, hdeeds, hevent, hnone⟩
    rcases List.eq_nil_or_concat between with rfl | ⟨between, last, rfl⟩
    · cases List.append_inj_right' hdeeds rfl
      exact Or.inl hevent
    · rw [List.concat_eq_append, ← List.cons_append, ← List.append_assoc] at hdeeds
      rcases List.append_inj' hdeeds rfl with ⟨rfl, hlast⟩
      cases hlast
      rw [List.concat_eq_append, List.forall_mem_append] at hnone
      exact Or.inr ⟨⟨before, event, between, rfl, hevent, hnone.1⟩,
        hnone.2 deed List.mem_cons_self⟩
  · rintro (hevent | ⟨⟨before, event, between, rfl, hevent, hnone⟩, hdeed⟩)
    · exact ⟨deeds, deed, [], rfl, hevent, List.forall_mem_nil _⟩
    · refine ⟨before, event, between ++ [deed], by simp, hevent, ?_⟩
      exact List.forall_mem_append.mpr ⟨hnone, List.forall_mem_singleton.mpr hdeed⟩

/-- A reset is owed exactly after a fresh start without an attempt since. -/
theorem owedAfter_iff_freshSince : owedAfter name false deeds = true ↔ FreshSince name deeds := by
  induction deeds using List.reverseRecOn with
  | nil =>
      refine iff_of_false Bool.false_ne_true ?_
      rintro ⟨before, event, between, hnil, _⟩
      exact List.append_ne_nil_of_right_ne_nil before (List.cons_ne_nil event between) hnil.symm
  | append_singleton deeds deed ih =>
      rw [freshSince_concat, ← ih, owedAfter_append, owedAfter_cons, owedAfter_nil, owes,
        Bool.or_eq_true, Bool.and_eq_true, Bool.not_eq_true']

end

/-!
## The only removals of what is staged
-/

section

variable {name : String} {registry : Registry} {job : DriveJob} {deeds : List Deed} {deed : Deed}

theorem Deed.Foreign.givesUp_eq {command : Option String} (h : deed.Foreign command name) :
    deed.givesUp name = false := by
  cases deed with
  | purged group owner answer =>
      cases group with
      | staging => exact decide_eq_false (h rfl)
      | _ => rfl
  | _ => rfl

theorem Reloads.givesUp_eq {loaded : DriveJob} (h : Reloads job deeds loaded)
    (hdeed : deed ∈ deeds) : deed.givesUp name = false := by
  cases h with
  | kept _ => cases hdeed
  | asked _ _ =>
      cases List.mem_singleton.mp hdeed
      rfl

theorem Stores.givesUp_eq {stored : DriveJob} (h : Stores job deeds stored)
    (hdeed : deed ∈ deeds) : deed.givesUp name = false := by
  cases h with
  | kept _ => cases hdeed
  | asked _ _ =>
      cases List.mem_singleton.mp hdeed
      rfl

theorem Pursues.givesUp_eq {now : Instant} {course : Course} {findings : Findings}
    (h : Pursues job now course deeds findings) (hdeed : deed ∈ deeds) :
    deed.givesUp name = false := by
  cases h with
  | completed _ _ _ _ _ =>
      rcases List.mem_cons.mp hdeed with rfl | hdeed
      · rfl
      · cases List.mem_singleton.mp hdeed
        rfl
  | failed _ _ _ _ _ _ =>
      cases List.mem_singleton.mp hdeed
      rfl
  | _ => cases hdeed

theorem append_cons_unique {α : Type} {holds : α -> Bool} {first last before after : List α}
    {x y : α} (h : first ++ x :: last = before ++ y :: after) (hx : holds x = true)
    (hbefore : forall z, z ∈ before -> holds z = false)
    (hafter : forall z, z ∈ after -> holds z = false) :
    first = before ∧ x = y ∧ last = after := by
  have hnot : forall zs : List α, (forall z, z ∈ zs -> holds z = false) -> x ∉ zs := by
    intro zs hzs hmem
    rw [hzs x hmem] at hx
    cases hx
  have hmem : x ∈ before ++ y :: after := h ▸ List.mem_append_right first List.mem_cons_self
  rcases List.mem_append.mp hmem with hmem | hmem
  · exact absurd hmem (hnot before hbefore)
  · rcases List.mem_cons.mp hmem with rfl | hmem
    · rcases (List.append_cons_inj_of_notMem (hnot before hbefore) (hnot after hafter)).mp h.symm
        with ⟨rfl, _, rfl⟩
      exact ⟨rfl, rfl, rfl⟩
    · exact absurd hmem (hnot after hafter)

theorem EvaluatesDue.givesUp_cases {now : Instant} {evaluated : DriveJob}
    (hname : job.name = name) (h : EvaluatesDue registry job now deeds evaluated) :
    (forall z, z ∈ deeds -> z.givesUp name = false) ∨
      exists answer removal rest,
        deeds = .credentialLoaded name answer :: .purged .staging name removal :: rest ∧
        forall z, z ∈ rest -> z.givesUp name = false := by
  cases h with
  | @phases domain begun _ findings inspecting beginning pursuing storing hinspects hbegins
      hpursues hstores =>
      rw [hname] at hinspects
      generalize hget : registry.get? name = configured at hinspects
      have hrest : forall z, z ∈ pursuing ++ storing -> z.givesUp name = false := by
        intro z hz
        rcases List.mem_append.mp hz with hz | hz
        · exact hpursues.givesUp_eq hz
        · exact hstores.givesUp_eq hz
      cases hinspects with
      | unmanaged =>
          cases hbegins with
          | kept _ => exact Or.inl hrest
          | generation _ hactivated => cases hactivated
      | managed configured answer =>
          rw [Registry.name_of_get? hget]
          cases hbegins with
          | kept _ => exact Or.inl (List.forall_mem_cons.mpr ⟨rfl, hrest⟩)
          | generation removal _ =>
              rw [hname]
              exact Or.inr ⟨answer, removal, pursuing ++ storing, rfl, hrest⟩

theorem Evaluates.look_of_givesUp {verdict : Evaluation} {evaluated : DriveJob}
    {first last : List Deed} (hname : job.name = name)
    (h : Evaluates registry job (first ++ deed :: last) verdict evaluated)
    (hdeed : deed.givesUp name = true) :
    exists early answer, first = early ++ [.credentialLoaded name answer] := by
  generalize hdeeds : first ++ deed :: last = deeds at h
  have hmem : deed ∈ deeds := hdeeds ▸ List.mem_append_right first List.mem_cons_self
  have hone : forall {deeds : List Deed}, (forall z, z ∈ deeds -> z.givesUp name = false) ->
      deed ∉ deeds := by
    intro deeds hnone hmem
    rw [hnone deed hmem] at hdeed
    cases hdeed
  have hreading : forall {now : Instant} {loading : List Deed} {loaded : DriveJob},
      Reloads job loading loaded ->
        forall z, z ∈ loading ++ [.clockRead now] -> z.givesUp name = false :=
    fun hloads => List.forall_mem_append.mpr
      ⟨fun _ => hloads.givesUp_eq, List.forall_mem_singleton.mpr rfl⟩
  cases h with
  | notDue now hloads _ =>
      exact absurd hmem (hone (hreading hloads))
  | @due loading deeds loaded _ now hloads _ hevaluates =>
      rcases hevaluates.givesUp_cases (hloads.name_eq.trans hname) with
        hnone | ⟨answer, removal, rest, rfl, hrest⟩
      · rw [List.append_cons] at hmem
        exact absurd hmem (hone (List.forall_mem_append.mpr ⟨hreading hloads, hnone⟩))
      · have hsplit : first ++ deed :: last =
            ((loading ++ [.clockRead now]) ++ [.credentialLoaded name answer]) ++
              .purged .staging name removal :: rest := by
          rw [hdeeds]
          simp
        have hbefore : forall z, z ∈ (loading ++ [.clockRead now]) ++
            [.credentialLoaded name answer] -> z.givesUp name = false :=
          List.forall_mem_append.mpr ⟨hreading hloads, List.forall_mem_singleton.mpr rfl⟩
        exact ⟨_, answer, (append_cons_unique hsplit hdeed hbefore hrest).1⟩

theorem Turn.look_of_givesUp {setup : Setup} {job later : Option DriveJob}
    {first last : List Deed} (h : Turn name false setup job (first ++ deed :: last) later)
    (hdeed : deed.givesUp name = true) :
    exists early answer, first = early ++ [.credentialLoaded name answer] := by
  generalize hdeeds : first ++ deed :: last = deeds at h
  have hmem : deed ∈ deeds := hdeeds ▸ List.mem_append_right first List.mem_cons_self
  have hforeign : forall {command : Option String}, ¬ deed.Foreign command name := by
    intro command hforeign
    rw [hforeign.givesUp_eq] at hdeed
    cases hdeed
  cases h with
  | foreign hall => exact absurd (hall deed hmem) hforeign
  | dropped hrestarts => cases hrestarts
  | started hrestarts _ => cases hrestarts
  | evaluated hname hevaluates =>
      subst hdeeds
      exact hevaluates.look_of_givesUp hname hdeed
  | announced answer _ _ hdelivers _ hall =>
      rcases List.mem_append.mp hmem with hmem | hmem
      · cases hdelivers with
        | silent _ => cases hmem
        | ran _ _ _ =>
            cases List.mem_singleton.mp hmem
            cases hdeed
      · rcases List.mem_append.mp hmem with hmem | hmem
        · exact absurd (hall deed hmem) hforeign
        · cases List.mem_singleton.mp hmem
          cases hdeed

/-- While a process lives, it gives up what is staged for a name only right after a look for the
credentials of that name. -/
theorem Turns.look_of_givesUp {setup : Setup} {job later : Option DriveJob}
    {before after : List Deed}
    (h : Turns name false setup job (before ++ deed :: after) later)
    (hdeed : deed.givesUp name = true) :
    exists early answer, before = early ++ [.credentialLoaded name answer] := by
  rcases h.turn_of_mem with ⟨_, _, early, _, _, _, _, hturn, _, rfl, _⟩
  rcases hturn.look_of_givesUp hdeed with ⟨own, answer, rfl⟩
  exact ⟨early ++ own, answer, (List.append_assoc _ _ _).symm⟩

theorem Turns.knows {setup : Setup} {job later : Option DriveJob} {before after : List Deed}
    {answer : Except StoreError (Option Credential)}
    (h : Turns name false setup job (before ++ .credentialLoaded name answer :: after) later) :
    exists loaded domain, Knows setup name job answer before loaded domain ∧
      (loaded.Activated (some domain) ↔
        exists removal rest, after = .purged .staging name removal :: rest) := by
  rcases h.turn_of_mem with
    ⟨_, _, early, first, last, late, hearly, hturn, hlate, rfl, rfl⟩
  rcases hturn.looks with ⟨own, evaluated, rfl, rfl, hname, hlooks⟩
  cases hlooks with
  | @cut loading beginning pursuing storing loaded begun evaluated configured now findings hloads
      hget hbegins hpursues hstores =>
      have howner : loaded.name = name := hloads.name_eq.trans hname
      rw [howner] at hget
      refine ⟨loaded, _, Knows.looked hearly hname hloads hget, ?_⟩
      cases hbegins with
      | generation removal hactivated =>
          refine iff_of_true hactivated ⟨removal, pursuing ++ storing ++ late, ?_⟩
          rw [howner]
          rfl
      | kept hkept =>
          refine iff_of_false hkept ?_
          rintro ⟨removal, rest, hrest⟩
          have hremoval : (Deed.purged .staging name removal).givesUp name = true :=
            decide_eq_true rfl
          -- A removal behind the look would be the first deed of some later turn.
          have hnone : pursuing ++ storing = [] := by
            rw [List.nil_append] at hrest
            cases hown : pursuing ++ storing with
            | nil => rfl
            | cons head tail =>
                rw [hown] at hrest
                cases hrest
                have hhead : Deed.purged .staging name removal ∈ pursuing ++ storing :=
                  hown ▸ List.mem_cons_self
                rcases List.mem_append.mp hhead with hmem | hmem
                · rw [hpursues.givesUp_eq hmem] at hremoval
                  cases hremoval
                · rw [hstores.givesUp_eq hmem] at hremoval
                  cases hremoval
          rw [hnone, List.nil_append, List.nil_append] at hrest
          have hhead : Turns name false setup (some evaluated)
              ([] ++ .purged .staging name removal :: rest) later := hrest ▸ hlate
          rcases hhead.look_of_givesUp hremoval with ⟨early, _, hnil⟩
          exact List.append_ne_nil_of_right_ne_nil early (List.cons_ne_nil _ _) hnil.symm

end

/-!
## What an attempt is told
-/

section

variable {name : String} {setup : Setup} {job later : Option DriveJob} {deeds : List Deed}

theorem Turns.owed (h : Turns name false setup job deeds later) :
    later.map (·.resetStaging) = job.map fun job => owedAfter name job.resetStaging deeds := by
  induction h with
  | nil _ => rfl
  | cons hturn _ ih => exact owed_append hturn.owed ih

theorem Turns.reset_eq {domain : ManagedDomain} {reset : Bool} {outcome : RenewOutcome}
    {took : Span} {before rest : List Deed}
    (h : Turns name false setup job (before ++ .attempted domain reset outcome took :: rest) later)
    (hname : domain.name = name) :
    exists begun, job = some begun ∧ reset = owedAfter name begun.resetStaging before := by
  rcases h.tries hname with ⟨own, _, early, first, _, _, _, hearly, howner, htries, _, rfl, _⟩
  rcases Option.map_eq_some_iff.mp hearly.owed.symm with ⟨begun, hbegun, howed⟩
  refine ⟨begun, hbegun, ?_⟩
  rw [htries.reset_eq howner, owedAfter_append, howed]

end

/-- A start recovers a name, and gives up what is staged for it, when its record has errors. -/
theorem StartsContext.givesUp_iff {registry : Registry} {settings : DriveSettings}
    {starting : List Deed} {begun : Option DriveContext} (name : String)
    (hdistinct : registry.Distinct) (h : StartsContext registry settings starting begun) :
    (exists event, event ∈ starting ∧ event.givesUp name = true) ↔
      exists record, .recordLoaded name (.ok (some record)) ∈ starting ∧
        0 < record.errorRuns := by
  have hportion := h.portion name hdistinct
  generalize (registry.watchedNames.find? fun owner => owner = name) = owner at hportion
  generalize begun.bind (·.job? name) = job at hportion
  have hgives : forall {deeds : List Deed}, AllForeign settings.notifyCommand name deeds ->
      ¬ exists event, event ∈ deeds ∧ event.givesUp name = true := by
    rintro deeds hforeign ⟨event, hevent, hgives⟩
    rw [(hforeign event hevent).givesUp_eq] at hgives
    cases hgives
  have hloads : forall {deeds : List Deed}, AllForeign settings.notifyCommand name deeds ->
      forall record, Deed.recordLoaded name (.ok (some record)) ∉ deeds :=
    fun hforeign record hmem => hforeign _ hmem rfl
  cases hportion with
  | absent hforeign =>
      refine iff_of_false (hgives hforeign) ?_
      rintro ⟨record, hmem, _⟩
      exact hloads hforeign record hmem
  | present hbefore hstarts hafter =>
      rcases hstarts with ⟨rfl, hstarts⟩
      simp only [List.mem_append, hloads hbefore, hloads hafter, false_or, or_false]
      rw [← hstarts.givesUp_iff]
      simp only [or_and_right, exists_or, hgives hbefore, hgives hafter, false_or, or_false]

/-- Whatever each call of a process finds in the world: an attempt for a name is told to reset
exactly when the process has started the drive of that name over and made no attempt for it
since. Its start does so for the names whose records have errors. After that it does so when it
has looked for the credentials of the name and found the staged ones, or newer, in use, and not
otherwise. -/
theorem resets_told_once_after_fresh_starts {origin : Process} {first : Rehearsal}
    {registry : Registry} {settings : DriveSettings} {begun context : DriveContext}
    {starting deeds : List Deed} (hdistinct : registry.Distinct)
    (hstart : origin.call (.start registry settings) = .ok ⟨first, some begun⟩)
    (hstarting : first.requests = origin.world.requests ++ starting)
    (hlives : Lives begun deeds context) (name : String) :
    (forall made domain reset outcome took rest,
      deeds = made ++ .attempted domain reset outcome took :: rest -> domain.name = name ->
        (reset = true ↔ FreshSince name (starting ++ made))) ∧
    ((exists event, event ∈ starting ∧ event.givesUp name = true) ↔
      exists record, .recordLoaded name (.ok (some record)) ∈ starting ∧
        0 < record.errorRuns) ∧
    (forall before event after, deeds = before ++ event :: after ->
      event.givesUp name = true ->
        exists early answer, before = early ++ [.credentialLoaded name answer]) ∧
    forall before answer after, deeds = before ++ .credentialLoaded name answer :: after ->
      exists job domain,
        Knows ⟨registry, settings⟩ name (begun.job? name) answer before job domain ∧
        (job.Activated (some domain) ↔
          exists removal rest, after = .purged .staging name removal :: rest) := by
  rcases Process.performs_of_call rfl hstart with ⟨_, hpassage, hperforms⟩
  cases hpassage.deeds_eq hstarting
  rcases hperforms.of_start rfl with ⟨_, _, ⟨⟩, hstarts⟩
  rcases hlives.turns name (hstarts.sound hdistinct) with ⟨_, _, hturns⟩
  have hsetup : begun.setup = ⟨registry, settings⟩ := by
    cases hstarts
    rfl
  rw [hsetup] at hturns
  refine ⟨?_, hstarts.givesUp_iff name hdistinct, ?_, ?_⟩
  · rintro made domain reset outcome took rest rfl hname
    rcases hturns.reset_eq hname with ⟨job, hjob, rfl⟩
    have howed : job.resetStaging = owedAfter name false starting := hstarts.owed hdistinct hjob
    rw [howed, ← owedAfter_append, owedAfter_iff_freshSince]
  · rintro before event after rfl hevent
    exact hturns.look_of_givesUp hevent
  · rintro before answer after rfl
    exact hturns.knows

def recoveringStart : List Happening :=
  ⟨.single .incomplete, .recordLoaded "a" (.ok (some { name := "a", errorRuns := 1 }))⟩ ::
    refusedRemoval :: recovering

/-- The removal was refused and the record that was saved tells of no errors, but the process
knows what it has given up, and tells its first attempt. -/
theorem reset_told_after_recovery :
    exists first begun context rest,
      unremovable.call (.start (Registry.single "a" .incomplete) {}) = .ok ⟨first, some begun⟩ ∧
      Lives begun (((looking (.single .incomplete) (some { name := "a" })).map (·.deed)) ++
        (laterAttempt true).deed :: rest) context ∧
      FreshSince "a" ((recoveringStart ++ looking (.single .incomplete) (some { name := "a" })).map
        (·.deed)) := by
  let setup : Setup := .single .incomplete
  let made := looking setup (some { name := "a" })
  have hplay : (unremovable.call (.start (Registry.single "a" .incomplete) {})).map
      (fun started => (started.context.isSome, started.world.requests,
        (started.play [.tick .running]).map fun played => ((), played.2))) =
      .ok (true, recoveringStart.map (·.deed),
        .ok ((), made ++ laterAttempt true :: backingOff)) := by
    cbv
  cases hstart : unremovable.call (.start (Registry.single "a" .incomplete) {}) with
  | error halt =>
      rw [hstart] at hplay
      cases hplay
  | ok started =>
      rw [hstart] at hplay
      rcases started with ⟨first, begun⟩
      injection hplay with hplayed
      rcases Prod.mk.inj hplayed with ⟨hbegun, hrest⟩
      rcases Prod.mk.inj hrest with ⟨hstarting, htick⟩
      rcases Option.isSome_iff_exists.mp hbegun with ⟨begun, rfl⟩
      rcases Process.run_of_play (fun _ => ()) htick with ⟨later, hrun, _⟩
      rcases hrun.lives rfl (by decide) with ⟨context, _, hlives⟩
      rw [List.map_append, List.map_cons] at hlives
      have hdistinct : (Registry.single "a" .incomplete).Distinct :=
        Registry.single_distinct "a" .incomplete
      have htold := (resets_told_once_after_fresh_starts hdistinct hstart hstarting hlives "a").1
        _ _ true _ _ _ rfl rfl
      refine ⟨first, begun, context, _, rfl, hlives, ?_⟩
      rw [List.map_append]
      exact htold.mp rfl

end RenewalDrive
