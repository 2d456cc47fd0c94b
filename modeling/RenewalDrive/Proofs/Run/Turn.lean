import RenewalDrive.Proofs.Run.Share

/-!
# Turns of a job

What can happen to the job of a name while deeds are done, whoever they are done for. Each
call of a process is a sequence of such turns.
-/

namespace RenewalDrive

open Deed

/-- One thing that happens to the job of a name; without a process, or when the name is not
watched, there is no job. Only with `restarts` does a process begin. -/
inductive Turn (name : String) (restarts : Bool) (setup : Setup) :
    Option DriveJob -> List Deed -> Option DriveJob -> Prop where
  | foreign {job : Option DriveJob} {deeds : List Deed} :
      AllForeign setup.settings.notifyCommand name deeds ->
      Turn name restarts setup job deeds job
  | dropped {job : Option DriveJob} : restarts = true -> Turn name restarts setup job [] none
  | started {deeds : List Deed} {job : DriveJob} :
      restarts = true ->
      Starts name deeds job ->
      Turn name restarts setup none deeds (some job)
  | evaluated {deeds : List Deed} {verdict : Evaluation} {job evaluated : DriveJob} :
      job.name = name ->
      Evaluates setup.registry job deeds verdict evaluated ->
      Turn name restarts setup (some job) deeds (some evaluated)
  | announced {names : List String} {delivering between : List Deed} {now : Instant}
      {job : DriveJob} (answer : Except StoreError Unit) :
      job.name = name ->
      job.isReady now = true ->
      Delivers setup.settings.notifyCommand names delivering true ->
      name ∈ names ->
      AllForeign setup.settings.notifyCommand name between ->
      Turn name restarts setup (some job)
        (delivering ++ (between ++ [.recordSaved name job.announced.toRecord answer]))
        (some (job.markedAs answer))

inductive Turns (name : String) (restarts : Bool) (setup : Setup) :
    Option DriveJob -> List Deed -> Option DriveJob -> Prop where
  | nil (job : Option DriveJob) : Turns name restarts setup job [] job
  | cons {job mid later : Option DriveJob} {first rest : List Deed} :
      Turn name restarts setup job first mid ->
      Turns name restarts setup mid rest later ->
      Turns name restarts setup job (first ++ rest) later

namespace Turns

variable {name : String} {restarts : Bool} {setup : Setup} {job mid later : Option DriveJob}
  {first second deeds : List Deed}

theorem single (h : Turn name restarts setup job deeds later) :
    Turns name restarts setup job deeds later := by
  have hcons := Turns.cons h (Turns.nil later)
  rw [List.append_nil] at hcons
  exact hcons

theorem append (hfirst : Turns name restarts setup job first mid)
    (hsecond : Turns name restarts setup mid second later) :
    Turns name restarts setup job (first ++ second) later := by
  induction hfirst with
  | nil _ =>
      exact hsecond
  | cons hturn _ ih =>
      rw [List.append_assoc]
      exact Turns.cons hturn (ih hsecond)

theorem foreign (h : AllForeign setup.settings.notifyCommand name deeds) :
    Turns name restarts setup job deeds job :=
  single (Turn.foreign h)

end Turns

/-!
## The turns of a call
-/

def DriveContext.job? (name : String) (context : DriveContext) : Option DriveJob :=
  context.jobs.find? fun job => job.name = name

theorem DriveContext.mem_of_job? {name : String} {context : DriveContext} {job : DriveJob}
    (h : context.job? name = some job) : job ∈ context.jobs ∧ job.name = name := by
  constructor
  · exact List.mem_of_find?_eq_some h
  · simpa using List.find?_some h

theorem DriveContext.Sound.job?_of_mem {context : DriveContext} {job : DriveJob}
    (h : context.Sound) (hjob : job ∈ context.jobs) : context.job? job.name = some job :=
  find?_of_nodup h.nodup hjob

section

variable {name : String} {restarts : Bool} {setup : Setup}

/-- The turns of a name are those of its own item, wherever it stands in the list. -/
theorem turns_of_portion {α : Type} {deals : α -> List Deed -> DriveJob -> Prop}
    {item : Option α} {deeds : List Deed} {result : Option DriveJob}
    (job : α -> Option DriveJob)
    (h : Portion deals (Deed.Foreign setup.settings.notifyCommand name) item deeds result)
    (hown : forall item own result, deals item own result ->
      Turns name restarts setup (job item) own (some result)) :
    Turns name restarts setup (item.bind job) deeds result := by
  cases h with
  | absent hforeign =>
      exact Turns.foreign hforeign
  | present hbefore hdeals hafter =>
      refine (Turns.foreign hbefore).append ?_
      exact (hown _ _ _ hdeals).append (Turns.foreign hafter)

theorem mem_readyNames {jobs : List DriveJob} (name : String) (now : Instant)
    (hnodup : (jobs.map (·.name)).Nodup) :
    name ∈ DriveJob.readyNames jobs now ↔
      exists job, jobs.find? (fun job => job.name = name) = some job ∧ job.isReady now = true := by
  unfold DriveJob.readyNames
  induction jobs with
  | nil =>
      simp
  | cons first rest ih =>
      rw [List.map_cons, List.nodup_cons] at hnodup
      rcases hnodup with ⟨hfirst, hrest⟩
      by_cases hname : first.name = name
      · subst hname
        have hothers : first.name ∉ (rest.filter fun job => job.isReady now).map (·.name) := by
          intro hmem
          exact hfirst ((List.filter_sublist.map _).mem hmem)
        rw [List.find?_cons_of_pos (by simp)]
        by_cases hready : first.isReady now = true
        · simp [hready]
        · rw [List.filter_cons, if_neg hready]
          simp only [hothers, false_iff, not_exists, not_and]
          intro job hjob
          cases hjob
          exact hready
      · rw [List.find?_cons_of_neg (by simpa using hname), ← ih hrest]
        by_cases hready : first.isReady now = true
        · rw [List.filter_cons, if_pos hready, List.map_cons, List.mem_cons]
          simp [Ne.symm hname]
        · rw [List.filter_cons, if_neg hready]

theorem Delivers.foreign_of_failed {command : Option String} {names : List String}
    {deeds : List Deed} (h : Delivers command names deeds false) :
    AllForeign command name deeds := by
  cases h with
  | failed text error _ =>
      exact List.forall_mem_singleton.mpr rfl

theorem Announces.turns {now : Instant} {jobs marked : List DriveJob} {deeds : List Deed}
    {report : NoticeReport} (hnodup : (jobs.map (·.name)).Nodup)
    (h : Announces setup.settings.notifyCommand now jobs deeds report marked) :
    Turns name restarts setup (jobs.find? fun job => job.name = name) deeds
      (marked.find? fun job => job.name = name) := by
  cases h with
  | idle _ =>
      exact Turns.nil _
  | failed _ hdelivers =>
      exact Turns.foreign hdelivers.foreign_of_failed
  | delivered _ hdelivers hmarks =>
      have hportion := hmarks.portion (Deed.Foreign setup.settings.notifyCommand name) name hnodup
        (fun _ _ _ h => h.name_eq) (fun _ _ _ hname h => h.own.foreign hname)
      have hready := mem_readyNames name now hnodup
      revert hportion hready
      generalize (jobs.find? fun job => job.name = name) = found
      generalize (marked.find? fun job => job.name = name) = made
      intro hportion hready
      cases hportion with
      | absent hforeign =>
          have hother : name ∉ DriveJob.readyNames jobs now := by
            rw [hready]
            rintro ⟨job, hjob, _⟩
            cases hjob
          exact Turns.foreign (List.forall_mem_append.mpr ⟨hdelivers.foreign hother, hforeign⟩)
      | @present job result before own after hbefore hown hafter =>
          rcases hown with ⟨hname, hmark⟩
          cases hmark with
          | passed hwaits =>
              have hother : name ∉ DriveJob.readyNames jobs now := by
                rw [hready]
                rintro ⟨other, hother, hothers⟩
                cases hother
                rw [hwaits] at hothers
                cases hothers
              refine Turns.foreign (List.forall_mem_append.mpr ⟨hdelivers.foreign hother, ?_⟩)
              exact List.forall_mem_append.mpr ⟨hbefore, hafter⟩
          | marked answer hjob =>
              have hmem : name ∈ DriveJob.readyNames jobs now := hready.mpr ⟨job, rfl, hjob⟩
              subst hname
              rw [← List.append_assoc before, ← List.append_assoc]
              refine Turns.append (Turns.single ?_) (Turns.foreign hafter)
              exact Turn.announced answer rfl hjob hdelivers hmem hbefore

theorem Evaluates.turns {deeds : List Deed} {verdict : Evaluation} {job evaluated : DriveJob}
    (hname : job.name = name) (h : Evaluates setup.registry job deeds verdict evaluated) :
    Turns name restarts setup (some job) deeds (some evaluated) :=
  Turns.single (Turn.evaluated hname h)

theorem Visits.turns {deeds : List Deed} {job visited : DriveJob} (hname : job.name = name)
    (h : Visits setup.registry job deeds visited) :
    Turns name restarts setup (some job) deeds (some visited) := by
  cases h with
  | early _ _ =>
      exact Turns.foreign (List.forall_mem_singleton.mpr trivial)
  | @evaluated rest _ _ now _ hevaluates =>
      have hreading : AllForeign setup.settings.notifyCommand name [.clockRead now] :=
        List.forall_mem_singleton.mpr trivial
      exact (Turns.foreign hreading).append (hevaluates.turns hname)

end

def DriveContext.setup (context : DriveContext) : Setup :=
  ⟨context.registry, context.settings⟩

section

variable {name : String} {restarts : Bool} {context later : DriveContext} {deeds : List Deed}

theorem Notifies.turns {report : NoticeReport} (hsound : context.Sound)
    (h : Notifies context deeds report later) :
    Turns name restarts context.setup (context.job? name) deeds (later.job? name) := by
  cases h with
  | @pass announcing _ _ now hannounces =>
      have hreading : AllForeign context.setup.settings.notifyCommand name [.clockRead now] :=
        List.forall_mem_singleton.mpr trivial
      exact (Turns.foreign hreading).append
        (Announces.turns hsound.nodup hannounces)

theorem Rounds.portion (name : String) {wait : Span} (hsound : context.Sound)
    (h : Rounds context deeds wait later) :
    Portion (fun job own visited => job.name = name ∧ Visits context.registry job own visited)
      (Deed.Foreign context.settings.notifyCommand name) (context.job? name) deeds
      (later.job? name) := by
  cases h with
  | @round visiting jobs started now hvisits =>
      have hportion := hvisits.portion (Deed.Foreign context.settings.notifyCommand name) name
        hsound.nodup (fun _ _ _ h => h.name_eq) (fun _ _ _ hname h => h.own.foreign hname)
      rw [List.cons_append]
      refine (hportion.append_other ?_).cons_other trivial
      exact List.forall_mem_singleton.mpr trivial

theorem Rounds.turns {wait : Span} (hsound : context.Sound)
    (h : Rounds context deeds wait later) :
    Turns name restarts context.setup (context.job? name) deeds (later.job? name) := by
  rw [← Option.bind_fun_some (context.job? name)]
  exact turns_of_portion some (h.portion name hsound) fun _ _ _ h => Visits.turns h.1 h.2

theorem StartsContext.portion {registry : Registry} {settings : DriveSettings}
    {begun : Option DriveContext} (name : String) (hdistinct : registry.Distinct)
    (h : StartsContext registry settings deeds begun) :
    Portion (fun owner own job => owner = name ∧ Starts owner own job)
      (Deed.Foreign settings.notifyCommand name)
      (registry.watchedNames.find? fun owner => owner = name) deeds
      (begun.bind (·.job? name)) := by
  have hnodup : (registry.watchedNames.map id).Nodup := by
    rw [List.map_id]
    exact Registry.watchedNames_nodup hdistinct
  cases h with
  | idle heach hsweeps =>
      have hportion := heach.portion (Deed.Foreign settings.notifyCommand name) name hnodup
        (fun _ _ _ h => h.name_eq) (fun _ _ _ hname h => h.own.foreign hname)
      exact hportion.append_other hsweeps.foreign
  | begun heach hsweeps _ =>
      have hportion := heach.portion (Deed.Foreign settings.notifyCommand name) name hnodup
        (fun _ _ _ h => h.name_eq) (fun _ _ _ hname h => h.own.foreign hname)
      exact hportion.append_other hsweeps.foreign

theorem StartsContext.turns {registry : Registry} {settings : DriveSettings}
    {begun : Option DriveContext} (hdistinct : registry.Distinct)
    (h : StartsContext registry settings deeds begun) :
    Turns name true ⟨registry, settings⟩ none deeds (begun.bind (·.job? name)) := by
  rw [← Option.bind_fun_none (registry.watchedNames.find? fun owner => owner = name)]
  refine turns_of_portion (fun _ => none) (h.portion name hdistinct) ?_
  intro owner own job hown
  rcases hown with ⟨rfl, hstarts⟩
  exact Turns.single (Turn.started rfl hstarts)

end
end RenewalDrive
