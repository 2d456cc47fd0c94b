import RenewalDrive.Proofs.Run.Turn

/-!
# The strand of a name

A run of a whole drive, seen from one name, is a strand: the job and the record of that name
go through one turn after the other. Invariants of the drive are proved turn by turn on the
strand and hold for runs by `Run.strand`.
-/

namespace RenewalDrive

open Deed

/-!
## Strands
-/

structure Standing where
  job : Option DriveJob
  record : Option JobRecord

inductive Strand (name : String) (restarts : Bool) :
    Standing -> List Happening -> Standing -> Prop where
  | nil (standing : Standing) : Strand name restarts standing [] standing
  | cons {standing mid later : Standing} {setup : Setup} {deeds : List Deed}
      {rest : List Happening} :
      Turn name restarts setup standing.job deeds mid.job ->
      RecordPath name standing.record deeds mid.record ->
      Strand name restarts mid rest later ->
      Strand name restarts standing (deeds.map (Happening.mk setup) ++ rest) later

namespace Strand

variable {name : String} {restarts : Bool} {standing mid later : Standing}

theorem append {first second : List Happening} (hfirst : Strand name restarts standing first mid)
    (hsecond : Strand name restarts mid second later) :
    Strand name restarts standing (first ++ second) later := by
  induction hfirst with
  | nil _ =>
      exact hsecond
  | cons hturn hpath _ ih =>
      rw [List.append_assoc]
      exact Strand.cons hturn hpath (ih hsecond)

theorem of_turns {setup : Setup} {job job' : Option DriveJob} {record record' : Option JobRecord}
    {deeds : List Deed} (hturns : Turns name restarts setup job deeds job')
    (hpath : RecordPath name record deeds record') :
    Strand name restarts ⟨job, record⟩ (deeds.map (Happening.mk setup)) ⟨job', record'⟩ := by
  induction hturns generalizing record with
  | nil job =>
      rw [hpath.eq_of_nil]
      exact Strand.nil _
  | @cons job mid later first rest hturn _ ih =>
      rcases hpath.split with ⟨between, hfirst, hrest⟩
      rw [List.map_append]
      refine Strand.cons ?_ ?_ (ih hrest)
      · exact hturn
      · exact hfirst

/-- What every turn preserves holds along a strand. -/
theorem induct {holds : Standing -> Prop} {trace : List Happening}
    (h : Strand name restarts standing trace later)
    (hstep : forall (standing mid : Standing) setup deeds,
      (forall deed, deed ∈ deeds -> ⟨setup, deed⟩ ∈ trace) ->
      Turn name restarts setup standing.job deeds mid.job ->
      RecordPath name standing.record deeds mid.record ->
      holds standing -> holds mid)
    (hholds : holds standing) : holds later := by
  induction h with
  | nil _ =>
      exact hholds
  | @cons standing mid later setup deeds rest hturn hpath _ ih =>
      refine ih ?_ ?_
      · intro standing mid setup deeds hdeeds
        exact hstep standing mid setup deeds fun deed hdeed =>
          List.mem_append_right _ (hdeeds deed hdeed)
      · refine hstep standing mid setup deeds ?_ hturn hpath hholds
        intro deed hdeed
        exact List.mem_append_left _ (List.mem_map_of_mem hdeed)

end Strand

theorem append_cons_eq_append {α : Type} {before rest first second : List α} {item : α}
    (h : before ++ item :: rest = first ++ second) :
    (exists more, first = before ++ item :: more ∧ rest = more ++ second) ∨
      exists more, before = first ++ more ∧ second = more ++ item :: rest := by
  rcases List.append_eq_append_iff.mp h with ⟨more, hfirst, hrest⟩ | ⟨more, hbefore, hsecond⟩
  · cases more with
    | nil =>
        rw [List.append_nil] at hfirst
        exact Or.inr ⟨[], by rw [hfirst, List.append_nil], hrest.symm⟩
    | cons head more =>
        rcases List.cons_eq_cons.mp hrest with ⟨rfl, rfl⟩
        exact Or.inl ⟨more, hfirst, rfl⟩
  · exact Or.inr ⟨more, hbefore, hsecond⟩

theorem Strand.turn_of_mem {name : String} {restarts : Bool} {standing later : Standing}
    {before rest : List Happening} {happening : Happening}
    (h : Strand name restarts standing (before ++ happening :: rest) later) :
    exists mid next setup first last early late,
      Strand name restarts standing early mid ∧
      Turn name restarts setup mid.job (first ++ happening.deed :: last) next.job ∧
      RecordPath name mid.record (first ++ happening.deed :: last) next.record ∧
      Strand name restarts next late later ∧
      happening.setup = setup ∧ before = early ++ first.map (Happening.mk setup) ∧
      rest = last.map (Happening.mk setup) ++ late := by
  generalize htrace : before ++ happening :: rest = trace at h
  induction h generalizing before with
  | nil _ =>
      exact absurd htrace (List.append_ne_nil_of_right_ne_nil _ (List.cons_ne_nil _ _))
  | @cons standing mid later setup deeds trace hturn hpath hstrand ih =>
      rcases append_cons_eq_append htrace with ⟨more, hdeeds, rfl⟩ | ⟨more, rfl, htail⟩
      · rcases List.map_eq_append_iff.mp hdeeds with ⟨first, last, rfl, rfl, hlast⟩
        rcases List.map_eq_cons_iff.mp hlast with ⟨deed, last, rfl, rfl, rfl⟩
        exact ⟨standing, mid, setup, first, last, [], trace, Strand.nil _, hturn, hpath,
          hstrand, rfl, rfl, rfl⟩
      · rcases ih htail.symm with ⟨found, next, other, first, last, early, late, hearly, hfound⟩
        refine ⟨found, next, other, first, last, deeds.map (Happening.mk setup) ++ early, late,
          Strand.cons hturn hpath hearly, ?_⟩
        rcases hfound with ⟨hfirst, hlast, hlate, hsetup, rfl, hrest⟩
        exact ⟨hfirst, hlast, hlate, hsetup, (List.append_assoc _ _ _).symm, hrest⟩

/-!
## The strands of a run
-/

def Call.Distinct : Call -> Prop
  | .start registry _ => registry.Distinct
  | _ => True

namespace Process

def Sound (process : Process) : Prop :=
  forall context, process.context = some context -> context.Sound

theorem sound_of_fresh {process : Process} (h : process.context = none) :
    process.Sound := by
  intro context hcontext
  rw [h] at hcontext
  cases hcontext

def standing (name : String) (process : Process) : Standing where
  job := process.context.bind (·.job? name)
  record := process.world.store.records name

end Process

theorem each_set {α : Type} {deals : α -> List Deed -> α -> Prop} {items : List α} {item : α}
    {result : α} {deeds : List Deed} {position : Nat} (hskip : forall item, deals item [] item)
    (hitem : items[position]? = some item) (hdeals : deals item deeds result) :
    Each deals items deeds (items.set position result) := by
  have hskipped : forall items : List α, Each deals items [] items := by
    intro items
    induction items with
    | nil =>
        exact Each.nil
    | cons first rest ih =>
        exact Each.cons (hskip first) ih
  induction items generalizing position with
  | nil =>
      cases hitem
  | cons first rest ih =>
      cases position with
      | zero =>
          cases hitem
          have heach := Each.cons hdeals (hskipped rest)
          rw [List.append_nil] at heach
          exact heach
      | succ position =>
          exact Each.cons (hskip first) (ih hitem)

section

variable {context later : DriveContext} {deeds : List Deed}

theorem each_evaluated {position : Nat} {job evaluated : DriveJob} {verdict : Evaluation}
    (hjob : context.jobs[position]? = some job)
    (h : Evaluates context.registry job deeds verdict evaluated) :
    Each (fun job own result =>
        own = [] ∧ result = job ∨
          exists verdict, Evaluates context.registry job own verdict result)
      context.jobs deeds (context.jobs.set position evaluated) :=
  each_set (fun _ => Or.inl ⟨rfl, rfl⟩) hjob (Or.inr ⟨verdict, h⟩)

theorem each_evaluated_name {job result : DriveJob} {registry : Registry}
    (h : deeds = [] ∧ result = job ∨ exists verdict, Evaluates registry job deeds verdict result) :
    result.name = job.name := by
  rcases h with ⟨_, rfl⟩ | ⟨verdict, hevaluates⟩
  · rfl
  · exact hevaluates.name_eq

theorem each_evaluated_foreign {command : Option String} {name : String} {job result : DriveJob}
    {registry : Registry} (hname : job.name ≠ name)
    (h : deeds = [] ∧ result = job ∨ exists verdict, Evaluates registry job deeds verdict result) :
    AllForeign command name deeds := by
  rcases h with ⟨rfl, _⟩ | ⟨verdict, hevaluates⟩
  · exact List.forall_mem_nil _
  · exact hevaluates.own.foreign hname

theorem Announces.map_eq {γ : Type} {part : DriveJob -> γ} {command : Option String} {now : Instant}
    {jobs marked : List DriveJob} {report : NoticeReport}
    (h : Announces command now jobs deeds report marked)
    (hpart : forall job own result, Marks now job own result -> part result = part job) :
    marked.map part = jobs.map part := by
  cases h with
  | idle _ =>
      rfl
  | failed _ _ =>
      rfl
  | delivered _ _ hmarks =>
      exact hmarks.map_eq hpart

theorem Rounds.setup_eq {wait : Span} (h : Rounds context deeds wait later) :
    later.setup = context.setup := by
  cases h
  rfl

theorem Notifies.setup_eq {report : NoticeReport} (h : Notifies context deeds report later) :
    later.setup = context.setup := by
  cases h
  rfl

theorem Ticks.setup_eq {state : WatchState} {interval : Option Span}
    (h : Ticks context state deeds interval later) : later.setup = context.setup := by
  cases h with
  | starting hnotifies =>
      exact hnotifies.setup_eq
  | running hrounds hnotifies =>
      exact hnotifies.setup_eq.trans hrounds.setup_eq
  | stopping hnotifies =>
      exact hnotifies.setup_eq

theorem Rounds.names_eq {wait : Span} (h : Rounds context deeds wait later) :
    later.jobs.map (·.name) = context.jobs.map (·.name) := by
  cases h with
  | round _ _ hvisits =>
      exact hvisits.map_eq fun _ _ _ h => h.name_eq

theorem Notifies.names_eq {report : NoticeReport} (h : Notifies context deeds report later) :
    later.jobs.map (·.name) = context.jobs.map (·.name) := by
  cases h with
  | pass _ hannounces =>
      exact hannounces.map_eq fun _ _ _ h => h.name_eq

theorem Ticks.names_eq {state : WatchState} {interval : Option Span}
    (h : Ticks context state deeds interval later) :
    later.jobs.map (·.name) = context.jobs.map (·.name) := by
  cases h with
  | starting hnotifies =>
      exact hnotifies.names_eq
  | running hrounds hnotifies =>
      exact hnotifies.names_eq.trans hrounds.names_eq
  | stopping hnotifies =>
      exact hnotifies.names_eq

theorem DriveContext.Sound.of_eq (hsound : context.Sound) (hsetup : later.setup = context.setup)
    (hnames : later.jobs.map (·.name) = context.jobs.map (·.name)) : later.Sound := by
  have hregistry : later.registry = context.registry := congrArg Setup.registry hsetup
  constructor
  · rw [hregistry]
    exact hsound.distinct
  · rw [hregistry, hnames]
    exact hsound.names

theorem Rounds.sound {wait : Span} (hsound : context.Sound)
    (h : Rounds context deeds wait later) : later.Sound :=
  hsound.of_eq h.setup_eq h.names_eq

theorem Ticks.sound {state : WatchState} {interval : Option Span} (hsound : context.Sound)
    (h : Ticks context state deeds interval later) : later.Sound :=
  hsound.of_eq h.setup_eq h.names_eq

theorem Ticks.turns {name : String} {restarts : Bool} {state : WatchState}
    {interval : Option Span} (hsound : context.Sound)
    (h : Ticks context state deeds interval later) :
    Turns name restarts context.setup (context.job? name) deeds (later.job? name) := by
  cases h with
  | starting hnotifies =>
      exact hnotifies.turns hsound
  | running hrounds hnotifies =>
      refine (hrounds.turns hsound).append ?_
      rw [← hrounds.setup_eq]
      exact hnotifies.turns (hrounds.sound hsound)
  | stopping hnotifies =>
      exact hnotifies.turns hsound

theorem StartsContext.names_eq {registry : Registry} {settings : DriveSettings}
    {begun : DriveContext} (h : StartsContext registry settings deeds (some begun)) :
    begun.registry = registry ∧ begun.jobs.map (·.name) = registry.watchedNames := by
  cases h with
  | begun heach _ _ =>
      have hnames := heach.map_eq fun _ _ _ h => h.name_eq
      rw [List.map_id'] at hnames
      exact ⟨rfl, hnames⟩

theorem StartsContext.sound {registry : Registry} {settings : DriveSettings}
    {begun : DriveContext} (hdistinct : registry.Distinct)
    (h : StartsContext registry settings deeds (some begun)) : begun.Sound := by
  rcases h.names_eq with ⟨hregistry, hnames⟩
  constructor
  · rw [hregistry]
    exact hdistinct
  · rw [hregistry]
    exact hnames

end

section

variable {call : Call} {before after : Option DriveContext} {deeds : List Deed}

/-- While a process lives, its setup and the names of its jobs stay. -/
theorem Performs.keeps (h : Performs call before deeds after) (hstart : call.isStart = false) :
    exists context later, before = some context ∧ after = some later ∧
      later.setup = context.setup ∧
      later.jobs.map (·.name) = context.jobs.map (·.name) := by
  cases h with
  | start _ =>
      cases hstart
  | tick hticks =>
      exact ⟨_, _, rfl, rfl, hticks.setup_eq, hticks.names_eq⟩
  | runJobs hrounds =>
      exact ⟨_, _, rfl, rfl, hrounds.setup_eq, hrounds.names_eq⟩
  | missing _ =>
      exact ⟨_, _, rfl, rfl, rfl, rfl⟩
  | evaluate hjob hevaluates =>
      refine ⟨_, _, rfl, rfl, rfl, ?_⟩
      exact (each_evaluated hjob hevaluates).map_eq fun _ _ _ h => each_evaluated_name h
  | announce hnotifies =>
      exact ⟨_, _, rfl, rfl, hnotifies.setup_eq, hnotifies.names_eq⟩

theorem Performs.of_start (h : Performs call before deeds after) (hstart : call.isStart = true) :
    exists registry settings, call = .start registry settings ∧
      StartsContext registry settings deeds after := by
  cases h with
  | start hstarts =>
      exact ⟨_, _, rfl, hstarts⟩
  | _ =>
      cases hstart

theorem Performs.sound (hdistinct : call.Distinct)
    (hsound : forall context, before = some context -> context.Sound)
    (h : Performs call before deeds after) :
    forall context, after = some context -> context.Sound := by
  intro context hcontext
  cases hstart : call.isStart with
  | true =>
      rcases h.of_start hstart with ⟨registry, settings, rfl, hstarts⟩
      rw [hcontext] at hstarts
      exact hstarts.sound hdistinct
  | false =>
      rcases h.keeps hstart with ⟨earlier, later, rfl, rfl, hsetup, hnames⟩
      cases hcontext
      exact (hsound earlier rfl).of_eq hsetup hnames

theorem Process.setup_of_stays {process : Process} (hstart : call.isStart = false) :
    process.setup call = process.context.map (·.setup) := by
  cases call with
  | start _ _ =>
      cases hstart
  | _ =>
      rfl

theorem Process.setup_of_context {process : Process} {context : DriveContext}
    (hcontext : process.context = some context) (hstart : call.isStart = false) :
    process.setup call = some context.setup := by
  rw [setup_of_stays hstart, hcontext]
  rfl

theorem Process.setup_congr {process other : Process} (h : process.context = other.context) :
    process.setup call = other.setup call := by
  unfold Process.setup
  rw [h]

theorem Performs.turns {name : String} {restarts : Bool} {process : Process} {setup : Setup}
    (hdistinct : call.Distinct) (hrestarts : call.isStart = true -> restarts = true)
    (hsound : forall context, process.context = some context -> context.Sound)
    (hsetup : process.setup call = some setup)
    (h : Performs call process.context deeds after) :
    Turns name restarts setup (process.context.bind (·.job? name)) deeds
      (after.bind (·.job? name)) := by
  generalize hbefore : process.context = before at h hsound
  cases h with
  | start hstarts =>
      cases hsetup
      cases hrestarts rfl
      exact Turns.cons (Turn.dropped rfl) (hstarts.turns hdistinct)
  | tick hticks =>
      rw [Process.setup_of_context hbefore rfl] at hsetup
      cases hsetup
      exact hticks.turns (hsound _ rfl)
  | runJobs hrounds =>
      rw [Process.setup_of_context hbefore rfl] at hsetup
      cases hsetup
      exact hrounds.turns (hsound _ rfl)
  | missing _ =>
      exact Turns.nil _
  | @evaluate position context deeds job evaluated verdict hjob hevaluates =>
      rw [Process.setup_of_context hbefore rfl] at hsetup
      cases hsetup
      have hportion := (each_evaluated hjob hevaluates).portion
        (Deed.Foreign context.setup.settings.notifyCommand name) name (hsound _ rfl).nodup
        (fun _ _ _ h => each_evaluated_name h) (fun _ _ _ hname h => each_evaluated_foreign hname h)
      rw [← Option.bind_fun_some (some context |>.bind (·.job? name))]
      refine turns_of_portion some hportion ?_
      intro item own result hown
      rcases hown with ⟨hname, ⟨rfl, rfl⟩ | ⟨_, h⟩⟩
      · exact Turns.nil _
      · exact h.turns hname
  | announce hnotifies =>
      rw [Process.setup_of_context hbefore rfl] at hsetup
      cases hsetup
      exact hnotifies.turns (hsound _ rfl)

end

theorem Rehearsal.Passage.deeds_eq {world later : Rehearsal} {first second : List Deed}
    (h : Passage world first later) (hrequests : later.requests = world.requests ++ second) :
    first = second := by
  rw [h.requests] at hrequests
  exact List.append_cancel_left hrequests

theorem Process.strand_of_call {process later : Process} {call : Call} {setup : Setup}
    {deeds : List Deed} (name : String) {restarts : Bool} (hdistinct : call.Distinct)
    (hrestarts : call.isStart = true -> restarts = true) (hsound : process.Sound)
    (hsetup : process.setup call = some setup) (hcall : process.call call = .ok later)
    (hrequests : later.world.requests = process.world.requests ++ deeds) :
    later.Sound ∧ Strand name restarts (process.standing name) (deeds.map (Happening.mk setup))
      (later.standing name) := by
  rcases Process.performs_of_call hsetup hcall with ⟨done, hpassage, hperforms⟩
  cases hpassage.deeds_eq hrequests
  constructor
  · exact hperforms.sound hdistinct hsound
  · exact Strand.of_turns (hperforms.turns hdistinct hrestarts hsound hsetup)
      (recordPath_of_serves name hpassage.serves)

theorem Run.strand {origin later : Process} {calls : List Call} {trace : List Happening}
    (name : String) (restarts : Bool) (h : Run origin calls trace later)
    (hsound : origin.Sound) (hdistinct : forall call, call ∈ calls -> call.Distinct)
    (hrestarts : forall call, call ∈ calls -> call.isStart = true -> restarts = true) :
    later.Sound ∧ Strand name restarts (origin.standing name) trace (later.standing name) := by
  induction h with
  | refl =>
      exact ⟨hsound, Strand.nil _⟩
  | @call calls trace process later call setup deeds _ hsetup hcall hrequests ih =>
      have hlast : call ∈ calls ++ [call] := List.mem_append_right _ List.mem_cons_self
      rcases ih (fun other hother => hdistinct other (List.mem_append_left _ hother))
        (fun other hother => hrestarts other (List.mem_append_left _ hother))
        with ⟨hmade, hstrand⟩
      rcases Process.strand_of_call name (hdistinct call hlast) (hrestarts call hlast) hmade hsetup
        hcall hrequests with ⟨hlater, hlaterStrand⟩
      exact ⟨hlater, hstrand.append hlaterStrand⟩
  | @outside calls trace process world _ houtside ih =>
      rcases ih hdistinct hrestarts with ⟨hmade, hstrand⟩
      refine ⟨hmade, ?_⟩
      have hstanding : ({ process with world := world } : Process).standing name =
          process.standing name := by
        rw [Process.standing, Process.standing, houtside.records]
      rw [hstanding]
      exact hstrand

theorem Run.setup_eq {origin later : Process} {calls : List Call} {trace : List Happening}
    {setup : Setup} (h : Run origin calls trace later)
    (hstays : forall call, call ∈ calls -> call.isStart = false)
    (horigin : forall context, origin.context = some context -> context.setup = setup) :
    (forall context, later.context = some context -> context.setup = setup) ∧
      forall happening, happening ∈ trace -> happening.setup = setup := by
  induction h with
  | refl =>
      exact ⟨horigin, List.forall_mem_nil _⟩
  | @call calls trace process later call used deeds _ hsetup hcall _ ih =>
      have hstart : call.isStart = false :=
        hstays call (List.mem_append_right _ List.mem_cons_self)
      rcases ih fun other hother => hstays other (List.mem_append_left _ hother)
        with ⟨hprocess, htrace⟩
      rcases Process.performs_of_call hsetup hcall with ⟨done, _, hperforms⟩
      rcases hperforms.keeps hstart with ⟨context, final, hcontext, hfinal, hkept, _⟩
      rw [Process.setup_of_context hcontext hstart, hprocess context hcontext] at hsetup
      cases hsetup
      constructor
      · intro other hother
        rw [hfinal] at hother
        cases hother
        exact hkept.trans (hprocess context hcontext)
      · exact List.forall_mem_append.mpr ⟨htrace, List.forall_mem_map.mpr fun _ _ => rfl⟩
  | outside _ _ ih =>
      exact ih hstays

theorem Run.names_eq {origin later : Process} {calls : List Call} {trace : List Happening}
    (h : Run origin calls trace later)
    (horigin : forall context, origin.context = some context ->
      context.jobs.map (·.name) = context.registry.watchedNames) :
    forall context, later.context = some context ->
      context.jobs.map (·.name) = context.registry.watchedNames := by
  induction h with
  | refl =>
      exact horigin
  | @call calls trace process later call used deeds _ hsetup hcall _ ih =>
      intro final hfinal
      rcases Process.performs_of_call hsetup hcall with ⟨done, _, hperforms⟩
      cases hstart : call.isStart with
      | true =>
          rcases hperforms.of_start hstart with ⟨registry, settings, rfl, hstarts⟩
          rw [hfinal] at hstarts
          rcases hstarts.names_eq with ⟨hregistry, hnames⟩
          rw [hnames, hregistry]
      | false =>
          rcases hperforms.keeps hstart with ⟨context, other, hcontext, hother, hkept, hnames⟩
          cases hfinal.symm.trans hother
          have hregistry : final.registry = context.registry := congrArg Setup.registry hkept
          rw [hnames, hregistry]
          exact ih context hcontext
  | outside _ _ ih =>
      exact ih

/-- A process that is not replaced by another one has a strand without a start. -/
theorem Run.strand_of_stays {origin later : Process} {calls : List Call}
    {trace : List Happening} (name : String) (h : Run origin calls trace later)
    (hsound : origin.Sound) (hstays : forall call, call ∈ calls -> call.isStart = false) :
    later.Sound ∧ Strand name false (origin.standing name) trace (later.standing name) := by
  apply h.strand name false hsound
  · intro call hcall
    have hkind := hstays call hcall
    cases call with
    | start _ _ =>
        cases hkind
    | _ =>
        trivial
  · intro call hcall hkind
    rw [hstays call hcall] at hkind
    cases hkind

end RenewalDrive
