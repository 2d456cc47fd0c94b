import RenewalDrive.Proofs.Run.Attempt

/-!
# The life of a process

What one process does between its start and its end, call by call. Nothing is assumed here of
the worlds: each call may find any store, with any job records in it, and any clock. What is
left of a run is the job of each name, which goes through one turn after the other.
-/

namespace RenewalDrive

open Deed

/-- What a process has done since it was started with a context, and its context now. -/
inductive Lives (begun : DriveContext) : List Deed -> DriveContext -> Prop where
  | fresh : Lives begun [] begun
  | call {context later : DriveContext} {deeds done : List Deed} {call : Call}
      {found left : Rehearsal} :
      Lives begun deeds context ->
      call.isStart = false ->
      Process.call ⟨found, some context⟩ call = .ok ⟨left, some later⟩ ->
      left.requests = found.requests ++ done ->
      Lives begun (deeds ++ done) later

section

variable {begun context : DriveContext} {deeds : List Deed}

theorem Lives.turns (name : String) (hsound : begun.Sound) (h : Lives begun deeds context) :
    context.Sound ∧ context.setup = begun.setup ∧
      Turns name false begun.setup (begun.job? name) deeds (context.job? name) := by
  induction h with
  | fresh =>
      exact ⟨hsound, rfl, Turns.nil _⟩
  | @call context later deeds done call found left _ hstays hcall hrequests ih =>
      rcases ih with ⟨hmade, hkept, hturns⟩
      have hsetup : (Process.mk found (some context)).setup call = some context.setup :=
        Process.setup_of_context rfl hstays
      rcases Process.performs_of_call hsetup hcall with ⟨_, hpassage, hperforms⟩
      cases hpassage.deeds_eq hrequests
      have hdistinct : call.Distinct := by
        cases call with
        | start _ _ =>
            cases hstays
        | _ =>
            trivial
      have hsame : forall other, some context = some other -> other.Sound := by
        rintro _ ⟨⟩
        exact hmade
      have hrestarts : call.isStart = true -> false = true := fun hstart =>
        hstays.symm.trans hstart
      have hlast : Turns name false context.setup (context.job? name) done (later.job? name) :=
        hperforms.turns hdistinct hrestarts hsame hsetup
      rcases hperforms.keeps hstays with ⟨_, _, ⟨⟩, ⟨⟩, hlater, hnames⟩
      rw [hkept] at hlater hlast
      exact ⟨hmade.of_eq (hlater.trans hkept.symm) hnames, hlater, hturns.append hlast⟩

theorem Run.lives {started later : Process} {calls : List Call} {trace : List Happening}
    (h : Run started calls trace later) (hbegun : started.context = some begun)
    (hstays : forall call, call ∈ calls -> call.isStart = false) :
    exists context, later.context = some context ∧ Lives begun (trace.map (·.deed)) context := by
  induction h with
  | refl =>
      exact ⟨begun, hbegun, Lives.fresh⟩
  | @call calls trace process later call setup deeds _ hsetup hcall hrequests ih =>
      rcases ih fun other hother => hstays other (List.mem_append_left _ hother) with
        ⟨context, hcontext, hlives⟩
      have hlast := hstays call (List.mem_append_right _ List.mem_cons_self)
      rcases Process.performs_of_call hsetup hcall with ⟨_, _, hperforms⟩
      rcases hperforms.keeps hlast with ⟨_, next, _, hnext, _⟩
      rcases process with ⟨found, _⟩
      rcases later with ⟨left, _⟩
      cases hcontext
      cases hnext
      have hdeeds : (trace ++ deeds.map (Happening.mk setup)).map (·.deed) =
          trace.map (·.deed) ++ deeds := by
        simp [Function.comp_def]
      rw [hdeeds]
      exact ⟨next, rfl, Lives.call hlives hlast hcall hrequests⟩
  | outside _ _ ih =>
      exact ih hstays

end

/-!
## The turn of a deed
-/

section

variable {name : String} {restarts : Bool} {setup : Setup} {job later : Option DriveJob}
  {before rest : List Deed} {deed : Deed}

theorem Turns.turn_of_mem
    (h : Turns name restarts setup job (before ++ deed :: rest) later) :
    exists mid next early first last late,
      Turns name restarts setup job early mid ∧
      Turn name restarts setup mid (first ++ deed :: last) next ∧
      Turns name restarts setup next late later ∧
      before = early ++ first ∧ rest = last ++ late := by
  generalize hdeeds : before ++ deed :: rest = deeds at h
  induction h generalizing before with
  | nil _ =>
      exact absurd hdeeds (List.append_ne_nil_of_right_ne_nil _ (List.cons_ne_nil _ _))
  | @cons job mid later own others hturn hturns ih =>
      rcases append_cons_eq_append hdeeds with ⟨more, rfl, rfl⟩ | ⟨more, rfl, htail⟩
      · exact ⟨job, mid, [], before, more, others, Turns.nil _, hturn, hturns, rfl, rfl⟩
      · rcases ih htail.symm with
          ⟨mid', next, early, first, last, late, hearly, hthis, hlate, rfl, hrest⟩
        exact ⟨mid', next, own ++ early, first, last, late, Turns.cons hturn hearly, hthis, hlate,
          (List.append_assoc _ _ _).symm, hrest⟩

theorem Turns.tries {domain : ManagedDomain} {reset : Bool} {outcome : RenewOutcome} {took : Span}
    (h : Turns name restarts setup job (before ++ .attempted domain reset outcome took :: rest)
      later)
    (hname : domain.name = name) :
    exists own evaluated early first now last late,
      Turns name restarts setup job early (some own) ∧ own.name = name ∧
      Tries setup.registry own domain reset outcome took first now last evaluated ∧
      Turns name restarts setup (some evaluated) late later ∧
      before = early ++ first ∧ rest = last ++ late := by
  rcases h.turn_of_mem with
    ⟨mid, next, early, first, last, late, hearly, hturn, hlate, rfl, rfl⟩
  rcases hturn.tries hname with ⟨own, evaluated, now, rfl, rfl, howner, htries⟩
  exact ⟨own, evaluated, early, first, now, last, late, hearly, howner, htries, hlate, rfl, rfl⟩

end
end RenewalDrive
