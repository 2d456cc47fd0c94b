import RenewalDrive.Proofs.Deeds.Store

/-!
# Acts and their deeds

An act of a drive in a rehearsed world is known by the deeds it does and by its answer.
`Act.Yields` says of an act what every run of it that does not halt has done and answered;
its rules follow the way acts are put together, so that the laws of the drive speak of
deeds and jobs, and never of worlds. Entries of the log are not counted among the deeds.
-/

namespace RenewalDrive

/-!
## Acts step by step
-/

namespace Act

variable {σ α β : Type}

theorem run_bind_eq_ok {act : Act σ α} {next : α -> Act σ β} {world later : σ} {b : β} :
    (act >>= next).run world = .ok (b, later) ↔
      exists a mid, act.run world = .ok (a, mid) ∧ (next a).run mid = .ok (b, later) := by
  rw [StateT.run_bind]
  cases h : act.run world with
  | error halt =>
      simp [bind, Except.bind]
  | ok result =>
      cases result with
      | mk a mid =>
          constructor
          · intro hnext
            exact ⟨a, mid, rfl, hnext⟩
          · intro hnext
            rcases hnext with ⟨a', mid', heq, hnext⟩
            cases heq
            exact hnext

theorem run_pure_eq_ok {a b : α} {world later : σ} :
    (pure a : Act σ α).run world = .ok (b, later) ↔ a = b ∧ world = later := by
  rw [StateT.run_pure]
  simp [pure, Except.pure]

theorem run_halt_ne_ok {halt : Halt} {world : σ} {result : α × σ} :
    (Act.halt halt : Act σ α).run world ≠ .ok result := by
  intro h
  cases h

end Act

/-!
## Passages from a world to a later one
-/

namespace Deed

def isNote : Deed -> Bool
  | .noted _ => true
  | _ => false

end Deed

namespace Rehearsal

/-- All that a drive asked for, in the order of time. -/
def requests (world : Rehearsal) : List Deed :=
  (world.journal.filter fun deed => !deed.isNote).reverse

structure Passage (world : Rehearsal) (deeds : List Deed) (later : Rehearsal) : Prop where
  requests : later.requests = world.requests ++ deeds
  serves : world.store.Serves deeds later.store

theorem Passage.refl (world : Rehearsal) : Passage world [] world :=
  ⟨by simp, MemoryStore.Serves.nil _⟩

theorem Passage.trans {world mid later : Rehearsal} {first second : List Deed}
    (hfirst : Passage world first mid) (hsecond : Passage mid second later) :
    Passage world (first ++ second) later := by
  constructor
  · rw [hsecond.requests, hfirst.requests, List.append_assoc]
  · exact MemoryStore.serves_append hfirst.serves hsecond.serves

theorem requests_after {world : Rehearsal} {deed : Deed} (h : deed.isNote = false) :
    (world.after deed).requests = world.requests ++ [deed] := by
  simp [requests, after, h]

theorem passage_after {world : Rehearsal} {deed : Deed} (hnote : deed.isNote = false)
    (hvouches : world.store.Vouches deed) (hstore : world.store.after deed = world.store) :
    Passage world [deed] (world.after deed) := by
  constructor
  · exact requests_after hnote
  · have hserves := MemoryStore.serves_singleton hvouches
    rw [hstore] at hserves
    exact hserves

end Rehearsal

/-!
## What acts yield
-/

/-- Every run of the act that does not halt passes by deeds and ends with an answer
that meet the condition. -/
def Act.Yields {α : Type} (act : Act Rehearsal α) (meets : List Deed -> α -> Prop) : Prop :=
  forall world a later, act.run world = .ok (a, later) ->
    exists deeds, Rehearsal.Passage world deeds later ∧ meets deeds a

namespace Act

variable {α β : Type} {meets : List Deed -> α -> Prop} {ends : List Deed -> β -> Prop}

theorem yields_pure {a : α} (h : meets [] a) : Yields (pure a) meets := by
  intro world b later hrun
  rcases run_pure_eq_ok.mp hrun with ⟨rfl, rfl⟩
  exact ⟨[], Rehearsal.Passage.refl world, h⟩

theorem yields_bind {act : Act Rehearsal α} {next : α -> Act Rehearsal β}
    (hact : act.Yields meets)
    (hnext : forall first a, meets first a ->
      (next a).Yields fun second b => ends (first ++ second) b) :
    (act >>= next).Yields ends := by
  intro world b later hrun
  rcases run_bind_eq_ok.mp hrun with ⟨a, mid, hrunAct, hrunNext⟩
  rcases hact world a mid hrunAct with ⟨first, hfirst, ha⟩
  rcases hnext first a ha mid b later hrunNext with ⟨second, hsecond, hb⟩
  exact ⟨first ++ second, hfirst.trans hsecond, hb⟩

theorem Yields.mono {act : Act Rehearsal α} {weaker : List Deed -> α -> Prop}
    (h : act.Yields meets) (himp : forall deeds a, meets deeds a -> weaker deeds a) :
    act.Yields weaker := by
  intro world a later hrun
  rcases h world a later hrun with ⟨deeds, hpassage, ha⟩
  exact ⟨deeds, hpassage, himp deeds a ha⟩

theorem yields_silent {act : Act Rehearsal α} {next : α -> Act Rehearsal β}
    (hact : act.Yields fun deeds _ => deeds = [])
    (hnext : forall a, (next a).Yields ends) : (act >>= next).Yields ends := by
  apply yields_bind hact
  intro first a hfirst
  subst hfirst
  exact hnext a

theorem yields_halt {halt : Halt} : (Act.halt halt : Act Rehearsal α).Yields meets := by
  intro world a later hrun
  exact absurd hrun run_halt_ne_ok

theorem yields_instant {t : Option Instant} :
    (Act.instant t : Act Rehearsal Instant).Yields fun deeds a => deeds = [] ∧ t = some a := by
  cases t with
  | none =>
      exact yields_halt
  | some t =>
      exact yields_pure ⟨rfl, rfl⟩

end Act

/-!
## Lists of acts
-/

inductive Each {α β : Type} (deals : α -> List Deed -> β -> Prop) :
    List α -> List Deed -> List β -> Prop where
  | nil : Each deals [] [] []
  | cons {item : α} {items : List α} {first rest : List Deed} {result : β} {results : List β} :
      deals item first result ->
      Each deals items rest results ->
      Each deals (item :: items) (first ++ rest) (result :: results)

theorem Each.all_of_mem {α β : Type} {deals : α -> List Deed -> β -> Prop} {items : List α}
    {deeds : List Deed} {results : List β} (holds : Deed -> Prop)
    (h : Each deals items deeds results)
    (hdeals : forall item own result, item ∈ items -> deals item own result ->
      forall deed, deed ∈ own -> holds deed) :
    forall deed, deed ∈ deeds -> holds deed := by
  induction h with
  | nil =>
      exact List.forall_mem_nil _
  | @cons item items _ _ _ _ hown _ ih =>
      refine List.forall_mem_append.mpr ⟨hdeals _ _ _ List.mem_cons_self hown, ih ?_⟩
      intro other own result hother
      exact hdeals other own result (List.mem_cons_of_mem item hother)

theorem Each.all {α β : Type} {deals : α -> List Deed -> β -> Prop} {items : List α}
    {deeds : List Deed} {results : List β} (holds : Deed -> Prop)
    (h : Each deals items deeds results)
    (hdeals : forall item own result, deals item own result ->
      forall deed, deed ∈ own -> holds deed) :
    forall deed, deed ∈ deeds -> holds deed :=
  h.all_of_mem holds fun item own result _ => hdeals item own result

theorem Each.exists_of_mem {α β : Type} {deals : α -> List Deed -> β -> Prop} {items : List α}
    {deeds : List Deed} {results : List β} {result : β} (h : Each deals items deeds results)
    (hresult : result ∈ results) :
    exists item own, item ∈ items ∧ deals item own result ∧ own ⊆ deeds := by
  induction h with
  | nil =>
      cases hresult
  | @cons item items first rest head results hown _ ih =>
      rcases List.mem_cons.mp hresult with rfl | hresult
      · exact ⟨item, first, List.mem_cons_self, hown, List.subset_append_left first rest⟩
      · rcases ih hresult with ⟨other, own, hother, hdeals, hwithin⟩
        exact ⟨other, own, List.mem_cons_of_mem item hother, hdeals,
          List.subset_append_of_subset_right first hwithin⟩

namespace Act

variable {α β : Type} {deals : α -> List Deed -> β -> Prop}

theorem yields_mapM {act : α -> Act Rehearsal β} {items : List α}
    (h : forall item, item ∈ items -> (act item).Yields (deals item)) :
    (items.mapM act).Yields fun deeds results => Each deals items deeds results := by
  induction items with
  | nil =>
      rw [List.mapM_nil]
      exact yields_pure Each.nil
  | cons item rest ih =>
      rw [List.mapM_cons]
      apply yields_bind (h item List.mem_cons_self)
      intro first result hresult
      apply yields_bind (ih fun other hother => h other (List.mem_cons_of_mem item hother))
      intro second results hresults
      apply yields_pure
      rw [List.append_nil]
      exact Each.cons hresult hresults

theorem yields_forM {act : α -> Act Rehearsal PUnit} {items : List α}
    {deals : α -> List Deed -> PUnit -> Prop}
    (h : forall item, item ∈ items -> (act item).Yields (deals item)) :
    (items.forM act).Yields fun deeds _ => exists results, Each deals items deeds results := by
  induction items with
  | nil =>
      rw [List.forM_eq_forM, List.forM_nil]
      exact yields_pure ⟨[], Each.nil⟩
  | cons item rest ih =>
      rw [List.forM_eq_forM, List.forM_cons]
      apply yields_bind (h item List.mem_cons_self)
      intro first result hresult
      refine (ih fun other hother => h other (List.mem_cons_of_mem item hother)).mono ?_
      intro second _ hresults
      rcases hresults with ⟨results, hresults⟩
      exact ⟨result :: results, Each.cons hresult hresults⟩

end Act

/-!
## The requests of a rehearsal
-/

namespace Rehearsal

open Act

theorem yields_now : host.now.Yields fun deeds t => deeds = [.clockRead t] := by
  intro world t later hrun
  cases hrun
  exact ⟨[.clockRead world.reading], passage_after rfl trivial rfl, rfl⟩

theorem yields_ask {α : Type} {request : Request} {deed : Except StoreError α -> Deed}
    {serve : MemoryStore -> α × MemoryStore}
    (hnote : forall answer, (deed answer).isNote = false)
    (hvouches : forall store : MemoryStore, store.Vouches (deed (.ok (serve store).1)))
    (hserve : forall store : MemoryStore,
      store.after (deed (.ok (serve store).1)) = (serve store).2)
    (hrefused : forall (store : MemoryStore) error,
      store.Vouches (deed (.error error)) ∧ store.after (deed (.error error)) = store) :
    (ask request deed serve).Yields fun deeds answer => deeds = [deed answer] := by
  intro world answer later hrun
  simp only [ask, StateT.run] at hrun
  split at hrun
  · cases hrun
    rcases hrefused world.store (.unavailable request) with ⟨hv, hs⟩
    exact ⟨_, passage_after (hnote _) hv hs, rfl⟩
  · cases hrun
    refine ⟨_, ⟨?_, ?_⟩, rfl⟩
    · rw [requests_after (hnote _)]
      rfl
    · have hserves := MemoryStore.serves_singleton (hvouches world.store)
      rw [hserve world.store] at hserves
      exact hserves

theorem yields_loadJob (name : String) :
    (host.loadJob name).Yields fun deeds answer => deeds = [.recordLoaded name answer] := by
  change (loadJob name).Yields _
  unfold loadJob
  apply yields_ask
  · exact fun _ => rfl
  · exact fun _ => rfl
  · exact fun _ => rfl
  · exact fun _ _ => ⟨trivial, rfl⟩

theorem yields_saveJob (name : String) (record : JobRecord) :
    (host.saveJob name record).Yields fun deeds answer =>
      deeds = [.recordSaved name record answer] := by
  change (saveJob name record).Yields _
  unfold saveJob
  apply yields_ask
  · exact fun _ => rfl
  · exact fun _ => trivial
  · exact fun _ => rfl
  · exact fun _ _ => ⟨trivial, rfl⟩

theorem yields_loadCredential (name : String) :
    (host.loadCredential name).Yields fun deeds answer =>
      deeds = [.credentialLoaded name answer] := by
  change (loadCredential name).Yields _
  unfold loadCredential
  apply yields_ask
  · exact fun _ => rfl
  · exact fun _ => rfl
  · exact fun _ => rfl
  · exact fun _ _ => ⟨trivial, rfl⟩

theorem yields_purge (group : Group) (name : String) :
    (host.purge group name).Yields fun deeds answer => deeds = [.purged group name answer] := by
  change (purge group name).Yields _
  unfold purge
  apply yields_ask
  · exact fun _ => rfl
  · exact fun _ => trivial
  · exact fun _ => rfl
  · exact fun _ _ => ⟨trivial, rfl⟩

theorem yields_listNames (group : Group) :
    (host.listNames group).Yields fun deeds answer => deeds = [.listed group answer] := by
  change (listNames group).Yields _
  unfold listNames
  apply yields_ask
  · exact fun _ => rfl
  · exact fun _ => rfl
  · exact fun _ => rfl
  · exact fun _ _ => ⟨trivial, rfl⟩

theorem yields_execute (words : List String) :
    (host.execute words).Yields fun deeds answer => deeds = [.executed words answer] := by
  intro world answer later hrun
  cases hrun
  exact ⟨[.executed words (world.runner world.moment words)], passage_after rfl trivial rfl, rfl⟩

theorem requests_advance {world later : Rehearsal} {span : Span}
    (h : world.advance span = .ok later) :
    later.requests = world.requests ∧ later.store = world.store := by
  unfold advance at h
  split at h
  · cases h
    exact ⟨rfl, rfl⟩
  · split at h
    · cases h
      exact ⟨rfl, rfl⟩
    · cases h

theorem yields_attempt (domain : ManagedDomain) (reset : Bool) :
    (host.attempt domain reset).Yields fun deeds outcome =>
      exists took, deeds = [.attempted domain reset outcome took] := by
  intro world outcome later hrun
  change attempt domain reset world = .ok (outcome, later) at hrun
  unfold attempt at hrun
  cases hadvance : ({ world with scripts := (Script.next domain.name world.scripts).2 } :
      Rehearsal).advance (Script.next domain.name world.scripts).1.took with
  | error halt =>
      simp [hadvance, bind, Except.bind] at hrun
  | ok mid =>
      simp only [hadvance, bind, Except.bind, pure, Except.pure, Except.ok.injEq,
        Prod.mk.injEq] at hrun
      rcases hrun with ⟨rfl, rfl⟩
      rcases requests_advance hadvance with ⟨hrequests, hstore⟩
      have hpassage : Passage mid [.attempted domain reset
          (Script.next domain.name world.scripts).1.outcome
          (Script.next domain.name world.scripts).1.took] _ :=
        passage_after rfl trivial rfl
      refine ⟨_, ⟨?_, ?_⟩, (Script.next domain.name world.scripts).1.took, rfl⟩
      · rw [hpassage.requests, hrequests]
        rfl
      · have hserves := hpassage.serves
        rw [hstore] at hserves
        exact hserves

theorem passage_notes {world : Rehearsal} {entries : List LogEntry} :
    Passage world [] (entries.foldl (fun world entry => world.after (.noted entry)) world) := by
  induction entries generalizing world with
  | nil =>
      exact Passage.refl world
  | cons entry rest ih =>
      have hfirst : Passage world [] (world.after (.noted entry)) :=
        ⟨by simp [requests, after, Deed.isNote], MemoryStore.Serves.nil _⟩
      exact hfirst.trans ih

/-- A rehearsal lets a count of errors start over. -/
theorem count_eq (errorRuns : ErrorCount) : host.count errorRuns = pure () :=
  ite_self _

theorem yields_count (errorRuns : ErrorCount) :
    (host.count errorRuns).Yields fun deeds _ => deeds = [] := by
  rw [count_eq]
  exact yields_pure rfl

theorem yields_note (event : Event) : (host.note event).Yields fun deeds _ => deeds = [] := by
  intro world _ later hrun
  change note event world = .ok (_, later) at hrun
  unfold note at hrun
  cases hentries : event.entries world.kept with
  | error halt =>
      simp [hentries, bind, Except.bind] at hrun
  | ok entries =>
      simp only [hentries, bind, Except.bind, pure, Except.pure, Except.ok.injEq,
        Prod.mk.injEq, true_and] at hrun
      subst hrun
      exact ⟨[], passage_notes, rfl⟩

end Rehearsal
end RenewalDrive
