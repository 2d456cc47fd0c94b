import RenewalDrive.Drive.Rehearsal

/-!
# Deeds and the store

A rehearsed store changes by nothing but the deeds of the drive, and a deed that was not
refused was told what the store holds. `MemoryStore.Serves` states both for a list of
deeds. `RecordPath` follows the job record of a single name through the deeds, which is
all that most results about runs need to know of the store.
-/

namespace RenewalDrive

/-!
## The store after a deed
-/

namespace MemoryStore

def after (store : MemoryStore) : Deed -> MemoryStore
  | .recordSaved name record (.ok _) => store.saveJob name record
  | .purged group name (.ok _) => store.purge group name
  | _ => store

/-- What a deed was told of the store is what the store holds. -/
def Vouches (store : MemoryStore) : Deed -> Prop
  | .recordLoaded name (.ok answer) => answer = store.loadJob name
  | .credentialLoaded name (.ok answer) => answer = store.loadCredential name
  | .listed group (.ok answer) => answer = store.listNames group
  | _ => True

inductive Serves : MemoryStore -> List Deed -> MemoryStore -> Prop where
  | nil (store : MemoryStore) : Serves store [] store
  | cons {store later : MemoryStore} {deed : Deed} {deeds : List Deed} :
      store.Vouches deed ->
      Serves (store.after deed) deeds later ->
      Serves store (deed :: deeds) later

theorem serves_append {store mid later : MemoryStore} {first second : List Deed}
    (hfirst : Serves store first mid) (hsecond : Serves mid second later) :
    Serves store (first ++ second) later := by
  induction hfirst with
  | nil store =>
      exact hsecond
  | cons hvouches _ ih =>
      exact Serves.cons hvouches (ih hsecond)

theorem Serves.split {store later : MemoryStore} {first second : List Deed}
    (h : store.Serves (first ++ second) later) :
    exists mid, store.Serves first mid ∧ mid.Serves second later := by
  induction first generalizing store with
  | nil =>
      exact ⟨store, Serves.nil store, h⟩
  | cons deed rest ih =>
      cases h with
      | cons hvouches hrest =>
          rcases ih hrest with ⟨mid, hfirst, hsecond⟩
          exact ⟨mid, Serves.cons hvouches hfirst, hsecond⟩

theorem serves_singleton {store : MemoryStore} {deed : Deed} (h : store.Vouches deed) :
    Serves store [deed] (store.after deed) :=
  Serves.cons h (Serves.nil _)

end MemoryStore

def Deed.refused : Deed -> Bool
  | .recordLoaded _ (.error _) => true
  | .recordSaved _ _ (.error _) => true
  | .credentialLoaded _ (.error _) => true
  | .purged _ _ (.error _) => true
  | .listed _ (.error _) => true
  | _ => false

/-!
## The record of one name
-/

namespace Deed

def recordAfter (name : String) (record : Option JobRecord) : Deed -> Option JobRecord
  | .recordSaved other saved (.ok _) => if other = name then some saved else record
  | .purged .staging other (.ok _) => if other = name then none else record
  | _ => record

/-- A deed that loaded the record of a name was told that record. -/
def TellsRecord (name : String) (record : Option JobRecord) : Deed -> Prop
  | .recordLoaded other (.ok answer) => other = name -> answer = record
  | _ => True

theorem records_after (store : MemoryStore) (deed : Deed) (name : String) :
    (store.after deed).records name = deed.recordAfter name (store.records name) := by
  unfold MemoryStore.after recordAfter
  cases deed with
  | recordSaved other saved answer =>
      cases answer with
      | error _ => rfl
      | ok _ =>
          by_cases h : other = name
          · simp [MemoryStore.saveJob, h]
          · simp [MemoryStore.saveJob, h, Ne.symm h]
  | purged group other answer =>
      cases answer with
      | error _ => cases group <;> rfl
      | ok _ =>
          by_cases h : other = name
          · cases group <;> simp [MemoryStore.purge, h]
          · cases group <;> simp [MemoryStore.purge, h, Ne.symm h]
  | _ => rfl

theorem tellsRecord_of_vouches {store : MemoryStore} {deed : Deed} (name : String)
    (h : store.Vouches deed) : deed.TellsRecord name (store.records name) := by
  cases deed with
  | recordLoaded other answer =>
      cases answer with
      | error _ => trivial
      | ok answer =>
          intro hname
          subst hname
          exact h
  | _ => trivial

end Deed

/-- The record of a name is followed through some deeds: each of them that loads it is
told how it stands, and the last one leaves it as given. -/
inductive RecordPath (name : String) :
    Option JobRecord -> List Deed -> Option JobRecord -> Prop where
  | nil (record : Option JobRecord) : RecordPath name record [] record
  | cons {record later : Option JobRecord} {deed : Deed} {deeds : List Deed} :
      deed.TellsRecord name record ->
      RecordPath name (deed.recordAfter name record) deeds later ->
      RecordPath name record (deed :: deeds) later

theorem recordPath_of_serves {store later : MemoryStore} {deeds : List Deed} (name : String)
    (h : store.Serves deeds later) :
    RecordPath name (store.records name) deeds (later.records name) := by
  induction h with
  | nil store =>
      exact RecordPath.nil _
  | cons hvouches _ ih =>
      refine RecordPath.cons (Deed.tellsRecord_of_vouches name hvouches) ?_
      rw [← Deed.records_after]
      exact ih

namespace RecordPath

variable {name : String} {record later : Option JobRecord}

theorem split {first second : List Deed} (h : RecordPath name record (first ++ second) later) :
    exists mid, RecordPath name record first mid ∧ RecordPath name mid second later := by
  induction first generalizing record with
  | nil =>
      exact ⟨record, RecordPath.nil record, h⟩
  | cons deed rest ih =>
      cases h with
      | cons htells hrest =>
          rcases ih hrest with ⟨mid, hfirst, hsecond⟩
          exact ⟨mid, RecordPath.cons htells hfirst, hsecond⟩

theorem eq_of_nil (h : RecordPath name record [] later) : later = record := by
  cases h
  rfl

theorem of_cons {deed : Deed} {deeds : List Deed}
    (h : RecordPath name record (deed :: deeds) later) :
    deed.TellsRecord name record ∧
      RecordPath name (deed.recordAfter name record) deeds later := by
  cases h with
  | cons htells hrest =>
      exact ⟨htells, hrest⟩

end RecordPath

end RenewalDrive
