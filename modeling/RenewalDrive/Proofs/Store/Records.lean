import Mathlib.Data.List.Perm.Subperm
import RenewalDrive.Domain.Credential
import RenewalDrive.Job.Record
import RenewalDrive.Proofs.Json.Record

/-!
# Stored records are read back

A job record, and credentials, are read back from their text, compact or pretty. The members
of the object may stand in any order, and a job record does without those that hold defaults.
-/

namespace RenewalDrive

open Json Text

/-!
## Objects of scalars
-/

structure Json.Rearranges (mayLack : String × Value -> Prop)
    (members entries : List (String × Value)) : Prop where
  within : entries.Subperm members
  lacking : forall member, member ∈ members -> member ∉ entries -> mayLack member

theorem Json.Rearranges.refl {mayLack : String × Value -> Prop}
    (members : List (String × Value)) : Rearranges mayLack members members where
  within := List.Subperm.refl members
  lacking := fun _ hmember hmissing => absurd hmember hmissing

def writtenMembers (entries : List (String × Value)) : List (String × List UInt8) :=
  entries.map fun entry => (entry.1, encode (scalarText entry.2))

/-- A value without parts has the same text in all forms. -/
def Json.Value.IsScalar (value : Value) : Prop :=
  compactText value = scalarText value ∧ forall level, prettyText level value = scalarText value

/-- A record is read back from the text forms of its value, and from every text that has some
of its members in any order and any layout, without others that may be missing. -/
structure Json.ReadsBack {α : Type} (r : Reader α) (mayLack : String × Value -> Prop)
    (value : Value) (a : α) : Prop where
  compact : readText r value.compact = .ok a
  pretty : readText r value.pretty = .ok a
  rearranged : forall members entries, value = .object members ->
    Rearranges mayLack members entries ->
      readText r (Value.object entries).compact = .ok a ∧
      readText r (Value.object entries).pretty = .ok a ∧
      forall layout : Layout, readBytes r (layout.object (writtenMembers entries)) = .ok a

section

variable {δ α : Type} {shape : Shape δ α} {value : α}

theorem readText_object {entries : List (String × Value)} (hne : entries ≠ [])
    (hscalar : forall entry, entry ∈ entries -> entry.2.IsScalar)
    (h : forall layout : Layout,
      (Reader.record shape).Takes (layout.object (writtenMembers entries)) value) :
    readText (Reader.record shape) (Value.object entries).compact = .ok value ∧
      readText (Reader.record shape) (Value.object entries).pretty = .ok value := by
  constructor
  · refine readBytes_of_takes ?_
    have htexts : entries.map (fun entry => (entry.1, encode (compactText entry.2))) =
        writtenMembers entries :=
      List.map_congr_left fun entry hentry => by rw [(hscalar entry hentry).1]
    rw [Value.compact, bytesOf_ofList, Layout.encode_compact, htexts]
    exact h .compact
  · refine readBytes_of_takes ?_
    have htexts : entries.map (fun entry => (entry.1, encode (prettyText 1 entry.2))) =
        writtenMembers entries :=
      List.map_congr_left fun entry hentry => by rw [(hscalar entry hentry).2]
    rw [Value.pretty, bytesOf_ofList, Layout.encode_pretty 0 hne, htexts]
    exact h (.pretty 0)

variable {mayLack : String × Value -> Prop} {members : List (String × Value)}
  {draftOf : List String -> δ}

/-- Members that fit into the drafts of their names are read in any order and any layout. -/
theorem takes_rearranged {entries : List (String × Value)} (hempty : draftOf [] = shape.empty)
    (hfits : forall member, member ∈ members ->
      Fits shape.fields draftOf (member.1, encode (scalarText member.2)))
    (hnodup : (members.map Prod.fst).Nodup)
    (hfinish : forall names,
      (forall member, member ∈ members -> member.1 ∉ names -> mayLack member) ->
        shape.finish (draftOf names) = .ok value)
    (h : Rearranges mayLack members entries) (layout : Layout) :
    (Reader.record shape).Takes (layout.object (writtenMembers entries)) value := by
  rcases h.within with ⟨ordered, hperm, hsublist⟩
  have hnames : ((writtenMembers entries).map Prod.fst).Nodup := by
    rw [writtenMembers, List.map_map]
    exact ((hperm.map _).nodup_iff).mp (hnodup.sublist (hsublist.map _))
  have hfitting : forall entry, entry ∈ writtenMembers entries ->
      Fits shape.fields draftOf entry := by
    intro entry hentry
    rcases List.mem_map.mp hentry with ⟨member, hmember, rfl⟩
    exact hfits member (hsublist.subset (hperm.mem_iff.mpr hmember))
  rcases Fits.fills hfitting hnames [] (fun _ _ => List.not_mem_nil) with ⟨read, hfills, hread⟩
  rw [hempty] at hfills
  refine hfills.takes_record (hfinish read ?_)
  intro member hmember hmissing
  refine h.lacking member hmember ?_
  intro hentry
  refine hmissing ((hread member.1).mpr (Or.inr ?_))
  rw [writtenMembers, List.map_map]
  exact List.mem_map_of_mem hentry

/-- A record is read back when its members fit and one of them may not be missing. -/
theorem readsBack_of_fits (hempty : draftOf [] = shape.empty)
    (hfits : forall member, member ∈ members ->
      Fits shape.fields draftOf (member.1, encode (scalarText member.2)))
    (hnodup : (members.map Prod.fst).Nodup)
    (hscalar : forall member, member ∈ members -> member.2.IsScalar)
    (hneeded : exists member, member ∈ members ∧ ¬ mayLack member)
    (hfinish : forall names,
      (forall member, member ∈ members -> member.1 ∉ names -> mayLack member) ->
        shape.finish (draftOf names) = .ok value) :
    ReadsBack (Reader.record shape) mayLack (.object members) value := by
  have hread : forall entries, Rearranges mayLack members entries ->
      readText (Reader.record shape) (Value.object entries).compact = .ok value ∧
      readText (Reader.record shape) (Value.object entries).pretty = .ok value ∧
      forall layout : Layout,
        readBytes (Reader.record shape) (layout.object (writtenMembers entries)) = .ok value := by
    intro entries hentries
    have htakes := takes_rearranged hempty hfits hnodup hfinish hentries
    have hne : entries ≠ [] := by
      rintro rfl
      rcases hneeded with ⟨member, hmember, hkept⟩
      exact hkept (hentries.lacking member hmember List.not_mem_nil)
    rcases readText_object hne
      (fun entry hentry => hscalar entry (hentries.within.subset hentry)) htakes with
      ⟨hcompact, hpretty⟩
    exact ⟨hcompact, hpretty, fun layout => readBytes_of_takes (htakes layout)⟩
  rcases hread members (Rearranges.refl members) with ⟨hcompact, hpretty, _⟩
  refine ⟨hcompact, hpretty, ?_⟩
  rintro _ entries ⟨⟩ hentries
  exact hread entries hentries

end

/-!
## Job records
-/

theorem mem_instantMember {name : String} {t : Option Instant} {member : String × Value} :
    member ∈ instantMember name t ↔ exists t', t = some t' ∧ member = (name, instantValue t') := by
  cases t <;> simp [instantMember]

theorem JobRecord.mem_textMember {name : String} {text : Option String}
    {member : String × Value} :
    member ∈ textMember name text ↔
      exists text', text = some text' ∧ member = (name, .text text') := by
  cases text <;> simp [textMember]

namespace JobRecord

def members (record : JobRecord) : List (String × Value) :=
  [("name", .text record.name), ("finished", .bool record.finished),
    ("notified", .bool record.notified)] ++
  instantMember "nextRun" record.nextRun ++
  instantMember "validFrom" record.validFrom ++
  [("errorRuns", .natural record.errorRuns), ("lastStatus", .text record.lastStatus.name)] ++
  textMember "lastMessage" record.lastMessage

/-- A member that holds a default: a record with nothing but a name has it, too. -/
def Defaulted (member : String × Value) : Prop :=
  member.1 ≠ "name" ∧ member ∈ ({ name := "" } : JobRecord).members

/-- The draft of a record after the members of some names were read. -/
def draftOf (record : JobRecord) (names : List String) : Draft where
  name := if "name" ∈ names then some record.name else none
  finished := if "finished" ∈ names then some record.finished else none
  notified := if "notified" ∈ names then some record.notified else none
  nextRun := if "nextRun" ∈ names then some record.nextRun else none
  validFrom := if "validFrom" ∈ names then some record.validFrom else none
  errorRuns := if "errorRuns" ∈ names then some record.errorRuns else none
  lastStatus := if "lastStatus" ∈ names then some record.lastStatus else none
  lastMessage := if "lastMessage" ∈ names then some record.lastMessage else none

theorem lookup_byName (status : DriveStatus) :
    DriveStatus.byName.lookup status.name = some status := by
  cases status <;> rfl

theorem forall_members {record : JobRecord} {holds : String × Value -> Prop} :
    (forall member, member ∈ record.members -> holds member) ↔
      holds ("name", .text record.name) ∧ holds ("finished", .bool record.finished) ∧
      holds ("notified", .bool record.notified) ∧
      (forall t, record.nextRun = some t -> holds ("nextRun", instantValue t)) ∧
      (forall t, record.validFrom = some t -> holds ("validFrom", instantValue t)) ∧
      holds ("errorRuns", .natural record.errorRuns) ∧
      holds ("lastStatus", .text record.lastStatus.name) ∧
      (forall text, record.lastMessage = some text -> holds ("lastMessage", .text text)) := by
  have hpresent : forall {α : Type} {part : Option α} {entry : α -> String × Value},
      (forall member, (exists value, part = some value ∧ member = entry value) -> holds member) ↔
        forall value, part = some value -> holds (entry value) := by
    intro α part entry
    constructor
    · intro h value hpart
      exact h _ ⟨value, hpart, rfl⟩
    · rintro h member ⟨value, hpart, rfl⟩
      exact h value hpart
  simp only [members, List.forall_mem_append, List.forall_mem_cons, List.not_mem_nil,
    mem_instantMember, mem_textMember, hpresent, false_imp_iff, implies_true, and_true, and_assoc]

theorem names_nodup (record : JobRecord) : (record.members.map Prod.fst).Nodup := by
  rcases record with ⟨name, finished, notified, nextRun, validFrom, errorRuns, status, message⟩
  cases nextRun <;> cases validFrom <;> cases message <;>
    simp [members, instantMember, textMember]

theorem scalar_members (record : JobRecord) :
    forall member, member ∈ record.members -> member.2.IsScalar := by
  have htext : forall text : String, (Value.text text).IsScalar := fun text => ⟨rfl, fun _ => rfl⟩
  have hbool : forall b : Bool, (Value.bool b).IsScalar := fun b => ⟨rfl, fun _ => rfl⟩
  have hnatural : forall n : Nat, (Value.natural n).IsScalar := fun n => ⟨rfl, fun _ => rfl⟩
  exact forall_members.mpr ⟨htext _, hbool _, hbool _, fun t _ => htext _, fun t _ => htext _,
    hnatural _, htext _, fun text _ => htext _⟩

theorem fits_members (record : JobRecord) :
    forall member, member ∈ record.members ->
      Fits fields record.draftOf (member.1, encode (scalarText member.2)) := by
  refine forall_members.mpr ⟨?_, ?_, ?_, ?_, ?_, ?_, ?_, ?_⟩
  · exact fits_plain rfl (Reader.takes_text _) (by simp +contextual [draftOf]) (by simp [draftOf])
  · exact fits_plain rfl (Reader.takes_bool _) (by simp +contextual [draftOf]) (by simp [draftOf])
  · exact fits_plain rfl (Reader.takes_bool _) (by simp +contextual [draftOf]) (by simp [draftOf])
  · intro t ht
    exact fits_plain rfl (Reader.takes_optional_literal (Reader.takes_instant t))
      (by simp +contextual [draftOf]) (by simp [draftOf, ht])
  · intro t ht
    exact fits_plain rfl (Reader.takes_optional_literal (Reader.takes_instant t))
      (by simp +contextual [draftOf]) (by simp [draftOf, ht])
  · exact fits_plain rfl (Reader.takes_natural "u32" (Fin.is_le record.errorRuns) (by decide))
      (by simp +contextual [draftOf]) (by simp [draftOf])
  · exact fits_plain rfl (Reader.takes_variant (lookup_byName _))
      (by simp +contextual [draftOf]) (by simp [draftOf])
  · intro text htext
    exact fits_plain rfl (Reader.takes_optional_literal (Reader.takes_text text))
      (by simp +contextual [draftOf]) (by simp [draftOf, htext])

theorem defaulted_iff {member : String × Value} :
    Defaulted member ↔
      member = ("finished", .bool false) ∨ member = ("notified", .bool false) ∨
        member = ("errorRuns", .natural 0) ∨ member = ("lastStatus", .text "ok") := by
  simp only [Defaulted, members, instantMember, textMember, List.append_nil, List.cons_append,
    List.nil_append, List.mem_cons, List.not_mem_nil, or_false]
  constructor
  · rintro ⟨hname, rfl | hmember⟩
    · exact absurd rfl hname
    · exact hmember
  · rintro (rfl | rfl | rfl | rfl) <;> simp [DriveStatus.name]

theorem ofDraft_draftOf (record : JobRecord) (names : List String)
    (h : forall member, member ∈ record.members -> member.1 ∉ names -> Defaulted member) :
    ofDraft (record.draftOf names) = .ok record := by
  rcases forall_members.mp h with
    ⟨hname, hfinished, hnotified, hnext, hvalid, hruns, hstatus, hmessage⟩
  have hgetD : forall {α : Type} {name : String} {value fallback : α},
      (name ∉ names -> value = fallback) ->
        (if name ∈ names then some value else none).getD fallback = value := by
    intro α name value fallback hvalue
    by_cases hmem : name ∈ names
    · rw [if_pos hmem, Option.getD_some]
    · rw [if_neg hmem, Option.getD_none, hvalue hmem]
  -- An absent time or message is no member, so only members that are there need be read.
  have hpart : forall {α : Type} {name : String} {part : Option α} {value : α -> Value},
      (forall a, part = some a -> name ∉ names -> Defaulted (name, value a)) ->
      (forall a, ¬ Defaulted (name, value a)) -> name ∉ names -> part = none := by
    intro α name part value hread hkept hmissing
    cases part with
    | none => rfl
    | some a => exact absurd (hread a rfl hmissing) (hkept a)
  have hnamed : "name" ∈ names := by
    by_contra hmissing
    exact (hname hmissing).1 rfl
  simp only [ofDraft, draftOf, if_pos hnamed, Except.ok.injEq]
  rw [hgetD fun hmissing => by simpa [defaulted_iff] using hfinished hmissing,
    hgetD fun hmissing => by simpa [defaulted_iff] using hnotified hmissing,
    hgetD (hpart hnext (by simp [defaulted_iff])),
    hgetD (hpart hvalid (by simp [defaulted_iff])),
    hgetD fun hmissing => by simpa [defaulted_iff] using hruns hmissing, Fin.ofNat_val_eq_self,
    hgetD fun hmissing => by
      have hok := hstatus hmissing
      revert hok
      cases record.lastStatus <;> simp [defaulted_iff, DriveStatus.name],
    hgetD (hpart hmessage (by simp [defaulted_iff]))]

theorem readsBack (record : JobRecord) : ReadsBack reader Defaulted record.toJson record :=
  readsBack_of_fits rfl record.fits_members record.names_nodup record.scalar_members
    ⟨("name", .text record.name), List.mem_cons_self, fun h => h.1 rfl⟩ record.ofDraft_draftOf

theorem read_pretty (record : JobRecord) :
    readText reader record.toJson.pretty = .ok record :=
  record.readsBack.pretty

end JobRecord

/-!
## Credentials
-/

namespace Credential

def draftOf (credential : Credential) (names : List String) : Draft where
  validFrom := if "validFrom" ∈ names then some credential.validFrom else none
  expires := if "expires" ∈ names then some credential.expires else none

def members (credential : Credential) : List (String × Value) :=
  [("validFrom", instantValue credential.validFrom), ("expires", instantValue credential.expires)]

theorem fits_members (credential : Credential) :
    forall member, member ∈ credential.members ->
      Fits shape.fields credential.draftOf (member.1, encode (scalarText member.2)) := by
  refine List.forall_mem_cons.mpr ⟨?_, List.forall_mem_singleton.mpr ?_⟩
  · exact fits_plain rfl (Reader.takes_instant _) (by simp +contextual [draftOf])
      (by simp [draftOf])
  · exact fits_plain rfl (Reader.takes_instant _) (by simp +contextual [draftOf])
      (by simp [draftOf])

theorem finish_draftOf (credential : Credential) (names : List String)
    (h : forall member, member ∈ credential.members -> member.1 ∉ names -> False) :
    shape.finish (credential.draftOf names) = .ok credential := by
  rcases List.forall_mem_cons.mp h with ⟨hvalid, hrest⟩
  have hexpires := List.forall_mem_singleton.mp hrest
  simp [shape, draftOf, not_not.mp hvalid, not_not.mp hexpires]

theorem readsBack (credential : Credential) :
    ReadsBack reader (fun _ => False) credential.toJson credential := by
  have hscalar : forall member, member ∈ credential.members -> member.2.IsScalar :=
    List.forall_mem_cons.mpr ⟨⟨rfl, fun _ => rfl⟩,
      List.forall_mem_singleton.mpr ⟨rfl, fun _ => rfl⟩⟩
  exact readsBack_of_fits rfl credential.fits_members (by simp) hscalar
    ⟨_, List.mem_cons_self, not_false⟩ credential.finish_draftOf

theorem read_pretty (credential : Credential) :
    readText reader credential.toJson.pretty = .ok credential :=
  credential.readsBack.pretty

end Credential

/-- Job records and credentials survive their text form. -/
theorem records_read_back :
    (forall record : JobRecord,
      ReadsBack JobRecord.reader JobRecord.Defaulted record.toJson record) ∧
    forall credential : Credential,
      ReadsBack Credential.reader (fun _ => False) credential.toJson credential :=
  ⟨JobRecord.readsBack, Credential.readsBack⟩

theorem record_read_back_reordered :
    readText JobRecord.reader
      (Value.object [("lastMessage", .text "\n"), ("finished", .bool true),
        ("name", .text "a")]).compact =
      .ok { name := "a", finished := true, lastMessage := some "\n" } := by
  let record : JobRecord := { name := "a", finished := true, lastMessage := some "\n" }
  let ordered : List (String × Value) :=
    [("name", .text "a"), ("finished", .bool true), ("lastMessage", .text "\n")]
  have hrearranges : Rearranges JobRecord.Defaulted record.members ordered.reverse := by
    constructor
    · refine ⟨ordered, (List.reverse_perm ordered).symm, ?_⟩
      simp [ordered, record, JobRecord.members, instantMember, JobRecord.textMember]
    · refine JobRecord.forall_members.mpr ?_
      simp [ordered, record, JobRecord.defaulted_iff, DriveStatus.name]
  have hread := records_read_back.1 record
  exact (hread.rearranged record.members ordered.reverse rfl hrearranges).1

end RenewalDrive
