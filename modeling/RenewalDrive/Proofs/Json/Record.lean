import RenewalDrive.Proofs.Json.Scalar

/-!
# Objects are read back as records

An object is written member by member in a layout, which is its white space. When its members
fill a draft one after the other and the draft is complete, the object is read as the record
of that draft, in every layout.
-/

namespace RenewalDrive

namespace Json

open Text Reader

/-!
## Layouts
-/

structure Layout where
  beforeKey : List UInt8
  behindColon : List UInt8
  beforeEnd : List UInt8
  spacing_beforeKey : Spacing beforeKey
  spacing_behindColon : Spacing behindColon
  spacing_beforeEnd : Spacing beforeEnd

namespace Layout

def member (layout : Layout) (entry : String × List UInt8) : List UInt8 :=
  layout.beforeKey ++ literalBytes entry.1 ++ 0x3A :: (layout.behindColon ++ entry.2)

def behindQuote (layout : Layout) (entry : String × List UInt8) : List UInt8 :=
  encode (entry.1.toList.flatMap escaped) ++ [0x22] ++ 0x3A :: (layout.behindColon ++ entry.2)

theorem member_eq (layout : Layout) (entry : String × List UInt8) :
    layout.member entry = layout.beforeKey ++ 0x22 :: layout.behindQuote entry := by
  rw [member, literalBytes_eq, List.append_assoc]
  rfl

def moreMembers (layout : Layout) (entries : List (String × List UInt8)) : List UInt8 :=
  entries.flatMap fun entry => 0x2C :: layout.member entry

def members (layout : Layout) : List (String × List UInt8) -> List UInt8
  | [] => []
  | entry :: rest => layout.member entry ++ layout.moreMembers rest

def object (layout : Layout) (entries : List (String × List UInt8)) : List UInt8 :=
  0x7B :: (layout.members entries ++ layout.beforeEnd ++ [0x7D])

theorem spacing_newLine (level : Nat) : Spacing (encode (newLine level)) := by
  have hascii : forall c, c ∈ newLine level -> c = '\n' ∨ c = ' ' := by
    intro c hc
    rcases List.mem_cons.mp hc with rfl | hc
    · exact .inl rfl
    · exact .inr (List.eq_of_mem_replicate hc)
  intro byte hbyte
  rcases List.mem_flatMap.mp hbyte with ⟨c, hc, hmem⟩
  rcases hascii c hc with rfl | rfl
  · rw [List.mem_singleton.mp hmem]
    rfl
  · rw [List.mem_singleton.mp hmem]
    rfl

def pretty (level : Nat) : Layout where
  beforeKey := encode (newLine (level + 1))
  behindColon := [0x20]
  beforeEnd := encode (newLine level)
  spacing_beforeKey := spacing_newLine (level + 1)
  spacing_behindColon := by
    intro byte h
    rw [List.mem_singleton.mp h]
    rfl
  spacing_beforeEnd := spacing_newLine level

theorem encode_prettyMembers (level : Nat) (entries : List (String × Value)) :
    encode (prettyMembers (level + 1) entries) =
      (pretty level).members
        (entries.map fun entry => (entry.1, encode (prettyText (level + 1) entry.2))) := by
  have hmember : forall (name : String) (value : Value),
      encode (newLine (level + 1) ++ literalText name ++ ':' :: ' ' ::
        prettyText (level + 1) value) =
        (pretty level).member (name, encode (prettyText (level + 1) value)) := by
    intro name value
    rw [encode_append, encode_append]
    rfl
  induction entries with
  | nil => rfl
  | cons entry rest ih =>
      rcases entry with ⟨name, value⟩
      cases rest with
      | nil =>
          rw [prettyMembers, hmember]
          exact (List.append_nil _).symm
      | cons next rest =>
          rw [prettyMembers, encode_append, hmember, encode_cons, ih]
          · rfl
          · exact fun h => nomatch h

theorem encode_pretty (level : Nat) {entries : List (String × Value)} (h : entries ≠ []) :
    encode (prettyText level (.object entries)) =
      (pretty level).object
        (entries.map fun entry => (entry.1, encode (prettyText (level + 1) entry.2))) := by
  rw [prettyText, if_neg (by simpa using h)]
  simp only [encode_append, encode_cons, encode_prettyMembers, List.append_assoc]
  simp only [object, List.append_assoc]
  rfl

def compact : Layout where
  beforeKey := []
  behindColon := []
  beforeEnd := []
  spacing_beforeKey := Spacing.nil
  spacing_behindColon := Spacing.nil
  spacing_beforeEnd := Spacing.nil

theorem encode_compactMembers (entries : List (String × Value)) :
    encode (compactMembers entries) =
      compact.members (entries.map fun entry => (entry.1, encode (compactText entry.2))) := by
  have hmember : forall (name : String) (value : Value),
      encode (literalText name ++ ':' :: compactText value) =
        compact.member (name, encode (compactText value)) := by
    intro name value
    rw [encode_append]
    rfl
  induction entries with
  | nil => rfl
  | cons entry rest ih =>
      rcases entry with ⟨name, value⟩
      cases rest with
      | nil =>
          rw [compactMembers, hmember]
          exact (List.append_nil _).symm
      | cons next rest =>
          rw [compactMembers, encode_append, hmember, encode_cons, ih]
          · rfl
          · exact fun h => nomatch h

theorem encode_compact (entries : List (String × Value)) :
    encode (compactText (.object entries)) =
      compact.object (entries.map fun entry => (entry.1, encode (compactText entry.2))) := by
  rw [compactText, encode_append, encode_cons, encode_compactMembers, object]
  simp only [compact, List.append_nil]
  rfl

end Layout

/-!
## Members and drafts
-/

variable {δ α : Type} {fields : List (Field δ)}

/-- Members fill a draft one after the other: each one is the first field of its name, the
draft does not have it yet, and its text is taken into the draft. -/
inductive Fills (fields : List (Field δ)) : δ -> List (String × List UInt8) -> δ -> Prop
  | nil (draft : δ) : Fills fields draft [] draft
  | cons {field : Field δ} {draft mid final : δ} {name : String} {text : List UInt8}
      {entries : List (String × List UInt8)}
      (found : fields.find? (fun field => field.name = name) = some field)
      (missing : field.isFilled draft = false)
      (taken : (field.read draft).Takes text (.ok mid))
      (rest : Fills fields mid entries final) :
      Fills fields draft ((name, text) :: entries) final

theorem takes_plain {name : String} {isOptional : Bool} {part : δ -> Option α} {put : δ -> α -> δ}
    {r : Reader α} {text : List UInt8} {value : α} (h : r.Takes text value) (draft : δ) :
    ((Field.plain name isOptional part put r).read draft).Takes text (.ok (put draft value)) :=
  h.then rfl

/-!
## Members in any order

When the draft depends on the names alone that were read, members may come in any order.
-/

/-- A member is read into the draft of some names, and yields the draft of one name more. -/
def Fits (fields : List (Field δ)) (draftOf : List String -> δ) (entry : String × List UInt8) :
    Prop :=
  exists field, fields.find? (fun field => field.name = entry.1) = some field ∧
    forall names, (entry.1 ∉ names -> field.isFilled (draftOf names) = false) ∧
      (field.read (draftOf names)).Takes entry.2 (.ok (draftOf (entry.1 :: names)))

theorem fits_plain {name : String} {isOptional : Bool} {part : δ -> Option α} {put : δ -> α -> δ}
    {r : Reader α} {text : List UInt8} {value : α} {draftOf : List String -> δ}
    (hfound : fields.find? (fun field => field.name = name) =
      some (Field.plain name isOptional part put r))
    (htaken : r.Takes text value)
    (hpart : forall names, name ∉ names -> part (draftOf names) = none)
    (hput : forall names, put (draftOf names) value = draftOf (name :: names)) :
    Fits fields draftOf (name, text) := by
  refine ⟨_, hfound, ?_⟩
  intro names
  constructor
  · intro hname
    show (part (draftOf names)).isSome = false
    rw [hpart names hname]
    rfl
  · rw [← hput]
    exact takes_plain htaken _

theorem Fits.fills {draftOf : List String -> δ} {entries : List (String × List UInt8)}
    (h : forall entry, entry ∈ entries -> Fits fields draftOf entry)
    (hnodup : (entries.map Prod.fst).Nodup) (names : List String)
    (hnew : forall entry, entry ∈ entries -> entry.1 ∉ names) :
    exists read, Fills fields (draftOf names) entries (draftOf read) ∧
      forall name, name ∈ read ↔ name ∈ names ∨ name ∈ entries.map Prod.fst := by
  induction entries generalizing names with
  | nil =>
      exact ⟨names, .nil _, by simp⟩
  | cons entry rest ih =>
      rcases entry with ⟨name, text⟩
      rcases List.forall_mem_cons.mp h with ⟨⟨field, hfound, hfield⟩, hrest⟩
      rcases List.forall_mem_cons.mp hnew with ⟨hname, hnewRest⟩
      rcases List.nodup_cons.mp hnodup with ⟨hother, hnodupRest⟩
      have hfresh : forall entry, entry ∈ rest -> entry.1 ∉ name :: names := by
        intro entry hentry hmem
        rcases List.mem_cons.mp hmem with heq | hmem
        · exact hother (List.mem_map.mpr ⟨entry, hentry, heq⟩)
        · exact hnewRest entry hentry hmem
      rcases ih hrest hnodupRest (name :: names) hfresh with ⟨read, hfills, hread⟩
      refine ⟨read, .cons hfound ((hfield names).1 hname) (hfield names).2 hfills, ?_⟩
      intro other
      rw [hread, List.mem_cons, List.map_cons, List.mem_cons]
      tauto

namespace Reader

variable {layout : Layout} {rest : List UInt8}

theorem reads_colon : colon.Reads [0x3A] () rest :=
  Reads.look (reads_peekToken Spacing.nil (NoSpaceAhead.cons (by decide))) (reads_drop 0x3A)

theorem reads_closeObject : closeObject.Reads [0x7D] none rest := by
  refine Reads.look (reads_peekToken Spacing.nil (NoSpaceAhead.cons (by decide))) ?_
  exact Reads.last (reads_drop 0x7D) (Reads.pure none)

theorem reads_member {field : Field δ} {draft mid : δ} {name : String} {text : List UInt8}
    (hfound : fields.find? (fun field => field.name = name) = some field)
    (hmissing : field.isFilled draft = false)
    (htaken : (field.read draft).Takes text (.ok mid)) (hrest : Delimited rest) :
    (member fields draft).Reads (layout.behindQuote (name, text)) (.ok mid) rest := by
  refine Reads.bind (reads_literal name) ?_
  simp only [hfound, hmissing, Bool.false_eq_true, if_false]
  refine Reads.step reads_colon ?_
  exact htaken.reads layout.spacing_behindColon hrest

theorem reads_memberBehindComma {field : Field δ} {draft mid : δ} {name : String}
    {text : List UInt8} (hfound : fields.find? (fun field => field.name = name) = some field)
    (hmissing : field.isFilled draft = false)
    (htaken : (field.read draft).Takes text (.ok mid)) (hrest : Delimited rest) :
    (memberBehindComma fields draft).Reads (layout.member (name, text)) (.ok mid) rest := by
  rw [Layout.member_eq]
  refine Reads.bind (reads_peekToken layout.spacing_beforeKey (NoSpaceAhead.cons (by decide))) ?_
  exact Reads.step (reads_drop 0x22) (reads_member hfound hmissing htaken hrest)

/-!
## Members and objects
-/

theorem reads_rest_end {space : List UInt8} (hspace : Spacing space) (draft : δ) :
    (members.rest fields draft).Reads space (.ok draft) (0x7D :: rest) := by
  intro offset
  have hbrace : NoSpaceAhead (0x7D :: rest) := NoSpaceAhead.cons (by decide)
  have hpeek := reads_peekToken hspace hbrace offset
  show moreMembers fields draft _ = _
  rw [moreMembers]
  split
  case h_1 stop hstop => cases hstop.symm.trans hpeek
  case h_2 token cursor hok =>
    cases hok.symm.trans hpeek
    rfl

theorem Reads.rest_next {draft mid : δ} {content : Except Cause δ} {text more : List UInt8}
    (hmember : (memberBehindComma fields draft).Reads text (.ok mid) (more ++ rest))
    (hmore : (members.rest fields mid).Reads more content rest) :
    (members.rest fields draft).Reads (0x2C :: (text ++ more)) content rest := by
  intro offset
  have hcomma : NoSpaceAhead (0x2C :: (text ++ more ++ rest)) := NoSpaceAhead.cons (by decide)
  have hpeek := reads_peekToken Spacing.nil hcomma offset
  have hfirst := hmember (offset + 1)
  have hnext := hmore (offset + 1 + text.length)
  change moreMembers fields mid ⟨more ++ rest, _⟩ = _ at hnext
  rw [← List.append_assoc] at hfirst
  show moreMembers fields draft ⟨0x2C :: (text ++ more ++ rest), offset⟩ = _
  rw [moreMembers]
  split
  case h_1 stop hstop => cases hstop.symm.trans hpeek
  case h_2 token cursor hok =>
    cases hok.symm.trans hpeek
    split
    case h_1 hnil => cases hnil
    case h_2 byte bytes hcons =>
      cases hcons
      simp only [show ¬ ((0x2C : UInt8) = 0x7D) by decide, if_false, if_true]
      split
      case h_1 stop hstop => cases hstop.symm.trans hfirst
      case h_2 cause cursor hok => cases hok.symm.trans hfirst
      case h_3 next cursor hok =>
        cases hok.symm.trans hfirst
        rw [hnext]
        simp only [List.length_cons, List.length_append]
        congr 3
        omega

theorem delimited_end (layout : Layout) {tail : List UInt8} {close : UInt8}
    (htail : forall byte, tail.head? = some byte -> byte = 0x2C)
    (hclose : close = 0x5D ∨ close = 0x7D) :
    Delimited (tail ++ layout.beforeEnd ++ close :: rest) := by
  intro byte hbyte
  cases tail with
  | cons first tail =>
      cases hbyte
      exact .inr (.inl (htail _ rfl))
  | nil =>
      cases hspace : layout.beforeEnd with
      | nil =>
          rw [hspace] at hbyte
          cases hbyte
          exact .inr (.inr hclose)
      | cons first space =>
          have hfirst := layout.spacing_beforeEnd first (by rw [hspace]; exact List.mem_cons_self)
          rw [hspace] at hbyte
          cases hbyte
          exact .inl hfirst

theorem delimited_moreMembers (layout : Layout) (entries : List (String × List UInt8)) :
    Delimited (layout.moreMembers entries ++ layout.beforeEnd ++ 0x7D :: rest) := by
  refine delimited_end layout ?_ (.inr rfl)
  intro byte hbyte
  cases entries with
  | nil => cases hbyte
  | cons entry entries =>
      cases hbyte
      rfl

end Reader

section

variable {layout : Layout} {rest : List UInt8} {draft final : δ}
variable {entries : List (String × List UInt8)}

theorem Fills.reads_rest (h : Fills fields draft entries final) :
    (members.rest fields draft).Reads (layout.moreMembers entries ++ layout.beforeEnd)
      (.ok final) (0x7D :: rest) := by
  induction h with
  | nil draft => exact reads_rest_end layout.spacing_beforeEnd draft
  | cons found missing taken _ ih =>
      rw [Layout.moreMembers, List.flatMap_cons, ← Layout.moreMembers, List.cons_append,
        List.cons_append, List.append_assoc]
      refine Reads.rest_next ?_ ih
      exact reads_memberBehindComma found missing taken (delimited_moreMembers layout _)

theorem Fills.reads_members (h : Fills fields draft entries final) :
    (members fields draft).Reads (layout.members entries ++ layout.beforeEnd) (.ok final)
      (0x7D :: rest) := by
  cases h with
  | nil =>
      exact Reads.last (reads_peekToken layout.spacing_beforeEnd (NoSpaceAhead.cons (by decide)))
        (Reads.pure _)
  | cons found missing taken fills =>
      rw [Layout.members, Layout.member_eq, List.append_assoc, List.append_assoc]
      refine Reads.bind
        (reads_peekToken layout.spacing_beforeKey (NoSpaceAhead.cons (by decide))) ?_
      refine Reads.step (reads_drop 0x22) ?_
      exact Reads.bind (reads_member found missing taken (delimited_moreMembers layout _))
        fills.reads_rest

theorem Fills.takes_record {shape : Shape δ α} {value : α}
    (h : Fills shape.fields shape.empty entries final) (hfinish : shape.finish final = .ok value) :
    (record shape).Takes (layout.object entries) value := by
  refine Takes.of_start (by decide) ?_
  intro rest hrest
  simp only [show ¬ ((0x7B : UInt8) = 0x5B) by decide, if_false, if_true]
  refine Reads.step (reads_drop 0x7B) ?_
  refine Reads.bind h.reads_members ?_
  show (ending (shape.finish final) closeObject).Reads _ _ _
  rw [hfinish]
  exact Reads.last reads_closeObject (Reads.pure value)

end

end Json
end RenewalDrive
