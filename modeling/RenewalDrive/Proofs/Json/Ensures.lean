import Mathlib.Tactic.SplitIfs
import RenewalDrive.Json.Record

/-!
# What holds of all that is read

A reader ensures a condition when every value that it yields meets the condition, whatever text
it was given. For a record that is a condition on its drafts, which the empty draft meets and
which no field breaks.
-/

namespace RenewalDrive

namespace Json

namespace Reader

variable {α β δ : Type}

/-- Every value that a reader yields meets a condition. -/
def Ensures (r : Reader α) (holds : α -> Prop) : Prop :=
  forall (c : Cursor) (a : α) (c' : Cursor), r.run c = .ok (a, c') -> holds a

def OfContent (holds : α -> Prop) (content : Except Cause α) : Prop :=
  forall a, content = .ok a -> holds a

section

variable {r : Reader α} {f : α -> Reader β} {holds : α -> Prop} {meets : β -> Prop}

theorem ensures_any (r : Reader α) : r.Ensures fun _ => True :=
  fun _ _ _ _ => trivial

theorem Ensures.mono {weaker : α -> Prop} (h : r.Ensures holds)
    (himp : forall a, holds a -> weaker a) : r.Ensures weaker :=
  fun c a c' hrun => himp a (h c a c' hrun)

theorem ensures_pure {a : α} (h : holds a) : (pure a : Reader α).Ensures holds := by
  intro c b c' hrun
  cases hrun
  exact h

theorem Ensures.bind (hr : r.Ensures holds) (hf : forall a, holds a -> (f a).Ensures meets) :
    (r >>= f).Ensures meets := by
  intro c b c' hrun
  rw [run_bind] at hrun
  split at hrun
  next a mid hfirst =>
    exact hf a (hr c a mid hfirst) mid b c' hrun
  next =>
    cases hrun

theorem ensures_bind (hf : forall a, (f a).Ensures meets) : (r >>= f).Ensures meets :=
  (ensures_any r).bind fun a _ => hf a

/-! ## Readers that stop -/

theorem ensures_stop {cause : Cause} : (stop cause : Reader α).Ensures holds :=
  fun _ _ _ hrun => nomatch hrun

theorem ensures_stopAtNext {cause : Cause} : (stopAtNext cause : Reader α).Ensures holds :=
  fun _ _ _ hrun => nomatch hrun

theorem ensures_stopAs {reason : Stop} : (stopAs reason : Reader α).Ensures holds :=
  fun _ _ _ hrun => nomatch hrun

theorem ensures_otherKind {wanted : String} : (otherKind wanted : Reader α).Ensures holds := by
  unfold otherKind
  refine ensures_bind fun b => ?_
  split
  · exact ensures_stopAtNext
  · split_ifs
    · exact ensures_bind fun _ => ensures_bind fun _ => ensures_stop
    · exact ensures_bind fun _ => ensures_bind fun _ => ensures_stop
    · exact ensures_bind fun _ => ensures_bind fun _ => ensures_stop
    · exact ensures_bind fun _ => ensures_stop
    · exact ensures_bind fun _ => ensures_bind fun _ => ensures_stop
    · exact ensures_stop
    · exact ensures_stop
    · exact ensures_stopAtNext

/-! ## Scalars -/

theorem ensures_natural (limit : Nat) (wanted : String) :
    (natural limit wanted).Ensures fun n => n ≤ limit := by
  refine ensures_bind fun b => ?_
  split_ifs
  · refine ensures_bind fun value => ?_
    split
    · split_ifs with hlimit
      · exact ensures_pure hlimit
      · exact ensures_stop
    · exact ensures_stop
    · exact ensures_stop
  · exact ensures_otherKind

theorem Ensures.optional (h : r.Ensures holds) :
    r.optional.Ensures fun value => forall a, value = some a -> holds a := by
  refine ensures_bind fun token => ?_
  split_ifs
  · refine ensures_bind fun _ => ensures_bind fun _ => ensures_pure ?_
    rintro a ⟨⟩
  · refine h.bind fun a ha => ensures_pure ?_
    rintro _ ⟨⟩
    exact ha

/-! ## Lists -/

theorem Ensures.behindComma (h : r.Ensures holds) : (behindComma r).Ensures holds := by
  refine ensures_bind fun token => ?_
  split
  · exact ensures_stopAtNext
  · split_ifs
    · exact ensures_stopAtNext
    · exact h

theorem Ensures.of_moreElements (hr : r.Ensures holds) {c c' : Cursor} {as : List α}
    (h : moreElements r c = .ok (as, c')) : forall a, a ∈ as -> holds a := by
  unfold moreElements at h
  split at h
  · cases h
  next token hs =>
    have hle := peekToken.run_le hs
    split at h
    · cases h
    next b rest ht =>
      split_ifs at h
      · cases h
        exact List.forall_mem_nil _
      · split at h
        · cases h
        next first mid hfirst =>
          have hmid := (Reader.behindComma r).run_le hfirst
          simp only [ht, List.length_cons] at hle
          have hlt : mid.rest.length < c.rest.length := Nat.lt_of_le_of_lt hmid hle
          dsimp only at h
          split at h
          · cases h
          next hmore =>
            cases h
            exact List.forall_mem_cons.mpr ⟨hr.behindComma _ _ _ hfirst, hr.of_moreElements hmore⟩
termination_by c.rest.length

theorem ensures_ending {content : Except Cause α} {close : Reader (Option Stop)} :
    (ending content close).Ensures fun a => content = .ok a := by
  refine ensures_bind fun missing => ?_
  split
  · exact ensures_stop
  · exact ensures_stopAs
  · exact ensures_pure rfl

theorem Ensures.list (h : r.Ensures holds) :
    r.list.Ensures fun as => forall a, a ∈ as -> holds a := by
  have helements : (elements r).Ensures fun as => forall a, a ∈ as -> holds a := by
    refine ensures_bind fun token => ?_
    split
    · exact ensures_stopAtNext
    · split_ifs
      · exact ensures_pure (List.forall_mem_nil _)
      · refine h.bind fun first hfirst => ?_
        have hrest : (elements.rest r).Ensures fun as => forall a, a ∈ as -> holds a :=
          fun _ _ _ hrun => h.of_moreElements hrun
        exact hrest.bind fun more hmore =>
          ensures_pure (List.forall_mem_cons.mpr ⟨hfirst, hmore⟩)
  refine ensures_bind fun b => ?_
  split_ifs
  · refine ensures_bind fun _ => helements.bind fun as has => ensures_ending.mono ?_
    rintro _ ⟨⟩
    exact has
  · exact ensures_otherKind

end

/-!
## Records
-/

section

variable {fields : List (Field δ)} {draft : δ} {holds : δ -> Prop}

def Keeps (field : Field δ) (holds : δ -> Prop) : Prop :=
  forall draft, holds draft -> (field.read draft).Ensures (OfContent holds)

theorem keeps_plain {name : String} {isOptional : Bool} {part : δ -> Option α} {put : δ -> α -> δ}
    {r : Reader α} {value : α -> Prop} (hr : r.Ensures value)
    (hput : forall draft a, holds draft -> value a -> holds (put draft a)) :
    Keeps (Field.plain name isOptional part put r) holds := by
  intro draft hdraft
  refine hr.bind fun a ha => ensures_pure ?_
  rintro _ ⟨⟩
  exact hput draft a hdraft ha

theorem ensures_listedFields {title : String} {done : Nat}
    (hfields : forall field, field ∈ fields -> Keeps field holds) (hdraft : holds draft) :
    (listedFields title done fields draft).Ensures (OfContent holds) := by
  induction fields generalizing done draft with
  | nil =>
      refine ensures_pure ?_
      rintro _ ⟨⟩
      exact hdraft
  | cons field rest ih =>
      rcases List.forall_mem_cons.mp hfields with ⟨hfield, hrest⟩
      refine ensures_bind fun more => ?_
      split_ifs
      · refine (hfield draft hdraft).bind fun content hcontent => ?_
        split
        · exact ih hrest (hcontent _ rfl)
        · exact ensures_pure fun _ h => nomatch h
      · exact ih hrest hdraft
      · exact ensures_pure fun _ h => nomatch h

theorem ensures_member (hfields : forall field, field ∈ fields -> Keeps field holds)
    (hdraft : holds draft) : (member fields draft).Ensures (OfContent holds) := by
  refine ensures_bind fun name => ?_
  split
  next field hfound =>
    split_ifs
    · exact ensures_pure fun _ h => nomatch h
    · exact ensures_bind fun _ => hfields field (List.mem_of_find?_eq_some hfound) draft hdraft
  · refine ensures_bind fun _ => ensures_bind fun _ => ensures_pure ?_
    rintro _ ⟨⟩
    exact hdraft

theorem ensures_memberBehindComma (hfields : forall field, field ∈ fields -> Keeps field holds)
    (hdraft : holds draft) : (memberBehindComma fields draft).Ensures (OfContent holds) := by
  refine ensures_bind fun token => ?_
  split
  · exact ensures_stopAtNext
  · split_ifs
    · exact ensures_bind fun _ => ensures_member hfields hdraft
    · exact ensures_stopAtNext
    · exact ensures_stopAtNext

theorem ofContent_of_moreMembers (hfields : forall field, field ∈ fields -> Keeps field holds)
    {draft : δ} (hdraft : holds draft) {c c' : Cursor} {content : Except Cause δ}
    (h : moreMembers fields draft c = .ok (content, c')) : OfContent holds content := by
  unfold moreMembers at h
  split at h
  · cases h
  next token hs =>
    have hle := peekToken.run_le hs
    split at h
    · cases h
    next b rest ht =>
      split_ifs at h
      · cases h
        rintro _ ⟨⟩
        exact hdraft
      · simp only [ht, List.length_cons] at hle
        split at h
        · cases h
        · cases h
          rintro _ ⟨⟩
        next next mid hmember =>
          have hmid := (memberBehindComma fields draft).run_le hmember
          have hlt : mid.rest.length < c.rest.length := Nat.lt_of_le_of_lt hmid hle
          have hnext : holds next := ensures_memberBehindComma hfields hdraft _ _ _ hmember _ rfl
          exact ofContent_of_moreMembers hfields hnext h
termination_by c.rest.length

/-- A record is made of a draft that meets every condition which its fields do not break. -/
theorem ensures_record {shape : Shape δ α} (hempty : holds shape.empty)
    (hfields : forall field, field ∈ shape.fields -> Keeps field holds) :
    (record shape).Ensures fun a => exists draft, holds draft ∧ shape.finish draft = .ok a := by
  have hmembers : (members shape.fields shape.empty).Ensures (OfContent holds) := by
    refine ensures_bind fun token => ?_
    split
    · exact ensures_stopAtNext
    · split_ifs
      · refine ensures_pure ?_
        rintro _ ⟨⟩
        exact hempty
      · refine ensures_bind fun _ => (ensures_member hfields hempty).bind fun content hcontent => ?_
        split
        · exact ensures_pure fun _ h => nomatch h
        · exact fun _ _ _ hrun => ofContent_of_moreMembers hfields (hcontent _ rfl) hrun
      · exact ensures_stopAtNext
  have hfinish : forall (content : Except Cause δ) (close : Reader (Option Stop)),
      OfContent holds content ->
        (ending (content >>= shape.finish) close).Ensures fun a =>
          exists draft, holds draft ∧ shape.finish draft = .ok a := by
    intro content close hcontent
    refine ensures_ending.mono ?_
    intro a ha
    cases content with
    | error cause => cases ha
    | ok draft => exact ⟨draft, hcontent draft rfl, ha⟩
  refine ensures_bind fun b => ?_
  split_ifs
  · exact ensures_bind fun _ => (ensures_listedFields hfields hempty).bind fun content hcontent =>
      hfinish content closeList hcontent
  · exact ensures_bind fun _ => hmembers.bind fun content hcontent =>
      hfinish content closeObject hcontent
  · exact ensures_otherKind

end

end Reader

theorem Reader.Ensures.of_readText {α : Type} {r : Reader α} {holds : α -> Prop} {text : String}
    {a : α} (hr : r.Ensures holds) (h : readText r text = .ok a) : holds a := by
  unfold readText readBytes at h
  dsimp only at h
  split at h
  next value cursor hrun =>
    cases h
    refine (hr.bind fun a ha => ensures_bind fun token => ?_) _ _ _ hrun
    split
    · exact ensures_pure ha
    · exact ensures_stopAtNext
  next =>
    cases h

end Json
end RenewalDrive
