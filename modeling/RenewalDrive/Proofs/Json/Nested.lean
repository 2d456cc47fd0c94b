import RenewalDrive.Proofs.Json.Record

/-!
# Values within values are read back

Lists are written element by element in a layout, as objects are member by member, and are read
back when their elements are. `Reader.TakesValue` says of a reader that it takes both text forms
of a value, at every level of indentation; that passes from the parts of a value to the whole.
-/

namespace RenewalDrive

namespace Json

open Text Reader

/-!
## Lists in a layout
-/

namespace Layout

def moreElements (layout : Layout) (texts : List (List UInt8)) : List UInt8 :=
  texts.flatMap fun text => 0x2C :: (layout.beforeKey ++ text)

def elements (layout : Layout) : List (List UInt8) -> List UInt8
  | [] => []
  | text :: rest => layout.beforeKey ++ text ++ layout.moreElements rest

def list (layout : Layout) (texts : List (List UInt8)) : List UInt8 :=
  0x5B :: (layout.elements texts ++ layout.beforeEnd ++ [0x5D])

theorem encode_compactElements (values : List Value) :
    encode (compactElements values) =
      compact.elements (values.map fun value => encode (compactText value)) := by
  induction values with
  | nil => rfl
  | cons value rest ih =>
      cases rest with
      | nil => exact (List.append_nil _).symm
      | cons next rest =>
          rw [compactElements, encode_append, encode_cons, ih]
          · rfl
          · exact fun h => nomatch h

theorem encode_compact_list (values : List Value) :
    encode (compactText (.list values)) =
      compact.list (values.map fun value => encode (compactText value)) := by
  rw [compactText, encode_append, encode_cons, encode_compactElements, list]
  simp only [compact, List.append_nil]
  rfl

theorem encode_prettyElements (level : Nat) (values : List Value) :
    encode (prettyElements (level + 1) values) =
      (pretty level).elements (values.map fun value => encode (prettyText (level + 1) value)) := by
  induction values with
  | nil => rfl
  | cons value rest ih =>
      cases rest with
      | nil =>
          rw [prettyElements, encode_append]
          exact (List.append_nil _).symm
      | cons next rest =>
          rw [prettyElements, encode_append, encode_append, encode_cons, ih]
          · rfl
          · exact fun h => nomatch h

theorem encode_pretty_list (level : Nat) {values : List Value} (h : values ≠ []) :
    encode (prettyText level (.list values)) =
      (pretty level).list (values.map fun value => encode (prettyText (level + 1) value)) := by
  rw [prettyText, if_neg (by simpa using h)]
  simp only [encode_append, encode_cons, encode_prettyElements, list, List.append_assoc]
  rfl

end Layout

/-!
## Lists are read back
-/

namespace Reader

section

variable {α : Type} {r : Reader α} {a : α} {as : List α} {text more rest : List UInt8}

theorem reads_closeList : closeList.Reads [0x5D] none rest := by
  refine Reads.look (reads_peekToken Spacing.nil (NoSpaceAhead.cons (by decide))) ?_
  exact Reads.last (reads_drop 0x5D) (Reads.pure none)

theorem Takes.reads_look {β : Type} {f : Option UInt8 -> Reader β} {g : Reader β} {b : β}
    {space : List UInt8} (h : r.Takes text a) (hopen : text.head? ≠ some 0x5D)
    (hspace : Spacing space) (hf : forall byte, byte ≠ 0x5D -> f (some byte) = g)
    (hg : g.Reads (text ++ more) b rest) :
    (peekToken >>= f).Reads (space ++ (text ++ more)) b rest := by
  rcases h.begins with ⟨byte, tail, rfl, hbyte⟩
  refine Reads.bind (reads_peekToken hspace (NoSpaceAhead.cons hbyte)) ?_
  rw [List.cons_append, List.cons_append, List.head?_cons,
    hf byte fun heq => hopen (congrArg some heq)]
  exact hg

theorem reads_elements_end {space : List UInt8} (hspace : Spacing space) :
    (elements.rest r).Reads space [] (0x5D :: rest) := by
  intro offset
  have hbracket : NoSpaceAhead (0x5D :: rest) := NoSpaceAhead.cons (by decide)
  have hpeek := reads_peekToken hspace hbracket offset
  show moreElements r _ = _
  rw [moreElements]
  split
  case h_1 stop hstop => cases hstop.symm.trans hpeek
  case h_2 token cursor hok =>
    cases hok.symm.trans hpeek
    rfl

theorem Reads.elements_next (hfirst : (behindComma r).Reads text a (more ++ rest))
    (hmore : (elements.rest r).Reads more as rest) :
    (elements.rest r).Reads (0x2C :: (text ++ more)) (a :: as) rest := by
  intro offset
  have hcomma : NoSpaceAhead (0x2C :: (text ++ more ++ rest)) := NoSpaceAhead.cons (by decide)
  have hpeek := reads_peekToken Spacing.nil hcomma offset
  have hread := hfirst (offset + 1)
  have hnext := hmore (offset + 1 + text.length)
  change moreElements r ⟨more ++ rest, _⟩ = _ at hnext
  rw [← List.append_assoc] at hread
  show moreElements r ⟨0x2C :: (text ++ more ++ rest), offset⟩ = _
  rw [moreElements]
  split
  case h_1 stop hstop => cases hstop.symm.trans hpeek
  case h_2 token cursor hok =>
    cases hok.symm.trans hpeek
    split
    case h_1 hnil => cases hnil
    case h_2 byte bytes hcons =>
      cases hcons
      simp only [show ¬ ((0x2C : UInt8) = 0x5D) by decide, if_false, if_true]
      split
      case h_1 stop hstop => cases hstop.symm.trans hread
      case h_2 next cursor hok =>
        cases hok.symm.trans hread
        simp only [hnext, List.length_cons, List.length_append]
        congr 3
        omega

theorem delimited_moreElements (layout : Layout) (texts : List (List UInt8)) :
    Delimited (layout.moreElements texts ++ layout.beforeEnd ++ 0x5D :: rest) := by
  refine delimited_end layout ?_ (.inl rfl)
  intro byte hbyte
  cases texts with
  | nil => cases hbyte
  | cons text texts =>
      cases hbyte
      rfl

theorem takes_list (textOf : α -> List UInt8)
    (h : forall a, a ∈ as -> r.Takes (textOf a) a ∧ (textOf a).head? ≠ some 0x5D)
    (layout : Layout) : r.list.Takes (layout.list (as.map textOf)) as := by
  have hcomma : forall {a : α} {rest : List UInt8}, r.Takes (textOf a) a ->
      (textOf a).head? ≠ some 0x5D -> Delimited rest ->
        (behindComma r).Reads (layout.beforeKey ++ textOf a) a rest := by
    intro a rest htakes hopen hrest
    rw [← List.append_nil (textOf a)]
    refine htakes.reads_look hopen layout.spacing_beforeKey (fun _ hbyte => if_neg hbyte) ?_
    rw [List.append_nil]
    exact htakes.reads_bare hrest
  have hmore : forall {as : List α} {rest : List UInt8},
      (forall a, a ∈ as -> r.Takes (textOf a) a ∧ (textOf a).head? ≠ some 0x5D) ->
        (elements.rest r).Reads (layout.moreElements (as.map textOf) ++ layout.beforeEnd) as
          (0x5D :: rest) := by
    intro as rest has
    induction as with
    | nil => exact reads_elements_end layout.spacing_beforeEnd
    | cons a as ih =>
        rcases List.forall_mem_cons.mp has with ⟨⟨htakes, hopen⟩, hothers⟩
        rw [List.map_cons, Layout.moreElements, List.flatMap_cons, ← Layout.moreElements,
          List.cons_append, List.cons_append, List.append_assoc]
        exact Reads.elements_next (hcomma htakes hopen (delimited_moreElements layout _))
          (ih hothers)
  have helements : forall {rest : List UInt8}, (elements r).Reads
      (layout.elements (as.map textOf) ++ layout.beforeEnd) as (0x5D :: rest) := by
    intro rest
    cases as with
    | nil =>
        exact Reads.last (reads_peekToken layout.spacing_beforeEnd (NoSpaceAhead.cons (by decide)))
          (Reads.pure [])
    | cons a as =>
        rcases List.forall_mem_cons.mp h with ⟨⟨htakes, hopen⟩, hothers⟩
        rw [List.map_cons, Layout.elements, List.append_assoc, List.append_assoc]
        refine htakes.reads_look hopen layout.spacing_beforeKey (fun _ hbyte => if_neg hbyte) ?_
        exact Reads.bind (htakes.reads_bare (delimited_moreElements layout _))
          (Reads.last (hmore hothers) (Reads.pure _))
  refine Takes.of_start (by decide) ?_
  intro rest hrest
  simp only [if_true]
  refine Reads.step (reads_drop 0x5B) ?_
  refine Reads.bind helements ?_
  exact Reads.last reads_closeList (Reads.pure as)

end

/-!
## Values in both forms
-/

structure TakesValue {α : Type} (r : Reader α) (value : Value) (a : α) : Prop where
  compact : r.Takes (encode (compactText value)) a
  pretty : forall level, r.Takes (encode (prettyText level value)) a

theorem head?_scalarText (value : Value) :
    (encode (scalarText value)).head? ≠ some 0x5D := by
  cases value with
  | null => decide
  | bool value => cases value <;> decide
  | natural n =>
      rcases encode_numeral n with ⟨first, more, hbytes, hdigits, -, -⟩
      rw [scalarText, hbytes, List.head?_cons]
      rintro ⟨⟩
      exact absurd (hdigits 0x5D List.mem_cons_self) (by decide)
  | text text =>
      rw [scalarText, ← literalBytes, literalBytes_eq, List.head?_cons]
      decide
  | list _ => exact (Option.some_ne_none _).symm
  | object _ => exact (Option.some_ne_none _).symm

theorem head?_compactText (value : Value) : (encode (compactText value)).head? ≠ some 0x5D := by
  cases value with
  | list values =>
      rw [Layout.encode_compact_list, Layout.list, List.head?_cons]
      decide
  | object members =>
      rw [Layout.encode_compact, Layout.object, List.head?_cons]
      decide
  | null => exact head?_scalarText .null
  | bool value => exact head?_scalarText (.bool value)
  | natural value => exact head?_scalarText (.natural value)
  | text value => exact head?_scalarText (.text value)

theorem head?_prettyText (level : Nat) (value : Value) :
    (encode (prettyText level value)).head? ≠ some 0x5D := by
  cases value with
  | list values =>
      by_cases hvalues : values = []
      · rw [hvalues]
        exact fun h => nomatch h
      · rw [Layout.encode_pretty_list level hvalues, Layout.list, List.head?_cons]
        decide
  | object members =>
      by_cases hmembers : members = []
      · rw [hmembers]
        exact fun h => nomatch h
      · rw [Layout.encode_pretty level hmembers, Layout.object, List.head?_cons]
        decide
  | null => exact head?_scalarText .null
  | bool value => exact head?_scalarText (.bool value)
  | natural value => exact head?_scalarText (.natural value)
  | text value => exact head?_scalarText (.text value)

section

variable {α β δ : Type} {r : Reader α} {a : α} {value : Value}

theorem TakesValue.readText (h : TakesValue r value a) :
    readText r value.compact = .ok a ∧ readText r value.pretty = .ok a := by
  constructor
  · refine readBytes_of_takes ?_
    rw [Value.compact, bytesOf_ofList]
    exact h.compact
  · refine readBytes_of_takes ?_
    rw [Value.pretty, bytesOf_ofList]
    exact h.pretty 0

theorem TakesValue.then {f : α -> Reader β} {b : β} (h : TakesValue r value a)
    (hf : f a = pure b) : TakesValue (r >>= f) value b :=
  ⟨h.compact.then hf, fun level => (h.pretty level).then hf⟩

/-! ## Scalars -/

theorem takesValue_literal {text : String} (h : r.Takes (literalBytes text) a) :
    TakesValue r (.text text) a :=
  ⟨h, fun _ => h⟩

theorem takesValue_natural {limit n : Nat} (wanted : String) (h : n ≤ limit)
    (hlimit : limit ≤ naturalLimit) : TakesValue (natural limit wanted) (.natural n) n :=
  ⟨takes_natural wanted h hlimit, fun _ => takes_natural wanted h hlimit⟩

theorem takesValue_null : TakesValue r.optional .null none := by
  have htakes : r.optional.Takes [0x6E, 0x75, 0x6C, 0x6C] none := by
    constructor
    · intro space rest hspace hrest
      refine Reads.bind (reads_peekToken hspace (NoSpaceAhead.cons (by decide))) ?_
      rw [List.cons_append, List.head?_cons, if_pos rfl]
      refine Reads.step (reads_drop 0x6E) ?_
      exact Reads.last (reads_word _) (Reads.pure none)
    · exact ⟨0x6E, _, rfl, by decide⟩
  exact ⟨htakes, fun _ => htakes⟩

/-! ## Lists -/

theorem takesValue_list {toValue : α -> Value} {as : List α}
    (h : forall a, a ∈ as -> TakesValue r (toValue a) a) :
    TakesValue r.list (.list (as.map toValue)) as := by
  have hcompact := takes_list (fun a => encode (compactText (toValue a)))
    fun a ha => ⟨(h a ha).compact, head?_compactText _⟩
  constructor
  · rw [Layout.encode_compact_list, List.map_map]
    exact hcompact .compact
  · intro level
    by_cases hvalues : as.map toValue = []
    · -- An empty list is written without white space in both forms.
      rw [List.map_eq_nil_iff] at hvalues
      subst hvalues
      exact hcompact .compact
    · rw [Layout.encode_pretty_list level hvalues, List.map_map]
      exact takes_list (fun a => encode (prettyText (level + 1) (toValue a)))
        (fun a ha => ⟨(h a ha).pretty (level + 1), head?_prettyText (level + 1) _⟩) _

/-! ## Records -/

inductive FillsWith (fields : List (Field δ)) : δ -> List (String × Value) -> δ -> Prop
  | nil (draft : δ) : FillsWith fields draft [] draft
  | cons {field : Field δ} {draft mid final : δ} {name : String} {value : Value}
      {entries : List (String × Value)}
      (found : fields.find? (fun field => field.name = name) = some field)
      (missing : field.isFilled draft = false)
      (taken : TakesValue (field.read draft) value (.ok mid))
      (rest : FillsWith fields mid entries final) :
      FillsWith fields draft ((name, value) :: entries) final

theorem FillsWith.append {fields : List (Field δ)} {draft mid final : δ}
    {first second : List (String × Value)} (hfirst : FillsWith fields draft first mid)
    (hsecond : FillsWith fields mid second final) :
    FillsWith fields draft (first ++ second) final := by
  induction hfirst with
  | nil draft => exact hsecond
  | cons found missing taken _ ih => exact .cons found missing taken (ih hsecond)

theorem FillsWith.fills {fields : List (Field δ)} {draft final : δ}
    {entries : List (String × Value)} (h : FillsWith fields draft entries final) :
    Fills fields draft (entries.map fun entry => (entry.1, encode (compactText entry.2))) final ∧
      forall level, Fills fields draft
        (entries.map fun entry => (entry.1, encode (prettyText level entry.2))) final := by
  induction h with
  | nil draft => exact ⟨.nil draft, fun _ => .nil draft⟩
  | cons found missing taken _ ih =>
      exact ⟨.cons found missing taken.compact ih.1,
        fun level => .cons found missing (taken.pretty level) (ih.2 level)⟩

theorem takesValue_record {shape : Shape δ α} {final : δ} {entries : List (String × Value)}
    (hentries : entries ≠ []) (h : FillsWith shape.fields shape.empty entries final)
    (hfinish : shape.finish final = .ok a) : TakesValue (record shape) (.object entries) a := by
  constructor
  · rw [Layout.encode_compact]
    exact h.fills.1.takes_record hfinish
  · intro level
    rw [Layout.encode_pretty level hentries]
    exact (h.fills.2 (level + 1)).takes_record hfinish

end

end Reader

end Json
end RenewalDrive
