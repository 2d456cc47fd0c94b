import RenewalDrive.Json.Scalar

/-!
# What a reader takes

A reader takes a text as a value when it consumes exactly the bytes of that text, wherever
the text stands, and yields the value. `Reader.Reads` says so for one continuation of the
text, and `Reader.Takes` for all white space before a value and for all that may delimit it.
-/

namespace RenewalDrive

namespace Json

namespace Reader

variable {α β : Type} {r : Reader α} {f : α -> Reader β} {a : α} {b : β}
variable {text first second rest more : List UInt8}

/-- A reader takes the given bytes and yields the value when the rest follows them. -/
def Reads (r : Reader α) (text : List UInt8) (a : α) (rest : List UInt8) : Prop :=
  forall offset : Nat,
    r.run ⟨text ++ rest, offset⟩ = .ok (a, ⟨rest, offset + text.length⟩)

theorem Reads.pure (a : α) : (pure a : Reader α).Reads [] a rest :=
  fun _ => rfl

theorem Reads.bind (hr : r.Reads first a (second ++ rest)) (hf : (f a).Reads second b rest) :
    (r >>= f).Reads (first ++ second) b rest := by
  intro offset
  rw [run_bind, List.append_assoc, hr offset]
  show (f a).run _ = _
  rw [hf, List.length_append, Nat.add_assoc]

theorem Reads.step {byte : UInt8} (hr : r.Reads [byte] a (text ++ rest))
    (hf : (f a).Reads text b rest) : (r >>= f).Reads (byte :: text) b rest :=
  Reads.bind hr hf

theorem Reads.look (hr : r.Reads [] a (text ++ rest)) (hf : (f a).Reads text b rest) :
    (r >>= f).Reads text b rest :=
  Reads.bind hr hf

theorem Reads.last (hr : r.Reads text a rest) (hf : (f a).Reads [] b rest) :
    (r >>= f).Reads text b rest := by
  rw [← List.append_nil text]
  exact Reads.bind (by simpa using hr) hf

/-! ## Bytes -/

theorem reads_peek : peek.Reads [] rest.head? rest :=
  fun _ => rfl

theorem reads_next (byte : UInt8) : next.Reads [byte] (some byte) rest :=
  fun _ => rfl

theorem reads_drop (byte : UInt8) : drop.Reads [byte] () rest :=
  fun _ => rfl

theorem reads_takeWhile {p : UInt8 -> Bool} (htext : forall byte, byte ∈ text -> p byte = true)
    (hrest : forall byte, rest.head? = some byte -> p byte = false) :
    (takeWhile p).Reads text text rest := by
  have hstop : rest.takeWhile p = [] ∧ rest.dropWhile p = rest := by
    cases rest with
    | nil => exact ⟨rfl, rfl⟩
    | cons byte more =>
        have hfalse := hrest byte rfl
        simp [hfalse]
  intro offset
  show Except.ok ((text ++ rest).takeWhile p, (⟨(text ++ rest).dropWhile p, _⟩ : Cursor)) = _
  rw [List.takeWhile_append_of_pos htext, List.dropWhile_append_of_pos htext, hstop.1, hstop.2,
    List.append_nil]

theorem reads_word (bytes : List UInt8) : (word bytes).Reads bytes () rest := by
  induction bytes with
  | nil => exact Reads.pure ()
  | cons byte bytes ih =>
      refine Reads.step (reads_next byte) ?_
      simp only [if_true]
      exact ih

/-! ## White space -/

def Spacing (space : List UInt8) : Prop :=
  forall byte, byte ∈ space -> isSpace byte = true

theorem Spacing.nil : Spacing [] := by
  intro byte h
  cases h

def NoSpaceAhead (rest : List UInt8) : Prop :=
  forall byte, rest.head? = some byte -> isSpace byte = false

theorem NoSpaceAhead.nil : NoSpaceAhead [] := by
  intro byte h
  cases h

theorem NoSpaceAhead.cons {byte : UInt8} (h : isSpace byte = false) :
    NoSpaceAhead (byte :: rest) := by
  intro other hother
  cases hother
  exact h

theorem reads_peekToken {space : List UInt8} (hspace : Spacing space)
    (hrest : NoSpaceAhead rest) : peekToken.Reads space rest.head? rest := by
  refine Reads.last (reads_takeWhile hspace hrest) ?_
  exact reads_peek

theorem reads_valueStart {space : List UInt8} {byte : UInt8} (hspace : Spacing space)
    (hbyte : isSpace byte = false) : valueStart.Reads space byte (byte :: rest) :=
  Reads.last (reads_peekToken hspace (NoSpaceAhead.cons hbyte)) (Reads.pure byte)

/-! ## Values -/

/-- What may follow a value: the end of the text, white space, a comma, or a closing bracket. -/
def Delimited (rest : List UInt8) : Prop :=
  forall byte, rest.head? = some byte ->
    isSpace byte = true ∨ byte = 0x2C ∨ byte = 0x5D ∨ byte = 0x7D

theorem Delimited.nil : Delimited [] := by
  intro byte h
  cases h

/-- A reader takes a text as a value, behind any white space and before anything that may
follow a value. -/
structure Takes (r : Reader α) (text : List UInt8) (a : α) : Prop where
  reads : forall {space rest : List UInt8}, Spacing space -> Delimited rest ->
    r.Reads (space ++ text) a rest
  /-- The text of a value begins with the value. -/
  begins : exists byte more, text = byte :: more ∧ isSpace byte = false

theorem Takes.reads_bare (h : r.Takes text a) (hrest : Delimited rest) : r.Reads text a rest :=
  h.reads Spacing.nil hrest

theorem Takes.then (h : r.Takes text a) (hf : f a = pure b) : (r >>= f).Takes text b where
  reads := by
    intro space rest hspace hrest
    refine Reads.last (h.reads hspace hrest) ?_
    rw [hf]
    exact Reads.pure b
  begins := h.begins

theorem Takes.of_start {byte : UInt8} {f : UInt8 -> Reader α} (hbyte : isSpace byte = false)
    (hf : forall {rest}, Delimited rest -> (f byte).Reads (byte :: more) a rest) :
    (valueStart >>= f).Takes (byte :: more) a where
  reads := by
    intro space rest hspace hrest
    exact Reads.bind (reads_valueStart hspace hbyte) (hf hrest)
  begins := ⟨byte, more, rfl, hbyte⟩

end Reader

theorem readBytes_of_takes {α : Type} {r : Reader α} {text : List UInt8} {a : α}
    (h : r.Takes text a) : readBytes r text = .ok a := by
  have hvalue := h.reads_bare Reader.Delimited.nil 0
  have htoken := Reader.reads_peekToken Reader.Spacing.nil Reader.NoSpaceAhead.nil text.length
  simp only [List.append_nil, Nat.zero_add] at hvalue htoken
  simp only [readBytes, Reader.run_bind, hvalue, htoken]
  rfl

end Json
end RenewalDrive
