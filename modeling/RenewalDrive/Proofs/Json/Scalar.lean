import RenewalDrive.Json.Instant
import RenewalDrive.Proofs.Json.Literal
import RenewalDrive.Proofs.Text.Numeral
import RenewalDrive.Proofs.Time.Rfc3339

/-!
# Scalars are read back

Each reader of a scalar takes the written form of a scalar of its kind as that scalar.
-/

namespace RenewalDrive

namespace Json

open Text

/-!
## Digits
-/

section

variable {digits : List UInt8} {limit value : Nat}

theorem le_continued : value ≤ continued value digits := by
  induction digits generalizing value with
  | nil => exact Nat.le_refl value
  | cons byte digits ih =>
      have hstep : value ≤ 10 * value + digitByteValue byte := by omega
      exact Nat.le_trans hstep ih

theorem fitting_eq_length (h : continued value digits ≤ limit) :
    fitting limit value digits = digits.length := by
  induction digits generalizing value with
  | nil => rfl
  | cons byte digits ih =>
      have hstep : 10 * value + digitByteValue byte ≤ limit := Nat.le_trans le_continued h
      simp only [fitting, hstep, if_true, ih h, List.length_cons]

end

theorem digitByte_of_isDigit {c : Char} (h : isDigit c = true) :
    c.toNat < 128 ∧ isDigitByte c.toNat.toUInt8 = true ∧
      digitByteValue c.toNat.toUInt8 = digitValue c := by
  have hbounds : 48 ≤ c.toNat ∧ c.toNat ≤ 57 := by
    simpa [isDigit, Char.le_def, UInt32.le_iff_toNat_le] using h
  have hmod : c.toNat % 256 = c.toNat := by omega
  refine ⟨by omega, ?_, ?_⟩
  · simp only [isDigitByte, Bool.and_eq_true, decide_eq_true_eq, UInt8.le_iff_toNat_le]
    simp [hmod]
    omega
  · simp [digitByteValue, digitValue, hmod]

theorem continued_map {chars : List Char} (h : forall c, c ∈ chars -> isDigit c = true)
    (value : Nat) :
    continued value (chars.map (·.toNat.toUInt8)) =
      chars.foldl (fun value c => 10 * value + digitValue c) value := by
  induction chars generalizing value with
  | nil => rfl
  | cons c chars ih =>
      rw [List.map_cons, List.foldl_cons, ← (digitByte_of_isDigit (h c List.mem_cons_self)).2.2,
        ← ih fun c' hc' => h c' (List.mem_cons_of_mem c hc')]
      rfl

theorem encode_numeral (n : Nat) :
    exists first more, encode (numeral n) = first :: more ∧
      (forall byte, byte ∈ first :: more -> isDigitByte byte = true) ∧
      continued (digitByteValue first) more = n ∧ (first = 0x30 -> more = [] ∧ n = 0) := by
  have hdigit : forall c, c ∈ numeral n -> isDigit c = true := fun c => isDigit_of_mem_numeral
  have hvalue : numeralValue (numeral n) = n := numeralValue_numeral
  have hne : numeral n ≠ [] := Nat.toDigits_ne_nil
  rcases List.exists_cons_of_ne_nil hne with ⟨c, rest, hcons⟩
  have hc : isDigit c = true := hdigit c (by rw [hcons]; exact List.mem_cons_self)
  have hrest : forall c', c' ∈ rest -> isDigit c' = true := fun c' hc' =>
    hdigit c' (by rw [hcons]; exact List.mem_cons_of_mem c hc')
  refine ⟨c.toNat.toUInt8, rest.map (·.toNat.toUInt8), ?_, ?_, ?_, ?_⟩
  · rw [encode_of_ascii fun c' hc' => (digitByte_of_isDigit (hdigit c' hc')).1, hcons]
    rfl
  · intro byte hbyte
    rcases List.mem_cons.mp hbyte with rfl | hmem
    · exact (digitByte_of_isDigit hc).2.1
    · rcases List.mem_map.mp hmem with ⟨c', hc', rfl⟩
      exact (digitByte_of_isDigit (hrest c' hc')).2.1
  · rw [continued_map hrest, (digitByte_of_isDigit hc).2.2, ← hvalue, hcons, numeralValue,
      List.foldl_cons, Nat.mul_zero, Nat.zero_add]
  · intro hzero
    have hnat : c.toNat = 0x30 := by
      have hlt := (digitByte_of_isDigit hc).1
      have := congrArg UInt8.toNat hzero
      simp at this
      omega
    have hc0 : c = '0' := Char.toNat_inj.mp hnat
    have hn : n = 0 := by
      by_contra hne0
      exact head?_numeral_ne_zero hne0 (by rw [hcons, hc0]; rfl)
    rw [hn, hc0] at hcons
    cases hcons
    exact ⟨rfl, hn⟩

namespace Reader

theorem isSpace_of_isDigitByte {byte : UInt8} (h : isDigitByte byte = true) :
    isSpace byte = false := by
  refine Bool.eq_false_iff.mpr fun hspace => ?_
  simp only [isSpace, Bool.or_eq_true, decide_eq_true_eq] at hspace
  rcases hspace with ((rfl | rfl) | rfl) | rfl <;> exact absurd h (by decide)

variable {α : Type} {rest : List UInt8}

/-!
## Texts
-/

theorem takes_text (value : String) : text.Takes (literalBytes value) value :=
  takes_textAs "a string" value

theorem takes_textThrough {wanted given : String} {accept : String -> Except String α} {value : α}
    (h : accept given = .ok value) :
    (textThrough wanted accept).Takes (literalBytes given) value := by
  refine (takes_textAs wanted given).then ?_
  rw [h]

theorem takes_instant (t : Instant) : instant.Takes (literalBytes (Rfc3339.write t)) t := by
  refine takes_textThrough ?_
  rw [Rfc3339.read_write]
  rfl

theorem takes_variant {variants : List (String × α)} {name : String} {value : α}
    (h : variants.lookup name = some value) :
    (variant variants).Takes (literalBytes name) value where
  reads := by
    intro space rest hspace hrest
    have hquote : NoSpaceAhead (literalBytes name ++ rest) := by
      rw [literalBytes_eq]
      exact NoSpaceAhead.cons (by decide)
    refine Reads.bind (reads_peekToken hspace hquote) ?_
    rw [literalBytes_eq, List.cons_append, List.head?_cons]
    simp only [if_true]
    rw [← literalBytes_eq]
    refine Reads.last ((takes_textAs _ name).reads_bare hrest) ?_
    rw [h]
    exact Reads.pure value
  begins := (takes_textAs "" name).begins

/-!
## Other scalars
-/

theorem takes_bool (value : Bool) : bool.Takes (encode (scalarText (.bool value))) value := by
  cases value with
  | false =>
      show bool.Takes [0x66, 0x61, 0x6C, 0x73, 0x65] false
      refine Takes.of_start (by decide) ?_
      intro rest hrest
      refine Reads.step (reads_drop 0x66) ?_
      exact Reads.last (reads_word _) (Reads.pure false)
  | true =>
      show bool.Takes [0x74, 0x72, 0x75, 0x65] true
      refine Takes.of_start (by decide) ?_
      intro rest hrest
      refine Reads.step (reads_drop 0x74) ?_
      exact Reads.last (reads_word _) (Reads.pure true)

theorem takes_optional {r : Reader α} {text : List UInt8} {value : α} (h : r.Takes text value)
    (hstart : text.head? ≠ some 0x6E) : (optional r).Takes text (some value) where
  reads := by
    intro space rest hspace hrest
    rcases h.begins with ⟨byte, more, rfl, hbyte⟩
    rw [List.head?_cons] at hstart
    refine Reads.bind (reads_peekToken hspace (NoSpaceAhead.cons hbyte)) ?_
    rw [List.cons_append, List.head?_cons, if_neg hstart]
    exact Reads.last (h.reads_bare hrest) (Reads.pure (some value))
  begins := h.begins

theorem takes_optional_literal {r : Reader α} {text : String} {value : α}
    (h : r.Takes (literalBytes text) value) :
    (optional r).Takes (literalBytes text) (some value) := by
  refine takes_optional h ?_
  rw [literalBytes_eq, List.head?_cons]
  decide

theorem Delimited.not_number {byte : UInt8} (h : Delimited rest) (hhead : rest.head? = some byte) :
    isDigitByte byte = false ∧ byte ≠ 0x2E ∧ byte ≠ 0x65 ∧ byte ≠ 0x45 := by
  have hbyte := h byte hhead
  simp only [isSpace, Bool.or_eq_true, decide_eq_true_eq] at hbyte
  rcases hbyte with (((rfl | rfl) | rfl) | rfl) | rfl | rfl | rfl <;> decide

theorem reads_numberEnd (n : Nat) (hrest : Delimited rest) :
    (numberEnd false n 0).Reads [] (.natural n) rest := by
  refine Reads.look reads_peek ?_
  have hpoint : ¬ rest.head? = some 0x2E := fun h => (hrest.not_number h).2.1 rfl
  have hexponent : ¬ (rest.head? = some 0x65 ∨ rest.head? = some 0x45) := by
    rintro (h | h)
    · exact (hrest.not_number h).2.2.1 rfl
    · exact (hrest.not_number h).2.2.2 rfl
  rw [List.nil_append, if_neg hpoint, if_neg hexponent]
  exact Reads.pure _

theorem reads_unsignedNumber {n : Nat} (h : n ≤ naturalLimit) (hrest : Delimited rest) :
    (unsignedNumber false).Reads (encode (numeral n)) (.natural n) rest := by
  rcases encode_numeral n with ⟨first, more, hbytes, hdigits, hvalue, hzero⟩
  rw [hbytes]
  refine Reads.step (reads_next first) ?_
  have hfirst : isDigitByte first = true := hdigits first List.mem_cons_self
  by_cases h0 : first = 0x30
  · rcases hzero h0 with ⟨rfl, rfl⟩
    simp only [h0, if_true]
    refine Reads.look reads_peek ?_
    rw [List.nil_append]
    cases hhead : rest.head? with
    | none => exact reads_numberEnd 0 hrest
    | some byte =>
        simp only [(hrest.not_number hhead).1, Bool.false_eq_true, if_false]
        exact reads_numberEnd 0 hrest
  · simp only [h0, hfirst, if_false, if_true]
    refine Reads.last (a := more) ?_ ?_
    · refine reads_takeWhile (fun byte hbyte => hdigits byte (List.mem_cons_of_mem first hbyte)) ?_
      intro byte hbyte
      exact (hrest.not_number hbyte).1
    · rw [fitting_eq_length (hvalue.le.trans h), List.take_length, hvalue, Nat.sub_self]
      exact reads_numberEnd n hrest

theorem takes_natural {limit n : Nat} (wanted : String) (h : n ≤ limit)
    (hlimit : limit ≤ naturalLimit) : (natural limit wanted).Takes (encode (numeral n)) n := by
  have hnumber : forall {rest}, Delimited rest ->
      number.Reads (encode (numeral n)) (.natural n) rest := by
    intro rest hrest
    rcases encode_numeral n with ⟨first, more, hbytes, hdigits, -, -⟩
    have hsign : first ≠ 0x2D := by
      rintro rfl
      exact absurd (hdigits 0x2D List.mem_cons_self) (by decide)
    refine Reads.look reads_peek ?_
    rw [hbytes, List.cons_append, List.head?_cons, if_neg (by simpa using hsign), ← hbytes]
    exact reads_unsignedNumber (h.trans hlimit) hrest
  rcases encode_numeral n with ⟨first, more, hbytes, hdigits, -, -⟩
  have hfirst : isDigitByte first = true := hdigits first List.mem_cons_self
  rw [hbytes] at hnumber ⊢
  refine Takes.of_start (isSpace_of_isDigitByte hfirst) ?_
  intro rest hrest
  simp only [hfirst, or_true, if_true]
  refine Reads.last (hnumber hrest) ?_
  simp only [h, if_true]
  exact Reads.pure n

end Reader

end Json
end RenewalDrive
