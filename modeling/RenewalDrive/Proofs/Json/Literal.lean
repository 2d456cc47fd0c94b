import Mathlib.Tactic.IntervalCases
import RenewalDrive.Json.Value
import RenewalDrive.Proofs.Json.Reads
import RenewalDrive.Proofs.Text.Encoding

/-!
# String literals are read back

The literal of a text is read as that text: what stands for one character is taken as the
bytes of that character, and the quote behind the last one is where the content ends.
-/

namespace RenewalDrive

namespace Json

open Text

def literalBytes (text : String) : List UInt8 :=
  encode (literalText text)

theorem literalBytes_eq (text : String) :
    literalBytes text = 0x22 :: (encode (text.toList.flatMap escaped) ++ [0x22]) := by
  rw [literalBytes, literalText, List.cons_append, encode_cons, encode_append]
  rfl

namespace Reader

variable {rest : List UInt8} {c : Char}

/-!
## Escapes
-/

theorem reads_literalByte (byte : UInt8) : literalByte.Reads [byte] byte rest :=
  Reads.last (reads_next byte) (Reads.pure byte)

theorem reads_escape_letter {letter : Char} (h : escapeLetter? c = some letter) :
    escape.Reads (encode [letter]) (String.utf8EncodeChar c) rest := by
  unfold escapeLetter? at h
  split_ifs at h with h1 h2 h3 h4 h5 h6 h7
  all_goals
    cases h
    subst c
    intro offset
    rfl

theorem hexValue4?_control {n : Nat} (h : n < 0x20) :
    exists h1 h2 h3 h4, encode ((Nat.toDigits 16 n).leftpad 4 '0') = [h1, h2, h3, h4] ∧
      hexValue4? h1 h2 h3 h4 = some n := by
  interval_cases n <;> exact ⟨_, _, _, _, rfl, by decide⟩

theorem reads_escape_control (h : c.toNat < 0x20) :
    escape.Reads (0x75 :: encode ((Nat.toDigits 16 c.toNat).leftpad 4 '0'))
      (String.utf8EncodeChar c) rest := by
  rcases hexValue4?_control h with ⟨h1, h2, h3, h4, hdigits, hvalue⟩
  have hunit : hexUnit.Reads [h1, h2, h3, h4] c.toNat rest := by
    intro offset
    simp only [hexUnit, List.cons_append, List.nil_append, hvalue]
    rfl
  have hleading : isLeading c.toNat = false := by
    simp only [isLeading, Bool.and_eq_false_iff, decide_eq_false_iff_not]
    omega
  have htrailing : isTrailing c.toNat = false := by
    simp only [isTrailing, Bool.and_eq_false_iff, decide_eq_false_iff_not]
    omega
  rw [hdigits]
  refine Reads.step (reads_literalByte 0x75) ?_
  refine Reads.last hunit ?_
  simp only [htrailing, hleading, Bool.false_eq_true, if_false]
  rw [codePointBytes, Char.ofNat_toNat]
  exact Reads.pure _

/-!
## The content of a literal
-/

section

variable {text bytes : List UInt8}

theorem reads_content_end : content.Reads [] [] (0x22 :: rest) := by
  intro offset
  show contentFrom ⟨0x22 :: rest, offset⟩ = _
  unfold contentFrom
  rfl

theorem Reads.content_byte {byte : UInt8} (hquote : byte ≠ 0x22) (hback : byte ≠ 0x5C)
    (hcontrol : ¬ byte < 0x20) (h : content.Reads text bytes rest) :
    content.Reads (byte :: text) (byte :: bytes) rest := by
  intro offset
  have hmore := h (offset + 1)
  show contentFrom ⟨byte :: (text ++ rest), offset⟩ = _
  change contentFrom ⟨text ++ rest, offset + 1⟩ = _ at hmore
  rw [contentFrom]
  simp only [hquote, hback, hcontrol, if_false, hmore, List.length_cons]
  rw [Nat.add_assoc, Nat.add_comm 1]

theorem Reads.content_bytes {plain : List UInt8}
    (hplain : forall byte, byte ∈ plain -> byte ≠ 0x22 ∧ byte ≠ 0x5C ∧ ¬ byte < 0x20)
    (h : content.Reads text bytes rest) :
    content.Reads (plain ++ text) (plain ++ bytes) rest := by
  induction plain with
  | nil => exact h
  | cons byte plain ih =>
      rcases hplain byte List.mem_cons_self with ⟨hquote, hback, hcontrol⟩
      have hmore := ih fun other hother => hplain other (List.mem_cons_of_mem byte hother)
      exact hmore.content_byte hquote hback hcontrol

theorem Reads.content_escape {form taken : List UInt8}
    (hescape : escape.Reads form taken (text ++ rest)) (h : content.Reads text bytes rest) :
    content.Reads (0x5C :: (form ++ text)) (taken ++ bytes) rest := by
  intro offset
  have hform := hescape (offset + 1)
  have hmore := h (offset + 1 + form.length)
  change contentFrom ⟨text ++ rest, _⟩ = _ at hmore
  show contentFrom ⟨0x5C :: (form ++ text ++ rest), offset⟩ = _
  rw [List.append_assoc, contentFrom]
  split
  case h_1 hnil => cases hnil
  case h_2 byte more hcons =>
    cases hcons
    simp only [show ¬ ((0x5C : UInt8) = 0x22) by decide, if_false, if_true]
    split
    case h_1 stop hstop => cases hstop.symm.trans hform
    case h_2 value cursor hok =>
      cases hok.symm.trans hform
      simp only [hmore, List.length_cons, List.length_append]
      congr 3
      omega

end

theorem plain_of_mem_utf8EncodeChar (hletter : escapeLetter? c = none) (hcontrol : 0x20 ≤ c.toNat)
    {byte : UInt8} (h : byte ∈ String.utf8EncodeChar c) :
    byte ≠ 0x22 ∧ byte ≠ 0x5C ∧ ¬ byte < 0x20 := by
  by_cases hascii : c.toNat < 128
  · rw [utf8EncodeChar_of_ascii hascii, List.mem_singleton] at h
    subst h
    have hquote : c.toNat ≠ 0x22 := by
      intro heq
      have hc : c = '"' := Char.toNat_inj.mp heq
      rw [hc] at hletter
      cases hletter
    have hback : c.toNat ≠ 0x5C := by
      intro heq
      have hc : c = '\\' := Char.toNat_inj.mp heq
      rw [hc] at hletter
      cases hletter
    simp only [ne_eq, ← UInt8.toNat_inj, UInt8.lt_iff_toNat_lt]
    simp
    omega
  · have hle := le_of_mem_utf8EncodeChar (Nat.le_of_not_lt hascii) h
    refine ⟨?_, ?_, ?_⟩ <;> rintro h' <;> grind

theorem Reads.content_escaped {text bytes : List UInt8} (c : Char)
    (h : content.Reads text bytes rest) :
    content.Reads (encode (escaped c) ++ text) (String.utf8EncodeChar c ++ bytes) rest := by
  unfold escaped
  split
  case h_1 letter hletter =>
    exact Reads.content_escape (reads_escape_letter hletter) h
  case h_2 hletter =>
    split_ifs with hcontrol
    · exact Reads.content_escape (reads_escape_control hcontrol) h
    · rw [encode_cons, encode_nil, List.append_nil]
      exact Reads.content_bytes
        (fun byte => plain_of_mem_utf8EncodeChar hletter (Nat.le_of_not_lt hcontrol)) h

theorem reads_content (chars : List Char) :
    content.Reads (encode (chars.flatMap escaped)) (encode chars) (0x22 :: rest) := by
  induction chars with
  | nil => exact reads_content_end
  | cons c chars ih =>
      rw [List.flatMap_cons, encode_append, encode_cons]
      exact ih.content_escaped c

/-!
## Literals
-/

theorem reads_literal (text : String) :
    literal.Reads (encode (text.toList.flatMap escaped) ++ [0x22]) text rest := by
  refine Reads.bind (reads_content text.toList) ?_
  refine Reads.last (reads_drop 0x22) ?_
  rw [← bytesOf_eq, fromUTF8?_bytesOf]
  exact Reads.pure text

theorem takes_textAs (wanted text : String) : (textAs wanted).Takes (literalBytes text) text := by
  rw [literalBytes_eq]
  refine Takes.of_start (by decide) ?_
  intro rest hrest
  simp only [if_true]
  exact Reads.step (reads_drop 0x22) (reads_literal text)

end Reader

end Json
end RenewalDrive
