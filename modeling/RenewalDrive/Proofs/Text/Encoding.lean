import RenewalDrive.Json.Reader

/-!
# The bytes of a text

A text is its characters in UTF-8, one after the other, and bytes that come from a text are
read as that text.
-/

namespace RenewalDrive

namespace Text

def encode (chars : List Char) : List UInt8 :=
  chars.flatMap String.utf8EncodeChar

section

variable {chars first second : List Char} {c : Char}

@[simp] theorem encode_nil : encode [] = [] :=
  rfl

theorem encode_append : encode (first ++ second) = encode first ++ encode second :=
  List.flatMap_append

theorem encode_cons : encode (c :: chars) = String.utf8EncodeChar c ++ encode chars :=
  List.flatMap_cons

theorem utf8EncodeChar_of_ascii (h : c.toNat < 128) :
    String.utf8EncodeChar c = [c.toNat.toUInt8] := by
  have hle : c.val.toNat ≤ 0x7f := Nat.le_of_lt_succ h
  simp only [String.utf8EncodeChar, hle, if_true]
  rfl

theorem encode_of_ascii (h : forall c, c ∈ chars -> c.toNat < 128) :
    encode chars = chars.map (·.toNat.toUInt8) := by
  induction chars with
  | nil => rfl
  | cons first rest ih =>
      rw [encode_cons, utf8EncodeChar_of_ascii (h first List.mem_cons_self),
        ih fun c hc => h c (List.mem_cons_of_mem first hc)]
      rfl

theorem le_of_mem_utf8EncodeChar {b : UInt8} (h : 128 ≤ c.toNat)
    (hb : b ∈ String.utf8EncodeChar c) : 128 ≤ b := by
  have hnot : ¬ c.val.toNat ≤ 0x7f := Nat.not_le_of_lt h
  simp only [String.utf8EncodeChar, hnot, if_false] at hb
  rw [UInt8.le_iff_toNat_le]
  split at hb
  · simp only [List.mem_cons, List.not_mem_nil, or_false] at hb
    rcases hb with rfl | rfl <;> simp [UInt8.toNat_ofNat'] <;> omega
  · split at hb
    · simp only [List.mem_cons, List.not_mem_nil, or_false] at hb
      rcases hb with rfl | rfl | rfl <;> simp [UInt8.toNat_ofNat'] <;> omega
    · simp only [List.mem_cons, List.not_mem_nil, or_false] at hb
      rcases hb with rfl | rfl | rfl | rfl <;> simp [UInt8.toNat_ofNat'] <;> omega

end

/-! ## From texts to bytes and back -/

theorem toList_loop_eq (bytes : ByteArray) (i : Nat) (done : List UInt8) :
    ByteArray.toList.loop bytes i done = done.reverse ++ bytes.data.toList.drop i := by
  fun_induction ByteArray.toList.loop bytes i done with
  | case1 i done h ih =>
    have hi : i < bytes.data.toList.length := by simpa using h
    rw [ih, List.drop_eq_getElem_cons hi]
    simp [ByteArray.get!, h]
  | case2 i done h =>
    rw [List.drop_eq_nil_of_le (by simpa using Nat.le_of_not_lt h), List.append_nil]

theorem toList_eq_data_toList (bytes : ByteArray) : bytes.toList = bytes.data.toList :=
  (toList_loop_eq bytes 0 []).trans (by simp)

theorem bytesOf_ofList (chars : List Char) : Json.bytesOf (String.ofList chars) = encode chars := by
  rw [Json.bytesOf, toList_eq_data_toList]
  exact List.toList_data_toByteArray

theorem bytesOf_eq (text : String) : Json.bytesOf text = encode text.toList := by
  rw [← bytesOf_ofList, String.ofList_toList]

theorem fromUTF8?_bytesOf (text : String) :
    String.fromUTF8? ⟨(Json.bytesOf text).toArray⟩ = some text := by
  have hbytes : (⟨(Json.bytesOf text).toArray⟩ : ByteArray) = text.toByteArray := by
    rw [Json.bytesOf, toList_eq_data_toList, String.toUTF8_eq_toByteArray]
  rw [hbytes, String.fromUTF8?, dif_pos text.isValidUTF8]
  rfl

end Text
end RenewalDrive
