/-!
# Reading UTF-8 in spite of faults

Bytes that should be UTF-8 but need not be. Each longest piece that could have begun a
character, but did not become one, reads as the replacement character.
-/

namespace RenewalDrive
namespace Text
namespace Utf8

/-- What stands for bytes that are no character. -/
def replacement : Char := '\ufffd'

structure ByteRange where
  first : UInt8
  last : UInt8
deriving DecidableEq

def ByteRange.holds (range : ByteRange) (b : UInt8) : Bool :=
  range.first ≤ b && b ≤ range.last

def tail : ByteRange := ⟨0x80, 0xBF⟩

/-- What a first byte contributes to its character, and the ranges of the bytes that
have to follow it. -/
def lead? (b : UInt8) : Option (Nat × List ByteRange) :=
  if b < 0x80 then some (b.toNat, [])
  else if 0xC2 ≤ b ∧ b ≤ 0xDF then some (b.toNat - 0xC0, [tail])
  else if b = 0xE0 then some (0, [⟨0xA0, 0xBF⟩, tail])
  else if b = 0xED then some (0xD, [⟨0x80, 0x9F⟩, tail])
  else if 0xE1 ≤ b ∧ b ≤ 0xEF then some (b.toNat - 0xE0, [tail, tail])
  else if b = 0xF0 then some (0, [⟨0x90, 0xBF⟩, tail, tail])
  else if 0xF1 ≤ b ∧ b ≤ 0xF3 then some (b.toNat - 0xF0, [tail, tail, tail])
  else if b = 0xF4 then some (4, [⟨0x80, 0x8F⟩, tail, tail])
  else none

/-- Takes the bytes that have to follow, and gives their character. A byte out of its
range is not taken. -/
def follow (value : Nat) : List ByteRange -> List UInt8 -> Char × List UInt8
  | [], rest => (Char.ofNat value, rest)
  | _ :: _, [] => (replacement, [])
  | range :: ranges, b :: rest =>
      if range.holds b then follow (64 * value + (b.toNat - 0x80)) ranges rest
      else (replacement, b :: rest)

theorem length_follow_le (value : Nat) (ranges : List ByteRange) (bytes : List UInt8) :
    (follow value ranges bytes).2.length ≤ bytes.length := by
  induction ranges generalizing value bytes with
  | nil => exact Nat.le_refl _
  | cons range ranges ih =>
      cases bytes with
      | nil => exact Nat.le_refl _
      | cons b rest =>
          unfold follow
          split
          · exact Nat.le_trans (ih _ rest) (Nat.le_succ _)
          · exact Nat.le_refl _

def characters : List UInt8 -> List Char
  | [] => []
  | b :: rest =>
      match lead? b with
      | none => replacement :: characters rest
      | some (value, ranges) =>
          (follow value ranges rest).1 :: characters (follow value ranges rest).2
termination_by bytes => bytes.length
decreasing_by
  · simp
  · exact Nat.lt_succ_of_le (length_follow_le value ranges rest)

def followed : List ByteRange -> List UInt8 -> Bool
  | [], _ => true
  | _ :: _, [] => false
  | range :: ranges, b :: rest => range.holds b && followed ranges rest

/-- The number of bytes at the front that make up whole characters. -/
def wholeLength : List UInt8 -> Nat
  | [] => 0
  | b :: rest =>
      match lead? b with
      | none => 0
      | some (_, ranges) =>
          if followed ranges rest then ranges.length + 1 + wholeLength (rest.drop ranges.length)
          else 0
termination_by bytes => bytes.length
decreasing_by
  simp only [List.length_drop, List.length_cons]
  omega

def text (bytes : List UInt8) : String :=
  String.ofList (characters bytes)

end Utf8
end Text
end RenewalDrive
