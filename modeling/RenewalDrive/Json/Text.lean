import RenewalDrive.Json.Reader
import RenewalDrive.Text.Utf8

/-!
# String literals

The content of a string literal is read byte by byte. Escapes stand for one code
point each; those above U+FFFF take two escapes, a leading and a trailing
surrogate.
-/

namespace RenewalDrive
namespace Json

def hexValue? (b : UInt8) : Option Nat :=
  if 0x30 ≤ b ∧ b ≤ 0x39 then some (b.toNat - 0x30)
  else if 0x61 ≤ b ∧ b ≤ 0x66 then some (b.toNat - 0x61 + 10)
  else if 0x41 ≤ b ∧ b ≤ 0x46 then some (b.toNat - 0x41 + 10)
  else none

def hexValue4? (a b c d : UInt8) : Option Nat := do
  return ((← hexValue? a) * 4096 + (← hexValue? b) * 256 + (← hexValue? c) * 16 + (← hexValue? d))

/-- The byte that a letter behind a backslash stands for. -/
def unescape? (letter : UInt8) : Option UInt8 :=
  if letter = 0x22 then some 0x22
  else if letter = 0x5C then some 0x5C
  else if letter = 0x2F then some 0x2F
  else if letter = 0x62 then some 0x08
  else if letter = 0x66 then some 0x0C
  else if letter = 0x6E then some 0x0A
  else if letter = 0x72 then some 0x0D
  else if letter = 0x74 then some 0x09
  else none

/-- A leading surrogate has to be followed by a trailing one. -/
def isLeading (unit : Nat) : Bool :=
  0xD800 ≤ unit && unit ≤ 0xDBFF

/-- A trailing surrogate may only follow a leading one. -/
def isTrailing (unit : Nat) : Bool :=
  0xDC00 ≤ unit && unit ≤ 0xDFFF

def codePointBytes (point : Nat) : List UInt8 :=
  String.utf8EncodeChar (Char.ofNat point)

namespace Reader

def literalByte : Reader UInt8 := do
  match ← next with
  | some b => pure b
  | none => stop .endInString

def hexUnit : Reader Nat where
  run c :=
    match c.rest with
    | h1 :: h2 :: h3 :: h4 :: rest =>
        match hexValue4? h1 h2 h3 h4 with
        | some unit => .ok (unit, ⟨rest, c.offset + 4⟩)
        | none => .error ⟨.invalidEscape, c.offset + 4⟩
    | short => .error ⟨.endInString, c.offset + short.length⟩
  run_le := by
    intro c a c' h
    split at h
    · rename_i hc
      split at h
      · cases h
        simp only [hc, List.length_cons]
        omega
      · cases h
    · cases h

def surrogateMark (mark : UInt8) : Reader Unit := do
  let b ← literalByte
  if b = mark then pure () else stop .endOfSurrogates

/-- Takes what follows the `u` of an escape and gives the bytes of its code point. -/
def unicodeEscape : Reader (List UInt8) := do
  let unit ← hexUnit
  if isTrailing unit then stop .loneSurrogate
  else if isLeading unit then
    surrogateMark 0x5C
    surrogateMark 0x75
    let trail ← hexUnit
    if isTrailing trail then
      pure (codePointBytes (0x10000 + (unit - 0xD800) * 0x400 + (trail - 0xDC00)))
    else stop .loneSurrogate
  else pure (codePointBytes unit)

def escape : Reader (List UInt8) := do
  let letter ← literalByte
  if letter = 0x75 then unicodeEscape
  else
    match unescape? letter with
    | some b => pure [b]
    | none => stop .invalidEscape

/-- The content of a literal from a cursor behind its opening quote; the cursor
after it stands at the closing quote. -/
def contentFrom (c : Cursor) : Except Stop (List UInt8 × Cursor) :=
  match hc : c.rest with
  | [] => .error ⟨.endInString, c.offset⟩
  | b :: rest =>
      if b = 0x22 then .ok ([], c)
      else if b = 0x5C then
        match h : escape.run ⟨rest, c.offset + 1⟩ with
        | .error stop => .error stop
        | .ok (bytes, c') =>
            have : c'.rest.length < c.rest.length := by
              have := escape.run_le h
              simp only [hc, List.length_cons]
              exact Nat.lt_succ_of_le this
            match contentFrom c' with
            | .error stop => .error stop
            | .ok (more, c'') => .ok (bytes ++ more, c'')
      else if b < 0x20 then .error ⟨.controlCharacter, c.offset + 1⟩
      else
        have : rest.length < c.rest.length := by simp [hc]
        match contentFrom ⟨rest, c.offset + 1⟩ with
        | .error stop => .error stop
        | .ok (more, c') => .ok (b :: more, c')
termination_by c.rest.length

theorem contentFrom_le {c : Cursor} {bytes : List UInt8} {c' : Cursor}
    (h : contentFrom c = .ok (bytes, c')) : c'.rest.length ≤ c.rest.length := by
  unfold contentFrom at h
  split at h
  · cases h
  · rename_i b rest hc
    split at h
    · cases h
      exact Nat.le_refl _
    · split at h
      · split at h
        · cases h
        · rename_i mid hmid
          have hlt : mid.rest.length < c.rest.length := by
            have := escape.run_le hmid
            simp only [hc, List.length_cons]
            exact Nat.lt_succ_of_le this
          dsimp only at h
          split at h
          · cases h
          · rename_i hmore
            cases h
            exact Nat.le_trans (contentFrom_le hmore) (Nat.le_of_lt hlt)
      · split at h
        · cases h
        · have hlt : rest.length < c.rest.length := by simp [hc]
          dsimp only at h
          split at h
          · cases h
          · rename_i hmore
            cases h
            exact Nat.le_trans (contentFrom_le hmore) (Nat.le_of_lt hlt)
termination_by c.rest.length

def content : Reader (List UInt8) where
  run := contentFrom
  run_le := contentFrom_le

/-- Takes a literal from behind its opening quote and gives its text. Content that is
not UTF-8 is a fault as many bytes before the end of the literal as the content has
from the fault on. -/
def literal : Reader String := do
  let bytes ← content
  drop
  match String.fromUTF8? ⟨bytes.toArray⟩ with
  | some text => pure text
  | none => stopBefore .invalidCodePoint (bytes.length - Text.Utf8.wholeLength bytes)

/-! ## Skipping -/

def skipEscape : Reader Unit := do
  let letter ← literalByte
  if letter = 0x75 then
    let _ ← hexUnit
  else if (unescape? letter).isNone then stop .invalidEscape

/-- Skips a literal from behind its opening quote; the cursor after it stands
behind the closing quote. -/
def skipLiteralFrom (c : Cursor) : Except Stop (Unit × Cursor) :=
  match hc : c.rest with
  | [] => .error ⟨.endInString, c.offset⟩
  | b :: rest =>
      if b = 0x22 then .ok ((), ⟨rest, c.offset + 1⟩)
      else if b = 0x5C then
        match h : skipEscape.run ⟨rest, c.offset + 1⟩ with
        | .error stop => .error stop
        | .ok (_, c') =>
            have : c'.rest.length < c.rest.length := by
              have := skipEscape.run_le h
              simp only [hc, List.length_cons]
              exact Nat.lt_succ_of_le this
            skipLiteralFrom c'
      else if b < 0x20 then .error ⟨.controlCharacter, c.offset⟩
      else
        have : rest.length < c.rest.length := by simp [hc]
        skipLiteralFrom ⟨rest, c.offset + 1⟩
termination_by c.rest.length

theorem skipLiteralFrom_le {c : Cursor} {u : Unit} {c' : Cursor}
    (h : skipLiteralFrom c = .ok (u, c')) : c'.rest.length ≤ c.rest.length := by
  unfold skipLiteralFrom at h
  split at h
  · cases h
  · rename_i b rest hc
    split at h
    · cases h
      simp [hc]
    · split at h
      · split at h
        · cases h
        · rename_i mid hmid
          have hlt : mid.rest.length < c.rest.length := by
            have := skipEscape.run_le hmid
            simp only [hc, List.length_cons]
            exact Nat.lt_succ_of_le this
          exact Nat.le_trans (skipLiteralFrom_le h) (Nat.le_of_lt hlt)
      · split at h
        · cases h
        · have hlt : rest.length < c.rest.length := by simp [hc]
          exact Nat.le_trans (skipLiteralFrom_le h) (Nat.le_of_lt hlt)
termination_by c.rest.length

def skipLiteral : Reader Unit where
  run := skipLiteralFrom
  run_le := skipLiteralFrom_le

end Reader
end Json
end RenewalDrive
