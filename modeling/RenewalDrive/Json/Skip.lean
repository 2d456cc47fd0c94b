import RenewalDrive.Json.Number
import RenewalDrive.Json.Text

/-!
# Skipping values

Values that nobody asked for are skipped: only their form is checked. The open
brackets around the current place are kept in a list, so values may be nested to
any depth.
-/

namespace RenewalDrive
namespace Json

inductive Bracket where
  | list
  | object
deriving DecidableEq

def Bracket.closing : Bracket -> UInt8
  | .list => 0x5D
  | .object => 0x7D

def Bracket.atEnd : Bracket -> Cause
  | .list => .endInList
  | .object => .endInObject

/-- The cause when a value within a bracket is followed by something else than a
comma or the closing byte. -/
def Bracket.commaOrEnd : Bracket -> Cause
  | .list => .listCommaOrEnd
  | .object => .objectCommaOrEnd

namespace Reader

/-- Skips what follows the first byte of a value: all of a scalar, nothing of a
list or an object. Yields the bracket that the value opens. -/
def skipBehind (first : UInt8) : Reader (Option Bracket) := do
  if first = 0x6E then
    word [0x75, 0x6C, 0x6C]
    pure none
  else if first = 0x74 then
    word [0x72, 0x75, 0x65]
    pure none
  else if first = 0x66 then
    word [0x61, 0x6C, 0x73, 0x65]
    pure none
  else if first = 0x2D then
    skipUnsigned
    pure none
  else if isDigitByte first then
    skipDigits first
    pure none
  else if first = 0x22 then
    skipLiteral
    pure none
  else if first = 0x5B then pure (some .list)
  else if first = 0x7B then pure (some .object)
  else stop .valueExpected

/-- Closes brackets until another value has to follow. Yields the brackets that
are still open; there are none when the outermost value is complete. -/
def settle : List Bracket -> (afterValue : Bool) -> Reader (List Bracket)
  | [], _ => pure []
  | bracket :: outer, afterValue => do
      match ← peekToken with
      | none => stopAtNext bracket.atEnd
      | some b =>
          if b = 0x2C ∧ afterValue then
            drop
            pure (bracket :: outer)
          else if b = bracket.closing then
            drop
            settle outer true
          else if afterValue then stopAtNext bracket.commaOrEnd
          else pure (bracket :: outer)

def colon : Reader Unit := do
  match ← peekToken with
  | none => stopAtNext .endInObject
  | some b => if b = 0x3A then drop else stopAtNext .colonExpected

def skipKey : Reader Unit := do
  match ← peekToken with
  | none => stopAtNext .endInObject
  | some b =>
      if b = 0x22 then
        drop
        skipLiteral
        colon
      else stopAtNext .keyNotString

/-- Skips what has to stand between the first byte of a value and the next value
within the given brackets. -/
def skipToNext (first : UInt8) (around : List Bracket) : Reader (List Bracket) := do
  let opened ← skipBehind first
  let inside ← settle (opened.toList ++ around) opened.isNone
  if inside.head? = some .object then skipKey
  pure inside

/-- Skips a value and all that follows it within the brackets around it. -/
def skipWithin (around : List Bracket) (c : Cursor) : Except Stop (Unit × Cursor) :=
  match hs : peekToken.run c with
  | .error stop => .error stop
  | .ok (_, token) =>
      match ht : token.rest with
      | [] => .error ⟨.endInValue, token.offset⟩
      | first :: rest =>
          match h : (skipToNext first around).run ⟨rest, token.offset + 1⟩ with
          | .error stop => .error stop
          | .ok ([], c') => .ok ((), c')
          | .ok (inside, c') =>
              have : c'.rest.length < c.rest.length := by
                have h1 := peekToken.run_le hs
                have h2 := (skipToNext first around).run_le h
                simp only [ht, List.length_cons] at h1
                exact Nat.lt_of_le_of_lt h2 h1
              skipWithin inside c'
termination_by c.rest.length

theorem skipWithin_le {around : List Bracket} {c : Cursor} {u : Unit} {c' : Cursor}
    (h : skipWithin around c = .ok (u, c')) : c'.rest.length ≤ c.rest.length := by
  unfold skipWithin at h
  split at h
  · cases h
  · rename_i token hs
    have h1 := peekToken.run_le hs
    split at h
    · cases h
    · rename_i first rest ht
      simp only [ht, List.length_cons] at h1
      split at h
      · cases h
      · rename_i mid hmid
        have h2 := (skipToNext first around).run_le hmid
        cases h
        exact Nat.le_of_lt (Nat.lt_of_le_of_lt h2 h1)
      · rename_i inside mid _ hmid
        have h2 := (skipToNext first around).run_le hmid
        have hlt : mid.rest.length < c.rest.length := Nat.lt_of_le_of_lt h2 h1
        exact Nat.le_trans (skipWithin_le h) (Nat.le_of_lt hlt)
termination_by c.rest.length

def skipValue : Reader Unit where
  run := skipWithin []
  run_le := skipWithin_le

end Reader
end Json
end RenewalDrive
