import RenewalDrive.Json.Skip

/-!
# Scalars

Readers for strings, booleans, bounded natural numbers and named variants. A
reader that meets a value of another kind says which kind it found and what it
wanted; lists and objects are named without being read.
-/

namespace RenewalDrive
namespace Json
namespace Reader

variable {α : Type}

/-- Stops because the next value is of another kind than wanted. Scalars are read
before the stop. -/
def otherKind (wanted : String) : Reader α := do
  match ← peek with
  | none => stopAtNext .valueExpected
  | some b =>
      if b = 0x6E then
        drop
        word [0x75, 0x6C, 0x6C]
        stop (.wrongType .null wanted)
      else if b = 0x74 then
        drop
        word [0x72, 0x75, 0x65]
        stop (.wrongType (.bool true) wanted)
      else if b = 0x66 then
        drop
        word [0x61, 0x6C, 0x73, 0x65]
        stop (.wrongType (.bool false) wanted)
      else if b = 0x2D ∨ isDigitByte b then
        let value ← number
        stop (.wrongType value.found wanted)
      else if b = 0x22 then
        drop
        let value ← literal
        stop (.wrongType (.text value) wanted)
      else if b = 0x5B then stop (.wrongType .sequence wanted)
      else if b = 0x7B then stop (.wrongType .map wanted)
      else stopAtNext .valueExpected

def valueStart : Reader UInt8 := do
  match ← peekToken with
  | none => stopAtNext .endInValue
  | some b => pure b

/-- Reads a string; `wanted` describes it in faults. -/
def textAs (wanted : String) : Reader String := do
  let b ← valueStart
  if b = 0x22 then
    drop
    literal
  else otherKind wanted

def text : Reader String :=
  textAs "a string"

/-- Reads a string that a function has to accept; a refusal stops behind it. -/
def textThrough (wanted : String) (accept : String -> Except String α) : Reader α := do
  let given ← textAs wanted
  match accept given with
  | .ok value => pure value
  | .error reason => stop (.refused reason)

def bool : Reader Bool := do
  let b ← valueStart
  if b = 0x74 then
    drop
    word [0x72, 0x75, 0x65]
    pure true
  else if b = 0x66 then
    drop
    word [0x61, 0x6C, 0x73, 0x65]
    pure false
  else otherKind "a boolean"

def natural (limit : Nat) (wanted : String) : Reader Nat := do
  let b ← valueStart
  if b = 0x2D ∨ isDigitByte b then
    match ← number with
    | .natural value =>
        if value ≤ limit then pure value
        else stop (.wrongValue (.integer value) wanted)
    | .negative size => stop (.wrongValue (.integer (-(size : Int))) wanted)
    | .real value => stop (.wrongType (.real value) wanted)
  else otherKind wanted

def optional (r : Reader α) : Reader (Option α) := do
  if (← peekToken) = some 0x6E then
    drop
    word [0x75, 0x6C, 0x6C]
    pure none
  else
    let value ← r
    pure (some value)

def variantName (variants : List (String × α)) : Reader α := do
  let given ← textAs "variant identifier"
  match variants.lookup given with
  | some value => pure value
  | none => stop (.unknownVariant given (variants.map (·.1)))

def null : Reader Unit := do
  let b ← valueStart
  if b = 0x6E then
    drop
    word [0x75, 0x6C, 0x6C]
  else otherKind "unit"

/-- Reads a variant from behind the opening brace of its object. -/
def variantMember (variants : List (String × α)) : Reader α := do
  match ← peekToken with
  | none => stopAtNext .endInObject
  | some b =>
      if b = 0x22 then
        let value ← variantName variants
        colon
        null
        match ← peekToken with
        | none => stop .endInObject
        | some b =>
            if b = 0x7D then
              drop
              pure value
            else stop .valueExpected
      else stopAtNext .keyNotString

/-- Reads a variant: its name, or an object that has the name as its only key and
`null` behind it. -/
def variant (variants : List (String × α)) : Reader α := do
  match ← peekToken with
  | none => stopAtNext .endInValue
  | some b =>
      if b = 0x22 then variantName variants
      else if b = 0x7B then
        drop
        variantMember variants
      else stopAtNext .valueExpected

end Reader
end Json
end RenewalDrive
