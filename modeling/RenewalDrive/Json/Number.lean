import RenewalDrive.Json.Reader

/-!
# Numbers

A number without fraction and exponent is an integer as long as its digits fit 64
bits; every other number is real. The digits of a real number are kept while they
fit 64 bits and are then scaled by a power of ten, each step rounded to the
nearest binary64 value.
-/

namespace RenewalDrive
namespace Json

inductive Number where
  | natural (value : Nat)
  /-- The negative integer of the given size. -/
  | negative (size : Nat)
  | real (value : Float)

def Number.found : Number -> Found
  | .natural value => .integer value
  | .negative size => .integer (-(size : Int))
  | .real value => .real value

def naturalLimit : Nat := 18446744073709551615

def negativeLimit : Nat := 9223372036854775808

def exponentLimit : Nat := 2147483647

/-- The largest power of ten that a binary64 value can be scaled by at once. -/
def scaleLimit : Nat := 308

def powerOfTen (n : Nat) : Float :=
  Float.ofScientific 1 false n

/-- A value divided by `10 ^ n`, by at most `10 ^ 308` at a time; a value that has
become zero stays zero. -/
def scaleDown (value : Float) (n : Nat) : Float :=
  if n ≤ scaleLimit then value / powerOfTen n
  else if value == 0.0 then value
  else scaleDown (value / powerOfTen scaleLimit) (n - scaleLimit)
termination_by n
decreasing_by
  simp only [scaleLimit] at *
  omega

/-- The value `digits * 10 ^ exponent`, or nothing when it exceeds all binary64
values. -/
def scaled? (digits : Nat) (exponent : Int) : Option Float :=
  let value := Float.ofNat digits
  if exponent < 0 then some (scaleDown value exponent.natAbs)
  else if exponent ≤ scaleLimit then
    let product := value * powerOfTen exponent.natAbs
    if product.isInf then none else some product
  else if value == 0.0 then some value
  else none

def isDigitByte (b : UInt8) : Bool :=
  0x30 ≤ b && b ≤ 0x39

def digitByteValue (b : UInt8) : Nat :=
  b.toNat - 0x30

/-- How many digits at the front can follow a value without leaving 64 bits. -/
def fitting (limit : Nat) : Nat -> List UInt8 -> Nat
  | _, [] => 0
  | value, b :: rest =>
      let value := 10 * value + digitByteValue b
      if value ≤ limit then fitting limit value rest + 1 else 0

def continued (value : Nat) (digits : List UInt8) : Nat :=
  digits.foldl (fun value b => 10 * value + digitByteValue b) value

namespace Reader

/-- Yields `digits * 10 ^ exponent` with a sign. -/
def real (negative : Bool) (digits : Nat) (exponent : Int) : Reader Number :=
  match scaled? digits exponent with
  | some value => pure (.real (if negative then -value else value))
  | none => stop .numberOutOfRange

/-- Takes an exponent from its `e` on. -/
def realExponent (negative : Bool) (digits : Nat) (exponent : Int) : Reader Number := do
  drop
  let sign ← peek
  if sign = some 0x2B ∨ sign = some 0x2D then drop
  match ← next with
  | none => stop .endInValue
  | some first =>
      if isDigitByte first then
        let small := sign = some 0x2D
        let start ← peekDigits
        let count := fitting exponentLimit (digitByteValue first) start
        if count = start.length then
          let _ ← takeWhile isDigitByte
          let size : Int := continued (digitByteValue first) start
          real negative digits (if small then exponent - size else exponent + size)
        else if digits ≠ 0 ∧ ¬ small then
          takeSome (count + 1)
          stop .numberOutOfRange
        else
          let _ ← takeWhile isDigitByte
          pure (.real (if negative then -0.0 else 0.0))
      else stop .invalidNumber
where
  /-- The digits at the front, which are not taken. -/
  peekDigits : Reader (List UInt8) :=
    { run := fun c => .ok (c.rest.takeWhile isDigitByte, c)
      run_le := by
        rintro c a c' h
        cases h
        exact Nat.le_refl _ }
  takeSome : Nat -> Reader Unit
    | 0 => pure ()
    | n + 1 => do
        drop
        takeSome n

def realEnd (negative : Bool) (digits : Nat) (exponent : Int) : Reader Number := do
  let b ← peek
  if b = some 0x65 ∨ b = some 0x45 then realExponent negative digits exponent
  else real negative digits exponent

/-- Takes a fraction from its point on. The digits that no longer fit are dropped. -/
def realFraction (negative : Bool) (digits : Nat) (exponent : Int) : Reader Number := do
  drop
  let run ← takeWhile isDigitByte
  if run.isEmpty then
    match ← peek with
    | some _ => stopAtNext .invalidNumber
    | none => stop .endInValue
  else
    let count := fitting naturalLimit digits run
    realEnd negative (continued digits (run.take count)) (exponent - count)

/-- Takes what follows the digits of a number whose first `digits` were kept and
whose last `dropped` were not. -/
def numberEnd (negative : Bool) (digits dropped : Nat) : Reader Number := do
  let b ← peek
  if b = some 0x2E then realFraction negative digits dropped
  else if b = some 0x65 ∨ b = some 0x45 then realExponent negative digits dropped
  else if dropped ≠ 0 then real negative digits dropped
  else if ¬ negative then pure (.natural digits)
  else if digits = 0 ∨ negativeLimit < digits then pure (.real (-(Float.ofNat digits)))
  else pure (.negative digits)

/-- Takes a number from behind its sign. -/
def unsignedNumber (negative : Bool) : Reader Number := do
  match ← next with
  | none => stop .endInValue
  | some first =>
      if first = 0x30 then
        match ← peek with
        | some b =>
            if isDigitByte b then stopAtNext .invalidNumber else numberEnd negative 0 0
        | none => numberEnd negative 0 0
      else if isDigitByte first then
        let run ← takeWhile isDigitByte
        let count := fitting naturalLimit (digitByteValue first) run
        numberEnd negative (continued (digitByteValue first) (run.take count))
          (run.length - count)
      else stop .invalidNumber

def number : Reader Number := do
  if (← peek) = some 0x2D then
    drop
    unsignedNumber true
  else unsignedNumber false

/-! ## Skipping -/

def skipExponent : Reader Unit := do
  drop
  let sign ← peek
  if sign = some 0x2B ∨ sign = some 0x2D then drop
  match ← next with
  | some b =>
      if isDigitByte b then
        let _ ← takeWhile isDigitByte
      else stop .invalidNumber
  | none => stop .invalidNumber

def skipFraction : Reader Unit := do
  drop
  let run ← takeWhile isDigitByte
  if run.isEmpty then stopAtNext .invalidNumber
  else
    let b ← peek
    if b = some 0x65 ∨ b = some 0x45 then skipExponent

def skipNumberEnd : Reader Unit := do
  let b ← peek
  if b = some 0x2E then skipFraction
  else if b = some 0x65 ∨ b = some 0x45 then skipExponent

/-- Skips the rest of a number from behind its first digit. -/
def skipDigits (first : UInt8) : Reader Unit := do
  if first = 0x30 then
    match ← peek with
    | some b => if isDigitByte b then stopAtNext .invalidNumber else skipNumberEnd
    | none => pure ()
  else if isDigitByte first then
    let _ ← takeWhile isDigitByte
    skipNumberEnd
  else stop .invalidNumber

def skipUnsigned : Reader Unit := do
  match ← next with
  | some first => skipDigits first
  | none => stop .invalidNumber

end Reader
end Json
end RenewalDrive
