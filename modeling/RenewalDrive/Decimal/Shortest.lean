/-!
# Shortest decimals

A finite binary64 value is `m * 2 ^ q` with natural `m`. The decimals that are
read back as that value form an interval around it; `Binary.shortest` gives the
decimal with the fewest digits in this interval, and of two such decimals the
nearer one, an exact tie going to the even digit.
-/

namespace RenewalDrive
namespace Decimal

/-- The decimal `digits * 10 ^ exponent`. -/
structure Scaled where
  digits : Nat
  exponent : Int
deriving DecidableEq

/-- The value `mantissa * 2 ^ exponent` of a finite non-negative number. -/
structure Binary where
  mantissa : Nat
  exponent : Int
  /-- The next smaller number is only half as far away as the next larger one. -/
  narrowBelow : Bool

/-- The value of the bits of a finite number, its sign apart. -/
def Binary.ofBits (bits : UInt64) : Binary :=
  let exponent := ((bits >>> 52) &&& 0x7FF).toNat
  let fraction := (bits &&& 0xFFFFFFFFFFFFF).toNat
  if exponent = 0 then ⟨fraction, -1074, false⟩
  else ⟨Nat.pow 2 52 + fraction, (exponent : Int) - 1075, fraction == 0 && exponent > 1⟩

/-- Compares `a * 10 ^ i` with `b * 2 ^ j`. -/
def compareScaled (a : Nat) (i : Int) (b : Nat) (j : Int) : Ordering :=
  compare (a * Nat.pow 10 i.toNat * Nat.pow 2 (-j).toNat)
    (b * Nat.pow 2 j.toNat * Nat.pow 10 (-i).toNat)

/-- A decimal lies in the interval that is read back as the value; the ends belong
to the interval when the mantissa is even. -/
def Binary.readsBack (x : Binary) (d : Scaled) : Bool :=
  let low := if x.narrowBelow then 4 * x.mantissa - 1 else 4 * x.mantissa - 2
  let high := 4 * x.mantissa + 2
  let ends := x.mantissa % 2 = 0
  let below := compareScaled d.digits d.exponent low (x.exponent - 2)
  let above := compareScaled d.digits d.exponent high (x.exponent - 2)
  (below == .gt || ends && below == .eq) && (above == .lt || ends && above == .eq)

/-- The value in units of `10 ^ exponent`, as a quotient of natural numbers. -/
def Binary.inUnits (x : Binary) (exponent : Int) : Nat × Nat :=
  (x.mantissa * Nat.pow 2 x.exponent.toNat * Nat.pow 10 (-exponent).toNat,
    Nat.pow 2 (-x.exponent).toNat * Nat.pow 10 exponent.toNat)

/-- The nearest multiple of `10 ^ exponent` that is read back, if there is one. -/
def Binary.onGrid? (x : Binary) (exponent : Int) : Option Scaled :=
  let (numerator, denominator) := x.inUnits exponent
  let floor := numerator / denominator
  let lower : Scaled := ⟨floor, exponent⟩
  let upper : Scaled := ⟨floor + 1, exponent⟩
  match x.readsBack lower, x.readsBack upper with
  | true, true =>
      match compare (2 * numerator) ((2 * floor + 1) * denominator) with
      | .lt => some lower
      | .gt => some upper
      | .eq => some (if floor % 2 = 0 then lower else upper)
  | true, false => some lower
  | false, true => some upper
  | false, false => none

def Scaled.strip (d : Scaled) : Scaled :=
  (List.range 20).foldl
    (fun d _ => if d.digits % 10 = 0 ∧ d.digits ≠ 0 then ⟨d.digits / 10, d.exponent + 1⟩ else d) d

def Binary.exact (x : Binary) : Scaled :=
  if 0 ≤ x.exponent then ⟨x.mantissa * Nat.pow 2 x.exponent.toNat, 0⟩
  else ⟨x.mantissa * Nat.pow 5 (-x.exponent).toNat, x.exponent⟩

/-- The shortest decimal of a value: the grids from `10 ^ 309` down are tried, and
the first with a decimal that is read back wins. -/
def Binary.shortest (x : Binary) : Scaled :=
  if x.mantissa = 0 then ⟨0, 0⟩
  else
    match (List.range 634).findSome? fun (n : Nat) => x.onGrid? (309 - n) with
    | some d => d.strip
    | none => x.exact

end Decimal
end RenewalDrive
