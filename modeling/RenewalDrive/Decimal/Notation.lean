import RenewalDrive.Decimal.Shortest
import RenewalDrive.Text.Numeral

/-!
# The notation of real numbers

Real numbers are written with the fewest digits that identify them: positionally
with a point while the leading digit stands for `10 ^ -5` to `10 ^ 15`, and with a
signed exponent otherwise.
-/

namespace RenewalDrive
namespace Decimal

/-- The least and the greatest exponent of a leading digit that is written
positionally. -/
def positional : Int × Int := (-5, 15)

def Scaled.layout (d : Scaled) : List Char :=
  let digits := Text.numeral d.digits
  let leading := d.exponent + digits.length - 1
  if positional.1 ≤ leading ∧ leading ≤ positional.2 then
    if 0 ≤ d.exponent then digits ++ List.replicate d.exponent.toNat '0' ++ ['.', '0']
    else if 0 ≤ leading then
      digits.take (leading.toNat + 1) ++ '.' :: digits.drop (leading.toNat + 1)
    else '0' :: '.' :: List.replicate (-leading - 1).toNat '0' ++ digits
  else
    let mantissa :=
      match digits with
      | first :: second :: rest => first :: '.' :: second :: rest
      | short => short
    mantissa ++ 'e' :: (if leading < 0 then '-' else '+') :: Text.numeral leading.natAbs

def realText (x : Float) : String :=
  let bits := x.toBits
  let sign := if bits >>> 63 = 1 then ['-'] else []
  String.ofList (sign ++ (Binary.ofBits (bits &&& 0x7FFFFFFFFFFFFFFF)).shortest.layout)

end Decimal
end RenewalDrive
