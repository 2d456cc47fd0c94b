/-!
# Decimal numerals

Natural numbers as runs of the digits `0` to `9`, with a least width where a
format asks for one, and their value.
-/

namespace RenewalDrive
namespace Text

def isDigit (c : Char) : Bool :=
  '0' ≤ c && c ≤ '9'

def digitValue (c : Char) : Nat :=
  c.toNat - '0'.toNat

/-- The value of a run of digits, the most significant first. -/
def numeralValue (digits : List Char) : Nat :=
  digits.foldl (fun value digit => 10 * value + digitValue digit) 0

def numeral (n : Nat) : List Char :=
  Nat.toDigits 10 n

/-- The digits of a number, with leading zeros up to the given width. -/
def paddedNumeral (width n : Nat) : List Char :=
  (numeral n).leftpad width '0'

/-- The text of an integer, with a minus sign when it is negative. -/
def integerText (n : Int) : String :=
  if n < 0 then String.ofList ('-' :: numeral n.natAbs) else String.ofList (numeral n.natAbs)

def naturalText (n : Nat) : String :=
  String.ofList (numeral n)

/-- A text filled up on the right with blanks to a width counted in characters. -/
def padRight (width : Nat) (text : String) : String :=
  String.ofList (text.toList.rightpad width ' ')

def padLeft (width : Nat) (text : String) : String :=
  String.ofList (text.toList.leftpad width ' ')

end Text
end RenewalDrive
