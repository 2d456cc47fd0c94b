import RenewalDrive.Decimal.Notation
import RenewalDrive.Text.Quoted

/-!
# Faults of JSON texts

A fault says what is wrong with a text and where: the line, and the column as the
number of bytes of that line up to the fault. `Fault.message` is its text.
-/

namespace RenewalDrive
namespace Json

inductive Found where
  | null
  | bool (value : Bool)
  | integer (value : Int)
  | real (value : Float)
  | text (value : String)
  | sequence
  | map

def Found.message : Found -> String
  | .null => "null"
  | .bool true => "boolean `true`"
  | .bool false => "boolean `false`"
  | .integer value => "integer `" ++ Text.integerText value ++ "`"
  | .real value => "floating point `" ++ Decimal.realText value ++ "`"
  | .text value => "string " ++ Text.quoted value
  | .sequence => "sequence"
  | .map => "map"

inductive Cause where
  | endInList
  | endInObject
  | endInString
  | endInValue
  | colonExpected
  | listCommaOrEnd
  | objectCommaOrEnd
  | wordExpected
  | valueExpected
  | invalidEscape
  | invalidNumber
  | numberOutOfRange
  | invalidCodePoint
  | controlCharacter
  | keyNotString
  | loneSurrogate
  | endOfSurrogates
  | trailingComma
  | trailingCharacters
  | wrongType (found : Found) (wanted : String)
  | wrongValue (found : Found) (wanted : String)
  | wrongLength (length : Nat) (wanted : String)
  | missingField (name : String)
  | repeatedField (name : String)
  | unknownVariant (given : String) (known : List String)
  /-- The type that a value is read as does not accept it. -/
  | refused (reason : String)

def Cause.message : Cause -> String
  | .endInList => "EOF while parsing a list"
  | .endInObject => "EOF while parsing an object"
  | .endInString => "EOF while parsing a string"
  | .endInValue => "EOF while parsing a value"
  | .colonExpected => "expected `:`"
  | .listCommaOrEnd => "expected `,` or `]`"
  | .objectCommaOrEnd => "expected `,` or `\x7d`"
  | .wordExpected => "expected ident"
  | .valueExpected => "expected value"
  | .invalidEscape => "invalid escape"
  | .invalidNumber => "invalid number"
  | .numberOutOfRange => "number out of range"
  | .invalidCodePoint => "invalid unicode code point"
  | .controlCharacter =>
      "control character (\\u0000-\\u001F) found while parsing a string"
  | .keyNotString => "key must be a string"
  | .loneSurrogate => "lone leading surrogate in hex escape"
  | .endOfSurrogates => "unexpected end of hex escape"
  | .trailingComma => "trailing comma"
  | .trailingCharacters => "trailing characters"
  | .wrongType found wanted => "invalid type: " ++ found.message ++ ", expected " ++ wanted
  | .wrongValue found wanted => "invalid value: " ++ found.message ++ ", expected " ++ wanted
  | .wrongLength length wanted =>
      "invalid length " ++ Text.naturalText length ++ ", expected " ++ wanted
  | .missingField name => "missing field `" ++ name ++ "`"
  | .repeatedField name => "duplicate field `" ++ name ++ "`"
  | .unknownVariant given known =>
      "unknown variant `" ++ given ++ "`, expected one of " ++
        String.intercalate ", " (known.map fun name => "`" ++ name ++ "`")
  | .refused reason => reason

/-- A place in a text: the line from 1, and the bytes of that line before it. -/
structure Position where
  line : Nat
  column : Nat
deriving DecidableEq

def Position.after (bytes : List UInt8) : Position :=
  bytes.foldl (fun p b => if b = 0x0A then ⟨p.line + 1, 0⟩ else ⟨p.line, p.column + 1⟩) ⟨1, 0⟩

structure Fault where
  cause : Cause
  position : Position

def Fault.message (fault : Fault) : String :=
  fault.cause.message ++ " at line " ++ Text.naturalText fault.position.line ++ " column " ++
    Text.naturalText fault.position.column

/-! ## Reasons that name a position -/

def positionLimit : Nat := 18446744073709551615

def positionPart? (digits : List Char) : Option Nat :=
  if digits = [] then none
  else
    let value := Text.numeralValue digits
    if value ≤ positionLimit then some value else none

/-- A reason and the position that it ends in, such as `… at line 3 column 7`;
both are found from the end of the text. -/
def splitPosition? (reason : List Char) : Option (List Char × Position) := do
  let reversed := reason.reverse
  let column := (reversed.takeWhile Text.isDigit).reverse
  let rest := reversed.drop column.length
  let mark := " column ".toList.reverse
  guard (mark.isPrefixOf rest)
  let rest := rest.drop mark.length
  let line := (rest.takeWhile Text.isDigit).reverse
  let rest := rest.drop line.length
  let mark := " at line ".toList.reverse
  guard (mark.isPrefixOf rest)
  return ((rest.drop mark.length).reverse, ⟨← positionPart? line, ← positionPart? column⟩)

/-- The fault for a cause that arose at a position. A reason that ends in a
position of its own keeps that one, unless it names line 0. -/
def Fault.arising (cause : Cause) (position : Position) : Fault :=
  match cause with
  | .refused reason =>
      match splitPosition? reason.toList with
      | some (reason, own) =>
          ⟨.refused (String.ofList reason), if own.line = 0 then position else own⟩
      | none => ⟨cause, position⟩
  | _ => ⟨cause, position⟩

end Json
end RenewalDrive
