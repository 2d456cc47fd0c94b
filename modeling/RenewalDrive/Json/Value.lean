import RenewalDrive.Text.Numeral

/-!
# Writing JSON

The values that records are written as, and their two text forms: `compact`
without any white space, and `pretty` with one member or element a line and two
blanks of indentation for each level.
-/

namespace RenewalDrive
namespace Json

inductive Value where
  | null
  | bool (value : Bool)
  | natural (value : Nat)
  | text (value : String)
  | list (values : List Value)
  | object (members : List (String × Value))

def escapeLetter? (c : Char) : Option Char :=
  if c = '"' then some '"'
  else if c = '\\' then some '\\'
  else if c = '\x08' then some 'b'
  else if c = '\x0c' then some 'f'
  else if c = '\n' then some 'n'
  else if c = '\r' then some 'r'
  else if c = '\t' then some 't'
  else none

/-- The form of one character in a string literal: a letter or four hexadecimal
digits behind a backslash where the character may not stand for itself. -/
def escaped (c : Char) : List Char :=
  match escapeLetter? c with
  | some letter => ['\\', letter]
  | none =>
      if c.toNat < 0x20 then '\\' :: 'u' :: (Nat.toDigits 16 c.toNat).leftpad 4 '0' else [c]

def literalText (text : String) : List Char :=
  '"' :: text.toList.flatMap escaped ++ ['"']

def scalarText : Value -> List Char
  | .null => "null".toList
  | .bool true => "true".toList
  | .bool false => "false".toList
  | .natural value => Text.numeral value
  | .text value => literalText value
  | .list _ => []
  | .object _ => []

/-! ## Compact form -/

mutual

def compactText : Value -> List Char
  | .list values => '[' :: compactElements values ++ [']']
  | .object members => '\x7b' :: compactMembers members ++ ['\x7d']
  | scalar => scalarText scalar

def compactElements : List Value -> List Char
  | [] => []
  | [value] => compactText value
  | value :: rest => compactText value ++ ',' :: compactElements rest

def compactMembers : List (String × Value) -> List Char
  | [] => []
  | [(name, value)] => literalText name ++ ':' :: compactText value
  | (name, value) :: rest =>
      literalText name ++ ':' :: compactText value ++ ',' :: compactMembers rest

end

def Value.compact (value : Value) : String :=
  String.ofList (compactText value)

/-! ## Pretty form -/

def newLine (level : Nat) : List Char :=
  '\n' :: List.replicate (2 * level) ' '

mutual

def prettyText (level : Nat) : Value -> List Char
  | .list values =>
      if values.isEmpty then ['[', ']']
      else '[' :: prettyElements (level + 1) values ++ newLine level ++ [']']
  | .object members =>
      if members.isEmpty then ['\x7b', '\x7d']
      else '\x7b' :: prettyMembers (level + 1) members ++ newLine level ++ ['\x7d']
  | scalar => scalarText scalar

def prettyElements (level : Nat) : List Value -> List Char
  | [] => []
  | [value] => newLine level ++ prettyText level value
  | value :: rest => newLine level ++ prettyText level value ++ ',' :: prettyElements level rest

def prettyMembers (level : Nat) : List (String × Value) -> List Char
  | [] => []
  | [(name, value)] => newLine level ++ literalText name ++ ':' :: ' ' :: prettyText level value
  | (name, value) :: rest =>
      newLine level ++ literalText name ++ ':' :: ' ' :: prettyText level value ++
        ',' :: prettyMembers level rest

end

def Value.pretty (value : Value) : String :=
  String.ofList (prettyText 0 value)

end Json
end RenewalDrive
