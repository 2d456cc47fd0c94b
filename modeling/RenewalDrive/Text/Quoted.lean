import RenewalDrive.Text.Hidden
import RenewalDrive.Text.Numeral

/-!
# Quoted texts

A text in double quotes in which every character shows: quotes and backslashes
have a backslash, five control characters have a letter, and all other characters
that do not show have their code point in hexadecimal digits.
-/

namespace RenewalDrive
namespace Text

def quotedLetter? : Char -> Option Char
  | '"' => some '"'
  | '\\' => some '\\'
  | '\n' => some 'n'
  | '\r' => some 'r'
  | '\t' => some 't'
  | '\x00' => some '0'
  | _ => none

def quotedChar (c : Char) : List Char :=
  match quotedLetter? c with
  | some letter => ['\\', letter]
  | none =>
      if 0x20 ≤ c.toNat ∧ c.toNat < 0x7F then [c]
      else if isHidden c then
        '\\' :: 'u' :: '\x7b' :: Nat.toDigits 16 c.toNat ++ ['\x7d']
      else [c]

def quoted (text : String) : String :=
  String.ofList ('"' :: text.toList.flatMap quotedChar ++ ['"'])

end Text
end RenewalDrive
