/-!
# White space

The blank characters are the twenty-five code points with the Unicode property
White_Space. Trimming drops blanks at the ends of a text, and `words` cuts a
text at its blanks.
-/

namespace RenewalDrive
namespace Text

/-- The code points with the property White_Space, as ascending closed ranges. -/
def blankRanges : List (Nat × Nat) :=
  [(0x09, 0x0D), (0x20, 0x20), (0x85, 0x85), (0xA0, 0xA0), (0x1680, 0x1680),
    (0x2000, 0x200A), (0x2028, 0x2029), (0x202F, 0x202F), (0x205F, 0x205F),
    (0x3000, 0x3000)]

def isBlank (c : Char) : Bool :=
  blankRanges.any fun range => range.1 ≤ c.toNat && c.toNat ≤ range.2

/-! ## Trimming -/

def trimStart (cs : List Char) : List Char :=
  cs.dropWhile isBlank

def trimEnd (cs : List Char) : List Char :=
  (cs.reverse.dropWhile isBlank).reverse

def trim (cs : List Char) : List Char :=
  trimEnd (trimStart cs)

def trimmed (text : String) : String :=
  String.ofList (trim text.toList)

def allBlank (text : String) : Bool :=
  text.toList.all isBlank

/-! ## Words -/

def lengthenFirst (c : Char) : List (List Char) -> List (List Char)
  | [] => [[c]]
  | word :: rest => (c :: word) :: rest

/-- The maximal runs of characters that are not blank, in order. -/
def wordsOf : List Char -> List (List Char)
  | [] => []
  | c :: rest =>
      if isBlank c then wordsOf rest
      else
        match rest with
        | [] => [[c]]
        | next :: _ =>
            if isBlank next then [c] :: wordsOf rest
            else lengthenFirst c (wordsOf rest)

def words (text : String) : List String :=
  (wordsOf text.toList).map String.ofList

end Text
end RenewalDrive
