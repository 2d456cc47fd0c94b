import RenewalDrive.Text.Blank
import RenewalDrive.Time.Instant

/-!
# Instants as RFC 3339 texts

`Rfc3339.write` gives the one written form of an instant, in UTC. `Rfc3339.read`
accepts more: blanks before each number, numbers with fewer digits, any number
of fraction digits, and an offset from UTC.
-/

namespace RenewalDrive

namespace Rfc3339

/-! ## Writing -/

/-- A year: four digits from 0 to 9999, else a sign and at least four digits. -/
def yearText (year : Int) : List Char :=
  if 0 ≤ year ∧ year ≤ 9999 then Text.paddedNumeral 4 year.natAbs
  else (if year < 0 then '-' else '+') :: Text.paddedNumeral 4 year.natAbs

/-- The fraction of a second in three, six or nine digits, the fewest that are
exact; nothing for a whole second. -/
def fractionText (nanoseconds : Nat) : List Char :=
  if nanoseconds = 0 then []
  else if nanoseconds % 1000000 = 0 then '.' :: Text.paddedNumeral 3 (nanoseconds / 1000000)
  else if nanoseconds % 1000 = 0 then '.' :: Text.paddedNumeral 6 (nanoseconds / 1000)
  else '.' :: Text.paddedNumeral 9 nanoseconds

def writeChars (t : Instant) : List Char :=
  let date := t.date
  let second := t.secondOfDay % 60
  let leap := t.inLeapSecond
  yearText date.year ++ '-' :: Text.paddedNumeral 2 date.month ++
    '-' :: Text.paddedNumeral 2 date.day ++
    'T' :: Text.paddedNumeral 2 (t.secondOfDay / 3600) ++
    ':' :: Text.paddedNumeral 2 (t.secondOfDay / 60 % 60) ++
    ':' :: Text.paddedNumeral 2 (if leap then second + 1 else second) ++
    fractionText (if leap then t.fraction - Span.perSecond else t.fraction) ++ ['Z']

def write (t : Instant) : String :=
  String.ofList (writeChars t)

/-! ## Reading -/

inductive Fault where
  | outOfRange
  | impossible
  | invalid
  | tooShort
  | tooLong
deriving DecidableEq

def Fault.message : Fault -> String
  | .outOfRange => "input is out of range"
  | .impossible => "no possible date and time matching input"
  | .invalid => "input contains invalid characters"
  | .tooShort => "premature end of input"
  | .tooLong => "trailing input"

/-- A reader of a part of the text: it takes characters from the front. -/
abbrev Scan := StateT (List Char) (Except Fault)

def blanks : Scan Unit :=
  modify Text.trimStart

def expect (c : Char) : Scan Unit := do
  match ← get with
  | [] => throw .tooShort
  | d :: rest => if d = c then set rest else throw .invalid

def digitsLimit : Nat := 9223372036854775807

/-- Takes a run of at least one digit from the part of the text that `window`
admits, and gives its value. -/
def digits (window : List Char -> List Char) : Scan (Nat × Nat) := do
  match ← get with
  | [] => throw .tooShort
  | text@(c :: _) =>
      if Text.isDigit c then
        let run := (window text).takeWhile Text.isDigit
        let value := Text.numeralValue run
        if digitsLimit < value then throw .outOfRange
        set (text.drop run.length)
        return (value, run.length)
      else throw .invalid

/-- Takes a number of at most `width` digits that has to lie between the bounds. -/
def number (width low high : Nat) : Scan Nat := do
  blanks
  let (value, _) ← digits (List.take width)
  if low ≤ value ∧ value ≤ high then return value else throw .outOfRange

/-- Takes a year: up to four digits, or a sign and any number of digits. -/
def year : Scan Int := do
  blanks
  let value : Int ←
    match ← get with
    | '-' :: rest => do
        set rest
        pure (-(← digits id).1)
    | '+' :: rest => do
        set rest
        pure (← digits id).1
    | _ => pure (← digits (List.take 4)).1
  if -2147483648 ≤ value ∧ value ≤ 2147483647 then return value else throw .outOfRange

def separator : Scan Unit := do
  match ← get with
  | [] => throw .tooShort
  | c :: rest => if c = 'T' ∨ c = 't' ∨ c = ' ' then set rest else throw .invalid

/-- Takes the fraction of a second, if there is one, as nanoseconds; the digits
after the ninth are dropped. -/
def fraction : Scan Nat := do
  match ← get with
  | '.' :: rest =>
      set rest
      let (value, width) ← digits (List.take 9)
      modify (List.dropWhile Text.isDigit)
      return value * Nat.pow 10 (9 - width)
  | _ => return 0

/-- Takes two characters; fewer than two bytes are too few. -/
def pair : Scan (Char × Char) := do
  match ← get with
  | a :: b :: rest =>
      set rest
      return (a, b)
  | [a] => if a.utf8Size < 2 then throw .tooShort else throw .invalid
  | [] => throw .tooShort

def twoDigits : Scan (Nat × Nat) := do
  let (a, b) ← pair
  if Text.isDigit a ∧ Text.isDigit b then return (Text.digitValue a, Text.digitValue b)
  else throw .invalid

/-- Takes hours and minutes after the sign of an offset, in seconds. -/
def offsetSize : Scan Nat := do
  let (h, h') ← twoDigits
  modify (List.dropWhile fun c => c = ':' || Text.isBlank c)
  let (m, m') ← twoDigits
  if 6 ≤ m then throw .outOfRange
  return (10 * h + h') * 3600 + (10 * m + m') * 60

def isLetter (letter c : Char) : Bool :=
  c = letter || c = letter.toLower

def startsWithUtc (text : List Char) : Bool :=
  3 ≤ text.length && (text.zip ['U', 'T', 'C']).all fun pair => isLetter pair.2 pair.1

/-- Takes the offset from UTC in seconds: `UTC`, `Z`, or a sign with hours and
minutes. -/
def offset : Scan Int := do
  blanks
  match ← get with
  | [] => throw .tooShort
  | text@(c :: rest) =>
      if startsWithUtc text then
        set (text.drop 3)
        return 0
      else if isLetter 'Z' c then
        set rest
        return 0
      else if c = '+' then
        set rest
        return (← offsetSize)
      else if c = '-' ∨ c = '−' then
        set rest
        return -(← offsetSize)
      else throw .invalid

structure Reading where
  date : Date
  hour : Nat
  minute : Nat
  second : Nat
  fraction : Nat
  offset : Int

def reading : Scan Reading := do
  let y ← year
  blanks
  expect '-'
  let month ← number 2 1 12
  blanks
  expect '-'
  let day ← number 2 1 31
  separator
  let hour ← number 2 0 23
  blanks
  expect ':'
  let minute ← number 2 0 59
  blanks
  expect ':'
  let second ← number 2 0 60
  let nanoseconds ← fraction
  blanks
  let offset ← offset
  return ⟨⟨y, month, day⟩, hour, minute, second, nanoseconds, offset⟩

def LocalDate (date : Date) : Prop :=
  date.Valid ∧ Instant.firstSecond ≤ date.toDays * 86400 ∧ date.toDays * 86400 ≤ Instant.lastSecond

instance (date : Date) : Decidable (LocalDate date) :=
  inferInstanceAs (Decidable (_ ∧ _ ∧ _))

/-- The instant that a reading names. The second 60 is the leap second after 59. -/
def Reading.toInstant (r : Reading) : Except Fault Instant :=
  if LocalDate r.date then
    if r.offset.natAbs < 86400 then
      let leap := r.second = 60
      let second := if leap then 59 else r.second
      let fraction := if leap then r.fraction + Span.perSecond else r.fraction
      let localSecond := r.date.toDays * 86400 + (3600 * r.hour + 60 * r.minute + second)
      match Instant.ofParts? (localSecond - r.offset) fraction with
      | some t => .ok t
      | none => .error .impossible
    else .error .outOfRange
  else .error .outOfRange

def readChars (text : List Char) : Except Fault Instant := do
  let (r, rest) ← reading.run text
  if Text.trimStart rest ≠ [] then throw .tooLong
  r.toInstant

def read (text : String) : Except Fault Instant :=
  readChars text.toList

end Rfc3339
end RenewalDrive
