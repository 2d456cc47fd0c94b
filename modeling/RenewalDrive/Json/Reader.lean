import RenewalDrive.Json.Fault

/-!
# Readers

A reader takes bytes from the front of a JSON text and either yields a value or
stops with a cause at an offset. A reader never gives bytes back, so loops over
readers end: `Reader.run_le` bounds what is left after a run.
-/

namespace RenewalDrive
namespace Json

/-- A place in a text: the bytes that are left, and the number of those before. -/
structure Cursor where
  rest : List UInt8
  offset : Nat

structure Stop where
  cause : Cause
  offset : Nat

structure Reader (α : Type) where
  run : Cursor -> Except Stop (α × Cursor)
  /-- No run leaves more bytes than it was given. -/
  run_le : forall {c : Cursor} {a : α} {c' : Cursor},
    run c = .ok (a, c') -> c'.rest.length ≤ c.rest.length

namespace Reader

variable {α β : Type}

/-! ## Sequencing -/

protected def pure (a : α) : Reader α where
  run c := .ok (a, c)
  run_le := by
    rintro c a' c' h
    cases h
    exact Nat.le_refl _

protected def bind (r : Reader α) (f : α -> Reader β) : Reader β where
  run c :=
    match r.run c with
    | .ok (a, c') => (f a).run c'
    | .error stop => .error stop
  run_le := by
    intro c b c'' h
    split at h
    · rename_i a c' h'
      exact Nat.le_trans ((f a).run_le h) (r.run_le h')
    · cases h

instance : Monad Reader where
  pure := Reader.pure
  bind := Reader.bind

@[simp]
theorem run_pure (a : α) (c : Cursor) : (pure a : Reader α).run c = .ok (a, c) :=
  rfl

theorem run_bind (r : Reader α) (f : α -> Reader β) (c : Cursor) :
    (r >>= f).run c =
      match r.run c with
      | .ok (a, c') => (f a).run c'
      | .error stop => .error stop :=
  rfl

/-! ## Bytes -/

def peek : Reader (Option UInt8) where
  run c := .ok (c.rest.head?, c)
  run_le := by
    rintro c a c' h
    cases h
    exact Nat.le_refl _

def next : Reader (Option UInt8) where
  run c :=
    match c.rest with
    | [] => .ok (none, c)
    | b :: rest => .ok (some b, ⟨rest, c.offset + 1⟩)
  run_le := by
    intro c a c' h
    split at h
    · cases h
      exact Nat.le_refl _
    · rename_i hc
      cases h
      simp [hc]

def drop : Reader Unit := do
  let _ ← next

def takeWhile (p : UInt8 -> Bool) : Reader (List UInt8) where
  run c :=
    let taken := c.rest.takeWhile p
    .ok (taken, ⟨c.rest.dropWhile p, c.offset + taken.length⟩)
  run_le := by
    intro c a c' h
    cases h
    exact (List.dropWhile_sublist p).length_le

/-! ## Stopping -/

def stop (cause : Cause) : Reader α where
  run c := .error ⟨cause, c.offset⟩
  run_le h := nomatch h

/-- Stops a number of bytes before the place where the reader is. -/
def stopBefore (cause : Cause) (count : Nat) : Reader α where
  run c := .error ⟨cause, c.offset - count⟩
  run_le h := nomatch h

/-- Stops at the next byte, or at the end of the text when there is none. -/
def stopAtNext (cause : Cause) : Reader α where
  run c := .error ⟨cause, if c.rest.isEmpty then c.offset else c.offset + 1⟩
  run_le h := nomatch h

def stopAs (stop : Stop) : Reader α where
  run _ := .error stop
  run_le h := nomatch h

/-! ## White space and fixed words -/

def isSpace (b : UInt8) : Bool :=
  b = 0x20 || b = 0x0A || b = 0x09 || b = 0x0D

/-- Drops white space and looks at the byte behind it. -/
def peekToken : Reader (Option UInt8) := do
  let _ ← takeWhile isSpace
  peek

/-- Takes the given bytes, the rest of a fixed word. -/
def word : List UInt8 -> Reader Unit
  | [] => pure ()
  | b :: rest => do
      match ← next with
      | none => stop .endInValue
      | some b' => if b' = b then word rest else stop .wordExpected

end Reader

/-! ## Whole texts -/

/-- Reads a text that holds one value and white space. -/
def readBytes {α : Type} (r : Reader α) (text : List UInt8) : Except Fault α :=
  let whole : Reader α := do
    let value ← r
    match ← Reader.peekToken with
    | none => pure value
    | some _ => Reader.stopAtNext .trailingCharacters
  match whole.run ⟨text, 0⟩ with
  | .ok (value, _) => .ok value
  | .error ⟨cause, offset⟩ => .error (.arising cause (.after (text.take offset)))

def bytesOf (text : String) : List UInt8 :=
  text.toUTF8.toList

def readText {α : Type} (r : Reader α) (text : String) : Except Fault α :=
  readBytes r (bytesOf text)

end Json
end RenewalDrive
