import RenewalDrive.Json.Scalar

/-!
# Lists and records

A record is read into a draft, field by field, and the draft is finished when all
of it was read. Records come as objects, whose fields may stand in any order and
whose unknown fields are skipped, or as lists of their fields in order. A complaint
about a record as a whole is placed behind the record.
-/

namespace RenewalDrive
namespace Json

structure Field (δ : Type) where
  name : String
  /-- The draft already has the field. -/
  isFilled : δ -> Bool
  /-- Reads the field into a draft, or complains about the value read. -/
  read : δ -> Reader (Except Cause δ)
  /-- The field may be missing at the end of a list. -/
  isOptional : Bool

def Field.plain {δ α : Type} (name : String) (isOptional : Bool) (part : δ -> Option α)
    (put : δ -> α -> δ) (r : Reader α) : Field δ where
  name := name
  isFilled draft := (part draft).isSome
  read draft := do
    let value ← r
    pure (.ok (put draft value))
  isOptional := isOptional

/-- A kind of record: what it is called, its fields, its empty draft, and what a
draft amounts to. -/
structure Shape (δ α : Type) where
  title : String
  fields : List (Field δ)
  empty : δ
  finish : δ -> Except Cause α

def Shape.listTitle {δ α : Type} (shape : Shape δ α) : String :=
  shape.title ++ " with " ++ Text.naturalText shape.fields.length ++ " elements"

namespace Reader

variable {α δ : Type}

/-! ## Lists -/

def behindComma (r : Reader α) : Reader α := do
  match ← peekToken with
  | none => stopAtNext .endInValue
  | some b => if b = 0x5D then stopAtNext .trailingComma else r

def moreElements (r : Reader α) (c : Cursor) : Except Stop (List α × Cursor) :=
  match hs : peekToken.run c with
  | .error stop => .error stop
  | .ok (_, token) =>
      match ht : token.rest with
      | [] => .error ⟨.endInList, token.offset⟩
      | b :: rest =>
          if b = 0x5D then .ok ([], token)
          else if b = 0x2C then
            match h : (behindComma r).run ⟨rest, token.offset + 1⟩ with
            | .error stop => .error stop
            | .ok (a, c') =>
                have : c'.rest.length < c.rest.length := by
                  have h1 := peekToken.run_le hs
                  have h2 := (behindComma r).run_le h
                  simp only [ht, List.length_cons] at h1
                  exact Nat.lt_of_le_of_lt h2 h1
                match moreElements r c' with
                | .error stop => .error stop
                | .ok (more, c'') => .ok (a :: more, c'')
          else .error ⟨.listCommaOrEnd, token.offset + 1⟩
termination_by c.rest.length

theorem moreElements_le {r : Reader α} {c : Cursor} {as : List α} {c' : Cursor}
    (h : moreElements r c = .ok (as, c')) : c'.rest.length ≤ c.rest.length := by
  unfold moreElements at h
  split at h
  · cases h
  · rename_i token hs
    have h1 := peekToken.run_le hs
    split at h
    · cases h
    · rename_i b rest ht
      split at h
      · cases h
        exact h1
      · split at h
        · split at h
          · cases h
          · rename_i mid hmid
            have h2 := (behindComma r).run_le hmid
            simp only [ht, List.length_cons] at h1
            have hlt : mid.rest.length < c.rest.length := Nat.lt_of_le_of_lt h2 h1
            dsimp only at h
            split at h
            · cases h
            · rename_i hmore
              cases h
              exact Nat.le_trans (moreElements_le hmore) (Nat.le_of_lt hlt)
        · cases h
termination_by c.rest.length

/-- Reads the elements of a list from behind its opening bracket. -/
def elements (r : Reader α) : Reader (List α) := do
  match ← peekToken with
  | none => stopAtNext .endInList
  | some b =>
      if b = 0x5D then pure []
      else
        let first ← r
        let more ← rest
        pure (first :: more)
where
  rest : Reader (List α) :=
    { run := moreElements r
      run_le := moreElements_le }

def stopHere (cause : Cause) : Reader (Option Stop) where
  run c := .ok (some ⟨cause, if c.rest.isEmpty then c.offset else c.offset + 1⟩, c)
  run_le := by
    rintro c a c' h
    cases h
    exact Nat.le_refl _

/-- Takes the end of a list. Yields why it is not there instead of stopping. -/
def closeList : Reader (Option Stop) := do
  match ← peekToken with
  | none => stopHere .endInList
  | some b =>
      if b = 0x5D then
        drop
        pure none
      else if b = 0x2C then
        drop
        if (← peekToken) = some 0x5D then stopHere .trailingComma
        else stopHere .trailingCharacters
      else stopHere .trailingCharacters

def closeObject : Reader (Option Stop) := do
  match ← peekToken with
  | none => stopHere .endInObject
  | some b =>
      if b = 0x7D then
        drop
        pure none
      else if b = 0x2C then stopHere .trailingComma
      else stopHere .trailingCharacters

/-- Ends a list or a record: a complaint about its content is placed behind the
closing bracket, or where that bracket is missing. -/
def ending (content : Except Cause α) (close : Reader (Option Stop)) : Reader α := do
  let missing ← close
  match content, missing with
  | .error cause, _ => stop cause
  | .ok _, some missing => stopAs missing
  | .ok value, none => pure value

def list (r : Reader α) : Reader (List α) := do
  let b ← valueStart
  if b = 0x5B then
    drop
    let values ← elements r
    ending (.ok values) closeList
  else otherKind "a sequence"

/-! ## Records as lists -/

/-- Decides whether another element follows, and takes the comma before it. -/
def hasElement (isFirst : Bool) : Reader Bool := do
  match ← peekToken with
  | none => stopAtNext .endInList
  | some b =>
      if b = 0x5D then pure false
      else if isFirst then pure true
      else if b = 0x2C then
        drop
        match ← peekToken with
        | none => stopAtNext .endInValue
        | some b => if b = 0x5D then stopAtNext .trailingComma else pure true
      else stopAtNext .listCommaOrEnd

/-- Reads the fields of a record in order. Fields that may be missing are left out
at the end of the list. -/
def listedFields (title : String) (done : Nat) : List (Field δ) -> δ -> Reader (Except Cause δ)
  | [], draft => pure (.ok draft)
  | field :: rest, draft => do
      if ← hasElement (done = 0) then
        match ← field.read draft with
        | .ok draft => listedFields title (done + 1) rest draft
        | .error cause => pure (.error cause)
      else if field.isOptional then listedFields title (done + 1) rest draft
      else pure (.error (.wrongLength done title))

/-! ## Records as objects -/

/-- Reads a key from behind its opening quote, and its value into a draft. -/
def member (fields : List (Field δ)) (draft : δ) : Reader (Except Cause δ) := do
  let name ← literal
  match fields.find? fun field => field.name = name with
  | some field =>
      if field.isFilled draft then pure (.error (.repeatedField name))
      else
        colon
        field.read draft
  | none =>
      colon
      skipValue
      pure (.ok draft)

def memberBehindComma (fields : List (Field δ)) (draft : δ) : Reader (Except Cause δ) := do
  match ← peekToken with
  | none => stopAtNext .endInValue
  | some b =>
      if b = 0x22 then
        drop
        member fields draft
      else if b = 0x7D then stopAtNext .trailingComma
      else stopAtNext .keyNotString

/-- The members that follow a member, up to the closing brace or a complaint. -/
def moreMembers (fields : List (Field δ)) (draft : δ) (c : Cursor) :
    Except Stop (Except Cause δ × Cursor) :=
  match hs : peekToken.run c with
  | .error stop => .error stop
  | .ok (_, token) =>
      match ht : token.rest with
      | [] => .error ⟨.endInObject, token.offset⟩
      | b :: rest =>
          if b = 0x7D then .ok (.ok draft, token)
          else if b = 0x2C then
            match h : (memberBehindComma fields draft).run ⟨rest, token.offset + 1⟩ with
            | .error stop => .error stop
            | .ok (.error cause, c') => .ok (.error cause, c')
            | .ok (.ok draft', c') =>
                have : c'.rest.length < c.rest.length := by
                  have h1 := peekToken.run_le hs
                  have h2 := (memberBehindComma fields draft).run_le h
                  simp only [ht, List.length_cons] at h1
                  exact Nat.lt_of_le_of_lt h2 h1
                moreMembers fields draft' c'
          else .error ⟨.objectCommaOrEnd, token.offset + 1⟩
termination_by c.rest.length

theorem moreMembers_le {fields : List (Field δ)} {draft : δ} {c : Cursor}
    {content : Except Cause δ} {c' : Cursor}
    (h : moreMembers fields draft c = .ok (content, c')) : c'.rest.length ≤ c.rest.length := by
  unfold moreMembers at h
  split at h
  · cases h
  · rename_i token hs
    have h1 := peekToken.run_le hs
    split at h
    · cases h
    · rename_i b rest ht
      split at h
      · cases h
        exact h1
      · split at h
        · simp only [ht, List.length_cons] at h1
          split at h
          · cases h
          · rename_i mid hmid
            have h2 := (memberBehindComma fields draft).run_le hmid
            cases h
            exact Nat.le_of_lt (Nat.lt_of_le_of_lt h2 h1)
          · rename_i draft' mid hmid
            have h2 := (memberBehindComma fields draft).run_le hmid
            have hlt : mid.rest.length < c.rest.length := Nat.lt_of_le_of_lt h2 h1
            exact Nat.le_trans (moreMembers_le h) (Nat.le_of_lt hlt)
        · cases h
termination_by c.rest.length

def members (fields : List (Field δ)) (draft : δ) : Reader (Except Cause δ) := do
  match ← peekToken with
  | none => stopAtNext .endInObject
  | some b =>
      if b = 0x7D then pure (.ok draft)
      else if b = 0x22 then
        drop
        match ← member fields draft with
        | .error cause => pure (.error cause)
        | .ok draft => rest draft
      else stopAtNext .keyNotString
where
  rest (draft : δ) : Reader (Except Cause δ) :=
    { run := moreMembers fields draft
      run_le := moreMembers_le }

def record (shape : Shape δ α) : Reader α := do
  let b ← valueStart
  if b = 0x5B then
    drop
    let draft ← listedFields shape.listTitle 0 shape.fields shape.empty
    ending (draft >>= shape.finish) closeList
  else if b = 0x7B then
    drop
    let draft ← members shape.fields shape.empty
    ending (draft >>= shape.finish) closeObject
  else otherKind shape.title

end Reader
end Json
end RenewalDrive
