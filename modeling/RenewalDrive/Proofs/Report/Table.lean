import Mathlib
import RenewalDrive.Config.Load
import RenewalDrive.Proofs.Run.Process
import RenewalDrive.Proofs.Time.Phrase
import RenewalDrive.Report.Status

/-!
# The lines and columns of the status table

Each row of the table is written in columns as wide as those of the header, whatever characters
its name is made of. Names and messages are written as they are, so a row is one line as long as
neither its name nor its message breaks the line.
-/

namespace RenewalDrive

namespace Text

/-!
## Lines
-/

structure IsLines (text : String) (lines : List (List Char)) : Prop where
  unbroken : forall line, line ∈ lines -> '\n' ∉ line
  text_eq : text.toList = lines.flatMap (· ++ ['\n'])

def Unbroken (text : String) : Prop :=
  '\n' ∉ text.toList

theorem count_flatMap_newline (lines : List (List Char)) :
    (lines.flatMap (· ++ ['\n'])).count '\n' =
      lines.length + (lines.flatMap id).count '\n' := by
  induction lines with
  | nil => rfl
  | cons line lines ih =>
      simp only [List.flatMap_cons, List.count_append, List.length_cons, ih, id]
      have hone : ['\n'].count '\n' = 1 := by decide
      omega

theorem IsLines.length_eq {text : String} {lines : List (List Char)} (h : IsLines text lines) :
    lines.length = text.toList.count '\n' := by
  have hnone : (lines.flatMap id).count '\n' = 0 := by
    rw [List.count_eq_zero, List.mem_flatMap]
    rintro ⟨line, hline, hbreak⟩
    exact h.unbroken line hline hbreak
  rw [h.text_eq, count_flatMap_newline, hnone, Nat.add_zero]

theorem exists_isLines_iff {text : String} {lines : List (List Char)}
    (h : text.toList = lines.flatMap (· ++ ['\n'])) :
    (exists others, IsLines text others ∧ others.length = lines.length) ↔
      forall line, line ∈ lines -> '\n' ∉ line := by
  constructor
  · rintro ⟨others, hothers, hlength⟩ line hline hbreak
    have hcount := hothers.length_eq
    rw [h, count_flatMap_newline] at hcount
    have hnone : (lines.flatMap id).count '\n' = 0 := by omega
    exact List.count_eq_zero.mp hnone (List.mem_flatMap.mpr ⟨line, hline, hbreak⟩)
  · intro hunbroken
    exact ⟨lines, ⟨hunbroken, h⟩, rfl⟩

/-!
## Columns
-/

/-- The cells of a line stand in columns of some widths. Every column but the last ends with
blanks, at least two, and the last cell takes what is left of the line. -/
inductive InColumns : List Char -> List Nat -> List (List Char) -> Prop
  | last {cell : List Char} : InColumns cell [] [cell]
  | cons {line cell : List Char} {width blanks : Nat} {widths : List Nat}
      {cells : List (List Char)} :
      2 ≤ blanks ->
      line.take width = cell ++ List.replicate blanks ' ' ->
      InColumns (line.drop width) widths cells ->
      InColumns line (width :: widths) (cell :: cells)

theorem toList_padRight (width : Nat) (text : String) :
    (padRight width text).toList =
      text.toList ++ List.replicate (width - text.toList.length) ' ' := by
  rw [padRight, String.toList_ofList, List.rightpad]

theorem toList_padLeft (width : Nat) (text : String) :
    (padLeft width text).toList =
      List.replicate (width - text.toList.length) ' ' ++ text.toList := by
  rw [padLeft, String.toList_ofList, List.leftpad]

section

variable {rest : List Char} {width : Nat} {widths : List Nat} {cells : List (List Char)}
  {cell : String}

theorem InColumns.padded (hcell : cell.toList.length ≤ width)
    (h : InColumns rest widths cells) :
    InColumns ((padRight width cell).toList ++ ([' ', ' '] ++ rest))
      ((width + 2) :: widths) (cell.toList :: cells) := by
  have hcolumn : (padRight width cell).toList ++ [' ', ' '] =
      cell.toList ++ List.replicate (width - cell.toList.length + 2) ' ' := by
    rw [toList_padRight, List.append_assoc, ← List.replicate_append_replicate]
    rfl
  have hwidth : (cell.toList ++ List.replicate (width - cell.toList.length + 2) ' ').length =
      width + 2 := by
    rw [List.length_append, List.length_replicate]
    omega
  rw [← List.append_assoc, hcolumn]
  refine InColumns.cons (Nat.le_add_left 2 (width - cell.toList.length)) ?_ ?_
  · rw [List.take_left' hwidth]
  · rw [List.drop_left' hwidth]
    exact h

theorem InColumns.filled (hcell : cell.toList.length ≤ width)
    (h : InColumns rest widths cells) :
    InColumns ((padLeft width cell).toList ++ ([' ', ' '] ++ rest))
      ((width + 2) :: widths) ((padLeft width cell).toList :: cells) := by
  have hlength : (padLeft width cell).toList.length = width := by
    rw [toList_padLeft, List.length_append, List.length_replicate]
    omega
  have hfull : (padRight width (padLeft width cell)).toList = (padLeft width cell).toList := by
    rw [toList_padRight, hlength, Nat.sub_self, List.replicate_zero, List.append_nil]
  have hpadded := InColumns.padded hlength.le h
  rwa [hfull] at hpadded

end

theorem length_le_utf8ByteSize (text : String) : text.toList.length ≤ text.utf8ByteSize := by
  rw [← String.ofList_toList (s := text), String.toList_ofList, String.utf8ByteSize_ofList]
  induction text.toList with
  | nil => exact Nat.zero_le _
  | cons c cs ih =>
      rw [String.utf8Len_cons, List.length_cons]
      exact Nat.add_le_add ih c.utf8Size_pos

end Text

namespace StatusRow

open Text

/-!
## The widths of the table
-/

theorem le_foldl_max (sizes : List Nat) (least : Nat) :
    least ≤ sizes.foldl max least ∧ forall size, size ∈ sizes -> size ≤ sizes.foldl max least := by
  induction sizes generalizing least with
  | nil => exact ⟨Nat.le_refl _, nofun⟩
  | cons first sizes ih =>
      have hrest := ih (max least first)
      refine ⟨(Nat.le_max_left _ _).trans hrest.1, fun size hsize => ?_⟩
      rcases List.mem_cons.mp hsize with rfl | hmem
      · exact (Nat.le_max_right _ _).trans hrest.1
      · exact hrest.2 size hmem

section

variable {rows : List StatusRow} {row : StatusRow} {now : Instant} {width : Nat}

theorem six_le_nameWidth : 6 ≤ nameWidth rows :=
  (le_foldl_max _ 6).1

/-- The first column is as wide as the longest name has bytes, so each name fits. -/
theorem length_name_le_nameWidth (h : row ∈ rows) :
    row.name.toList.length ≤ nameWidth rows :=
  (length_le_utf8ByteSize row.name).trans
    ((le_foldl_max _ 6).2 _ (List.mem_map_of_mem h))

def widths (width : Nat) : List Nat :=
  [width + 2, 8, 29, 13, 8]

theorem inColumns_cells {name mode phase status errors next : String}
    (hname : name.toList.length ≤ width) (hmode : mode.toList.length ≤ 6)
    (hphase : phase.toList.length ≤ 27) (hstatus : status.toList.length ≤ 11)
    (herrors : errors.toList.length ≤ 6) :
    InColumns (cells width name mode phase status errors next).toList (widths width)
      [name.toList, mode.toList, phase.toList, status.toList, (padLeft 6 errors).toList,
        next.toList] := by
  have hblanks : "  ".toList = [' ', ' '] := rfl
  simp only [cells, String.toList_append, List.append_assoc, hblanks]
  exact InColumns.last.filled herrors |>.padded hstatus |>.padded hphase |>.padded hmode
    |>.padded hname

/-!
## What a line consists of
-/

def titles : List (List Char) :=
  ["DOMAIN", "MODE", "PHASE", "STATUS", "ERRORS", "NEXT RUN"].map (·.toList)

/-- What stands in the columns of a row. The message follows the time of the next run. -/
def contents (row : StatusRow) (now : Instant) : List (List Char) :=
  [row.name.toList, row.driveMode.name.toList, row.phase.name.toList,
    ((row.status.map (·.name)).getD "-").toList,
    (padLeft 6 (naturalText row.errorRuns)).toList,
    (nextText row.nextRun now ++ messageText row.message).toList]

def headerLine (width : Nat) : List Char :=
  (cells width "DOMAIN" "MODE" "PHASE" "STATUS" "ERRORS" "NEXT RUN").toList

def line (width : Nat) (row : StatusRow) (now : Instant) : List Char :=
  (cells width row.name row.driveMode.name row.phase.name ((row.status.map (·.name)).getD "-")
    (naturalText row.errorRuns) (nextText row.nextRun now ++ messageText row.message)).toList

theorem toList_header : (header width).toList = headerLine width ++ ['\n'] :=
  String.toList_append

theorem toList_text : (row.text width now).toList = row.line width now ++ ['\n'] := by
  rw [text, String.toList_append, line, cells, cells, ← String.append_assoc]
  rfl

theorem toList_table :
    (table rows now).toList =
      (headerLine (nameWidth rows) :: rows.map fun row => row.line (nameWidth rows) now).flatMap
        (· ++ ['\n']) := by
  rw [table, String.toList_append, toList_header, String.toList_join, List.flatMap_cons]
  simp only [List.flatMap_map, toList_text]

theorem inColumns_headerLine (h : 6 ≤ width) :
    InColumns (headerLine width) (widths width) titles :=
  inColumns_cells h (by decide) (by decide) (by decide) (by decide)

theorem length_statusText_le (status : Option DriveStatus) :
    ((status.map (·.name)).getD "-").toList.length ≤ 11 := by
  rcases status with _ | status
  · decide
  · cases status <;> decide

theorem inColumns_line (hname : row.name.toList.length ≤ width) (herrors : row.errorRuns < 10 ^ 6) :
    InColumns (row.line width now) (widths width) (row.contents now) := by
  refine inColumns_cells hname ?_ ?_ (length_statusText_le row.status) ?_
  · cases row.driveMode <;> decide
  · cases row.phase <;> decide
  · rw [naturalText, String.toList_ofList]
    exact (Nat.length_toDigits_le_iff (by decide) (by decide)).mpr herrors

/-!
## What breaks a line
-/

structure Unbroken (row : StatusRow) : Prop where
  name : Text.Unbroken row.name
  message : forall message, row.message = some message -> Text.Unbroken message

theorem newline_mem_cells_iff {name mode phase status errors next : String} :
    '\n' ∈ (cells width name mode phase status errors next).toList ↔
      '\n' ∈ name.toList ∨ '\n' ∈ mode.toList ∨ '\n' ∈ phase.toList ∨ '\n' ∈ status.toList ∨
        '\n' ∈ errors.toList ∨ '\n' ∈ next.toList := by
  have hblanks : '\n' ∉ "  ".toList := by decide
  have hspace : '\n' ≠ ' ' := by decide
  simp only [cells, String.toList_append, List.mem_append, toList_padRight, toList_padLeft,
    List.mem_replicate, hblanks, hspace, and_false, false_or, or_false, or_assoc]

theorem unbroken_of_words {cs : List Char} (h : forall c, c ∈ cs -> isBlank c = false) :
    '\n' ∉ cs :=
  fun hmem => absurd (h _ hmem) (by decide)

theorem unbroken_joined (counts : List (Span.Unit × Nat)) : '\n' ∉ Span.joined counts := by
  have hcounted (part : Span.Unit × Nat) : '\n' ∉ part.1.counted part.2 := by
    rw [Span.Unit.counted_eq, List.mem_append, List.mem_append]
    rintro (hdigit | hspace | hword)
    · exact unbroken_of_words (fun _ => isBlank_of_mem_numeral) hdigit
    · exact absurd hspace (by decide)
    · exact unbroken_of_words (fun _ => Span.Unit.isBlank_of_mem_word) hword
  match counts with
  | [] => exact List.not_mem_nil
  | [first] => simpa [Span.joined] using hcounted first
  | first :: second :: counts =>
      rw [Span.joined_cons_cons, List.mem_append, List.mem_append]
      rintro (hfirst | hspace | hrest)
      · exact hcounted first hfirst
      · exact absurd hspace (by decide)
      · exact unbroken_joined (second :: counts) hrest

theorem unbroken_phrase (span : Span) : Text.Unbroken span.phrase := by
  unfold Text.Unbroken Span.phrase
  dsimp only
  split_ifs with hseconds hneg
  · rw [String.toList_ofList, List.mem_append]
    rintro (hdigit | hunit)
    · exact unbroken_of_words (fun _ => isBlank_of_mem_numeral) hdigit
    · exact absurd hunit (by decide)
  · rw [String.toList_ofList, List.mem_cons]
    rintro (hsign | hcounts)
    · exact absurd hsign (by decide)
    · exact unbroken_joined _ hcounts
  · rw [String.toList_ofList]
    exact unbroken_joined _

theorem unbroken_nextText (nextRun : Option Instant) (now : Instant) :
    Text.Unbroken (nextText nextRun now) := by
  unfold Text.Unbroken nextText
  split
  · decide
  · split_ifs
    · rw [String.toList_append, List.mem_append]
      rintro (hfront | hphrase)
      · exact absurd hfront (by decide)
      · exact unbroken_phrase _ hphrase
    · decide

theorem newline_mem_messageText_iff {message : Option String} :
    '\n' ∈ (messageText message).toList ↔
      exists text, message = some text ∧ '\n' ∈ text.toList := by
  rcases message with _ | text
  · exact iff_of_false (by decide) nofun
  · simp [messageText]

theorem unbroken_line_iff : '\n' ∉ row.line width now ↔ row.Unbroken := by
  have hmode : '\n' ∉ row.driveMode.name.toList := by cases row.driveMode <;> decide
  have hphase : '\n' ∉ row.phase.name.toList := by cases row.phase <;> decide
  have hstatus : '\n' ∉ ((row.status.map (·.name)).getD "-").toList := by
    rcases row.status with _ | status
    · decide
    · cases status <;> decide
  have herrors : '\n' ∉ (naturalText row.errorRuns).toList := by
    rw [naturalText, String.toList_ofList]
    exact unbroken_of_words fun _ => isBlank_of_mem_numeral
  have hnext : '\n' ∉ (nextText row.nextRun now).toList := unbroken_nextText _ _
  rw [line, newline_mem_cells_iff, String.toList_append, List.mem_append,
    newline_mem_messageText_iff]
  simp only [hmode, hphase, hstatus, herrors, hnext, false_or, not_or, not_exists, not_and]
  exact ⟨fun h => ⟨h.1, h.2⟩, fun h => ⟨h.name, h.message⟩⟩

theorem unbroken_headerLine : '\n' ∉ headerLine width := by
  rw [headerLine, newline_mem_cells_iff]
  decide

/-- The table consists of the header and of what is written for each row, in order, in the same
columns for all of them. These are its lines, and it has one line for each row, exactly if no row
has a name or a message that breaks the line. -/
theorem table_one_line_each_iff (rows : List StatusRow) (now : Instant) :
    exists header lines widths,
      (table rows now).toList = (header :: lines).flatMap (· ++ ['\n']) ∧
      InColumns header widths titles ∧
      List.Forall₂ (fun row line =>
        row.errorRuns < 10 ^ 6 -> InColumns line widths (row.contents now)) rows lines ∧
      (IsLines (table rows now) (header :: lines) ↔ forall row, row ∈ rows -> row.Unbroken) ∧
      ((exists others, IsLines (table rows now) others ∧ others.length = rows.length + 1) ↔
        forall row, row ∈ rows -> row.Unbroken) := by
  have htext : (table rows now).toList = _ := toList_table
  have hunbroken : (forall line, line ∈ headerLine (nameWidth rows) ::
      rows.map (fun row => row.line (nameWidth rows) now) -> '\n' ∉ line) ↔
        forall row, row ∈ rows -> row.Unbroken := by
    rw [List.forall_mem_cons, List.forall_mem_map]
    simp only [unbroken_line_iff]
    exact and_iff_right unbroken_headerLine
  refine ⟨_, _, widths (nameWidth rows), htext, inColumns_headerLine six_le_nameWidth, ?_,
    ?_, ?_⟩
  · rw [List.forall₂_map_right_iff, List.forall₂_same]
    exact fun row hrow => inColumns_line (length_name_le_nameWidth hrow)
  · exact ⟨fun h => hunbroken.mp h.unbroken, fun h => ⟨hunbroken.mpr h, htext⟩⟩
  · rw [← hunbroken, ← exists_isLines_iff htext, List.length_cons, List.length_map]

end

def managingOne : Config where
  storeDirectory := none
  notifyCommand := none
  renewCommand := none
  checkInterval := Config.defaultCheckInterval
  renewWindow := .default
  domains := [⟨"a.org", ["admin"], .auto, none⟩]

def failedOnTwoLines (name : String) : JobRecord where
  name := name
  errorRuns := 1
  lastStatus := .failed
  lastMessage := some "line one\nline two"

def brokenRows : List StatusRow :=
  let registry := managingOne.registry (m := Id) (fun _ => none) .epoch
  collect (m := Id) registry (fun name => some (failedOnTwoLines name)) .epoch

/-- The row of one domain takes two lines if its message does. -/
theorem message_breaks_row :
    managingOne.validated = .ok managingOne ∧ brokenRows.length = 1 ∧
      ¬ exists lines, IsLines (table brokenRows .epoch) lines ∧
        lines.length = brokenRows.length + 1 := by
  have hlength : brokenRows.length = 1 := by decide
  have hcount : (table brokenRows .epoch).toList.count '\n' = 3 := by decide +kernel
  refine ⟨rfl, hlength, ?_⟩
  rintro ⟨lines, hlines, hone⟩
  rw [hlines.length_eq, hcount, hlength] at hone
  exact absurd hone (by decide)

end StatusRow

end RenewalDrive
