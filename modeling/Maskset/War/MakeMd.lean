import Mathlib.Data.List.DropRight
import Mathlib.Data.List.Forall2
import Mathlib.Data.List.MinMax
import Maskset.Logic.Lines

/-!
# The results as a Markdown table

`make_md.py` behind the reading of the results: the columns are padded to their widest cell
and joined with bars. `table_read_back` says that the table holds the cells and that its
bars stand one under the other.
-/

namespace Maskset.War
set_option autoImplicit false

open Maskset.Logic

abbrev Cell := List Char
abbrev Row := List Cell

/-- `str.ljust`. -/
def ljust (cell : Cell) (width : Nat) : Cell := cell ++ List.replicate (width - cell.length) ' '

/-- `zip(header, *rows)`, which ends with the shortest one. -/
def columns : Row → List Row → List (List Cell)
  | [], _ => []
  | cell :: header, rows =>
    if rows.all (!·.isEmpty) then (cell :: rows.map (·.headD [])) :: columns header (rows.map List.tail) else []

def colWidths (header : Row) (rows : List Row) : List Nat :=
  (columns header rows).map fun col => (col.map List.length).foldr max 0

/-- The cells between bars. -/
def barred (cells : List Cell) : List Char := ['|', ' '] ++ [' ', '|', ' '].intercalate cells ++ [' ', '|']

def fmtRow (widths : List Nat) (row : Row) : List Char := barred (List.zipWith ljust row widths)

def separator (widths : List Nat) : List Char := barred (widths.map (List.replicate · '-'))

/-- What is written for the data frame, `none` where it has no rows. -/
def toMarkdown (header : Row) (rows : List Row) : Option (List Char) :=
  if rows.isEmpty then none
  else
    let widths := colWidths header rows
    let bodyLines := ['\n'].intercalate (rows.map (fmtRow widths))
    some (['\n'].intercalate [fmtRow widths header, separator widths, bodyLines] ++ ['\n'])

/-! ## Reading a table -/

def strip (text : List Char) : List Char := (text.dropWhile (· = ' ')).rdropWhile (· = ' ')

def readRow (line : List Char) : Row := (ended '|' line).tail.map strip

def readTable (text : List Char) : Option (Row × List Row) :=
  match ended '\n' text with
  | header :: _ :: rows => some (readRow header, rows.map readRow)
  | _ => none

/-- A cell that can stand in a table. -/
structure Plain (cell : Cell) : Prop where
  noBar : '|' ∉ cell
  noNewline : '\n' ∉ cell
  first : cell.head? ≠ some ' '
  last : cell.getLast? ≠ some ' '

theorem plain_iff (cell : Cell) :
    Plain cell ↔ ('|' ∉ cell ∧ '\n' ∉ cell) ∧ cell.head? ≠ some ' ' ∧ cell.getLast? ≠ some ' ' := by
  constructor
  · intro plain
    exact ⟨⟨plain.noBar, plain.noNewline⟩, plain.first, plain.last⟩
  · rintro ⟨⟨noBar, noNewline⟩, first, last⟩
    exact ⟨noBar, noNewline, first, last⟩

instance (cell : Cell) : Decidable (Plain cell) := decidable_of_iff _ (plain_iff cell).symm

section Cells

variable {cell : Cell} {cells : List Cell} {width : Nat}

/-- A cell with a blank on each side. -/
def spaced (cell : Cell) : Cell := ' ' :: cell ++ [' ']

/-- **A line is its cells**, each with a bar behind it. -/
theorem barred_eq (cell : Cell) (cells : List Cell) :
    barred (cell :: cells) = terminated '|' ([] :: (cell :: cells).map spaced) := by
  have joined : ' ' :: [' ', '|', ' '].intercalate (cell :: cells) ++ [' ', '|'] =
      terminated '|' ((cell :: cells).map spaced) := by
    induction cells generalizing cell with
    | nil => simp [terminated_cons, spaced]
    | cons next cells ih =>
      rw [List.map_cons, terminated_cons, ← ih, List.intercalate_cons_cons]
      simp [spaced]
  rw [terminated_cons, ← joined]
  rfl

theorem rdropWhile_blanks (n : Nat) :
    (cell ++ List.replicate n ' ').rdropWhile (· = ' ') = cell.rdropWhile (· = ' ') := by
  induction n with
  | zero => simp
  | succ n ih => rw [List.replicate_succ', ← List.append_assoc, List.rdropWhile_concat_pos _ _ _ (by simp), ih]

/-- **The padding can be removed.** -/
theorem strip_ljust (plain : Plain cell) : strip (spaced (ljust cell width)) = cell := by
  have padded : spaced (ljust cell width) = ' ' :: (cell ++ List.replicate (width - cell.length + 1) ' ') := by
    simp [spaced, ljust, List.replicate_succ']
  rw [padded, strip, List.dropWhile_cons_of_pos (by simp)]
  cases cell with
  | nil => simp
  | cons c cell =>
    have first : c ≠ ' ' := fun blank => plain.first (congrArg some blank)
    rw [List.cons_append, List.dropWhile_cons_of_neg (by simpa using first), ← List.cons_append, rdropWhile_blanks,
      List.rdropWhile_eq_self_iff]
    intro ne blank
    have last := plain.last
    rw [List.getLast?_eq_some_getLast ne] at last
    exact last (congrArg some (of_decide_eq_true blank))

end Cells

/-! ## Reading back -/

/-- Each cell is no wider than its column. -/
def Fits (row : Row) (widths : List Nat) : Prop := List.Forall₂ (fun cell width => cell.length ≤ width) row widths

/-- The place of the bars in a line. -/
def ruler (widths : List Nat) : List Bool :=
  terminated true ([] :: widths.map fun width => List.replicate (width + 2) false)

section Rows

variable {cell : Cell} {header row : Row} {rows : List Row} {width : Nat} {widths : List Nat}

/-- **The columns are wide enough.** -/
theorem colWidths_fits (rectangular : ∀ row ∈ rows, row.length = header.length) :
    ∀ row ∈ header :: rows, Fits row (colWidths header rows) := by
  induction header generalizing rows with
  | nil =>
    intro row within
    have empty : row = [] := by
      rcases List.mem_cons.1 within with rfl | within
      · rfl
      · exact List.length_eq_zero_iff.1 (rectangular row within)
    rw [empty]
    exact .nil
  | cons cell header ih =>
    have first : colWidths (cell :: header) rows =
        (((cell :: rows.map (·.headD [])).map List.length).foldr max 0) :: colWidths header (rows.map List.tail) := by
      have filled : rows.all (!·.isEmpty) := by
        rw [List.all_eq_true]
        intro row within
        have length := rectangular row within
        cases row with
        | nil => cases length
        | cons => rfl
      rw [colWidths, columns, if_pos filled]
      rfl
    have rest : ∀ row ∈ rows.map List.tail, row.length = header.length := by
      intro row within
      obtain ⟨whole, inRows, rfl⟩ := List.mem_map.1 within
      rw [List.length_tail, rectangular whole inRows]
      rfl
    rw [first]
    intro row within
    rcases List.mem_cons.1 within with rfl | within
    · exact .cons (List.le_max_of_le' 0 (by simp) (Nat.le_refl _)) (ih rest header List.mem_cons_self)
    · cases row with
      | nil => cases rectangular [] within
      | cons c row =>
        have inColumn : c.length ∈ (cell :: rows.map (·.headD [])).map List.length :=
          List.mem_map_of_mem (List.mem_cons_of_mem _ (List.mem_map.2 ⟨_, within, rfl⟩))
        have inRest : row ∈ header :: rows.map List.tail :=
          List.mem_cons_of_mem _ (List.mem_map.2 ⟨_, within, rfl⟩)
        exact .cons (List.le_max_of_le' 0 inColumn (Nat.le_refl _)) (ih rest row inRest)

/-- There is no bar in a cell. -/
theorem spaced_ruler (noBar : '|' ∉ cell) :
    (spaced cell).map (· == '|') = List.replicate (cell.length + 2) false := by
  rw [List.eq_replicate_iff]
  constructor
  · simp [spaced]
  · intro bar within
    obtain ⟨c, inCell, rfl⟩ := List.mem_map.1 within
    rw [beq_eq_false_iff_ne]
    rintro rfl
    simp [spaced, noBar] at inCell

theorem length_ljust (fits : cell.length ≤ width) : (ljust cell width).length = width := by
  rw [ljust, List.length_append, List.length_replicate, Nat.add_sub_cancel' fits]

theorem not_mem_ljust (width : Nat) {c : Char} (other : c ≠ ' ') (out : c ∉ cell) : c ∉ ljust cell width := by
  simp [ljust, out, other]

/-- **One line of the table.** -/
structure Line (widths : List Nat) (row : Row) (line : List Char) : Prop where
  noNewline : '\n' ∉ line
  reads : readRow line = row
  bars : line.map (· == '|') = ruler widths

theorem line_barred {cells : List Cell} (nonempty : cells ≠ []) (noBar : ∀ cell ∈ cells, '|' ∉ cell)
    (noNewline : ∀ cell ∈ cells, '\n' ∉ cell)
    (bars : cells.map (fun cell => (spaced cell).map (· == '|')) =
      widths.map fun width => List.replicate (width + 2) false) :
    Line widths (cells.map fun cell => strip (spaced cell)) (barred cells) := by
  obtain ⟨cell, cells, rfl⟩ := List.exists_cons_of_ne_nil nonempty
  have pieces {c : Char} (other : c ≠ ' ') (out : ∀ piece ∈ cell :: cells, c ∉ piece) :
      ∀ piece ∈ [] :: (cell :: cells).map spaced, c ∉ piece := by
    intro piece within
    rcases List.mem_cons.1 within with rfl | within
    · exact List.not_mem_nil
    · obtain ⟨inner, inCells, rfl⟩ := List.mem_map.1 within
      simp [spaced, other, out inner inCells]
  rw [barred_eq]
  refine ⟨not_mem_terminated (by decide) (pieces (by decide) noNewline), ?_, ?_⟩
  · rw [readRow, (ended_terminated (pieces (by decide) noBar)).1, List.tail_cons, List.map_map]
    rfl
  · rw [map_terminated, List.map_cons, List.map_map]
    exact congrArg (fun pieces => terminated true ([] :: pieces)) bars

theorem line_fmtRow (fits : Fits row widths) (nonempty : row ≠ []) (plain : ∀ cell ∈ row, Plain cell) :
    Line widths row (fmtRow widths row) := by
  have padded : (∀ cell ∈ List.zipWith ljust row widths, '|' ∉ cell ∧ '\n' ∉ cell) ∧
      (List.zipWith ljust row widths).map (fun cell => strip (spaced cell)) = row ∧
      (List.zipWith ljust row widths).map (fun cell => (spaced cell).map (· == '|')) =
        widths.map fun width => List.replicate (width + 2) false := by
    clear nonempty
    induction fits with
    | nil => exact ⟨by simp, rfl, rfl⟩
    | @cons cell width row widths fits rest ih =>
      obtain ⟨first, others⟩ := List.forall_mem_cons.1 plain
      obtain ⟨out, same, bars⟩ := ih others
      have noBar := not_mem_ljust width (by decide) first.noBar
      have noNewline := not_mem_ljust width (by decide) first.noNewline
      rw [List.zipWith_cons_cons, List.map_cons, List.map_cons, same, bars, strip_ljust first, spaced_ruler noBar,
        length_ljust fits]
      exact ⟨List.forall_mem_cons.2 ⟨⟨noBar, noNewline⟩, out⟩, rfl, rfl⟩
  obtain ⟨out, same, bars⟩ := padded
  have some : List.zipWith ljust row widths ≠ [] := by
    cases fits with
    | nil => exact absurd rfl nonempty
    | cons => exact List.cons_ne_nil _ _
  have line := line_barred some (fun cell within => (out cell within).1) (fun cell within => (out cell within).2) bars
  rw [same] at line
  exact line

theorem line_separator (nonempty : widths ≠ []) : ∃ row, Line widths row (separator widths) := by
  have noBar (width : Nat) : '|' ∉ List.replicate width '-' :=
    fun within => absurd (List.eq_of_mem_replicate within) (by decide)
  refine ⟨_, line_barred (by simpa using nonempty) ?_ ?_ ?_⟩
  · simp [List.mem_replicate]
  · simp [List.mem_replicate]
  · rw [List.map_map]
    refine List.map_congr_left fun width _ => ?_
    rw [Function.comp_apply, spaced_ruler (noBar width), List.length_replicate]

end Rows

/-- The lines of what is written. -/
theorem toMarkdown_eq (header : Row) {rows : List Row} (nonempty : rows ≠ []) :
    toMarkdown header rows = some (terminated '\n' (fmtRow (colWidths header rows) header ::
      separator (colWidths header rows) :: rows.map (fmtRow (colWidths header rows)))) := by
  have body : ['\n'].intercalate (rows.map (fmtRow (colWidths header rows))) ++ ['\n'] =
      terminated '\n' (rows.map (fmtRow (colWidths header rows))) :=
    intercalate_terminated (by simpa using nonempty)
  rw [toMarkdown, if_neg (by simpa using nonempty)]
  dsimp only
  rw [terminated_cons, terminated_cons, ← body, List.intercalate_cons_cons, List.intercalate_cons_cons,
    List.intercalate_singleton]
  simp

/-- **The table can be read back** and its bars stand one under the other, for every header with a column
and rows of as many cells that hold neither bars nor newlines nor blanks at their ends. -/
theorem table_read_back (header : Row) (rows : List Row) (titled : header ≠ []) (nonempty : rows ≠ [])
    (rectangular : ∀ row ∈ rows, row.length = header.length)
    (plain : ∀ row ∈ header :: rows, ∀ cell ∈ row, Plain cell) :
    ∃ text, toMarkdown header rows = some text ∧ readTable text = some (header, rows) ∧
      pending '\n' text = [] ∧
      ∀ line ∈ ended '\n' text, line.map (· == '|') = ruler (colWidths header rows) := by
  have fits := colWidths_fits rectangular
  have filled : ∀ row ∈ header :: rows, row ≠ [] := by
    intro row within
    rcases List.mem_cons.1 within with rfl | within
    · exact titled
    · rintro rfl
      exact titled (List.length_eq_zero_iff.1 (rectangular [] within).symm)
  have wide : colWidths header rows ≠ [] := by
    intro none
    have first := fits header List.mem_cons_self
    rw [none] at first
    cases first
    exact titled rfl
  have line : ∀ row ∈ header :: rows, Line (colWidths header rows) row (fmtRow (colWidths header rows) row) :=
    fun row within => line_fmtRow (fits row within) (filled row within) (plain row within)
  obtain ⟨dashes, under⟩ := line_separator wide
  obtain ⟨title, body⟩ := List.forall_mem_cons.1 line
  have lines : ∀ l ∈ fmtRow (colWidths header rows) header :: separator (colWidths header rows) ::
      rows.map (fmtRow (colWidths header rows)), '\n' ∉ l ∧ l.map (· == '|') = ruler (colWidths header rows) := by
    refine List.forall_mem_cons.2 ⟨⟨title.noNewline, title.bars⟩, List.forall_mem_cons.2 ⟨?_, ?_⟩⟩
    · exact ⟨under.noNewline, under.bars⟩
    intro l within
    obtain ⟨row, inRows, rfl⟩ := List.mem_map.1 within
    exact ⟨(body row inRows).noNewline, (body row inRows).bars⟩
  obtain ⟨split, closed⟩ := ended_terminated fun l within => (lines l within).1
  refine ⟨_, toMarkdown_eq header nonempty, ?_, closed, ?_⟩
  · rw [readTable, split]
    dsimp only
    rw [title.reads, List.map_map]
    have same : rows.map (readRow ∘ fmtRow (colWidths header rows)) = rows :=
      (List.map_congr_left fun row within => (body row within).reads).trans (List.map_id rows)
    rw [same]
  · rw [split]
    exact fun l within => (lines l within).2

/-- Two strategies and their wins. -/
theorem table_read_back_two : ∃ text,
    toMarkdown ["S1".toList, "P1".toList] [["0".toList, "51234".toList], ["1".toList, "7".toList]] = some text ∧
      readTable text = some (["S1".toList, "P1".toList], [["0".toList, "51234".toList], ["1".toList, "7".toList]]) := by
  obtain ⟨text, written, read, -⟩ := table_read_back ["S1".toList, "P1".toList]
    [["0".toList, "51234".toList], ["1".toList, "7".toList]] (by decide) (by decide) (by decide) (by decide)
  exact ⟨text, written, read⟩

end Maskset.War
