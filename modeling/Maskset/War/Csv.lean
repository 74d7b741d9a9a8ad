import Maskset.War.Aggregate
import Maskset.War.MakeMd

/-!
# Numbers and rows as text

What `main.cpp` reads and writes: `strtoul` in base 10, which takes the arguments, and
`operator<<` of the results, one line of cells each. The text of a double is the standard
library's and a parameter here. `csv_read_back` says that the table gives back the numbers.
-/

namespace Maskset.War
set_option autoImplicit false

open Maskset.Logic

/-- `isspace` in the C locale. -/
def isSpace (c : Char) : Bool := c == ' ' || (9 ≤ c.toNat && c.toNat ≤ 13)

/-- The sign and the digits of the subject sequence. -/
def subject (text : List Char) : Bool × List Char :=
  match text.dropWhile isSpace with
  | '-' :: rest => (true, rest.takeWhile Char.isDigit)
  | '+' :: rest => (false, rest.takeWhile Char.isDigit)
  | rest => (false, rest.takeWhile Char.isDigit)

/-- `strtoul` in base 10: 0 without digits, `ULONG_MAX` out of range, and a minus sign negates. -/
def strtoul (text : List Char) : Nat :=
  let (negative, digits) := subject text
  let value := Nat.ofDigitChars 10 digits 0
  if 2 ^ 64 ≤ value then 2 ^ 64 - 1 else if negative then (2 ^ 64 - value) % 2 ^ 64 else value

def decimal (n : Nat) : Cell := Nat.toDigits 10 n

/-- How `std::cout` writes an average. -/
abbrev ShowDouble := Option Rat → Cell

/-- What `operator<<` writes with `", "` between. -/
def Results.cells (showDouble : ShowDouble) (r : Results) : Row :=
  [decimal r.s1, decimal r.s2, decimal r.p1, decimal r.p2, decimal r.tie, showDouble r.averageP1WarLost,
    showDouble r.averageP2WarLost, decimal r.nhands, decimal r.ngames]

def titles : Row :=
  ["S1".toList, "S2".toList, "P1".toList, "P2".toList, "Tie".toList, "P1 Turn Loss Average".toList,
    "P2 Turn Loss Average".toList, "Hands".toList, "Games".toList]

/-- A line without its end. -/
def csvLine (cells : Row) : List Char := [',', ' '].intercalate cells

def printVector (showDouble : ShowDouble) (results : List Results) : List Char :=
  csvLine titles ++ ['\n'] ++ results.flatMap fun res => csvLine (res.cells showDouble) ++ ['\n']

/-! ## Reading the text -/

/-- A row as numbers; the averages stay text. -/
structure Listed where
  s1 : Nat
  s2 : Nat
  p1 : Nat
  p2 : Nat
  tie : Nat
  average1 : Cell
  average2 : Cell
  nhands : Nat
  ngames : Nat
deriving DecidableEq

def Results.listed (showDouble : ShowDouble) (r : Results) : Listed :=
  ⟨r.s1, r.s2, r.p1, r.p2, r.tie, showDouble r.averageP1WarLost, showDouble r.averageP2WarLost, r.nhands, r.ngames⟩

def readCells (line : List Char) : Row := (line.splitOn ',').map strip

def readListed : Row → Option Listed
  | [s1, s2, p1, p2, tie, average1, average2, nhands, ngames] =>
    some ⟨strtoul s1, strtoul s2, strtoul p1, strtoul p2, strtoul tie, average1, average2, strtoul nhands,
      strtoul ngames⟩
  | _ => none

def readCsv (text : List Char) : Option (Row × List Listed) :=
  match (ended '\n' text).map readCells with
  | titles :: rows => (rows.mapM readListed).map fun rows => (titles, rows)
  | [] => none

section Numbers

variable {n : Nat} {c : Char}

theorem isDigit_decimal (digit : c ∈ decimal n) : c.isDigit := Nat.isDigit_of_mem_toDigits (by decide) (by decide) digit

theorem not_mem_decimal (other : c.isDigit = false) : c ∉ decimal n := by
  intro within
  rw [isDigit_decimal within] at other
  cases other

theorem not_isSpace (digit : c.isDigit) : isSpace c = false := by
  have low : 48 ≤ c.toNat := by
    simp only [Char.isDigit, Bool.and_eq_true, decide_eq_true_eq] at digit
    exact digit.1
  have other : c ≠ ' ' := by
    rintro rfl
    cases digit
  simp only [isSpace, Bool.or_eq_false_iff, beq_eq_false_iff_ne, Bool.and_eq_false_iff, decide_eq_false_iff_not]
  exact ⟨other, .inr (by omega)⟩

/-- There is no blank and no sign before the digits. -/
theorem subject_decimal (n : Nat) : subject (decimal n) = (false, decimal n) := by
  have digits : ∀ c ∈ decimal n, c.isDigit := fun c within => isDigit_decimal within
  have all : (decimal n).takeWhile Char.isDigit = decimal n := List.takeWhile_eq_self_iff.2 digits
  obtain ⟨c, rest, split⟩ := List.exists_cons_of_ne_nil (Nat.toDigits_ne_nil (n := n) (b := 10))
  change decimal n = c :: rest at split
  have digit := digits c (split ▸ List.mem_cons_self)
  have start : (decimal n).dropWhile isSpace = decimal n := by
    rw [split, List.dropWhile_cons_of_neg]
    simpa using not_isSpace digit
  rw [subject, start]
  split
  · rename_i minus
    rw [minus] at digits
    cases digits '-' List.mem_cons_self
  · rename_i plus
    rw [plus] at digits
    cases digits '+' List.mem_cons_self
  · rw [all]

/-- **What was printed is read as the number.** -/
theorem strtoul_decimal (small : n < 2 ^ 64) : strtoul (decimal n) = n := by
  rw [strtoul, subject_decimal]
  dsimp only
  rw [decimal, Nat.ofDigitChars_ten_toDigits, if_neg (Nat.not_le.2 small), if_neg (by decide)]

end Numbers

/-- A cell that can stand in a line, and in a Markdown table. -/
structure Separate (cell : Cell) : Prop extends Plain cell where
  noComma : ',' ∉ cell

section Cells

variable {cell : Cell} {cells : Row} {n : Nat}

theorem separate_decimal (n : Nat) : Separate (decimal n) where
  noBar := not_mem_decimal rfl
  noNewline := not_mem_decimal rfl
  first := fun blank => not_mem_decimal (c := ' ') rfl (List.mem_of_head? blank)
  last := fun blank => not_mem_decimal (c := ' ') rfl (List.mem_of_getLast? blank)
  noComma := not_mem_decimal rfl

theorem strip_plain (plain : Plain cell) : strip cell = cell ∧ strip (' ' :: cell) = cell := by
  have front : cell.dropWhile (· = ' ') = cell := by
    cases cell with
    | nil => rfl
    | cons c cell =>
      rw [List.dropWhile_cons_of_neg]
      simpa using fun blank => plain.first (congrArg some blank)
  have back : cell.rdropWhile (· = ' ') = cell := by
    rw [List.rdropWhile_eq_self_iff]
    intro ne blank
    have last := plain.last
    rw [List.getLast?_eq_some_getLast ne] at last
    exact last (congrArg some (of_decide_eq_true blank))
  rw [strip, strip, List.dropWhile_cons_of_pos (by simp), front, back]
  exact ⟨rfl, rfl⟩

theorem csvLine_cons_cons (cell next : Cell) (cells : Row) :
    csvLine (cell :: next :: cells) = cell ++ ',' :: ' ' :: csvLine (next :: cells) := by
  rw [csvLine, List.intercalate_cons_cons, List.append_assoc]
  rfl

/-- A line is its cells, all but the first behind a blank, with commas between. -/
theorem csvLine_eq (cell : Cell) (cells : Row) :
    csvLine (cell :: cells) = [','].intercalate (cell :: cells.map (' ' :: ·)) := by
  induction cells generalizing cell with
  | nil => simp [csvLine]
  | cons next cells ih =>
    rw [csvLine_cons_cons, ih, List.map_cons, List.intercalate_cons_cons]
    cases cells <;> simp [List.intercalate_cons_cons]

/-- **The cells of a line are read back.** -/
theorem readCells_csvLine (some : cells ≠ []) (separate : ∀ cell ∈ cells, Separate cell) :
    readCells (csvLine cells) = cells := by
  obtain ⟨cell, cells, rfl⟩ := List.exists_cons_of_ne_nil some
  obtain ⟨first, others⟩ := List.forall_mem_cons.1 separate
  have noComma : ∀ piece ∈ cell :: cells.map (' ' :: ·), ',' ∉ piece := by
    refine List.forall_mem_cons.2 ⟨first.noComma, ?_⟩
    intro piece within
    obtain ⟨inner, inCells, rfl⟩ := List.mem_map.1 within
    simpa using (others inner inCells).noComma
  have stripped : cells.map (strip ∘ (' ' :: ·)) = cells :=
    (List.map_congr_left fun inner inCells => (strip_plain (others inner inCells).toPlain).2).trans (List.map_id cells)
  rw [readCells, csvLine_eq, List.splitOn_intercalate ',' noComma (List.cons_ne_nil _ _), List.map_cons, List.map_map,
    (strip_plain first.toPlain).1, stripped]

theorem noNewline_csvLine (separate : ∀ cell ∈ cells, Separate cell) : '\n' ∉ csvLine cells := by
  induction cells with
  | nil => exact List.not_mem_nil
  | cons cell cells ih =>
    obtain ⟨first, others⟩ := List.forall_mem_cons.1 separate
    cases cells with
    | nil => simpa [csvLine] using first.noNewline
    | cons next cells =>
      rw [csvLine_cons_cons]
      simpa using ⟨first.noNewline, ih others⟩

end Cells

/-! ## The table -/

/-- The text of a double keeps to its cell. -/
def ShowDouble.Separates (showDouble : ShowDouble) : Prop := ∀ average, Separate (showDouble average)

/-- The numbers fit their types. -/
structure Results.Fits (r : Results) : Prop where
  s1 : r.s1 < 2 ^ 64
  s2 : r.s2 < 2 ^ 64
  p1 : r.p1 < 2 ^ 32
  p2 : r.p2 < 2 ^ 32
  tie : r.tie < 2 ^ 32
  nhands : r.nhands < 2 ^ 64
  ngames : r.ngames < 2 ^ 64

section Table

variable {showDouble : ShowDouble} {r : Results} {results : List Results}

theorem separate_titles : ∀ cell ∈ titles, Separate cell := by
  have all : ∀ cell ∈ titles, Plain cell ∧ ',' ∉ cell := by decide
  exact fun cell within => ⟨(all cell within).1, (all cell within).2⟩

theorem separate_cells (separates : showDouble.Separates) (r : Results) :
    ∀ cell ∈ r.cells showDouble, Separate cell := by
  simp [Results.cells, separate_decimal, separates _]

theorem readListed_cells (fits : r.Fits) : readListed (r.cells showDouble) = some (r.listed showDouble) := by
  have p1 := fits.p1
  have p2 := fits.p2
  have tie := fits.tie
  rw [Results.cells, readListed, strtoul_decimal fits.s1, strtoul_decimal fits.s2, strtoul_decimal (by omega),
    strtoul_decimal (by omega), strtoul_decimal (by omega), strtoul_decimal fits.nhands, strtoul_decimal fits.ngames]
  rfl

/-- The lines of the table. -/
theorem printVector_eq (showDouble : ShowDouble) (results : List Results) :
    printVector showDouble results =
      terminated '\n' ((titles :: results.map (Results.cells showDouble)).map csvLine) := by
  rw [List.map_cons, terminated_cons, terminated, List.map_map, List.flatMap_map, printVector, List.append_assoc]
  rfl

/-- **The table is read back**: its lines are the titles and, in the order of the results, their numbers. -/
theorem readCsv_printVector (separates : showDouble.Separates) (fits : ∀ r ∈ results, r.Fits) :
    readCsv (printVector showDouble results) = some (titles, results.map (Results.listed showDouble)) ∧
      pending '\n' (printVector showDouble results) = [] := by
  have rows : ∀ row ∈ titles :: results.map (Results.cells showDouble), row ≠ [] ∧ ∀ cell ∈ row, Separate cell := by
    refine List.forall_mem_cons.2 ⟨⟨by decide, separate_titles⟩, ?_⟩
    intro row within
    obtain ⟨r, -, rfl⟩ := List.mem_map.1 within
    exact ⟨List.cons_ne_nil _ _, separate_cells separates r⟩
  have closed : ∀ line ∈ (titles :: results.map (Results.cells showDouble)).map csvLine, '\n' ∉ line := by
    intro line within
    obtain ⟨row, inRows, rfl⟩ := List.mem_map.1 within
    exact noNewline_csvLine (rows row inRows).2
  obtain ⟨split, last⟩ := ended_terminated closed
  have read : ((titles :: results.map (Results.cells showDouble)).map csvLine).map readCells =
      titles :: results.map (Results.cells showDouble) := by
    rw [List.map_map]
    exact (List.map_congr_left fun row inRows => readCells_csvLine (rows row inRows).1 (rows row inRows).2).trans
      (List.map_id _)
  have listed : (results.map (Results.cells showDouble)).mapM readListed =
      some (results.map (Results.listed showDouble)) := by
    clear rows closed split last read
    induction results with
    | nil => rfl
    | cons r results ih =>
      obtain ⟨first, others⟩ := List.forall_mem_cons.1 fits
      rw [List.map_cons, List.mapM_cons, readListed_cells first, ih others]
      rfl
  rw [printVector_eq]
  refine ⟨?_, last⟩
  rw [readCsv, split, read]
  dsimp only
  rw [listed]
  rfl

end Table

end Maskset.War
