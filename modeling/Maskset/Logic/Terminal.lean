import Mathlib.Data.List.Basic

/-!
# A terminal

The line under the cursor, and the lines above it. A printable character overwrites at
the cursor and advances, a backspace moves the cursor left, a carriage return moves it to
column 0, and a newline opens an empty line. What any other character does is a parameter.
-/

namespace Maskset.Logic
set_option autoImplicit false

structure Terminal where
  above : List (List Char)
  line : List Char
  cursor : Nat
  inside : cursor ≤ line.length

def printable (c : Char) : Prop := ' ' ≤ c ∧ c ≤ '~'

instance (c : Char) : Decidable (printable c) := inferInstanceAs (Decidable (_ ∧ _))

theorem printable.ne {c control : Char} (print : printable c) (not : ¬ printable control) : c ≠ control := by
  rintro rfl
  exact not print

namespace Terminal

def overwrite (term : Terminal) (c : Char) : Terminal where
  above := term.above
  line := term.line.take term.cursor ++ c :: term.line.drop (term.cursor + 1)
  cursor := term.cursor + 1
  inside := by
    rw [List.length_append, List.length_cons, List.length_take_of_le term.inside]
    omega

def left (term : Terminal) : Terminal :=
  { term with cursor := term.cursor - 1, inside := Nat.le_trans (Nat.sub_le _ _) term.inside }

def column0 (term : Terminal) : Terminal := { term with cursor := 0, inside := Nat.zero_le _ }

def newline (term : Terminal) : Terminal := ⟨term.above ++ [term.line], [], 0, Nat.le_refl _⟩

/-- The current line is the text and the cursor is at its end, blanks behind it aside. -/
structure Shows (term : Terminal) (text : List Char) : Prop where
  line : ∃ blanks, term.line = text ++ List.replicate blanks ' '
  cursor : term.cursor = text.length

section Display

variable (other : Terminal → Char → Terminal)

def put (term : Terminal) (c : Char) : Terminal :=
  if c = '\x08' then term.left
  else if c = '\r' then term.column0
  else if c = '\n' then term.newline
  else if printable c then term.overwrite c
  else other term c

def display (term : Terminal) (out : List Char) : Terminal := out.foldl (put other) term

variable {other} {term : Terminal} {text out out' : List Char} {c : Char}


@[simp] theorem display_cons : term.display other (c :: out) = (term.put other c).display other out := rfl

theorem display_append : term.display other (out ++ out') = (term.display other out).display other out' :=
  List.foldl_append

theorem put_printable (print : printable c) : term.put other c = term.overwrite c := by
  have notBackspace : c ≠ '\x08' := print.ne (by decide)
  have notCr : c ≠ '\r' := print.ne (by decide)
  have notNewline : c ≠ '\n' := print.ne (by decide)
  rw [put, if_neg notBackspace, if_neg notCr, if_neg notNewline, if_pos print]

/-- A character takes the place of the one at the cursor. -/
theorem overwrite_line {before behind : List Char} (line : term.line = before ++ behind)
    (cursor : term.cursor = before.length) : (term.overwrite c).line = before ++ c :: behind.drop 1 := by
  have rest : (before ++ behind).drop (before.length + 1) = behind.drop 1 := by
    rw [← List.drop_drop, List.drop_left]
  change term.line.take term.cursor ++ c :: term.line.drop (term.cursor + 1) = _
  rw [line, cursor, List.take_left, rest]

theorem Shows.overwrite (shows' : Shows term text) : Shows (term.overwrite c) (text ++ [c]) := by
  obtain ⟨⟨blanks, line⟩, cursor⟩ := shows'
  constructor
  · refine ⟨blanks - 1, ?_⟩
    rw [overwrite_line line cursor, List.drop_replicate, List.append_cons]
  · rw [List.length_append, ← cursor]
    rfl

theorem Shows.display (shows' : Shows term text) (print : ∀ c ∈ out, printable c) :
    Shows (term.display other out) (text ++ out) := by
  induction out generalizing term text with
  | nil =>
    rw [List.append_nil]
    exact shows'
  | cons c out ih =>
    have first : Shows (term.put other c) (text ++ [c]) := by
      rw [put_printable (print c List.mem_cons_self)]
      exact shows'.overwrite
    rw [display_cons, List.append_cons]
    exact ih first fun c within => print c (List.mem_cons_of_mem _ within)

/-- A blank over the last character erases it. -/
theorem Shows.erase (shows' : Shows term text) (some : text ≠ []) :
    Shows (term.display other ['\x08', ' ', '\x08']) text.dropLast := by
  obtain ⟨⟨blanks, line⟩, cursor⟩ := shows'
  have length : text.dropLast.length + 1 = text.length := by
    rw [List.length_dropLast]
    have := List.length_pos_of_ne_nil some
    omega
  have back : term.left.line = text.dropLast ++ text.getLast some :: List.replicate blanks ' ' := by
    rw [List.append_cons, List.dropLast_append_getLast]
    exact line
  have at' : term.left.cursor = text.dropLast.length := by
    change term.cursor - 1 = _
    omega
  have erased : term.display other ['\x08', ' ', '\x08'] = (term.left.overwrite ' ').left := by
    rw [display_cons, display_cons, display_cons, put_printable (c := ' ') (by decide)]
    rfl
  rw [erased]
  constructor
  · exact ⟨blanks + 1, overwrite_line back at'⟩
  · exact at'

/-- Whatever is put before it, a newline leaves an empty line. -/
theorem shows_newline : Shows (term.display other (out ++ ['\n'])) [] := by
  rw [display_append]
  exact ⟨⟨0, rfl⟩, rfl⟩

end Display

end Terminal

end Maskset.Logic
