import Mathlib.Data.List.Induction
import Maskset.Logic.Split

/-!
# Lines of text

Pieces that each end in a separator and how splitting gives them back, and the translation
of newlines for a terminal, which can be undone.
-/

namespace Maskset.Logic
set_option autoImplicit false

section Terminated

variable {α : Type}

/-- Each piece with the separator behind it. -/
def terminated (sep : α) (pieces : List (List α)) : List α := pieces.flatMap (· ++ [sep])

@[simp] theorem terminated_nil {sep : α} : terminated sep [] = [] := rfl

theorem terminated_cons {sep : α} {piece : List α} {pieces : List (List α)} :
    terminated sep (piece :: pieces) = piece ++ sep :: terminated sep pieces := by
  rw [terminated, List.flatMap_cons, List.append_assoc]
  rfl

@[simp] theorem terminated_append {sep : α} {pieces pieces' : List (List α)} :
    terminated sep (pieces ++ pieces') = terminated sep pieces ++ terminated sep pieces' :=
  List.flatMap_append

theorem not_mem_terminated {a sep : α} {pieces : List (List α)} (ne : a ≠ sep) (out : ∀ piece ∈ pieces, a ∉ piece) :
    a ∉ terminated sep pieces := by
  intro within
  obtain ⟨piece, inPieces, within⟩ := List.mem_flatMap.1 within
  rcases List.mem_append.1 within with inPiece | last
  · exact out piece inPieces inPiece
  · exact ne (List.mem_singleton.1 last)

theorem map_terminated {β : Type} (f : α → β) {sep : α} {pieces : List (List α)} :
    (terminated sep pieces).map f = terminated (f sep) (pieces.map (List.map f)) := by
  induction pieces with
  | nil => rfl
  | cons piece pieces ih => rw [List.map_cons, terminated_cons, terminated_cons, List.map_append, List.map_cons, ih]

/-- Pieces that are joined, and one more separator. -/
theorem intercalate_terminated {sep : α} {pieces : List (List α)} (some : pieces ≠ []) :
    [sep].intercalate pieces ++ [sep] = terminated sep pieces := by
  induction pieces with
  | nil => exact absurd rfl some
  | cons piece pieces ih =>
    cases pieces with
    | nil => rw [List.intercalate_singleton, terminated_cons, terminated_nil]
    | cons next pieces =>
      rw [List.intercalate_cons_cons, List.append_assoc, List.append_assoc, ih (List.cons_ne_nil _ _)]
      exact terminated_cons.symm

variable [BEq α] [LawfulBEq α] {sep : α} {l l' piece : List α} {pieces : List (List α)}

/-- A piece that is not ended yet. -/
theorem ended_pending_append (noSep : sep ∉ piece) :
    ended sep (l ++ piece) = ended sep l ∧ pending sep (l ++ piece) = pending sep l ++ piece := by
  induction piece using List.reverseRecOn with
  | nil => simp
  | append_singleton piece a ih =>
    obtain ⟨before, last⟩ := ih fun within => noSep (List.mem_append_left _ within)
    have ne : a ≠ sep := by
      rintro rfl
      exact noSep (List.mem_append_right _ List.mem_cons_self)
    rw [← List.append_assoc, ended_snoc ne, pending_snoc ne, before, last, List.append_assoc]
    exact ⟨rfl, rfl⟩

/-- **Splitting gives the pieces back.** -/
theorem ended_terminated (noSep : ∀ piece ∈ pieces, sep ∉ piece) :
    ended sep (terminated sep pieces) = pieces ∧ pending sep (terminated sep pieces) = [] := by
  induction pieces using List.reverseRecOn with
  | nil => exact ⟨rfl, rfl⟩
  | append_singleton pieces piece ih =>
    obtain ⟨before, rest⟩ := ih fun p within => noSep p (List.mem_append_left _ within)
    obtain ⟨same, last⟩ := ended_pending_append (l := terminated sep pieces)
      (noSep piece (List.mem_append_right _ List.mem_cons_self))
    have whole : terminated sep (pieces ++ [piece]) = terminated sep pieces ++ piece ++ [sep] := by
      rw [terminated_append, terminated_cons, terminated_nil, List.append_assoc]
    rw [whole, ended_snoc_self, pending_snoc_self, same, last, before, rest, List.nil_append]
    exact ⟨rfl, rfl⟩

/-- A longer text has the same lines first. -/
theorem ended_prefix (le : l <+: l') : ended sep l <+: ended sep l' := by
  obtain ⟨more, rfl⟩ := le
  induction more using List.reverseRecOn with
  | nil => exact ⟨[], by rw [List.append_nil, List.append_nil]⟩
  | append_singleton more a ih =>
    rw [← List.append_assoc]
    by_cases here : a = sep
    · subst here
      rw [ended_snoc_self]
      exact ih.trans (List.prefix_append _ _)
    · rwa [ended_snoc here]

end Terminated

/-! ## Newlines for a terminal -/

/-- `\n` as it is sent. -/
def crlfChar (c : Char) : List Char := if c = '\n' then ['\r', '\n'] else [c]

def crlf (text : List Char) : List Char := text.flatMap crlfChar

/-- The text that was sent. -/
def uncrlf : List Char → List Char
  | '\r' :: '\n' :: sent => '\n' :: uncrlf sent
  | c :: sent => c :: uncrlf sent
  | [] => []

section Newlines

variable {c : Char} {text text' : List Char}

@[simp] theorem crlf_nil : crlf [] = [] := rfl
@[simp] theorem crlf_cons : crlf (c :: text) = crlfChar c ++ crlf text := List.flatMap_cons
@[simp] theorem crlf_append : crlf (text ++ text') = crlf text ++ crlf text' := List.flatMap_append

/-- No newline is sent without its carriage return. -/
theorem crlf_head (sent : List Char) : crlf text ≠ '\n' :: sent := by
  cases text with
  | nil => simp
  | cons c text =>
    rw [crlf_cons, crlfChar]
    split
    · simp
    · simp_all

theorem uncrlf_cons : uncrlf (c :: crlf text) = c :: uncrlf (crlf text) := by
  rw [uncrlf]
  rintro sent - newline
  exact crlf_head sent newline

/-- **What was sent can be read back.** -/
theorem uncrlf_crlf (text : List Char) : uncrlf (crlf text) = text := by
  induction text with
  | nil => rfl
  | cons c text ih =>
    rw [crlf_cons, crlfChar]
    split
    · rename_i newline
      rw [newline]
      change '\n' :: uncrlf (crlf text) = _
      rw [ih]
    · exact uncrlf_cons.trans (by rw [ih])

end Newlines

end Maskset.Logic
