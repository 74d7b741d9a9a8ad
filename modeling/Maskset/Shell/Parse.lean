import Maskset.Shell.Shell
import Maskset.Logic.Split
import Mathlib.Data.List.Forall2

/-!
# Splitting a line

The loop of `prv_process` on a buffer whose first `rx_size` cells are `body` and one
last character, which is treated as a separator whatever it is: the strings that
`argv` points to are the first sixteen runs of `body`, each up to its first NUL.
-/

namespace Maskset.Shell
set_option autoImplicit false

open Maskset.Logic

/-- The separators of arguments. -/
def blank (c : Char) : Bool := c == ' ' || c == '\n'

/-- `argv` points to the strings `args` in `mem`. -/
def PointsTo (mem : List Char) (argv : List Nat) (args : List (List Char)) : Prop :=
  List.Forall₂ (fun arg str => cString mem arg = some str) argv args

/-- `next_arg` is the start of the run `cur` that ends what was read so far. -/
def Opened (before cur : List Char) : Option Nat → Prop
  | none => cur = []
  | some arg => before.drop arg = cur ∧ cur ≠ []

section Split

variable {before body behind cur mem : List Char} {z c : Char} {argv : List Nat} {args : List (List Char)}
  {nextArg : Option Nat} {rxSize : Nat} {rxBuffer : Vector Char rxBufferSize}

theorem PointsTo.append (there : PointsTo mem argv args) (behind : List Char) :
    PointsTo (mem ++ behind) argv args :=
  there.imp fun _ _ str => cString_append str behind

theorem PointsTo.mapM (there : PointsTo mem argv args) : argv.mapM (cString mem) = some args := by
  induction there with
  | nil => rfl
  | cons str _ ih => rw [List.mapM_cons, str, ih]; rfl

theorem Opened.inside {arg : Nat} (opened : Opened before cur (some arg)) : arg ≤ before.length := by
  obtain ⟨start, some⟩ := opened
  by_contra beyond
  exact some (start ▸ List.drop_eq_nil_of_le (by omega))

/-- A character that is no separator opens a run or goes on with it. -/
theorem Opened.grow (opened : Opened before cur nextArg) (c : Char) :
    Opened (before ++ [c]) (cur ++ [c]) (some (nextArg.getD before.length)) := by
  cases nextArg with
  | none =>
    obtain rfl : cur = [] := opened
    exact ⟨by simp, by simp⟩
  | some arg =>
    refine ⟨?_, by simp⟩
    rw [Option.getD_some, List.drop_append_of_le_length opened.inside, opened.1]

/-- A NUL behind the open run makes it one more string. -/
theorem Opened.close (opened : Opened before cur nextArg) (closed : PointsTo before argv args) :
    PointsTo (before ++ ['\x00']) (argv ++ nextArg.toList)
      (args ++ ([cur].filter (!·.isEmpty)).map untilNul) := by
  refine List.rel_append (closed.append _) ?_
  cases nextArg with
  | none =>
    obtain rfl : cur = [] := opened
    exact .nil
  | some arg =>
    have str : cString (before ++ ['\x00']) arg = some (untilNul cur) := by
      apply cString_terminated
      rw [List.drop_append_of_le_length opened.inside, opened.1]
    have kept : [cur].filter (!·.isEmpty) = [cur] := by simp [opened.2]
    rw [kept]
    exact .cons str .nil

/-- One iteration, whatever `next_arg` is. -/
theorem splitArgs_succ (n i : Nat) :
    splitArgs rxSize (n + 1) i rxBuffer argv nextArg =
      if argv.length < maxArgs then
        load rxBuffer i >>= fun c =>
          if c = ' ' ∨ c = '\n' ∨ i = rxSize - 1 then
            store rxBuffer i '\x00' >>= fun rxBuffer' =>
              splitArgs rxSize n (i + 1) rxBuffer' (argv ++ nextArg.toList) none
          else splitArgs rxSize n (i + 1) rxBuffer argv (some (nextArg.getD i))
      else some (rxBuffer, argv) := by
  cases nextArg with
  | none => rw [splitArgs, Option.toList_none, List.append_nil]; rfl
  | some arg => rw [splitArgs]; rfl

/-- One iteration on a separator, or on the last character. -/
theorem splitArgs_close {n : Nat} (nextArg : Option Nat) (few : argv.length < maxArgs)
    (content : rxBuffer.toList = before ++ c :: behind)
    (separates : blank c = true ∨ before.length = rxSize - 1) :
    ∃ rxBuffer' : Vector Char rxBufferSize, rxBuffer'.toList = before ++ '\x00' :: behind ∧
      splitArgs rxSize (n + 1) before.length rxBuffer argv nextArg =
        splitArgs rxSize n (before.length + 1) rxBuffer' (argv ++ nextArg.toList) none := by
  obtain ⟨rxBuffer', stored, content'⟩ := store_content (a := '\x00') content
  have guard : c = ' ' ∨ c = '\n' ∨ before.length = rxSize - 1 := by
    simpa [blank, or_assoc] using separates
  refine ⟨rxBuffer', content', ?_⟩
  rw [splitArgs_succ, if_pos few, load_content content, Option.bind_eq_bind, Option.bind_some,
    if_pos guard, stored, Option.bind_eq_bind, Option.bind_some]

/-- One iteration inside a run. -/
theorem splitArgs_grow {n : Nat} (nextArg : Option Nat) (few : argv.length < maxArgs)
    (content : rxBuffer.toList = before ++ c :: behind) (inside : blank c = false)
    (notLast : before.length ≠ rxSize - 1) :
    splitArgs rxSize (n + 1) before.length rxBuffer argv nextArg =
      splitArgs rxSize n (before.length + 1) rxBuffer argv (some (nextArg.getD before.length)) := by
  have guard : ¬ (c = ' ' ∨ c = '\n' ∨ before.length = rxSize - 1) := by
    simp only [blank, Bool.or_eq_false_iff, beq_eq_false_iff_ne] at inside
    simp [inside, notLast]
  rw [splitArgs_succ, if_pos few, load_content content, Option.bind_eq_bind, Option.bind_some, if_neg guard]

/-- With sixteen arguments the loop ends. -/
theorem splitArgs_full {n i : Nat} (content : rxBuffer.toList = before ++ behind)
    (full : argv.length = maxArgs) (closed : PointsTo before argv args) (more : List (List Char)) :
    splitArgs rxSize (n + 1) i rxBuffer argv nextArg = some (rxBuffer, argv) ∧
      PointsTo rxBuffer.toList argv ((args ++ more).take maxArgs) := by
  constructor
  · rw [splitArgs_succ, if_neg (by omega)]
  · rw [← full, closed.length_eq, List.take_left, content]
    exact closed.append _

/-- The iteration at the last character closes the open run. -/
theorem splitArgs_last (content : rxBuffer.toList = before ++ z :: behind) (atLast : before.length = rxSize - 1)
    (few : argv.length < maxArgs) (closed : PointsTo before argv args) (opened : Opened before cur nextArg) :
    ∃ rxBuffer' argv', splitArgs rxSize 1 before.length rxBuffer argv nextArg = some (rxBuffer', argv') ∧
      PointsTo rxBuffer'.toList argv' ((args ++ (collect blank cur []).map untilNul).take maxArgs) := by
  obtain ⟨rxBuffer', content', step⟩ := splitArgs_close (n := 0) nextArg few content (.inr atLast)
  have strings := opened.close closed
  have small : (args ++ ([cur].filter (!·.isEmpty)).map untilNul).length ≤ maxArgs := by
    have one := List.length_filter_le (!·.isEmpty) [cur]
    have same := closed.length_eq
    rw [List.length_append, List.length_map]
    simp only [List.length_singleton] at one
    omega
  refine ⟨rxBuffer', argv ++ nextArg.toList, ?_, ?_⟩
  · rw [step, splitArgs]
  · rw [collect, List.take_of_length_le small, content', List.append_cons]
    exact strings.append _

/-- **The loop collects the runs**, sixteen at most. -/
theorem splitArgs_collect (content : rxBuffer.toList = before ++ (body ++ z :: behind))
    (last : rxSize = before.length + body.length + 1) (few : argv.length ≤ maxArgs)
    (closed : PointsTo before argv args) (opened : Opened before cur nextArg) :
    ∃ rxBuffer' argv', splitArgs rxSize (body.length + 1) before.length rxBuffer argv nextArg =
        some (rxBuffer', argv') ∧
      PointsTo rxBuffer'.toList argv' ((args ++ (collect blank cur body).map untilNul).take maxArgs) := by
  induction body generalizing before cur argv args nextArg rxBuffer with
  | nil =>
    rcases few.eq_or_lt with full | few
    · exact ⟨_, _, splitArgs_full content full closed _⟩
    have atLast : before.length = rxSize - 1 := by rw [last]; rfl
    exact splitArgs_last content atLast few closed opened
  | cons c body ih =>
    rcases few.eq_or_lt with full | few
    · exact ⟨_, _, splitArgs_full content full closed _⟩
    rw [List.length_cons] at last
    by_cases sep : blank c
    · obtain ⟨rxBuffer', content', step⟩ := splitArgs_close (n := body.length + 1) nextArg few
        content (.inl sep)
      have strings := opened.close closed
      have fits : (argv ++ nextArg.toList).length ≤ maxArgs := by
        cases nextArg <;> simp <;> omega
      rw [List.append_cons] at content'
      obtain ⟨rxBuffer'', argv', rest, strings'⟩ := ih content' (by simp; omega) fits strings
        (show Opened (before ++ ['\x00']) [] none from rfl)
      rw [List.length_append, List.length_singleton] at rest
      refine ⟨rxBuffer'', argv', step.trans rest, ?_⟩
      rw [collect, if_pos sep, List.map_append, ← List.append_assoc]
      exact strings'
    · have notLast : before.length ≠ rxSize - 1 := by omega
      have step := splitArgs_grow (n := body.length + 1) nextArg few content (by simpa using sep) notLast
      have content' := content
      rw [List.cons_append, List.append_cons] at content'
      obtain ⟨rxBuffer', argv', rest, strings⟩ := ih content' (by simp; omega) few.le (closed.append [c])
        (opened.grow c)
      rw [List.length_append, List.length_singleton] at rest
      refine ⟨rxBuffer', argv', step.trans rest, ?_⟩
      rw [collect, if_neg sep]
      exact strings

end Split

end Maskset.Shell
