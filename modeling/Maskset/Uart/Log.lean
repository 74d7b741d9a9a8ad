import Maskset.Logic.Memory

/-!
# Log lines

`log_port.c`: a line is formatted into a buffer on the stack, the NUL behind it is replaced
by a newline and the UART transmits it. The place of the newline is what `vsnprintf` returns,
which is the length of the whole text, also of one that was cut, or a negative number that
becomes a `size_t`. `framed_iff` says for which lines that is right.
-/

namespace Maskset.Uart
set_option autoImplicit false

open Maskset.Logic

/-- What a call of `vsnprintf` with the limit `n` comes to: it stores less than `n` characters of
the text and returns the length of the text, or a negative value on error. -/
structure Formatted (n : Nat) where
  expansion : List Char
  noNul : '\x00' ∉ expansion
  stored : Nat
  ret : BitVec 32
  inText : stored ≤ expansion.length
  inLimit : stored < n
  returned : ret.toInt < 0 ∨ ret.toInt = expansion.length ∧ stored = min expansion.length (n - 1)

namespace Formatted

variable {n : Nat} (f : Formatted n)

/-- The characters that were stored. -/
def text : List Char := f.expansion.take f.stored

theorem text_length : f.text.length = f.stored := by
  rw [text, List.length_take, Nat.min_eq_left f.inText]

/-- A return value that is no error is the length of the text. -/
theorem ret_of_noError (noError : 0 ≤ f.ret.toInt) :
    f.ret.toNat = f.expansion.length ∧ f.stored = min f.expansion.length (n - 1) := by
  obtain ⟨length, stored⟩ := f.returned.resolve_left (Int.not_lt.2 noError)
  have small := f.ret.isLt
  rw [BitVec.toInt_eq_toNat_cond] at length noError
  refine ⟨?_, stored⟩
  split at length <;> omega

/-- An error is a large `size_t`. -/
theorem noError_of_small (small : f.ret.toNat < 2 ^ 31) : 0 ≤ f.ret.toInt := by
  rw [BitVec.toInt_eq_toNat_of_lt (by omega)]
  exact Int.natCast_nonneg _

end Formatted

/-- The bytes that the UART fetches for `TXD.PTR = buf` and `TXD.MAXCNT = buf_len`; the call returns
when they are sent. -/
def uartTxBlocking (buf : Vector Char 256) (bufLen : BitVec 32) : Option (List Char) :=
  if bufLen.toNat ≤ 256 then some (buf.toList.take bufLen.toNat) else none

/-- `prv_log`, by what is in the buffer before and what the format call comes to; `none` for an
access outside of the buffer. -/
def prvLog (logBuf : Vector Char 256) (f : Formatted (256 - 1)) : Option (List Char) := do
  let logBuf ← storeAll logBuf 0 (f.text ++ ['\x00'])
  let size : BitVec 32 := f.ret
  let logBuf ← store logBuf size.toNat '\n'
  uartTxBlocking logBuf (size + 1)

/-- The stored text and a newline are transmitted, and nothing else. -/
def Framed (logBuf : Vector Char 256) (f : Formatted (256 - 1)) : Prop :=
  prvLog logBuf f = some (f.text ++ ['\n'])

section Log

variable (logBuf : Vector Char 256) (f : Formatted (256 - 1))

/-- What `vsnprintf` leaves in the buffer: the stored text, a NUL and what was there before. -/
theorem prvLog_eq : ∃ v : Vector Char 256, ∃ behind, v.toList = f.text ++ '\x00' :: behind ∧
    f.stored + 1 + behind.length = 256 ∧
      prvLog logBuf f = (store v f.ret.toNat '\n').bind fun v => uartTxBlocking v (f.ret + 1) := by
  have inLimit := f.inLimit
  have split : logBuf.toList = [] ++ logBuf.toList.take (f.stored + 1) ++ logBuf.toList.drop (f.stored + 1) :=
    (List.take_append_drop _ _).symm
  have room : (logBuf.toList.take (f.stored + 1)).length = (f.text ++ ['\x00']).length := by
    rw [List.length_take, Vector.length_toList, List.length_append, f.text_length, List.length_singleton]
    omega
  obtain ⟨v, stored, content⟩ := storeAll_content split room
  refine ⟨v, logBuf.toList.drop (f.stored + 1), ?_, ?_, ?_⟩
  · rw [content, List.nil_append, List.append_assoc, List.singleton_append]
  · rw [List.length_drop, Vector.length_toList]
    omega
  · change (storeAll logBuf 0 _).bind _ = _
    rw [show storeAll logBuf 0 (f.text ++ ['\x00']) = some v from stored]
    rfl

/-- A newline outside of the buffer. -/
theorem prvLog_outside (outside : 256 ≤ f.ret.toNat) : prvLog logBuf f = none := by
  obtain ⟨v, behind, -, -, log⟩ := prvLog_eq logBuf f
  rw [log, store, dif_neg (Nat.not_lt.2 outside), Option.bind_none]

/-- Inside of it as many bytes are transmitted as the whole text has, and one more. -/
theorem prvLog_inside (inside : f.ret.toNat < 256) : ∃ behind, f.stored + 1 + behind.length = 256 ∧
    prvLog logBuf f = some (((f.text ++ '\x00' :: behind).set f.ret.toNat '\n').take (f.ret.toNat + 1)) := by
  obtain ⟨v, behind, content, length, log⟩ := prvLog_eq logBuf f
  have size : (f.ret + 1).toNat = f.ret.toNat + 1 := BitVec.toNat_add_of_lt (by simp; omega)
  have fetched : (f.ret + 1).toNat ≤ 256 := by omega
  refine ⟨behind, length, ?_⟩
  rw [log, store_eq inside, Option.bind_some, uartTxBlocking, if_pos fetched, Vector.toList_set, content, size]

/-- A text of 255 characters is cut, and the NUL behind it is transmitted. -/
theorem prvLog_full (noError : 0 ≤ f.ret.toInt) (full : f.expansion.length = 255) :
    prvLog logBuf f = some (f.text ++ ['\x00', '\n']) := by
  obtain ⟨ret, stored⟩ := f.ret_of_noError noError
  obtain ⟨behind, length, log⟩ := prvLog_inside logBuf f (by omega)
  obtain ⟨b, rfl⟩ := List.length_eq_one_iff.1 (show behind.length = 1 by omega)
  have text : f.text.length = 254 := f.text_length.trans (by omega)
  rw [log, ret, full, List.set_append_right _ _ (by omega), text, List.take_of_length_le (by simp [text])]
  rfl

end Log

/-- **When a log line is framed**: exactly when `vsnprintf` reports no error and the text has at most
254 characters. -/
theorem framed_iff (logBuf : Vector Char 256) (f : Formatted (256 - 1)) :
    Framed logBuf f ↔ 0 ≤ f.ret.toInt ∧ f.expansion.length ≤ 254 := by
  rw [Framed]
  constructor
  · intro framed
    rcases Nat.lt_or_ge f.ret.toNat 256 with inside | outside
    · obtain ⟨behind, length, log⟩ := prvLog_inside logBuf f inside
      have noError := f.noError_of_small (Nat.lt_trans inside (by decide))
      obtain ⟨ret, stored⟩ := f.ret_of_noError noError
      have sent := congrArg List.length (Option.some.inj (log.symm.trans framed))
      simp only [List.length_take, List.length_set, List.length_append, List.length_cons, List.length_nil,
        f.text_length] at sent
      exact ⟨noError, by omega⟩
    · rw [prvLog_outside logBuf f outside] at framed
      cases framed
  · rintro ⟨noError, short⟩
    obtain ⟨ret, stored⟩ := f.ret_of_noError noError
    obtain ⟨behind, length, log⟩ := prvLog_inside logBuf f (by omega)
    have text : f.text.length = f.ret.toNat := f.text_length.trans (by omega)
    rw [log, List.set_append_right _ _ (by omega), text, Nat.sub_self, List.set_cons_zero, ← text,
      List.take_length_add_append]
    rfl

/-! ## Lines that are not framed -/

/-- A text of `n` letters. -/
def letters (n : Nat) (small : n < 2 ^ 31) : Formatted (256 - 1) where
  expansion := List.replicate n 'a'
  noNul := by simp
  stored := min n 254
  ret := .ofNat 32 n
  inText := by simp
  inLimit := by omega
  returned := by
    refine .inr ⟨?_, by simp⟩
    rw [List.length_replicate, BitVec.toInt_eq_toNat_of_lt, BitVec.toNat_ofNat, Nat.mod_eq_of_lt]
    · omega
    · rw [BitVec.toNat_ofNat]
      omega

/-- An error before anything of the text is stored. -/
def encodingError (expansion : List Char) (noNul : '\x00' ∉ expansion) : Formatted (256 - 1) where
  expansion
  noNul
  stored := 0
  ret := 0xFFFFFFFF#32
  inText := Nat.zero_le _
  inLimit := Nat.succ_pos 254
  returned := .inl (Int.negSucc_lt_zero 0)

/-- One character too many puts a NUL on the line, two or an error put the newline outside of the buffer. -/
theorem lines_unframed :
    (∀ logBuf, ∃ sent, prvLog logBuf (letters 255 (by decide)) = some sent ∧ '\x00' ∈ sent) ∧
    (∀ logBuf, prvLog logBuf (letters 256 (by decide)) = none) ∧
    (∀ logBuf, prvLog logBuf (encodingError ['%'] (by decide)) = none) ∧ ¬ ∀ logBuf f, Framed logBuf f := by
  have outside (logBuf : Vector Char 256) : prvLog logBuf (letters 256 (by decide)) = none :=
    prvLog_outside logBuf _ (by decide)
  refine ⟨?_, outside, ?_, ?_⟩
  · intro logBuf
    exact ⟨_, prvLog_full logBuf _ (by decide) List.length_replicate, by simp⟩
  · intro logBuf
    exact prvLog_outside logBuf _ (by decide)
  · intro framed
    have sent := framed (.replicate 256 '\x00') (letters 256 (by decide))
    rw [Framed, outside] at sent
    cases sent

end Maskset.Uart
