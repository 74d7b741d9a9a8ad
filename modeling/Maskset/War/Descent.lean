import Maskset.War.Plays

/-!
# Down to the deciding hand and back

A hand first goes down through its wars, where only the strategies ask the environment,
and then comes back up, where only the dumps are shuffled and coins are flipped.
`playHand_eq_descend` cuts `play_hand` into these two programs, so whatever is read off the way
down alone does not depend on the dumps' shuffles and the coins.
-/

namespace Maskset.War
set_option autoImplicit false

open Maskset.Logic

/-- The two war hands of a war. -/
abbrev Stakes := WarHand × WarHand

/-- What the way down comes to: the wars, outermost first, the winner of the deciding hand
and the table it was decided on. -/
structure Descent where
  wars : List Stakes
  winner : PlayerEnum
  table : Table
deriving DecidableEq

/-- The winner of a hand that is no war. -/
def decidedBy (c1 c2 : Card) (t : Table) : PlayerEnum :=
  if c1 > c2 then .kOne else if c1 < c2 then .kTwo else if t.p1.ncards = 0 then .kTwo else .kOne

def descendBody (descend : Card → Card → Table → Game Descent) (c1 c2 : Card) (t : Table) : Game Descent := do
  assert (c1 > 0) "c1 > 0"
  assert (c2 > 0) "c2 > 0"
  let t := t.countHand
  if c1 ≠ c2 then pure ⟨[], decidedBy c1 c2 t, t⟩
  else do
    assert (c1 ≠ 0) "c1"
    assert (c2 ≠ 0) "c2"
    if t.p1.ncards = 0 ∨ t.p2.ncards = 0 then pure ⟨[], decidedBy c1 c2 t, t⟩
    else do
      let (p1, p2) ← decideShuffle t.p1 t.p2 kWarSize
      let (wh1, p1) ← WarHand.ofPlayer p1
      let (wh2, p2) ← WarHand.ofPlayer p2
      assert wh1.isValid "wh1.is_valid()"
      assert wh2.isValid "wh2.is_valid()"
      let d ← descend wh1.flip wh2.flip { t with p1, p2 }
      pure { d with wars := (wh1, wh2) :: d.wars }

/-- `play_hand` up to the deciding hand. -/
def descendFuel : Nat → Card → Card → Table → Game Descent
  | 0, _, _, _ => .fault .outOfFuel
  | n + 1, c1, c2, t => descendBody (descendFuel n) c1 c2 t

def descend (c1 c2 : Card) (t : Table) : Game Descent := descendFuel (t.p1.ncards + 1) c1 c2 t

/-- What the way up comes to: what the call returns, what the nested calls returned, outermost
first, and the table. -/
structure Ascent where
  winner : PlayerEnum
  nested : List PlayerEnum
  table : Table

/-- `play_hand` from the deciding hand on. -/
def ascend (decided : PlayerEnum) (bottom : Table) : List Stakes → Card → Card → Game Ascent
  | [], c1, c2 =>
    if c1 ≠ c2 then do
      let (winner, t) ← settle decided c1 c2 bottom
      pure ⟨winner, [], t⟩
    else pure ⟨decided, [], bottom.give decided [c1, c2]⟩
  | (wh1, wh2) :: wars, c1, c2 => do
    let inner ← ascend decided bottom wars wh1.flip wh2.flip
    let t ← divide inner.winner wh1 wh2 inner.table
    let (winner, t) ← settle inner.winner c1 c2 t
    pure ⟨winner, inner.winner :: inner.nested, t⟩

/-- What `play_hand` returns and leaves. -/
def Ascent.result (a : Ascent) : PlayerEnum × Table := (a.winner, a.table)

/-- Down and up again. -/
def downAndUp (down : Card → Card → Table → Game Descent) (c1 c2 : Card) (t : Table) : Game (PlayerEnum × Table) :=
  Ascent.result <$> (down c1 c2 t >>= fun d => ascend d.winner d.table d.wars c1 c2)

section Cut

variable {down : Card → Card → Table → Game Descent} {c c1 c2 : Card} {t : Table}

theorem settle_ascend (decided : PlayerEnum) (different : c1 ≠ c2) :
    Ascent.result <$> ascend decided t [] c1 c2 = settle decided c1 c2 t := by
  rw [ascend, if_pos different, map_bind]
  exact bind_pure _

theorem decidedBy_of_ne (different : c1 ≠ c2) : decidedBy c1 c2 t = winnerOf c1 c2 := by
  rcases Nat.lt_or_gt_of_ne different with less | greater
  · rw [winnerOf_of_lt less, decidedBy, if_neg (Nat.lt_asymm less), if_pos less]
  · rw [winnerOf_of_gt greater, decidedBy, if_pos greater]

theorem decidedBy_self : decidedBy c c t = if t.p1.ncards = 0 then .kTwo else .kOne := by
  rw [decidedBy, if_neg (Nat.lt_irrefl c), if_neg (Nat.lt_irrefl c)]

/-- One war on the way up. -/
theorem ascend_cons (decided : PlayerEnum) (bottom : Table) (wh1 wh2 : WarHand) (wars : List Stakes) :
    Ascent.result <$> ascend decided bottom ((wh1, wh2) :: wars) c1 c2 = (do
      let (winner, t) ← Ascent.result <$> ascend decided bottom wars wh1.flip wh2.flip
      let t ← divide winner wh1 wh2 t
      settle winner c1 c2 t) := by
  simp only [ascend, Ascent.result, map_eq_pure_bind, bind_assoc, pure_bind, Prod.eta, bind_pure]

/-- A war is the way down, one more war on the way up. -/
theorem war_downAndUp (pos : 0 < c) (in1 : t.p1.ncards ≠ 0) (in2 : t.p2.ncards ≠ 0) :
    war (downAndUp down) c c t.countHand = downAndUp (descendBody down) c c t := by
  have ne : c ≠ 0 := Nat.ne_of_gt pos
  have in1' : t.countHand.p1.ncards ≠ 0 := in1
  have in2' : t.countHand.p2.ncards ≠ 0 := in2
  have goesOn : ¬ (t.countHand.p1.ncards = 0 ∨ t.countHand.p2.ncards = 0) := not_or.2 ⟨in1, in2⟩
  rw [war, downAndUp, descendBody]
  simp only [assert_pos pos, assert_pos ne, pure_bind, if_neg in1', if_neg in2', if_neg goesOn, ne_eq,
    not_true_eq_false, if_false, map_bind, bind_assoc, downAndUp, ascend_cons]

/-- A tie in which a player is out is decided without a coin. -/
theorem tie_downAndUp (pos : 0 < c) (out : t.p1.ncards = 0 ∨ t.p2.ncards = 0) :
    war (downAndUp down) c c t.countHand = downAndUp (descendBody down) c c t := by
  have ne : c ≠ 0 := Nat.ne_of_gt pos
  have out' : t.countHand.p1.ncards = 0 ∨ t.countHand.p2.ncards = 0 := out
  have up : downAndUp (descendBody down) c c t =
      pure (decidedBy c c t, t.countHand.give (decidedBy c c t) [c, c]) := by
    rw [downAndUp, descendBody]
    simp only [assert_pos pos, assert_pos ne, pure_bind, if_pos out', ne_eq, not_true_eq_false, if_false, ascend,
      map_pure]
    rfl
  rw [up, decidedBy_self]
  by_cases out1 : t.p1.ncards = 0
  · rw [war_out1 pos out1, if_pos out1]
  · rw [war_out2 pos out1 (out.resolve_left out1), if_neg out1]

theorem playHandBody_downAndUp : playHandBody (downAndUp down) c1 c2 t = downAndUp (descendBody down) c1 c2 t := by
  by_cases pos1 : c1 > 0
  · by_cases pos2 : c2 > 0
    · rw [playHandBody_eq pos1 pos2]
      by_cases tie : c1 = c2
      · subst tie
        rw [if_pos (winnerOf_eq_kNone.2 rfl)]
        by_cases out : t.p1.ncards = 0 ∨ t.p2.ncards = 0
        · exact tie_downAndUp pos1 out
        · exact war_downAndUp pos1 (not_or.1 out).1 (not_or.1 out).2
      · have won : winnerOf c1 c2 ≠ .kNone := mt winnerOf_eq_kNone.1 tie
        rw [if_neg won, downAndUp, descendBody, assert_pos pos1, pure_bind, assert_pos pos2, pure_bind]
        dsimp only
        rw [if_pos tie, pure_bind, decidedBy_of_ne tie, settle_ascend _ tie]
    · rw [playHandBody, downAndUp, descendBody, assert_pos pos1, assert_neg pos2]
      rfl
  · rw [playHandBody, downAndUp, descendBody, assert_neg pos1]
    rfl

theorem playHandFuel_eq (n : Nat) : playHandFuel n = downAndUp (descendFuel n) := by
  induction n with
  | zero => rfl
  | succ n ih =>
    funext c1 c2 t
    rw [playHandFuel, ih, playHandBody_downAndUp]
    rfl

/-- **A hand is its way down and its way up.** -/
theorem playHand_eq_descend (c1 c2 : Card) (t : Table) :
    playHand c1 c2 t =
      Ascent.result <$> (descend c1 c2 t >>= fun d => ascend d.winner d.table d.wars c1 c2) := by
  rw [playHand, playHandFuel_eq]
  rfl

end Cut

end Maskset.War
