import Maskset.War.Player
import Mathlib.Data.List.TakeDrop

/-!
# `play_hand`

The function translated from the source with its recursive call open
(`playHandBody`), closed by fuel (`playHandFuel`), and `playHand_eq`, which says
that the fuel is always enough: `playHand` satisfies the equation of the source.
-/

namespace Maskset.War
set_option autoImplicit false

open Maskset.Logic

structure GameResult where
  winner : PlayerEnum := .kNone
  warHandsP1Lost : List Card := []
  warHandsP2Lost : List Card := []
  nhands : Nat := 0
deriving DecidableEq, Repr

/-- What `play_hand` and the loop of `simulate` change: both players and the result. -/
structure Table where
  p1 : Player
  p2 : Player
  result : GameResult
deriving DecidableEq, Repr

structure WarHand where
  dump : List Card := []
  flip : Card := 0
deriving DecidableEq, Repr

namespace WarHand

def isValid (wh : WarHand) : Prop := wh.flip > 0

instance (wh : WarHand) : Decidable wh.isValid := inferInstanceAs (Decidable (wh.flip > 0))

/-- `n` more rounds of the constructor's loop. -/
def dumpLoop : Nat → Player → List Card → Game (List Card × Player)
  | 0, player, dump => pure (dump, player)
  | n + 1, player, dump => do
    let (card, player) ← player.draw
    assert (card > 1) "card > 1"
    dumpLoop n player (dump ++ [card])

/-- The constructor `WarHand(Player &)`. -/
def ofPlayer (player : Player) : Game (WarHand × Player) :=
  if player.handSize ≥ 1 then do
    let (dump, player) ← dumpLoop (min 4 player.handSize) player []
    pure ({ dump := dump.dropLast, flip := dump.getLastD 0 }, player)
  else pure ({}, player)

end WarHand

/-- Taking cards one after the other. -/
def Player.takeAll (p : Player) (cards : List Card) : Player := cards.foldl Player.take p

/-- A loop that pushes the cards of one dump. -/
def pushDump : List Card → List Card → Game (List Card)
  | cards, [] => pure cards
  | cards, pt :: dump => do
    assert (pt > 1) "pt > 1"
    pushDump (cards ++ [pt]) dump

/-- After the inner hand of a war: the dumps go to its winner and the loser's
dump is recorded. -/
def divide (winner : PlayerEnum) (wh1 wh2 : WarHand) (t : Table) : Game Table := do
  let cards ← pushDump [] wh1.dump
  let cards ← pushDump cards wh2.dump
  let cards ← shuffleHand .vector cards
  match winner with
  | .kOne => pure { t with
      p1 := t.p1.takeAll cards
      result := { t.result with warHandsP2Lost := t.result.warHandsP2Lost ++ wh2.dump } }
  | .kTwo => pure { t with
      p2 := t.p2.takeAll cards
      result := { t.result with warHandsP1Lost := t.result.warHandsP1Lost ++ wh1.dump } }
  | .kNone => .fault (.assertion "0")

/-- The common tail: the cheap shuffle of the two cards and the switch that
hands them out. -/
def settle (winner : PlayerEnum) (c1 c2 : Card) (t : Table) : Game (PlayerEnum × Table) := do
  let r ← rand
  let (card1, card2) := if r % 2 ≠ 0 then (c2, c1) else (c1, c2)
  match winner with
  | .kOne => pure (winner, { t with p1 := (t.p1.take card1).take card2 })
  | .kTwo => pure (winner, { t with p2 := (t.p2.take card1).take card2 })
  | .kNone => .fault (.assertion "0")

def kWarSize : Nat := 4

/-- The war branch, over the recursive call. -/
def war (playHand : Card → Card → Table → Game (PlayerEnum × Table)) (c1 c2 : Card) (t : Table) :
    Game (PlayerEnum × Table) := do
  assert (c1 ≠ 0) "c1"
  assert (c2 ≠ 0) "c2"
  -- If a players last card is a war then they lose
  if t.p1.ncards = 0 then
    pure (.kTwo, { t with p2 := (t.p2.take c1).take c2 })
  else if t.p2.ncards = 0 then
    pure (.kOne, { t with p1 := (t.p1.take c1).take c2 })
  else do
    let (p1, p2) ← decideShuffle t.p1 t.p2 kWarSize
    let (wh1, p1) ← WarHand.ofPlayer p1
    let (wh2, p2) ← WarHand.ofPlayer p2
    assert wh1.isValid "wh1.is_valid()"
    assert wh2.isValid "wh2.is_valid()"
    let (winner, t) ← playHand wh1.flip wh2.flip { t with p1, p2 }
    let t ← divide winner wh1 wh2 t
    settle winner c1 c2 t

/-- `result->nhands += 1`. -/
def Table.countHand (t : Table) : Table :=
  { t with result := { t.result with nhands := t.result.nhands + 1 } }

/-- The body of `play_hand`, over its recursive call. -/
def playHandBody (playHand : Card → Card → Table → Game (PlayerEnum × Table)) (c1 c2 : Card)
    (t : Table) : Game (PlayerEnum × Table) := do
  assert (c1 > 0) "c1 > 0"
  assert (c2 > 0) "c2 > 0"
  if c1 > c2 then settle .kOne c1 c2 t.countHand
  else if c1 < c2 then settle .kTwo c1 c2 t.countHand
  else war playHand c1 c2 t.countHand

def playHandFuel : Nat → Card → Card → Table → Game (PlayerEnum × Table)
  | 0, _, _, _ => .fault .outOfFuel
  | n + 1, c1, c2, t => playHandBody (playHandFuel n) c1 c2 t

/-- Every nested call finds fewer cards with the first player. -/
def playHand (c1 c2 : Card) (t : Table) : Game (PlayerEnum × Table) :=
  playHandFuel (t.p1.ncards + 1) c1 c2 t

/-! ## The parts without requests -/

/-- The four cards, or all that are left, that a player stakes in a war. -/
def Player.warHand (p : Player) : WarHand :=
  { dump := (p.hand.take 4).dropLast, flip := (p.hand.take 4).getLastD 0 }

/-- The player after staking. -/
def Player.staked (p : Player) : Player := { p with hand := p.hand.drop 4 }

/-- The stakes pass the constructor's assertion. -/
def Player.StakesValid (p : Player) : Prop := ∀ c ∈ p.hand.take 4, 1 < c

instance (p : Player) : Decidable p.StakesValid :=
  inferInstanceAs (Decidable (∀ c ∈ p.hand.take 4, 1 < c))

theorem dumpLoop_eq (n : Nat) (p : Player) (dump : List Card) (enough : n ≤ p.hand.length) :
    WarHand.dumpLoop n p dump =
      if ∀ c ∈ p.hand.take n, 1 < c then pure (dump ++ p.hand.take n, { p with hand := p.hand.drop n })
      else .fault (.assertion "card > 1") := by
  induction n generalizing p dump with
  | zero => simp [WarHand.dumpLoop]
  | succ n ih =>
    obtain ⟨hand, strategy, pile⟩ := p
    cases hand with
    | nil => simp at enough
    | cons card hand =>
      have rest := ih ⟨hand, strategy, pile⟩ (dump ++ [card]) (by simpa using enough)
      simp only [WarHand.dumpLoop, Player.draw_cons, pure_bind]
      by_cases valid : 1 < card
      · rw [assert_pos valid, pure_bind, rest]
        simp [valid]
      · rw [assert_neg valid]
        simp [valid]

theorem WarHand.ofPlayer_eq (p : Player) :
    WarHand.ofPlayer p =
      if p.StakesValid then pure (p.warHand, p.staked) else .fault (.assertion "card > 1") := by
  have take_min : p.hand.take (min 4 p.hand.length) = p.hand.take 4 := by
    rw [← List.take_take, List.take_length]
  have drop_min : p.hand.drop (min 4 p.hand.length) = p.hand.drop 4 := by
    rcases Nat.le_total 4 p.hand.length with h | h
    · rw [Nat.min_eq_left h]
    · rw [Nat.min_eq_right h, List.drop_length, List.drop_eq_nil_of_le h]
  unfold WarHand.ofPlayer
  split
  · rw [Player.handSize, dumpLoop_eq _ _ _ (Nat.min_le_right 4 _), take_min, drop_min]
    by_cases valid : p.StakesValid
    · rw [if_pos valid, if_pos (show ∀ c ∈ p.hand.take 4, 1 < c from valid)]
      rfl
    · rw [if_neg valid, if_neg (show ¬ ∀ c ∈ p.hand.take 4, 1 < c from valid)]
      rfl
  · rename_i small
    have empty : p.hand = [] := List.eq_nil_of_length_eq_zero (by simp only [Player.handSize] at small; omega)
    obtain ⟨hand, strategy, pile⟩ := p
    subst empty
    rfl

/-- A program behind a stake whose check may fail. -/
theorem wp_ofPlayer_seq {C : Contract requests Fault} {α : Type} {p : Player} {m : WarHand × Player → Game α}
    {Q : α → Prop} (excused : C.fault (.assertion "card > 1"))
    (h : p.StakesValid → Prog.wp C (m (p.warHand, p.staked)) Q) : Prog.wp C (WarHand.ofPlayer p >>= m) Q := by
  rw [WarHand.ofPlayer_eq]
  split
  · rename_i valid
    exact h valid
  · exact excused

theorem pushDump_eq (cards dump : List Card) :
    pushDump cards dump =
      if ∀ c ∈ dump, 1 < c then pure (cards ++ dump) else .fault (.assertion "pt > 1") := by
  induction dump generalizing cards with
  | nil => simp [pushDump]
  | cons pt dump ih =>
    by_cases valid : 1 < pt
    · rw [pushDump, assert_pos valid, pure_bind, ih]
      simp [valid]
    · rw [pushDump, assert_neg valid]
      simp [valid]

namespace Player

variable {p : Player}

theorem warHand_take (some : p.hand ≠ []) : p.warHand.dump ++ [p.warHand.flip] = p.hand.take 4 := by
  have ne : p.hand.take 4 ≠ [] := by simp [some]
  have flip : p.warHand.flip = (p.hand.take 4).getLast ne := by
    simp [warHand, List.getLastD_eq_getLast?, List.getLast?_eq_some_getLast ne]
  rw [flip]
  exact List.dropLast_append_getLast ne

theorem warHand_split (some : p.hand ≠ []) :
    p.warHand.dump ++ p.warHand.flip :: p.staked.hand = p.hand := by
  calc p.warHand.dump ++ p.warHand.flip :: p.staked.hand
      = (p.warHand.dump ++ [p.warHand.flip]) ++ p.hand.drop 4 := by simp [staked]
    _ = p.hand.take 4 ++ p.hand.drop 4 := by rw [warHand_take some]
    _ = p.hand := List.take_append_drop 4 p.hand

theorem hand_ne_nil (some : p.handSize ≠ 0) : p.hand ≠ [] :=
  fun empty => some (by simp [handSize, empty])

@[simp] theorem staked_pile : p.staked.pile = p.pile := rfl
theorem staked_ncards : p.staked.ncards = p.ncards - min 4 p.handSize := by
  simp only [ncards, handSize, staked, List.length_drop]
  omega

theorem staked_ncards_lt (some : p.handSize ≠ 0) : p.staked.ncards < p.ncards := by
  rw [staked_ncards]
  simp only [ncards] at *
  omega

theorem takeAll_eq (cards : List Card) : p.takeAll cards = { p with pile := p.pile ++ cards } := by
  induction cards generalizing p with
  | nil => simp [takeAll]
  | cons c cards ih =>
    have step : p.takeAll (c :: cards) = (p.take c).takeAll cards := rfl
    rw [step, ih]
    simp [take]

/-- A flipped card passes `is_valid`. -/
theorem StakesValid.flip_pos (valid : p.StakesValid) (some : p.handSize ≠ 0) : p.warHand.isValid := by
  have flipped : p.warHand.flip ∈ p.hand.take 4 := by
    rw [← warHand_take (hand_ne_nil some)]
    simp
  exact Nat.lt_of_succ_lt (valid _ flipped)

theorem StakesValid.dump (valid : p.StakesValid) : ∀ c ∈ p.warHand.dump, 1 < c :=
  fun c h => valid c (List.dropLast_subset _ h)

end Player

section War

variable {p q : Player}

/-- A player ready for a round has a card to draw. -/
theorem Ready.hand_front (ready : Ready 1 p q) (some : p.ncards ≠ 0) : ∃ c h, q.hand = c :: h :=
  List.exists_cons_of_ne_nil (Player.hand_ne_nil (ready.hand_pos Nat.one_pos some))

/-- A player ready for a war has a card to stake. -/
theorem Ready.hand_stake (ready : Ready kWarSize p q) (some : p.ncards ≠ 0) : q.handSize ≠ 0 :=
  ready.hand_pos (by decide) some

/-- It goes on with fewer cards. -/
theorem Ready.staked_lt (ready : Ready kWarSize p q) (some : p.ncards ≠ 0) : q.staked.ncards < p.ncards := by
  rw [← ready.ncards]
  exact Player.staked_ncards_lt (ready.hand_stake some)

/-- A stake leaves the hand; nothing else moves. -/
theorem Ready.staked_perm (ready : Ready kWarSize p q) (some : p.ncards ≠ 0) :
    p.cards.Perm ((q.warHand.dump ++ [q.warHand.flip]) ++ q.staked.cards) := by
  have hand := Player.warHand_split (Player.hand_ne_nil (ready.hand_stake some))
  have all : q.cards = (q.warHand.dump ++ [q.warHand.flip]) ++ q.staked.cards := by
    rw [Player.cards, ← hand, Player.cards, Player.staked_pile]
    simp
  rw [← all]
  exact ready.cards.symm

end War

/-! ## The equation of the source -/

section Equation

variable {f g : Card → Card → Table → Game (PlayerEnum × Table)} {c1 c2 : Card} {t : Table}

/-- A war's recursive call is made with fewer cards left to the first player. -/
theorem war_congr (same : ∀ a b s, s.p1.ncards < t.p1.ncards → f a b s = g a b s) :
    war f c1 c2 t = war g c1 c2 t := by
  unfold war
  refine congrArg (_ >>= ·) (funext fun _ => congrArg (_ >>= ·) (funext fun _ => ?_))
  split
  · rfl
  rename_i in1
  split
  · rfl
  apply Prog.bind_congr_returns
  intro q ret
  obtain ⟨q1, q2⟩ := q
  obtain ⟨ready1, -⟩ := decideShuffle_ready ret
  have fewer : q1.staked.ncards < t.p1.ncards := ready1.staked_lt in1
  simp only [WarHand.ofPlayer_eq]
  apply Prog.bind_congr_returns
  intro x ret1
  split at ret1
  · obtain rfl := Prog.returns_pure.1 ret1
    refine congrArg (_ >>= ·) (funext fun y => congrArg (_ >>= ·) (funext fun _ =>
      congrArg (_ >>= ·) (funext fun _ => ?_)))
    rw [same _ _ _ fewer]
  · exact (Prog.returns_fault ret1).elim

theorem playHandBody_congr (same : ∀ a b s, s.p1.ncards < t.p1.ncards → f a b s = g a b s) :
    playHandBody f c1 c2 t = playHandBody g c1 c2 t := by
  have wars : war f c1 c2 t.countHand = war g c1 c2 t.countHand := war_congr same
  simp only [playHandBody, wars]

end Equation

/-- More fuel than the first player has cards changes nothing. -/
theorem playHandFuel_enough (n : Nat) (c1 c2 : Card) (t : Table) (enough : t.p1.ncards < n) :
    playHandFuel n c1 c2 t = playHand c1 c2 t := by
  induction n using Nat.strongRecOn generalizing c1 c2 t with
  | ind n ih =>
    obtain ⟨n, rfl⟩ : ∃ m, n = m + 1 := ⟨n - 1, by omega⟩
    apply playHandBody_congr
    intro a b s fewer
    rw [ih n (by omega) a b s (by omega), ih t.p1.ncards (by omega) a b s fewer]

/-- **`play_hand` satisfies the equation of the source.** -/
theorem playHand_eq (c1 c2 : Card) (t : Table) :
    playHand c1 c2 t = playHandBody playHand c1 c2 t :=
  playHandBody_congr fun a b s fewer => playHandFuel_enough _ a b s fewer

end Maskset.War
