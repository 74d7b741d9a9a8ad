import Maskset.War.Conservation

/-!
# The verdict of a game

`simulate` looks for a winner only at the head of its loop. `verdict_iff` says when
the reported winner matches the cards on the table: unless the last of the
`kMaxRounds` rounds takes a player's last card. `decided_by_last` builds a game in
which it does.
-/

namespace Maskset.War
set_option autoImplicit false

open Maskset.Logic

/-- The reported winner matches the cards on the table. -/
def Table.Verdict (t : Table) : Prop :=
  (t.result.winner = .kOne ↔ t.p2.ncards = 0) ∧ (t.result.winner = .kTwo ↔ t.p1.ncards = 0) ∧
    (t.result.winner = .kNone ↔ t.p1.ncards ≠ 0 ∧ t.p2.ncards ≠ 0)

section Verdict

variable {may : MayAnswer} {c1 c2 : Card} {t t' : Table} {w : PlayerEnum} {p1 p2 : Player}
  {s1 s2 : Strategy} {n : Nat}

/-- A hand does not declare a winner of the game. -/
theorem Plays.winner_eq (h : Plays may c1 c2 t w t') : t'.result.winner = t.result.winner := by
  have give (t : Table) (w cards) : (t.give w cards).result.winner = t.result.winner := by cases w <;> rfl
  have record (t : Table) (w d1 d2) : (t.record w d1 d2).result.winner = t.result.winner := by cases w <;> rfl
  induction h with
  | decided => exact give _ _ _
  | firstOut => exact give _ _ _
  | secondOut => exact give _ _ _
  | war _ _ _ _ _ _ _ _ ih => rw [give, record, give, ih]; rfl

theorem LoopHead.winner_eq (head : LoopHead may p1 p2 n t) : t.result.winner = .kNone := by
  induction head with
  | start => rfl
  | next _ _ _ _ ret ih =>
    obtain ⟨-, _, _, _, _, _, _, _, _, _, _, played⟩ := returns_round.1 ret
    exact played.winner_eq.trans ih

/-- The loop used up its rounds and the last of them took a player's last card. -/
def DecidedByLast (n : Nat) (t : Table) : Prop := n = kMaxRounds ∧ (t.p1.ncards = 0 ∨ t.p2.ncards = 0)

/-- The verdict at each of the three ways out of the loop. -/
theorem Ends.verdict (ends : Ends n t t') (none : t.result.winner = .kNone)
    (total : t.p1.ncards + t.p2.ncards = kDeckSize) : t'.Verdict ↔ ¬ DecidedByLast n t := by
  simp only [kDeckSize] at total
  cases ends with
  | limit =>
    simp only [Table.Verdict, none, DecidedByLast, reduceCtorEq, false_iff, true_iff, true_and]
    omega
  | out1 more out =>
    have other : t.p2.ncards ≠ 0 := by omega
    have early : ¬ DecidedByLast n t := fun late => by have := late.1; omega
    simp only [early, not_false_eq_true, iff_true]
    refine ⟨?_, ?_, ?_⟩ <;> simp [Table.declare, out, other]
  | out2 more in1 out =>
    have early : ¬ DecidedByLast n t := fun late => by have := late.1; omega
    simp only [early, not_false_eq_true, iff_true]
    refine ⟨?_, ?_, ?_⟩ <;> simp [Table.declare, out, in1]

end Verdict

/-- **When the verdict is right**: in every run of a dealt game, exactly when the game
is not decided by the last of its rounds. -/
theorem verdict_iff (may : MayAnswer) (s1 s2 : Strategy) (p1 p2 : Player)
    (dealt : Prog.Returns (env may) (makePlayers s1 s2) (p1, p2)) :
    (∀ t', Prog.Returns (env may) (simulate p1 p2) t' ↔ ∃ n t, LoopHead may p1 p2 n t ∧ Ends n t t') ∧
    ∀ n t t', LoopHead may p1 p2 n t → Ends n t t' → (t'.Verdict ↔ ¬ DecidedByLast n t) := by
  refine ⟨fun _ => returns_simulate, ?_⟩
  intro n t t' head ends
  exact ends.verdict head.winner_eq (sizes_of_deck (head.deck (deal_cards dealt).1))

/-! ## A game with wars

The second player wins the first war and loses the second one, which finds both hands too short,
and soon after it the game. -/

section Contest

def always : Strategy := ⟨1, .alwaysShuffleStrategy⟩

/-- The deck comes in the order of the deal, and nothing is moved afterwards. -/
def unshuffled (deal : {d : List Card // d.Perm deck}) (answers : EnrichmentPolicy → List Card → List Card → Bool) :
    Unit → (q : Request) → q.Answer × Unit
  | _, .shuffle _ v => (if whole : v = deck then ⟨deal.1, whole ▸ deal.2⟩ else ⟨v, .refl v⟩, ())
  | _, .rand => ((0 : Nat), ())
  | _, .enriched policy hand pile => (answers policy hand pile, ())

def contest : {d : List Card // d.Perm deck} :=
  ⟨[5, 2, 2, 2, 6, 14, 14, 14, 14, 13, 13, 13, 13, 12, 12, 12, 12, 11, 11, 11, 11, 10, 9, 10, 10, 10,
    5, 2, 3, 3, 7, 8, 8, 8, 8, 7, 7, 7, 6, 6, 6, 5, 5, 4, 4, 4, 4, 3, 9, 3, 9, 9], by decide⟩

/-- The game with what is on the table at its end: the cards of both players, the winner and the records. -/
def contestEnd : Game (Nat × Nat × GameResult) := do
  let (p1, p2) ← makePlayers always always
  let t ← simulate p1 p2
  pure (t.p1.ncards, t.p2.ncards, t.result)

/-- Both players have lost a stake when the game ends, and the verdict is right. -/
theorem contest_ends : ∃ p1 p2 t,
    Prog.Returns (env fun _ _ _ _ => True) (makePlayers always always) (p1, p2) ∧
      Prog.Returns (env fun _ _ _ _ => True) (simulate p1 p2) t ∧ t.Verdict ∧
      t.result.warHandsP1Lost ≠ [] ∧ t.result.warHandsP2Lost ≠ [] := by
  have result : (Prog.run (S := requests) (unshuffled contest fun _ _ _ => false) contestEnd ()).1.toOption =
      some (52, 0, ⟨.kOne, [2, 2, 2], [3, 9, 9], 30⟩) := by decide +kernel
  have within : ∀ s q, env (fun _ _ _ _ => True) q (unshuffled contest (fun _ _ _ => false) s q).1 := by
    intro _ q
    cases q <;> trivial
  obtain ⟨⟨p1, p2⟩, dealt, ret⟩ := Prog.returns_bind.1 (Prog.returns_of_run within result)
  obtain ⟨t, game, ended⟩ := Prog.returns_bind.1 ret
  simp only [Prog.returns_pure, Prod.mk.injEq] at ended
  obtain ⟨all, none, records⟩ := ended
  refine ⟨p1, p2, t, dealt, game, ?_, ?_, ?_⟩
  · simp [Table.Verdict, all, none, records]
  · simp [records]
  · simp [records]

end Contest

/-! ## A game decided by its last round

Both players always shuffle. The first player takes 25 rounds in a row and is left
with one card in hand; from then on the second player, down to an ace, wins a card
and loses it again every two rounds, until in the last round the ace ties with an ace
and its owner has nothing left to stake. -/

section LongGame

variable {may : MayAnswer} {p1 p2 q1 q2 : Player} {t t' : Table} {c1 c2 : Card} {h1 h2 w1 w2 : List Card}
  {w : PlayerEnum} {n : Nat} {s1 s2 : Strategy}

/-- One more round, from what `decide_shuffle` and the hand can do. -/
theorem LoopHead.round (head : LoopHead may p1 p2 n t) (dealt : (⟨p1, p2, {}⟩ : Table).cards = ↑War.deck)
    (more : n < kMaxRounds) (ready : Prog.Returns (env may) (decideShuffle t.p1 t.p2 1) (q1, q2))
    (hand1 : q1.hand = c1 :: h1) (hand2 : q2.hand = c2 :: h2)
    (played : Plays may c1 c2 ⟨{ q1 with hand := h1 }, { q2 with hand := h2 }, t.result⟩ w t') :
    LoopHead may p1 p2 (n + 1) t' := by
  obtain ⟨ready1, ready2⟩ := decideShuffle_ready ready
  have some1 : q1.ncards ≠ 0 := by simp [Player.ncards, Player.handSize, hand1]
  have some2 : q2.ncards ≠ 0 := by simp [Player.ncards, Player.handSize, hand2]
  refine head.next more (ready1.ncards ▸ some1) (ready2.ncards ▸ some2) (returns_round.2 ?_)
  exact ⟨sizes_of_deck (head.deck dealt), q1, q2, c1, h1, c2, h2, w, ready, hand1, hand2, played⟩

/-- With cards in both hands nothing is shuffled before a round. -/
theorem decideShuffle_idle (h1 h2 pile1 pile2 : List Card) :
    Prog.Returns (env may) (decideShuffle ⟨c1 :: h1, s1, pile1⟩ ⟨c2 :: h2, s2, pile2⟩ 1)
      (⟨c1 :: h1, s1, pile1⟩, ⟨c2 :: h2, s2, pile2⟩) := by
  rw [returns_decideShuffle, returns_shuffleEvent, if_neg (by simp [Player.handSize])]
  exact ⟨rfl, rfl⟩

/-- With an empty hand both players come out in any order. -/
theorem decideShuffle_always {pile1 pile2 : List Card} (perm1 : w1.Perm (h1 ++ pile1))
    (perm2 : w2.Perm pile2) :
    Prog.Returns (env may) (decideShuffle ⟨h1, always, pile1⟩ ⟨[], always, pile2⟩ 1)
      (⟨w1, always, []⟩, ⟨w2, always, []⟩) := by
  rw [returns_decideShuffle, returns_shuffleEvent, if_pos (.inr Nat.one_pos)]
  exact ⟨Prog.returns_bind.2 ⟨w1, returns_shuffleHand.2 perm1, rfl⟩,
    Prog.returns_bind.2 ⟨w2, returns_shuffleHand.2 perm2, rfl⟩⟩

/-- The first player wins one round after the other. -/
theorem LoopHead.climb (dealt : (⟨p1, p2, {}⟩ : Table).cards = ↑War.deck) (pairs : List (Card × Card))
    (higher : ∀ p ∈ pairs, 0 < p.2 ∧ p.2 < p.1) {pile1 pile2 : List Card} {r : GameResult}
    (head : LoopHead may p1 p2 n
      ⟨⟨pairs.map (·.1) ++ h1, s1, pile1⟩, ⟨pairs.map (·.2) ++ h2, s2, pile2⟩, r⟩)
    (room : n + pairs.length ≤ kMaxRounds) :
    LoopHead may p1 p2 (n + pairs.length)
      ⟨⟨h1, s1, pile1 ++ pairs.flatMap fun p => [p.1, p.2]⟩, ⟨h2, s2, pile2⟩,
        { r with nhands := r.nhands + pairs.length }⟩ := by
  induction pairs generalizing n pile1 r with
  | nil => simpa using head
  | cons p pairs ih =>
    obtain ⟨pos, gt⟩ := higher p List.mem_cons_self
    simp only [List.length_cons] at room
    have won : winnerOf p.1 p.2 = .kOne := winnerOf_of_gt gt
    have next := head.round dealt (by omega) (decideShuffle_idle _ _ _ _) rfl rfl
      (.decided (Nat.lt_trans pos gt) pos won (by decide) (.inl rfl))
    have rest := ih (fun p h => higher p (List.mem_cons_of_mem _ h)) next (by omega)
    simpa [Table.give, Table.countHand, Player.takeAll, Player.take, Nat.add_assoc, Nat.add_comm 1] using rest

/-- Two rounds: the second player's ace wins a two and the two is lost to a three.
In between everybody shuffles. -/
theorem LoopHead.lend (dealt : (⟨p1, p2, {}⟩ : Table).cards = ↑War.deck) {pile : List Card} {r : GameResult}
    (head : LoopHead may p1 p2 n ⟨⟨2 :: h1, always, pile⟩, ⟨[14], always, []⟩, r⟩)
    (perm : (3 :: w1).Perm (h1 ++ pile)) (room : n + 2 ≤ kMaxRounds) :
    LoopHead may p1 p2 (n + 2)
      ⟨⟨w1, always, [3, 2]⟩, ⟨[14], always, []⟩, { r with nhands := r.nhands + 2 }⟩ := by
  have first := head.round dealt (by omega) (decideShuffle_idle _ _ _ _) rfl rfl
    (.decided (by decide) (by decide) (winnerOf_of_lt (by decide)) (by decide) (.inl rfl))
  exact first.round dealt (by omega) (decideShuffle_always perm (.refl _)) rfl rfl
    (.decided (by decide) (by decide) (winnerOf_of_gt (by decide)) (by decide) (.inl rfl))

theorem LoopHead.lend_many (dealt : (⟨p1, p2, {}⟩ : Table).cards = ↑War.deck) {r : GameResult} (k : Nat)
    (head : LoopHead may p1 p2 n ⟨⟨2 :: h1, always, [3, 2]⟩, ⟨[14], always, []⟩, r⟩)
    (room : n + 2 * k ≤ kMaxRounds) :
    LoopHead may p1 p2 (n + 2 * k)
      ⟨⟨2 :: h1, always, [3, 2]⟩, ⟨[14], always, []⟩, { r with nhands := r.nhands + 2 * k }⟩ := by
  induction k with
  | zero => exact head
  | succ k ih =>
    have perm : ([3, 2] ++ h1).Perm (h1 ++ [3, 2]) := List.perm_append_comm
    exact (ih (by omega)).lend dealt perm (by omega)

/-- The 25 rounds the first player starts with. -/
def climbPairs : List (Card × Card) :=
  [(14, 8), (14, 8), (14, 7), (13, 7), (13, 7), (13, 7), (13, 6), (12, 6), (12, 6), (12, 6), (12, 5),
    (11, 5), (11, 5), (11, 5), (11, 4), (10, 4), (10, 4), (10, 4), (10, 3), (9, 3), (9, 3), (9, 3),
    (9, 2), (8, 2), (8, 2)]

/-- What the first player has won with them. -/
def climbPile : List Card := climbPairs.flatMap fun p => [p.1, p.2]

/-- The first player's other cards while the ace is lent cards. -/
def lentHand : List Card := (climbPile.erase 3).erase 2

def longP1 : Player := { hand := climbPairs.map (·.1) ++ [2], strategy := always }
def longP2 : Player := { hand := climbPairs.map (·.2) ++ [14], strategy := always }

theorem longGame_dealt : Prog.Returns (env may) (makePlayers always always) (longP1, longP2) :=
  makePlayers_returns (d := longP1.hand ++ longP2.hand) (by decide)

/-- The first player's cards when the last round begins. -/
def lastHand : List Card := ((lentHand ++ [3, 2]).erase 3).erase 14

def longTable (hands : Nat) (hand1 pile1 hand2 : List Card) : Table :=
  ⟨⟨hand1, always, pile1⟩, ⟨hand2, always, []⟩, { nhands := hands }⟩

/-- The loop head after all of the rounds, with the second player out. -/
theorem longGame_head : LoopHead may longP1 longP2 kMaxRounds
    (longTable 100000 lastHand [3, 2, 14, 14] []) := by
  have dealt : (⟨longP1, longP2, {}⟩ : Table).cards = ↑deck :=
    (deal_cards (longGame_dealt : Prog.Returns (env may) _ _)).1
  have start : LoopHead may longP1 longP2 0 ⟨longP1, longP2, {}⟩ := .start (by decide)
  have climbed : LoopHead may longP1 longP2 25 (longTable 25 [2] climbPile [14]) :=
    start.climb dealt climbPairs (by decide) (by decide)
  have lent : LoopHead may longP1 longP2 27 (longTable 27 (2 :: lentHand) [3, 2] [14]) :=
    climbed.lend dealt (by decide : (3 :: 2 :: lentHand).Perm climbPile) (by decide)
  have many := lent.lend_many dealt 49985 (by decide)
  have last : LoopHead may longP1 longP2 99999 (longTable 99999 (14 :: lastHand) [3, 2] [14]) :=
    many.lend dealt (by decide : (3 :: 14 :: lastHand).Perm (lentHand ++ [3, 2])) (by decide)
  exact last.round dealt (by decide) (decideShuffle_idle _ _ _ _) rfl rfl
    (.secondOut (by decide) (by decide) rfl)

/-- The long game is one that the verdict is wrong for, the contest one that it is right for. -/
theorem verdict_iff_longGame :
    ((longTable 100000 lastHand [3, 2, 14, 14] []).Verdict ↔
      ¬ DecidedByLast kMaxRounds (longTable 100000 lastHand [3, 2, 14, 14] [])) ∧
    ∃ p1 p2 n t t', Prog.Returns (env fun _ _ _ _ => True) (makePlayers always always) (p1, p2) ∧
      LoopHead (fun _ _ _ _ => True) p1 p2 n t ∧ Ends n t t' ∧ t'.Verdict ∧ ¬ DecidedByLast n t := by
  constructor
  · exact (verdict_iff (fun _ _ _ _ => True) always always longP1 longP2 longGame_dealt).2 _ _ _ longGame_head .limit
  · obtain ⟨p1, p2, t', dealt, game, verdict, -, -⟩ := contest_ends
    obtain ⟨returns, right⟩ := verdict_iff (fun _ _ _ _ => True) always always p1 p2 dealt
    obtain ⟨n, t, head, ends⟩ := (returns t').1 game
    exact ⟨p1, p2, n, t, t', dealt, head, ends, verdict, (right n t t' head ends).1 verdict⟩

/-- The game goes to the last round, is decided there and reported as a tie. -/
theorem decided_by_last :
    ¬ ∀ s1 ∈ strategies, ∀ s2 ∈ strategies, ∀ p1 p2 t,
      Prog.Returns (env fun _ _ _ _ => True) (makePlayers s1 s2) (p1, p2) →
      Prog.Returns (env fun _ _ _ _ => True) (simulate p1 p2) t → t.Verdict := by
  intro verdict
  have right := verdict always (by decide) always (by decide) longP1 longP2 _ longGame_dealt
    (returns_simulate.2 ⟨kMaxRounds, _, longGame_head, .limit⟩)
  have reported : PlayerEnum.kNone = PlayerEnum.kOne := right.1.2 rfl
  cases reported

end LongGame

end Maskset.War
