import Maskset.War.Plays

/-!
# `simulate` and `make_players`

The loop of `simulate` is `rounds`, with the number of iterations left; `LoopHead`
are the states in which its head can be reached and `Ends` the three ways it stops.
`returns_simulate` says that together they are what a call returns.
-/

namespace Maskset.War
set_option autoImplicit false

open Maskset.Logic

/-- The deck as `make_deck` fills it. -/
def deck : List Card := (List.range kDeckSize).map fun i => 2 + i % (kMaxCard - 1)

def makeDeck : Game (List Card) :=
  (List.range kDeckSize).mapM fun i => do
    let card := 2 + i % (kMaxCard - 1)
    assert (card > 0 ∧ card ≤ kMaxCard) "card > 0 && card <= kMaxCard"
    pure card

/-- The constructor `Player(hand, strategy)`. -/
def Player.construct (hand : List Card) (strategy : Strategy) : Game Player := do
  let player : Player := { hand, strategy }
  assert player.isValid "is_valid()"
  pure player

/-- The move constructor, which checks again. -/
def Player.move (player : Player) : Game Player := do
  assert player.isValid "is_valid()"
  pure player

def makePlayers (s1 s2 : Strategy) : Game (Player × Player) := do
  let deck ← makeDeck
  let deck ← shuffleHand .vector deck
  let p1 ← Player.construct (deck.take (deck.length / 2)) s1
  let p2 ← Player.construct (deck.drop (deck.length / 2)) s2
  let p1 ← p1.move
  let p2 ← p2.move
  pure (p1, p2)

/-- The loop body of `simulate` once both players have cards. -/
def round (t : Table) : Game Table := do
  assert (t.p1.ncards + t.p2.ncards = kDeckSize) "size1 + size2 == kDeckSize"
  let (p1, p2) ← decideShuffle t.p1 t.p2 1
  assert (p1.handSize ≠ 0) "p1.hand_size()"
  assert (p2.handSize ≠ 0) "p2.hand_size()"
  let (c1, p1) ← p1.draw
  let (c2, p2) ← p2.draw
  let (_, t) ← playHand c1 c2 { t with p1, p2 }
  pure t

/-- `result.winner = w`. -/
def Table.declare (t : Table) (w : PlayerEnum) : Table := { t with result := { t.result with winner := w } }

/-- The loop of `simulate` with `n` iterations left. -/
def rounds : Nat → Table → Game Table
  | 0, t => pure t
  | n + 1, t =>
    if t.p1.ncards ≤ 0 then pure (t.declare .kTwo)
    else if t.p2.ncards ≤ 0 then pure (t.declare .kOne)
    else do
      let t ← round t
      rounds n t

def simulate (p1 p2 : Player) : Game Table := do
  assert (p1.ncards = p2.ncards) "p1.ncards() == p2.ncards()"
  rounds kMaxRounds { p1, p2, result := {} }

/-! ## The deal -/

theorem makeDeck_eq : makeDeck = pure deck := by
  have body : (fun i => do
      let card := 2 + i % (kMaxCard - 1)
      assert (card > 0 ∧ card ≤ kMaxCard) "card > 0 && card <= kMaxCard"
      pure card : Nat → Game Card) = fun i => pure (2 + i % (kMaxCard - 1)) := by
    funext i
    have inRange : 2 + i % (kMaxCard - 1) > 0 ∧ 2 + i % (kMaxCard - 1) ≤ kMaxCard := by
      simp only [kMaxCard]
      omega
    simp only [assert_pos inRange, pure_bind]
  rw [makeDeck, body, List.mapM_pure, deck]

theorem deck_valid : ∀ c ∈ deck, 1 < c ∧ c ≤ kMaxCard := by decide

/-- A hand dealt from the deck passes the constructors' assertion. -/
theorem isValid_of_deal {hand : List Card} {s : Strategy} (dealt : ∀ c ∈ hand, c ∈ deck) :
    (⟨hand, s, []⟩ : Player).isValid = true := by
  simp only [Player.isValid, List.all_nil, Bool.and_true, List.all_eq_true, Bool.and_eq_true,
    decide_eq_true_eq]
  exact fun c h => deck_valid c (dealt c h)

/-- **The deal**: the halves of a permutation of the deck, and no assertion fails. -/
theorem makePlayers_eq (s1 s2 : Strategy) :
    makePlayers s1 s2 = shuffleHand .vector deck >>= fun d =>
      pure (⟨d.take 26, s1, []⟩, ⟨d.drop 26, s2, []⟩) := by
  rw [makePlayers, makeDeck_eq, pure_bind]
  apply Prog.bind_congr_returns
  intro d ret
  have perm : d.Perm deck := by
    obtain ⟨w, -, same⟩ := ret
    exact Prog.returns_pure.1 same ▸ w.2
  have half : d.length / 2 = 26 := by rw [perm.length_eq]; decide
  have valid1 := isValid_of_deal (s := s1) fun c (h : c ∈ d.take 26) => perm.subset (List.mem_of_mem_take h)
  have valid2 := isValid_of_deal (s := s2) fun c (h : c ∈ d.drop 26) => perm.subset (List.mem_of_mem_drop h)
  simp only [half, Player.construct, Player.move, assert_pos valid1, assert_pos valid2, pure_bind]

theorem wp_makePlayers {E : Env requests} (s1 s2 : Strategy) :
    Prog.wp (.safe E) (makePlayers s1 s2) fun p => ∃ d : List Card, d.Perm deck ∧
      p.1 = ⟨d.take 26, s1, []⟩ ∧ p.2 = ⟨d.drop 26, s2, []⟩ := by
  rw [makePlayers_eq, Prog.wp_bind]
  exact wp_shuffleHand fun d perm => ⟨d, perm, rfl, rfl⟩

/-- Every permutation of the deck can be dealt. -/
theorem makePlayers_returns {may : MayAnswer} {s1 s2 : Strategy} {d : List Card} (perm : d.Perm deck) :
    Prog.Returns (env may) (makePlayers s1 s2) (⟨d.take 26, s1, []⟩, ⟨d.drop 26, s2, []⟩) := by
  rw [makePlayers_eq]
  exact Prog.returns_bind.2 ⟨d, returns_shuffleHand.2 perm, rfl⟩

/-! ## The loop -/

/-- The head of the loop can be reached with `n` iterations behind it and `t` on
the table. -/
inductive LoopHead (may : MayAnswer) (p1 p2 : Player) : Nat → Table → Prop where
  | start (equal : p1.ncards = p2.ncards) : LoopHead may p1 p2 0 ⟨p1, p2, {}⟩
  | next {n t t'} (head : LoopHead may p1 p2 n t) (more : n < kMaxRounds) (in1 : t.p1.ncards ≠ 0)
      (in2 : t.p2.ncards ≠ 0) (ret : Prog.Returns (env may) (round t) t') : LoopHead may p1 p2 (n + 1) t'

/-- The three ways out of the loop. -/
inductive Ends : Nat → Table → Table → Prop where
  | limit {t} : Ends kMaxRounds t t
  | out1 {n t} (more : n < kMaxRounds) (out : t.p1.ncards = 0) : Ends n t (t.declare .kTwo)
  | out2 {n t} (more : n < kMaxRounds) (in1 : t.p1.ncards ≠ 0) (out : t.p2.ncards = 0) :
      Ends n t (t.declare .kOne)

section Loop

variable {may : MayAnswer} {p1 p2 : Player} {t t' s : Table} {n k : Nat}

/-- A round: the players made ready, a card drawn by each, and a hand. -/
theorem returns_round :
    Prog.Returns (env may) (round t) t' ↔ t.p1.ncards + t.p2.ncards = kDeckSize ∧
      ∃ q1 q2 c1 h1 c2 h2 w, Prog.Returns (env may) (decideShuffle t.p1 t.p2 1) (q1, q2) ∧
        q1.hand = c1 :: h1 ∧ q2.hand = c2 :: h2 ∧
        Plays may c1 c2 ⟨{ q1 with hand := h1 }, { q2 with hand := h2 }, t.result⟩ w t' := by
  constructor
  · intro ret
    obtain ⟨_, total, ret⟩ := Prog.returns_bind.1 ret
    obtain ⟨⟨⟨hand1, s1, pile1⟩, ⟨hand2, s2, pile2⟩⟩, ready, ret⟩ := Prog.returns_bind.1 ret
    obtain ⟨_, some1, ret⟩ := Prog.returns_bind.1 ret
    obtain ⟨_, some2, ret⟩ := Prog.returns_bind.1 ret
    have some1 := Player.hand_ne_nil (returns_assert.1 some1)
    have some2 := Player.hand_ne_nil (returns_assert.1 some2)
    obtain ⟨c1, h1, rfl⟩ := List.exists_cons_of_ne_nil some1
    obtain ⟨c2, h2, rfl⟩ := List.exists_cons_of_ne_nil some2
    simp only [Player.draw_cons, pure_bind] at ret
    obtain ⟨⟨w, u⟩, played, ret⟩ := Prog.returns_bind.1 ret
    obtain rfl := Prog.returns_pure.1 ret
    exact ⟨returns_assert.1 total, _, _, c1, h1, c2, h2, w, ready, rfl, rfl, returns_playHand.1 played⟩
  · rintro ⟨total, ⟨hand1, s1, pile1⟩, ⟨hand2, s2, pile2⟩, c1, h1, c2, h2, w, ready, rfl, rfl, played⟩
    rw [round, assert_pos total, pure_bind]
    refine Prog.returns_bind.2 ⟨_, ready, ?_⟩
    refine Prog.returns_bind.2 ⟨(), returns_assert.2 (Nat.succ_ne_zero _), ?_⟩
    refine Prog.returns_bind.2 ⟨(), returns_assert.2 (Nat.succ_ne_zero _), ?_⟩
    simp only [Player.draw_cons, pure_bind]
    exact Prog.returns_bind.2 ⟨_, played.returns, rfl⟩

theorem rounds_out1 (out : t.p1.ncards = 0) : War.rounds (k + 1) t = pure (t.declare .kTwo) :=
  if_pos (Nat.le_of_eq out)

theorem rounds_out2 (in1 : t.p1.ncards ≠ 0) (out : t.p2.ncards = 0) :
    War.rounds (k + 1) t = pure (t.declare .kOne) := by
  rw [War.rounds, if_neg (by omega), if_pos (by omega)]

theorem rounds_more (in1 : t.p1.ncards ≠ 0) (in2 : t.p2.ncards ≠ 0) :
    War.rounds (k + 1) t = round t >>= War.rounds k := by
  rw [War.rounds, if_neg (by omega), if_neg (by omega)]

theorem rounds_ends (head : LoopHead may p1 p2 n t) (left : n + k = kMaxRounds)
    (ret : Prog.Returns (env may) (rounds k t) t') : ∃ m s, LoopHead may p1 p2 m s ∧ Ends m s t' := by
  induction k generalizing n t with
  | zero =>
    obtain rfl := Prog.returns_pure.1 ret
    obtain rfl : n = kMaxRounds := left
    exact ⟨_, _, head, .limit⟩
  | succ k ih =>
    have more : n < kMaxRounds := by omega
    by_cases in1 : t.p1.ncards = 0
    · rw [rounds_out1 in1] at ret
      obtain rfl := Prog.returns_pure.1 ret
      exact ⟨n, t, head, .out1 more in1⟩
    by_cases in2 : t.p2.ncards = 0
    · rw [rounds_out2 in1 in2] at ret
      obtain rfl := Prog.returns_pure.1 ret
      exact ⟨n, t, head, .out2 more in1 in2⟩
    rw [rounds_more in1 in2] at ret
    obtain ⟨u, first, rest⟩ := Prog.returns_bind.1 ret
    exact ih (head.next more in1 in2 first) (by omega) rest

theorem LoopHead.rounds (head : LoopHead may p1 p2 n t) (left : n + k = kMaxRounds)
    (ret : Prog.Returns (env may) (rounds k t) t') : Prog.Returns (env may) (simulate p1 p2) t' := by
  induction head generalizing k with
  | start equal =>
    obtain rfl : k = kMaxRounds := by omega
    rw [simulate, assert_pos equal, pure_bind]
    exact ret
  | next head more in1 in2 first ih =>
    refine ih (k := k + 1) (by omega) ?_
    rw [rounds_more in1 in2]
    exact Prog.returns_bind.2 ⟨_, first, ret⟩

/-- **What `simulate` returns**: a loop head at which the loop stops. -/
theorem returns_simulate :
    Prog.Returns (env may) (simulate p1 p2) t' ↔ ∃ n t, LoopHead may p1 p2 n t ∧ Ends n t t' := by
  constructor
  · intro ret
    obtain ⟨_, equal, ret⟩ := Prog.returns_bind.1 ret
    exact rounds_ends (.start (returns_assert.1 equal)) (Nat.zero_add _) ret
  · rintro ⟨n, t, head, ends⟩
    cases ends with
    | limit => exact head.rounds (k := 0) rfl rfl
    | out1 more out =>
      refine head.rounds (k := kMaxRounds - n - 1 + 1) (by omega) ?_
      rw [rounds_out1 out]
      rfl
    | out2 more in1 out =>
      refine head.rounds (k := kMaxRounds - n - 1 + 1) (by omega) ?_
      rw [rounds_out2 in1 out]
      rfl

end Loop

end Maskset.War
