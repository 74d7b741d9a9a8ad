import Maskset.War.Simulate

/-!
# The queue game

Under `combine_only_strategy` the split of a player's cards into hand and pile cannot
be observed: the game refines a plain queue game, in which a player draws from the
front of one list, wins to its back and stakes its first four cards, or all it has,
in a war. `observe` forgets the split, and the code's programs, observed, are the
queue game's programs: the same requests in the same order and the same results.
-/

namespace Maskset.War
set_option autoImplicit false

open Maskset.Logic

/-- The state of the queue game. -/
structure Queues where
  q1 : List Card
  q2 : List Card
  result : GameResult

namespace Queues

def countHand (s : Queues) : Queues := { s with result := { s.result with nhands := s.result.nhands + 1 } }

/-- The winner takes the cards to the back of its queue. -/
def give (s : Queues) (w : PlayerEnum) (cards : List Card) : Queues :=
  match w with
  | .kOne => { s with q1 := s.q1 ++ cards }
  | .kTwo => { s with q2 := s.q2 ++ cards }
  | .kNone => s

/-- The loser's dump is recorded. -/
def record (s : Queues) (w : PlayerEnum) (dump1 dump2 : List Card) : Queues :=
  match w with
  | .kOne => { s with result := { s.result with warHandsP2Lost := s.result.warHandsP2Lost ++ dump2 } }
  | .kTwo => { s with result := { s.result with warHandsP1Lost := s.result.warHandsP1Lost ++ dump1 } }
  | .kNone => s

/-- The first four cards of a queue, or all of them: the last one is flipped. -/
def stake (q : List Card) : Game (WarHand × List Card) :=
  if ∀ c ∈ q.take 4, 1 < c then pure (⟨(q.take 4).dropLast, (q.take 4).getLastD 0⟩, q.drop 4)
  else .fault (.assertion "card > 1")

/-- The two cards of a comparison go to its winner in either order. -/
def settle (w : PlayerEnum) (c1 c2 : Card) (s : Queues) : Game (PlayerEnum × Queues) := do
  let r ← rand
  pure (w, s.give w (if r % 2 ≠ 0 then [c2, c1] else [c1, c2]))

/-- A war between two queues that are not empty, over the hand of the flipped cards. -/
def war (hand : Card → Card → Queues → Game (PlayerEnum × Queues)) (c1 c2 : Card) (s : Queues) :
    Game (PlayerEnum × Queues) := do
  let (wh1, q1) ← stake s.q1
  let (wh2, q2) ← stake s.q2
  let (w, s) ← hand wh1.flip wh2.flip { s with q1, q2 }
  let cards ← shuffleHand .vector (wh1.dump ++ wh2.dump)
  settle w c1 c2 ((s.give w cards).record w wh1.dump wh2.dump)

/-- A hand of the queue game, with fuel for its wars. -/
def handFuel : Nat → Card → Card → Queues → Game (PlayerEnum × Queues)
  | 0, _, _, _ => .fault .outOfFuel
  | n + 1, c1, c2, s => do
    assert (c1 > 0) "c1 > 0"
    assert (c2 > 0) "c2 > 0"
    if c1 > c2 then settle .kOne c1 c2 s.countHand
    else if c1 < c2 then settle .kTwo c1 c2 s.countHand
    else if s.q1.length = 0 then pure (.kTwo, s.countHand.give .kTwo [c1, c2])
    else if s.q2.length = 0 then pure (.kOne, s.countHand.give .kOne [c1, c2])
    else war (handFuel n) c1 c2 s.countHand

def hand (c1 c2 : Card) (s : Queues) : Game (PlayerEnum × Queues) := handFuel (s.q1.length + 1) c1 c2 s

/-- A round: the front cards of the two queues are played. -/
def round (s : Queues) : Game Queues := do
  assert (s.q1.length + s.q2.length = kDeckSize) "size1 + size2 == kDeckSize"
  let x ← hand (s.q1.headD 0) (s.q2.headD 0) { s with q1 := s.q1.tail, q2 := s.q2.tail }
  pure x.2

def declare (s : Queues) (w : PlayerEnum) : Queues := { s with result := { s.result with winner := w } }

def rounds : Nat → Queues → Game Queues
  | 0, s => pure s
  | n + 1, s =>
    if s.q1.length ≤ 0 then pure (s.declare .kTwo)
    else if s.q2.length ≤ 0 then pure (s.declare .kOne)
    else round s >>= rounds n

def simulate (q1 q2 : List Card) : Game Queues := do
  assert (q1.length = q2.length) "p1.ncards() == p2.ncards()"
  rounds kMaxRounds { q1, q2, result := {} }

end Queues

/-- What is seen of a table: each player's cards as one queue. -/
def Table.observe (t : Table) : Queues := { q1 := t.p1.cards, q2 := t.p2.cards, result := t.result }

/-- What is seen of a hand. -/
def observeHand (x : PlayerEnum × Table) : PlayerEnum × Queues := (x.1, x.2.observe)

/-! ## The strategy -/

/-- What `combine_only_strategy` makes of a player: the same queue, with `n` cards in
hand or no pile. -/
structure Merged (n : Nat) (p q : Player) : Prop where
  cards : q.cards = p.cards
  dealt : n ≤ q.handSize ∨ q.pile = []
  strategy : q.strategy = p.strategy

section Merged

variable {p q p1 p2 : Player} {n : Nat} {c1 c2 : Card} {t : Table} {w : PlayerEnum}

theorem combineOnlyStrategy_merged (p : Player) (n : Nat) :
    ∃ q, combineOnlyStrategy p n = pure q ∧ Merged n p q := by
  obtain ⟨q, same, merged, ready⟩ := combineOnlyStrategy_ready p n
  refine ⟨q, same, ?_, ready.dealt, ready.strategy⟩
  rcases merged with rfl | rfl
  · rfl
  · exact p.combinePile_cards

theorem decideShuffle_merged (only1 : p1.strategy.fp = .combineOnlyStrategy)
    (only2 : p2.strategy.fp = .combineOnlyStrategy) (n : Nat) :
    ∃ q1 q2, decideShuffle p1 p2 n = pure (q1, q2) ∧ Merged n p1 q1 ∧ Merged n p2 q2 := by
  have event : ∃ q1 q2, shuffleEvent p1 p2 n = pure (q1, q2) ∧ Merged n p1 q1 ∧ Merged n p2 q2 := by
    unfold shuffleEvent
    split
    · obtain ⟨q1, same1, merged1⟩ := combineOnlyStrategy_merged p1 n
      obtain ⟨q2, same2, merged2⟩ := combineOnlyStrategy_merged p2 n
      refine ⟨q1, q2, ?_, merged1, merged2⟩
      simp only [Strategy.call, only1, only2, StrategyFp.call, same1, same2, pure_bind]
    · rename_i enough
      simp only [not_or, Nat.not_lt] at enough
      exact ⟨p1, p2, rfl, ⟨rfl, .inl enough.1, rfl⟩, ⟨rfl, .inl enough.2, rfl⟩⟩
  obtain ⟨q1, q2, same, merged1, merged2⟩ := event
  refine ⟨q1, q2, ?_, merged1, merged2⟩
  rw [decideShuffle, same, pure_bind]
  simp only [List.length_eq_zero_iff]
  rw [assert_pos merged1.dealt, pure_bind, assert_pos merged2.dealt, pure_bind]

theorem Merged.take (merged : Merged kWarSize p q) : q.hand.take 4 = p.cards.take 4 := by
  rw [← merged.cards, Player.cards]
  rcases merged.dealt with enough | empty
  · exact (List.take_append_of_le_length enough).symm
  · rw [empty, List.append_nil]

theorem Merged.staked_cards (merged : Merged kWarSize p q) : q.staked.cards = p.cards.drop 4 := by
  rw [← merged.cards, Player.cards, Player.cards]
  rcases merged.dealt with enough | empty
  · exact (List.drop_append_of_le_length enough).symm
  · simp [Player.staked, empty]

/-- **Staking** from a merged player is staking from its queue. -/
theorem Merged.stake (merged : Merged kWarSize p q) :
    (fun x => (x.1, x.2.cards)) <$> WarHand.ofPlayer q = Queues.stake p.cards := by
  rw [WarHand.ofPlayer_eq, Queues.stake]
  simp only [Player.StakesValid, Player.warHand, merged.take]
  split
  · rw [map_pure, merged.staked_cards]
  · rfl

theorem Table.observe_give (cards : List Card) : (t.give w cards).observe = t.observe.give w cards := by
  cases w <;> simp [give, Queues.give, observe, Player.takeAll_eq, Player.cards]

theorem Table.observe_record (dump1 dump2 : List Card) :
    (t.record w dump1 dump2).observe = t.observe.record w dump1 dump2 := by
  cases w <;> rfl

theorem settle_observe (won : w ≠ .kNone) :
    observeHand <$> settle w c1 c2 t = Queues.settle w c1 c2 t.observe := by
  rw [settle_eq won, Queues.settle, map_bind]
  simp only [map_pure, observeHand, Table.observe_give]

end Merged

/-! ## Hands and games -/

section Refinement

variable {c c1 c2 : Card} {t u : Table} {w : PlayerEnum} {p1 p2 p1' p2' : Player} {n k : Nat}

theorem env_any : env (fun _ _ _ _ => True) = Env.any := by
  funext q r
  cases q <;> rfl

theorem Plays.of_any (ret : Prog.Returns Env.any (playHand c1 c2 t) (w, u)) :
    Plays (fun _ _ _ _ => True) c1 c2 t w u :=
  returns_playHand.1 (env_any ▸ ret)

@[simp] theorem Table.observe_q1_length : t.observe.q1.length = t.p1.ncards := t.p1.ncards_eq.symm
@[simp] theorem Table.observe_q2_length : t.observe.q2.length = t.p2.ncards := t.p2.ncards_eq.symm

/-- The spoils of a war, observed. -/
theorem spoils_observe {wh1 wh2 : WarHand} (won : w ≠ .kNone) (valid1 : ∀ c ∈ wh1.dump, 1 < c)
    (valid2 : ∀ c ∈ wh2.dump, 1 < c) :
    observeHand <$> (divide w wh1 wh2 u >>= settle w c1 c2) =
      shuffleHand .vector (wh1.dump ++ wh2.dump) >>= fun cards =>
        Queues.settle w c1 c2 ((u.observe.give w cards).record w wh1.dump wh2.dump) := by
  rw [divide_eq won valid1 valid2, bind_assoc, map_bind]
  simp only [pure_bind, settle_observe won, Table.observe_record, Table.observe_give]

/-- A war between players with cards, given that its recursive call refines. -/
theorem war_observe (pos : 0 < c) (in1 : t.p1.ncards ≠ 0) (in2 : t.p2.ncards ≠ 0)
    (only1 : t.p1.strategy.fp = .combineOnlyStrategy) (only2 : t.p2.strategy.fp = .combineOnlyStrategy)
    (inner : ∀ a b s, s.p1.ncards < t.p1.ncards → s.p1.strategy = t.p1.strategy →
      s.p2.strategy = t.p2.strategy → observeHand <$> playHand a b s = Queues.handFuel n a b s.observe) :
    observeHand <$> war playHand c c t.countHand =
      Queues.war (Queues.handFuel n) c c t.observe.countHand := by
  have ne : c ≠ 0 := Nat.ne_of_gt pos
  obtain ⟨q1, q2, same, merged1, merged2⟩ := decideShuffle_merged only1 only2 kWarSize
  have ready : Prog.Returns Env.any (decideShuffle t.p1 t.p2 kWarSize) (q1, q2) := by rw [same]; rfl
  obtain ⟨ready1, ready2⟩ := decideShuffle_ready ready
  have some1 := ready1.hand_stake in1
  have fewer : q1.staked.ncards < t.p1.ncards := ready1.staked_lt in1
  rw [war, assert_pos ne, pure_bind, assert_pos ne, pure_bind,
    if_neg (show ¬ t.countHand.p1.ncards = 0 from in1), if_neg (show ¬ t.countHand.p2.ncards = 0 from in2),
    show decideShuffle t.countHand.p1 t.countHand.p2 kWarSize = pure (q1, q2) from same, pure_bind]
  have stake1 : Queues.stake t.observe.countHand.q1 = _ := merged1.stake.symm
  have stake2 : Queues.stake t.observe.countHand.q2 = _ := merged2.stake.symm
  rw [Queues.war, stake1, stake2]
  simp only [bind_map_left]
  by_cases valid1 : q1.StakesValid
  · by_cases valid2 : q2.StakesValid
    · have flip1 := valid1.flip_pos some1
      have flip2 := valid2.flip_pos (ready2.hand_stake in2)
      simp only [WarHand.ofPlayer_eq, if_pos valid1, if_pos valid2, pure_bind, assert_pos flip1,
        assert_pos flip2, map_bind]
      have call := inner q1.warHand.flip q2.warHand.flip ⟨q1.staked, q2.staked, t.countHand.result⟩ fewer
        merged1.strategy merged2.strategy
      have state : Table.observe ⟨q1.staked, q2.staked, t.countHand.result⟩ =
        { t.observe.countHand with q1 := q1.staked.cards, q2 := q2.staked.cards } := rfl
      rw [state] at call
      rw [← call, bind_map_left]
      apply Prog.bind_congr_returns
      intro outcome ret
      obtain ⟨w, u⟩ := outcome
      have won := (Plays.of_any ret).won
      rw [← map_bind]
      exact spoils_observe won valid1.dump valid2.dump
    · simp [WarHand.ofPlayer_eq, valid1, valid2]
  · simp [WarHand.ofPlayer_eq, valid1]

/-- **A hand refines the queue game's hand.** -/
theorem hand_observe (enough : t.p1.ncards < n) (only1 : t.p1.strategy.fp = .combineOnlyStrategy)
    (only2 : t.p2.strategy.fp = .combineOnlyStrategy) :
    observeHand <$> playHand c1 c2 t = Queues.handFuel n c1 c2 t.observe := by
  induction n generalizing c1 c2 t with
  | zero => omega
  | succ n ih =>
    rw [playHand_eq, playHandBody, Queues.handFuel]
    by_cases pos1 : c1 > 0
    swap
    · rw [assert_neg pos1]
      rfl
    by_cases pos2 : c2 > 0
    swap
    · rw [assert_neg pos2, assert_pos pos1]
      rfl
    rw [assert_pos pos1, pure_bind, pure_bind, assert_pos pos2, pure_bind, pure_bind]
    by_cases gt : c1 > c2
    · rw [if_pos gt, if_pos gt]
      exact settle_observe (by decide)
    by_cases lt : c1 < c2
    · rw [if_neg gt, if_neg gt, if_pos lt, if_pos lt]
      exact settle_observe (by decide)
    obtain rfl : c1 = c2 := Nat.le_antisymm (Nat.not_lt.1 gt) (Nat.not_lt.1 lt)
    rw [if_neg gt, if_neg gt, if_neg lt, if_neg lt, Table.observe_q1_length, Table.observe_q2_length]
    by_cases out1 : t.p1.ncards = 0
    · rw [if_pos out1, war_out1 pos1 out1, map_pure, observeHand, Table.observe_give]
      rfl
    by_cases out2 : t.p2.ncards = 0
    · rw [if_neg out1, if_pos out2, war_out2 pos1 out1 out2, map_pure, observeHand, Table.observe_give]
      rfl
    rw [if_neg out1, if_neg out2]
    apply war_observe pos1 out1 out2 only1 only2
    intro a b s fewer same1 same2
    exact ih (by omega) (same1 ▸ only1) (same2 ▸ only2)

theorem playHand_observe (c1 c2 : Card) (only1 : t.p1.strategy.fp = .combineOnlyStrategy)
    (only2 : t.p2.strategy.fp = .combineOnlyStrategy) :
    observeHand <$> playHand c1 c2 t = Queues.hand c1 c2 t.observe := by
  rw [Queues.hand, Table.observe_q1_length]
  exact hand_observe (Nat.lt_succ_self _) only1 only2

theorem Plays.strategies {may : MayAnswer} (h : Plays may c1 c2 t w u) :
    u.p1.strategy = t.p1.strategy ∧ u.p2.strategy = t.p2.strategy := by
  have give (w : PlayerEnum) (cards : List Card) (t : Table) :
      (t.give w cards).p1.strategy = t.p1.strategy ∧ (t.give w cards).p2.strategy = t.p2.strategy := by
    cases w <;> simp [Table.give, Player.takeAll_eq]
  have record (w : PlayerEnum) (dump1 dump2 : List Card) (t : Table) :
      (t.record w dump1 dump2).p1 = t.p1 ∧ (t.record w dump1 dump2).p2 = t.p2 := by
    cases w <;> exact ⟨rfl, rfl⟩
  induction h with
  | decided => exact give _ _ _
  | firstOut => exact give _ _ _
  | secondOut => exact give _ _ _
  | @war c t q1 q2 w u cards _ _ _ ready _ _ _ _ ih =>
    obtain ⟨ready1, ready2⟩ := decideShuffle_ready ready
    have spoils := give w cards u
    rw [← ready1.strategy, ← ready2.strategy]
    constructor
    · rw [(give _ _ _).1, (record _ _ _ _).1, spoils.1]
      exact ih.1
    · rw [(give _ _ _).2, (record _ _ _ _).2, spoils.2]
      exact ih.2

/-- Both players use `combine_only_strategy`. -/
def Table.CombineOnly (t : Table) : Prop :=
  t.p1.strategy.fp = .combineOnlyStrategy ∧ t.p2.strategy.fp = .combineOnlyStrategy

theorem Merged.front {p q : Player} {c : Card} {h : List Card} (merged : Merged 1 p q) (hand : q.hand = c :: h) :
    p.cards = c :: ({ q with hand := h } : Player).cards := by
  rw [← merged.cards, Player.cards, hand]
  rfl

/-- **A round refines the queue game's round.** -/
theorem round_observe (only : t.CombineOnly) (in1 : t.p1.ncards ≠ 0) (in2 : t.p2.ncards ≠ 0) :
    Table.observe <$> round t = Queues.round t.observe := by
  obtain ⟨q1, q2, same, merged1, merged2⟩ := decideShuffle_merged only.1 only.2 1
  have ready : Prog.Returns Env.any (decideShuffle t.p1 t.p2 1) (q1, q2) := by rw [same]; rfl
  obtain ⟨ready1, ready2⟩ := decideShuffle_ready ready
  have some1 := ready1.hand_pos Nat.one_pos in1
  have some2 := ready2.hand_pos Nat.one_pos in2
  obtain ⟨c1, h1, hand1⟩ := ready1.hand_front in1
  obtain ⟨c2, h2, hand2⟩ := ready2.hand_front in2
  have front1 := merged1.front hand1
  have front2 := merged2.front hand2
  have draw1 : q1.draw = pure (c1, { q1 with hand := h1 }) := by
    rw [Player.draw, assert_pos some1, pure_bind, hand1]
    rfl
  have draw2 : q2.draw = pure (c2, { q2 with hand := h2 }) := by
    rw [Player.draw, assert_pos some2, pure_bind, hand2]
    rfl
  have hand := playHand_observe c1 c2
    (t := ⟨{ q1 with hand := h1 }, { q2 with hand := h2 }, t.result⟩)
    (merged1.strategy ▸ only.1) (merged2.strategy ▸ only.2)
  rw [round, Queues.round, same, Table.observe_q1_length, Table.observe_q2_length]
  simp only [map_bind, pure_bind, assert_pos some1, assert_pos some2, draw1, draw2, map_pure]
  apply Prog.bind_congr_returns
  intro _ _
  have queues : ({ t.observe with q1 := t.observe.q1.tail, q2 := t.observe.q2.tail } : Queues) =
      Table.observe ⟨{ q1 with hand := h1 }, { q2 with hand := h2 }, t.result⟩ := by
    simp only [Table.observe, front1, front2, List.tail_cons]
  have head1 : t.observe.q1.headD 0 = c1 := by rw [Table.observe, front1, List.headD_cons]
  have head2 : t.observe.q2.headD 0 = c2 := by rw [Table.observe, front2, List.headD_cons]
  rw [queues, head1, head2, ← hand, bind_map_left]
  rfl

theorem round_combineOnly (only : t.CombineOnly) (ret : Prog.Returns Env.any (round t) u) :
    u.CombineOnly := by
  rw [← env_any] at ret
  obtain ⟨-, q1, q2, c1, h1, c2, h2, w, ready, -, -, played⟩ := returns_round.1 ret
  obtain ⟨ready1, ready2⟩ := decideShuffle_ready ready
  obtain ⟨same1, same2⟩ := played.strategies
  refine ⟨?_, ?_⟩
  · rw [same1]
    exact ready1.strategy ▸ only.1
  · rw [same2]
    exact ready2.strategy ▸ only.2

/-- The loop refines the queue game's loop. -/
theorem rounds_observe (only : t.CombineOnly) :
    Table.observe <$> rounds k t = Queues.rounds k t.observe := by
  induction k generalizing t with
  | zero => rfl
  | succ k ih =>
    rw [rounds, Queues.rounds, Table.observe_q1_length, Table.observe_q2_length]
    by_cases out1 : t.p1.ncards ≤ 0
    · rw [if_pos out1, if_pos out1]
      rfl
    by_cases out2 : t.p2.ncards ≤ 0
    · rw [if_neg out1, if_neg out1, if_pos out2, if_pos out2]
      rfl
    rw [if_neg out1, if_neg out1, if_neg out2, if_neg out2, map_bind,
      ← round_observe only (by omega) (by omega), bind_map_left]
    exact Prog.bind_congr_returns fun u ret => ih (round_combineOnly only ret)

/-- **A game refines the queue game.** -/
theorem simulate_observe (only1 : p1.strategy.fp = .combineOnlyStrategy)
    (only2 : p2.strategy.fp = .combineOnlyStrategy) :
    Table.observe <$> simulate p1 p2 = Queues.simulate p1.cards p2.cards := by
  rw [simulate, Queues.simulate, map_bind, p1.ncards_eq, p2.ncards_eq]
  exact Prog.bind_congr_returns fun _ _ => rounds_observe ⟨only1, only2⟩

/-- **The split of hand and pile is unobservable.** Two start states with the same
queues, both players under `combine_only_strategy`: hands and games are those of the
queue game, and against the same shuffles and coins (an oracle with a state of its
own) they give the same winner, count of hands, records and final queues. -/
theorem split_unobservable (only1 : p1.strategy.fp = .combineOnlyStrategy)
    (only2 : p2.strategy.fp = .combineOnlyStrategy) (only1' : p1'.strategy.fp = .combineOnlyStrategy)
    (only2' : p2'.strategy.fp = .combineOnlyStrategy) (same1 : p1.hand ++ p1.pile = p1'.hand ++ p1'.pile)
    (same2 : p2.hand ++ p2.pile = p2'.hand ++ p2'.pile) :
    (∀ c1 c2 r, observeHand <$> playHand c1 c2 ⟨p1, p2, r⟩ =
      Queues.hand c1 c2 ⟨p1.hand ++ p1.pile, p2.hand ++ p2.pile, r⟩) ∧
    Table.observe <$> simulate p1 p2 = Queues.simulate (p1.hand ++ p1.pile) (p2.hand ++ p2.pile) ∧
    ∀ {σ : Type} (oracle : σ → (q : Request) → q.Answer × σ) (s : σ),
      (∀ c1 c2 r,
        (Prog.run oracle (playHand c1 c2 ⟨p1, p2, r⟩) s).1.map observeHand =
          (Prog.run oracle (playHand c1 c2 ⟨p1', p2', r⟩) s).1.map observeHand ∧
        (Prog.run oracle (playHand c1 c2 ⟨p1, p2, r⟩) s).2 =
          (Prog.run oracle (playHand c1 c2 ⟨p1', p2', r⟩) s).2) ∧
      (Prog.run oracle (simulate p1 p2) s).1.map Table.observe =
        (Prog.run oracle (simulate p1' p2') s).1.map Table.observe ∧
      (Prog.run oracle (simulate p1 p2) s).2 = (Prog.run oracle (simulate p1' p2') s).2 := by
  have hands c1 c2 r : observeHand <$> playHand c1 c2 ⟨p1, p2, r⟩ =
      observeHand <$> playHand c1 c2 ⟨p1', p2', r⟩ := by
    rw [playHand_observe c1 c2 only1 only2, playHand_observe c1 c2 only1' only2']
    simp only [Table.observe, Player.cards, same1, same2]
  have games : Table.observe <$> simulate p1 p2 = Table.observe <$> simulate p1' p2' := by
    rw [simulate_observe only1 only2, simulate_observe only1' only2']
    simp only [Player.cards, same1, same2]
  refine ⟨fun c1 c2 r => playHand_observe c1 c2 only1 only2, simulate_observe only1 only2, ?_⟩
  intro σ oracle s
  constructor
  · intro c1 c2 r
    have both := congrArg (Prog.run oracle · s) (hands c1 c2 r)
    simp only [Prog.run_map, Prod.mk.injEq] at both
    exact both
  · have both := congrArg (Prog.run oracle · s) games
    simp only [Prog.run_map, Prod.mk.injEq] at both
    exact both

end Refinement

/-- The oracle that leaves every shuffle as it is and counts its coins. -/
def counting : Nat → (q : Request) → q.Answer × Nat
  | n, .shuffle _ v => (⟨v, .refl v⟩, n)
  | n, .rand => (n, n + 1)
  | n, .enriched .. => (false, n)

/-- The deck dealt in halves, and the same halves split otherwise. -/
theorem split_unobservable_deal :
    (Prog.run counting (simulate ⟨deck.take 26, ⟨2, .combineOnlyStrategy⟩, []⟩
        ⟨deck.drop 26, ⟨2, .combineOnlyStrategy⟩, []⟩) 0).1.map Table.observe =
      (Prog.run counting (simulate ⟨deck.take 10, ⟨2, .combineOnlyStrategy⟩, (deck.take 26).drop 10⟩
        ⟨(deck.drop 26).take 3, ⟨2, .combineOnlyStrategy⟩, deck.drop 29⟩) 0).1.map Table.observe :=
  ((@split_unobservable ⟨deck.take 26, ⟨2, .combineOnlyStrategy⟩, []⟩ ⟨deck.drop 26, ⟨2, .combineOnlyStrategy⟩, []⟩
    ⟨deck.take 10, ⟨2, .combineOnlyStrategy⟩, (deck.take 26).drop 10⟩
    ⟨(deck.drop 26).take 3, ⟨2, .combineOnlyStrategy⟩, deck.drop 29⟩ rfl rfl rfl rfl (by decide) (by decide)).2.2
      counting 0).2.1

end Maskset.War
