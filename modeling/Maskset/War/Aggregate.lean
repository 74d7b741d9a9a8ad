import Maskset.War.Records
import Maskset.War.Verdict
import Mathlib.Algebra.Order.BigOperators.Group.List
import Mathlib.Algebra.Group.Action.Defs
import Mathlib.Algebra.Order.Ring.Nat
import Mathlib.Data.List.Induction

/-!
# `simulate_strategy`

The counters of many games: the tallies are `uint32_t`, the totals `uint64_t` and `size_t`,
and the two averages are quotients that have no value when nothing was counted.
`faithful_iff` says when they are what they are meant to be.
-/

namespace Maskset.War
set_option autoImplicit false

open Maskset.Logic

/-- The average in exact arithmetic; `none` for a division by zero. -/
structure Results where
  s1 : Nat
  s2 : Nat
  p1 : Nat := 0
  p2 : Nat := 0
  tie : Nat := 0
  averageP1WarLost : Option Rat := some 0
  averageP2WarLost : Option Rat := some 0
  nhands : Nat := 0
  ngames : Nat := 0

/-- `total_p*_war_cards` and `total_p*_war_count`. -/
structure WarTotal where
  cards : Nat := 0
  count : Nat := 0

def WarTotal.add (total : WarTotal) (c : Card) : WarTotal :=
  ⟨(total.cards + c) % 2 ^ 64, (total.count + 1) % 2 ^ 64⟩

def WarTotal.average (total : WarTotal) : Option Rat :=
  if total.count = 0 then none else some (total.cards / total.count)

/-- The variables of the loop. -/
structure Totals where
  result : Results
  p1 : WarTotal := {}
  p2 : WarTotal := {}

namespace Totals

def start (s1 s2 : Strategy) (ngames : Nat) : Totals := { result := { s1 := s1.id, s2 := s2.id, ngames } }

/-- The loop body after a game. -/
def add (totals : Totals) (game : GameResult) : Totals :=
  let result := { totals.result with nhands := (totals.result.nhands + game.nhands) % 2 ^ 64 }
  let p1 := game.warHandsP1Lost.foldl WarTotal.add totals.p1
  let p2 := game.warHandsP2Lost.foldl WarTotal.add totals.p2
  match game.winner with
  | .kOne => { result := { result with p1 := (result.p1 + 1) % 2 ^ 32 }, p1, p2 }
  | .kTwo => { result := { result with p2 := (result.p2 + 1) % 2 ^ 32 }, p1, p2 }
  | .kNone => { result := { result with tie := (result.tie + 1) % 2 ^ 32 }, p1, p2 }

def finish (totals : Totals) : Results :=
  { totals.result with averageP1WarLost := totals.p1.average, averageP2WarLost := totals.p2.average }

end Totals

/-- The loop with `n` games left. -/
def games (s1 s2 : Strategy) : Nat → Totals → Game Totals
  | 0, totals => pure totals
  | n + 1, totals => do
    let (p1, p2) ← makePlayers s1 s2
    let t ← simulate p1 p2
    games s1 s2 n (totals.add t.result)

def simulateStrategy (s1 s2 : Strategy) (ngames : Nat := 10) : Game Results := do
  let totals ← games s1 s2 ngames (.start s1 s2 ngames)
  pure totals.finish

/-! ## What the counters hold -/

section Counters

variable {s1 s2 : Strategy} {ngames : Nat} {played : List GameResult} {game : GameResult} {x : PlayerEnum}

/-- How many games ended with this winner. -/
def wins (played : List GameResult) (w : PlayerEnum) : Nat := played.countP fun game => game.winner = w

/-- All cards the player lost in wars. -/
def lostCards (played : List GameResult) (x : PlayerEnum) : List Card := played.flatMap fun game => game.lost x

def hands (played : List GameResult) : Nat := (played.map GameResult.nhands).sum

/-- The totals of a list of cards. -/
def WarTotal.of (cards : List Card) : WarTotal := ⟨cards.sum % 2 ^ 64, cards.length % 2 ^ 64⟩

theorem WarTotal.foldl_add (before cards : List Card) :
    cards.foldl WarTotal.add (.of before) = .of (before ++ cards) := by
  induction cards generalizing before with
  | nil => rw [List.foldl_nil, List.append_nil]
  | cons c cards ih =>
    have step : (WarTotal.of before).add c = .of (before ++ [c]) := by
      simp only [WarTotal.add, WarTotal.of, List.sum_append, List.sum_singleton, List.length_append,
        List.length_singleton, Nat.mod_add_mod]
    rw [List.foldl_cons, step, ih, ← List.append_cons]

/-- The variables of the loop after these games. -/
def Totals.of (s1 s2 : Strategy) (ngames : Nat) (played : List GameResult) : Totals where
  result :=
    { s1 := s1.id, s2 := s2.id, p1 := wins played .kOne % 2 ^ 32, p2 := wins played .kTwo % 2 ^ 32,
      tie := wins played .kNone % 2 ^ 32, nhands := hands played % 2 ^ 64, ngames }
  p1 := .of (lostCards played .kOne)
  p2 := .of (lostCards played .kTwo)

theorem wins_snoc (w : PlayerEnum) :
    wins (played ++ [game]) w = wins played w + if game.winner = w then 1 else 0 := by
  simp [wins, List.countP_append, List.countP_singleton]

theorem Totals.add_of (played : List GameResult) (game : GameResult) :
    (Totals.of s1 s2 ngames played).add game = Totals.of s1 s2 ngames (played ++ [game]) := by
  have record (x : PlayerEnum) : lostCards (played ++ [game]) x = lostCards played x ++ game.lost x := by
    simp [lostCards]
  have nhands : hands (played ++ [game]) = hands played + game.nhands := by simp [hands]
  have lost1 : game.lost .kOne = game.warHandsP1Lost := rfl
  have lost2 : game.lost .kTwo = game.warHandsP2Lost := rfl
  unfold Totals.of Totals.add
  dsimp only
  rw [record, record, nhands, lost1, lost2, WarTotal.foldl_add, WarTotal.foldl_add, wins_snoc, wins_snoc, wins_snoc]
  cases game.winner with
  | kOne => simp only [Nat.mod_add_mod, ↓reduceIte, reduceCtorEq, Nat.add_zero]
  | kTwo => simp only [Nat.mod_add_mod, ↓reduceIte, reduceCtorEq, Nat.add_zero]
  | kNone => simp only [Nat.mod_add_mod, ↓reduceIte, reduceCtorEq, Nat.add_zero]

theorem Totals.foldl_add (before played : List GameResult) :
    played.foldl Totals.add (.of s1 s2 ngames before) = .of s1 s2 ngames (before ++ played) := by
  induction played generalizing before with
  | nil => rw [List.foldl_nil, List.append_nil]
  | cons game played ih => rw [List.foldl_cons, Totals.add_of, ih, ← List.append_cons]

end Counters

/-! ## The games of a run -/

/-- A game as it was played: the hands of its rounds, and its result. -/
structure Playing where
  rounds : List Round
  result : GameResult

/-- The game can be dealt to and played by these strategies. -/
def Playing.Possible (may : MayAnswer) (s1 s2 : Strategy) (g : Playing) : Prop :=
  ∃ p1 p2 t t', Prog.Returns (env may) (makePlayers s1 s2) (p1, p2) ∧ Course may p1 p2 g.rounds t ∧
    Ends g.rounds.length t t' ∧ g.result = t'.result

/-- What `simulate_strategy` makes of the results. -/
def aggregate (s1 s2 : Strategy) (played : List Playing) : Results :=
  ((played.map Playing.result).foldl Totals.add (.start s1 s2 played.length)).finish

section Runs

variable {may : MayAnswer} {s1 s2 : Strategy} {p1 p2 : Player} {t t' : Table} {n : Nat} {totals totals' : Totals}
  {played : List Playing} {g : Playing} {x : PlayerEnum}

theorem returns_game (dealt : Prog.Returns (env may) (makePlayers s1 s2) (p1, p2))
    (ret : Prog.Returns (env may) (simulate p1 p2) t') :
    ∃ g : Playing, g.Possible may s1 s2 ∧ g.result = t'.result := by
  obtain ⟨n, t, head, ends⟩ := returns_simulate.1 ret
  obtain ⟨rounds, length, course⟩ := head.course
  exact ⟨⟨rounds, t'.result⟩, ⟨p1, p2, t, t', dealt, course, length ▸ ends, rfl⟩, rfl⟩

theorem returns_games :
    Prog.Returns (env may) (games s1 s2 n totals) totals' ↔ ∃ played : List Playing, played.length = n ∧
      (∀ g ∈ played, g.Possible may s1 s2) ∧ totals' = (played.map Playing.result).foldl Totals.add totals := by
  induction n generalizing totals with
  | zero =>
    constructor
    · intro ret
      obtain rfl := Prog.returns_pure.1 ret
      exact ⟨[], rfl, fun g within => absurd within List.not_mem_nil, rfl⟩
    · rintro ⟨played, length, -, rfl⟩
      obtain rfl := List.length_eq_zero_iff.1 length
      rfl
  | succ n ih =>
    rw [games]
    constructor
    · intro ret
      obtain ⟨⟨p1, p2⟩, dealt, ret⟩ := Prog.returns_bind.1 ret
      obtain ⟨t', game, rest⟩ := Prog.returns_bind.1 ret
      obtain ⟨g, possible, result⟩ := returns_game dealt game
      obtain ⟨played, length, all, rfl⟩ := ih.1 rest
      refine ⟨g :: played, by rw [List.length_cons, length], ?_, ?_⟩
      · intro g' within
        rcases List.mem_cons.1 within with rfl | later
        · exact possible
        · exact all g' later
      · rw [List.map_cons, List.foldl_cons, result]
    · rintro ⟨played, length, all, rfl⟩
      obtain ⟨g, played, rfl⟩ := List.exists_cons_of_length_eq_add_one length
      obtain ⟨p1, p2, t, t', dealt, course, ends, result⟩ := all g List.mem_cons_self
      refine Prog.returns_bind.2 ⟨(p1, p2), dealt, Prog.returns_bind.2 ⟨t', ?_, ?_⟩⟩
      · exact returns_simulate.2 ⟨_, t, course.head, ends⟩
      · refine ih.2 ⟨played, ?_, ?_, ?_⟩
        · simpa using length
        · exact fun g' later => all g' (List.mem_cons_of_mem _ later)
        · rw [List.map_cons, List.foldl_cons, result]

theorem returns_simulateStrategy {r : Results} :
    Prog.Returns (env may) (simulateStrategy s1 s2 n) r ↔ ∃ played : List Playing, played.length = n ∧
      (∀ g ∈ played, g.Possible may s1 s2) ∧ r = aggregate s1 s2 played := by
  rw [simulateStrategy, Prog.returns_bind]
  constructor
  · rintro ⟨totals, ret, same⟩
    obtain ⟨played, rfl, all, rfl⟩ := returns_games.1 ret
    exact ⟨played, rfl, all, (Prog.returns_pure.1 same).symm⟩
  · rintro ⟨played, rfl, all, rfl⟩
    exact ⟨_, returns_games.2 ⟨played, rfl, all, rfl⟩, rfl⟩

/-- What is known of a game that was played. -/
structure Playing.Recorded (g : Playing) : Prop where
  hands : g.result.nhands ≤ 8 * kMaxRounds
  some : ∀ x, x ≠ .kNone → (g.result.lost x ≠ [] ↔ ∃ r ∈ g.rounds, r.StakeLost x)
  cards : ∀ x, x ≠ .kNone → ∀ c ∈ g.result.lost x, c ≤ kMaxCard
  count : ∀ x, x ≠ .kNone → (g.result.lost x).length ≤ 3 * g.result.nhands

/-- The end of the loop only declares the winner. -/
theorem Ends.kept (ends : Ends n t t') : t'.result.nhands = t.result.nhands ∧ ∀ x, t'.result.lost x = t.lost x := by
  cases ends with
  | limit => exact ⟨rfl, fun _ => rfl⟩
  | out1 => exact ⟨rfl, fun _ => lost_congr rfl rfl⟩
  | out2 => exact ⟨rfl, fun _ => lost_congr rfl rfl⟩

theorem Playing.Possible.recorded (possible : g.Possible may s1 s2) : g.Recorded := by
  obtain ⟨p1, p2, t, t', dealt, course, ends, result⟩ := possible
  have onTable := (deal_cards dealt).1
  have ret := returns_simulate.2 ⟨_, t, course.head, ends⟩
  obtain ⟨hands, lost⟩ := ends.kept
  rw [← result] at hands lost
  constructor
  · rw [result]
    exact (Prog.wp_iff.1 (@wp_simulate_nhands may p1 p2)).1 _ ret
  · intro x seat
    rw [lost]
    exact (course.record onTable seat).some
  · intro x seat c within
    rw [lost] at within
    exact (deck_valid c ((course.record onTable seat).cards c within)).2
  · intro x seat
    rw [lost, hands]
    exact (course.record onTable seat).count

end Runs

/-! ## When the aggregate is faithful -/

def Results.average (r : Results) : PlayerEnum → Option Rat
  | .kTwo => r.averageP2WarLost
  | _ => r.averageP1WarLost

/-- The value is the exact mean of the cards; without cards there has to be some value. -/
def IsMean (average : Option Rat) (cards : List Card) : Prop :=
  ∃ v : Rat, average = some v ∧ (cards ≠ [] → v = cards.sum / cards.length)

/-- The result is what the games came to. -/
structure Faithful (r : Results) (played : List Playing) : Prop where
  tallies : r.p1 + r.p2 + r.tie = played.length
  nhands : r.nhands = (played.map fun g => g.result.nhands).sum
  means : ∀ x, x ≠ .kNone → IsMean (r.average x) (played.flatMap fun g => g.result.lost x)

/-- No tally overflows, and each player has lost a stake. -/
structure Sampled (played : List Playing) : Prop where
  tallies : ∀ w, (played.countP fun g => g.result.winner = w) < 2 ^ 32
  stakes : ∀ x, x ≠ .kNone → ∃ g ∈ played, ∃ r ∈ g.rounds, r.StakeLost x

section Faithful

variable {s1 s2 : Strategy} {played : List Playing} {x : PlayerEnum}

theorem aggregate_eq (s1 s2 : Strategy) (played : List Playing) :
    aggregate s1 s2 played = (Totals.of s1 s2 played.length (played.map Playing.result)).finish := by
  have start : Totals.start s1 s2 played.length = Totals.of s1 s2 played.length [] := rfl
  rw [aggregate, start, Totals.foldl_add, List.nil_append]

/-- Every game is counted once. -/
theorem wins_total (played : List GameResult) :
    wins played .kOne + wins played .kTwo + wins played .kNone = played.length := by
  induction played using List.reverseRecOn with
  | nil => rfl
  | append_singleton played game ih =>
    rw [wins_snoc, wins_snoc, wins_snoc, List.length_append, List.length_singleton]
    cases game.winner with
    | kOne => simp only [↓reduceIte, reduceCtorEq]; omega
    | kTwo => simp only [↓reduceIte, reduceCtorEq]; omega
    | kNone => simp only [↓reduceIte, reduceCtorEq]; omega

theorem tallies_iff (played : List GameResult) :
    wins played .kOne % 2 ^ 32 + wins played .kTwo % 2 ^ 32 + wins played .kNone % 2 ^ 32 = played.length ↔
      ∀ w, wins played w < 2 ^ 32 := by
  have total := wins_total played
  constructor
  · intro sum w
    cases w <;> omega
  · intro small
    have one := small .kOne
    have two := small .kTwo
    have none := small .kNone
    omega

theorem average_of (r : PlayerEnum) (n : Nat) (results : List GameResult) (seat : r ≠ .kNone) :
    (Totals.of s1 s2 n results).finish.average r = (WarTotal.of (lostCards results r)).average := by
  cases r, seat using PlayerEnum.won_cases with
  | kOne => rfl
  | kTwo => rfl

/-- The average is a mean as long as the totals do not wrap. -/
theorem isMean_of (cards : List Card) (length : cards.length < 2 ^ 64) (sum : cards.sum < 2 ^ 64) :
    IsMean (WarTotal.of cards).average cards ↔ cards ≠ [] := by
  rw [WarTotal.average, WarTotal.of]
  dsimp only
  rw [Nat.mod_eq_of_lt length, Nat.mod_eq_of_lt sum, IsMean]
  by_cases empty : cards = []
  · subst empty
    simp
  · rw [if_neg (by simpa using empty)]
    exact iff_of_true ⟨_, rfl, fun _ => rfl⟩ empty

theorem lost_ne_nil (recorded : ∀ g ∈ played, Playing.Recorded g) (seat : x ≠ .kNone) :
    (played.flatMap fun g => g.result.lost x) ≠ [] ↔ ∃ g ∈ played, ∃ r ∈ g.rounds, r.StakeLost x := by
  rw [Ne, List.flatMap_eq_nil_iff, not_forall]
  constructor
  · rintro ⟨g, some⟩
    obtain ⟨within, some⟩ := Classical.not_imp.1 some
    exact ⟨g, within, ((recorded g within).some x seat).1 some⟩
  · rintro ⟨g, within, stake⟩
    exact ⟨g, Classical.not_imp.2 ⟨within, ((recorded g within).some x seat).2 stake⟩⟩

/-- A sum of bounded terms. -/
theorem sum_map_le {α : Type} (l : List α) (f : α → Nat) (b : Nat) (bound : ∀ a ∈ l, f a ≤ b) :
    (l.map f).sum ≤ l.length * b := by
  have all : ∀ n ∈ l.map f, n ≤ b := by
    intro n within
    obtain ⟨a, inside, rfl⟩ := List.mem_map.1 within
    exact bound a inside
  have sum := List.sum_le_card_nsmul (l.map f) b all
  rwa [List.length_map, smul_eq_mul] at sum

/-- With fewer than `3 * 2 ^ 32` games nothing but a tally can overflow. -/
theorem totals_fit (recorded : ∀ g ∈ played, Playing.Recorded g) (few : played.length < 3 * 2 ^ 32)
    (seat : x ≠ .kNone) : (played.map fun g => g.result.nhands).sum < 2 ^ 64 ∧
      (played.flatMap fun g => g.result.lost x).length < 2 ^ 64 ∧
      (played.flatMap fun g => g.result.lost x).sum < 2 ^ 64 := by
  have hands := sum_map_le played (fun g => g.result.nhands) (8 * kMaxRounds) fun g within => (recorded g within).hands
  have count : (played.flatMap fun g => g.result.lost x).length ≤ played.length * (3 * (8 * kMaxRounds)) := by
    rw [List.length_flatMap]
    apply sum_map_le
    intro g within
    exact Nat.le_trans ((recorded g within).count x seat) (Nat.mul_le_mul_left 3 (recorded g within).hands)
  have cards : (played.flatMap fun g => g.result.lost x).sum ≤
      (played.flatMap fun g => g.result.lost x).length * kMaxCard := by
    have sum := sum_map_le (played.flatMap fun g => g.result.lost x) id kMaxCard (by
      intro c within
      obtain ⟨g, inside, lost⟩ := List.mem_flatMap.1 within
      exact (recorded g inside).cards x seat c lost)
    rwa [List.map_id] at sum
  simp only [kMaxRounds, kMaxCard] at hands count cards
  refine ⟨?_, ?_, Nat.lt_of_le_of_lt cards ?_⟩
  · omega
  · omega
  · omega

/-- Small tallies are the tallies of few games. -/
theorem few_games (small : ∀ w, (played.countP fun g => g.result.winner = w) < 2 ^ 32) :
    played.length < 3 * 2 ^ 32 := by
  have total := wins_total (played.map Playing.result)
  simp only [wins, List.countP_map, List.length_map] at total
  have one := small .kOne
  have two := small .kTwo
  have none := small .kNone
  simp only [Function.comp_def] at total
  omega

theorem aggregate_tallies (s1 s2 : Strategy) (played : List Playing) :
    (aggregate s1 s2 played).p1 + (aggregate s1 s2 played).p2 + (aggregate s1 s2 played).tie = played.length ↔
      ∀ w, (played.countP fun g => g.result.winner = w) < 2 ^ 32 := by
  have count (w : PlayerEnum) : wins (played.map Playing.result) w = played.countP fun g => g.result.winner = w :=
    List.countP_map ..
  have tallies := tallies_iff (played.map Playing.result)
  rw [List.length_map] at tallies
  rw [aggregate_eq]
  exact tallies.trans (forall_congr' fun w => by rw [count])

theorem aggregate_nhands (recorded : ∀ g ∈ played, Playing.Recorded g) (few : played.length < 3 * 2 ^ 32) :
    (aggregate s1 s2 played).nhands = (played.map fun g => g.result.nhands).sum := by
  obtain ⟨sum, -⟩ := @totals_fit played .kOne recorded few (by decide)
  rw [aggregate_eq]
  change hands (played.map Playing.result) % 2 ^ 64 = _
  rw [hands, List.map_map]
  exact Nat.mod_eq_of_lt sum

theorem aggregate_isMean (recorded : ∀ g ∈ played, Playing.Recorded g) (few : played.length < 3 * 2 ^ 32)
    (seat : x ≠ .kNone) :
    IsMean ((aggregate s1 s2 played).average x) (played.flatMap fun g => g.result.lost x) ↔
      ∃ g ∈ played, ∃ r ∈ g.rounds, r.StakeLost x := by
  obtain ⟨-, length, sum⟩ := totals_fit recorded few seat
  have lost : lostCards (played.map Playing.result) x = played.flatMap fun g => g.result.lost x := List.flatMap_map ..
  rw [aggregate_eq, average_of x _ _ seat, lost, isMean_of _ length sum, lost_ne_nil recorded seat]

end Faithful

/-- **When the aggregate is faithful**: what `simulate_strategy` returns is the aggregate of the games
of its run, and it is faithful exactly when every outcome occurs in fewer than `2 ^ 32` games and
each player loses, in some round, a war with two cards left to stake. -/
theorem faithful_iff (may : MayAnswer) (s1 s2 : Strategy) :
    (∀ ngames r, Prog.Returns (env may) (simulateStrategy s1 s2 ngames) r ↔ ∃ played : List Playing,
      played.length = ngames ∧ (∀ g ∈ played, g.Possible may s1 s2) ∧ r = aggregate s1 s2 played) ∧
    ∀ played : List Playing, (∀ g ∈ played, g.Possible may s1 s2) →
      (Faithful (aggregate s1 s2 played) played ↔ Sampled played) := by
  refine ⟨fun _ _ => returns_simulateStrategy, ?_⟩
  intro played possible
  have recorded : ∀ g ∈ played, g.Recorded := fun g within => (possible g within).recorded
  constructor
  · intro faithful
    have small := (aggregate_tallies s1 s2 played).1 faithful.tallies
    exact ⟨small, fun x seat => (aggregate_isMean recorded (few_games small) seat).1 (faithful.means x seat)⟩
  · intro sampled
    have few := few_games sampled.tallies
    constructor
    · exact (aggregate_tallies s1 s2 played).2 sampled.tallies
    · exact aggregate_nhands recorded few
    · intro x seat
      exact (aggregate_isMean recorded few seat).2 (sampled.stakes x seat)

/-! ## A game without a war -/

/-- The first player wins every round and the whole deck. -/
def sweepPairs : List (Card × Card) :=
  [(14, 8), (14, 8), (14, 7), (14, 7), (13, 7), (13, 7), (13, 6), (13, 6), (12, 6), (12, 6), (12, 5), (12, 5),
    (11, 5), (11, 5), (11, 4), (11, 4), (10, 4), (10, 4), (10, 3), (10, 3), (9, 3), (9, 3), (9, 2), (9, 2),
    (8, 2), (8, 2)]

def sweepResult : GameResult := { winner := .kOne, nhands := 26 }

theorem sweep_possible (may : MayAnswer) (s1 s2 : Strategy) :
    ∃ g : Playing, g.Possible may s1 s2 ∧ g.result = sweepResult := by
  have dealt : Prog.Returns (env may) (makePlayers s1 s2)
      (⟨sweepPairs.map (·.1), s1, []⟩, ⟨sweepPairs.map (·.2), s2, []⟩) :=
    makePlayers_returns (d := sweepPairs.map (·.1) ++ sweepPairs.map (·.2)) (by decide)
  have start : LoopHead may _ _ 0 ⟨⟨sweepPairs.map (·.1) ++ [], s1, []⟩, ⟨sweepPairs.map (·.2) ++ [], s2, []⟩, {}⟩ :=
    .start rfl
  have swept := start.climb (deal_cards dealt).1 sweepPairs (by decide) (by decide)
  exact returns_game dealt (returns_simulate.2 ⟨_, _, swept, .out2 (by decide) (Nat.succ_ne_zero 51) rfl⟩)

/-- Both sides of the equivalence: a run with the sweep, and one with the contest, which is faithful. -/
theorem faithful_iff_sweep :
    (∃ played : List Playing, played.map Playing.result = [sweepResult] ∧
      (Faithful (aggregate always always played) played ↔ Sampled played)) ∧
    ∃ played : List Playing, played.length = 1 ∧ (∀ g ∈ played, g.Possible (fun _ _ _ _ => True) always always) ∧
      Faithful (aggregate always always played) played ∧ Sampled played := by
  constructor
  · obtain ⟨g, possible, result⟩ := sweep_possible (fun _ _ _ _ => True) always always
    refine ⟨[g], by rw [List.map_singleton, result], ?_⟩
    exact (faithful_iff (fun _ _ _ _ => True) always always).2 [g] (List.forall_mem_singleton.2 possible)
  · obtain ⟨p1, p2, t, dealt, game, -, lost1, lost2⟩ := contest_ends
    obtain ⟨g, possible, result⟩ := returns_game dealt game
    have sampled : Sampled [g] := by
      constructor
      · intro w
        exact Nat.lt_of_le_of_lt List.countP_le_length (by simp)
      · intro x seat
        refine ⟨g, List.mem_singleton_self g, (possible.recorded.some x seat).1 ?_⟩
        rw [result]
        cases x, seat using PlayerEnum.won_cases with
        | kOne => exact lost1
        | kTwo => exact lost2
    have single : ∀ g' ∈ [g], g'.Possible (fun _ _ _ _ => True) always always := List.forall_mem_singleton.2 possible
    have faithful := ((faithful_iff (fun _ _ _ _ => True) always always).2 [g] single).2 sampled
    exact ⟨[g], rfl, single, faithful, sampled⟩

/-- One game, in which neither player loses a stake: both averages are divided by zero. -/
theorem sweep_unfaithful :
    (∃ r, Prog.Returns (env fun _ _ _ _ => True) (simulateStrategy always always 1) r ∧
      r.averageP1WarLost = none ∧ r.averageP2WarLost = none) ∧
    ¬ ∀ s1 ∈ strategies, ∀ s2 ∈ strategies, ∀ ngames, 1 ≤ ngames → ∀ played : List Playing, played.length = ngames →
      (∀ g ∈ played, g.Possible (fun _ _ _ _ => True) s1 s2) → Faithful (aggregate s1 s2 played) played := by
  obtain ⟨g, possible, result⟩ := sweep_possible (fun _ _ _ _ => True) always always
  have all : ∀ g' ∈ [g], g'.Possible (fun _ _ _ _ => True) always always := List.forall_mem_singleton.2 possible
  have undefined : ∀ x, (aggregate always always [g]).average x = none := by
    intro x
    rw [aggregate, List.map_singleton, result]
    cases x <;> rfl
  constructor
  · exact ⟨_, returns_simulateStrategy.2 ⟨[g], rfl, all, rfl⟩, undefined .kOne, undefined .kTwo⟩
  · intro claim
    obtain ⟨v, defined, -⟩ := (claim always (by decide) always (by decide) 1 (Nat.le_refl 1) [g] rfl all).means .kOne
      (by decide)
    rw [undefined] at defined
    cases defined

end Maskset.War
