import Maskset.War.Bound
import Maskset.War.Stakes

/-!
# What a game records

A hand adds to the record of its loser the cards it dumped into the wars, and nothing to
the record of the winner. So whether a record grows is settled at the top of a hand: by a
war that the player loses with two cards left. A `Course` is a game as it was played, with
the hand of every round.
-/

namespace Maskset.War
set_option autoImplicit false

open Maskset.Logic

def GameResult.lost (result : GameResult) : PlayerEnum → List Card
  | .kTwo => result.warHandsP2Lost
  | _ => result.warHandsP1Lost

/-- A hand of the loop: the cards drawn, the players behind them and who wins it. -/
structure Round where
  c1 : Card
  c2 : Card
  table : Table
  winner : PlayerEnum

/-- A war that `x` loses with two cards or more behind the drawn one. -/
structure Round.StakeLost (r : Round) (x : PlayerEnum) : Prop where
  tie : r.c1 = r.c2
  in1 : r.table.p1.ncards ≠ 0
  in2 : r.table.p2.ncards ≠ 0
  loses : r.winner ≠ x
  two : 2 ≤ (r.table.seat x).ncards

/-- What a hand adds to the record of `x`. -/
structure Recorded (r : Round) (t' : Table) (x : PlayerEnum) (dumps : List Card) : Prop where
  lost : t'.lost x = r.table.lost x ++ dumps
  some : dumps ≠ [] ↔ r.StakeLost x
  cards : ∀ c ∈ dumps, c ∈ r.table.cards
  count : dumps.length + 3 * r.table.result.nhands ≤ 3 * t'.result.nhands

section Hand

variable {may : MayAnswer} {c c1 c2 : Card} {t t' u : Table} {w x : PlayerEnum} {q1 q2 : Player} {cards : List Card}
  {dumps : List Card}

/-- A record does not depend on the players. -/
theorem lost_congr (one : t.result.warHandsP1Lost = u.result.warHandsP1Lost)
    (two : t.result.warHandsP2Lost = u.result.warHandsP2Lost) : t.lost x = u.lost x := by
  cases x <;> simp only [Table.lost, one, two]

/-- What holds of both players holds of the player in a seat. -/
theorem seat_rel {R : Player → Player → Prop} (one : R t.p1 u.p1) (two : R t.p2 u.p2) (x : PlayerEnum) :
    R (t.seat x) (u.seat x) := by
  cases x with
  | kOne => exact one
  | kTwo => exact two
  | kNone => exact one

theorem stakes_seat (result : GameResult) (x : PlayerEnum) :
    Stakes.of (q1.warHand, q2.warHand) x = ((⟨q1, q2, result⟩ : Table).seat x).warHand := by
  cases x <;> rfl

/-- A hand without a war records nothing. -/
theorem Recorded.nothing (none : ¬ Round.StakeLost ⟨c1, c2, t, w⟩ x) :
    Recorded ⟨c1, c2, t, w⟩ (t.countHand.give w cards) x [] := by
  constructor
  · rw [give_lost, List.append_nil]
    exact lost_congr rfl rfl
  · exact iff_of_false (fun some => some rfl) none
  · intro c within
    exact absurd within List.not_mem_nil
  · rw [Table.give_nhands, List.length_nil]
    simp only [Table.countHand]
    omega

/-- The dump of a war is empty only for a player with one card. -/
theorem Ready.dump_ne_nil {p q : Player} (ready : Ready kWarSize p q) (some : p.ncards ≠ 0) :
    q.warHand.dump ≠ [] ↔ 2 ≤ p.ncards := by
  have hand := congrArg List.length (Player.warHand_take (Player.hand_ne_nil (ready.hand_stake some)))
  have same := ready.ncards
  rw [List.length_append, List.length_singleton, List.length_take] at hand
  rw [← List.length_pos_iff]
  rcases ready.dealt with enough | empty
  · simp only [kWarSize, Player.handSize] at enough
    simp only [Player.ncards, Player.handSize] at same ⊢
    omega
  · simp only [Player.ncards, Player.handSize, empty, List.length_nil] at same ⊢
    omega

theorem Player.dump_length (p : Player) : p.warHand.dump.length ≤ 3 := by
  rw [warHand, List.length_dropLast, List.length_take]
  omega

/-- What is staked in a war was on the table. -/
theorem mem_of_staked (ready1 : Ready kWarSize t.p1 q1) (ready2 : Ready kWarSize t.p2 q2) (in1 : t.p1.ncards ≠ 0)
    (in2 : t.p2.ncards ≠ 0) {result : GameResult} :
    (∀ c ∈ (⟨q1.staked, q2.staked, result⟩ : Table).cards, c ∈ t.cards) ∧
      ∀ c ∈ (Stakes.of (q1.warHand, q2.warHand) x).dump, c ∈ t.cards := by
  have stake1 := ready1.staked_cards in1
  have stake2 := ready2.staked_cards in2
  have all : t.cards = ↑q1.warHand.dump + {q1.warHand.flip} + ↑q1.staked.cards +
      (↑q2.warHand.dump + {q2.warHand.flip} + ↑q2.staked.cards) := by
    rw [Table.cards, stake1, stake2]
  rw [all]
  constructor
  · intro c within
    rcases Multiset.mem_add.1 within with one | two
    · exact Multiset.mem_add.2 (.inl (Multiset.mem_add.2 (.inr one)))
    · exact Multiset.mem_add.2 (.inr (Multiset.mem_add.2 (.inr two)))
  · intro c within
    cases x with
    | kTwo => simp [show c ∈ q2.warHand.dump from within]
    | kOne => simp [show c ∈ q1.warHand.dump from within]
    | kNone => simp [show c ∈ q1.warHand.dump from within]

theorem PlayerEnum.ne_mirror (won : w ≠ .kNone) : w ≠ w.mirror := by
  cases w, won using PlayerEnum.won_cases with
  | kOne => decide
  | kTwo => decide

theorem mirror_of_ne (won : w ≠ .kNone) (seat : x ≠ .kNone) (loses : w ≠ x) : x = w.mirror := by
  cases w, won using PlayerEnum.won_cases with
  | kOne => cases x, seat using PlayerEnum.won_cases with
    | kOne => exact absurd rfl loses
    | kTwo => rfl
  | kTwo => cases x, seat using PlayerEnum.won_cases with
    | kOne => rfl
    | kTwo => exact absurd rfl loses

/-- The winner of a war records nothing. -/
theorem Recorded.war_winner (won : w ≠ .kNone)
    (inner : Recorded ⟨c1, c2, ⟨q1.staked, q2.staked, t.countHand.result⟩, w⟩ u w dumps) :
    Recorded ⟨c, c, t, w⟩ (((u.give w cards).record w q1.warHand.dump q2.warHand.dump).give w [c, c]) w [] := by
  have empty : dumps = [] := by
    by_contra some
    exact (inner.some.1 some).loses rfl
  have lost := inner.lost
  have count := inner.count
  have hands : t.countHand.result.nhands = t.result.nhands + 1 := rfl
  dsimp only at count
  constructor
  · rw [give_lost, record_lost won, give_lost, lost, empty]
    exact congrArg (· ++ []) (lost_congr rfl rfl)
  · exact iff_of_false (fun some => some rfl) fun lost => lost.loses rfl
  · exact fun c within => absurd within List.not_mem_nil
  · rw [Table.give_nhands, Table.record_nhands, Table.give_nhands, List.length_nil]
    dsimp only
    omega

/-- The loser's dump joins what the inner hand recorded. -/
theorem Recorded.war_loser (ready1 : Ready kWarSize t.p1 q1) (ready2 : Ready kWarSize t.p2 q2)
    (in1 : t.p1.ncards ≠ 0) (in2 : t.p2.ncards ≠ 0) (won : w ≠ .kNone)
    (inner : Recorded ⟨c1, c2, ⟨q1.staked, q2.staked, t.countHand.result⟩, w⟩ u w.mirror dumps) :
    Recorded ⟨c, c, t, w⟩ (((u.give w cards).record w q1.warHand.dump q2.warHand.dump).give w [c, c]) w.mirror
      (dumps ++ (Stakes.of (q1.warHand, q2.warHand) w.mirror).dump) := by
  obtain ⟨below, dumpBelow⟩ := @mem_of_staked t w.mirror q1 q2 ready1 ready2 in1 in2 t.countHand.result
  have dump : (Stakes.of (q1.warHand, q2.warHand) w.mirror).dump ≠ [] ↔ 2 ≤ (t.seat w.mirror).ncards := by
    rw [stakes_seat t.result]
    exact seat_rel (R := fun p q => q.warHand.dump ≠ [] ↔ 2 ≤ p.ncards) (ready1.dump_ne_nil in1)
      (ready2.dump_ne_nil in2) _
  have three : (Stakes.of (q1.warHand, q2.warHand) w.mirror).dump.length ≤ 3 := by
    rw [stakes_seat t.result]
    exact Player.dump_length _
  have deeper : dumps ≠ [] → 2 ≤ (t.seat w.mirror).ncards := by
    intro some
    have fewer := seat_rel (R := fun p q => q.ncards ≤ p.ncards) (u := ⟨q1.staked, q2.staked, t.countHand.result⟩)
      (Nat.le_of_lt (ready1.staked_lt in1)) (Nat.le_of_lt (ready2.staked_lt in2)) w.mirror
    exact Nat.le_trans (inner.some.1 some).two fewer
  have lost := inner.lost
  have count := inner.count
  have hands : t.countHand.result.nhands = t.result.nhands + 1 := rfl
  dsimp only at count
  constructor
  · rw [give_lost, record_lost_mirror (s := (q1.warHand, q2.warHand)) won, give_lost, lost, List.append_assoc]
    exact congrArg (· ++ _) (lost_congr rfl rfl)
  · constructor
    · intro some
      refine ⟨rfl, in1, in2, PlayerEnum.ne_mirror won, ?_⟩
      by_cases inside : dumps = []
      · rw [inside, List.nil_append] at some
        exact dump.1 some
      · exact deeper inside
    · intro stake empty
      exact dump.2 stake.two (List.append_eq_nil_iff.1 empty).2
  · intro c within
    rcases List.mem_append.1 within with inside | here
    · exact below c (inner.cards c inside)
    · exact dumpBelow c here
  · rw [Table.give_nhands, Table.record_nhands, Table.give_nhands, List.length_append]
    dsimp only
    omega

/-- A war on top of another hand. -/
theorem Recorded.war (ready1 : Ready kWarSize t.p1 q1) (ready2 : Ready kWarSize t.p2 q2) (in1 : t.p1.ncards ≠ 0)
    (in2 : t.p2.ncards ≠ 0) (won : w ≠ .kNone) (seat : x ≠ .kNone)
    (inner : Recorded ⟨c1, c2, ⟨q1.staked, q2.staked, t.countHand.result⟩, w⟩ u x dumps) :
    ∃ dumps, Recorded ⟨c, c, t, w⟩
      (((u.give w cards).record w q1.warHand.dump q2.warHand.dump).give w [c, c]) x dumps := by
  by_cases wins : w = x
  · subst wins
    exact ⟨_, inner.war_winner won⟩
  · obtain rfl := mirror_of_ne won seat wins
    exact ⟨_, inner.war_loser ready1 ready2 in1 in2 won⟩

/-- **What a hand records**, by the top of the hand. -/
theorem Plays.recorded (h : Plays may c1 c2 t w t') (seat : x ≠ .kNone) :
    ∃ dumps, Recorded ⟨c1, c2, t, w⟩ t' x dumps := by
  induction h with
  | decided pos1 pos2 higher won coin =>
    refine ⟨[], Recorded.nothing ?_⟩
    intro lost
    exact won (higher.symm.trans (winnerOf_eq_kNone.2 lost.tie))
  | firstOut pos out1 => exact ⟨[], Recorded.nothing fun lost => lost.in1 out1⟩
  | secondOut pos in1 out2 => exact ⟨[], Recorded.nothing fun lost => lost.in2 out2⟩
  | war pos in1 in2 ready valid1 valid2 inner dumps ih =>
    obtain ⟨ready1, ready2⟩ := decideShuffle_ready ready
    obtain ⟨dumps, recorded⟩ := ih
    exact recorded.war ready1 ready2 in1 in2 inner.won seat

end Hand

/-! ## Games as they were played -/

/-- The rounds that led to a loop head of `simulate`. -/
inductive Course (may : MayAnswer) (p1 p2 : Player) : List Round → Table → Prop where
  | start (equal : p1.ncards = p2.ncards) : Course may p1 p2 [] ⟨p1, p2, {}⟩
  | next {rounds t q1 q2 c1 h1 c2 h2 w t'} (course : Course may p1 p2 rounds t) (more : rounds.length < kMaxRounds)
      (in1 : t.p1.ncards ≠ 0) (in2 : t.p2.ncards ≠ 0) (total : t.p1.ncards + t.p2.ncards = kDeckSize)
      (ready : Prog.Returns (env may) (decideShuffle t.p1 t.p2 1) (q1, q2)) (hand1 : q1.hand = c1 :: h1)
      (hand2 : q2.hand = c2 :: h2)
      (played : Plays may c1 c2 ⟨{ q1 with hand := h1 }, { q2 with hand := h2 }, t.result⟩ w t') :
      Course may p1 p2 (rounds ++ [⟨c1, c2, ⟨{ q1 with hand := h1 }, { q2 with hand := h2 }, t.result⟩, w⟩]) t'

section Course

variable {may : MayAnswer} {p1 p2 : Player} {rounds : List Round} {t t' : Table} {n : Nat} {x : PlayerEnum}

theorem Course.head (course : Course may p1 p2 rounds t) : LoopHead may p1 p2 rounds.length t := by
  induction course with
  | start equal => exact .start equal
  | next _ more in1 in2 total ready hand1 hand2 played ih =>
    rw [List.length_append, List.length_singleton]
    exact ih.next more in1 in2 (returns_round.2 ⟨total, _, _, _, _, _, _, _, ready, hand1, hand2, played⟩)

theorem LoopHead.course (head : LoopHead may p1 p2 n t) :
    ∃ rounds : List Round, rounds.length = n ∧ Course may p1 p2 rounds t := by
  induction head with
  | start equal => exact ⟨[], rfl, .start equal⟩
  | next _ more in1 in2 ret ih =>
    obtain ⟨rounds, length, course⟩ := ih
    obtain ⟨total, q1, q2, c1, h1, c2, h2, w, ready, hand1, hand2, played⟩ := returns_round.1 ret
    refine ⟨_, ?_, course.next (length ▸ more) in1 in2 total ready hand1 hand2 played⟩
    rw [List.length_append, List.length_singleton, length]

/-- The cards behind the drawn ones were on the table. -/
theorem mem_of_drawn {q1 q2 : Player} {c1 c2 : Card} {h1 h2 : List Card} (result : GameResult)
    (ready : Prog.Returns (env may) (decideShuffle t.p1 t.p2 n) (q1, q2)) (hand1 : q1.hand = c1 :: h1)
    (hand2 : q2.hand = c2 :: h2) :
    ∀ c ∈ (⟨{ q1 with hand := h1 }, { q2 with hand := h2 }, result⟩ : Table).cards, c ∈ t.cards := by
  obtain ⟨ready1, ready2⟩ := decideShuffle_ready ready
  have all : t.cards = ↑({ q1 with hand := h1 } : Player).cards + {c1} +
      (↑({ q2 with hand := h2 } : Player).cards + {c2}) := by
    rw [Table.cards, ← ready1.cards_eq, ← ready2.cards_eq, Player.drawn_cards hand1, Player.drawn_cards hand2]
  intro c within
  rw [all]
  rcases Multiset.mem_add.1 within with one | two
  · exact Multiset.mem_add.2 (.inl (Multiset.mem_add.2 (.inl one)))
  · exact Multiset.mem_add.2 (.inr (Multiset.mem_add.2 (.inl two)))

/-- The record of a player after the rounds. -/
structure Record (rounds : List Round) (t : Table) (x : PlayerEnum) : Prop where
  some : t.lost x ≠ [] ↔ ∃ r ∈ rounds, r.StakeLost x
  cards : ∀ c ∈ t.lost x, c ∈ deck
  count : (t.lost x).length ≤ 3 * t.result.nhands

/-- **What a game records**: a player's record is empty unless some round was a war that it lost with
two cards left. -/
theorem Course.record (course : Course may p1 p2 rounds t) (dealt : (⟨p1, p2, {}⟩ : Table).cards = ↑deck)
    (seat : x ≠ .kNone) : Record rounds t x := by
  induction course with
  | start equal =>
    have empty : (⟨p1, p2, {}⟩ : Table).lost x = [] := by cases x <;> rfl
    constructor
    · simp [empty]
    · simp [empty]
    · simp [empty]
  | @next rounds t q1 q2 c1 h1 c2 h2 w t' course more in1 in2 total ready hand1 hand2 played ih =>
    obtain ⟨dumps, recorded⟩ := played.recorded seat
    have before : (⟨{ q1 with hand := h1 }, { q2 with hand := h2 }, t.result⟩ : Table).lost x = t.lost x :=
      lost_congr rfl rfl
    have lost : t'.lost x = t.lost x ++ dumps := before ▸ recorded.lost
    have count := recorded.count
    dsimp only at count
    constructor
    · have either : t.lost x ++ dumps ≠ [] ↔ t.lost x ≠ [] ∨ dumps ≠ [] := by
        rw [Ne, List.append_eq_nil_iff, not_and_or]
      rw [lost, either, ih.some, recorded.some]
      constructor
      · rintro (⟨r, within, stake⟩ | stake)
        · exact ⟨r, List.mem_append_left _ within, stake⟩
        · exact ⟨_, List.mem_append_right _ (List.mem_singleton_self _), stake⟩
      · rintro ⟨r, within, stake⟩
        rcases List.mem_append.1 within with earlier | last
        · exact .inl ⟨r, earlier, stake⟩
        · rw [List.mem_singleton.1 last] at stake
          exact .inr stake
    · intro c within
      rw [lost] at within
      rcases List.mem_append.1 within with earlier | last
      · exact ih.cards c earlier
      · have onTable := mem_of_drawn t.result ready hand1 hand2 c (recorded.cards c last)
        rw [course.head.deck dealt] at onTable
        exact Multiset.mem_coe.1 onTable
    · rw [lost, List.length_append]
      have := ih.count
      omega

end Course

end Maskset.War
