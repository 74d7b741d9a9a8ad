import Maskset.War.Conservation

/-!
# The two seats

Exchanging the players of a call exchanges its outcomes, unless the nested wars can
come to a tie in which neither player has a card left (`BothOut`): there the source
tests the first player first and lets the second seat win, in either order of
the players. `mirror_iff` says that this is the only asymmetry of a hand.
-/

namespace Maskset.War
set_option autoImplicit false

open Maskset.Logic

def PlayerEnum.mirror : PlayerEnum → PlayerEnum
  | .kOne => .kTwo
  | .kTwo => .kOne
  | .kNone => .kNone

def GameResult.mirror (r : GameResult) : GameResult :=
  { winner := r.winner.mirror, warHandsP1Lost := r.warHandsP2Lost, warHandsP2Lost := r.warHandsP1Lost,
    nhands := r.nhands }

/-- The table with its seats exchanged. -/
def Table.mirror (t : Table) : Table := { p1 := t.p2, p2 := t.p1, result := t.result.mirror }

/-- Some run of the nested wars that `c1` and `c2` start comes to a tie in which
neither player has a card left. -/
inductive BothOut (may : MayAnswer) : Card → Card → Table → Prop where
  | here {c t} (pos : 0 < c) (out1 : t.p1.ncards = 0) (out2 : t.p2.ncards = 0) : BothOut may c c t
  | war {c t q1 q2} (pos : 0 < c) (in1 : t.p1.ncards ≠ 0) (in2 : t.p2.ncards ≠ 0)
      (ready : Prog.Returns (env may) (decideShuffle t.p1 t.p2 kWarSize) (q1, q2))
      (valid1 : q1.StakesValid) (valid2 : q2.StakesValid)
      (inner : BothOut may q1.warHand.flip q2.warHand.flip ⟨q1.staked, q2.staked, t.countHand.result⟩) :
      BothOut may c c t

section Mirror

variable {may : MayAnswer} {c1 c2 : Card} {t t' : Table} {w : PlayerEnum} {p1 p2 q1 q2 : Player} {n d : Nat}

@[simp] theorem PlayerEnum.mirror_mirror : w.mirror.mirror = w := by cases w <;> rfl
@[simp] theorem GameResult.mirror_mirror (r : GameResult) : r.mirror.mirror = r := by simp [mirror]
@[simp] theorem Table.mirror_mirror : t.mirror.mirror = t := by simp [mirror]
@[simp] theorem Table.mirror_countHand : t.countHand.mirror = t.mirror.countHand := rfl

theorem Table.mirror_give (cards : List Card) : (t.give w cards).mirror = t.mirror.give w.mirror cards := by
  cases w <;> rfl

theorem Table.mirror_record (dump1 dump2 : List Card) :
    (t.record w dump1 dump2).mirror = t.mirror.record w.mirror dump2 dump1 := by
  cases w <;> rfl

theorem winnerOf_mirror : winnerOf c2 c1 = (winnerOf c1 c2).mirror := by
  rcases Nat.lt_trichotomy c1 c2 with lt | rfl | gt
  · rw [winnerOf_of_gt lt, winnerOf_of_lt lt]
    rfl
  · rw [winnerOf_eq_kNone.2 rfl]
    rfl
  · rw [winnerOf_of_gt gt, winnerOf_of_lt gt]
    rfl

theorem decideShuffle_mirror {E : Env requests} (ret : Prog.Returns E (decideShuffle p1 p2 n) (q1, q2)) :
    Prog.Returns E (decideShuffle p2 p1 n) (q2, q1) := by
  rw [returns_decideShuffle, returns_shuffleEvent] at ret ⊢
  by_cases short : p1.handSize < n ∨ p2.handSize < n
  · rw [if_pos short] at ret
    rw [if_pos short.symm]
    exact ret.symm
  · rw [if_neg short] at ret
    rw [if_neg fun h => short h.symm]
    exact ret.symm

theorem BothOut.mirror (h : BothOut may c1 c2 t) : BothOut may c2 c1 t.mirror := by
  induction h with
  | here pos out1 out2 => exact .here pos out2 out1
  | war pos in1 in2 ready valid1 valid2 _ ih =>
    exact .war pos in2 in1 (decideShuffle_mirror ready) valid2 valid1 ih

/-- **A fair hand mirrors**: when the nested wars cannot run both players out of
cards at once, exchanging the seats exchanges the outcome. -/
theorem Plays.mirror (h : Plays may c1 c2 t w t') (fair : ¬ BothOut may c1 c2 t) :
    Plays may c2 c1 t.mirror w.mirror t'.mirror := by
  induction h with
  | @decided c1 c2 t w two pos1 pos2 higher won coin =>
    rw [Table.mirror_give, Table.mirror_countHand]
    refine .decided pos2 pos1 (higher ▸ winnerOf_mirror) ?_ coin.symm
    cases w, won using PlayerEnum.won_cases with
    | kOne => decide
    | kTwo => decide
  | firstOut pos out1 =>
    rw [Table.mirror_give, Table.mirror_countHand]
    exact .secondOut pos (fun out2 => fair (.here pos out1 out2)) out1
  | secondOut pos in1 out2 =>
    rw [Table.mirror_give, Table.mirror_countHand]
    exact .firstOut pos out2
  | war pos in1 in2 ready valid1 valid2 _ dumps ih =>
    have inner := ih fun out => fair (.war pos in1 in2 ready valid1 valid2 out)
    rw [Table.mirror_give, Table.mirror_record, Table.mirror_give]
    exact .war pos in2 in1 (decideShuffle_mirror ready) valid2 valid1 inner
      (dumps.trans List.perm_append_comm)

/-! ## The unfair tie

A hand that ends in the unfair tie leaves its winner with two equal cards in front;
a hand of the same depth that ends in a comparison leaves two different ones. -/

theorem Table.record_p1 (dump1 dump2 : List Card) : (t.record w dump1 dump2).p1 = t.p1 := by
  cases w <;> rfl

theorem Plays.nhands_lt (h : Plays may c1 c2 t w t') : t.result.nhands < t'.result.nhands := by
  induction h with
  | decided => simp [Table.countHand]
  | firstOut => simp [Table.countHand]
  | secondOut => simp [Table.countHand]
  | war _ _ _ _ _ _ _ _ ih =>
    simp only [Table.give_nhands, Table.record_nhands, Table.countHand] at ih ⊢
    omega

/-- The two cards in front of a player's cards. -/
def Front (p : Player) (a b : Card) : Prop := ∃ rest, p.cards = a :: b :: rest

theorem Front.takeAll {p : Player} {a b : Card} (front : Front p a b) (cards : List Card) :
    Front (p.takeAll cards) a b := by
  obtain ⟨rest, front⟩ := front
  exact ⟨rest ++ cards, by rw [Player.takeAll_cards, front]; rfl⟩

theorem Front.of_empty {p : Player} (empty : p.ncards = 0) (a b : Card) : Front (p.takeAll [a, b]) a b := by
  rw [Player.ncards_eq, List.length_eq_zero_iff] at empty
  exact ⟨[], by rw [Player.takeAll_cards, empty]; rfl⟩

theorem Front.unique {p : Player} {a b a' b' : Card} (front : Front p a b) (front' : Front p a' b') :
    a = a' ∧ b = b' := by
  obtain ⟨rest, h⟩ := front
  obtain ⟨rest', h'⟩ := front'
  rw [h] at h'
  exact ⟨(List.cons.inj h').1, (List.cons.inj (List.cons.inj h').2).1⟩

/-- The outcome of the unfair tie at depth `d`. -/
theorem BothOut.outcome (h : BothOut may c1 c2 t) : ∃ d c t', Plays may c1 c2 t .kTwo t' ∧
    t'.result.nhands = t.result.nhands + d + 1 ∧ t.p1.ncards ≤ 4 * d ∧ t.p2.ncards ≤ 4 * d ∧
    Front t'.p2 c c := by
  induction h with
  | @here c t pos out1 out2 =>
    exact ⟨0, c, _, .firstOut pos out1, rfl, by omega, by omega, .of_empty out2 c c⟩
  | @war c t q1 q2 pos in1 in2 ready valid1 valid2 _ ih =>
    obtain ⟨d, a, u, inner, hands, few1, few2, front⟩ := ih
    obtain ⟨ready1, ready2⟩ := decideShuffle_ready ready
    simp only [ready1.staked_ncards, ready2.staked_ncards, Table.countHand] at few1 few2 hands
    refine ⟨d + 1, a, _, .war pos in1 in2 ready valid1 valid2 inner (.refl _), ?_, by omega, by omega, ?_⟩
    · simp only [Table.give_nhands, Table.record_nhands]
      omega
    · exact (front.takeAll _).takeAll _

/-- A hand the first player wins at a depth that leaves no cards to either. -/
theorem Plays.front_ne (h : Plays may c1 c2 t w t') (one : w = .kOne)
    (hands : t'.result.nhands = t.result.nhands + d + 1) (few1 : t.p1.ncards ≤ 4 * d)
    (few2 : t.p2.ncards ≤ 4 * d) : ∃ a b, a ≠ b ∧ Front t'.p1 a b := by
  induction h generalizing d with
  | @decided c1 c2 t w two _ _ higher won coin =>
    subst one
    have ne : c1 ≠ c2 := fun same => won (higher ▸ winnerOf_eq_kNone.2 same)
    simp only [Table.give_nhands, Table.countHand] at hands
    have out : t.p1.ncards = 0 := by omega
    rcases coin with rfl | rfl
    · exact ⟨c1, c2, ne, .of_empty out c1 c2⟩
    · exact ⟨c2, c1, ne.symm, .of_empty out c2 c1⟩
  | firstOut => cases one
  | secondOut _ in1 _ =>
    simp only [Table.give_nhands, Table.countHand] at hands
    omega
  | war _ _ _ ready _ _ inner _ ih =>
    obtain ⟨ready1, ready2⟩ := decideShuffle_ready ready
    have deeper := inner.nhands_lt
    simp only [Table.give_nhands, Table.record_nhands, Table.countHand] at hands deeper
    obtain ⟨d, rfl⟩ : ∃ e, d = e + 1 := ⟨d - 1, by omega⟩
    obtain ⟨a, b, ne, front⟩ := ih one (d := d) (by simp only [Table.countHand]; omega)
      (by rw [ready1.staked_ncards]; omega) (by rw [ready2.staked_ncards]; omega)
    subst one
    refine ⟨a, b, ne, ?_⟩
    simp only [Table.give, Table.record_p1]
    exact (front.takeAll _).takeAll _

/-- In the unfair tie the exchanged call has no mirror image of the outcome. -/
theorem BothOut.not_mirror (h : BothOut may c1 c2 t) :
    ∃ t', Plays may c1 c2 t .kTwo t' ∧ ¬ Plays may c2 c1 t.mirror .kOne t'.mirror := by
  obtain ⟨d, c, t', played, hands, few1, few2, front⟩ := h.outcome
  refine ⟨t', played, ?_⟩
  intro mirrored
  obtain ⟨a, b, ne, front'⟩ := mirrored.front_ne rfl hands few2 few1
  obtain ⟨rfl, rfl⟩ := front.unique front'
  exact ne rfl

/-! ## Rounds and games -/

/-- The hand of a round can come to the unfair tie. -/
def RoundBothOut (may : MayAnswer) (t : Table) : Prop :=
  ∃ q1 q2 c1 h1 c2 h2, Prog.Returns (env may) (decideShuffle t.p1 t.p2 1) (q1, q2) ∧
    q1.hand = c1 :: h1 ∧ q2.hand = c2 :: h2 ∧
    BothOut may c1 c2 ⟨{ q1 with hand := h1 }, { q2 with hand := h2 }, t.result⟩

theorem RoundBothOut.mirror (h : RoundBothOut may t) : RoundBothOut may t.mirror := by
  obtain ⟨q1, q2, c1, h1, c2, h2, ready, hand1, hand2, out⟩ := h
  exact ⟨q2, q1, c2, h2, c1, h1, decideShuffle_mirror ready, hand2, hand1, out.mirror⟩

/-- Both players run out together only when they need the same number of wars for it. -/
theorem BothOut.balanced (h : BothOut may c1 c2 t) : (t.p1.ncards + 3) / 4 = (t.p2.ncards + 3) / 4 := by
  induction h with
  | here _ out1 out2 => rw [out1, out2]
  | war _ in1 in2 ready _ _ _ ih =>
    obtain ⟨ready1, ready2⟩ := decideShuffle_ready ready
    simp only [ready1.staked_ncards, ready2.staked_ncards] at ih
    omega

/-- In a game of the whole deck that takes two equal halves. -/
theorem RoundBothOut.even (h : RoundBothOut may t) (total : t.p1.ncards + t.p2.ncards = kDeckSize) :
    t.p1.ncards = 26 ∧ t.p2.ncards = 26 := by
  obtain ⟨q1, q2, c1, h1, c2, h2, ready, hand1, hand2, out⟩ := h
  obtain ⟨ready1, ready2⟩ := decideShuffle_ready ready
  have same1 := ready1.ncards
  have same2 := ready2.ncards
  have balanced := out.balanced
  simp only [Player.ncards, Player.handSize, hand1, hand2, List.length_cons, kDeckSize] at *
  omega

theorem round_mirror (fair : ¬ RoundBothOut may t) (ret : Prog.Returns (env may) (round t) t') :
    Prog.Returns (env may) (round t.mirror) t'.mirror := by
  obtain ⟨total, q1, q2, c1, h1, c2, h2, w, ready, hand1, hand2, played⟩ := returns_round.1 ret
  have fairHand := fun out => fair ⟨q1, q2, c1, h1, c2, h2, ready, hand1, hand2, out⟩
  refine returns_round.2 ⟨(Nat.add_comm _ _).trans total, ?_⟩
  exact ⟨q2, q1, c2, h2, c1, h1, w.mirror, decideShuffle_mirror ready, hand2, hand1, played.mirror fairHand⟩

theorem LoopHead.mirror (head : LoopHead may p1 p2 n t)
    (fair : ∀ n t, n < kMaxRounds → LoopHead may p1 p2 n t → LoopHead may p2 p1 n t.mirror →
      ¬ RoundBothOut may t) : LoopHead may p2 p1 n t.mirror := by
  induction head with
  | start equal => exact .start equal.symm
  | next head more in1 in2 ret ih =>
    exact ih.next more in2 in1 (round_mirror (fair _ _ more head ih) ret)

theorem LoopHead.some_cards (some : p1.ncards ≠ 0 ∨ p2.ncards ≠ 0) (head : LoopHead may p1 p2 n t) :
    t.p1.ncards ≠ 0 ∨ t.p2.ncards ≠ 0 := by
  cases head with
  | start => exact some
  | next _ _ in1 _ ret =>
    have total := congrArg Multiset.card (round_conserves ret)
    rw [Table.card_cards, Table.card_cards] at total
    omega

theorem Ends.mirror (ends : Ends n t t') (some : t.p1.ncards ≠ 0 ∨ t.p2.ncards ≠ 0) :
    Ends n t.mirror t'.mirror := by
  cases ends with
  | limit => exact .limit
  | out1 more out => exact .out2 more (some.resolve_left (not_not_intro out)) out
  | out2 more in1 out => exact .out1 more out

/-- A game all of whose rounds are fair mirrors. -/
theorem simulate_mirror (some : p1.ncards ≠ 0 ∨ p2.ncards ≠ 0)
    (fair : ∀ n t, n < kMaxRounds → LoopHead may p1 p2 n t → LoopHead may p2 p1 n t.mirror →
      ¬ RoundBothOut may t)
    (ret : Prog.Returns (env may) (simulate p1 p2) t') : Prog.Returns (env may) (simulate p2 p1) t'.mirror := by
  obtain ⟨n, t, head, ends⟩ := returns_simulate.1 ret
  exact returns_simulate.2 ⟨n, t.mirror, head.mirror fair, ends.mirror (head.some_cards some)⟩

end Mirror

/-- **When the seats are interchangeable.** A hand has the mirrored outcomes exactly
when its wars cannot run both players out at once; a game has them when no round it
can reach has such a hand. -/
theorem mirror_iff (may : MayAnswer) :
    (∀ c1 c2 t, (∀ w t', Prog.Returns (env may) (playHand c2 c1 t.mirror) (w.mirror, t'.mirror) ↔
        Prog.Returns (env may) (playHand c1 c2 t) (w, t')) ↔ ¬ BothOut may c1 c2 t) ∧
    ∀ p1 p2, (p1.ncards ≠ 0 ∨ p2.ncards ≠ 0) →
      (∀ n t, n < kMaxRounds → LoopHead may p1 p2 n t → ¬ RoundBothOut may t) → ∀ t',
        Prog.Returns (env may) (simulate p2 p1) t'.mirror ↔ Prog.Returns (env may) (simulate p1 p2) t' := by
  constructor
  · intro c1 c2 t
    constructor
    · intro same out
      obtain ⟨t', played, unfair⟩ := out.not_mirror
      exact unfair (returns_playHand.1 ((same .kTwo t').2 played.returns))
    · intro fair w t'
      simp only [returns_playHand]
      constructor
      · intro played
        simpa using played.mirror fun out => fair (by simpa using out.mirror)
      · intro played
        exact played.mirror fair
  · intro p1 p2 some fair t'
    constructor
    · intro ret
      simpa using simulate_mirror some.symm (fun n t more _ head out => fair n _ more head out.mirror) ret
    · exact simulate_mirror some fun n t more head _ => fair n t more head

/-- Two players with no card left. -/
def outTable : Table :=
  { p1 := ⟨[], ⟨2, .combineOnlyStrategy⟩, []⟩, p2 := ⟨[], ⟨2, .combineOnlyStrategy⟩, []⟩, result := {} }

/-- A tie between them goes to the second seat, whoever sits there. -/
theorem unfair_tie :
    ¬ ∀ w t', Prog.Returns (env fun _ _ _ _ => True) (playHand 5 5 outTable.mirror) (w.mirror, t'.mirror) ↔
      Prog.Returns (env fun _ _ _ _ => True) (playHand 5 5 outTable) (w, t') := by
  intro same
  have out : BothOut (fun _ _ _ _ => True) 5 5 outTable := .here (by decide) rfl rfl
  obtain ⟨t', played, unfair⟩ := out.not_mirror
  exact unfair (returns_playHand.1 ((same .kTwo t').2 played.returns))

end Maskset.War
