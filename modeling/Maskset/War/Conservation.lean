import Maskset.War.Simulate
import Mathlib.Algebra.Order.Group.Multiset
import Mathlib.Tactic.Abel

/-!
# No card is lost and no assertion fails

A hand adds the two cards it was called with to the players' cards and changes
nothing else about them (`Plays.conserve`); a round therefore keeps the whole deck
on the table (`LoopHead.deck`), and with the deck on the table every assertion of
a round holds (`wp_round`).
-/

namespace Maskset.War
set_option autoImplicit false

open Maskset.Logic

/-- Every card of the table, as a multiset. -/
def Table.cards (t : Table) : Multiset Card := ↑t.p1.cards + ↑t.p2.cards

section Hand

variable {may : MayAnswer} {c1 c2 : Card} {t t' : Table} {w : PlayerEnum} {p q : Player}

theorem Player.takeAll_cards (cards : List Card) : (p.takeAll cards).cards = p.cards ++ cards := by
  simp [Player.takeAll_eq, Player.cards]

theorem Table.give_cards (won : w ≠ .kNone) (cards : List Card) : (t.give w cards).cards = t.cards + ↑cards := by
  cases w, won using PlayerEnum.won_cases with
  | kOne =>
    simp only [Table.give, Table.cards, Player.takeAll_cards, ← Multiset.coe_add]
    exact add_right_comm _ _ _
  | kTwo =>
    simp only [Table.give, Table.cards, Player.takeAll_cards, ← Multiset.coe_add]
    exact (add_assoc _ _ _).symm

@[simp] theorem Table.record_cards (dump1 dump2 : List Card) : (t.record w dump1 dump2).cards = t.cards := by
  cases w <;> rfl

theorem Ready.staked_cards (ready : Ready kWarSize p q) (some : p.ncards ≠ 0) :
    (↑p.cards : Multiset Card) = ↑q.warHand.dump + {q.warHand.flip} + ↑q.staked.cards := by
  rw [Multiset.coe_eq_coe.2 (ready.staked_perm some), ← Multiset.coe_add, ← Multiset.coe_add,
    Multiset.coe_singleton]

/-- **A hand conserves cards**, through every depth of war and both early returns. -/
theorem Plays.conserve (h : Plays may c1 c2 t w t') : t'.cards = t.cards + {c1, c2} := by
  induction h with
  | @decided c1 c2 t w two _ _ _ won coin =>
    have both : (↑two : Multiset Card) = {c1, c2} := by
      rcases coin with rfl | rfl
      · rfl
      · exact Multiset.pair_comm c2 c1
    rw [Table.give_cards won, both]
    rfl
  | firstOut => exact Table.give_cards (by decide) _
  | secondOut => exact Table.give_cards (by decide) _
  | @war c t q1 q2 w u cards _ in1 in2 ready _ _ inner dumps ih =>
    obtain ⟨ready1, ready2⟩ := decideShuffle_ready ready
    have stake1 := ready1.staked_cards in1
    have stake2 := ready2.staked_cards in2
    have spoils : (↑cards : Multiset Card) = ↑q1.warHand.dump + ↑q2.warHand.dump := Multiset.coe_eq_coe.2 dumps
    rw [Table.give_cards inner.won, Table.record_cards, Table.give_cards inner.won, ih, spoils]
    simp only [Table.cards] at stake1 stake2 ⊢
    rw [stake1, stake2, show (↑[c, c] : Multiset Card) = {c, c} from rfl, Multiset.insert_eq_cons,
      ← Multiset.singleton_add]
    abel

end Hand

/-! ## Rounds -/

section Rounds

variable {may : MayAnswer} {p1 p2 : Player} {s1 s2 : Strategy} {t t' : Table} {n k : Nat} {f : Fault}

theorem Ready.cards_eq {p q : Player} (r : Ready n p q) : (↑q.cards : Multiset Card) = ↑p.cards :=
  Multiset.coe_eq_coe.2 r.cards

/-- A drawn card and the player it was drawn from. -/
theorem Player.drawn_cards {p : Player} {c : Card} {h : List Card} (hand : p.hand = c :: h) :
    (↑p.cards : Multiset Card) = ↑({ p with hand := h } : Player).cards + {c} := by
  simp only [cards, hand, List.cons_append, ← Multiset.cons_coe, ← Multiset.singleton_add]
  abel

theorem round_conserves (ret : Prog.Returns (env may) (round t) t') : t'.cards = t.cards := by
  obtain ⟨-, q1, q2, c1, h1, c2, h2, w, ready, hand1, hand2, played⟩ := returns_round.1 ret
  obtain ⟨ready1, ready2⟩ := decideShuffle_ready ready
  rw [played.conserve, Table.cards, Table.cards, ← ready1.cards_eq, ← ready2.cards_eq,
    Player.drawn_cards hand1, Player.drawn_cards hand2, Multiset.insert_eq_cons, ← Multiset.singleton_add]
  abel

theorem Table.card_cards : t.cards.card = t.p1.ncards + t.p2.ncards := by
  simp [cards, Player.ncards_eq]

/-- With the deck on the table the two sizes add up. -/
theorem sizes_of_deck (deckCards : t.cards = ↑deck) : t.p1.ncards + t.p2.ncards = kDeckSize := by
  rw [← Table.card_cards, deckCards]
  decide

theorem valid_of_deck (deckCards : t.cards = ↑deck) : t.p1.CardsValid ∧ t.p2.CardsValid := by
  have valid : ∀ c ∈ t.cards, 1 < c := fun c h => (deck_valid c (by simpa [deckCards] using h)).1
  exact ⟨fun c h => valid c (Multiset.mem_add.2 (.inl h)), fun c h => valid c (Multiset.mem_add.2 (.inr h))⟩

/-- **A round with the deck on the table** fails no assertion and keeps the deck there. -/
theorem wp_round (deckCards : t.cards = ↑deck) (in1 : t.p1.ncards ≠ 0) (in2 : t.p2.ncards ≠ 0) :
    Prog.wp (.safe (env may)) (round t) fun t' => t'.cards = ↑deck := by
  have noFault : Prog.wp (.safe (env may)) (round t) fun _ => True := by
    obtain ⟨valid1, valid2⟩ := valid_of_deck deckCards
    rw [round, assert_pos (sizes_of_deck deckCards), pure_bind]
    apply Prog.wp_seq (wp_decideShuffle t.p1 t.p2 1)
    rintro ⟨⟨hand1, s1, pile1⟩, ⟨hand2, s2, pile2⟩⟩ ⟨ready1, ready2⟩
    obtain ⟨c1, h1, rfl⟩ := ready1.hand_front in1
    obtain ⟨c2, h2, rfl⟩ := ready2.hand_front in2
    have all1 := ready1.cardsValid valid1
    have all2 := ready2.cardsValid valid2
    simp only [Prog.wp_bind, wp_assert, Player.draw_cons, Prog.wp_pure]
    refine ⟨Nat.succ_ne_zero _, Nat.succ_ne_zero _, Prog.wp_mono (fun _ _ => trivial)
      (wp_playHand _ (Nat.lt_succ_self _) ?_ ?_ ?_ ?_)⟩
    · exact Nat.lt_of_succ_lt (all1 c1 (by simp [Player.cards]))
    · exact Nat.lt_of_succ_lt (all2 c2 (by simp [Player.cards]))
    · exact fun c h => all1 c (List.mem_cons_of_mem _ h)
    · exact fun c h => all2 c (List.mem_cons_of_mem _ h)
  refine Prog.wp_safe_iff.2 ⟨fun t' ret => ?_, (Prog.wp_safe_iff.1 noFault).2⟩
  rw [round_conserves ret, deckCards]

theorem wp_rounds (deckCards : t.cards = ↑deck) :
    Prog.wp (.safe (env may)) (rounds k t) fun t' => t'.cards = ↑deck := by
  induction k generalizing t with
  | zero => exact deckCards
  | succ k ih =>
    unfold rounds
    split
    · exact deckCards
    split
    · exact deckCards
    apply Prog.wp_seq (wp_round deckCards (by omega) (by omega))
    intro t' rest
    exact ih rest

/-- The dealt table holds the deck, half of it with each player. -/
theorem deal_cards (ret : Prog.Returns (env may) (makePlayers s1 s2) (p1, p2)) :
    (⟨p1, p2, {}⟩ : Table).cards = ↑deck ∧ p1.ncards = 26 ∧ p2.ncards = 26 := by
  obtain ⟨d, perm, rfl, rfl⟩ := (Prog.wp_safe_iff.1 (wp_makePlayers s1 s2)).1 _ ret
  have length : d.length = 52 := perm.length_eq
  refine ⟨?_, ?_, ?_⟩
  · simp only [Table.cards, Player.cards, List.append_nil, Multiset.coe_add, List.take_append_drop]
    exact Multiset.coe_eq_coe.2 perm
  · simp [Player.ncards, Player.handSize, length]
  · simp [Player.ncards, Player.handSize, length]

theorem LoopHead.deck (dealt : (⟨p1, p2, {}⟩ : Table).cards = ↑deck) (head : LoopHead may p1 p2 n t) :
    t.cards = ↑War.deck := by
  induction head with
  | start => exact dealt
  | next _ _ _ _ ret ih => exact (round_conserves ret).trans ih

/-- Every statement of a game from the deal on: no fault, and the deck at the end. -/
theorem wp_game : Prog.wp (.safe (env may)) (makePlayers s1 s2 >>= fun p => simulate p.1 p.2)
    fun t => t.cards = ↑deck := by
  rw [Prog.wp_bind]
  refine Prog.wp_safe_iff.2 ⟨fun p ret => ?_, (Prog.wp_safe_iff.1 (wp_makePlayers s1 s2)).2⟩
  obtain ⟨deckCards, half1, half2⟩ := deal_cards ret
  rw [simulate, assert_pos (half1.trans half2.symm), pure_bind]
  exact wp_rounds deckCards

end Rounds

/-- **Card conservation** over whole games, and the conservation law of a single
hand it rests on. -/
theorem cards_conserved (may : MayAnswer) :
    (∀ c1 c2 t w t', Prog.Returns (env may) (playHand c1 c2 t) (w, t') → t'.cards = t.cards + {c1, c2}) ∧
    ∀ s1 s2 p1 p2, Prog.Returns (env may) (makePlayers s1 s2) (p1, p2) →
      (∀ n t, LoopHead may p1 p2 n t → t.cards = ↑deck) ∧
      ∀ t, Prog.Returns (env may) (simulate p1 p2) t → t.cards = ↑deck := by
  constructor
  · intro c1 c2 t w t' ret
    exact (returns_playHand.1 ret).conserve
  · intro s1 s2 p1 p2 dealt
    constructor
    · intro n t head
      exact head.deck (deal_cards dealt).1
    · intro t ret
      exact (Prog.wp_safe_iff.1 wp_game).1 t (Prog.returns_bind.2 ⟨(p1, p2), dealt, ret⟩)

/-- **No assertion fails in a game.** The last three parts name what the assertions
of `decide_shuffle`, the two switches on the winner and the loop of `simulate` check. -/
theorem asserts_hold (may : MayAnswer) (s1 s2 : Strategy) :
    (∀ f, ¬ Prog.Faults (env may) (makePlayers s1 s2 >>= fun p => simulate p.1 p.2) f) ∧
    (∀ p1 p2 n q1 q2, Prog.Returns (env may) (decideShuffle p1 p2 n) (q1, q2) →
      (q1.handSize ≥ n ∨ q1.pile = []) ∧ (q2.handSize ≥ n ∨ q2.pile = []) ∧
      (0 < n → p1.ncards ≠ 0 → q1.handSize ≠ 0) ∧ (0 < n → p2.ncards ≠ 0 → q2.handSize ≠ 0)) ∧
    (∀ c1 c2 t w t', Prog.Returns (env may) (playHand c1 c2 t) (w, t') → w ≠ .kNone) ∧
    ∀ p1 p2, Prog.Returns (env may) (makePlayers s1 s2) (p1, p2) →
      ∀ n t, LoopHead may p1 p2 n t → t.p1.ncards + t.p2.ncards = kDeckSize := by
  refine ⟨(Prog.wp_safe_iff.1 wp_game).2, ?_, ?_, ?_⟩
  · intro p1 p2 n q1 q2 ret
    obtain ⟨ready1, ready2⟩ := decideShuffle_ready ret
    exact ⟨ready1.dealt, ready2.dealt, ready1.hand_pos, ready2.hand_pos⟩
  · intro c1 c2 t w t' ret
    exact (returns_playHand.1 ret).won
  · intro p1 p2 dealt n t head
    exact sizes_of_deck (head.deck (deal_cards dealt).1)

end Maskset.War
