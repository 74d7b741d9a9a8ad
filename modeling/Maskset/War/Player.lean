import Maskset.Logic.Prog
import Mathlib.Data.List.Perm.Basic

/-!
# Players, strategies and the environment of a game

`war-simulator.hpp` up to `decide_shuffle`. What a game does not decide itself
is a request: a `std::shuffle` (any permutation may come back), a `rand()` and
the value of an enrichment predicate, which the source computes in doubles.
Containers are lists, front first; a failed `assert` is a fault.
-/

namespace Maskset.War
set_option autoImplicit false

open Maskset.Logic

abbrev Card := Nat

def kMaxCard : Nat := 14
def kDeckSize : Nat := 52
def kMaxRounds : Nat := 100000

inductive PlayerEnum where
  | kOne
  | kTwo
  | kNone
deriving DecidableEq, Repr

/-- A winner is one of the two players. -/
theorem PlayerEnum.won_cases {motive : (w : PlayerEnum) → w ≠ .kNone → Prop}
    (kOne : motive .kOne PlayerEnum.noConfusion) (kTwo : motive .kTwo PlayerEnum.noConfusion) :
    ∀ w won, motive w won
  | .kOne, _ => kOne
  | .kTwo, _ => kTwo
  | .kNone, won => (won rfl).elim

/-- The `EnrichmentPolicy` arguments of `combine_strategy`. -/
inductive EnrichmentPolicy where
  | averageEnrichment
  | acesEnrichment
  | faceCardEnrichment
deriving DecidableEq, Repr

/-- The functions a `Strategy_fp_t` of the table points to. -/
inductive StrategyFp where
  | combineAndShuffleStrategy
  | alwaysShuffleStrategy
  | combineOnlyStrategy
  | combineStrategy (policy : EnrichmentPolicy) (shuffleWhenEnriched : Bool)
deriving DecidableEq, Repr

structure Strategy where
  id : Nat
  fp : StrategyFp
deriving DecidableEq, Repr

structure Player where
  hand : List Card
  strategy : Strategy
  pile : List Card := []
deriving DecidableEq, Repr

/-- The container a `shuffle_hand` is instantiated at: a hand is a deque; the
deck and the dumped cards of a war are vectors. -/
inductive Container where
  | deque
  | vector
deriving DecidableEq, Repr

inductive Request where
  | shuffle (c : Container) (v : List Card)
  | rand
  | enriched (policy : EnrichmentPolicy) (hand pile : List Card)

/-- A shuffle can only come back as a permutation of what it was given. -/
def Request.Answer : Request → Type
  | .shuffle _ v => {w : List Card // w.Perm v}
  | .rand => Nat
  | .enriched .. => Bool

inductive Fault where
  | assertion (what : String)
  | outOfFuel
deriving DecidableEq, Repr

abbrev requests : Signature := ⟨Request, Request.Answer⟩

abbrev Game (α : Type) := Prog requests Fault α

/-- The environments of a game: shuffles and coins are free, an enrichment
predicate answers within `may`. -/
def env (may : EnrichmentPolicy → List Card → List Card → Bool → Prop) : Env requests
  | .shuffle _ _, _ => True
  | .rand, _ => True
  | .enriched policy hand pile, b => may policy hand pile b

def assert (c : Prop) [Decidable c] (what : String) : Game Unit :=
  if c then pure () else .fault (.assertion what)

def shuffleHand (c : Container) (v : List Card) : Game (List Card) :=
  .ask (.shuffle c v) fun w => pure w.1

def rand : Game Nat := .ask .rand fun (n : Nat) => pure n

def enriched (policy : EnrichmentPolicy) (player : Player) : Game Bool :=
  .ask (.enriched policy player.hand player.pile) fun (b : Bool) => pure b

namespace Player

def handSize (p : Player) : Nat := p.hand.length

def ncards (p : Player) : Nat := p.handSize + p.pile.length

def draw (p : Player) : Game (Card × Player) := do
  assert (p.handSize ≠ 0) "hand_size()"
  pure (p.hand.headD 0, { p with hand := p.hand.tail })

def take (p : Player) (card : Card) : Player := { p with pile := p.pile ++ [card] }

def combinePile (p : Player) : Player := { p with hand := p.hand ++ p.pile, pile := [] }

def isValid (p : Player) : Bool :=
  (p.hand.all fun pt => pt > 1 && pt ≤ kMaxCard) && p.pile.all fun pt => pt > 1 && pt ≤ kMaxCard

/-- Every card the player owns, hand first. -/
def cards (p : Player) : List Card := p.hand ++ p.pile

end Player

/-! ## Strategies -/

def combineStrategy (policy : EnrichmentPolicy) (shuffleWhenEnriched : Bool) (player : Player)
    (ncards : Nat) : Game Player := do
  let enrichedHand ← enriched policy player
  let shuffle := if shuffleWhenEnriched then enrichedHand else !enrichedHand
  let combine := (player.handSize < ncards && !player.pile.isEmpty) || shuffle
  if combine then
    let player := player.combinePile
    if shuffle then
      let hand ← shuffleHand .deque player.hand
      pure { player with hand }
    else pure player
  else pure player

def combineOnlyStrategy (player : Player) (ncards : Nat) : Game Player :=
  let combine := player.handSize < ncards && player.pile.length != 0
  if combine then pure player.combinePile else pure player

def alwaysShuffleStrategy (player : Player) (_ncards : Nat) : Game Player := do
  let player := player.combinePile
  let hand ← shuffleHand .deque player.hand
  pure { player with hand }

def combineAndShuffleStrategy (player : Player) (ncards : Nat) : Game Player := do
  let player ← combineOnlyStrategy player ncards
  let hand ← shuffleHand .deque player.hand
  pure { player with hand }

/-- The call through the function pointer. -/
def StrategyFp.call : StrategyFp → Player → Nat → Game Player
  | .combineAndShuffleStrategy => War.combineAndShuffleStrategy
  | .alwaysShuffleStrategy => War.alwaysShuffleStrategy
  | .combineOnlyStrategy => War.combineOnlyStrategy
  | .combineStrategy policy shuffleWhenEnriched => War.combineStrategy policy shuffleWhenEnriched

def Strategy.call (s : Strategy) (player : Player) (n : Nat) : Game Player := s.fp.call player n

def strategies : List Strategy := [
  ⟨0, .combineAndShuffleStrategy⟩,
  ⟨1, .alwaysShuffleStrategy⟩,
  ⟨2, .combineOnlyStrategy⟩,
  ⟨3, .combineStrategy .averageEnrichment true⟩,
  ⟨4, .combineStrategy .averageEnrichment false⟩,
  ⟨5, .combineStrategy .acesEnrichment true⟩,
  ⟨6, .combineStrategy .acesEnrichment false⟩,
  ⟨7, .combineStrategy .faceCardEnrichment true⟩,
  ⟨8, .combineStrategy .faceCardEnrichment false⟩]

/-- The first statement of `decide_shuffle`: its "shuffle event". -/
def shuffleEvent (p1 p2 : Player) (ncards : Nat) : Game (Player × Player) :=
  if p1.handSize < ncards ∨ p2.handSize < ncards then do
    let p1 ← p1.strategy.call p1 ncards
    let p2 ← p2.strategy.call p2 ncards
    pure (p1, p2)
  else pure (p1, p2)

def decideShuffle (p1 p2 : Player) (ncards : Nat) : Game (Player × Player) := do
  let (p1, p2) ← shuffleEvent p1 p2 ncards
  assert (p1.handSize ≥ ncards ∨ p1.pile.length = 0) "p1.hand_size() >= ncards || p1.pile_.size() == 0"
  assert (p2.handSize ≥ ncards ∨ p2.pile.length = 0) "p2.hand_size() >= ncards || p2.pile_.size() == 0"
  pure (p1, p2)

/-! ## What the strategies guarantee -/

section Specs

variable {E : Env requests} {C : Contract requests Fault} {c : Prop} [Decidable c] {what : String}

@[simp] theorem returns_assert {u : Unit} : Prog.Returns E (assert c what) u ↔ c := by
  unfold assert
  split <;> simp [*]

@[simp] theorem wp_assert {Q : Unit → Prop} :
    Prog.wp (.safe E) (assert c what) Q ↔ c ∧ Q () := by
  unfold assert
  split <;> simp [*, Contract.safe]

theorem wp_assert_of {Q : Unit → Prop} (excused : C.fault (.assertion what)) (h : c → Q ()) :
    Prog.wp C (assert c what) Q := by
  unfold assert
  split
  · rename_i holds
    exact h holds
  · exact excused

/-- A program behind a check that may fail. -/
theorem wp_assert_seq {α : Type} {m : Unit → Game α} {Q : α → Prop} (excused : C.fault (.assertion what))
    (h : c → Prog.wp C (m ()) Q) : Prog.wp C (assert c what >>= m) Q :=
  Prog.wp_bind.2 (wp_assert_of excused h)

theorem assert_pos (h : c) : assert c what = pure () := if_pos h
theorem assert_neg (h : ¬ c) : assert c what = .fault (.assertion what) := if_neg h

theorem wp_shuffleHand {k : Container} {v : List Card} {Q : List Card → Prop}
    (h : ∀ w, w.Perm v → Q w) : Prog.wp (.safe E) (shuffleHand k v) Q :=
  ⟨trivial, fun w _ => h w.1 w.2⟩

namespace Player

variable (p : Player) (card : Card)

theorem draw_cons (hand pile : List Card) (s : Strategy) :
    draw ⟨card :: hand, s, pile⟩ = pure (card, ⟨hand, s, pile⟩) := by
  have some : (⟨card :: hand, s, pile⟩ : Player).handSize ≠ 0 := Nat.succ_ne_zero _
  rw [draw, assert_pos some]
  rfl

@[simp] theorem combinePile_hand : p.combinePile.hand = p.hand ++ p.pile := rfl
@[simp] theorem combinePile_pile : p.combinePile.pile = [] := rfl
theorem ncards_eq : p.ncards = p.cards.length := by
  simp [ncards, handSize, cards]

@[simp] theorem combinePile_cards : p.combinePile.cards = p.cards := by
  simp [cards]

end Player

/-- What `decide_shuffle` makes of a player: the same cards in some order, and
either `n` of them in hand or none left in the pile. -/
structure Ready (n : Nat) (p q : Player) : Prop where
  cards : q.cards.Perm p.cards
  strategy : q.strategy = p.strategy
  dealt : n ≤ q.handSize ∨ q.pile = []

theorem Ready.ncards {n : Nat} {p q : Player} (r : Ready n p q) : q.ncards = p.ncards := by
  rw [Player.ncards_eq, Player.ncards_eq, r.cards.length_eq]

/-- A player with any card has one in hand after a `decide_shuffle`. -/
theorem Ready.hand_pos {n : Nat} {p q : Player} (r : Ready n p q) (pos : 0 < n) (some : p.ncards ≠ 0) :
    q.handSize ≠ 0 := by
  have same := r.ncards
  rcases r.dealt with enough | empty
  · omega
  · simp only [Player.ncards, empty, List.length_nil] at same some
    omega

/-- Merging the pile into the hand and shuffling the hand makes a player ready. -/
theorem Ready.of_shuffled {n : Nat} {p : Player} {w : List Card} (h : w.Perm (p.hand ++ p.pile)) :
    Ready n p { p.combinePile with hand := w } :=
  ⟨by simpa [Player.cards] using h, rfl, .inr rfl⟩

theorem Ready.combinePile (n : Nat) (p : Player) : Ready n p p.combinePile :=
  .of_shuffled (.refl _)

theorem combineOnlyStrategy_ready (p : Player) (n : Nat) :
    ∃ q, combineOnlyStrategy p n = pure q ∧ (q = p ∨ q = p.combinePile) ∧ Ready n p q := by
  simp only [combineOnlyStrategy]
  split
  · exact ⟨_, rfl, .inr rfl, .combinePile n p⟩
  · rename_i keep
    simp only [Bool.and_eq_true, decide_eq_true_eq, bne_iff_ne, ne_eq, List.length_eq_zero_iff,
      not_and, not_not] at keep
    refine ⟨p, rfl, .inl rfl, .refl _, rfl, ?_⟩
    by_cases short : p.handSize < n
    · exact .inr (keep short)
    · exact .inl (by omega)

/-- Shuffling the hand of a ready player keeps it ready. -/
theorem Ready.shuffle_hand {n : Nat} {p q : Player} {w : List Card} (r : Ready n p q)
    (h : w.Perm q.hand) : Ready n p { q with hand := w } :=
  ⟨(h.append_right q.pile).trans r.cards, r.strategy, by simpa [Player.handSize, h.length_eq] using r.dealt⟩

/-- How a strategy ends: the player as it is or with its pile merged, and the hand left or shuffled. -/
inductive Arranged (n : Nat) (p : Player) : Game Player → Prop where
  | keep {q} (merged : q = p ∨ q = p.combinePile) (ready : Ready n p q) : Arranged n p (pure q)
  | shuffle {q} (merged : q = p ∨ q = p.combinePile) (ready : Ready n p q) :
      Arranged n p (shuffleHand .deque q.hand >>= fun hand => pure { q with hand })

/-- **What the nine strategies do**: some ask for their predicate, and all of them arrange the player. -/
theorem StrategyFp.call_cases (s : StrategyFp) (p : Player) (n : Nat) :
    (Arranged n p (s.call p n) ∧ ∀ policy whenEnriched, s ≠ .combineStrategy policy whenEnriched) ∨
      ∃ policy whenEnriched last, s = .combineStrategy policy whenEnriched ∧
        s.call p n = enriched policy p >>= last ∧ ∀ b, Arranged n p (last b) := by
  cases s with
  | combineAndShuffleStrategy =>
    obtain ⟨q, same, merged, ready⟩ := combineOnlyStrategy_ready p n
    refine .inl ⟨?_, fun _ _ => StrategyFp.noConfusion⟩
    change Arranged n p (War.combineOnlyStrategy p n >>= _)
    rw [same, pure_bind]
    exact .shuffle merged ready
  | alwaysShuffleStrategy =>
    exact .inl ⟨.shuffle (.inr rfl) (.combinePile n p), fun _ _ => StrategyFp.noConfusion⟩
  | combineOnlyStrategy =>
    obtain ⟨q, same, merged, ready⟩ := combineOnlyStrategy_ready p n
    refine .inl ⟨?_, fun _ _ => StrategyFp.noConfusion⟩
    change Arranged n p (War.combineOnlyStrategy p n)
    rw [same]
    exact .keep merged ready
  | combineStrategy policy whenEnriched =>
    refine .inr ⟨policy, whenEnriched, _, rfl, rfl, ?_⟩
    intro b
    generalize (if whenEnriched then b else !b) = shuffle
    dsimp only
    split
    · cases shuffle with
      | true => exact .shuffle (.inr rfl) (.combinePile n p)
      | false => exact .keep (.inr rfl) (.combinePile n p)
    · -- not merged: the hand is long enough or there is no pile
      rename_i keep
      simp only [Bool.or_eq_true, Bool.and_eq_true, decide_eq_true_eq, Bool.not_eq_true',
        List.isEmpty_eq_false_iff, not_or, not_and, not_not] at keep
      refine .keep (.inl rfl) ⟨.refl _, rfl, ?_⟩
      by_cases short : p.handSize < n
      · exact .inr (keep.1 short)
      · exact .inl (by omega)

theorem Arranged.wp {n : Nat} {p : Player} {m : Game Player} {Q : Player → Prop} (h : Arranged n p m)
    (shuffled : ∀ v, C.asked (.shuffle .deque v))
    (arranged : ∀ q w, (q = p ∨ q = p.combinePile) → Ready n p q → w.Perm q.hand → Q { q with hand := w }) :
    Prog.wp C m Q := by
  cases h with
  | keep merged ready => exact arranged _ _ merged ready (.refl _)
  | shuffle merged ready => exact ⟨shuffled _, fun w _ => arranged _ w.1 merged ready w.2⟩

/-- The rule of the strategies, within any contract. -/
theorem wp_strategy_of {n : Nat} {p : Player} {Q : Player → Prop} (s : StrategyFp)
    (shuffled : ∀ v, C.asked (.shuffle .deque v)) (asked : ∀ policy, C.asked (.enriched policy p.hand p.pile))
    (arranged : ∀ q w, (q = p ∨ q = p.combinePile) → Ready n p q → w.Perm q.hand → Q { q with hand := w }) :
    Prog.wp C (s.call p n) Q := by
  rcases s.call_cases p n with ⟨ends, -⟩ | ⟨policy, _, last, -, call, ends⟩
  · exact ends.wp shuffled arranged
  · rw [call]
    exact ⟨asked policy, fun b _ => (ends b).wp shuffled arranged⟩

/-- **One contract for all nine strategies.** -/
theorem wp_strategy (s : StrategyFp) (p : Player) (n : Nat) :
    Prog.wp (.safe E) (s.call p n) (Ready n p) :=
  wp_strategy_of s (fun _ => trivial) (fun _ => trivial) fun _ _ _ ready perm => ready.shuffle_hand perm

theorem wp_shuffleEvent (p1 p2 : Player) (n : Nat) :
    Prog.wp (.safe E) (shuffleEvent p1 p2 n) fun q => Ready n p1 q.1 ∧ Ready n p2 q.2 := by
  unfold shuffleEvent
  split
  · apply Prog.wp_seq (wp_strategy _ p1 n)
    intro q1 ready1
    apply Prog.wp_seq (wp_strategy _ p2 n)
    intro q2 ready2
    exact ⟨ready1, ready2⟩
  · rename_i enough
    simp only [not_or, Nat.not_lt] at enough
    exact ⟨⟨.refl _, rfl, .inl enough.1⟩, ⟨.refl _, rfl, .inl enough.2⟩⟩

/-- **`decide_shuffle`** keeps its two assertions and makes both players ready. -/
theorem wp_decideShuffle (p1 p2 : Player) (n : Nat) :
    Prog.wp (.safe E) (decideShuffle p1 p2 n) fun q => Ready n p1 q.1 ∧ Ready n p2 q.2 := by
  apply Prog.wp_seq (wp_shuffleEvent p1 p2 n)
  rintro ⟨q1, q2⟩ ⟨ready1, ready2⟩
  simp only [Prog.wp_bind, wp_assert, List.length_eq_zero_iff]
  exact ⟨ready1.dealt, ready2.dealt, ready1, ready2⟩

theorem decideShuffle_ready {p1 p2 : Player} {n : Nat} {q : Player × Player}
    (ret : Prog.Returns E (decideShuffle p1 p2 n) q) : Ready n p1 q.1 ∧ Ready n p2 q.2 :=
  (Prog.wp_safe_iff.1 (wp_decideShuffle p1 p2 n)).1 q ret

/-- The calls of `decide_shuffle` on the two players do not depend on each other. -/
theorem returns_shuffleEvent {p1 p2 q1 q2 : Player} {n : Nat} :
    Prog.Returns E (shuffleEvent p1 p2 n) (q1, q2) ↔
      if p1.handSize < n ∨ p2.handSize < n then
        Prog.Returns E (p1.strategy.call p1 n) q1 ∧ Prog.Returns E (p2.strategy.call p2 n) q2
      else p1 = q1 ∧ p2 = q2 := by
  unfold shuffleEvent
  split
  · simp only [Prog.returns_bind, Prog.returns_pure, Prod.mk.injEq]
    constructor
    · rintro ⟨a, first, b, second, rfl, rfl⟩
      exact ⟨first, second⟩
    · rintro ⟨first, second⟩
      exact ⟨q1, first, q2, second, rfl, rfl⟩
  · simp

theorem returns_decideShuffle {p1 p2 q1 q2 : Player} {n : Nat} :
    Prog.Returns E (decideShuffle p1 p2 n) (q1, q2) ↔ Prog.Returns E (shuffleEvent p1 p2 n) (q1, q2) := by
  constructor
  · intro ret
    obtain ⟨⟨a, b⟩, event, ret⟩ := Prog.returns_bind.1 ret
    obtain ⟨-, -, ret⟩ := Prog.returns_bind.1 ret
    obtain ⟨-, -, ret⟩ := Prog.returns_bind.1 ret
    exact Prog.returns_pure.1 ret ▸ event
  · intro event
    have ready := (Prog.wp_safe_iff.1 (wp_shuffleEvent p1 p2 n)).1 _ event
    refine Prog.returns_bind.2 ⟨_, event, ?_⟩
    refine Prog.returns_bind.2 ⟨(), returns_assert.2 (by simpa using ready.1.dealt), ?_⟩
    exact Prog.returns_bind.2 ⟨(), returns_assert.2 (by simpa using ready.2.dealt), rfl⟩

end Specs

end Maskset.War
