import Maskset.War.Requests
import Maskset.War.Verdict
import Mathlib.Data.Rat.Defs

/-!
# Are the enrichment ratios defined?

The three `EnrichmentPolicy` classes in exact arithmetic. `AverageEnrichment` has a value for
an empty hand or pile; the other two divide by the sizes of both. A strategy is also called
because the other player is short, and with its own hand spent: `asked_defined_iff` says in
which games its ratios are defined, and from `spentTable` on they are not.
-/

namespace Maskset.War
set_option autoImplicit false

open Maskset.Logic

/-! ## The policies -/

/-- `a / b`; `none` for a division by zero. -/
def quotient (a b : Nat) : Option Rat := if b = 0 then none else some (a / b)

def average (arr : List Card) : Rat := if arr.isEmpty then 0 else arr.sum / arr.length

def countCardType (arr types : List Card) : Nat := (arr.map fun pt => types.countP fun item => pt = item).sum

def averageEnrichment (hand pile : List Card) : Option Bool := some (average hand > average pile)

/-- The body that the two classes share. -/
def cardTypeEnrichment (types hand pile : List Card) : Option Bool := do
  let nhand := countCardType hand types
  let npile := countCardType pile types
  let handRatio ← quotient nhand hand.length
  let pileRatio ← quotient npile pile.length
  pure (handRatio > pileRatio)

def acesEnrichment : List Card → List Card → Option Bool := cardTypeEnrichment [kMaxCard]

def faceCardEnrichment : List Card → List Card → Option Bool :=
  cardTypeEnrichment [kMaxCard, kMaxCard - 1, kMaxCard - 2, kMaxCard - 3]

/-- `EnrichmentPolicy::enriched`; `none` if a divisor is zero. -/
def EnrichmentPolicy.enriched : EnrichmentPolicy → List Card → List Card → Option Bool
  | .averageEnrichment => War.averageEnrichment
  | .acesEnrichment => War.acesEnrichment
  | .faceCardEnrichment => War.faceCardEnrichment

/-- A predicate is only asked where it has a value. -/
def Request.Defined : Request → Prop
  | .enriched policy hand pile => (policy.enriched hand pile).isSome
  | _ => True

/-- The strategies 5 to 8. -/
def StrategyFp.usesRatio : StrategyFp → Bool
  | .combineStrategy .acesEnrichment _ => true
  | .combineStrategy .faceCardEnrichment _ => true
  | _ => false

theorem usesRatio_iff : ∀ s ∈ strategies, s.fp.usesRatio = true ↔ 5 ≤ s.id := by decide

section Policies

variable {n : Nat} {types hand pile : List Card} {policy : EnrichmentPolicy}

theorem quotient_length {arr : List Card} : (quotient n arr.length).isSome ↔ arr ≠ [] := by
  unfold quotient
  split
  · rename_i zero
    exact iff_of_false Bool.false_ne_true fun some => some (List.length_eq_zero_iff.1 zero)
  · rename_i pos
    exact iff_of_true rfl fun empty => pos (List.length_eq_zero_iff.2 empty)

theorem cardTypeEnrichment_isSome : (cardTypeEnrichment types hand pile).isSome ↔ hand ≠ [] ∧ pile ≠ [] := by
  rw [← @quotient_length (countCardType hand types) hand, ← @quotient_length (countCardType pile types) pile]
  simp only [cardTypeEnrichment]
  generalize quotient (countCardType hand types) hand.length = handRatio
  generalize quotient (countCardType pile types) pile.length = pileRatio
  cases handRatio with
  | none => simp
  | some r => cases pileRatio with
    | none => simp
    | some r => simp

/-- Only the average has a value for an empty hand or pile. -/
theorem enriched_isSome :
    (policy.enriched hand pile).isSome ↔ policy = .averageEnrichment ∨ hand ≠ [] ∧ pile ≠ [] := by
  cases policy with
  | averageEnrichment => exact iff_of_true rfl (.inl rfl)
  | acesEnrichment => exact cardTypeEnrichment_isSome.trans (or_iff_right (by decide)).symm
  | faceCardEnrichment => exact cardTypeEnrichment_isSome.trans (or_iff_right (by decide)).symm

/-- A strategy that consults any other policy is one of the four. -/
theorem usesRatio_iff_policy {whenEnriched : Bool} :
    (StrategyFp.combineStrategy policy whenEnriched).usesRatio = true ↔ policy ≠ .averageEnrichment := by
  cases policy <;> simp [StrategyFp.usesRatio]

end Policies

/-! ## The games in which they are -/

/-- The player that is called has a card in hand, and with an empty pile nobody is short of `n`. -/
structure Player.Supplied (p other : Player) (n : Nat) : Prop where
  hand : p.hand ≠ []
  pile : p.pile = [] → n ≤ p.handSize ∧ n ≤ other.handSize

/-- The players of strategies 5 to 8 are supplied in every round and in every war. -/
def AllSupplied {σ : Type} (o : Oracle σ) (p1 p2 : Player) (s : σ) : Prop :=
  ∀ w1 w2 n, Shuffles o p1 p2 s w1 w2 n →
    (w1.strategy.fp.usesRatio = true → w1.Supplied w2 n) ∧ (w2.strategy.fp.usesRatio = true → w2.Supplied w1 n)

section Games

variable {σ : Type} {o : Oracle σ} {p1 p2 p other : Player} {s : σ} {n : Nat} {policy : EnrichmentPolicy}
  {hand pile : List Card}

/-- A strategy of the four consults its ratios on the player. -/
theorem Player.consults_of_usesRatio (uses : p.strategy.fp.usesRatio = true) :
    ∃ policy, p.Consults policy p.hand p.pile ∧ policy ≠ .averageEnrichment := by
  obtain ⟨cards, ⟨id, fp⟩, pile⟩ := p
  cases fp with
  | combineStrategy policy whenEnriched => exact ⟨policy, ⟨⟨whenEnriched, rfl⟩, rfl, rfl⟩, usesRatio_iff_policy.1 uses⟩
  | combineAndShuffleStrategy => cases uses
  | alwaysShuffleStrategy => cases uses
  | combineOnlyStrategy => cases uses

theorem Player.Supplied.of_cards (pos : 0 < n)
    (cards : p.handSize < n ∨ other.handSize < n → p.hand ≠ [] ∧ p.pile ≠ []) : p.Supplied other n := by
  by_cases short : p.handSize < n ∨ other.handSize < n
  · obtain ⟨hand, pile⟩ := cards short
    exact ⟨hand, fun empty => absurd empty pile⟩
  · have enough : n ≤ p.handSize ∧ n ≤ other.handSize := by omega
    exact ⟨List.ne_nil_of_length_pos (Nat.lt_of_lt_of_le pos enough.1), fun _ => enough⟩

theorem Player.Supplied.cards (supplied : p.Supplied other n) (short : p.handSize < n ∨ other.handSize < n) :
    p.hand ≠ [] ∧ p.pile ≠ [] := by
  refine ⟨supplied.hand, ?_⟩
  intro empty
  have enough := supplied.pile empty
  omega

theorem Shuffles.pos {w1 w2 : Player} (shuffles : Shuffles o p1 p2 s w1 w2 n) : 0 < n := by
  cases shuffles with
  | round => exact Nat.one_pos
  | war => exact Nat.succ_pos 3

/-- **One game**: its predicates have a value where they are asked exactly when the players are
supplied. -/
theorem simulate_defined_iff :
    (∀ q ∈ Prog.asked o (simulate p1 p2) s, q.Defined) ↔ AllSupplied o p1 p2 s := by
  constructor
  · intro defined w1 w2 n shuffles
    have cards {p : Player} (uses : p.strategy.fp.usesRatio = true) (mine : p = w1 ∨ p = w2)
        (short : w1.handSize < n ∨ w2.handSize < n) : p.hand ≠ [] ∧ p.pile ≠ [] := by
      obtain ⟨policy, consults, other⟩ := Player.consults_of_usesRatio uses
      have both : w1.Consults policy p.hand p.pile ∨ w2.Consults policy p.hand p.pile := by
        rcases mine with rfl | rfl
        · exact .inl consults
        · exact .inr consults
      have asked := defined _ (enriched_asked_simulate.2 ⟨w1, w2, n, shuffles, short, both⟩)
      exact (enriched_isSome.1 asked).resolve_left other
    constructor
    · intro uses
      exact .of_cards shuffles.pos fun short => cards uses (.inl rfl) short
    · intro uses
      exact .of_cards shuffles.pos fun short => cards uses (.inr rfl) short.symm
  · intro supplied q asked
    cases q with
    | shuffle => trivial
    | rand => trivial
    | enriched policy hand pile =>
      obtain ⟨w1, w2, n, shuffles, short, consults⟩ := enriched_asked_simulate.1 asked
      refine enriched_isSome.2 (or_iff_not_imp_left.2 ?_)
      intro other
      rcases consults with ⟨⟨b, strategy⟩, rfl, rfl⟩ | ⟨⟨b, strategy⟩, rfl, rfl⟩
      · exact ((supplied w1 w2 n shuffles).1 (strategy ▸ usesRatio_iff_policy.2 other)).cards short
      · exact ((supplied w1 w2 n shuffles).2 (strategy ▸ usesRatio_iff_policy.2 other)).cards short.symm

theorem not_asked_makePlayers {s1 s2 : Strategy} :
    .enriched policy hand pile ∉ Prog.asked o (makePlayers s1 s2) s := by
  rw [makePlayers_eq]
  exact not_asked_of_quiet ⟨rfl, fun _ _ => trivial⟩

end Games

/-- **When the ratios are defined**: in every run from the deal, exactly when the players of strategies
5 to 8 are supplied in each of its rounds and wars. -/
theorem asked_defined_iff {σ : Type} (o : Oracle σ) (s1 s2 : Strategy) (s : σ) :
    ∃ p1 p2 s', Prog.run o (makePlayers s1 s2) s = (.ok (p1, p2), s') ∧
      ((∀ q ∈ Prog.asked o (makePlayers s1 s2 >>= fun p => simulate p.1 p.2) s, q.Defined) ↔
        AllSupplied o p1 p2 s') := by
  obtain ⟨⟨p1, p2⟩, s', dealt, -⟩ := Prog.run_of_safe (o := o) (wp_makePlayers s1 s2) s
  refine ⟨p1, p2, s', dealt, ?_⟩
  rw [← simulate_defined_iff]
  constructor
  · intro defined q asked
    exact defined q (Prog.mem_asked_bind.2 (.inr ⟨_, s', dealt, asked⟩))
  · intro defined q asked
    rcases Prog.mem_asked_bind.1 asked with deal | ⟨p, s'', dealt', game⟩
    · cases q with
      | shuffle => trivial
      | rand => trivial
      | enriched => exact absurd deal not_asked_makePlayers
    · rw [dealt] at dealt'
      cases dealt'
      exact defined q game

/-! ## A game in which they are -/

section Supplied

instance : DecidablePred Request.Defined
  | .enriched policy hand pile => inferInstanceAs (Decidable ((policy.enriched hand pile).isSome = true))
  | .shuffle .. => isTrue trivial
  | .rand => isTrue trivial

def onAces : Strategy := ⟨5, .combineStrategy .acesEnrichment true⟩
def onFaces : Strategy := ⟨8, .combineStrategy .faceCardEnrichment false⟩

/-- The contest, with the predicates as their policies have them. -/
def supplied : Oracle Unit := unshuffled contest fun policy hand pile => (policy.enriched hand pile).getD false

/-- Both players of the contest consult their ratios, and the ratios are defined. -/
theorem asked_defined_iff_contest :
    ∃ p1 p2 s', Prog.run supplied (makePlayers onAces onFaces) () = (.ok (p1, p2), s') ∧
      AllSupplied supplied p1 p2 s' ∧
      (Prog.asked supplied (makePlayers onAces onFaces >>= fun p => simulate p.1 p.2) ()).countP
        Request.isEnriched = 2 := by
  obtain ⟨p1, p2, s', dealt, defined⟩ := asked_defined_iff supplied onAces onFaces ()
  exact ⟨p1, p2, s', dealt, defined.1 (by decide +kernel), by decide +kernel⟩

end Supplied

/-! ## A game in which they are not -/

section Spent

/-- Both players after 26 rounds without a war. -/
def spentTable (s1 s2 : Strategy) : Table :=
  ⟨⟨[], s1, climbPile⟩, ⟨[], s2, [2, 14]⟩, { nhands := 26 }⟩

theorem spent_head (may : MayAnswer) (s1 s2 : Strategy) :
    ∃ p1 p2, Prog.Returns (env may) (makePlayers s1 s2) (p1, p2) ∧ LoopHead may p1 p2 26 (spentTable s1 s2) := by
  have dealt : Prog.Returns (env may) (makePlayers s1 s2)
      (⟨climbPairs.map (·.1) ++ [2], s1, []⟩, ⟨climbPairs.map (·.2) ++ [14], s2, []⟩) :=
    makePlayers_returns (d := longP1.hand ++ longP2.hand) (by decide)
  have onTable := (deal_cards dealt).1
  have start : LoopHead may _ _ 0 ⟨⟨climbPairs.map (·.1) ++ [2], s1, []⟩, ⟨climbPairs.map (·.2) ++ [14], s2, []⟩, {}⟩ :=
    .start rfl
  have climbed := start.climb onTable climbPairs (by decide) (by decide)
  have last := climbed.round onTable (by decide) (decideShuffle_idle _ _ _ _) rfl rfl
    (.decided (by decide) (by decide) (winnerOf_of_lt (by decide)) (by decide) (.inl rfl))
  exact ⟨_, _, dealt, last⟩

/-- No ratio of theirs is defined when the next round begins. -/
theorem spent_unsupplied {σ : Type} {o : Oracle σ} {p1 p2 : Player} {s0 s : σ} {s1 s2 : Strategy}
    (reached : Reaches o p1 p2 s0 26 (spentTable s1 s2) s)
    (uses : s1.fp.usesRatio = true ∨ s2.fp.usesRatio = true) : ¬ AllSupplied o p1 p2 s0 := by
  intro supplied
  have begins : Begins o p1 p2 s0 (spentTable s1 s2) s :=
    ⟨reached, (by decide), Nat.succ_ne_zero 49, Nat.succ_ne_zero 1, rfl⟩
  obtain ⟨first, second⟩ := supplied _ _ _ (.round begins)
  rcases uses with uses | uses
  · exact (first uses).hand rfl
  · exact (second uses).hand rfl

theorem spent_undefined (s1 s2 : Strategy) (uses : s1.fp.usesRatio = true ∨ s2.fp.usesRatio = true) :
    ∃ (σ : Type) (o : Oracle σ) (s : σ),
      ∃ q ∈ Prog.asked o (makePlayers s1 s2 >>= fun p => simulate p.1 p.2) s, ¬ q.Defined := by
  obtain ⟨p1, p2, dealt, head⟩ := spent_head (fun _ _ _ _ => True) s1 s2
  obtain ⟨deal, dealt⟩ := Prog.run_scripted idle dealt
  obtain ⟨script, reached⟩ := head.reaches
  have unsupplied := spent_unsupplied (reached []) uses
  rw [← simulate_defined_iff] at unsupplied
  obtain ⟨q, no⟩ := not_forall.1 unsupplied
  obtain ⟨asked, no⟩ := Classical.not_imp.1 no
  exact ⟨_, Prog.scripted idle, deal ++ (script ++ []), q, Prog.mem_asked_bind.2 (.inr ⟨_, _, dealt _, asked⟩), no⟩

end Spent

/-- For every pair of strategies with one of 5 to 8 there is a game in which a ratio is not defined. -/
theorem ratios_undefined :
    (∀ s1 ∈ strategies, ∀ s2 ∈ strategies, 5 ≤ s1.id ∨ 5 ≤ s2.id → ∃ (σ : Type) (o : Oracle σ) (s : σ),
      ∃ q ∈ Prog.asked o (makePlayers s1 s2 >>= fun p => simulate p.1 p.2) s, ¬ q.Defined) ∧
    ¬ ∀ s1 ∈ strategies, ∀ s2 ∈ strategies, 5 ≤ s1.id ∨ 5 ≤ s2.id → ∀ (σ : Type) (o : Oracle σ) (s : σ),
      ∀ q ∈ Prog.asked o (makePlayers s1 s2 >>= fun p => simulate p.1 p.2) s, q.Defined := by
  constructor
  · intro s1 known1 s2 known2 four
    exact spent_undefined s1 s2 (four.imp (usesRatio_iff s1 known1).2 (usesRatio_iff s2 known2).2)
  · intro defined
    have aces : (⟨5, .combineStrategy .acesEnrichment true⟩ : Strategy) ∈ strategies := by decide
    obtain ⟨σ, o, s, q, asked, no⟩ := spent_undefined ⟨5, .combineStrategy .acesEnrichment true⟩ always (.inl rfl)
    exact no (defined _ aces always (by decide) (.inl (Nat.le_refl 5)) σ o s q asked)

end Maskset.War
