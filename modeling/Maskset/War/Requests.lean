import Maskset.War.Simulate

/-!
# What a run asks the enrichment predicates

One run of a game: an oracle answers every request from its own state. `decide_shuffle` is
called where a round begins and where a war is entered; `Shuffles` are the players it finds
there, and `enriched_asked_simulate` says that the enrichment predicates are consulted in
these calls and nowhere else.
-/

namespace Maskset.War
set_option autoImplicit false

open Maskset.Logic

/-- One way the random choices and the predicates can come out. -/
abbrev Oracle (σ : Type) := σ → (q : Request) → Request.Answer q × σ

def Request.isEnriched : Request → Bool
  | .enriched .. => true
  | _ => false

/-- Everything but an enrichment predicate may be asked. -/
def quiet : Contract requests Fault := ⟨.any, fun q => q.isEnriched = false, fun _ => True⟩

/-- The strategy of the player asks for the predicate on its cards. -/
structure Player.Consults (p : Player) (policy : EnrichmentPolicy) (hand pile : List Card) : Prop where
  strategy : ∃ whenEnriched, p.strategy.fp = .combineStrategy policy whenEnriched
  hand : hand = p.hand
  pile : pile = p.pile

section Strategies

variable {σ : Type} {o : Oracle σ} {s : σ} {policy : EnrichmentPolicy} {hand pile : List Card} {α : Type} {c : Prop}
  [Decidable c] {what : String} {q : Request}

theorem not_asked_of_quiet {m : Game α} (still : Prog.wp quiet m fun _ => True) :
    .enriched policy hand pile ∉ Prog.asked o m s := by
  intro asked
  have allowed : ∀ s q, quiet.allow q (o s q).1 := fun _ _ => trivial
  have none := (Prog.wp_iff.1 still).2.2 _ (Prog.asks_of_asked allowed asked)
  cases none

theorem asked_assert_seq {m : Unit → Game α} :
    q ∈ Prog.asked o (assert c what >>= m) s ↔ c ∧ q ∈ Prog.asked o (m ()) s := by
  by_cases h : c
  · rw [assert_pos h, pure_bind]
    exact (and_iff_right h).symm
  · rw [assert_neg h]
    exact iff_of_false List.not_mem_nil fun both => h both.1

/-- A strategy consults its predicate on the player as it is called. -/
theorem enriched_asked_strategy (p : Player) (n : Nat) :
    .enriched policy hand pile ∈ Prog.asked o (p.strategy.call p n) s ↔ p.Consults policy hand pile := by
  have still {m : Game Player} {s : σ} (ends : Arranged n p m) : .enriched policy hand pile ∉ Prog.asked o m s :=
    not_asked_of_quiet (ends.wp (fun _ => rfl) fun _ _ _ _ _ => trivial)
  rw [Strategy.call]
  rcases p.strategy.fp.call_cases p n with ⟨ends, other⟩ | ⟨policy', whenEnriched, last, fp, call, ends⟩
  · refine iff_of_false (still ends) ?_
    rintro ⟨⟨_, fp⟩, -, -⟩
    exact other _ _ fp
  · rw [call, Prog.mem_asked_bind, or_iff_left]
    · have only : Prog.asked o (enriched policy' p) s = [.enriched policy' p.hand p.pile] := rfl
      rw [only, List.mem_singleton]
      constructor
      · intro same
        cases same
        exact ⟨⟨whenEnriched, fp⟩, rfl, rfl⟩
      · rintro ⟨⟨_, same⟩, rfl, rfl⟩
        cases fp.symm.trans same
        rfl
    · rintro ⟨b, s', -, asked⟩
      exact still (ends b) asked

/-- **`decide_shuffle`** consults the predicates of both players if one of them is short. -/
theorem enriched_asked_decideShuffle {p1 p2 : Player} {n : Nat} :
    .enriched policy hand pile ∈ Prog.asked o (decideShuffle p1 p2 n) s ↔
      (p1.handSize < n ∨ p2.handSize < n) ∧ (p1.Consults policy hand pile ∨ p2.Consults policy hand pile) := by
  have event : .enriched policy hand pile ∈ Prog.asked o (decideShuffle p1 p2 n) s ↔
      .enriched policy hand pile ∈ Prog.asked o (shuffleEvent p1 p2 n) s := by
    rw [decideShuffle, Prog.mem_asked_bind, or_iff_left]
    rintro ⟨⟨q1, q2⟩, s', -, asked⟩
    exact absurd (asked_assert_seq.1 (asked_assert_seq.1 asked).2).2 List.not_mem_nil
  rw [event, shuffleEvent]
  by_cases short : p1.handSize < n ∨ p2.handSize < n
  · rw [if_pos short, and_iff_right short, Prog.mem_asked_bind, enriched_asked_strategy]
    apply or_congr_right
    obtain ⟨q1, s', first, -⟩ := Prog.run_of_safe (o := o) (wp_strategy p1.strategy.fp p1 n) s
    constructor
    · rintro ⟨q1, s', -, asked⟩
      rcases Prog.mem_asked_bind.1 asked with second | ⟨q2, s'', -, done⟩
      · exact (enriched_asked_strategy p2 n).1 second
      · exact absurd done List.not_mem_nil
    · intro consults
      exact ⟨q1, s', first, Prog.mem_asked_bind.2 (.inl ((enriched_asked_strategy p2 n).2 consults))⟩
  · rw [if_neg short]
    exact iff_of_false List.not_mem_nil fun both => short both.1

end Strategies

/-! ## Hands -/

section Hands

variable {σ : Type} (o : Oracle σ)

/-- In the run from `s` the hand enters a war, its own or a nested one, with these players. -/
inductive EntersWar : Card → Card → Table → σ → Player → Player → Prop where
  | here {c t s} (pos : 0 < c) (in1 : t.p1.ncards ≠ 0) (in2 : t.p2.ncards ≠ 0) : EntersWar c c t s t.p1 t.p2
  | nested {c t s q1 q2 s' p1 p2} (pos : 0 < c) (in1 : t.p1.ncards ≠ 0) (in2 : t.p2.ncards ≠ 0)
      (ready : Prog.run o (decideShuffle t.p1 t.p2 kWarSize) s = (.ok (q1, q2), s')) (valid1 : q1.StakesValid)
      (valid2 : q2.StakesValid)
      (inner : EntersWar q1.warHand.flip q2.warHand.flip ⟨q1.staked, q2.staked, t.countHand.result⟩ s' p1 p2) :
      EntersWar c c t s p1 p2

variable {o} {n : Nat} {s s' : σ} {policy : EnrichmentPolicy} {hand pile : List Card} {c c1 c2 : Card} {t : Table}
  {p1 p2 w1 w2 : Player} {w : PlayerEnum} {play : Card → Card → Table → Game (PlayerEnum × Table)}

theorem not_asked_settle : .enriched policy hand pile ∉ Prog.asked o (settle w c1 c2 t) s := by
  apply not_asked_of_quiet
  refine ⟨rfl, ?_⟩
  intro r _
  cases w with
  | kOne => trivial
  | kTwo => trivial
  | kNone => trivial

theorem not_asked_divide {wh1 wh2 : WarHand} : .enriched policy hand pile ∉ Prog.asked o (divide w wh1 wh2 t) s := by
  apply not_asked_of_quiet
  unfold divide
  rw [pushDump_eq]
  split
  · rw [pure_bind, pushDump_eq]
    split
    · rw [pure_bind]
      refine ⟨rfl, ?_⟩
      intro cards _
      cases w with
      | kOne => trivial
      | kTwo => trivial
      | kNone => trivial
    · trivial
  · trivial

theorem run_decideShuffle_ready (ready : Prog.run o (decideShuffle p1 p2 n) s = (.ok (w1, w2), s')) :
    Ready n p1 w1 ∧ Ready n p2 w2 :=
  decideShuffle_ready (Prog.run_returns (E := .any) (fun _ _ => trivial) (congrArg Prod.fst ready))

/-- A war asks in its own `decide_shuffle` and in the hand below it. -/
theorem enriched_asked_war (pos : 0 < c) (in1 : t.p1.ncards ≠ 0) (in2 : t.p2.ncards ≠ 0) :
    .enriched policy hand pile ∈ Prog.asked o (war play c c t.countHand) s ↔
      .enriched policy hand pile ∈ Prog.asked o (decideShuffle t.p1 t.p2 kWarSize) s ∨
        ∃ q1 q2 s', Prog.run o (decideShuffle t.p1 t.p2 kWarSize) s = (.ok (q1, q2), s') ∧ q1.StakesValid ∧
          q2.StakesValid ∧ .enriched policy hand pile ∈ Prog.asked o
            (play q1.warHand.flip q2.warHand.flip ⟨q1.staked, q2.staked, t.countHand.result⟩) s' := by
  have ne : c ≠ 0 := Nat.ne_of_gt pos
  unfold war
  rw [assert_pos ne, pure_bind, assert_pos ne, pure_bind, if_neg (show ¬ t.countHand.p1.ncards = 0 from in1),
    if_neg (show ¬ t.countHand.p2.ncards = 0 from in2), Prog.mem_asked_bind]
  apply or_congr_right
  constructor
  · rintro ⟨⟨q1, q2⟩, s', ready, asked⟩
    simp only [WarHand.ofPlayer_eq] at asked
    split at asked
    · rename_i valid1
      rw [pure_bind] at asked
      split at asked
      · rename_i valid2
        rw [pure_bind] at asked
        have asked := (asked_assert_seq.1 (asked_assert_seq.1 asked).2).2
        rcases Prog.mem_asked_bind.1 asked with below | ⟨⟨w, u⟩, s1, -, spoils⟩
        · exact ⟨q1, q2, s', ready, valid1, valid2, below⟩
        · rcases Prog.mem_asked_bind.1 spoils with divided | ⟨u', s2, -, settled⟩
          · exact absurd divided not_asked_divide
          · exact absurd settled not_asked_settle
      · exact absurd asked List.not_mem_nil
    · exact absurd asked List.not_mem_nil
  · rintro ⟨q1, q2, s', ready, valid1, valid2, below⟩
    obtain ⟨ready1, ready2⟩ := run_decideShuffle_ready ready
    have flip1 := valid1.flip_pos (ready1.hand_stake in1)
    have flip2 := valid2.flip_pos (ready2.hand_stake in2)
    refine ⟨(q1, q2), s', ready, ?_⟩
    simp only [WarHand.ofPlayer_eq, if_pos valid1, if_pos valid2, pure_bind, assert_pos flip1, assert_pos flip2]
    exact Prog.mem_asked_bind.2 (.inl below)

/-- A hand that asks has entered a war that does. -/
theorem EntersWar.of_asked (n : Nat) (fewer : t.p1.ncards < n)
    (asked : .enriched policy hand pile ∈ Prog.asked o (playHand c1 c2 t) s) :
    ∃ p1 p2 s', EntersWar o c1 c2 t s p1 p2 ∧
      .enriched policy hand pile ∈ Prog.asked o (decideShuffle p1 p2 kWarSize) s' := by
  induction n generalizing c1 c2 t s with
  | zero => omega
  | succ n ih =>
    rw [playHand_eq, playHandBody] at asked
    obtain ⟨pos1, asked⟩ := asked_assert_seq.1 asked
    obtain ⟨pos2, asked⟩ := asked_assert_seq.1 asked
    rw [← playHandBody_branches] at asked
    split at asked
    · rename_i tie
      obtain rfl := winnerOf_eq_kNone.1 tie
      by_cases out1 : t.p1.ncards = 0
      · rw [war_out1 pos1 out1] at asked
        exact absurd asked List.not_mem_nil
      by_cases out2 : t.p2.ncards = 0
      · rw [war_out2 pos1 out1 out2] at asked
        exact absurd asked List.not_mem_nil
      rcases (enriched_asked_war pos1 out1 out2).1 asked with here | ⟨q1, q2, s', ready, valid1, valid2, below⟩
      · exact ⟨_, _, s, .here pos1 out1 out2, here⟩
      · have less : q1.staked.ncards < t.p1.ncards := (run_decideShuffle_ready ready).1.staked_lt out1
        obtain ⟨p1, p2, s1, enters, asked⟩ := ih (by simp only; omega) below
        exact ⟨p1, p2, s1, .nested pos1 out1 out2 ready valid1 valid2 enters, asked⟩
    · exact absurd asked not_asked_settle

/-- Every war that a hand enters asks what its `decide_shuffle` asks. -/
theorem EntersWar.asked (enters : EntersWar o c1 c2 t s p1 p2)
    (short : p1.handSize < kWarSize ∨ p2.handSize < kWarSize)
    (consults : p1.Consults policy hand pile ∨ p2.Consults policy hand pile) :
    .enriched policy hand pile ∈ Prog.asked o (playHand c1 c2 t) s := by
  induction enters with
  | here pos in1 in2 =>
    rw [playHand_eq, playHandBody_eq pos pos, if_pos (winnerOf_eq_kNone.2 rfl), enriched_asked_war pos in1 in2]
    exact .inl (enriched_asked_decideShuffle.2 ⟨short, consults⟩)
  | nested pos in1 in2 ready valid1 valid2 inner ih =>
    rw [playHand_eq, playHandBody_eq pos pos, if_pos (winnerOf_eq_kNone.2 rfl), enriched_asked_war pos in1 in2]
    exact .inr ⟨_, _, _, ready, valid1, valid2, ih short consults⟩

/-- **A hand** consults the predicates in the wars it enters. -/
theorem enriched_asked_playHand : .enriched policy hand pile ∈ Prog.asked o (playHand c1 c2 t) s ↔
    ∃ p1 p2, EntersWar o c1 c2 t s p1 p2 ∧ (p1.handSize < kWarSize ∨ p2.handSize < kWarSize) ∧
      (p1.Consults policy hand pile ∨ p2.Consults policy hand pile) := by
  constructor
  · intro asked
    obtain ⟨p1, p2, s', enters, asked⟩ := EntersWar.of_asked _ (Nat.lt_succ_self _) asked
    exact ⟨p1, p2, enters, enriched_asked_decideShuffle.1 asked⟩
  · rintro ⟨p1, p2, enters, short, consults⟩
    exact enters.asked short consults

end Hands

/-! ## Games -/

section Games

variable {σ : Type} (o : Oracle σ) (p1 p2 : Player) (s0 : σ)

/-- In the run from `s0` the head of the loop is reached with `n` iterations behind it. -/
inductive Reaches : Nat → Table → σ → Prop where
  | start (equal : p1.ncards = p2.ncards) : Reaches 0 ⟨p1, p2, {}⟩ s0
  | next {n t s t' s'} (reached : Reaches n t s) (more : n < kMaxRounds) (in1 : t.p1.ncards ≠ 0)
      (in2 : t.p2.ncards ≠ 0) (played : Prog.run o (round t) s = (.ok t', s')) : Reaches (n + 1) t' s'

/-- In the run from `s0` a round begins. -/
inductive Begins : Table → σ → Prop where
  | intro {n t s} (reached : Reaches o p1 p2 s0 n t s) (more : n < kMaxRounds) (in1 : t.p1.ncards ≠ 0)
      (in2 : t.p2.ncards ≠ 0) (total : t.p1.ncards + t.p2.ncards = kDeckSize) : Begins t s

/-- The players that a `decide_shuffle` of the run finds and the cards it asks of them. -/
inductive Shuffles : Player → Player → Nat → Prop where
  | round {t s} (begins : Begins o p1 p2 s0 t s) : Shuffles t.p1 t.p2 1
  | war {t s q1 q2 s' c1 h1 c2 h2 w1 w2} (begins : Begins o p1 p2 s0 t s)
      (ready : Prog.run o (decideShuffle t.p1 t.p2 1) s = (.ok (q1, q2), s')) (front1 : q1.hand = c1 :: h1)
      (front2 : q2.hand = c2 :: h2)
      (enters : EntersWar o c1 c2 ⟨{ q1 with hand := h1 }, { q2 with hand := h2 }, t.result⟩ s' w1 w2) :
      Shuffles w1 w2 kWarSize

variable {o p1 p2 s0} {n k : Nat} {s : σ} {t : Table} {policy : EnrichmentPolicy} {hand pile : List Card}

/-- **A round** asks in its `decide_shuffle` and in the hand. -/
theorem enriched_asked_round : .enriched policy hand pile ∈ Prog.asked o (round t) s ↔
    t.p1.ncards + t.p2.ncards = kDeckSize ∧
      (.enriched policy hand pile ∈ Prog.asked o (decideShuffle t.p1 t.p2 1) s ∨
        ∃ q1 q2 s' c1 h1 c2 h2, Prog.run o (decideShuffle t.p1 t.p2 1) s = (.ok (q1, q2), s') ∧
          q1.hand = c1 :: h1 ∧ q2.hand = c2 :: h2 ∧ .enriched policy hand pile ∈ Prog.asked o
            (playHand c1 c2 ⟨{ q1 with hand := h1 }, { q2 with hand := h2 }, t.result⟩) s') := by
  unfold round
  rw [asked_assert_seq, Prog.mem_asked_bind]
  apply and_congr_right
  intro total
  apply or_congr_right
  constructor
  · rintro ⟨⟨⟨hand1, f1, pile1⟩, ⟨hand2, f2, pile2⟩⟩, s', ready, asked⟩
    obtain ⟨some1, asked⟩ := asked_assert_seq.1 asked
    obtain ⟨some2, asked⟩ := asked_assert_seq.1 asked
    obtain ⟨c1, h1, rfl⟩ := List.exists_cons_of_ne_nil (Player.hand_ne_nil some1)
    obtain ⟨c2, h2, rfl⟩ := List.exists_cons_of_ne_nil (Player.hand_ne_nil some2)
    simp only [Player.draw_cons, pure_bind] at asked
    rcases Prog.mem_asked_bind.1 asked with below | ⟨_, _, -, done⟩
    · exact ⟨_, _, s', c1, h1, c2, h2, ready, rfl, rfl, below⟩
    · exact absurd done List.not_mem_nil
  · rintro ⟨⟨hand1, f1, pile1⟩, ⟨hand2, f2, pile2⟩, s', c1, h1, c2, h2, ready, rfl, rfl, below⟩
    refine ⟨_, s', ready, ?_⟩
    refine asked_assert_seq.2 ⟨Nat.succ_ne_zero _, ?_⟩
    refine asked_assert_seq.2 ⟨Nat.succ_ne_zero _, ?_⟩
    simp only [Player.draw_cons, pure_bind]
    exact Prog.mem_asked_bind.2 (.inl below)

/-- A round that begins asks where the game shuffles. -/
theorem Begins.asked (begins : Begins o p1 p2 s0 t s)
    (asked : .enriched policy hand pile ∈ Prog.asked o (round t) s) :
    ∃ w1 w2 n, Shuffles o p1 p2 s0 w1 w2 n ∧ (w1.handSize < n ∨ w2.handSize < n) ∧
      (w1.Consults policy hand pile ∨ w2.Consults policy hand pile) := by
  obtain ⟨-, here | ⟨q1, q2, s', c1, h1, c2, h2, ready, front1, front2, below⟩⟩ := enriched_asked_round.1 asked
  · exact ⟨_, _, 1, .round begins, enriched_asked_decideShuffle.1 here⟩
  · obtain ⟨w1, w2, enters, consulted⟩ := enriched_asked_playHand.1 below
    exact ⟨w1, w2, kWarSize, .war begins ready front1 front2 enters, consulted⟩

theorem Reaches.asked_rounds (reached : Reaches o p1 p2 s0 n t s) (left : n + k = kMaxRounds)
    (asked : .enriched policy hand pile ∈ Prog.asked o (rounds k t) s) :
    ∃ u s', Begins o p1 p2 s0 u s' ∧ .enriched policy hand pile ∈ Prog.asked o (round u) s' := by
  induction k generalizing n t s with
  | zero => exact absurd asked List.not_mem_nil
  | succ k ih =>
    have more : n < kMaxRounds := by omega
    by_cases in1 : t.p1.ncards = 0
    · rw [rounds_out1 in1] at asked
      exact absurd asked List.not_mem_nil
    by_cases in2 : t.p2.ncards = 0
    · rw [rounds_out2 in1 in2] at asked
      exact absurd asked List.not_mem_nil
    rw [rounds_more in1 in2] at asked
    rcases Prog.mem_asked_bind.1 asked with here | ⟨u, s', played, later⟩
    · exact ⟨t, s, ⟨reached, more, in1, in2, (enriched_asked_round.1 here).1⟩, here⟩
    · exact ih (reached.next more in1 in2 played) (by omega) later

/-- The game asks what its rounds ask. -/
theorem Reaches.asked (reached : Reaches o p1 p2 s0 n t s) (left : n + k = kMaxRounds)
    (asked : .enriched policy hand pile ∈ Prog.asked o (rounds k t) s) :
    .enriched policy hand pile ∈ Prog.asked o (simulate p1 p2) s0 := by
  induction reached generalizing k with
  | start equal =>
    obtain rfl : k = kMaxRounds := by omega
    rw [simulate, assert_pos equal, pure_bind]
    exact asked
  | next reached more in1 in2 played ih =>
    refine ih (k := k + 1) (by omega) ?_
    rw [rounds_more in1 in2]
    exact Prog.mem_asked_bind.2 (.inr ⟨_, _, played, asked⟩)

theorem Begins.asked_simulate (begins : Begins o p1 p2 s0 t s)
    (asked : .enriched policy hand pile ∈ Prog.asked o (round t) s) :
    .enriched policy hand pile ∈ Prog.asked o (simulate p1 p2) s0 := by
  obtain @⟨n, _, _, reached, more, in1, in2, -⟩ := begins
  refine reached.asked (k := kMaxRounds - n - 1 + 1) (by omega) ?_
  rw [rounds_more in1 in2]
  exact Prog.mem_asked_bind.2 (.inl asked)

/-- **A game** consults the predicates of the players that its `decide_shuffle` finds short. -/
theorem enriched_asked_simulate : .enriched policy hand pile ∈ Prog.asked o (simulate p1 p2) s0 ↔
    ∃ w1 w2 n, Shuffles o p1 p2 s0 w1 w2 n ∧ (w1.handSize < n ∨ w2.handSize < n) ∧
      (w1.Consults policy hand pile ∨ w2.Consults policy hand pile) := by
  constructor
  · intro asked
    obtain ⟨equal, asked⟩ := asked_assert_seq.1 asked
    obtain ⟨u, s', begins, asked⟩ := (Reaches.start equal).asked_rounds (Nat.zero_add _) asked
    exact begins.asked asked
  · rintro ⟨w1, w2, n, shuffles, short, consults⟩
    cases shuffles with
    | round begins =>
      obtain ⟨-, -, -, -, total⟩ := id begins
      apply begins.asked_simulate
      exact enriched_asked_round.2 ⟨total, .inl (enriched_asked_decideShuffle.2 ⟨short, consults⟩)⟩
    | war begins ready front1 front2 enters =>
      obtain ⟨-, -, -, -, total⟩ := id begins
      apply begins.asked_simulate
      refine enriched_asked_round.2 ⟨total, .inr ⟨_, _, _, _, _, _, _, ready, front1, front2, ?_⟩⟩
      exact enriched_asked_playHand.2 ⟨_, _, enters, short, consults⟩

end Games

/-! ## Possible games -/

section Possible

variable {may : MayAnswer} {p1 p2 : Player} {n : Nat} {t : Table} {s1 s2 : Strategy}

/-- Shuffles that leave everything in place. -/
def idle : (q : Request) → q.Answer
  | .shuffle _ v => ⟨v, .refl v⟩
  | .rand => (0 : Nat)
  | .enriched .. => false

/-- A loop head that can be reached is reached in some run. -/
theorem LoopHead.reaches (head : LoopHead may p1 p2 n t) :
    ∃ script, ∀ rest, Reaches (Prog.scripted (S := requests) idle) p1 p2 (script ++ rest) n t rest := by
  induction head with
  | start equal => exact ⟨[], fun rest => .start equal⟩
  | next _ more in1 in2 ret ih =>
    obtain ⟨before, reached⟩ := ih
    obtain ⟨script, played⟩ := Prog.run_scripted idle ret
    refine ⟨before ++ script, ?_⟩
    intro rest
    rw [List.append_assoc]
    exact (reached (script ++ rest)).next more in1 in2 (played rest)

end Possible

end Maskset.War
