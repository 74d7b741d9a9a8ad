import Maskset.War.Conservation

/-!
# How long a hand lasts

Every war of a hand takes four cards from each player, or all that are left, before any
card comes back. So a hand counts at most one war for every four cards of the poorer
player, and one more; a game of `kMaxRounds` rounds counts at most eight hands a round.
-/

namespace Maskset.War
set_option autoImplicit false

open Maskset.Logic

/-- `⌈min n1 n2 / 4⌉`. -/
def warBound (n1 n2 : Nat) : Nat := (min n1 n2 + 3) / 4

/-- The runs that end: an assertion may fail, but the recursion does not go on. -/
def ending (may : MayAnswer) : Contract requests Fault := ⟨env may, fun _ => True, (· ≠ .outOfFuel)⟩

section Hand

variable {may : MayAnswer} {c1 c2 : Card} {t : Table} {w : PlayerEnum}
  {play : Card → Card → Table → Game (PlayerEnum × Table)} {p1 p2 q1 q2 q : Player} {wh : WarHand}

theorem wp_ending {α : Type} {m : Game α} {Q : α → Prop} (h : Prog.wp (.safe (env may)) m Q) :
    Prog.wp (ending may) m Q := by
  refine Prog.wp_weaken ?_ ?_ ?_ h
  · intro _ _ allowed
    exact allowed
  · intro _ _
    trivial
  · intro _ excused
    exact excused.elim

theorem wp_settle_nhands : Prog.wp (ending may) (settle w c1 c2 t) fun x => x.2.result.nhands = t.result.nhands := by
  by_cases won : w = .kNone
  · subst won
    exact ⟨trivial, fun _ _ => Fault.noConfusion⟩
  · rw [settle_eq won, Prog.wp_bind]
    refine ⟨trivial, ?_⟩
    intro r _
    exact Table.give_nhands _

theorem wp_divide_nhands {wh1 wh2 : WarHand} :
    Prog.wp (ending may) (divide w wh1 wh2 t) fun u => u.result.nhands = t.result.nhands := by
  unfold divide
  rw [pushDump_eq]
  split
  · rw [pure_bind, pushDump_eq]
    split
    · rw [pure_bind, Prog.wp_bind]
      refine ⟨trivial, ?_⟩
      intro cards _
      cases w with
      | kOne => rfl
      | kTwo => rfl
      | kNone => exact Fault.noConfusion
    · exact Fault.noConfusion
  · exact Fault.noConfusion

/-- With four cards fewer on both sides there is one war less to come. -/
theorem warBound_staked {n1 n2 : Nat} (in1 : n1 ≠ 0) (in2 : n2 ≠ 0) :
    warBound (n1 - 4) (n2 - 4) + 1 ≤ warBound n1 n2 := by
  unfold warBound
  omega

/-- A war, given the bound for its recursive call. -/
theorem wp_war_nhands
    (inner : ∀ a b s, s.result = t.result →
      warBound s.p1.ncards s.p2.ncards + 1 ≤ warBound t.p1.ncards t.p2.ncards →
      Prog.wp (ending may) (play a b s) fun x => s.result.nhands + 1 ≤ x.2.result.nhands ∧
        x.2.result.nhands ≤ s.result.nhands + 1 + warBound s.p1.ncards s.p2.ncards) :
    Prog.wp (ending may) (war play c1 c2 t) fun x => t.result.nhands ≤ x.2.result.nhands ∧
      x.2.result.nhands ≤ t.result.nhands + warBound t.p1.ncards t.p2.ncards := by
  unfold war
  refine wp_assert_seq Fault.noConfusion fun _ => wp_assert_seq Fault.noConfusion fun _ => ?_
  split
  · exact ⟨Nat.le_refl _, Nat.le_add_right _ _⟩
  rename_i in1
  split
  · exact ⟨Nat.le_refl _, Nat.le_add_right _ _⟩
  rename_i in2
  apply Prog.wp_seq (wp_ending (wp_decideShuffle t.p1 t.p2 kWarSize))
  rintro ⟨q1, q2⟩ ⟨ready1, ready2⟩
  have fewer : warBound q1.staked.ncards q2.staked.ncards + 1 ≤ warBound t.p1.ncards t.p2.ncards := by
    rw [ready1.staked_ncards, ready2.staked_ncards]
    exact warBound_staked in1 in2
  refine wp_ofPlayer_seq Fault.noConfusion fun _ => wp_ofPlayer_seq Fault.noConfusion fun _ => ?_
  refine wp_assert_seq Fault.noConfusion fun _ => wp_assert_seq Fault.noConfusion fun _ => ?_
  refine Prog.wp_seq (inner _ _ ⟨q1.staked, q2.staked, t.result⟩ rfl fewer) ?_
  rintro ⟨w, u⟩ ⟨low, high⟩
  apply Prog.wp_seq wp_divide_nhands
  intro u' divided
  refine Prog.wp_mono ?_ wp_settle_nhands
  intro x settled
  rw [settled, divided]
  dsimp only at low high ⊢
  constructor
  · omega
  · omega

/-- **A hand ends** within the bound of nested calls, and counts at most as many hands. -/
theorem wp_playHandFuel (n : Nat) (enough : warBound t.p1.ncards t.p2.ncards < n) :
    Prog.wp (ending may) (playHandFuel n c1 c2 t) fun x => t.result.nhands + 1 ≤ x.2.result.nhands ∧
      x.2.result.nhands ≤ t.result.nhands + 1 + warBound t.p1.ncards t.p2.ncards := by
  induction n generalizing c1 c2 t with
  | zero => omega
  | succ n ih =>
    have settled : ∀ w, Prog.wp (ending may) (settle w c1 c2 t.countHand) fun x =>
        t.result.nhands + 1 ≤ x.2.result.nhands ∧
          x.2.result.nhands ≤ t.result.nhands + 1 + warBound t.p1.ncards t.p2.ncards := by
      intro w
      refine Prog.wp_mono ?_ wp_settle_nhands
      intro x same
      rw [same]
      exact ⟨Nat.le_refl _, Nat.le_add_right _ _⟩
    rw [playHandFuel, playHandBody]
    refine wp_assert_seq Fault.noConfusion fun _ => wp_assert_seq Fault.noConfusion fun _ => ?_
    split
    · exact settled _
    split
    · exact settled _
    · apply wp_war_nhands
      intro a b s _ fewer
      exact ih (Nat.lt_of_lt_of_le (Nat.lt_of_succ_le fewer) (Nat.le_of_lt_succ enough))

theorem wp_playHand_nhands :
    Prog.wp (ending may) (playHand c1 c2 t) fun x => t.result.nhands + 1 ≤ x.2.result.nhands ∧
      x.2.result.nhands ≤ t.result.nhands + 1 + warBound t.p1.ncards t.p2.ncards := by
  apply wp_playHandFuel
  unfold warBound
  omega

end Hand

/-! ## Games -/

section Game

variable {may : MayAnswer} {t : Table} {p1 p2 : Player}

/-- A round counts eight hands at most: the poorer player keeps 25 cards at most. -/
theorem wp_round_nhands :
    Prog.wp (ending may) (round t) fun t' => t'.result.nhands ≤ t.result.nhands + 8 := by
  unfold round
  refine wp_assert_seq Fault.noConfusion fun total => ?_
  apply Prog.wp_seq (wp_ending (wp_decideShuffle t.p1 t.p2 1))
  rintro ⟨⟨hand1, s1, pile1⟩, ⟨hand2, s2, pile2⟩⟩ ⟨ready1, ready2⟩
  refine wp_assert_seq Fault.noConfusion fun some1 => wp_assert_seq Fault.noConfusion fun some2 => ?_
  obtain ⟨c1, h1, rfl⟩ := List.exists_cons_of_ne_nil (Player.hand_ne_nil some1)
  obtain ⟨c2, h2, rfl⟩ := List.exists_cons_of_ne_nil (Player.hand_ne_nil some2)
  have size1 := ready1.ncards
  have size2 := ready2.ncards
  simp only [Player.draw_cons, pure_bind]
  apply Prog.wp_seq wp_playHand_nhands
  rintro ⟨w, u⟩ ⟨-, high⟩
  simp only [Player.ncards, Player.handSize, List.length_cons, warBound, kDeckSize] at *
  change u.result.nhands ≤ _
  omega

theorem wp_rounds_nhands (n : Nat) :
    Prog.wp (ending may) (rounds n t) fun t' => t'.result.nhands ≤ t.result.nhands + 8 * n := by
  induction n generalizing t with
  | zero => exact Nat.le_refl _
  | succ n ih =>
    unfold rounds
    split
    · exact Nat.le_add_right _ _
    split
    · exact Nat.le_add_right _ _
    · apply Prog.wp_seq wp_round_nhands
      intro u first
      refine Prog.wp_mono ?_ ih
      intro t' rest
      omega

theorem wp_simulate_nhands :
    Prog.wp (ending may) (simulate p1 p2) fun t' => t'.result.nhands ≤ 8 * kMaxRounds := by
  unfold simulate
  refine wp_assert_seq Fault.noConfusion fun _ => Prog.wp_mono ?_ (wp_rounds_nhands kMaxRounds)
  intro t' bound
  simpa using bound

end Game

end Maskset.War
