import Maskset.War.PlayHand

/-!
# What a hand can do

`Plays` relates the arguments of a `play_hand` call to what it can return, one
constructor for each way through the source; `returns_playHand` says that it is
exactly what the code computes, and `wp_playHand` that no assertion fails on the
way when every card is valid. Every result about a hand is by induction on `Plays`.
-/

namespace Maskset.War
set_option autoImplicit false

open Maskset.Logic

/-- The cards go to the winner's pile. -/
def Table.give (t : Table) (w : PlayerEnum) (cards : List Card) : Table :=
  match w with
  | .kOne => { t with p1 := t.p1.takeAll cards }
  | .kTwo => { t with p2 := t.p2.takeAll cards }
  | .kNone => t

/-- The loser's dump goes to its record. -/
def Table.record (t : Table) (w : PlayerEnum) (dump1 dump2 : List Card) : Table :=
  match w with
  | .kOne => { t with result := { t.result with warHandsP2Lost := t.result.warHandsP2Lost ++ dump2 } }
  | .kTwo => { t with result := { t.result with warHandsP1Lost := t.result.warHandsP1Lost ++ dump1 } }
  | .kNone => t

/-- The winner by the two cards alone. -/
def winnerOf (c1 c2 : Card) : PlayerEnum :=
  if c1 > c2 then .kOne else if c1 < c2 then .kTwo else .kNone

abbrev MayAnswer := EnrichmentPolicy → List Card → List Card → Bool → Prop

/-- `play_hand` on `c1`, `c2` and the first table can return the winner and leave
the second table, when the enrichment predicates answer within `may`. -/
inductive Plays (may : MayAnswer) : Card → Card → Table → PlayerEnum → Table → Prop where
  | decided {c1 c2 t w two} (pos1 : 0 < c1) (pos2 : 0 < c2) (higher : winnerOf c1 c2 = w)
      (won : w ≠ .kNone) (coin : two = [c1, c2] ∨ two = [c2, c1]) :
      Plays may c1 c2 t w (t.countHand.give w two)
  | firstOut {c t} (pos : 0 < c) (out1 : t.p1.ncards = 0) :
      Plays may c c t .kTwo (t.countHand.give .kTwo [c, c])
  | secondOut {c t} (pos : 0 < c) (in1 : t.p1.ncards ≠ 0) (out2 : t.p2.ncards = 0) :
      Plays may c c t .kOne (t.countHand.give .kOne [c, c])
  | war {c t q1 q2 w u cards} (pos : 0 < c) (in1 : t.p1.ncards ≠ 0) (in2 : t.p2.ncards ≠ 0)
      (ready : Prog.Returns (env may) (decideShuffle t.p1 t.p2 kWarSize) (q1, q2))
      (valid1 : q1.StakesValid) (valid2 : q2.StakesValid)
      (inner : Plays may q1.warHand.flip q2.warHand.flip ⟨q1.staked, q2.staked, t.countHand.result⟩ w u)
      (dumps : cards.Perm (q1.warHand.dump ++ q2.warHand.dump)) :
      Plays may c c t w (((u.give w cards).record w q1.warHand.dump q2.warHand.dump).give w [c, c])

section Lemmas

variable {may : MayAnswer} {c c1 c2 : Card} {t t' u : Table} {w : PlayerEnum} {cards : List Card}

@[simp] theorem Table.give_nhands (cards : List Card) : (t.give w cards).result.nhands = t.result.nhands := by
  cases w <;> rfl

@[simp] theorem Table.record_nhands (dump1 dump2 : List Card) :
    (t.record w dump1 dump2).result.nhands = t.result.nhands := by
  cases w <;> rfl

/-- A war takes four cards from each player, or all there are. -/
theorem Ready.staked_ncards {p q : Player} (r : Ready kWarSize p q) : q.staked.ncards = p.ncards - 4 := by
  have same := r.ncards
  rw [Player.staked_ncards, same]
  rcases r.dealt with enough | empty
  · simp only [kWarSize] at enough
    omega
  · simp only [Player.ncards, empty, List.length_nil] at same ⊢
    omega

@[simp] theorem returns_shuffleHand {k : Container} {v : List Card} :
    Prog.Returns (env may) (shuffleHand k v) cards ↔ cards.Perm v :=
  ⟨fun ⟨r, _, same⟩ => Prog.returns_pure.1 same ▸ r.2, fun perm => ⟨⟨cards, perm⟩, trivial, rfl⟩⟩

@[simp] theorem returns_rand {n : Nat} : Prog.Returns (env may) rand n :=
  ⟨n, trivial, rfl⟩

theorem Plays.won (h : Plays may c1 c2 t w t') : w ≠ .kNone := by
  induction h with
  | decided _ _ _ won _ => exact won
  | firstOut => decide
  | secondOut => decide
  | war _ _ _ _ _ _ _ _ ih => exact ih

theorem winnerOf_eq_kNone : winnerOf c1 c2 = .kNone ↔ c1 = c2 := by
  unfold winnerOf
  split
  · rename_i gt
    simpa using Nat.ne_of_gt gt
  · rename_i ngt
    split
    · rename_i lt
      simpa using Nat.ne_of_lt lt
    · rename_i nlt
      simpa using Nat.le_antisymm (Nat.not_lt.1 ngt) (Nat.not_lt.1 nlt)

/-- The two cards leave `settle` in one of their two orders. -/
theorem settle_eq (won : w ≠ .kNone) :
    settle w c1 c2 t = rand >>= fun r => pure (w, t.give w (if r % 2 ≠ 0 then [c2, c1] else [c1, c2])) := by
  refine congrArg (rand >>= ·) (funext fun r => ?_)
  by_cases odd : r % 2 ≠ 0
  · simp only [if_pos odd]
    cases w, won using PlayerEnum.won_cases with
    | kOne => rfl
    | kTwo => rfl
  · simp only [if_neg odd]
    cases w, won using PlayerEnum.won_cases with
    | kOne => rfl
    | kTwo => rfl

theorem returns_settle {x : PlayerEnum × Table} :
    Prog.Returns (env may) (settle w c1 c2 t) x ↔
      w ≠ .kNone ∧ ∃ two, (two = [c1, c2] ∨ two = [c2, c1]) ∧ x = (w, t.give w two) := by
  by_cases won : w = .kNone
  · subst won
    simp [settle, Prog.returns_bind]
  rw [settle_eq won, Prog.returns_bind]
  constructor
  · rintro ⟨r, -, same⟩
    refine ⟨won, _, ?_, (Prog.returns_pure.1 same).symm⟩
    split
    · exact .inr rfl
    · exact .inl rfl
  · rintro ⟨-, two, rfl | rfl, rfl⟩
    · exact ⟨0, returns_rand, rfl⟩
    · exact ⟨1, returns_rand, rfl⟩

/-- With valid dumps only the shuffle of `divide` is left open. -/
theorem divide_eq {wh1 wh2 : WarHand} (won : w ≠ .kNone) (valid1 : ∀ c ∈ wh1.dump, 1 < c)
    (valid2 : ∀ c ∈ wh2.dump, 1 < c) :
    divide w wh1 wh2 t = shuffleHand .vector (wh1.dump ++ wh2.dump) >>= fun cards =>
      pure ((t.give w cards).record w wh1.dump wh2.dump) := by
  unfold divide
  rw [pushDump_eq, if_pos valid1, pure_bind, pushDump_eq, if_pos valid2, pure_bind, List.nil_append]
  cases w, won using PlayerEnum.won_cases with
  | kOne => rfl
  | kTwo => rfl

theorem returns_divide {wh1 wh2 : WarHand} (valid1 : ∀ c ∈ wh1.dump, 1 < c)
    (valid2 : ∀ c ∈ wh2.dump, 1 < c) :
    Prog.Returns (env may) (divide w wh1 wh2 t) t' ↔
      w ≠ .kNone ∧ ∃ cards, cards.Perm (wh1.dump ++ wh2.dump) ∧
        t' = (t.give w cards).record w wh1.dump wh2.dump := by
  by_cases won : w = .kNone
  · subst won
    simp [divide, Prog.returns_bind]
  rw [divide_eq won valid1 valid2, Prog.returns_bind]
  simp [won, eq_comm]

theorem returns_ofPlayer {E : Env requests} {q : Player} {x : WarHand × Player} :
    Prog.Returns E (WarHand.ofPlayer q) x ↔ q.StakesValid ∧ x = (q.warHand, q.staked) := by
  rw [WarHand.ofPlayer_eq]
  split
  · simp [*, eq_comm]
  · simp [*]

variable {play : Card → Card → Table → Game (PlayerEnum × Table)}

/-- The war branch past its guards: the two stakes, the recursive call and the spoils. -/
theorem returns_war {x : PlayerEnum × Table} (pos : 0 < c) (in1 : t.p1.ncards ≠ 0)
    (in2 : t.p2.ncards ≠ 0) :
    Prog.Returns (env may) (war play c c t.countHand) x ↔
      ∃ q1 q2 w u cards,
        Prog.Returns (env may) (decideShuffle t.p1 t.p2 kWarSize) (q1, q2) ∧
        q1.StakesValid ∧ q2.StakesValid ∧
        Prog.Returns (env may)
          (play q1.warHand.flip q2.warHand.flip ⟨q1.staked, q2.staked, t.countHand.result⟩) (w, u) ∧
        w ≠ .kNone ∧ cards.Perm (q1.warHand.dump ++ q2.warHand.dump) ∧
        x = (w, ((u.give w cards).record w q1.warHand.dump q2.warHand.dump).give w [c, c]) := by
  have ne : c ≠ 0 := Nat.ne_of_gt pos
  unfold war
  rw [assert_pos ne, pure_bind, assert_pos ne, pure_bind,
    if_neg (show ¬ t.countHand.p1.ncards = 0 from in1),
    if_neg (show ¬ t.countHand.p2.ncards = 0 from in2), Prog.returns_bind]
  constructor
  · rintro ⟨⟨q1, q2⟩, ready, rest⟩
    obtain ⟨y1, stake1, rest⟩ := Prog.returns_bind.1 rest
    obtain ⟨valid1, rfl⟩ := returns_ofPlayer.1 stake1
    obtain ⟨y2, stake2, rest⟩ := Prog.returns_bind.1 rest
    obtain ⟨valid2, rfl⟩ := returns_ofPlayer.1 stake2
    obtain ⟨-, -, rest⟩ := Prog.returns_bind.1 rest
    obtain ⟨-, -, rest⟩ := Prog.returns_bind.1 rest
    obtain ⟨⟨w, u⟩, inner, rest⟩ := Prog.returns_bind.1 rest
    obtain ⟨u', divided, settled⟩ := Prog.returns_bind.1 rest
    obtain ⟨won, cards, dumps, rfl⟩ := (returns_divide valid1.dump valid2.dump).1 divided
    obtain ⟨-, two, coin, rfl⟩ := returns_settle.1 settled
    obtain rfl : two = [c, c] := coin.elim id id
    exact ⟨q1, q2, w, u, cards, ready, valid1, valid2, inner, won, dumps, rfl⟩
  · rintro ⟨q1, q2, w, u, cards, ready, valid1, valid2, inner, won, dumps, rfl⟩
    obtain ⟨ready1, ready2⟩ := decideShuffle_ready ready
    have flip1 := valid1.flip_pos (ready1.hand_stake in1)
    have flip2 := valid2.flip_pos (ready2.hand_stake in2)
    refine ⟨(q1, q2), ready, Prog.returns_bind.2 ⟨_, returns_ofPlayer.2 ⟨valid1, rfl⟩, ?_⟩⟩
    refine Prog.returns_bind.2 ⟨_, returns_ofPlayer.2 ⟨valid2, rfl⟩, ?_⟩
    refine Prog.returns_bind.2 ⟨(), returns_assert.2 flip1, ?_⟩
    refine Prog.returns_bind.2 ⟨(), returns_assert.2 flip2, ?_⟩
    refine Prog.returns_bind.2 ⟨(w, u), inner, Prog.returns_bind.2
      ⟨(u.give w cards).record w q1.warHand.dump q2.warHand.dump, ?_, ?_⟩⟩
    · exact (returns_divide valid1.dump valid2.dump).2 ⟨won, cards, dumps, rfl⟩
    · exact returns_settle.2 ⟨won, _, .inl rfl, rfl⟩

end Lemmas

section Main

variable {may : MayAnswer} {c1 c2 : Card} {t t' : Table} {w : PlayerEnum}

theorem winnerOf_of_gt (h : c1 > c2) : winnerOf c1 c2 = .kOne := if_pos h

theorem winnerOf_of_lt (h : c1 < c2) : winnerOf c1 c2 = .kTwo := by
  rw [winnerOf, if_neg (Nat.lt_asymm h), if_pos h]

variable {play : Card → Card → Table → Game (PlayerEnum × Table)}

/-- The three branches of the body, by the winner of the two cards. -/
theorem playHandBody_branches :
    (if winnerOf c1 c2 = .kNone then war play c1 c2 t
      else settle (winnerOf c1 c2) c1 c2 t) =
    if c1 > c2 then settle .kOne c1 c2 t
    else if c1 < c2 then settle .kTwo c1 c2 t
    else war play c1 c2 t := by
  by_cases gt : c1 > c2
  · simp [winnerOf_of_gt gt, gt]
  · by_cases lt : c1 < c2
    · simp [winnerOf_of_lt lt, lt, gt]
    · simp [winnerOf, lt, gt]

theorem playHandBody_eq (pos1 : 0 < c1) (pos2 : 0 < c2) :
    playHandBody play c1 c2 t =
      if winnerOf c1 c2 = .kNone then war play c1 c2 t.countHand
      else settle (winnerOf c1 c2) c1 c2 t.countHand := by
  rw [playHandBody_branches, playHandBody, assert_pos pos1, pure_bind, assert_pos pos2, pure_bind]

theorem war_out1 (pos : 0 < c1) (out1 : t.p1.ncards = 0) :
    war play c1 c1 t.countHand = pure (.kTwo, t.countHand.give .kTwo [c1, c1]) := by
  have ne : c1 ≠ 0 := Nat.ne_of_gt pos
  rw [war, assert_pos ne, pure_bind, assert_pos ne, pure_bind,
    if_pos (show t.countHand.p1.ncards = 0 from out1)]
  rfl

theorem war_out2 (pos : 0 < c1) (in1 : t.p1.ncards ≠ 0) (out2 : t.p2.ncards = 0) :
    war play c1 c1 t.countHand = pure (.kOne, t.countHand.give .kOne [c1, c1]) := by
  have ne : c1 ≠ 0 := Nat.ne_of_gt pos
  rw [war, assert_pos ne, pure_bind, assert_pos ne, pure_bind,
    if_neg (show ¬ t.countHand.p1.ncards = 0 from in1),
    if_pos (show t.countHand.p2.ncards = 0 from out2)]
  rfl

/-- A returned hand is a derivation. -/
theorem Plays.of_returns (n : Nat) (fewer : t.p1.ncards < n)
    (ret : Prog.Returns (env may) (playHand c1 c2 t) (w, t')) : Plays may c1 c2 t w t' := by
  induction n generalizing c1 c2 t w t' with
  | zero => omega
  | succ n ih =>
    rw [playHand_eq, playHandBody] at ret
    obtain ⟨_, guard1, ret⟩ := Prog.returns_bind.1 ret
    obtain ⟨_, guard2, ret⟩ := Prog.returns_bind.1 ret
    have pos1 : 0 < c1 := returns_assert.1 guard1
    have pos2 : 0 < c2 := returns_assert.1 guard2
    rw [← playHandBody_branches] at ret
    split at ret
    · -- a war, unless one of the players is out
      rename_i tie
      obtain rfl := winnerOf_eq_kNone.1 tie
      by_cases out1 : t.p1.ncards = 0
      · rw [war_out1 pos1 out1] at ret
        obtain ⟨rfl, rfl⟩ := Prod.mk.inj (Prog.returns_pure.1 ret)
        exact .firstOut pos1 out1
      by_cases out2 : t.p2.ncards = 0
      · rw [war_out2 pos1 out1 out2] at ret
        obtain ⟨rfl, rfl⟩ := Prod.mk.inj (Prog.returns_pure.1 ret)
        exact .secondOut pos1 out1 out2
      obtain ⟨q1, q2, w, u, cards, ready, valid1, valid2, inner, -, dumps, same⟩ :=
        (returns_war pos1 out1 out2).1 ret
      obtain ⟨rfl, rfl⟩ := Prod.mk.inj same
      have ready1 := (decideShuffle_ready ready).1
      have less : q1.staked.ncards < t.p1.ncards := ready1.staked_lt out1
      exact .war pos1 out1 out2 ready valid1 valid2 (ih (by simp only; omega) inner) dumps
    · obtain ⟨won, two, coin, same⟩ := returns_settle.1 ret
      obtain ⟨rfl, rfl⟩ := Prod.mk.inj same
      exact .decided pos1 pos2 rfl won coin

/-- A derivation is a returned hand. -/
theorem Plays.returns (h : Plays may c1 c2 t w t') :
    Prog.Returns (env may) (playHand c1 c2 t) (w, t') := by
  induction h with
  | decided pos1 pos2 higher won coin =>
    subst higher
    rw [playHand_eq, playHandBody_eq pos1 pos2, if_neg won]
    exact returns_settle.2 ⟨won, _, coin, rfl⟩
  | firstOut pos out1 =>
    rw [playHand_eq, playHandBody_eq pos pos, if_pos (winnerOf_eq_kNone.2 rfl), war_out1 pos out1]
    rfl
  | secondOut pos in1 out2 =>
    rw [playHand_eq, playHandBody_eq pos pos, if_pos (winnerOf_eq_kNone.2 rfl), war_out2 pos in1 out2]
    rfl
  | war pos in1 in2 ready valid1 valid2 inner dumps ih =>
    rw [playHand_eq, playHandBody_eq pos pos, if_pos (winnerOf_eq_kNone.2 rfl)]
    exact (returns_war pos in1 in2).2
      ⟨_, _, _, _, _, ready, valid1, valid2, ih, inner.won, dumps, rfl⟩

/-- **`Plays` is what the code computes.** -/
theorem returns_playHand :
    Prog.Returns (env may) (playHand c1 c2 t) (w, t') ↔ Plays may c1 c2 t w t' :=
  ⟨Plays.of_returns _ (Nat.lt_succ_self _), Plays.returns⟩

/-! ## No assertion fails in a hand -/

/-- Every card of the player is one `draw` lets through. -/
def Player.CardsValid (p : Player) : Prop := ∀ c ∈ p.cards, 1 < c

theorem Ready.cardsValid {n : Nat} {p q : Player} (r : Ready n p q) (valid : p.CardsValid) : q.CardsValid :=
  fun c h => valid c (r.cards.subset h)

theorem Player.CardsValid.stakes {p : Player} (valid : p.CardsValid) : p.StakesValid :=
  fun c h => valid c (List.mem_append_left _ (List.mem_of_mem_take h))

theorem Player.CardsValid.staked {p : Player} (valid : p.CardsValid) : p.staked.CardsValid := by
  intro c h
  rcases List.mem_append.1 h with h | h
  · exact valid c (List.mem_append_left _ (List.mem_of_mem_drop h))
  · exact valid c (List.mem_append_right _ h)

variable {E : Env requests}

theorem wp_settle (won : w ≠ .kNone) :
    Prog.wp (.safe E) (settle w c1 c2 t) fun x => x.1 ≠ .kNone := by
  rw [settle_eq won, Prog.wp_bind]
  exact ⟨trivial, fun _ _ => won⟩

theorem wp_divide {wh1 wh2 : WarHand} (won : w ≠ .kNone) (valid1 : ∀ c ∈ wh1.dump, 1 < c)
    (valid2 : ∀ c ∈ wh2.dump, 1 < c) : Prog.wp (.safe E) (divide w wh1 wh2 t) fun _ => True := by
  rw [divide_eq won valid1 valid2, Prog.wp_bind]
  exact wp_shuffleHand fun _ _ => trivial

/-- A war between players with cards, given that its recursive call is safe. -/
theorem wp_war {c : Card} (pos : 0 < c) (in1 : t.p1.ncards ≠ 0) (in2 : t.p2.ncards ≠ 0)
    (valid1 : t.p1.CardsValid) (valid2 : t.p2.CardsValid)
    (inner : ∀ a b s, 0 < a → 0 < b → s.p1.CardsValid → s.p2.CardsValid →
      s.p1.ncards < t.p1.ncards → Prog.wp (.safe E) (play a b s) fun x => x.1 ≠ .kNone) :
    Prog.wp (.safe E) (war play c c t) fun x => x.1 ≠ .kNone := by
  have ne : c ≠ 0 := Nat.ne_of_gt pos
  unfold war
  rw [assert_pos ne, pure_bind, assert_pos ne, pure_bind, if_neg in1, if_neg in2]
  apply Prog.wp_seq (wp_decideShuffle t.p1 t.p2 kWarSize)
  rintro ⟨q1, q2⟩ ⟨ready1, ready2⟩
  have stakes1 := (ready1.cardsValid valid1).stakes
  have stakes2 := (ready2.cardsValid valid2).stakes
  have flip1 := stakes1.flip_pos (ready1.hand_stake in1)
  have flip2 := stakes2.flip_pos (ready2.hand_stake in2)
  have fewer : q1.staked.ncards < t.p1.ncards := ready1.staked_lt in1
  simp only [WarHand.ofPlayer_eq, if_pos stakes1, if_pos stakes2, pure_bind, assert_pos flip1,
    assert_pos flip2]
  apply Prog.wp_seq (inner _ _ _ flip1 flip2 (ready1.cardsValid valid1).staked
    (ready2.cardsValid valid2).staked fewer)
  rintro ⟨w, u⟩ won
  apply Prog.wp_seq (wp_divide won stakes1.dump stakes2.dump)
  intro u' _
  exact wp_settle won

/-- **No assertion fails in a hand** of valid cards, and it has a winner. -/
theorem wp_playHand (n : Nat) (fewer : t.p1.ncards < n) (pos1 : 0 < c1) (pos2 : 0 < c2)
    (valid1 : t.p1.CardsValid) (valid2 : t.p2.CardsValid) :
    Prog.wp (.safe E) (playHand c1 c2 t) fun x => x.1 ≠ .kNone := by
  induction n generalizing c1 c2 t with
  | zero => omega
  | succ n ih =>
    rw [playHand_eq, playHandBody_eq pos1 pos2]
    split
    · rename_i tie
      obtain rfl := winnerOf_eq_kNone.1 tie
      by_cases out1 : t.p1.ncards = 0
      · rw [war_out1 pos1 out1]
        exact PlayerEnum.noConfusion
      by_cases out2 : t.p2.ncards = 0
      · rw [war_out2 pos1 out1 out2]
        exact PlayerEnum.noConfusion
      refine wp_war pos1 (show t.countHand.p1.ncards ≠ 0 from out1) out2 valid1 valid2 ?_
      intro a b s posA posB validA validB less
      have less : s.p1.ncards < t.p1.ncards := less
      exact ih (by omega) posA posB validA validB
    · rename_i won
      exact wp_settle won

end Main

end Maskset.War
