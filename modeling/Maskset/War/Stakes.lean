import Maskset.War.Descent
import Maskset.War.Mirror

/-!
# Who takes the stakes

The way down draws the stakes and settles who wins; the way up only carries the stakes to
the winner and the loser's dumps to its record. So what a hand does to the two players and
to the result is read off its way down, up to the order of the cards.
-/

namespace Maskset.War
set_option autoImplicit false

open Maskset.Logic

/-- Requests of the strategies; the others are the shuffle of the dumps and the coin. -/
def Request.ofStrategy : Request → Bool
  | .shuffle .deque _ => true
  | .shuffle .vector _ => false
  | .rand => false
  | .enriched .. => true

def Table.seat (t : Table) : PlayerEnum → Player
  | .kTwo => t.p2
  | _ => t.p1

def Table.lost (t : Table) : PlayerEnum → List Card
  | .kTwo => t.result.warHandsP2Lost
  | _ => t.result.warHandsP1Lost

def Stakes.of (s : Stakes) : PlayerEnum → WarHand
  | .kTwo => s.2
  | _ => s.1

/-- The cards a player drew into its war hands. -/
def drawn (x : PlayerEnum) (wars : List Stakes) : List Card :=
  wars.flatMap fun s => (Stakes.of s x).dump ++ [(Stakes.of s x).flip]

/-- Its dump cards. -/
def dumped (x : PlayerEnum) (wars : List Stakes) : List Card := wars.flatMap fun s => (Stakes.of s x).dump

/-- The way from one player to another by strategies and by drawing cards; nothing is taken. -/
structure Drew (p : Player) (cards : List Card) (q : Player) : Prop where
  cards : p.cards.Perm (cards ++ q.cards)
  pile : q.pile = p.pile ∨ q.pile = []

/-- What the way down does. -/
structure Descended (t : Table) (d : Descent) : Prop where
  won : d.winner ≠ .kNone
  drew : ∀ x, Drew (t.seat x) (drawn x d.wars) (d.table.seat x)
  result : d.table.result = { t.result with nhands := t.result.nhands + (d.wars.length + 1) }
  valid : ∀ s ∈ d.wars, (∀ c ∈ s.1.dump, 1 < c) ∧ ∀ c ∈ s.2.dump, 1 < c

/-- What the way up does. -/
structure Ascended (decided : PlayerEnum) (bottom : Table) (wars : List Stakes) (c1 c2 : Card) (a : Ascent) :
    Prop where
  winner : a.winner = decided
  nested : a.nested = List.replicate wars.length decided
  nhands : a.table.result.nhands = bottom.result.nhands
  loser : a.table.seat decided.mirror = bottom.seat decided.mirror
  taken : ∃ cards, a.table.seat decided = (bottom.seat decided).takeAll cards ∧
    cards.Perm (c1 :: c2 :: (drawn .kOne wars ++ drawn .kTwo wars))
  kept : a.table.lost decided = bottom.lost decided
  lost : ∃ dumps, a.table.lost decided.mirror = bottom.lost decided.mirror ++ dumps ∧
    dumps.Perm (dumped decided.mirror wars)

/-! ## The way down -/

section Down

variable (may : MayAnswer) {p q r : Player} {p1 p2 : Player} {n : Nat} {cards : List Card} {t : Table} {c1 c2 : Card}

/-- Only the strategies ask; an assertion may fail. -/
def strategyOnly : Contract requests Fault := ⟨env may, fun q => q.ofStrategy = true, fun _ => True⟩

/-- A strategy keeps the pile or empties it. -/
theorem wp_strategy_pile (s : StrategyFp) (p : Player) (n : Nat) :
    Prog.wp (strategyOnly may) (s.call p n) fun q => q.pile = p.pile ∨ q.pile = [] := by
  refine wp_strategy_of s (fun _ => rfl) (fun _ => rfl) ?_
  intro q w merged _ _
  rcases merged with rfl | rfl
  · exact .inl rfl
  · exact .inr rfl

/-- `decide_shuffle` keeps or empties both piles, and makes both players ready. -/
theorem wp_decideShuffle_pile :
    Prog.wp (strategyOnly may) (decideShuffle p1 p2 n) fun q =>
      ((q.1.pile = p1.pile ∨ q.1.pile = []) ∧ (q.2.pile = p2.pile ∨ q.2.pile = [])) ∧
        Ready n p1 q.1 ∧ Ready n p2 q.2 := by
  refine Prog.wp_and_returns ?_ fun q ret => decideShuffle_ready ret
  have event : Prog.wp (strategyOnly may) (shuffleEvent p1 p2 n) fun q =>
      (q.1.pile = p1.pile ∨ q.1.pile = []) ∧ (q.2.pile = p2.pile ∨ q.2.pile = []) := by
    unfold shuffleEvent
    split
    · apply Prog.wp_seq (wp_strategy_pile may p1.strategy.fp p1 n)
      intro q1 pile1
      apply Prog.wp_seq (wp_strategy_pile may p2.strategy.fp p2 n)
      intro q2 pile2
      exact ⟨pile1, pile2⟩
    · exact ⟨.inl rfl, .inl rfl⟩
  apply Prog.wp_seq event
  rintro ⟨q1, q2⟩ piles
  exact wp_assert_seq trivial fun _ => wp_assert_seq trivial fun _ => piles

/-- A stake drawn by a ready player, before others. -/
theorem Drew.stake (ready : Ready kWarSize p q) (pile : q.pile = p.pile ∨ q.pile = []) (some : p.ncards ≠ 0)
    (rest : Drew q.staked cards r) : Drew p ((q.warHand.dump ++ [q.warHand.flip]) ++ cards) r := by
  constructor
  · calc p.cards.Perm ((q.warHand.dump ++ [q.warHand.flip]) ++ q.staked.cards) := ready.staked_perm some
      List.Perm _ ((q.warHand.dump ++ [q.warHand.flip]) ++ (cards ++ r.cards)) := rest.cards.append_left _
      _ = ((q.warHand.dump ++ [q.warHand.flip]) ++ cards) ++ r.cards := (List.append_assoc ..).symm
  · rcases rest.pile with same | empty
    · rw [same, Player.staked_pile]
      exact pile
    · exact .inr empty

theorem Drew.refl (p : Player) : Drew p [] p := ⟨.refl _, .inl rfl⟩

theorem decidedBy_ne (c1 c2 : Card) (t : Table) : decidedBy c1 c2 t ≠ .kNone := by
  unfold decidedBy
  split
  · decide
  split
  · decide
  split
  · decide
  · decide

/-- A hand that is decided at once. -/
theorem Descended.decided (c1 c2 : Card) (t : Table) :
    Descended t ⟨[], decidedBy c1 c2 t.countHand, t.countHand⟩ := by
  constructor
  · exact decidedBy_ne c1 c2 _
  · intro x
    cases x with
    | kOne => exact Drew.refl _
    | kTwo => exact Drew.refl _
    | kNone => exact Drew.refl _
  · rfl
  · intro s within
    exact absurd within List.not_mem_nil

/-- A war before the others. -/
theorem Descended.war {q1 q2 : Player} {d : Descent} (ready1 : Ready kWarSize t.p1 q1)
    (ready2 : Ready kWarSize t.p2 q2) (pile1 : q1.pile = t.p1.pile ∨ q1.pile = [])
    (pile2 : q2.pile = t.p2.pile ∨ q2.pile = []) (in1 : t.p1.ncards ≠ 0) (in2 : t.p2.ncards ≠ 0)
    (valid1 : q1.StakesValid) (valid2 : q2.StakesValid)
    (inner : Descended ⟨q1.staked, q2.staked, t.countHand.result⟩ d) :
    Descended t { d with wars := (q1.warHand, q2.warHand) :: d.wars } := by
  have drew1 := Drew.stake ready1 pile1 in1 (inner.drew .kOne)
  have drew2 := Drew.stake ready2 pile2 in2 (inner.drew .kTwo)
  constructor
  · exact inner.won
  · intro x
    cases x with
    | kOne => exact drew1
    | kTwo => exact drew2
    | kNone => exact drew1
  · rw [inner.result]
    simp only [Table.countHand, List.length_cons]
    congr 1
    omega
  · intro s within
    rcases List.mem_cons.1 within with rfl | deeper
    · exact ⟨valid1.dump, valid2.dump⟩
    · exact inner.valid s deeper

/-- **The way down** asks for the strategies alone. -/
theorem wp_descendFuel (n : Nat) : Prog.wp (strategyOnly may) (descendFuel n c1 c2 t) (Descended t) := by
  induction n generalizing c1 c2 t with
  | zero => trivial
  | succ n ih =>
    rw [descendFuel, descendBody]
    refine wp_assert_seq trivial fun _ => wp_assert_seq trivial fun _ => ?_
    dsimp only
    split
    · exact Descended.decided c1 c2 t
    refine wp_assert_seq trivial fun _ => wp_assert_seq trivial fun _ => ?_
    split
    · exact Descended.decided c1 c2 t
    rename_i goesOn
    obtain ⟨in1, in2⟩ := not_or.1 goesOn
    apply Prog.wp_seq (wp_decideShuffle_pile may)
    rintro ⟨q1, q2⟩ ⟨⟨pile1, pile2⟩, ready1, ready2⟩
    refine wp_ofPlayer_seq trivial fun valid1 => wp_ofPlayer_seq trivial fun valid2 => ?_
    refine wp_assert_seq trivial fun _ => wp_assert_seq trivial fun _ => ?_
    apply Prog.wp_seq ih
    intro d inner
    exact Descended.war ready1 ready2 pile1 pile2 in1 in2 valid1 valid2 inner

end Down

/-! ## The way up -/

section Up

variable (may : MayAnswer) {w x : PlayerEnum} {t bottom : Table} {cards : List Card} {s : Stakes} {wars : List Stakes}
  {c1 c2 : Card}

/-- The strategies do not ask, and no assertion fails. -/
def spoilsOnly : Contract requests Fault := ⟨env may, fun q => q.ofStrategy = false, fun _ => False⟩

theorem give_seat (won : w ≠ .kNone) : (t.give w cards).seat w = (t.seat w).takeAll cards := by
  cases w, won using PlayerEnum.won_cases with
  | kOne => rfl
  | kTwo => rfl

theorem give_seat_mirror : (t.give w cards).seat w.mirror = t.seat w.mirror := by
  cases w <;> rfl

@[simp] theorem give_lost : (t.give w cards).lost x = t.lost x := by
  cases w <;> cases x <;> rfl

@[simp] theorem record_seat {dump1 dump2 : List Card} : (t.record w dump1 dump2).seat x = t.seat x := by
  cases w <;> cases x <;> rfl

theorem record_lost (won : w ≠ .kNone) {dump1 dump2 : List Card} : (t.record w dump1 dump2).lost w = t.lost w := by
  cases w, won using PlayerEnum.won_cases with
  | kOne => rfl
  | kTwo => rfl

theorem record_lost_mirror (won : w ≠ .kNone) :
    (t.record w s.1.dump s.2.dump).lost w.mirror = t.lost w.mirror ++ (s.of w.mirror).dump := by
  cases w, won using PlayerEnum.won_cases with
  | kOne => rfl
  | kTwo => rfl

theorem wp_settle_spoils (won : w ≠ .kNone) :
    Prog.wp (spoilsOnly may) (settle w c1 c2 t) fun y =>
      ∃ two : List Card, two.Perm [c1, c2] ∧ y = (w, t.give w two) := by
  rw [settle_eq won, Prog.wp_bind]
  refine ⟨rfl, ?_⟩
  intro r _
  refine ⟨_, ?_, rfl⟩
  split
  · exact List.Perm.swap c1 c2 []
  · exact List.Perm.refl _

theorem wp_divide_spoils (won : w ≠ .kNone) (valid1 : ∀ c ∈ s.1.dump, 1 < c) (valid2 : ∀ c ∈ s.2.dump, 1 < c) :
    Prog.wp (spoilsOnly may) (divide w s.1 s.2 t) fun u =>
      ∃ cards : List Card, cards.Perm (s.1.dump ++ s.2.dump) ∧ u = (t.give w cards).record w s.1.dump s.2.dump := by
  rw [divide_eq won valid1 valid2, Prog.wp_bind]
  refine ⟨rfl, ?_⟩
  rintro ⟨cards, perm⟩ _
  exact ⟨cards, perm, rfl⟩

/-- The deciding hand: the winner takes its two cards. -/
theorem Ascended.decided (won : w ≠ .kNone) {two : List Card} (both : two.Perm [c1, c2]) :
    Ascended w bottom [] c1 c2 ⟨w, [], bottom.give w two⟩ := by
  constructor
  · rfl
  · rfl
  · exact Table.give_nhands two
  · exact give_seat_mirror
  · exact ⟨two, give_seat won, both⟩
  · exact give_lost
  · exact ⟨[], give_lost.trans (List.append_nil _).symm, .refl _⟩

/-- A war on the way up: the winner takes the dumps of the war and the two cards before it. -/
theorem Ascended.war (won : w ≠ .kNone) {inner : Ascent} (up : Ascended w bottom wars s.1.flip s.2.flip inner)
    (dumps : cards.Perm (s.1.dump ++ s.2.dump)) {two : List Card} (both : two.Perm [c1, c2]) :
    Ascended w bottom (s :: wars) c1 c2
      ⟨w, w :: inner.nested, ((inner.table.give w cards).record w s.1.dump s.2.dump).give w two⟩ := by
  obtain ⟨taken, seat, takenPerm⟩ := up.taken
  obtain ⟨lost, record, lostPerm⟩ := up.lost
  constructor
  · rfl
  · rw [up.nested]
    rfl
  · rw [Table.give_nhands, Table.record_nhands, Table.give_nhands, up.nhands]
  · rw [give_seat_mirror, record_seat, give_seat_mirror, up.loser]
  · refine ⟨taken ++ cards ++ two, ?_, ?_⟩
    · rw [give_seat won, record_seat, give_seat won, seat]
      simp only [Player.takeAll_eq, List.append_assoc]
    · apply Multiset.coe_eq_coe.1
      have takenCards := Multiset.coe_eq_coe.2 takenPerm
      have dumpCards := Multiset.coe_eq_coe.2 dumps
      have bothCards := Multiset.coe_eq_coe.2 both
      simp only [drawn, List.flatMap_cons, Stakes.of, ← Multiset.coe_add, ← Multiset.cons_coe,
        ← Multiset.singleton_add] at takenCards dumpCards bothCards ⊢
      rw [takenCards, dumpCards, bothCards]
      abel
  · rw [give_lost, record_lost won, give_lost, up.kept]
  · refine ⟨lost ++ (s.of w.mirror).dump, ?_, ?_⟩
    · rw [give_lost, record_lost_mirror won, give_lost, record, List.append_assoc]
    · rw [dumped, List.flatMap_cons]
      exact List.perm_append_comm.trans (lostPerm.append_left _)

/-- **The way up** carries the stakes to the winner and the loser's dumps to its record. -/
theorem wp_ascend (won : w ≠ .kNone) (valid : ∀ s ∈ wars, (∀ c ∈ s.1.dump, 1 < c) ∧ ∀ c ∈ s.2.dump, 1 < c) :
    Prog.wp (spoilsOnly may) (ascend w bottom wars c1 c2) (Ascended w bottom wars c1 c2) := by
  induction wars generalizing c1 c2 with
  | nil =>
    rw [ascend]
    split
    · apply Prog.wp_seq (wp_settle_spoils may won)
      rintro _ ⟨two, both, rfl⟩
      exact Ascended.decided won both
    · exact Ascended.decided won (.refl _)
  | cons s wars ih =>
    obtain ⟨valid1, valid2⟩ := valid s List.mem_cons_self
    rw [ascend]
    apply Prog.wp_seq (ih fun s within => valid s (List.mem_cons_of_mem _ within))
    intro inner up
    rw [up.winner]
    apply Prog.wp_seq (wp_divide_spoils may won valid1 valid2)
    rintro _ ⟨cards, dumps, rfl⟩
    apply Prog.wp_seq (wp_settle_spoils may won)
    rintro _ ⟨two, both, rfl⟩
    exact Ascended.war won up dumps both

end Up

/-! ## A hand -/

/-- What a hand does to the players and the result, by its way down. -/
structure Accounts (c1 c2 : Card) (t : Table) (d : Descent) (a : Ascent) : Prop where
  winner : a.winner = d.winner ∧ d.winner ≠ .kNone
  nested : a.nested = List.replicate d.wars.length d.winner
  nhands : a.table.result.nhands = t.result.nhands + (d.wars.length + 1)
  strategies : ∀ x, Drew (t.seat x) (drawn x d.wars) (d.table.seat x)
  loser : a.table.seat d.winner.mirror = d.table.seat d.winner.mirror
  winnerHand : (a.table.seat d.winner).hand = (d.table.seat d.winner).hand
  winnerPile : ∃ cards, (a.table.seat d.winner).pile = (d.table.seat d.winner).pile ++ cards ∧
    cards.Perm (c1 :: c2 :: (drawn .kOne d.wars ++ drawn .kTwo d.wars))
  winnerRecord : a.table.lost d.winner = t.lost d.winner
  loserRecord : ∃ dumps, a.table.lost d.winner.mirror = t.lost d.winner.mirror ++ dumps ∧
    dumps.Perm (dumped d.winner.mirror d.wars)

theorem Accounts.of_ways {c1 c2 : Card} {t : Table} {d : Descent} {a : Ascent} (down : Descended t d)
    (up : Ascended d.winner d.table d.wars c1 c2 a) : Accounts c1 c2 t d a := by
  have record : ∀ x, d.table.lost x = t.lost x := by
    intro x
    cases x <;> simp only [Table.lost, down.result]
  obtain ⟨taken, seat, takenPerm⟩ := up.taken
  obtain ⟨lost, lostRecord, lostPerm⟩ := up.lost
  constructor
  · exact ⟨up.winner, down.won⟩
  · exact up.nested
  · rw [up.nhands, down.result]
  · exact down.drew
  · exact up.loser
  · rw [seat, Player.takeAll_eq]
  · refine ⟨taken, ?_, takenPerm⟩
    rw [seat, Player.takeAll_eq]
  · rw [up.kept, record]
  · refine ⟨lost, ?_, lostPerm⟩
    rw [lostRecord, record]

/-- **The winner takes exactly the stakes.** A hand of valid cards fails no assertion and is its way
down, in which only the strategies ask, and its way up, in which they do not; what it comes to is
read off the way down. -/
theorem winner_takes_stakes (may : MayAnswer) (c1 c2 : Card) (t : Table) (pos1 : 0 < c1) (pos2 : 0 < c2)
    (valid1 : t.p1.CardsValid) (valid2 : t.p2.CardsValid) :
    (∀ f, ¬ Prog.Faults (env may) (playHand c1 c2 t) f) ∧
      playHand c1 c2 t =
        Ascent.result <$> (descend c1 c2 t >>= fun d => ascend d.winner d.table d.wars c1 c2) ∧
      (∀ q, Prog.Asks (env may) (descend c1 c2 t) q → q.ofStrategy = true) ∧
      ∀ d, Prog.Returns (env may) (descend c1 c2 t) d →
        (∀ q, Prog.Asks (env may) (ascend d.winner d.table d.wars c1 c2) q → q.ofStrategy = false) ∧
          ∀ a, Prog.Returns (env may) (ascend d.winner d.table d.wars c1 c2) a → Accounts c1 c2 t d a := by
  have noFault := wp_playHand (E := env may) _ (Nat.lt_succ_self t.p1.ncards) pos1 pos2 valid1 valid2
  have down := Prog.wp_iff.1 (@wp_descendFuel may t c1 c2 (t.p1.ncards + 1))
  refine ⟨(Prog.wp_safe_iff.1 noFault).2, playHand_eq_descend c1 c2 t, down.2.2, ?_⟩
  intro d ret
  have descended := down.1 d ret
  have up := Prog.wp_iff.1 (@wp_ascend may d.winner d.table d.wars c1 c2 descended.won descended.valid)
  exact ⟨up.2.2, fun a returned => Accounts.of_ways descended (up.1 a returned)⟩

/-- Two players with four cards each, and what a war between them comes down to. -/
def tiedTable : Table :=
  ⟨⟨[5, 6, 7, 9], ⟨2, .combineOnlyStrategy⟩, []⟩, ⟨[5, 6, 7, 8], ⟨2, .combineOnlyStrategy⟩, []⟩, {}⟩

def tiedDescent : Descent where
  wars := [(⟨[5, 6, 7], 9⟩, ⟨[5, 6, 7], 8⟩)]
  winner := .kOne
  table := ⟨⟨[], ⟨2, .combineOnlyStrategy⟩, []⟩, ⟨[], ⟨2, .combineOnlyStrategy⟩, []⟩, { nhands := 2 }⟩

theorem winner_takes_stakes_tied :
    (∀ f, ¬ Prog.Faults (env fun _ _ _ _ => True) (playHand 7 7 tiedTable) f) ∧
      ∀ a, Prog.Returns (env fun _ _ _ _ => True) (ascend .kOne tiedDescent.table tiedDescent.wars 7 7) a →
        Accounts 7 7 tiedTable tiedDescent a := by
  have down : descend 7 7 tiedTable = pure tiedDescent := rfl
  obtain ⟨noFault, -, -, accounts⟩ := winner_takes_stakes (fun _ _ _ _ => True) 7 7 tiedTable (by decide) (by decide)
    (by unfold Player.CardsValid; decide) (by unfold Player.CardsValid; decide)
  refine ⟨noFault, ?_⟩
  apply (accounts tiedDescent _).2
  rw [down]
  rfl

end Maskset.War
