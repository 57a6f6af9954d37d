import FlowerRoute.Verif.Allocators

/-!
# The order of the trees

The trees of positions and of chains after any insertions of any numbers. `u32cmp` subtracts, and
its result has the right sign only where the difference fits an `int`. The trees are in order
exactly as long as every comparison on the way down is of that kind.
-/

namespace FlowerRoute

open Outcome

section Comparison

variable {a b c : UInt32} {p q : UInt16}

/-- The difference of two numbers fits an `int`. -/
def FitsInt (a b : UInt32) : Prop :=
  -2 ^ 31 ≤ (a.toNat : Int) - b.toNat ∧ (a.toNat : Int) - b.toNat < 2 ^ 31

instance (a b : UInt32) : Decidable (FitsInt a b) :=
  inferInstanceAs (Decidable (_ ∧ _))

/-- `u32cmp` is the difference up to a multiple of the range of an `int`. -/
theorem u32cmp_eq (a b : UInt32) : u32cmp a b = ((a.toNat : Int) - b.toNat).bmod (2 ^ 32) := by
  have left : a.toBitVec.toInt = (a.toNat : Int).bmod (2 ^ 32) := BitVec.toInt_eq_toNat_bmod _
  have right : b.toBitVec.toInt = (b.toNat : Int).bmod (2 ^ 32) := BitVec.toInt_eq_toNat_bmod _
  rw [u32cmp, UInt32.toBitVec_sub, BitVec.toInt_sub, left, right, Int.bmod_sub_bmod,
    Int.sub_bmod_bmod]

/-- The comparison is right exactly where the difference fits. -/
theorem fitsInt_iff (apart : a ≠ b) :
    FitsInt a b ↔ (u32cmp a b < 0 → a.toNat < b.toNat) ∧ (0 < u32cmp a b → b.toNat < a.toNat) := by
  have different : a.toNat ≠ b.toNat := fun same => apart (UInt32.toNat_inj.mp same)
  have left := a.toNat_lt
  have right := b.toNat_lt
  rw [u32cmp_eq, FitsInt, Int.bmod_def]
  omega

/-- Where the difference fits, the comparison follows the order of the numbers. -/
theorem u32cmp_fits (fits : FitsInt a b) :
    (u32cmp a b < 0 ↔ a < b) ∧ (0 < u32cmp a b ↔ b < a) := by
  by_cases same : a = b
  · subst same
    simp [u32cmp_eq_zero.mpr rfl]
  · have nonzero : u32cmp a b ≠ 0 := fun zero => same (u32cmp_eq_zero.mp zero)
    obtain ⟨less, greater⟩ := (fitsInt_iff same).mp fits
    rw [UInt32.lt_iff_toNat_lt, UInt32.lt_iff_toNat_lt]
    omega

/-- Where the difference fits, the comparison of positions follows their order. -/
theorem posSign_fits (fits : FitsInt a b) :
    (posSign a p b q < 0 ↔ Precedes a p b q) ∧ (0 < posSign a p b q ↔ Precedes b q a p) := by
  by_cases same : a = b
  · subst same
    rw [posSign, if_pos (u32cmp_eq_zero.mpr rfl)]
    simp only [Precedes, u16cmp, true_and]
    omega
  · have nonzero : u32cmp a b ≠ 0 := fun zero => same (u32cmp_eq_zero.mp zero)
    obtain ⟨less, greater⟩ := (fitsInt_iff same).mp fits
    rw [posSign, if_neg nonzero]
    simp only [Precedes, same, Ne.symm same, false_and, or_false]
    omega

/-- Where the comparison of positions follows their order, the difference fits. -/
theorem fitsInt_of_posSign (less : posSign a p b q < 0 → Precedes a p b q)
    (greater : 0 < posSign a p b q → Precedes b q a p) : FitsInt a b := by
  by_cases same : a = b
  · subst same
    simp [FitsInt]
  · have nonzero : u32cmp a b ≠ 0 := fun zero => same (u32cmp_eq_zero.mp zero)
    rw [posSign, if_neg nonzero] at less greater
    simp only [Precedes, same, Ne.symm same, false_and, or_false] at less greater
    exact (fitsInt_iff same).mpr ⟨less, greater⟩

end Comparison

section Rules

variable {w w' : World} {position : UInt32 × UInt16} {positions : List (UInt32 × UInt16)}

/-- The position of a rule. -/
def World.place (w : World) (r : RuleId) : UInt32 × UInt16 :=
  ((w.rules.cell r).chainNo, (w.rules.cell r).prio)

/-- The positions in the tree. -/
def World.places (w : World) : List (UInt32 × UInt16) := w.posTree.toList.map w.place

/-- A new rule at a position is inserted. -/
def insertRule (position : UInt32 × UInt16) (w : World) : Except Fault World :=
  let (r, w) := objRuleAlloc { chainNo := position.1, prio := position.2 } w
  objRulePosInsert r w

/-- New rules are inserted one after the other. -/
def insertRules (positions : List (UInt32 × UInt16)) (w : World) : Except Fault World :=
  positions.foldlM (fun w position => insertRule position w) w

/-- Every comparison on the way to a position is of numbers whose difference fits an `int`. -/
def World.PosFits (w : World) (position : UInt32 × UInt16) : Prop :=
  ∀ r ∈ w.posTree.path (posCompare position.1 position.2 w),
    FitsInt position.1 (w.rules.cell r).chainNo

/-- So is every comparison of some insertions. -/
def RulesFit : List (UInt32 × UInt16) → World → Prop
  | [], _ => True
  | position :: rest, w => w.PosFits position ∧ ∀ w', insertRule position w = .ok w' → RulesFit rest w'

/-- The rules of the tree have been made and not been reaped. -/
def World.Grown (w : World) : Prop := ∀ r ∈ w.posTree.toList, w.Live r ∧ r < w.rules.next

/-- The tree is in the order of positions. -/
def World.PosOrdered (w : World) : Prop := w.posTree.toList.Pairwise w.Precedes

/-- The sign of a comparison with a rule of the tree. -/
theorem World.Grown.compare (grown : w.Grown) {r : RuleId} (inside : r ∈ w.posTree.toList) :
    posCompare position.1 position.2 w r =
      .ok (posSign position.1 position.2 (w.rules.cell r).chainNo (w.rules.cell r).prio) :=
  posCompare_live (grown r inside).1

/-- What guides a descent to a position are comparisons that fit. -/
theorem guides_iff_posFits (grown : w.Grown) {new : RuleId}
    (kept : ∀ r ∈ w.posTree.toList, w'.rules.cell r = w.rules.cell r)
    (here : w'.place new = position) :
    w.posTree.Guides w'.Precedes (posCompare position.1 position.2 w) new ↔ w.PosFits position := by
  subst here
  constructor
  · intro guides r visited
    have inside := SearchTree.path_subset visited
    obtain ⟨less, greater⟩ := guides r visited _ (grown.compare inside)
    rw [World.Precedes, kept r inside] at less greater
    exact fitsInt_of_posSign less greater
  · intro fits r visited sign same
    have inside := SearchTree.path_subset visited
    rw [grown.compare inside] at same
    cases same
    rw [World.Precedes, World.Precedes, kept r inside]
    exact ⟨(posSign_fits (fits r visited)).1.mp, (posSign_fits (fits r visited)).2.mp⟩

/-- The descent to a position comes to an end. -/
theorem World.Grown.link (grown : w.Grown) (position : UInt32 × UInt16) (new : RuleId) :
    ∃ linked, w.posTree.link (posCompare position.1 position.2 w) new = .ok linked := by
  rw [SearchTree.link_congr new fun r inside => grown.compare inside]
  obtain ⟨linked, done, -⟩ := Ends.returns (@SearchTree.link_faults _ Fault (fun _ => False)
    (fun r => .ok (posSign position.1 position.2 (w.rules.cell r).chainNo (w.rules.cell r).prio))
    (fun _ => trivial) new w.posTree)
  exact ⟨linked, done⟩

/-- A new rule beside a tree that has perhaps been linked to it. -/
def World.withRule (w : World) (position : UInt32 × UInt16) (linked : Option (SearchTree RuleId)) :
    World :=
  { (objRuleAlloc { chainNo := position.1, prio := position.2, havePos := linked.isSome } w).2 with
    posTree := (linked.map (w.balancing.insertColor w.rules.next)).getD w.posTree }

/-- What an insertion does. -/
theorem insertRule_eq (grown : w.Grown) {linked : Option (SearchTree RuleId)}
    (done : w.posTree.link (posCompare position.1 position.2 w) w.rules.next = .ok linked) :
    insertRule position w = .ok (w.withRule position linked) := by
  have kept : ∀ r ∈ w.posTree.toList, posCompare position.1 position.2
      (objRuleAlloc { chainNo := position.1, prio := position.2 } w).2 r =
        posCompare position.1 position.2 w r := fun r inside => by
    have cell := Heap.cell_alloc_ne w.rules
      { chainNo := position.1, prio := position.2, obj := { kind := .rule } : ObjRule }
      (Nat.ne_of_lt (grown r inside).2)
    simp only [posCompare, World.rule, objRuleAlloc, cell]
  rw [← SearchTree.link_congr w.rules.next kept] at done
  simp only [objRuleAlloc] at done
  cases linked <;> simp [insertRule, World.withRule, objRuleAlloc, objRulePosInsert, World.rule,
    follow, require, bind, Except.bind, done, pure, Except.pure, World.setRule]

/-- One insertion: the tree stays in order exactly when its comparisons fit, and afterwards the
position is taken. -/
theorem insertRule_spec (grown : w.Grown) (position : UInt32 × UInt16) :
    ∃ w', insertRule position w = .ok w' ∧ w'.Grown ∧
    (w'.PosOrdered ↔ w.PosOrdered ∧ w.PosFits position) ∧
    ∀ other, other ∈ w'.places ↔ other = position ∨ other ∈ w.places := by
  obtain ⟨linked, done⟩ := grown.link position w.rules.next
  refine ⟨w.withRule position linked, insertRule_eq grown done, ?_⟩
  have kept : ∀ r ∈ w.posTree.toList,
      (w.withRule position linked).rules.cell r = w.rules.cell r := fun r inside =>
    Heap.cell_alloc_ne _ _ (Nat.ne_of_lt (grown r inside).2)
  have ordered : w.posTree.toList.Pairwise (w.withRule position linked).Precedes ↔
      w.PosOrdered := by
    apply List.Pairwise.iff_of_mem
    intro r p inside inside'
    rw [World.Precedes, World.Precedes, kept r inside, kept p inside']
  have old : ∀ r ∈ w.posTree.toList, (w.withRule position linked).Live r ∧
      r < (w.withRule position linked).rules.next := fun r inside => by
    refine ⟨?_, Nat.lt_succ_of_lt (grown r inside).2⟩
    rw [World.Live, kept r inside]
    exact (grown r inside).1
  have places : w.posTree.toList.map (w.withRule position linked).place = w.places := by
    apply List.map_congr_left
    intro r inside
    rw [World.place, World.place, kept r inside]
  cases linked with
  | none =>
    obtain ⟨found, search⟩ := SearchTree.find_of_link_none done
    obtain ⟨inside, equal⟩ := SearchTree.find_some search
    obtain ⟨-, chain, prio⟩ := posCompare_eq_zero equal
    have here : w.place found = position := Prod.ext chain prio
    refine ⟨old, ?_, fun other => ?_⟩
    · rw [show (w.withRule position none).PosOrdered ↔ w.PosOrdered from ordered, iff_self_and]
      intro sorted
      exact (guides_iff_posFits grown (fun _ _ => rfl) here).mp
        (SearchTree.guides_of_find sorted search)
    · rw [show (w.withRule position none).places = w.places from places, iff_or_self]
      rintro rfl
      exact here ▸ List.mem_map_of_mem inside
  | some linked =>
    have tree : (w.withRule position (some linked)).posTree.toList = linked.toList :=
      w.balancing.insertColor_toList w.rules.next linked
    have new : (w.withRule position (some linked)).place w.rules.next = position := by
      simp [World.place, World.withRule, objRuleAlloc]
    refine ⟨fun r inside => ?_, ?_, fun other => ?_⟩
    · rw [tree] at inside
      rcases (SearchTree.mem_link done).mp inside with rfl | member
      · simp [World.Live, World.withRule, objRuleAlloc]
      · exact old r member
    · have guided : linked.toList.Pairwise (w.withRule position (some linked)).Precedes ↔ _ :=
        SearchTree.pairwise_link_iff done fun _ _ _ => Precedes.trans
      rw [World.PosOrdered, tree, guided, ordered, guides_iff_posFits grown kept new]
    · rw [World.places, tree, List.mem_map, ← places, List.mem_map]
      constructor
      · rintro ⟨r, inside, rfl⟩
        rcases (SearchTree.mem_link done).mp inside with rfl | member
        · exact .inl new
        · exact .inr ⟨r, member, rfl⟩
      · rintro (rfl | ⟨r, member, rfl⟩)
        · exact ⟨w.rules.next, (SearchTree.mem_link done).mpr (.inl rfl), new⟩
        · exact ⟨r, (SearchTree.mem_link done).mpr (.inr member), rfl⟩

/-- Insertions one after the other. -/
theorem insertRules_spec (grown : w.Grown) (positions : List (UInt32 × UInt16)) :
    ∃ w', insertRules positions w = .ok w' ∧ w'.Grown ∧
    (w'.PosOrdered ↔ w.PosOrdered ∧ RulesFit positions w) ∧
    ∀ other, other ∈ w'.places ↔ other ∈ positions ∨ other ∈ w.places := by
  induction positions generalizing w with
  | nil => exact ⟨w, rfl, grown, by simp [RulesFit], by simp⟩
  | cons position rest ih =>
    obtain ⟨w₁, first, grown₁, ordered₁, places₁⟩ := insertRule_spec grown position
    obtain ⟨w', ran, grown', ordered', places'⟩ := ih grown₁
    refine ⟨w', ?_, grown', ?_, fun other => ?_⟩
    · rw [insertRules, List.foldlM_cons, first, ok_bind]
      exact ran
    · have fits : RulesFit (position :: rest) w ↔ w.PosFits position ∧ RulesFit rest w₁ := by
        refine and_congr_right fun _ => ⟨fun later => later w₁ first, fun later w₂ same => ?_⟩
        rw [first] at same
        cases same
        exact later
      rw [ordered', ordered₁, fits, and_assoc]
    · rw [places', places₁, List.mem_cons]
      tauto

end Rules

section Chains

variable {w w' : World} {chainNo : UInt32} {chains : List UInt32}

/-- The comparison of `chain_lookup` with a chain of the tree. -/
def chainCompare (chainNo this : UInt32) : Except Fault Int := .ok (u32cmp chainNo this)

/-- Chains are inserted one after the other. -/
def insertChains (chains : List UInt32) (w : World) : Except Fault World :=
  chains.foldlM (fun w chainNo => do return (← chainInsert chainNo w).2) w

/-- Every comparison on the way to a chain is of numbers whose difference fits an `int`. -/
def World.ChainFits (w : World) (chainNo : UInt32) : Prop :=
  ∀ this ∈ w.chainTree.path (chainCompare chainNo), FitsInt chainNo this

/-- So is every comparison of some insertions. -/
def ChainsFit : List UInt32 → World → Prop
  | [], _ => True
  | chainNo :: rest, w =>
    w.ChainFits chainNo ∧ ∀ result, chainInsert chainNo w = .ok result → ChainsFit rest result.2

/-- The tree of chains is ascending. -/
def World.ChainsOrdered (w : World) : Prop := w.chainTree.toList.Pairwise (· < ·)

/-- What guides a descent to a chain are comparisons that fit. -/
theorem guides_iff_chainFits :
    w.chainTree.Guides (· < ·) (chainCompare chainNo) chainNo ↔ w.ChainFits chainNo := by
  constructor
  · intro guides this visited
    obtain ⟨less, greater⟩ := guides this visited _ rfl
    by_cases same : chainNo = this
    · subst same
      simp [FitsInt]
    · exact (fitsInt_iff same).mpr ⟨less, greater⟩
  · intro fits this visited sign same
    cases same
    by_cases equal : chainNo = this
    · subst equal
      simp [u32cmp_eq_zero.mpr rfl]
    · exact (fitsInt_iff equal).mp (fits this visited)

/-- One insertion: the tree stays in order exactly when its comparisons fit, and afterwards it
has the chain. -/
theorem chainInsert_spec (w : World) (chainNo : UInt32) :
    ∃ result, chainInsert chainNo w = .ok result ∧
    (result.2.ChainsOrdered ↔ w.ChainsOrdered ∧ w.ChainFits chainNo) ∧
    ∀ other, other ∈ result.2.chainTree.toList ↔ other = chainNo ∨ other ∈ w.chainTree.toList := by
  obtain ⟨linked, done, -⟩ := Ends.returns (@SearchTree.link_faults _ Fault (fun _ => False)
    (chainCompare chainNo) (fun _ => trivial) chainNo w.chainTree)
  have search : w.chainTree.link (fun this => .ok (u32cmp chainNo this)) chainNo = .ok linked := done
  cases linked with
  | none =>
    refine ⟨(false, w), by rw [chainInsert, search]; rfl, ?_, fun other => ?_⟩
    all_goals
      obtain ⟨found, search⟩ := SearchTree.find_of_link_none done
      obtain ⟨inside, equal⟩ := SearchTree.find_some search
      have same : chainNo = found := u32cmp_eq_zero.mp (Except.ok.inj equal)
      subst same
    · rw [iff_self_and]
      intro sorted
      exact guides_iff_chainFits.mp (SearchTree.guides_of_find sorted search)
    · rw [iff_or_self]
      rintro rfl
      exact inside
  | some linked =>
    have tree := w.chainBalancing.insertColor_toList chainNo linked
    refine ⟨(true, { w with chainTree := w.chainBalancing.insertColor chainNo linked }),
      by rw [chainInsert, search]; rfl, ?_, fun other => ?_⟩
    · have guided : linked.toList.Pairwise (· < ·) ↔ _ :=
        SearchTree.pairwise_link_iff done fun _ _ _ => UInt32.lt_trans
      rw [World.ChainsOrdered, tree, guided, guides_iff_chainFits, World.ChainsOrdered]
    · rw [tree]
      exact SearchTree.mem_link done

/-- Insertions one after the other. -/
theorem insertChains_spec (w : World) (chains : List UInt32) :
    ∃ w', insertChains chains w = .ok w' ∧
    (w'.ChainsOrdered ↔ w.ChainsOrdered ∧ ChainsFit chains w) ∧
    ∀ other, other ∈ w'.chainTree.toList ↔ other ∈ chains ∨ other ∈ w.chainTree.toList := by
  induction chains generalizing w with
  | nil => exact ⟨w, rfl, by simp [ChainsFit], by simp⟩
  | cons chainNo rest ih =>
    obtain ⟨⟨ret, w₁⟩, first, ordered₁, members₁⟩ := chainInsert_spec w chainNo
    obtain ⟨w', ran, ordered', members'⟩ := ih w₁
    refine ⟨w', ?_, ?_, fun other => ?_⟩
    · rw [insertChains, List.foldlM_cons, first]
      exact ran
    · have fits : ChainsFit (chainNo :: rest) w ↔ w.ChainFits chainNo ∧ ChainsFit rest w₁ := by
        refine and_congr_right fun _ => ⟨fun later => later _ first, fun later result same => ?_⟩
        rw [first] at same
        cases same
        exact later
      rw [ordered', ordered₁, fits, and_assoc]
    · rw [members', members₁, List.mem_cons]
      tauto

end Chains

section Orders

variable {w w' : World}

/-- The tree of positions after some insertions: every position is found, none is stored twice,
the walk ascends, and the search for a priority of a chain is the search among the rules of that
chain, none of which its early exits skip or cut off. -/
structure World.RulesInOrder (w : World) (positions : List (UInt32 × UInt16)) : Prop where
  found : ∀ position ∈ positions, ∃ r,
    objRulePosLookup position.1 position.2 w = .ok (some r) ∧ w.place r = position
  once : w.places.Nodup
  ascending : w.PosOrdered
  search : ∀ (chainNo : UInt32) (minPrio ret : UInt16),
    findAvailablePrioLoop chainNo minPrio w w.posTree.toList ret =
      findAvailablePrioLoop chainNo minPrio w
        (w.posTree.toList.filter fun r => (w.rules.cell r).chainNo = chainNo) ret

/-- The tree of chains after some insertions. -/
structure World.ChainsInOrder (w : World) (chains : List UInt32) : Prop where
  found : ∀ chainNo ∈ chains, chainLookup chainNo w = .ok (some chainNo)
  once : w.chainTree.toList.Nodup
  ascending : w.ChainsOrdered

/-- A tree in the order of positions in which the lookups fit. -/
theorem World.PosOrdered.inOrder (ordered : w.PosOrdered) (grown : w.Grown)
    {positions : List (UInt32 × UInt16)} (inside : ∀ position ∈ positions, position ∈ w.places) :
    w.RulesInOrder positions ↔ ∀ position ∈ positions, w.PosFits position := by
  constructor
  · rintro ⟨found, -, -, -⟩ position asked
    obtain ⟨r, search, here⟩ := found position asked
    exact (guides_iff_posFits grown (fun _ _ => rfl) here).mp
      (SearchTree.guides_of_find ordered search)
  · intro fits
    refine ⟨fun position asked => ?_, ?_, ordered, fun chainNo minPrio ret => ?_⟩
    · obtain ⟨member, among, here⟩ := List.mem_map.mp (inside position asked)
      subst here
      obtain ⟨found, search⟩ := SearchTree.find_of_path ordered among
        (show posCompare (w.place member).1 (w.place member).2 w member = .ok 0 by
          rw [grown.compare among, World.place, posSign, if_pos (u32cmp_eq_zero.mpr rfl),
            u16cmp_eq_zero.mpr rfl])
        fun other visited => by
          have compared := @World.Grown.compare w (w.place member) grown other
            (SearchTree.path_subset visited)
          have signs := @posSign_fits _ _ (w.place member).2 (w.rules.cell other).prio
            (fits _ asked other visited)
          exact ⟨_, compared, signs.1.mpr, signs.2.mpr⟩
      obtain ⟨-, -, chain, prio⟩ := objRulePosLookup_some search
      exact ⟨found, search, Prod.ext chain prio⟩
    · rw [World.places, List.Nodup, List.pairwise_map]
      refine ordered.imp fun {r p} before same => ?_
      have chain : (w.rules.cell r).chainNo = (w.rules.cell p).chainNo := congrArg Prod.fst same
      have prio : (w.rules.cell r).prio = (w.rules.cell p).prio := congrArg Prod.snd same
      rw [World.Precedes, chain, prio] at before
      exact Precedes.irrefl before
    · have live : ∀ r ∈ w.posTree.toList, w.Live r := fun r among => (grown r among).1
      have sorted : w.posTree.toList.Pairwise w.Precedes := ordered
      rw [findAvailablePrioLoop_gap live sorted, findAvailablePrioLoop_gap
        (fun r among => live r (List.mem_of_mem_filter among)) (sorted.filter _)]
      simp [World.prios, List.filter_filter]

/-- An ascending tree of chains in which the lookups fit. -/
theorem World.ChainsOrdered.inOrder (ordered : w.ChainsOrdered) {chains : List UInt32}
    (inside : ∀ chainNo ∈ chains, chainNo ∈ w.chainTree.toList) :
    w.ChainsInOrder chains ↔ ∀ chainNo ∈ chains, w.ChainFits chainNo := by
  constructor
  · rintro ⟨found, -, -⟩ chainNo asked
    exact guides_iff_chainFits.mp (SearchTree.guides_of_find ordered (found chainNo asked))
  · intro fits
    refine ⟨fun chainNo asked => ?_, ordered.imp fun less same => ?_, ordered⟩
    · have equal : chainCompare chainNo chainNo = .ok 0 := by
        rw [chainCompare, u32cmp_eq_zero.mpr rfl]
      obtain ⟨found, search⟩ := SearchTree.find_of_path ordered (inside chainNo asked) equal
        fun other visited => by
          have signs := u32cmp_fits (fits chainNo asked other visited)
          exact ⟨_, rfl, signs.1.mpr, signs.2.mpr⟩
      have equal := (SearchTree.find_some search).2
      have same : chainNo = found := u32cmp_eq_zero.mp (Except.ok.inj equal)
      rw [← same] at search
      exact search
    · subst same
      exact UInt32.lt_irrefl _ less

/-- From empty trees, insertions of any rules and of any chains leave the trees in order exactly
when every comparison on the way of the insertions, and of the later lookups of what was inserted,
is of numbers whose difference fits an `int`. -/
theorem tree_orders (w : World) (positions : List (UInt32 × UInt16)) (chains : List UInt32) :
    (w.posTree = .leaf →
      ∃ w', insertRules positions w = .ok w' ∧
        (w'.RulesInOrder positions ↔
          RulesFit positions w ∧ ∀ position ∈ positions, w'.PosFits position)) ∧
    (w.chainTree = .leaf →
      ∃ w', insertChains chains w = .ok w' ∧
        (w'.ChainsInOrder chains ↔
          ChainsFit chains w ∧ ∀ chainNo ∈ chains, w'.ChainFits chainNo)) := by
  constructor
  · intro empty
    have grown : w.Grown := by simp [World.Grown, empty, SearchTree.toList]
    have start : w.PosOrdered := by simp [World.PosOrdered, empty, SearchTree.toList]
    obtain ⟨w', ran, grown', ordered, places⟩ := insertRules_spec grown positions
    refine ⟨w', ran, ?_⟩
    have inside : ∀ position ∈ positions, position ∈ w'.places := fun position asked =>
      (places position).mpr (.inl asked)
    constructor
    · intro sorted
      refine ⟨(ordered.mp sorted.ascending).2, ?_⟩
      exact (sorted.ascending.inOrder grown' inside).mp sorted
    · rintro ⟨insertions, lookups⟩
      exact ((ordered.mpr ⟨start, insertions⟩).inOrder grown' inside).mpr lookups
  · intro empty
    have start : w.ChainsOrdered := by simp [World.ChainsOrdered, empty, SearchTree.toList]
    obtain ⟨w', ran, ordered, members⟩ := insertChains_spec w chains
    refine ⟨w', ran, ?_⟩
    have inside : ∀ chainNo ∈ chains, chainNo ∈ w'.chainTree.toList := fun chainNo asked =>
      (members chainNo).mpr (.inl asked)
    constructor
    · intro sorted
      exact ⟨(ordered.mp sorted.ascending).2, (sorted.ascending.inOrder inside).mp sorted⟩
    · rintro ⟨insertions, lookups⟩
      exact ((ordered.mpr ⟨start, insertions⟩).inOrder inside).mpr lookups

/-- The way to a position is of comparisons that fit where all numbers of the tree are near. -/
theorem World.posFits_of_near {position : UInt32 × UInt16}
    (near : ∀ other ∈ w.places, FitsInt position.1 other.1) : w.PosFits position := by
  intro r visited
  exact near (w.place r) (List.mem_map_of_mem (SearchTree.path_subset visited))

/-- So are the ways of insertions of numbers that are near one another. -/
theorem rulesFit_of_near (grown : w.Grown) {positions : List (UInt32 × UInt16)}
    (near : ∀ a ∈ positions, ∀ b, b ∈ positions ∨ b ∈ w.places → FitsInt a.1 b.1) :
    RulesFit positions w := by
  induction positions generalizing w with
  | nil => trivial
  | cons position rest ih =>
    refine ⟨World.posFits_of_near fun other among => ?_, fun w₁ ran => ?_⟩
    · exact near position List.mem_cons_self other (.inr among)
    · obtain ⟨w₂, same, grown₁, -, places⟩ := insertRule_spec grown position
      rw [same] at ran
      cases ran
      refine ih grown₁ fun a inside b among => near a (List.mem_cons_of_mem _ inside) b ?_
      rw [places] at among
      rw [List.mem_cons]
      tauto

/-- The way to a chain is of comparisons that fit where all numbers of the tree are near. -/
theorem World.chainFits_of_near {chainNo : UInt32}
    (near : ∀ other ∈ w.chainTree.toList, FitsInt chainNo other) : w.ChainFits chainNo :=
  fun this visited => near this (SearchTree.path_subset visited)

/-- So are the ways of insertions of chains that are near one another. -/
theorem chainsFit_of_near {chains : List UInt32}
    (near : ∀ a ∈ chains, ∀ b, b ∈ chains ∨ b ∈ w.chainTree.toList → FitsInt a b) :
    ChainsFit chains w := by
  induction chains generalizing w with
  | nil => trivial
  | cons chainNo rest ih =>
    refine ⟨World.chainFits_of_near fun other among => ?_, fun result ran => ?_⟩
    · exact near chainNo List.mem_cons_self other (.inr among)
    · obtain ⟨result', same, -, members⟩ := chainInsert_spec w chainNo
      rw [same] at ran
      cases ran
      refine ih fun a inside b among => near a (List.mem_cons_of_mem _ inside) b ?_
      rw [members] at among
      rw [List.mem_cons]
      tauto

/-- Two rules and two chains whose numbers are near. -/
theorem tree_orders_near :
    (∃ w', insertRules [(5, 1), (1, 100)] {} = .ok w' ∧ w'.RulesInOrder [(5, 1), (1, 100)]) ∧
    ∃ w', insertChains [7, 5] {} = .ok w' ∧ w'.ChainsInOrder [7, 5] := by
  obtain ⟨rules, chains⟩ := tree_orders {} [(5, 1), (1, 100)] [7, 5]
  obtain ⟨w, ran, rules⟩ := rules rfl
  obtain ⟨w', ran', chains⟩ := chains rfl
  have grown : World.Grown {} := by simp [World.Grown, SearchTree.toList]
  refine ⟨⟨w, ran, rules.mpr ⟨rulesFit_of_near grown ?_, ?_⟩⟩,
    w', ran', chains.mpr ⟨chainsFit_of_near ?_, ?_⟩⟩
  · simp [World.places, SearchTree.toList, FitsInt]
  · obtain ⟨w₁, same, -, -, places⟩ := insertRules_spec grown [(5, 1), (1, 100)]
    rw [ran] at same
    cases same
    intro position asked
    apply World.posFits_of_near
    intro other among
    rw [places] at among
    revert among other
    revert asked position
    simp [World.places, SearchTree.toList, FitsInt]
  · simp [SearchTree.toList, FitsInt]
  · obtain ⟨w₁, same, -, members⟩ := insertChains_spec {} [7, 5]
    rw [ran'] at same
    cases same
    intro chainNo asked
    apply World.chainFits_of_near
    intro other among
    rw [members] at among
    revert among other
    revert asked chainNo
    simp [SearchTree.toList, FitsInt]

/-- The last chain is inserted before the first one. -/
theorem tree_orders_fail :
    ¬ ((∀ (w : World) (positions : List (UInt32 × UInt16)), w.posTree = .leaf →
        ∃ w', insertRules positions w = .ok w' ∧ w'.RulesInOrder positions) ∧
      ∀ (w : World) (chains : List UInt32), w.chainTree = .leaf →
        ∃ w', insertChains chains w = .ok w' ∧ w'.ChainsInOrder chains) := by
  rintro ⟨-, sorted⟩
  obtain ⟨w', ran, -, -, ascending⟩ := sorted {} [1, 0xffffffff] rfl
  have walk : w'.chainTree.toList = [0xffffffff, 1] := by
    cases ran
    rfl
  rw [World.ChainsOrdered, walk, List.pairwise_cons] at ascending
  exact absurd (ascending.1 1 List.mem_cons_self) (by decide)

end Orders

end FlowerRoute
