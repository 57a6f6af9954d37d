import FlowerRoute.Verif.Sound

/-!
# Positions

What the searches for a rule say about the position of the rule they find.
-/

namespace FlowerRoute

open Outcome

/-- `u32cmp` is zero on equal numbers only. -/
theorem u32cmp_eq_zero {a b : UInt32} : u32cmp a b = 0 ↔ a = b := by
  constructor
  · intro equal
    have bits : (a - b).toBitVec = 0 := BitVec.eq_of_toInt_eq (by simpa [u32cmp] using equal)
    have same : a - b = 0 := UInt32.toBitVec_inj.mp bits
    grind
  · rintro rfl
    simp [u32cmp]

/-- `u16cmp` is zero on equal numbers only. -/
theorem u16cmp_eq_zero {a b : UInt16} : u16cmp a b = 0 ↔ a = b := by
  rw [u16cmp]
  constructor
  · intro equal
    exact UInt16.toNat_inj.mp (by omega)
  · rintro rfl
    omega

section Searches

variable {w : World} {chainNo : UInt32} {prio : UInt16} {tcr : TcRule} {r : RuleId}

/-- A rule that compares equal to a position is at that position. -/
theorem posCompare_eq_zero (equal : posCompare chainNo prio w r = .ok 0) :
    w.Live r ∧ (w.rules.cell r).chainNo = chainNo ∧ (w.rules.cell r).prio = prio := by
  obtain ⟨rule, followed, compared⟩ := bind_returned equal
  obtain ⟨live, rfl⟩ := rule_ok followed
  have zero : (if u32cmp chainNo (w.rules.cell r).chainNo = 0 then
      u16cmp prio (w.rules.cell r).prio else u32cmp chainNo (w.rules.cell r).chainNo) = 0 :=
    Except.ok.inj compared
  split at zero
  · next chain => exact ⟨live, (u32cmp_eq_zero.mp chain).symm, (u16cmp_eq_zero.mp zero).symm⟩
  · next chain => exact absurd zero chain

/-- A lookup by position finds a rule of the tree at that position. -/
theorem objRulePosLookup_some (search : objRulePosLookup chainNo prio w = .ok (some r)) :
    r ∈ w.posTree.toList ∧ w.Live r ∧ (w.rules.cell r).chainNo = chainNo ∧
      (w.rules.cell r).prio = prio := by
  obtain ⟨member, equal⟩ := SearchTree.find_some search
  exact ⟨member, posCompare_eq_zero equal⟩

/-- The search of a notification finds a rule at the position. -/
theorem objRuleFind_some (search : objRuleFind chainNo prio tcr w = .ok (some r)) :
    (w.rules.cell r).chainNo = chainNo ∧ (w.rules.cell r).prio = prio := by
  obtain ⟨found, byPosition, search⟩ := bind_returned search
  cases found with
  | some p =>
    cases search
    exact (objRulePosLookup_some byPosition).2.2
  | none =>
    obtain ⟨found, -, search⟩ := bind_returned search
    cases found with
    | none => cases search
    | some p =>
      obtain ⟨rule, followed, search⟩ := bind_returned search
      obtain ⟨-, rfl⟩ := rule_ok followed
      have chosen := Except.ok.inj search
      split at chosen
      · cases chosen
      · next place =>
        cases chosen
        exact ⟨not_not.mp fun chain => place (.inl chain), not_not.mp fun p => place (.inr p)⟩

end Searches

section Order

/-- A chain number whose comparison with others does not overflow. -/
def Small (chainNo : UInt32) : Prop := chainNo.toNat < 2 ^ 31

instance (chainNo : UInt32) : Decidable (Small chainNo) :=
  inferInstanceAs (Decidable (chainNo.toNat < 2 ^ 31))

/-- `u32cmp` is the difference of small numbers. -/
theorem u32cmp_small {a b : UInt32} (small : Small a) (small' : Small b) :
    u32cmp a b = (a.toNat : Int) - b.toNat := by
  rw [Small] at small small'
  rw [u32cmp, UInt32.toBitVec_sub, BitVec.toInt_sub, Int.bmod_def]
  have left : a.toBitVec.toInt = a.toNat := by
    rw [BitVec.toInt_eq_toNat_cond, UInt32.toNat_toBitVec]
    omega
  have right : b.toBitVec.toInt = b.toNat := by
    rw [BitVec.toInt_eq_toNat_cond, UInt32.toNat_toBitVec]
    omega
  omega

/-- One position comes before another. -/
def Precedes (chainNo : UInt32) (prio : UInt16) (chainNo' : UInt32) (prio' : UInt16) : Prop :=
  chainNo.toNat < chainNo'.toNat ∨ chainNo = chainNo' ∧ prio.toNat < prio'.toNat

/-- A rule's position comes before another one's. -/
def World.Precedes (w : World) (r p : RuleId) : Prop :=
  FlowerRoute.Precedes (w.rules.cell r).chainNo (w.rules.cell r).prio (w.rules.cell p).chainNo
    (w.rules.cell p).prio

/-- Positions that come one after the other. -/
theorem Precedes.trans {a b c : UInt32} {p q r : UInt16} (first : Precedes a p b q)
    (second : Precedes b q c r) : Precedes a p c r := by
  rcases first with first | ⟨rfl, first⟩
  · rcases second with second | ⟨rfl, second⟩
    · exact .inl (Nat.lt_trans first second)
    · exact .inl first
  · rcases second with second | ⟨rfl, second⟩
    · exact .inl second
    · exact .inr ⟨rfl, Nat.lt_trans first second⟩

/-- No position comes before itself. -/
theorem Precedes.irrefl {a : UInt32} {p : UInt16} : ¬ Precedes a p a p := by
  rintro (less | ⟨-, less⟩)
  · exact Nat.lt_irrefl _ less
  · exact Nat.lt_irrefl _ less

/-- The sign of a comparison of two positions. -/
def posSign (chainNo : UInt32) (prio : UInt16) (chainNo' : UInt32) (prio' : UInt16) : Int :=
  if u32cmp chainNo chainNo' = 0 then u16cmp prio prio' else u32cmp chainNo chainNo'

/-- The comparison with a live rule. -/
theorem posCompare_live {w : World} {chainNo : UInt32} {prio : UInt16} {r : RuleId}
    (live : w.Live r) : posCompare chainNo prio w r =
      .ok (posSign chainNo prio (w.rules.cell r).chainNo (w.rules.cell r).prio) := by
  rw [posCompare, rule_live live]
  rfl

/-- On small chain numbers the comparison follows the order of positions. -/
theorem posSign_small {a b : UInt32} {p q : UInt16} (small : Small a) (small' : Small b) :
    (posSign a p b q < 0 ↔ Precedes a p b q) ∧ (0 < posSign a p b q ↔ Precedes b q a p) := by
  have same : u32cmp a b = 0 ↔ a = b := u32cmp_eq_zero
  have apart : a = b ↔ a.toNat = b.toNat := UInt32.toNat_inj.symm
  rw [posSign]
  split
  · next zero =>
    have equal := same.mp zero
    subst equal
    simp only [Precedes, u16cmp, true_and]
    omega
  · next other =>
    have differ : a ≠ b := fun equal => other (same.mpr equal)
    rw [u32cmp_small small small']
    simp only [Precedes, differ, differ.symm, false_and, or_false]
    omega

/-- The positional tree is in the order of positions, and its rules are live. -/
structure Placed (w : World) : Prop where
  member : ∀ r ∈ w.posTree.toList, w.Live r ∧ Small (w.rules.cell r).chainNo
  ordered : w.posTree.toList.Pairwise w.Precedes

namespace Placed

variable {w w' : World}

/-- Two rules of the tree at one position are one. -/
theorem unique (placed : Placed w) {r p : RuleId} (inside : r ∈ w.posTree.toList)
    (inside' : p ∈ w.posTree.toList) (chain : (w.rules.cell r).chainNo = (w.rules.cell p).chainNo)
    (prio : (w.rules.cell r).prio = (w.rules.cell p).prio) : r = p := by
  have apart : r = p ∨ w.Precedes r p ∨ w.Precedes p r :=
    List.Pairwise.forall_of_forall_of_flip (R := fun a b => a = b ∨ w.Precedes a b ∨ w.Precedes b a)
      (fun _ _ => .inl rfl) (placed.ordered.imp fun before => .inr (.inl before))
      (placed.ordered.imp fun before => .inr (.inr before)) inside inside'
  rw [World.Precedes, World.Precedes, chain, prio] at apart
  exact apart.resolve_right fun before => before.elim Precedes.irrefl Precedes.irrefl

/-- The rules of the tree are distinct. -/
theorem nodup (placed : Placed w) : w.posTree.toList.Nodup :=
  placed.ordered.imp fun before same => by
    subst same
    exact absurd before Precedes.irrefl

/-- A lookup finds the rule of the tree at the position. -/
theorem find (placed : Placed w) {r : RuleId} (inside : r ∈ w.posTree.toList) :
    objRulePosLookup (w.rules.cell r).chainNo (w.rules.cell r).prio w = .ok (some r) := by
  have small := (placed.member r inside).2
  obtain ⟨found, search⟩ := SearchTree.find_of_mem placed.ordered inside
    (show posCompare (w.rules.cell r).chainNo (w.rules.cell r).prio w r = .ok 0 by
      rw [posCompare_live (placed.member r inside).1, posSign,
        if_pos (u32cmp_eq_zero.mpr rfl), u16cmp_eq_zero.mpr rfl])
    (fun p member => ⟨_, posCompare_live (placed.member p member).1⟩)
    (fun p member before => ⟨_, (posSign_small small (placed.member p member).2).1.mpr before,
      posCompare_live (placed.member p member).1⟩)
    (fun p member before => ⟨_, (posSign_small small (placed.member p member).2).2.mpr before,
      posCompare_live (placed.member p member).1⟩)
  obtain ⟨member, -, chain, prio⟩ := objRulePosLookup_some search
  rw [objRulePosLookup, search, placed.unique member inside chain prio]

/-- Rules that keep their places, and a tree that loses some of them. -/
theorem keep (placed : Placed w) (sub : w'.posTree.toList.Sublist w.posTree.toList)
    (live : ∀ r ∈ w'.posTree.toList, w.Live r → w'.Live r)
    (place : ∀ r ∈ w.posTree.toList, (w'.rules.cell r).chainNo = (w.rules.cell r).chainNo ∧
      (w'.rules.cell r).prio = (w.rules.cell r).prio) : Placed w' where
  member r inside := by
    obtain ⟨before, small⟩ := placed.member r (sub.subset inside)
    rw [(place r (sub.subset inside)).1]
    exact ⟨live r inside before, small⟩
  ordered := by
    refine (placed.ordered.sublist sub).imp_of_mem fun {r p} first second before => ?_
    obtain ⟨chain, prio⟩ := place r (sub.subset first)
    obtain ⟨chain', prio'⟩ := place p (sub.subset second)
    rw [World.Precedes, chain, prio, chain', prio']
    exact before

/-- A new rule that was linked into the tree. -/
theorem alloc (placed : Placed w) (bound : ∀ r, w.Live r → r < w.rules.next)
    {rule rule₁ : ObjRule} {w₁ : World} {linked : SearchTree RuleId} (small : Small rule.chainNo)
    (kind : rule.obj.kind = .rule) (rules : w'.rules = w.rules.alloc rule)
    (rules₁ : w₁.rules = w.rules.alloc rule₁)
    (link : w.posTree.link (posCompare rule.chainNo rule.prio w₁) w.rules.next =
      .ok (some linked)) (tree : w'.posTree.toList = linked.toList) : Placed w' := by
  have compare : ∀ r ∈ w.posTree.toList, posCompare rule.chainNo rule.prio w₁ r =
      .ok (posSign rule.chainNo rule.prio (w.rules.cell r).chainNo (w.rules.cell r).prio) :=
    fun r inside => by
      have live := (placed.member r inside).1
      have same : w₁.rules.cell r = w.rules.cell r := by
        rw [rules₁, Heap.cell_alloc_ne _ _ (Nat.ne_of_lt (bound r live))]
      rw [posCompare_live (by rw [World.Live, same]; exact live), same]
  have new : w'.rules.cell w.rules.next = rule := by rw [rules, Heap.cell_alloc_same]
  have old : ∀ r ∈ w.posTree.toList, w'.rules.cell r = w.rules.cell r := fun r inside => by
    rw [rules, Heap.cell_alloc_ne _ _ (Nat.ne_of_lt (bound r (placed.member r inside).1))]
  have live : ∀ r ∈ w.posTree.toList, w'.Live r := fun r inside => by
    rw [World.Live, old r inside]
    exact (placed.member r inside).1
  have before : w.posTree.toList.Pairwise w'.Precedes := by
    refine placed.ordered.imp_of_mem fun {r p} first second before => ?_
    rw [World.Precedes, old r first, old p second]
    exact before
  refine ⟨fun r inside => ?_, ?_⟩
  · rw [tree] at inside
    rcases (SearchTree.mem_link link).mp inside with rfl | member
    · rw [World.Live, new]
      exact ⟨kind, small⟩
    · refine ⟨live r member, ?_⟩
      rw [old r member]
      exact (placed.member r member).2
  · rw [tree]
    refine SearchTree.pairwise_link link (fun _ _ _ => Precedes.trans)
      (fun r inside sign negative compared => ?_) (fun r inside sign positive compared => ?_) before
    · rw [compare r inside] at compared
      cases compared
      rw [World.Precedes, new, old r inside]
      exact (posSign_small small (placed.member r inside).2).1.mp negative
    · rw [compare r inside] at compared
      cases compared
      rw [World.Precedes, new, old r inside]
      exact (posSign_small small (placed.member r inside).2).2.mp positive

/-- At a position where a lookup finds nothing a new rule is linked. -/
theorem link (placed : Placed w) (bound : ∀ r, w.Live r → r < w.rules.next) {chainNo : UInt32}
    {prio : UInt16} (search : objRulePosLookup chainNo prio w = .ok none) {rule : ObjRule}
    (rules : w'.rules = w.rules.alloc rule) (r : RuleId) :
    ∃ linked, w.posTree.link (posCompare chainNo prio w') r = .ok (some linked) := by
  refine SearchTree.link_of_find_none r ?_
  rw [← search, objRulePosLookup]
  refine SearchTree.find_congr fun p inside => ?_
  have same : w'.rules.cell p = w.rules.cell p := by
    rw [rules, Heap.cell_alloc_ne _ _ (Nat.ne_of_lt (bound p (placed.member p inside).1))]
  rw [posCompare, posCompare, World.rule, World.rule, same]

end Placed

end Order

end FlowerRoute
