import FlowerRoute.Lib.GapSearch
import FlowerRoute.Verif.Positions

/-!
# Allocators

`obj_rule_find_available_prio` and `filter_find_available_chain_no` search a sorted tree for a
gap. Both are the general gap search: the one on the priorities of a chain, eager and with a
candidate of 16 bits that wraps, the other on the numbers of the chains.
-/

namespace FlowerRoute

open Outcome

/-- A priority of a chain is taken. -/
def World.Taken (w : World) (chainNo : UInt32) (prio : UInt16) : Prop :=
  ∃ r ∈ w.posTree.toList, (w.rules.cell r).chainNo = chainNo ∧ (w.rules.cell r).prio = prio

section Priorities

variable {w : World} {chainNo : UInt32} {minPrio : UInt16} {rules : List RuleId}

/-- The priorities of a chain among some rules. -/
def World.prios (w : World) (chainNo : UInt32) (rules : List RuleId) : List Nat :=
  (rules.filter fun r => (w.rules.cell r).chainNo = chainNo).map fun r => (w.rules.cell r).prio.toNat

/-- A priority is among those of the tree exactly when it is taken. -/
theorem mem_prios {prio : UInt16} :
    prio.toNat ∈ w.prios chainNo w.posTree.toList ↔ w.Taken chainNo prio := by
  simp only [World.prios, World.Taken, List.mem_map, List.mem_filter, decide_eq_true_eq]
  constructor
  · rintro ⟨r, ⟨inside, chain⟩, same⟩
    exact ⟨r, inside, chain, UInt16.toNat_inj.mp same⟩
  · rintro ⟨r, inside, chain, same⟩
    exact ⟨r, ⟨inside, chain⟩, by rw [same]⟩

/-- Priorities have 16 bits. -/
theorem prios_lt : ∀ n ∈ w.prios chainNo rules, n < 2 ^ 16 := by
  intro n inside
  obtain ⟨r, -, rfl⟩ := List.mem_map.mp inside
  exact (w.rules.cell r).prio.toNat_lt

/-- In the order of positions the priorities of a chain ascend. -/
theorem prios_ascending (ordered : rules.Pairwise w.Precedes) :
    (w.prios chainNo rules).Pairwise (· < ·) := by
  rw [World.prios, List.pairwise_map]
  refine (ordered.filter _).imp_of_mem fun {r p} first second before => ?_
  have chain := of_decide_eq_true (List.mem_filter.mp first).2
  have chain' := of_decide_eq_true (List.mem_filter.mp second).2
  rcases before with less | ⟨-, less⟩
  · rw [chain, chain'] at less
    exact absurd less (Nat.lt_irrefl _)
  · exact less

/-- Behind a rule of a later chain there are no priorities of a chain. -/
theorem prios_behind {r : RuleId} (ordered : (r :: rules).Pairwise w.Precedes)
    (later : chainNo.toNat < (w.rules.cell r).chainNo.toNat) :
    w.prios chainNo (r :: rules) = [] := by
  rw [World.prios, List.map_eq_nil_iff, List.filter_eq_nil_iff]
  intro p inside chain
  have chain := of_decide_eq_true chain
  rcases List.mem_cons.mp inside with rfl | behind
  · rw [chain] at later
    exact Nat.lt_irrefl _ later
  · rcases (List.pairwise_cons.mp ordered).1 p behind with less | ⟨same, -⟩
    · rw [chain] at less
      omega
    · rw [same, chain] at later
      exact Nat.lt_irrefl _ later

/-- The loop of `obj_rule_find_available_prio` is the gap search on the priorities of the chain. -/
theorem findAvailablePrioLoop_gap (live : ∀ r ∈ rules, w.Live r)
    (ordered : rules.Pairwise w.Precedes) (ret : UInt16) :
    findAvailablePrioLoop chainNo minPrio w rules ret = .ok (UInt16.ofNat
      (GapSearch.gap true minPrio.toNat (w.prios chainNo rules) ret.toNat)) := by
  induction rules generalizing ret with
  | nil => simp [findAvailablePrioLoop, World.prios, GapSearch.gap]
  | cons r rest ih =>
    have behind := (List.pairwise_cons.mp ordered).1
    have ih := ih (fun p inside => live p (List.mem_cons_of_mem _ inside))
      (List.pairwise_cons.mp ordered).2
    rw [findAvailablePrioLoop, rule_live (live r List.mem_cons_self)]
    simp only [bind, Except.bind]
    by_cases earlier : (w.rules.cell r).chainNo < chainNo
    · rw [if_pos earlier, ih]
      have other : (w.rules.cell r).chainNo ≠ chainNo := fun same => by
        rw [same] at earlier
        exact UInt32.lt_irrefl _ earlier
      simp [World.prios, other]
    · rw [if_neg earlier]
      by_cases later : chainNo < (w.rules.cell r).chainNo
      · rw [if_pos later, prios_behind ordered later]
        simp [GapSearch.gap, pure, Except.pure]
      · rw [if_neg later]
        have chain : (w.rules.cell r).chainNo = chainNo := by
          apply UInt32.toNat_inj.mp
          have := UInt32.lt_iff_toNat_lt.not.mp earlier
          have := UInt32.lt_iff_toNat_lt.not.mp later
          omega
        have prios : w.prios chainNo (r :: rest) =
            (w.rules.cell r).prio.toNat :: w.prios chainNo rest := by
          simp [World.prios, chain]
        rw [prios, GapSearch.gap]
        by_cases stops : ret = 0 ∧ minPrio < (w.rules.cell r).prio
        · rw [if_pos stops, if_pos ⟨rfl, by rw [stops.1]; rfl, stops.2⟩]
          simp [pure, Except.pure]
        · have stops' : ¬ (true = true ∧ ret.toNat = 0 ∧
              minPrio.toNat < (w.rules.cell r).prio.toNat) := fun ⟨_, zero, less⟩ =>
            stops ⟨UInt16.toNat_inj.mp zero, less⟩
          rw [if_neg stops, if_neg stops']
          by_cases moves : (w.rules.cell r).prio = ret ∨ ret < minPrio
          · have moves' : (w.rules.cell r).prio.toNat = ret.toNat ∨ ret.toNat < minPrio.toNat :=
              moves.imp (fun same => by rw [same]) UInt16.lt_iff_toNat_lt.mp
            rw [if_pos moves, if_pos moves', ih]
            by_cases last : (w.rules.cell r).prio.toNat + 1 < 2 ^ 16
            · have next : ((w.rules.cell r).prio + 1).toNat = (w.rules.cell r).prio.toNat + 1 := by
                rw [UInt16.toNat_add]
                exact Nat.mod_eq_of_lt last
              rw [next]
            · -- the candidate wraps behind the last priority, and no rule follows
              have most := (w.rules.cell r).prio.toNat_lt
              have none : w.prios chainNo rest = [] := by
                rw [World.prios, List.map_eq_nil_iff, List.filter_eq_nil_iff]
                intro p inside same
                have same := of_decide_eq_true same
                have bound := (w.rules.cell p).prio.toNat_lt
                rcases behind p inside with less | ⟨-, less⟩
                · rw [chain, same] at less
                  omega
                · omega
              have full : (w.rules.cell r).prio.toNat = 2 ^ 16 - 1 := by omega
              have next : ((w.rules.cell r).prio + 1).toNat = 0 := by
                rw [UInt16.toNat_add, full]
                rfl
              rw [none, GapSearch.gap, GapSearch.gap, next, full]
              rfl
          · have moves' : ¬ ((w.rules.cell r).prio.toNat = ret.toNat ∨
                ret.toNat < minPrio.toNat) := fun both => moves
              (both.imp UInt16.toNat_inj.mp UInt16.lt_iff_toNat_lt.mpr)
            have reached : minPrio ≤ ret := by
              rw [UInt16.le_iff_toNat_le]
              omega
            rw [if_neg moves, if_neg moves', if_pos reached]
            simp [pure, Except.pure]

/-- `obj_rule_find_available_prio` finds a free priority if there is one. -/
theorem objRuleFindAvailablePrio_free (placed : Placed w)
    (room : ∃ q : UInt16, minPrio ≤ q ∧ ¬ w.Taken chainNo q) :
    ∃ prio, objRuleFindAvailablePrio chainNo minPrio w = .ok prio ∧ minPrio ≤ prio ∧
      ¬ w.Taken chainNo prio ∧
      ((∀ r ∈ w.posTree.toList, (w.rules.cell r).chainNo = chainNo →
        minPrio ≤ (w.rules.cell r).prio) → ∀ q, minPrio ≤ q → q < prio → w.Taken chainNo q) := by
  obtain ⟨q, least, free⟩ := room
  have loop := @findAvailablePrioLoop_gap w chainNo minPrio _
    (fun r inside => (placed.member r inside).1) placed.ordered 0
  have found := @GapSearch.found true minPrio.toNat _ (@prios_ascending w chainNo _ placed.ordered)
  have bound := @GapSearch.gap_le true minPrio.toNat 0 _ _ (@prios_lt w chainNo w.posTree.toList)
    (Nat.zero_le _)
  rw [UInt16.toNat_zero] at loop
  generalize GapSearch.gap true minPrio.toNat (w.prios chainNo w.posTree.toList) 0 = result at *
  -- the result of the loop is the search's result, unless the candidate has wrapped
  by_cases wrapped : result < 2 ^ 16
  · have value : (UInt16.ofNat result).toNat = result := UInt16.toNat_ofNat_of_lt' wrapped
    refine ⟨if UInt16.ofNat result < minPrio then minPrio else UInt16.ofNat result, ?_, ?_, ?_, ?_⟩
    · rw [objRuleFindAvailablePrio, loop]
      have reached : minPrio ≤ if UInt16.ofNat result < minPrio then minPrio
          else UInt16.ofNat result := by
        split
        · exact UInt16.le_refl _
        · exact UInt16.not_lt.mp ‹_›
      simp [bind, Except.bind, require, reached, pure, Except.pure]
    · split
      · exact UInt16.le_refl _
      · exact UInt16.not_lt.mp ‹_›
    · rw [← mem_prios, apply_ite UInt16.toNat, value]
      simpa [UInt16.lt_iff_toNat_lt, value] using found.missing
    · intro above q least' less
      rw [← mem_prios]
      refine found.lowest (fun n inside => ?_) (UInt16.le_iff_toNat_le.mp least') ?_
      · obtain ⟨r, member, rfl⟩ := List.mem_map.mp inside
        obtain ⟨member, chain⟩ := List.mem_filter.mp member
        exact UInt16.le_iff_toNat_le.mp (above r member (of_decide_eq_true chain))
      · split at less
        · exact absurd less (UInt16.not_lt.mpr least')
        · rw [UInt16.lt_iff_toNat_lt, value] at less
          exact less
  · have full : result = 2 ^ 16 := by omega
    subst full
    have zero : UInt16.ofNat (2 ^ 16) = 0 := rfl
    have missing : ¬ w.Taken chainNo minPrio := by
      rw [← mem_prios]
      rw [← mem_prios] at free
      exact found.beyond (UInt16.le_iff_toNat_le.mp least) q.toNat_lt free
    refine ⟨minPrio, ?_, UInt16.le_refl _, missing, fun _ q least' less => ?_⟩
    · rw [objRuleFindAvailablePrio, loop, zero]
      have same : (if 0 < minPrio then minPrio else 0) = minPrio := by
        split
        · rfl
        · next zero => exact (UInt16.le_antisymm (UInt16.not_lt.mp zero) (UInt16.zero_le)).symm
      simp [bind, Except.bind, require, same, pure, Except.pure]
    · exact absurd less (UInt16.not_lt.mpr least')

/-- Where `obj_rule_find_available_prio` begins to look for a free priority. -/
def World.FirstPrio (w : World) (chainNo : UInt32) (minPrio : UInt16) (first : Nat) : Prop :=
  GapSearch.First true minPrio.toNat (w.prios chainNo w.posTree.toList) first

/-- `obj_rule_find_available_prio` finds the first priority that is free from there on, or the
minimum when there is none. -/
theorem objRuleFindAvailablePrio_first (placed : Placed w) {prio : UInt16}
    (ran : objRuleFindAvailablePrio chainNo minPrio w = .ok prio) :
    ∃ first, w.FirstPrio chainNo minPrio first ∧
      (IsLeast { n | first ≤ n ∧ n ∉ w.prios chainNo w.posTree.toList } prio.toNat ∨
        prio = minPrio ∧ ∀ n, first ≤ n → n < 2 ^ 16 → n ∈ w.prios chainNo w.posTree.toList) := by
  have loop := @findAvailablePrioLoop_gap w chainNo minPrio _
    (fun r inside => (placed.member r inside).1) placed.ordered 0
  have found := @GapSearch.found true minPrio.toNat _ (@prios_ascending w chainNo _ placed.ordered)
  have bound := @GapSearch.gap_le true minPrio.toNat 0 _ _ (@prios_lt w chainNo w.posTree.toList)
    (Nat.zero_le _)
  obtain ⟨first, begins, least⟩ := found.first
  refine ⟨first, begins, ?_⟩
  rw [UInt16.toNat_zero] at loop
  generalize GapSearch.gap true minPrio.toNat (w.prios chainNo w.posTree.toList) 0 = result at *
  rw [objRuleFindAvailablePrio, loop, ok_bind] at ran
  obtain ⟨_, -, ran⟩ := bind_returned ran
  cases ran
  by_cases wrapped : result < 2 ^ 16
  · have value : (UInt16.ofNat result).toNat = result := UInt16.toNat_ofNat_of_lt' wrapped
    refine .inl ?_
    rw [apply_ite UInt16.toNat, value]
    simpa only [UInt16.lt_iff_toNat_lt, value] using least
  · have full : result = 2 ^ 16 := by omega
    subst full
    have most := minPrio.toNat_lt
    rw [if_neg (by omega)] at least
    refine .inr ⟨?_, fun n after small => ?_⟩
    · change (if 0 < minPrio then minPrio else 0) = minPrio
      split
      · rfl
      · next zero => exact (UInt16.le_antisymm (UInt16.not_lt.mp zero) UInt16.zero_le).symm
    · by_contra free
      exact absurd (least.2 ⟨after, free⟩) (Nat.not_le.mpr small)

end Priorities

section ChainNumbers

variable {w : World} {minChainNo : UInt32}

/-- The chain tree is in ascending order, and its numbers leave room for one more. -/
structure Chained (w : World) : Prop where
  ordered : w.chainTree.toList.Pairwise fun a b => a.toNat < b.toNat
  small : ∀ ch ∈ w.chainTree.toList, ch.toNat < 2 ^ 31 - 1

/-- The chain that `filter_find_available_chain_no` finds: the first that is missing from where
the search begins. -/
def World.NextChain (w : World) (minChainNo ret : UInt32) : Prop :=
  ∃ first, GapSearch.First false minChainNo.toNat (w.chainTree.toList.map UInt32.toNat) first ∧
    IsLeast { n | first ≤ n ∧ n ∉ w.chainTree.toList.map UInt32.toNat } ret.toNat

/-- Only one chain is the next. -/
theorem World.NextChain.unique {ret ret' : UInt32} (here : w.NextChain minChainNo ret)
    (there : w.NextChain minChainNo ret') : ret = ret' := by
  obtain ⟨first, begins, least⟩ := here
  obtain ⟨first', begins', least'⟩ := there
  rw [begins.unique begins'] at least
  exact UInt32.toNat_inj.mp (least.unique least')

/-- The next chain is not in the tree, nor below the minimum. -/
theorem World.NextChain.free {ret : UInt32} (here : w.NextChain minChainNo ret) :
    minChainNo ≤ ret ∧ ret ∉ w.chainTree.toList := by
  obtain ⟨first, begins, ⟨after, missing⟩, -⟩ := here
  refine ⟨UInt32.le_iff_toNat_le.mpr (Nat.le_trans begins.le after), fun inside => ?_⟩
  exact missing (List.mem_map_of_mem inside)

/-- The loop of `filter_find_available_chain_no` is the gap search on the numbers. -/
theorem findAvailableChainNoLoop_gap {chains : List UInt32}
    (small : ∀ ch ∈ chains, ch.toNat < 2 ^ 31 - 1) (ret : UInt32) :
    findAvailableChainNoLoop minChainNo chains ret =
      UInt32.ofNat (GapSearch.gap false minChainNo.toNat (chains.map UInt32.toNat) ret.toNat) := by
  induction chains generalizing ret with
  | nil => simp [findAvailableChainNoLoop, GapSearch.gap]
  | cons ch rest ih =>
    have ih := ih fun other inside => small other (List.mem_cons_of_mem _ inside)
    have bound := small ch List.mem_cons_self
    have lazy : ¬ (false = true ∧ ret.toNat = 0 ∧ minChainNo.toNat < ch.toNat) := fun eager =>
      Bool.false_ne_true eager.1
    rw [findAvailableChainNoLoop, List.map_cons, GapSearch.gap, if_neg lazy]
    by_cases moves : ch = ret ∨ ret < minChainNo
    · have moves' : ch.toNat = ret.toNat ∨ ret.toNat < minChainNo.toNat :=
        moves.imp (fun same => by rw [same]) UInt32.lt_iff_toNat_lt.mp
      have next : (ch + 1).toNat = ch.toNat + 1 := by
        rw [UInt32.toNat_add, UInt32.toNat_one]
        exact Nat.mod_eq_of_lt (by omega)
      rw [if_pos moves, if_pos moves', ih, next]
    · have moves' : ¬ (ch.toNat = ret.toNat ∨ ret.toNat < minChainNo.toNat) := fun both =>
        moves (both.imp UInt32.toNat_inj.mp UInt32.lt_iff_toNat_lt.mpr)
      have reached : minChainNo ≤ ret := by
        rw [UInt32.le_iff_toNat_le]
        omega
      rw [if_neg moves, if_neg moves', if_pos reached]
      simp

/-- On small numbers the comparison of chains follows the order of the tree. -/
theorem chainCompare_signs {a b : UInt32} (small : Small a) (small' : Small b) :
    (u32cmp a b < 0 ↔ a.toNat < b.toNat) ∧ (0 < u32cmp a b ↔ b.toNat < a.toNat) := by
  rw [u32cmp_small small small']
  omega

namespace Chained

/-- The numbers of the tree are small. -/
theorem smallOf (chained : Chained w) {ch : UInt32} (inside : ch ∈ w.chainTree.toList) :
    Small ch := by
  have bound := chained.small ch inside
  unfold Small
  omega

/-- A chain of the tree is found. -/
theorem lookup_mem (ordered : w.chainTree.toList.Pairwise fun a b => a.toNat < b.toNat)
    (small : ∀ ch ∈ w.chainTree.toList, Small ch) {ch : UInt32}
    (inside : ch ∈ w.chainTree.toList) : chainLookup ch w = .ok (some ch) := by
  have own := small ch inside
  have equal : Except.ok (u32cmp ch ch) = (Except.ok 0 : Except Fault Int) := by
    rw [u32cmp_eq_zero.mpr rfl]
  obtain ⟨other, search⟩ := @SearchTree.find_of_mem _ Fault _ (fun this => .ok (u32cmp ch this)) _ _
    ordered inside equal (fun this _ => ⟨_, rfl⟩)
    (fun this member less => ⟨_, (chainCompare_signs own (small this member)).1.mpr less, rfl⟩)
    (fun this member less => ⟨_, (chainCompare_signs own (small this member)).2.mpr less, rfl⟩)
  have equal := (SearchTree.find_some search).2
  rw [chainLookup, search, u32cmp_eq_zero.mp (Except.ok.inj equal)]

/-- A chain outside the tree is not found. -/
theorem lookup_absent {ch : UInt32} (outside : ch ∉ w.chainTree.toList) :
    chainLookup ch w = .ok none := by
  have ends := @SearchTree.find_faults _ _ (fun _ : Fault => False)
    (fun this => .ok (u32cmp ch this)) (fun _ => trivial) w.chainTree
  obtain ⟨found, search, -⟩ := Ends.returns ends
  cases found with
  | none => exact search
  | some other =>
    obtain ⟨inside, equal⟩ := SearchTree.find_some search
    rw [u32cmp_eq_zero.mp (Except.ok.inj equal)] at outside
    exact absurd inside outside

/-- A new chain is inserted in its place. -/
theorem insert (chained : Chained w) {ch : UInt32} (small : Small ch)
    (outside : ch ∉ w.chainTree.toList) :
    ∃ chainTree, chainInsert ch w = .ok (true, { w with chainTree }) ∧
      (∀ other, other ∈ chainTree.toList ↔ other = ch ∨ other ∈ w.chainTree.toList) ∧
      chainTree.toList.Pairwise fun a b => a.toNat < b.toNat := by
  obtain ⟨linked, link⟩ := SearchTree.link_of_find_none ch (lookup_absent outside)
  have tree := w.chainBalancing.insertColor_toList ch linked
  refine ⟨w.chainBalancing.insertColor ch linked, ?_, fun other => ?_, ?_⟩
  · rw [chainInsert, link]
    rfl
  · rw [tree]
    exact SearchTree.mem_link link
  · rw [tree]
    refine SearchTree.pairwise_link link (fun _ _ _ => Nat.lt_trans)
      (fun other inside sign negative compared => ?_)
      (fun other inside sign positive compared => ?_) chained.ordered
    · cases compared
      exact (chainCompare_signs small (chained.smallOf inside)).1.mp negative
    · cases compared
      exact (chainCompare_signs small (chained.smallOf inside)).2.mp positive

/-- `filter_find_available_chain_no` returns a number that was free and adds it to the tree. -/
theorem findAvailable (chained : Chained w) (small : Small minChainNo) :
    ∃ ret chainTree, filterFindAvailableChainNo minChainNo w = .ok (ret, { w with chainTree }) ∧
      w.NextChain minChainNo ret ∧
      (∀ ch, ch ∈ chainTree.toList ↔ ch = ret ∨ ch ∈ w.chainTree.toList) ∧
      chainTree.toList.Pairwise fun a b => a.toNat < b.toNat := by
  have loop := @findAvailableChainNoLoop_gap minChainNo _ chained.small 0
  have found := @GapSearch.found false minChainNo.toNat _ (List.pairwise_map.mpr chained.ordered)
  have below : ∀ n ∈ w.chainTree.toList.map UInt32.toNat, n < 2 ^ 31 - 1 := by
    intro n inside
    obtain ⟨ch, member, rfl⟩ := List.mem_map.mp inside
    exact chained.small ch member
  have bound := @GapSearch.gap_le false minChainNo.toNat 0 _ _ below (Nat.zero_le _)
  rw [UInt32.toNat_zero] at loop
  generalize GapSearch.gap false minChainNo.toNat (w.chainTree.toList.map UInt32.toNat) 0 = result
    at loop found bound
  have value : (UInt32.ofNat result).toNat = result :=
    UInt32.toNat_ofNat_of_lt' (Nat.lt_of_le_of_lt bound (by decide))
  obtain ⟨first, begins, next⟩ := found.first
  generalize chosen : (if UInt32.ofNat result < minChainNo then minChainNo
    else UInt32.ofNat result) = ret
  have number : ret.toNat = if result < minChainNo.toNat then minChainNo.toNat else result := by
    rw [← chosen, apply_ite UInt32.toNat, value]
    simp only [UInt32.lt_iff_toNat_lt, value]
  have isNext : w.NextChain minChainNo ret := ⟨first, begins, by rw [number]; exact next⟩
  have outside := isNext.free.2
  have smallRet : Small ret := by
    unfold Small at small ⊢
    rw [number]
    split <;> omega
  obtain ⟨chainTree, inserted, members, ordered⟩ := chained.insert smallRet outside
  refine ⟨ret, chainTree, ?_, isNext, members, ordered⟩
  have smallAll : ∀ ch ∈ chainTree.toList, Small ch := fun ch inside => by
    rcases (members ch).mp inside with rfl | old
    · exact smallRet
    · exact chained.smallOf old
  have again : chainLookup ret { w with chainTree } = .ok (some ret) :=
    lookup_mem (w := { w with chainTree }) ordered smallAll ((members ret).mpr (.inl rfl))
  rw [filterFindAvailableChainNo, loop]
  simp only [chosen, filterReserveChain, filterGotChain, lookup_absent outside, inserted,
    bind, Except.bind, require, if_true, again, pure, Except.pure, Option.isSome]

end Chained

end ChainNumbers

/-- Successive calls of `filter_find_available_chain_no`, with what each of them returned. -/
def findAvailableChainNos : List UInt32 → World → Except Fault (List UInt32 × World)
  | [], w => .ok ([], w)
  | minChainNo :: rest, w => do
    let (ret, w) ← filterFindAvailableChainNo minChainNo w
    let (rets, w) ← findAvailableChainNos rest w
    return (ret :: rets, w)

/-- Successive calls return numbers that were free at first and differ. -/
theorem findAvailableChainNos_distinct {w w' : World} (chained : Chained w)
    {mins rets : List UInt32} (small : ∀ minChainNo ∈ mins, Small minChainNo)
    (ran : findAvailableChainNos mins w = .ok (rets, w'))
    (stay : ∀ ret ∈ rets, ret.toNat < 2 ^ 31 - 1) :
    rets.Nodup ∧ ∀ ret ∈ rets, ret ∉ w.chainTree.toList := by
  induction mins generalizing w rets with
  | nil =>
    cases ran
    exact ⟨List.nodup_nil, fun _ inside => absurd inside List.not_mem_nil⟩
  | cons minChainNo rest ih =>
    obtain ⟨ret, chainTree, first, isNext, members, ordered⟩ :=
      chained.findAvailable (small minChainNo List.mem_cons_self)
    have outside := isNext.free.2
    rw [findAvailableChainNos, first, ok_bind] at ran
    obtain ⟨⟨others, w₁⟩, later, ran⟩ := bind_returned ran
    cases ran
    have next : Chained { w with chainTree } := by
      refine ⟨ordered, fun ch inside => ?_⟩
      rcases (members ch).mp inside with rfl | old
      · exact stay ch List.mem_cons_self
      · exact chained.small ch old
    obtain ⟨distinct, fresh⟩ := ih next (fun n inside => small n (List.mem_cons_of_mem _ inside))
      later fun n inside => stay n (List.mem_cons_of_mem _ inside)
    refine ⟨List.nodup_cons.mpr ⟨fun inside => ?_, distinct⟩, fun n inside => ?_⟩
    · exact fresh ret inside ((members ret).mpr (.inl rfl))
    · rcases List.mem_cons.mp inside with rfl | inside
      · exact outside
      · exact fun old => fresh n inside ((members n).mpr (.inr old))

/-- The allocators return free slots: the one of priorities if there is one, the one of chain
numbers always, and successive calls of it differ. -/
theorem allocators_return_free_slots :
    (∀ (w : World) (chainNo : UInt32) (minPrio : UInt16), Placed w → Small chainNo →
      (∃ q : UInt16, minPrio ≤ q ∧ ¬ w.Taken chainNo q) →
      ∃ prio, objRuleFindAvailablePrio chainNo minPrio w = .ok prio ∧ minPrio ≤ prio ∧
        ¬ w.Taken chainNo prio) ∧
    (∀ (w : World) (minChainNo : UInt32), Chained w → Small minChainNo →
      ∃ ret chainTree, filterFindAvailableChainNo minChainNo w = .ok (ret, { w with chainTree }) ∧
        minChainNo ≤ ret ∧ ret ∉ w.chainTree.toList ∧
        (∀ ch, ch ∈ chainTree.toList ↔ ch = ret ∨ ch ∈ w.chainTree.toList) ∧
        chainTree.toList.Pairwise fun a b => a.toNat < b.toNat) ∧
    ∀ (w w' : World) (mins rets : List UInt32), Chained w →
      (∀ minChainNo ∈ mins, Small minChainNo) →
      findAvailableChainNos mins w = .ok (rets, w') →
      (∀ ret ∈ rets, ret.toNat < 2 ^ 31 - 1) → rets.Nodup := by
  refine ⟨fun w chainNo minPrio placed _ room => ?_, fun w minChainNo chained small => ?_,
    fun w w' mins rets chained small ran stay => ?_⟩
  · obtain ⟨prio, ran, least, free, -⟩ := objRuleFindAvailablePrio_free placed room
    exact ⟨prio, ran, least, free⟩
  · obtain ⟨ret, chainTree, ran, isNext, members, ordered⟩ := chained.findAvailable small
    exact ⟨ret, chainTree, ran, isNext.free.1, isNext.free.2, members, ordered⟩
  · exact (findAvailableChainNos_distinct chained small ran stay).1

/-- Rules at the first and the last priority of chain 1, and two chains. -/
def allocatedWorld : World where
  rules := (Heap.alloc {} { obj := { kind := .rule }, chainNo := 1, prio := 100 }).alloc
    { obj := { kind := .rule }, chainNo := 1, prio := 65535 }
  posTree := .node false .leaf 0 (.node true .leaf 1 .leaf)
  chainTree := .node false .leaf 5 (.node true .leaf 7 .leaf)

/-- Free slots beside them. -/
theorem allocators_return_free_slots_beside :
    (∃ prio, objRuleFindAvailablePrio 1 100 allocatedWorld = .ok prio ∧ 100 ≤ prio ∧
      ¬ allocatedWorld.Taken 1 prio) ∧
    (∃ ret chainTree, filterFindAvailableChainNo 5 allocatedWorld =
        .ok (ret, { allocatedWorld with chainTree }) ∧ 5 ≤ ret ∧
      ret ∉ allocatedWorld.chainTree.toList ∧
      (∀ ch, ch ∈ chainTree.toList ↔ ch = ret ∨ ch ∈ allocatedWorld.chainTree.toList) ∧
      chainTree.toList.Pairwise fun a b => a.toNat < b.toNat) ∧
    ([6, 8] : List UInt32).Nodup := by
  obtain ⟨prios, chains, calls⟩ := allocators_return_free_slots
  have placed : Placed allocatedWorld := by
    refine ⟨?_, ?_⟩
    · simp only [World.Live, Small]
      decide
    · refine List.pairwise_cons.mpr ⟨fun r inside => ?_, List.pairwise_singleton _ _⟩
      rw [List.mem_singleton.mp inside]
      exact .inr ⟨rfl, by decide⟩
  have chained : Chained allocatedWorld := ⟨by decide, by simp [allocatedWorld, SearchTree.toList]⟩
  refine ⟨prios _ 1 100 placed (by decide) ⟨200, by decide, ?_⟩, chains _ 5 chained (by decide),
    calls _ _ [5, 5] _ chained (by simp [Small]) rfl (by simp)⟩
  simp only [World.Taken]
  decide

end FlowerRoute
