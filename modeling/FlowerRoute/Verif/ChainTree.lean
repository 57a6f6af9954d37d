import FlowerRoute.Model.Daemon
import FlowerRoute.Verif.Allocators
import FlowerRoute.Verif.ForeignFilters
import Mathlib.Data.Finset.Basic
import Mathlib.Data.List.Infix

/-!
# The chains of the kernel

The chain tree over the messages about chains and the allocations between them. `decode_chain`
does not look at the type of its message, so the tree only grows: beside it stands the set of the
chains that there should be.
-/

namespace FlowerRoute

open Tlv Outcome

section Moves

/-- A message about a chain, or an allocation. -/
inductive ChainMove
  | reported (nlh : Nlmsg) (chainNo : UInt32)
  | available (minChainNo : UInt32)

/-- A message about a chain of the ingress of the configured interface. -/
structure ReportsChain (config : Config) (nlh : Nlmsg) (chainNo : UInt32) : Prop where
  type : nlh.type = rtmNewchain ∨ nlh.type = rtmDelchain
  ifindex : nlh.tcm.ifindex = config.ifidx
  parent : nlh.tcm.parent = tcHMaj tcHIngress
  valid : Valid tcAttrTypes nlh.attrs
  chain : attrIn nlh.attrs 11 = some (le 4 chainNo.toNat) ∨
    attrIn nlh.attrs 11 = none ∧ chainNo = 0
  small : chainNo.toNat < 2 ^ 28

/-- The messages are about chains of the interface. -/
def ChainMove.Valid (config : Config) : ChainMove → Prop
  | .reported nlh chainNo => ReportsChain config nlh chainNo
  | .available _ => True

/-- A message reports that a chain is gone. -/
def ChainMove.Deletes : ChainMove → Prop
  | .reported nlh _ => nlh.type = rtmDelchain
  | .available _ => False

/-- The chain that a move is about: the one reported, or the first that may be allocated. -/
def ChainMove.chainNo : ChainMove → UInt32
  | .reported _ chainNo => chainNo
  | .available minChainNo => minChainNo

/-- A move, with the chains that there should be after it. -/
def chainMove (c : Calls) (s : World × Finset UInt32) :
    ChainMove → Except Fault (World × Finset UInt32)
  | .reported nlh chainNo => do
    let w ← decodeNlmsgCb c nlh s.1
    return (w, if nlh.type = rtmDelchain then s.2.erase chainNo else insert chainNo s.2)
  | .available minChainNo => do
    let (chainNo, w) ← filterFindAvailableChainNo minChainNo s.1
    return (w, insert chainNo s.2)

/-- Moves, one after the other. -/
def chainMoves (c : Calls) (moves : List ChainMove) (s : World × Finset UInt32) :
    Except Fault (World × Finset UInt32) := moves.foldlM (chainMove c) s

/-- The tree holds the chains that there should be. -/
def Tracks (s : World × Finset UInt32) : Prop := ∀ ch, ch ∈ s.1.chainTree.toList ↔ ch ∈ s.2

end Moves

section Growth

variable {w w' : World} {chainNo : UInt32}

/-- `filter_got_chain` adds a chain to the tree, unless it is there. -/
theorem filterGotChain_grows (ran : filterGotChain chainNo w = .ok w') :
    w'.config = w.config ∧
      ∀ ch, ch ∈ w'.chainTree.toList ↔ ch = chainNo ∨ ch ∈ w.chainTree.toList := by
  rw [filterGotChain] at ran
  obtain ⟨found, search, ran⟩ := bind_returned ran
  cases found with
  | some found =>
    cases ran
    obtain ⟨inside, equal⟩ := SearchTree.find_some search
    have same : chainNo = found := u32cmp_eq_zero.mp (Except.ok.inj equal)
    subst same
    refine ⟨rfl, fun ch => ⟨Or.inr, ?_⟩⟩
    rintro (rfl | old)
    · exact inside
    · exact old
  | none =>
    obtain ⟨⟨ret, w₁⟩, inserted, ran⟩ := bind_returned ran
    obtain ⟨_, fresh, ran⟩ := bind_returned ran
    cases ran
    have fresh := of_require fresh
    rw [chainInsert] at inserted
    obtain ⟨linked, link, inserted⟩ := bind_returned inserted
    cases linked with
    | none =>
      cases inserted
      exact absurd fresh Bool.false_ne_true
    | some linked =>
      cases inserted
      refine ⟨rfl, fun ch => ?_⟩
      show ch ∈ (w.chainBalancing.insertColor chainNo linked).toList ↔ _
      rw [w.chainBalancing.insertColor_toList]
      exact SearchTree.mem_link link

/-- `filter_find_available_chain_no` adds the chain that it returns. -/
theorem filterFindAvailableChainNo_grows {minChainNo : UInt32}
    (ran : filterFindAvailableChainNo minChainNo w = .ok (chainNo, w')) :
    w'.config = w.config ∧
      ∀ ch, ch ∈ w'.chainTree.toList ↔ ch = chainNo ∨ ch ∈ w.chainTree.toList := by
  rw [filterFindAvailableChainNo] at ran
  obtain ⟨w₁, reserved, ran⟩ := bind_returned ran
  cases ran
  rw [filterReserveChain] at reserved
  obtain ⟨w₂, got, reserved⟩ := bind_returned reserved
  obtain ⟨found, -, reserved⟩ := bind_returned reserved
  obtain ⟨_, -, reserved⟩ := bind_returned reserved
  cases reserved
  exact filterGotChain_grows got

end Growth

section Reports

variable {c : Calls} {w : World} {nlh : Nlmsg} {chainNo : UInt32}

/-- The chain of a message is read from it. -/
theorem ReportsChain.read (reports : ReportsChain w.config nlh chainNo) :
    decodeChainNo nlh = .ok chainNo := by
  obtain ⟨tb, parsed, entries⟩ := reports.valid.parse fun _ _ _ => rfl
  have entry : tb 11 = attrIn nlh.attrs 11 := entries 11 (by decide) (by decide)
  rw [decodeChainNo, parsed, ok_bind, entry]
  rcases reports.chain with present | ⟨absent, rfl⟩
  · rw [present]
    exact mnlAttrGetU32_le chainNo
  · rw [absent]
    rfl

/-- Whatever its type, a message about a chain is handled by `filter_got_chain`. -/
theorem ReportsChain.handled (reports : ReportsChain w.config nlh chainNo) :
    decodeNlmsgCb c nlh w = filterGotChain chainNo w := by
  rw [decodeNlmsgCb, if_pos reports.type, decodeChain, reports.read]
  simp only [reports.ifindex, reports.parent, ne_eq, not_true_eq_false, if_false]

end Reports

section Room

variable {c : Calls} {s : World × Finset UInt32} {chainNo : UInt32} {bound : Nat}

/-- `filter_got_chain` returns. -/
theorem Chained.gotChain_returns {w : World} (chained : Chained w) (small : Small chainNo) :
    ∃ w', filterGotChain chainNo w = .ok w' ∧
      w'.chainTree.toList.Pairwise fun a b => a.toNat < b.toNat := by
  by_cases inside : chainNo ∈ w.chainTree.toList
  · refine ⟨w, ?_, chained.ordered⟩
    have found := Chained.lookup_mem chained.ordered (fun _ => chained.smallOf) inside
    rw [filterGotChain, found]
    rfl
  · obtain ⟨chainTree, inserted, -, ordered⟩ := chained.insert small inside
    refine ⟨{ w with chainTree }, ?_, ordered⟩
    rw [filterGotChain, Chained.lookup_absent inside]
    simp only [inserted, bind, Except.bind, require, if_true, pure, Except.pure]

/-- Below a bound on the tree and the minimum, the next chain is at most the bound. -/
theorem World.NextChain.le {w : World} {minChainNo : UInt32}
    (here : w.NextChain minChainNo chainNo) (below : ∀ ch ∈ w.chainTree.toList, ch.toNat < bound)
    (least : minChainNo.toNat < bound) : chainNo.toNat ≤ bound := by
  obtain ⟨first, begins, -, next⟩ := here
  have missing : bound ∉ w.chainTree.toList.map UInt32.toNat := fun inside => by
    obtain ⟨ch, member, same⟩ := List.mem_map.mp inside
    exact absurd (below ch member) (by omega)
  refine next ⟨?_, missing⟩
  rcases begins with ⟨-, rfl⟩ | ⟨-, ⟨inside, -⟩, -⟩
  · exact Nat.le_of_lt least
  · obtain ⟨ch, member, same⟩ := List.mem_map.mp inside
    have := below ch member
    omega

/-- The tree is in order and its numbers are below a bound. -/
structure Bounded (bound : Nat) (w : World) : Prop where
  ordered : w.chainTree.toList.Pairwise fun a b => a.toNat < b.toNat
  below : ∀ ch ∈ w.chainTree.toList, ch.toNat < bound

/-- Under a bound that leaves room a move returns, and needs one number more. -/
theorem chainMove_returns {move : ChainMove} (bounded : Bounded bound s.1)
    (valid : move.Valid s.1.config) (about : move.chainNo.toNat < bound) (room : bound < 2 ^ 31) :
    ∃ s', chainMove c s move = .ok s' ∧ Bounded (bound + 1) s'.1 := by
  have chained : Chained s.1 := ⟨bounded.ordered, fun ch inside => by
    have := bounded.below ch inside
    omega⟩
  cases move with
  | reported nlh chainNo =>
    have small : Small chainNo := Nat.lt_trans about room
    obtain ⟨w, got, ordered⟩ := chained.gotChain_returns small
    have bounded' : Bounded (bound + 1) w := ⟨ordered, fun ch inside => by
      rcases ((filterGotChain_grows got).2 ch).mp inside with rfl | old
      · exact Nat.lt_succ_of_lt about
      · exact Nat.lt_succ_of_lt (bounded.below ch old)⟩
    rw [chainMove, ReportsChain.handled valid, got]
    exact ⟨_, rfl, bounded'⟩
  | available minChainNo =>
    have small : Small minChainNo := Nat.lt_trans about room
    obtain ⟨ret, chainTree, found, next, members, ordered⟩ := chained.findAvailable small
    have bounded' : Bounded (bound + 1) { s.1 with chainTree } := ⟨ordered, fun ch inside => by
      rcases (members ch).mp inside with rfl | old
      · exact Nat.lt_succ_of_le (next.le bounded.below about)
      · exact Nat.lt_succ_of_lt (bounded.below ch old)⟩
    rw [chainMove, found]
    exact ⟨_, rfl, bounded'⟩

end Room

section Tracking

variable {c : Calls} {s s' : World × Finset UInt32} {move : ChainMove}

/-- The configuration stays. -/
theorem chainMove_config (valid : move.Valid s.1.config) (ran : chainMove c s move = .ok s') :
    s'.1.config = s.1.config := by
  cases move with
  | reported nlh chainNo =>
    obtain ⟨w, got, ran⟩ := bind_returned ran
    cases ran
    rw [ReportsChain.handled valid] at got
    exact (filterGotChain_grows got).1
  | available minChainNo =>
    obtain ⟨⟨chainNo, w⟩, found, ran⟩ := bind_returned ran
    cases ran
    exact (filterFindAvailableChainNo_grows found).1

/-- A move keeps to the chains that there should be unless it is a deletion, which adds its chain
to the tree. -/
theorem chainMove_tracks (tracks : Tracks s) (valid : move.Valid s.1.config)
    (ran : chainMove c s move = .ok s') : Tracks s' ↔ ¬ move.Deletes := by
  cases move with
  | reported nlh chainNo =>
    obtain ⟨w, got, ran⟩ := bind_returned ran
    cases ran
    rw [ReportsChain.handled valid] at got
    have grown := (filterGotChain_grows got).2
    by_cases gone : nlh.type = rtmDelchain
    · refine iff_of_false (fun kept => ?_) (not_not.mpr gone)
      have stays : chainNo ∈ s.2.erase chainNo := by
        have member := (kept chainNo).mp ((grown chainNo).mpr (.inl rfl))
        rwa [if_pos gone] at member
      exact Finset.notMem_erase chainNo s.2 stays
    · refine iff_of_true (fun ch => ?_) gone
      show ch ∈ w.chainTree.toList ↔ ch ∈ (if nlh.type = rtmDelchain then _ else _)
      rw [if_neg gone, Finset.mem_insert, grown, tracks ch]
  | available minChainNo =>
    obtain ⟨⟨chainNo, w⟩, found, ran⟩ := bind_returned ran
    cases ran
    refine iff_of_true (fun ch => ?_) not_false
    show ch ∈ w.chainTree.toList ↔ ch ∈ insert chainNo s.2
    rw [Finset.mem_insert, (filterFindAvailableChainNo_grows found).2, tracks ch]

/-- From a tree that holds what it should, every state on the way does exactly when no chain is
reported deleted. -/
theorem chainMoves_track {moves : List ChainMove} (tracks : Tracks s)
    (valid : ∀ move ∈ moves, move.Valid s.1.config) (ran : chainMoves c moves s = .ok s') :
    (∀ before s₁, before <+: moves → chainMoves c before s = .ok s₁ → Tracks s₁) ↔
      ∀ move ∈ moves, ¬ move.Deletes := by
  induction moves generalizing s with
  | nil =>
    refine iff_of_true (fun before s₁ initial here => ?_) fun _ inside => by cases inside
    rw [List.prefix_nil.mp initial] at here
    cases here
    exact tracks
  | cons move moves ih =>
    have own := valid move List.mem_cons_self
    obtain ⟨s₁, first, rest⟩ := bind_returned ran
    have step := chainMove_tracks tracks own first
    have valid₁ : ∀ move ∈ moves, move.Valid s₁.1.config := fun other inside => by
      rw [chainMove_config own first]
      exact valid other (List.mem_cons_of_mem _ inside)
    have onwards : ∀ before, chainMoves c (move :: before) s = chainMoves c before s₁ :=
      fun before => by
        show (chainMove c s move >>= fun s₁ => chainMoves c before s₁) = _
        rw [first, ok_bind]
    constructor
    · intro always
      have tracks₁ : Tracks s₁ := always [move] s₁ (List.prefix_append [move] moves)
        (onwards [])
      have later := (ih tracks₁ valid₁ rest).mp fun before s₂ initial here =>
        always (move :: before) s₂ (List.prefix_cons_inj move |>.mpr initial)
          ((onwards before).trans here)
      intro other inside
      rcases List.mem_cons.mp inside with rfl | inside
      · exact step.mp tracks₁
      · exact later other inside
    · intro kept before s₂ initial here
      have tracks₁ := step.mpr (kept move List.mem_cons_self)
      cases before with
      | nil =>
        cases here
        exact tracks
      | cons other before =>
        obtain ⟨same, shorter⟩ := List.cons_prefix_cons.mp initial
        rw [same, onwards] at here
        exact (ih tracks₁ valid₁ rest).mpr (fun other inside =>
          kept other (List.mem_cons_of_mem _ inside)) before s₂ shorter here

/-- Where every chain that the moves are about leaves room for one number a move, they return. -/
theorem chainMoves_return {moves : List ChainMove} {bound : Nat} (bounded : Bounded bound s.1)
    (valid : ∀ move ∈ moves, move.Valid s.1.config)
    (about : ∀ move ∈ moves, move.chainNo.toNat < bound) (room : bound + moves.length ≤ 2 ^ 31) :
    ∃ s', chainMoves c moves s = .ok s' := by
  induction moves generalizing s bound with
  | nil => exact ⟨s, rfl⟩
  | cons move moves ih =>
    rw [List.length_cons] at room
    have own := valid move List.mem_cons_self
    obtain ⟨s₁, first, bounded₁⟩ :=
      chainMove_returns (c := c) bounded own (about move List.mem_cons_self) (by omega)
    have valid₁ : ∀ move ∈ moves, move.Valid s₁.1.config := fun other inside => by
      rw [chainMove_config own first]
      exact valid other (List.mem_cons_of_mem _ inside)
    obtain ⟨s', rest⟩ := ih bounded₁ valid₁
      (fun other inside => Nat.lt_succ_of_lt (about other (List.mem_cons_of_mem _ inside)))
      (by omega)
    refine ⟨s', ?_⟩
    show (chainMove c s move >>= fun s₁ => chainMoves c moves s₁) = _
    rw [first, ok_bind]
    exact rest

end Tracking

/-- From an empty tree, messages and allocations return while the chains that they are about leave
room for one number each; and the chain tree holds the chains that there should be, all the way
through them, exactly when no message reports a chain deleted. -/
theorem chain_tree_tracks (c : Calls) (w : World) (empty : w.chainTree = .leaf)
    (moves : List ChainMove) (valid : ∀ move ∈ moves, move.Valid w.config) :
    ((∀ move ∈ moves, move.chainNo.toNat + moves.length < 2 ^ 31) →
      ∃ s, chainMoves c moves (w, ∅) = .ok s) ∧
    ∀ s, chainMoves c moves (w, ∅) = .ok s →
      ((∀ before s₁, before <+: moves → chainMoves c before (w, ∅) = .ok s₁ → Tracks s₁) ↔
        ∀ move ∈ moves, ¬ move.Deletes) := by
  have tracks : Tracks (w, ∅) := fun ch => by
    rw [empty]
    exact iff_of_false List.not_mem_nil (Finset.notMem_empty ch)
  refine ⟨fun room => ?_, fun s ran => chainMoves_track tracks valid ran⟩
  cases moves with
  | nil => exact ⟨(w, ∅), rfl⟩
  | cons move moves =>
    have bounded : Bounded (2 ^ 31 - (move :: moves).length) w := by
      refine ⟨?_, fun ch inside => ?_⟩
      · rw [empty]
        exact List.Pairwise.nil
      · rw [empty] at inside
        exact absurd inside List.not_mem_nil
    have first := room move List.mem_cons_self
    refine chainMoves_return bounded valid (fun other inside => ?_) (by omega)
    have := room other inside
    omega

/-- A message about chain 5. -/
def chainFive (type : UInt16) : Nlmsg where
  type := type
  flags := 0
  tcm := { ifindex := 0, handle := 0, parent := tcHMaj tcHIngress, info := 0 }
  attrs := encodeAll [mnlAttrPutU32 11 5]

theorem chainFive_attrs : parse (chainFive rtmNewchain).attrs = [mnlAttrPutU32 11 5] :=
  parse_encodeAll (by simp [mnlAttrPutU32, mnlAttrPut, Attr.Fits])

/-- It is one of the interface. -/
theorem chainFive_reports {type : UInt16} (about : type = rtmNewchain ∨ type = rtmDelchain) :
    ReportsChain {} (chainFive type) 5 := by
  have attrs : parse (chainFive type).attrs = [mnlAttrPutU32 11 5] := chainFive_attrs
  refine ⟨about, rfl, rfl, ?_, .inl ?_, by decide⟩
  · rw [Valid, attrs]
    decide
  · rw [attrIn, attrs]
    decide

/-- The chain is created, and the next one is allocated: the tree holds both. -/
theorem chain_tree_tracks_created :
    ∃ s, chainMoves (calls 0) [.reported (chainFive rtmNewchain) 5, .available 5] ({}, ∅) = .ok s ∧
      Tracks s ∧ 5 ∈ s.1.chainTree.toList := by
  have valid : ∀ move ∈ [ChainMove.reported (chainFive rtmNewchain) 5, .available 5],
      move.Valid {} := by
    intro move inside
    rcases List.mem_cons.mp inside with rfl | inside
    · exact chainFive_reports (.inl rfl)
    · rw [List.mem_singleton.mp inside]
      trivial
  have kept : ∀ move ∈ [ChainMove.reported (chainFive rtmNewchain) 5, .available 5],
      ¬ move.Deletes := by
    intro move inside
    rcases List.mem_cons.mp inside with rfl | inside
    · exact fun gone => absurd gone (show rtmNewchain ≠ rtmDelchain by decide)
    · rw [List.mem_singleton.mp inside]
      exact not_false
  obtain ⟨returns, follows⟩ := chain_tree_tracks (calls 0) {} rfl _ valid
  have room : ∀ move ∈ [ChainMove.reported (chainFive rtmNewchain) 5, .available 5],
      move.chainNo.toNat + 2 < 2 ^ 31 := by
    intro move inside
    rcases List.mem_cons.mp inside with rfl | inside
    · decide
    · rw [List.mem_singleton.mp inside]
      decide
  obtain ⟨s, ran⟩ := returns room
  have tracks := (follows s ran).mpr kept _ s (List.prefix_refl _) ran
  refine ⟨s, ran, tracks, (tracks 5).mpr ?_⟩
  obtain ⟨s₁, first, rest⟩ := bind_returned (show (chainMove (calls 0) ({}, ∅)
    (.reported (chainFive rtmNewchain) 5) >>= fun s₁ => chainMoves (calls 0) [.available 5] s₁) = _
      from ran)
  obtain ⟨_, -, first⟩ := bind_returned first
  cases first
  obtain ⟨s₂, second, rest⟩ := bind_returned rest
  cases rest
  obtain ⟨⟨ret, _⟩, -, second⟩ := bind_returned second
  cases second
  show 5 ∈ insert ret (insert 5 ∅)
  exact Finset.mem_insert_of_mem (Finset.mem_insert_self 5 ∅)

/-- A chain that is created and deleted stays in the tree. -/
theorem chain_tree_keeps_deleted :
    ¬ ∀ (c : Calls) (w : World), w.chainTree = .leaf →
      ∀ moves : List ChainMove, (∀ move ∈ moves, move.Valid w.config) →
      ∀ s, chainMoves c moves (w, ∅) = .ok s → Tracks s := by
  intro tracks
  have created : decodeNlmsgCb (calls 0) (chainFive rtmNewchain) {} = filterGotChain 5 {} :=
    (chainFive_reports (.inl rfl)).handled
  obtain ⟨w, got⟩ : ∃ w, filterGotChain 5 {} = .ok w := ⟨_, rfl⟩
  have config := (filterGotChain_grows got).1
  have deleted : decodeNlmsgCb (calls 0) (chainFive rtmDelchain) w = filterGotChain 5 w := by
    apply ReportsChain.handled
    rw [config]
    exact chainFive_reports (.inr rfl)
  obtain ⟨w', again⟩ : ∃ w', filterGotChain 5 w = .ok w' := by
    cases got
    exact ⟨_, rfl⟩
  have valid : ∀ move ∈ [ChainMove.reported (chainFive rtmNewchain) 5,
      .reported (chainFive rtmDelchain) 5], move.Valid {} := by
    intro move inside
    rcases List.mem_cons.mp inside with rfl | inside
    · exact chainFive_reports (.inl rfl)
    · rw [List.mem_singleton.mp inside]
      exact chainFive_reports (.inr rfl)
  have ran : chainMoves (calls 0) [.reported (chainFive rtmNewchain) 5,
      .reported (chainFive rtmDelchain) 5] ({}, ∅) = .ok (w', ∅) := by
    simp only [chainMoves, List.foldlM_cons, List.foldlM_nil, chainMove, created, got, deleted,
      again, bind, Except.bind, pure, Except.pure]
    rfl
  have kept : (5 : UInt32) ∈ w'.chainTree.toList := ((filterGotChain_grows again).2 5).mpr (.inl rfl)
  exact Finset.notMem_empty _ ((tracks _ _ rfl _ valid _ ran 5).mp kept)

end FlowerRoute
