import FlowerRoute.Lib.Outcome
import Mathlib.Data.List.Basic
import Mathlib.Data.List.Nodup

/-!
# Search trees

A binary search tree of items whose order is a comparison with the sign convention of
`memcmp`. A search and an insertion descend by the comparison only, so what they do on a
tree that is out of order is defined too. Rebalancing is a parameter: all that is known of
it is that it keeps the in-order sequence.
-/

/-- A binary tree with a colour and an item in every node. -/
inductive SearchTree (α : Type)
  | leaf
  | node (red : Bool) (left : SearchTree α) (item : α) (right : SearchTree α)
  deriving DecidableEq, Repr

namespace SearchTree

variable {α ε : Type}

instance : Inhabited (SearchTree α) := ⟨.leaf⟩

/-- The in-order sequence. -/
def toList : SearchTree α → List α
  | .leaf => []
  | .node _ left item right => left.toList ++ item :: right.toList

/-- Descend to the item that compares equal; the comparison of an item may fail. -/
def find (compare : α → Except ε Int) : SearchTree α → Except ε (Option α)
  | .leaf => .ok none
  | .node _ left item right => do
    let sign ← compare item
    if sign < 0 then left.find compare
    else if 0 < sign then right.find compare
    else pure (some item)

/-- Descend to a free place and put the new item there; refused at an item that compares
equal. -/
def link (compare : α → Except ε Int) (new : α) : SearchTree α → Except ε (Option (SearchTree α))
  | .leaf => .ok (some (.node true .leaf new .leaf))
  | .node red left item right => do
    let sign ← compare item
    if sign < 0 then
      return (← left.link compare new).map fun left => .node red left item right
    else if 0 < sign then
      return (← right.link compare new).map fun right => .node red left item right
    else pure none

/-- The item after a given one in the in-order sequence. -/
def next [DecidableEq α] (item : α) (t : SearchTree α) : Option α :=
  ((t.toList.dropWhile (· ≠ item)).drop 1).head?

/-- What comes after an item is a member. -/
theorem mem_of_next [DecidableEq α] {item found : α} {t : SearchTree α}
    (after : t.next item = some found) : found ∈ t.toList :=
  (List.dropWhile_subset _) (List.mem_of_mem_drop (List.mem_of_mem_head? after))

/-- The item after the one at which the sequence is split. -/
theorem next_of_split [DecidableEq α] {item : α} {t : SearchTree α} {before after : List α}
    (sequence : t.toList = before ++ item :: after) (first : item ∉ before) :
    t.next item = after.head? := by
  have skipped : ∀ other ∈ before, decide (other ≠ item) = true := by
    intro other member
    simpa using fun same : other = item => first (same ▸ member)
  unfold next
  rw [sequence, List.dropWhile_append_of_pos skipped]
  simp

/-- What is known of the rebalancing after an insertion and of the removal of a node. -/
structure Balancing (α : Type) [DecidableEq α] where
  /-- Recolour and rotate after a new leaf was linked. -/
  insertColor : α → SearchTree α → SearchTree α
  /-- Remove the node of an item. -/
  erase : α → SearchTree α → SearchTree α
  /-- An insertion keeps the in-order sequence. -/
  insertColor_toList : ∀ item t, (insertColor item t).toList = t.toList
  /-- A removal takes one item out of the in-order sequence. -/
  erase_toList : ∀ item t, (erase item t).toList = t.toList.erase item

/-- A descent that found an item found a member that compares equal. -/
theorem find_some {compare : α → Except ε Int} {t : SearchTree α} {found : α}
    (search : t.find compare = .ok (some found)) :
    found ∈ t.toList ∧ compare found = .ok 0 := by
  induction t with
  | leaf => cases search
  | node red left item right ihLeft ihRight =>
    simp only [find] at search
    cases sign : compare item with
    | error e => rw [sign] at search; cases search
    | ok value =>
      simp only [sign, bind, Except.bind] at search
      split at search
      · obtain ⟨member, equal⟩ := ihLeft search
        exact ⟨by simp [toList, member], equal⟩
      · split at search
        · obtain ⟨member, equal⟩ := ihRight search
          exact ⟨by simp [toList, member], equal⟩
        · cases search
          refine ⟨by simp [toList], ?_⟩
          rw [sign]
          congr 1
          omega

/-- A descent for the same comparison links exactly where a search finds nothing. -/
theorem link_of_find_none {compare : α → Except ε Int} {t : SearchTree α} (new : α)
    (search : t.find compare = .ok none) : ∃ linked, t.link compare new = .ok (some linked) := by
  induction t with
  | leaf => exact ⟨_, rfl⟩
  | node red left item right ihLeft ihRight =>
    simp only [find] at search
    simp only [link]
    cases sign : compare item with
    | error e => rw [sign] at search; cases search
    | ok value =>
      simp only [sign, bind, Except.bind] at search ⊢
      split at search
      · obtain ⟨linked, below⟩ := ihLeft search
        rw [if_pos (by assumption), below]
        exact ⟨_, rfl⟩
      · split at search
        · obtain ⟨linked, below⟩ := ihRight search
          rw [if_neg (by assumption), if_pos (by assumption), below]
          exact ⟨_, rfl⟩
        · cases search

/-- A descent depends on the comparison of the members only. -/
theorem find_congr {compare compare' : α → Except ε Int} {t : SearchTree α}
    (same : ∀ item ∈ t.toList, compare item = compare' item) :
    t.find compare = t.find compare' := by
  induction t with
  | leaf => rfl
  | node red left item right ihLeft ihRight =>
    simp only [toList, List.mem_append, List.mem_cons] at same
    simp only [find]
    rw [same item (by simp), ihLeft fun i inside => same i (.inl inside),
      ihRight fun i inside => same i (.inr (.inr inside))]

/-- So does an insertion. -/
theorem link_congr {compare compare' : α → Except ε Int} {t : SearchTree α} (new : α)
    (same : ∀ item ∈ t.toList, compare item = compare' item) :
    t.link compare new = t.link compare' new := by
  induction t with
  | leaf => rfl
  | node red left item right ihLeft ihRight =>
    simp only [toList, List.mem_append, List.mem_cons] at same
    simp only [link]
    rw [same item (by simp), ihLeft fun i inside => same i (.inl inside),
      ihRight fun i inside => same i (.inr (.inr inside))]

/-- A search stops at a fault of the comparison only. -/
theorem find_faults {fault : ε → Prop} {compare : α → Except ε Int}
    (faults : ∀ item, Outcome.Ends fault (fun _ => True) (compare item)) (t : SearchTree α) :
    Outcome.Ends fault (fun _ => True) (t.find compare) := by
  induction t with
  | leaf => trivial
  | node red left item right ihLeft ihRight =>
    refine Outcome.faults_bind (faults item) fun sign => ?_
    split
    · exact ihLeft
    · split
      · exact ihRight
      · trivial

/-- A search whose comparisons with the members return returns. -/
theorem find_returns {compare : α → Except ε Int} {t : SearchTree α}
    (returns : ∀ item ∈ t.toList, ∃ sign, compare item = .ok sign) :
    ∃ found, t.find compare = .ok found := by
  induction t with
  | leaf => exact ⟨none, rfl⟩
  | node red left item right ihLeft ihRight =>
    simp only [toList, List.mem_append, List.mem_cons] at returns
    obtain ⟨sign, compared⟩ := returns item (.inr (.inl rfl))
    simp only [find, compared, bind, Except.bind]
    split
    · exact ihLeft fun i inside => returns i (.inl inside)
    · split
      · exact ihRight fun i inside => returns i (.inr (.inr inside))
      · exact ⟨some item, rfl⟩

/-- An insertion stops at a fault of the comparison only. -/
theorem link_faults {fault : ε → Prop} {compare : α → Except ε Int}
    (faults : ∀ item, Outcome.Ends fault (fun _ => True) (compare item)) (new : α) (t : SearchTree α) :
    Outcome.Ends fault (fun _ => True) (t.link compare new) := by
  induction t with
  | leaf => trivial
  | node red left item right ihLeft ihRight =>
    refine Outcome.faults_bind (faults item) fun sign => ?_
    split
    · exact Outcome.faults_bind ihLeft fun _ => trivial
    · split
      · exact Outcome.faults_bind ihRight fun _ => trivial
      · trivial

/-- A linked tree holds the old members in their order with the new one among them. -/
theorem link_some {compare : α → Except ε Int} {t linked : SearchTree α} {new : α}
    (done : t.link compare new = .ok (some linked)) :
    ∃ before after, t.toList = before ++ after ∧ linked.toList = before ++ new :: after := by
  induction t generalizing linked with
  | leaf =>
    cases done
    exact ⟨[], [], rfl, rfl⟩
  | node red left item right ihLeft ihRight =>
    simp only [link] at done
    cases sign : compare item with
    | error e => rw [sign] at done; cases done
    | ok value =>
      simp only [sign, bind, Except.bind] at done
      split at done
      · cases below : left.link compare new with
        | error e => rw [below] at done; cases done
        | ok result =>
          cases result with
          | none => rw [below] at done; cases done
          | some tree =>
            rw [below] at done
            cases done
            obtain ⟨before, after, old, fresh⟩ := ihLeft below
            exact ⟨before, after ++ item :: right.toList, by simp [toList, old],
              by simp [toList, fresh]⟩
      · split at done
        · cases below : right.link compare new with
          | error e => rw [below] at done; cases done
          | ok result =>
            cases result with
            | none => rw [below] at done; cases done
            | some tree =>
              rw [below] at done
              cases done
              obtain ⟨before, after, old, fresh⟩ := ihRight below
              exact ⟨left.toList ++ item :: before, after, by simp [toList, old],
                by simp [toList, fresh]⟩
        · cases done

/-- Membership after a successful insertion. -/
theorem mem_link {compare : α → Except ε Int} {t linked : SearchTree α} {new member : α}
    (done : t.link compare new = .ok (some linked)) :
    member ∈ linked.toList ↔ member = new ∨ member ∈ t.toList := by
  obtain ⟨before, after, old, fresh⟩ := link_some done
  simp only [old, fresh, List.mem_append, List.mem_cons]
  tauto

/-- Inserting a new member keeps the members distinct. -/
theorem nodup_link {compare : α → Except ε Int} {t linked : SearchTree α} {new : α}
    (done : t.link compare new = .ok (some linked)) (absent : new ∉ t.toList)
    (distinct : t.toList.Nodup) : linked.toList.Nodup := by
  obtain ⟨before, after, old, fresh⟩ := link_some done
  rw [old] at absent distinct
  rw [fresh]
  exact List.nodup_middle.mpr (List.nodup_cons.mpr ⟨absent, distinct⟩)

section Ordered

variable {before : α → α → Prop} {compare : α → Except ε Int} {t linked : SearchTree α}

/-- The items that a descent compares with, from the root on. -/
def path (compare : α → Except ε Int) : SearchTree α → List α
  | .leaf => []
  | .node _ left item right => item :: match compare item with
    | .error _ => []
    | .ok sign =>
      if sign < 0 then left.path compare else if 0 < sign then right.path compare else []

/-- A descent stays inside the tree. -/
theorem path_subset {item : α} (inside : item ∈ t.path compare) : item ∈ t.toList := by
  induction t with
  | leaf => cases inside
  | node red left other right ihLeft ihRight =>
    simp only [toList, List.mem_append, List.mem_cons]
    rcases List.mem_cons.mp inside with same | below
    · exact .inr (.inl same)
    · split at below
      · cases below
      · split at below
        · exact .inl (ihLeft below)
        · split at below
          · exact .inr (.inr (ihRight below))
          · cases below

/-- The descent for a new item turns to the side on which the item belongs. -/
def Guides (before : α → α → Prop) (compare : α → Except ε Int) (new : α) (t : SearchTree α) : Prop :=
  ∀ item ∈ t.path compare, ∀ sign, compare item = .ok sign →
    (sign < 0 → before new item) ∧ (0 < sign → before item new)

/-- What guides a descent at a node and below it to the left. -/
theorem guides_left {red : Bool} {left right : SearchTree α} {item new : α} {sign : Int}
    (compared : compare item = .ok sign) (negative : sign < 0) :
    Guides before compare new (.node red left item right) ↔
      before new item ∧ Guides before compare new left := by
  have path : (SearchTree.node red left item right).path compare = item :: left.path compare := by
    simp only [SearchTree.path, compared, if_pos negative]
  constructor
  · intro guides
    refine ⟨(guides item (path ▸ List.mem_cons_self) sign compared).1 negative, ?_⟩
    exact fun other below => guides other (path ▸ List.mem_cons_of_mem _ below)
  · rintro ⟨here, below⟩ other inside value same
    rw [path] at inside
    rcases List.mem_cons.mp inside with rfl | inside
    · rw [compared] at same
      cases same
      exact ⟨fun _ => here, fun positive => absurd positive (by omega)⟩
    · exact below other inside value same

/-- What guides a descent at a node and below it to the right. -/
theorem guides_right {red : Bool} {left right : SearchTree α} {item new : α} {sign : Int}
    (compared : compare item = .ok sign) (positive : 0 < sign) :
    Guides before compare new (.node red left item right) ↔
      before item new ∧ Guides before compare new right := by
  have path : (SearchTree.node red left item right).path compare = item :: right.path compare := by
    have notNegative : ¬ sign < 0 := by omega
    simp only [SearchTree.path, compared, if_neg notNegative, if_pos positive]
  constructor
  · intro guides
    refine ⟨(guides item (path ▸ List.mem_cons_self) sign compared).2 positive, ?_⟩
    exact fun other below => guides other (path ▸ List.mem_cons_of_mem _ below)
  · rintro ⟨here, below⟩ other inside value same
    rw [path] at inside
    rcases List.mem_cons.mp inside with rfl | inside
    · rw [compared] at same
      cases same
      exact ⟨fun negative => absurd negative (by omega), fun _ => here⟩
    · exact below other inside value same

/-- Linking keeps a tree in order exactly when the descent is guided. -/
theorem pairwise_link_iff {new : α} (done : t.link compare new = .ok (some linked))
    (trans : ∀ a b c, before a b → before b c → before a c) :
    linked.toList.Pairwise before ↔ t.toList.Pairwise before ∧ Guides before compare new t := by
  induction t generalizing linked with
  | leaf =>
    cases done
    simp [toList, Guides, path]
  | node red left item right ihLeft ihRight =>
    simp only [link] at done
    cases compared : compare item with
    | error e => rw [compared] at done; cases done
    | ok sign =>
      simp only [compared, bind, Except.bind] at done
      split at done
      · next negative =>
        cases below : left.link compare new with
        | error e => rw [below] at done; cases done
        | ok result =>
          cases result with
          | none => rw [below] at done; cases done
          | some tree =>
            rw [below] at done
            cases done
            have member : ∀ other, other ∈ tree.toList ↔ other = new ∨ other ∈ left.toList :=
              fun other => mem_link below
            rw [guides_left compared negative]
            simp only [toList, List.pairwise_append, ihLeft below]
            constructor
            · rintro ⟨⟨ordered, guided⟩, behind, across⟩
              refine ⟨⟨ordered, behind, fun a inside => across a ((member a).mpr (.inr inside))⟩, ?_,
                guided⟩
              exact across new ((member new).mpr (.inl rfl)) item List.mem_cons_self
            · rintro ⟨⟨ordered, behind, across⟩, ahead, guided⟩
              refine ⟨⟨ordered, guided⟩, behind, fun a inside b later => ?_⟩
              rcases (member a).mp inside with rfl | old
              · rcases List.mem_cons.mp later with rfl | far
                · exact ahead
                · exact trans _ _ _ ahead ((List.pairwise_cons.mp behind).1 b far)
              · exact across a old b later
      · split at done
        · next positive =>
          cases below : right.link compare new with
          | error e => rw [below] at done; cases done
          | ok result =>
            cases result with
            | none => rw [below] at done; cases done
            | some tree =>
              rw [below] at done
              cases done
              have member : ∀ other, other ∈ tree.toList ↔ other = new ∨ other ∈ right.toList :=
                fun other => mem_link below
              rw [guides_right compared positive]
              simp only [toList, List.pairwise_append, List.pairwise_cons, ihRight below]
              constructor
              · rintro ⟨ordered, ⟨behind, ordered', guided⟩, across⟩
                refine ⟨⟨ordered, ⟨fun b inside => behind b ((member b).mpr (.inr inside)), ordered'⟩,
                  fun a inside b later => across a inside b ?_⟩, ?_, guided⟩
                · rcases List.mem_cons.mp later with rfl | far
                  · exact List.mem_cons_self
                  · exact List.mem_cons_of_mem _ ((member b).mpr (.inr far))
                · exact behind new ((member new).mpr (.inl rfl))
              · rintro ⟨⟨ordered, ⟨behind, ordered'⟩, across⟩, ahead, guided⟩
                refine ⟨ordered, ⟨fun b inside => ?_, ordered', guided⟩, fun a inside b later => ?_⟩
                · rcases (member b).mp inside with rfl | old
                  · exact ahead
                  · exact behind b old
                · rcases List.mem_cons.mp later with rfl | far
                  · exact across a inside b List.mem_cons_self
                  · rcases (member b).mp far with rfl | old
                    · exact trans _ _ _ (across a inside item List.mem_cons_self) ahead
                    · exact across a inside b (List.mem_cons_of_mem _ old)
        · cases done

/-- A descent that finds an item in a tree in order was guided to it. -/
theorem guides_of_find {found : α} (ordered : t.toList.Pairwise before)
    (search : t.find compare = .ok (some found)) : Guides before compare found t := by
  induction t with
  | leaf => cases search
  | node red left item right ihLeft ihRight =>
    simp only [toList, List.pairwise_append, List.pairwise_cons] at ordered
    obtain ⟨orderedLeft, ⟨afterItem, orderedRight⟩, across⟩ := ordered
    simp only [find] at search
    cases compared : compare item with
    | error e => rw [compared] at search; cases search
    | ok sign =>
      simp only [compared, bind, Except.bind] at search
      split at search
      · next negative =>
        rw [guides_left compared negative]
        exact ⟨across found (find_some search).1 item List.mem_cons_self, ihLeft orderedLeft search⟩
      · split at search
        · next positive =>
          rw [guides_right compared positive]
          exact ⟨afterItem found (find_some search).1, ihRight orderedRight search⟩
        · next negative positive =>
          intro other inside value same
          simp only [path, compared, if_neg negative, if_neg positive, List.mem_singleton] at inside
          rw [inside, compared] at same
          cases same
          exact ⟨fun less => absurd less negative, fun more => absurd more positive⟩

/-- On a tree in order, a search finds a member that compares equal when the comparisons on its
way follow the order. -/
theorem find_of_path {member : α} (ordered : t.toList.Pairwise before)
    (inside : member ∈ t.toList) (equal : compare member = .ok 0)
    (follows : ∀ other ∈ t.path compare, ∃ sign, compare other = .ok sign ∧
      (before member other → sign < 0) ∧ (before other member → 0 < sign)) :
    ∃ found, t.find compare = .ok (some found) := by
  induction t with
  | leaf => cases inside
  | node red left item right ihLeft ihRight =>
    simp only [toList, List.pairwise_append, List.pairwise_cons] at ordered
    obtain ⟨orderedLeft, ⟨afterItem, orderedRight⟩, across⟩ := ordered
    obtain ⟨sign, compared, less, greater⟩ := follows item List.mem_cons_self
    have below : ∀ other, other ∈ (if sign < 0 then left.path compare
        else if 0 < sign then right.path compare else []) →
        ∃ sign, compare other = .ok sign ∧ (before member other → sign < 0) ∧
          (before other member → 0 < sign) := by
      intro other deeper
      apply follows other
      simp only [path, compared]
      exact List.mem_cons_of_mem _ deeper
    simp only [toList, List.mem_append, List.mem_cons] at inside
    rw [find, compared]
    simp only [bind, Except.bind]
    split
    · next negative =>
      rw [if_pos negative] at below
      refine ihLeft orderedLeft ?_ below
      rcases inside with left' | rfl | right'
      · exact left'
      · rw [equal] at compared
        cases compared
        exact absurd negative (by omega)
      · exact absurd (greater (afterItem _ right')) (by omega)
    · next notNegative =>
      rw [if_neg notNegative] at below
      split
      · next positive =>
        rw [if_pos positive] at below
        refine ihRight orderedRight ?_ below
        rcases inside with left' | rfl | right'
        · exact absurd (less (across _ left' _ List.mem_cons_self)) notNegative
        · rw [equal] at compared
          cases compared
          exact absurd positive (by omega)
        · exact right'
      · exact ⟨item, rfl⟩

/-- On a tree in order, a search whose comparison follows the order finds every member that
compares equal. -/
theorem find_of_mem {compare : α → Except ε Int} {t : SearchTree α} {member : α}
    (ordered : t.toList.Pairwise before) (inside : member ∈ t.toList)
    (equal : compare member = .ok 0) (total : ∀ other ∈ t.toList, ∃ sign, compare other = .ok sign)
    (less : ∀ other ∈ t.toList, before member other → ∃ sign < 0, compare other = .ok sign)
    (greater : ∀ other ∈ t.toList, before other member → ∃ sign > 0, compare other = .ok sign) :
    ∃ found, t.find compare = .ok (some found) := by
  refine find_of_path ordered inside equal fun other visited => ?_
  have among := path_subset visited
  obtain ⟨sign, compared⟩ := total other among
  refine ⟨sign, compared, fun ahead => ?_, fun behind => ?_⟩
  · obtain ⟨value, negative, same⟩ := less other among ahead
    rw [compared] at same
    cases same
    exact negative
  · obtain ⟨value, positive, same⟩ := greater other among behind
    rw [compared] at same
    cases same
    exact positive

/-- Where the comparison follows a strict order on the items, linking keeps the order. -/
theorem pairwise_link {compare : α → Except ε Int} {t linked : SearchTree α} {new : α}
    (done : t.link compare new = .ok (some linked))
    (trans : ∀ a b c, before a b → before b c → before a c)
    (less : ∀ item ∈ t.toList, ∀ sign < 0, compare item = .ok sign → before new item)
    (greater : ∀ item ∈ t.toList, ∀ sign > 0, compare item = .ok sign → before item new)
    (ordered : t.toList.Pairwise before) : linked.toList.Pairwise before := by
  refine (pairwise_link_iff done trans).mpr ⟨ordered, fun item visited sign compared => ?_⟩
  have among := path_subset visited
  exact ⟨fun negative => less item among sign negative compared,
    fun positive => greater item among sign positive compared⟩

/-- Linking is refused at an item only that a search finds. -/
theorem find_of_link_none {new : α} (refused : t.link compare new = .ok none) :
    ∃ found, t.find compare = .ok (some found) := by
  induction t with
  | leaf => cases refused
  | node red left item right ihLeft ihRight =>
    simp only [link] at refused
    simp only [find]
    cases compared : compare item with
    | error e => rw [compared] at refused; cases refused
    | ok sign =>
      simp only [compared, bind, Except.bind] at refused ⊢
      split at refused
      · next negative =>
        rw [if_pos negative]
        cases below : left.link compare new with
        | error e => rw [below] at refused; cases refused
        | ok result =>
          cases result with
          | none => exact ihLeft below
          | some tree => rw [below] at refused; cases refused
      · next notNegative =>
        rw [if_neg notNegative]
        split at refused
        · next positive =>
          rw [if_pos positive]
          cases below : right.link compare new with
          | error e => rw [below] at refused; cases refused
          | ok result =>
            cases result with
            | none => exact ihRight below
            | some tree => rw [below] at refused; cases refused
        · next notPositive =>
          rw [if_neg notPositive]
          exact ⟨item, rfl⟩

end Ordered

section Keyed

variable {key : α → Int} {compare : α → Except ε Int} {t linked : SearchTree α}

/-- In a tree in the order of keys a search finds the item of a key. -/
theorem find_key {k : Int} (ordered : t.toList.Pairwise fun a b => key a < key b)
    (compares : ∀ a ∈ t.toList, compare a = .ok (k - key a)) :
    ∃ found, t.find compare = .ok found ∧ ∀ a, found = some a ↔ a ∈ t.toList ∧ key a = k := by
  induction t with
  | leaf => exact ⟨none, rfl, fun a => ⟨(nomatch ·), fun both => absurd both.1 List.not_mem_nil⟩⟩
  | node red left item right ihLeft ihRight =>
    simp only [toList, List.pairwise_append, List.pairwise_cons, List.mem_append,
      List.mem_cons] at ordered compares
    obtain ⟨orderedLeft, ⟨afterItem, orderedRight⟩, across⟩ := ordered
    obtain ⟨first, found, isFirst⟩ := ihLeft orderedLeft fun a inside => compares a (.inl inside)
    obtain ⟨second, found', isSecond⟩ :=
      ihRight orderedRight fun a inside => compares a (.inr (.inr inside))
    rw [find, compares item (.inr (.inl rfl))]
    simp only [Outcome.ok_bind, toList, List.mem_append, List.mem_cons]
    by_cases less : k - key item < 0
    · refine ⟨first, by rw [if_pos less, found], fun a => (isFirst a).trans ?_⟩
      constructor
      · exact fun ⟨inside, same⟩ => ⟨.inl inside, same⟩
      · rintro ⟨inside | rfl | inside, same⟩
        · exact ⟨inside, same⟩
        · omega
        · have later := afterItem a inside
          omega
    · by_cases more : 0 < k - key item
      · refine ⟨second, by rw [if_neg less, if_pos more, found'], fun a => (isSecond a).trans ?_⟩
        constructor
        · exact fun ⟨inside, same⟩ => ⟨.inr (.inr inside), same⟩
        · rintro ⟨inside | rfl | inside, same⟩
          · have earlier := across a inside item (.inl rfl)
            omega
          · omega
          · exact ⟨inside, same⟩
      · refine ⟨some item, by rw [if_neg less, if_neg more]; rfl, fun a => ?_⟩
        constructor
        · intro same
          cases same
          exact ⟨.inr (.inl rfl), by omega⟩
        · rintro ⟨inside | rfl | inside, same⟩
          · have earlier := across a inside item (.inl rfl)
            omega
          · rfl
          · have later := afterItem a inside
            omega

/-- Linking keeps a tree in the order of keys. -/
theorem pairwise_link_key {key' : α → Int} {new : α} (done : t.link compare new = .ok (some linked))
    (ordered : t.toList.Pairwise fun a b => key a < key b) (same : ∀ a ∈ t.toList, key' a = key a)
    (compares : ∀ a ∈ t.toList, ∀ sign, compare a = .ok sign → sign = key' new - key a) :
    linked.toList.Pairwise fun a b => key' a < key' b := by
  refine pairwise_link done (fun a b c => Int.lt_trans) (fun a inside sign less compared => ?_)
    (fun a inside sign more compared => ?_) (ordered.imp_of_mem fun first second less => ?_)
  · rw [same a inside]
    have sign := compares a inside sign compared
    omega
  · rw [same a inside]
    have sign := compares a inside sign compared
    omega
  · rw [same _ first, same _ second]
    exact less

end Keyed

section Plain

/-- Hang a tree under the leftmost node of another one. -/
def hang (left : SearchTree α) : SearchTree α → SearchTree α
  | .leaf => left
  | .node red inner item right => .node red (left.hang inner) item right

/-- Hanging puts the one sequence in front of the other. -/
theorem toList_hang (left t : SearchTree α) : (left.hang t).toList = left.toList ++ t.toList := by
  induction t with
  | leaf => simp [hang, toList]
  | node red inner item right ihInner ihRight => simp [hang, toList, ihInner]

variable [DecidableEq α]

/-- Remove the node of an item by hanging its left subtree under its right one. -/
def remove (item : α) : SearchTree α → SearchTree α
  | .leaf => .leaf
  | .node red left other right =>
    if item ∈ left.toList then .node red (left.remove item) other right
    else if item = other then left.hang right
    else .node red left other (right.remove item)

/-- Removal takes the first occurrence out of the in-order sequence. -/
theorem toList_remove (item : α) (t : SearchTree α) :
    (t.remove item).toList = t.toList.erase item := by
  induction t with
  | leaf => rfl
  | node red left other right ihLeft ihRight =>
    simp only [remove]
    split
    · rename_i inside
      simp only [toList, ihLeft, List.erase_append, inside, if_true]
    · rename_i outside
      split
      · rename_i same
        subst same
        simp [toList, toList_hang, List.erase_append, outside]
      · rename_i different
        have miss : ¬ (other == item) = true := by simpa using fun h => different h.symm
        simp [toList, List.erase_append, outside, miss, ihRight]

/-- A tree without rebalancing. -/
def Balancing.plain : Balancing α where
  insertColor _ t := t
  erase := remove
  insertColor_toList _ _ := rfl
  erase_toList := toList_remove

end Plain

end SearchTree
