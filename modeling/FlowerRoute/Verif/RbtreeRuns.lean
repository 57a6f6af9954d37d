import FlowerRoute.Verif.Rbtree

/-!
# Runs of the functions of a tree

Any sequence of insertions, removals, lookups and walks on nodes in memory gives what the same
sequence gives on a balanced search tree. The loops take no more rounds than such a tree is high.
-/

namespace FlowerRoute

open Outcome SearchTree

variable {P : Type}

/-- The nodes hold a balanced search tree. -/
structure RbRoot.Holds (t : RbRoot P) (s : SearchTree P) : Prop where
  spelled : Spelled t [] s
  balanced : ∃ n, s.Balanced false n

/-- `RB_ROOT` holds the empty tree. -/
theorem RbRoot.holds_empty {t : RbRoot P} (empty : t.rbNode = none) : t.Holds .leaf :=
  ⟨⟨empty, trivial, trivial, List.nodup_nil⟩, 0, .leaf⟩

namespace RbRoot.Holds

variable {t : RbRoot P} {s : SearchTree P}

/-- The tree is not higher than the rounds of a loop. -/
theorem height_lt {rounds : Nat} (holds : t.Holds s)
    (enough : 2 * Nat.log 2 (s.toList.length + 1) < rounds) : s.height < rounds := by
  obtain ⟨n, balanced⟩ := holds.balanced
  exact balanced.height_le_log.trans_lt enough

/-- The items of the tree are distinct. -/
theorem nodup (holds : t.Holds s) : s.toList.Nodup := by
  have distinct := holds.spelled.nodup
  rwa [frameItems, List.append_nil] at distinct

end RbRoot.Holds

variable [DecidableEq P]

/-- What can be done with a tree. -/
inductive RbOp (P : Type)
  | insert (compare : P → Except Fault Int) (node : P)
  | erase (node : P)
  | lookup (compare : P → Except Fault Int)
  | end (side : Side)
  | walk (side : Side) (node : P)

/-- What comes out of it. -/
inductive RbResult (P : Type)
  | inserted (done : Bool)
  | erased
  | node (found : Option P)
  deriving DecidableEq, Repr

/-- On nodes in memory. -/
def RbOp.run (rounds : Nat) (t : RbRoot P) : RbOp P → Except Fault (RbResult P × RbRoot P)
  | .insert compare new => do
    let (done, t) ← rbInsert compare rounds new t
    return (.inserted done, t)
  | .erase item => do return (.erased, ← rbErase rounds item t)
  | .lookup compare => do return (.node (← rbLookup compare rounds t.rbNode t), t)
  | .end side => do return (.node (← rbEnd side rounds t), t)
  | .walk side item => do return (.node (← rbWalk side rounds item t), t)

/-- The item that follows in a sequence. -/
def follower (item : P) (items : List P) : Option P :=
  ((items.dropWhile (· ≠ item)).drop 1).head?

/-- On a search tree. -/
def RbOp.apply (s : SearchTree P) : RbOp P → Except Fault (RbResult P × SearchTree P)
  | .insert compare new => do
    match ← s.link compare new with
    | none => return (.inserted false, s)
    | some linked => return (.inserted true, redBlack.insertColor new linked)
  | .erase item => .ok (.erased, redBlack.erase item s)
  | .lookup compare => do return (.node (← s.find compare), s)
  | .end side => .ok (.node (s.inOrder side).getLast?, s)
  | .walk side item => .ok (.node (follower item (s.inOrder side)), s)

/-- A new node is inserted, and a node of the tree is removed or walked from. -/
def RbOp.Fits (s : SearchTree P) : RbOp P → Prop
  | .insert _ new => new ∉ s.toList
  | .erase item => item ∈ s.toList
  | .lookup _ => True
  | .end _ => True
  | .walk _ item => item ∈ s.toList

instance (s : SearchTree P) (op : RbOp P) : Decidable (op.Fits s) :=
  match op with
  | .insert _ new => inferInstanceAs (Decidable (new ∉ s.toList))
  | .erase item => inferInstanceAs (Decidable (item ∈ s.toList))
  | .lookup _ => .isTrue trivial
  | .end _ => .isTrue trivial
  | .walk _ item => inferInstanceAs (Decidable (item ∈ s.toList))

/-- Both stop at one fault, or both return one result and the nodes hold the tree. -/
inductive Refines {α : Type} : Except Fault (α × RbRoot P) → Except Fault (α × SearchTree P) → Prop
  | fault (e : Fault) : Refines (.error e) (.error e)
  | done (a : α) {t : RbRoot P} {s : SearchTree P} : t.Holds s → Refines (.ok (a, t)) (.ok (a, s))

/-- The follower of an item that was not there before. -/
theorem follower_split {item : P} {before after : List P} (first : item ∉ before) :
    follower item (before ++ item :: after) = after.head? := by
  have skipped : ∀ other ∈ before, decide (other ≠ item) = true := by
    intro other member
    simpa using fun same : other = item => first (same ▸ member)
  rw [follower, List.dropWhile_append_of_pos skipped]
  simp

namespace RbRoot.Holds

variable {t : RbRoot P} {s : SearchTree P} {rounds : Nat}

/-- A node of the tree is somewhere, with its frames. -/
theorem place (holds : t.Holds s) {x : P} (inside : x ∈ s.toList) :
    ∃ ctx red left right, s = plug ctx (.node red left x right) ∧
      Spelled t ctx (.node red left x right) := by
  cases search : s.focus x [] with
  | none => exact absurd inside (focus_none search)
  | some found =>
    obtain ⟨ctx, red, left, right, -, whole, -⟩ := focus_some search
    have spelled := holds.spelled
    rw [← whole] at spelled
    exact ⟨ctx, red, left, right, whole.symm, spelled_plug.mpr spelled⟩

/-- Insertion. -/
theorem insert (holds : t.Holds s) (compare : P → Except Fault Int) {new : P}
    (fresh : new ∉ s.toList) (enough : s.height < rounds) :
    Refines ((RbOp.insert compare new).run rounds t) ((RbOp.insert compare new).apply s) := by
  have placed : Places [] s new (s.link compare new) (rbPlace compare rounds none .root t) :=
    rbPlace_spelled compare new holds.spelled enough
  rw [RbOp.run, RbOp.apply, rbInsert]
  cases link : s.link compare new with
  | error e =>
    rw [link] at placed
    generalize rbPlace compare rounds none .root t = place at placed ⊢
    cases placed
    exact .fault e
  | ok result =>
    rw [link] at placed
    generalize rbPlace compare rounds none .root t = place at placed ⊢
    cases placed with
    | refused => exact .done _ holds
    | free ctx linked same same' =>
      obtain ⟨n, balanced⟩ := holds.balanced
      have linked' : linked.toList.Nodup := nodup_link link fresh holds.nodup
      rw [plug] at same same'
      subst same same'
      have outside : new ∉ frameItems ctx := fun member =>
        fresh ((perm_plug ctx .leaf).mem_iff.mpr member)
      have few : ctx.length < rounds :=
        (Nat.le_of_add_right_le (length_add_height_le ctx .leaf)).trans_lt enough
      obtain ⟨t', inserted, after⟩ :=
        rbInsertColor_linked (spelled_plug.mpr holds.spelled) outside balanced few
      simp only [ok_bind, inserted]
      exact .done _ ⟨after, balanced.insertColor linked' link⟩

/-- Removal. -/
theorem erase (holds : t.Holds s) {item : P} (inside : item ∈ s.toList)
    (enough : s.height < rounds) :
    Refines ((RbOp.erase item).run rounds t) ((RbOp.erase item).apply s) := by
  obtain ⟨n, balanced⟩ := holds.balanced
  have nodup := holds.nodup
  obtain ⟨ctx, red, left, right, rfl, spelled⟩ := holds.place inside
  obtain ⟨t', erased, after⟩ := rbErase_spelled spelled balanced enough.le
  rw [← redBlack_erase nodup] at after
  simp only [RbOp.run, RbOp.apply, erased, ok_bind]
  exact .done _ ⟨after, balanced.erase item⟩

/-- Lookup. -/
theorem lookup (holds : t.Holds s) (compare : P → Except Fault Int) (enough : s.height < rounds) :
    Refines ((RbOp.lookup compare).run rounds t) ((RbOp.lookup compare).apply s) := by
  have root : t.rbNode = s.top := holds.spelled.root
  simp only [RbOp.run, RbOp.apply, root, rbLookup_spelled holds.spelled enough]
  cases s.find compare with
  | error e => exact .fault e
  | ok found => exact .done _ holds

/-- The first and the last node. -/
theorem rbEnd (holds : t.Holds s) (side : Side) (enough : s.height < rounds) :
    Refines ((RbOp.end side).run rounds t) ((RbOp.end side).apply s) := by
  have root : t.rbNode = s.top := holds.spelled.root
  simp only [RbOp.run, RbOp.apply, FlowerRoute.rbEnd, root]
  cases top : s.top with
  | none =>
    cases s with
    | leaf =>
      rw [inOrder_leaf]
      exact .done _ holds
    | node _ _ _ _ => cases top
  | some x =>
    obtain ⟨y, found, last⟩ := rbDescend_spelled side holds.spelled top enough.le
    simp only [found, ok_bind, last]
    exact .done _ holds

/-- A walk. -/
theorem walk (holds : t.Holds s) (side : Side) {item : P} (inside : item ∈ s.toList)
    (enough : s.height < rounds) :
    Refines ((RbOp.walk side item).run rounds t) ((RbOp.walk side item).apply s) := by
  have nodup := holds.nodup
  obtain ⟨ctx, red, left, right, rfl, spelled⟩ := holds.place inside
  obtain ⟨near, far, parts⟩ := node_eq_join side red left item right
  have high := length_add_height_le ctx (.node red left item right)
  rw [parts, height_join] at high
  rw [parts] at holds spelled nodup enough ⊢
  have walked : rbWalk side rounds item t = .ok (near.inOrder side ++ beyond side ctx).head? :=
    rbWalk_spelled spelled (by omega) (by omega)
  have sequence := inOrder_plug side ctx (join side red item near far)
  rw [inOrder_join, List.append_assoc, List.cons_append, ← List.append_assoc] at sequence
  have distinct := nodup_inOrder side nodup
  rw [sequence] at distinct
  have first : item ∉ behind side ctx ++ far.inOrder side := fun member =>
    (List.nodup_append.mp distinct).2.2 item member item List.mem_cons_self rfl
  simp only [RbOp.run, RbOp.apply, walked, ok_bind, sequence, follower_split first]
  exact .done _ holds

/-- Everything that can be done with a tree. -/
theorem step (holds : t.Holds s) {op : RbOp P} (fits : op.Fits s) (enough : s.height < rounds) :
    Refines (op.run rounds t) (op.apply s) := by
  cases op with
  | insert compare new => exact holds.insert compare fits enough
  | erase item => exact holds.erase fits enough
  | lookup compare => exact holds.lookup compare enough
  | «end» side => exact holds.rbEnd side enough
  | walk side item => exact holds.walk side fits enough

end RbRoot.Holds

/-- A sequence of them on nodes in memory, with what comes out. -/
def runAll (rounds : Nat) (t : RbRoot P) :
    List (RbOp P) → Except Fault (List (RbResult P) × RbRoot P)
  | [] => .ok ([], t)
  | op :: ops => do
    let (result, t) ← op.run rounds t
    let (results, t) ← runAll rounds t ops
    return (result :: results, t)

/-- The same sequence on a search tree. -/
def applyAll (s : SearchTree P) : List (RbOp P) → Except Fault (List (RbResult P) × SearchTree P)
  | [] => .ok ([], s)
  | op :: ops => do
    let (result, s) ← op.apply s
    let (results, s) ← applyAll s ops
    return (result :: results, s)

/-- Each of the sequence fits the tree that it meets. -/
def FitsAll (s : SearchTree P) : List (RbOp P) → Prop
  | [] => True
  | op :: ops => op.Fits s ∧ match op.apply s with
    | .error _ => True
    | .ok (_, s) => FitsAll s ops

instance decidableFitsAll (s : SearchTree P) : (ops : List (RbOp P)) → Decidable (FitsAll s ops)
  | [] => .isTrue trivial
  | op :: ops =>
    have : Decidable (match op.apply s with
        | .error _ => True
        | .ok (_, s) => FitsAll s ops) :=
      match op.apply s with
      | .error _ => .isTrue trivial
      | .ok (_, s) => decidableFitsAll s ops
    inferInstanceAs (Decidable (_ ∧ _))

/-- A tree grows by at most one item. -/
theorem length_apply {op : RbOp P} {s s' : SearchTree P} {result : RbResult P}
    (applied : op.apply s = .ok (result, s')) : s'.toList.length ≤ s.toList.length + 1 := by
  cases op with
  | insert compare new =>
    obtain ⟨linked, link, applied⟩ := bind_returned applied
    cases linked with
    | none =>
      cases applied
      exact Nat.le_succ _
    | some linked =>
      cases applied
      obtain ⟨before, after, old, fresh⟩ := link_some link
      rw [redBlack.insertColor_toList, fresh, old]
      simp only [List.length_append, List.length_cons]
      omega
  | erase item =>
    cases applied
    rw [redBlack.erase_toList]
    exact (List.length_erase_le).trans (Nat.le_succ _)
  | lookup compare =>
    obtain ⟨found, -, applied⟩ := bind_returned applied
    cases applied
    exact Nat.le_succ _
  | «end» side =>
    cases applied
    exact Nat.le_succ _
  | walk side item =>
    cases applied
    exact Nat.le_succ _

/-- A sequence on nodes that hold a tree. -/
theorem runAll_refines {ops : List (RbOp P)} {t : RbRoot P} {s : SearchTree P} {rounds : Nat}
    (holds : t.Holds s) (fits : FitsAll s ops)
    (enough : 2 * Nat.log 2 (s.toList.length + ops.length + 1) < rounds) :
    Refines (runAll rounds t ops) (applyAll s ops) := by
  induction ops generalizing t s with
  | nil => exact .done [] holds
  | cons op ops ih =>
    obtain ⟨first, later⟩ := fits
    rw [List.length_cons] at enough
    have grows : Nat.log 2 (s.toList.length + 1) ≤
        Nat.log 2 (s.toList.length + (ops.length + 1) + 1) := Nat.log_mono_right (by omega)
    have step := holds.step first (holds.height_lt (by omega : _ < rounds))
    rw [runAll, applyAll]
    revert step later
    generalize op.run rounds t = ran
    cases applied : op.apply s with
    | error e =>
      intro _ step
      cases step
      exact .fault e
    | ok pair =>
      intro later step
      cases step with
      | @done result t' s' holds' =>
        have grown := length_apply applied
        have steps : Nat.log 2 (s'.toList.length + ops.length + 1) ≤
            Nat.log 2 (s.toList.length + (ops.length + 1) + 1) := Nat.log_mono_right (by omega)
        have rest := ih holds' later (by omega)
        simp only [ok_bind]
        revert rest
        generalize runAll rounds t' ops = left, applyAll s' ops = right
        intro rest
        cases rest with
        | fault e => exact .fault e
        | done results holds'' => exact .done _ holds''

/-- Any sequence of insertions, removals, lookups and walks from an empty tree does on nodes in
memory what it does on balanced search trees, with loops of a logarithmic number of rounds. -/
theorem rb_refines_balanced_tree {ops : List (RbOp P)} {t : RbRoot P} {rounds : Nat}
    (empty : t.rbNode = none) (fits : FitsAll .leaf ops)
    (enough : 2 * Nat.log 2 (ops.length + 1) < rounds) :
    Refines (runAll rounds t ops) (applyAll .leaf ops) :=
  runAll_refines (RbRoot.holds_empty empty) fits (by simpa [toList] using enough)

/-- Three nodes come, one of them is walked from and goes, and another one is found. -/
theorem rb_refines_balanced_tree_three :
    let key := fun k : Nat => fun other : Nat => (.ok ((k : Int) - other) : Except Fault Int)
    let ops : List (RbOp Nat) := [.insert (key 1) 1, .insert (key 2) 2, .insert (key 3) 3,
      .walk .right 2, .erase 2, .lookup (key 3), .end .left]
    Refines (runAll 7 {} ops) (applyAll .leaf ops) :=
  rb_refines_balanced_tree rfl (by decide) (by decide)

end FlowerRoute
