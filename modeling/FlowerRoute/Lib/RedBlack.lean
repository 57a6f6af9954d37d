import FlowerRoute.Lib.SearchTree
import Mathlib.Algebra.Group.Nat.Defs
import Mathlib.Data.List.Induction
import Mathlib.Data.Nat.Log

/-!
# Red-black trees

The recolourings and rotations after an insertion and after a removal, on a subtree and the frames
around it. Both keep the in-order sequence and the balance: no red node has a red child, and every
way down passes the same number of black nodes. A balanced tree is at most twice as high as the
logarithm of its size.
-/

namespace SearchTree

variable {α : Type}

/-- A side of a node. -/
inductive Side
  | left
  | right
  deriving DecidableEq, Repr

/-- The other side. -/
def Side.other : Side → Side
  | .left => .right
  | .right => .left

@[simp] theorem Side.other_other (side : Side) : side.other.other = side := by
  cases side <;> rfl

theorem Side.other_ne (side : Side) : side.other ≠ side := by
  cases side <;> decide

theorem Side.eq_other_of_ne {side side' : Side} (apart : side ≠ side') : side = side'.other := by
  cases side <;> cases side' <;> first | rfl | exact absurd rfl apart

/-- A node with one subtree on the given side and one on the other. -/
def join (side : Side) (red : Bool) (item : α) (near far : SearchTree α) : SearchTree α :=
  match side with
  | .left => .node red near item far
  | .right => .node red far item near

/-- A node seen from the other side. -/
theorem join_other (side : Side) (red : Bool) (item : α) (near far : SearchTree α) :
    join side.other red item near far = join side red item far near := by
  cases side <;> rfl

/-- The parts of a node, seen from a side. -/
def unjoin (side : Side) : SearchTree α → Option (Bool × α × SearchTree α × SearchTree α)
  | .leaf => none
  | .node red left item right =>
    match side with
    | .left => some (red, item, left, right)
    | .right => some (red, item, right, left)

@[simp] theorem unjoin_leaf (side : Side) : (leaf : SearchTree α).unjoin side = none := rfl

@[simp] theorem unjoin_join (side : Side) (red : Bool) (item : α) (near far : SearchTree α) :
    (join side red item near far).unjoin side = some (red, item, near, far) := by
  cases side <;> rfl

/-- A tree whose parts are known. -/
theorem eq_join {side : Side} {t near far : SearchTree α} {red : Bool} {item : α}
    (parts : t.unjoin side = some (red, item, near, far)) : t = join side red item near far := by
  cases t with
  | leaf => cases parts
  | node _ _ _ _ =>
    cases side
    · cases parts
      rfl
    · cases parts
      rfl

/-- A tree without parts. -/
theorem eq_leaf {side : Side} {t : SearchTree α} (parts : t.unjoin side = none) : t = .leaf := by
  cases t with
  | leaf => rfl
  | node _ _ _ _ => cases side <;> cases parts

/-- A node has parts on both sides. -/
theorem node_eq_join (side : Side) (red : Bool) (left : SearchTree α) (item : α)
    (right : SearchTree α) :
    ∃ near far, node red left item right = join side red item near far := by
  cases side
  · exact ⟨left, right, rfl⟩
  · exact ⟨right, left, rfl⟩

/-- The item of the root. -/
def top : SearchTree α → Option α
  | .leaf => none
  | .node _ _ item _ => some item

@[simp] theorem top_join (side : Side) (red : Bool) (item : α) (near far : SearchTree α) :
    (join side red item near far).top = some item := by
  cases side <;> rfl

/-- A root with its subtrees. -/
theorem eq_join_of_top {t : SearchTree α} {item : α} (top : t.top = some item) (side : Side) :
    ∃ red near far, t = join side red item near far := by
  cases t with
  | leaf => cases top
  | node red left other right =>
    cases top
    obtain ⟨near, far, same⟩ := node_eq_join side red left item right
    exact ⟨red, near, far, same⟩

/-- A node is no leaf. -/
theorem join_ne_leaf (side : Side) (red : Bool) (item : α) (near far : SearchTree α) :
    join side red item near far ≠ .leaf := by
  intro same
  cases side <;> cases same

/-- The root is one of the items. -/
theorem mem_of_top {t : SearchTree α} {item : α} (top : t.top = some item) : item ∈ t.toList := by
  cases t with
  | leaf => cases top
  | node _ _ _ _ =>
    cases top
    simp [toList]

/-- The root is red. -/
def isRed : SearchTree α → Bool
  | .leaf => false
  | .node red _ _ _ => red

/-- The tree with a black root. -/
def blacken : SearchTree α → SearchTree α
  | .leaf => .leaf
  | .node _ left item right => .node false left item right

@[simp] theorem isRed_join (side : Side) (red : Bool) (item : α) (near far : SearchTree α) :
    (join side red item near far).isRed = red := by
  cases side <;> rfl

@[simp] theorem blacken_join (side : Side) (red : Bool) (item : α) (near far : SearchTree α) :
    (join side red item near far).blacken = join side false item near far := by
  cases side <;> rfl

/-- A red node has parts on both sides. -/
theorem eq_join_of_red {t : SearchTree α} (isRed : t.isRed = true) (side : Side) :
    ∃ item near far, t = join side true item near far := by
  cases t with
  | leaf => cases isRed
  | node red left item right =>
    have same : red = true := isRed
    subst same
    obtain ⟨near, far, parts⟩ := node_eq_join side true left item right
    exact ⟨item, near, far, parts⟩

/-- A tree that has no red root stays as it is. -/
theorem blacken_of_black {t : SearchTree α} (black : t.isRed = false) : t.blacken = t := by
  cases t with
  | leaf => rfl
  | node red _ _ _ =>
    cases red
    · rfl
    · cases black

@[simp] theorem toList_blacken (t : SearchTree α) : t.blacken.toList = t.toList := by
  cases t <;> rfl

/-- A node above a subtree: the side on which the subtree is, and what is on the other one. -/
structure Frame (α : Type) where
  side : Side
  red : Bool
  item : α
  sibling : SearchTree α

/-- The tree of frames, the innermost first, around a subtree. -/
def plug : List (Frame α) → SearchTree α → SearchTree α
  | [], t => t
  | f :: ctx, t => plug ctx (join f.side f.red f.item t f.sibling)

/-- Subtrees with one sequence give trees with one sequence. -/
theorem toList_plug {t u : SearchTree α} (ctx : List (Frame α)) (same : t.toList = u.toList) :
    (plug ctx t).toList = (plug ctx u).toList := by
  induction ctx generalizing t u with
  | nil => exact same
  | cons f ctx ih =>
    refine ih ?_
    cases f.side <;> simp [join, toList, same]

/-- Frames inside frames. -/
theorem plug_append (inner outer : List (Frame α)) (t : SearchTree α) :
    plug (inner ++ outer) t = plug outer (plug inner t) := by
  induction inner generalizing t with
  | nil => rfl
  | cons f inner ih => exact ih _

section Algorithms

/-- Repair a red subtree under a red node: recolour as long as the uncle is red, then rotate. -/
def fixRed : List (Frame α) → SearchTree α → SearchTree α
  | ⟨side, true, item, sibling⟩ :: ⟨side', red, top, uncle⟩ :: rest, t =>
    if uncle.isRed then
      fixRed rest (join side' true top (join side false item t sibling) uncle.blacken)
    else if side = side' then
      plug rest (join side' false item t (join side' true top sibling uncle))
    else
      match t.unjoin side' with
      | some (_, inner, near, far) =>
        plug rest (join side' false inner (join side' true item sibling near)
          (join side' true top far uncle))
      | none => plug (⟨side, true, item, sibling⟩ :: ⟨side', red, top, uncle⟩ :: rest) t
  | ctx, t => plug ctx t

/-- Move a black node over to a subtree that is one short, from a sibling that is black; the first
component tells that the tree is short now. -/
def rebalance (side : Side) (red : Bool) (item : α) (t sibling : SearchTree α) :
    Bool × SearchTree α :=
  match sibling.unjoin side with
  | none => (false, join side red item t sibling)
  | some (_, other, near, far) =>
    if far.isRed then
      (false, join side red other (join side false item t near) far.blacken)
    else
      match near.unjoin side with
      | some (true, inner, a, b) =>
        (false, join side red inner (join side false item t a) (join side false other b far))
      | _ => (true, join side red item t (join side true other near far))

/-- From a sibling with a red subtree on the outside. -/
theorem rebalance_outer {far : SearchTree α} (isRed : far.isRed = true) (side : Side)
    (red c : Bool) (item other : α) (t near : SearchTree α) :
    rebalance side red item t (join side c other near far) =
      (false, join side red other (join side false item t near) far.blacken) := by
  rw [rebalance, unjoin_join]
  exact if_pos isRed

/-- From a sibling with a red subtree on the inside only. -/
theorem rebalance_inner {far : SearchTree α} (black : far.isRed = false) (side : Side)
    (red c : Bool) (item other inner : α) (t a b : SearchTree α) :
    rebalance side red item t (join side c other (join side true inner a b) far) =
      (false, join side red inner (join side false item t a) (join side false other b far)) := by
  rw [rebalance, unjoin_join]
  simp only [black, Bool.false_eq_true, if_false, unjoin_join]

/-- From a sibling with no red subtree. -/
theorem rebalance_up {near far : SearchTree α} (black : near.isRed = false)
    (black' : far.isRed = false) (side : Side) (red c : Bool) (item other : α) (t : SearchTree α) :
    rebalance side red item t (join side c other near far) =
      (true, join side red item t (join side true other near far)) := by
  rw [rebalance, unjoin_join]
  simp only [black', Bool.false_eq_true, if_false]
  cases near with
  | leaf => rfl
  | node colour left x right =>
    have none : colour = false := black
    subst none
    cases side <;> rfl

/-- A tree that is short now has the same root. -/
theorem top_rebalance {side : Side} {red : Bool} {item : α} {t sibling u : SearchTree α}
    (short : rebalance side red item t sibling = (true, u)) : u.top = some item := by
  rw [rebalance] at short
  split at short
  · cases short
  · split at short
    · cases short
    · split at short
      · cases short
      · cases short
        exact top_join ..

/-- Repair a subtree that is one black node short. -/
def fixBlack : List (Frame α) → SearchTree α → SearchTree α
  | [], t => t.blacken
  | ⟨side, red, item, sibling⟩ :: rest, t =>
    if t.isRed then plug (⟨side, red, item, sibling⟩ :: rest) t.blacken
    else
      match sibling.unjoin side with
      | some (true, other, near, far) =>
        match rebalance side true item t near with
        | (true, u) => plug (⟨side, false, other, far⟩ :: rest) u.blacken
        | (false, u) => (plug (⟨side, false, other, far⟩ :: rest) u).blacken
      | _ =>
        match rebalance side red item t sibling with
        | (true, u) => fixBlack rest u
        | (false, u) => (plug rest u).blacken

/-- Put a subtree in the place of a node that had it as its only one. -/
def splice (red : Bool) (ctx : List (Frame α)) (child : SearchTree α) : SearchTree α :=
  if red then plug ctx child else fixBlack ctx child

/-- The leftmost node, and the frames around it. -/
def leftmost : List (Frame α) → SearchTree α → List (Frame α) × SearchTree α
  | ctx, .leaf => (ctx, .leaf)
  | ctx, .node red .leaf item right => (ctx, .node red .leaf item right)
  | ctx, .node red (.node red' left item' right') item right =>
    leftmost (⟨.left, red, item, right⟩ :: ctx) (.node red' left item' right')

/-- Remove the root of a subtree; the next node comes to its place where it has two subtrees. -/
def removeRoot (ctx : List (Frame α)) : SearchTree α → SearchTree α
  | .leaf => plug ctx .leaf
  | .node red .leaf _ right => splice red ctx right
  | .node red left _ .leaf => splice red ctx left
  | .node red left _ right =>
    match leftmost [] right with
    | (inner, .node red' _ next child) =>
      splice red' (inner ++ ⟨.right, red, next, left⟩ :: ctx) child
    | (_, .leaf) => plug ctx left

variable [DecidableEq α]

/-- The first node of an item, and the frames around it. -/
def focus (item : α) :
    List (Frame α) → SearchTree α → Option (List (Frame α) × SearchTree α)
  | _, .leaf => none
  | ctx, .node red left other right =>
    if item ∈ left.toList then left.focus item (⟨.left, red, other, right⟩ :: ctx)
    else if item = other then some (ctx, .node red left other right)
    else right.focus item (⟨.right, red, other, left⟩ :: ctx)

end Algorithms

section Sequence

/-- The sequence of a node. -/
theorem toList_join (side : Side) (red : Bool) (item : α) (near far : SearchTree α) :
    (join side red item near far).toList = match side with
      | .left => near.toList ++ item :: far.toList
      | .right => far.toList ++ item :: near.toList := by
  cases side <;> rfl

/-- The sequence that ends on a side. -/
def inOrder (side : Side) (t : SearchTree α) : List α :=
  match side with
  | .left => t.toList.reverse
  | .right => t.toList

/-- The sequence of a node, seen from the side on which it ends. -/
theorem inOrder_join (side : Side) (red : Bool) (item : α) (near far : SearchTree α) :
    (join side red item near far).inOrder side = far.inOrder side ++ item :: near.inOrder side := by
  cases side <;> simp [inOrder, toList_join]

@[simp] theorem inOrder_leaf (side : Side) : (leaf : SearchTree α).inOrder side = [] := by
  cases side <;> rfl

/-- The sequence that ends on the other side. -/
theorem inOrder_other (side : Side) (t : SearchTree α) :
    t.inOrder side.other = (t.inOrder side).reverse := by
  cases side
  · exact (List.reverse_reverse _).symm
  · rfl

/-- Its items are distinct where the items of the tree are. -/
theorem nodup_inOrder (side : Side) {t : SearchTree α} (nodup : t.toList.Nodup) :
    (t.inOrder side).Nodup := by
  cases side
  · exact List.nodup_reverse.mpr nodup
  · exact nodup

/-- The items of the frames between a subtree and the side on which the sequence ends. -/
def beyond (side : Side) : List (Frame α) → List α
  | [] => []
  | f :: ctx =>
    (if f.side = side then [] else f.item :: f.sibling.inOrder side) ++ beyond side ctx

/-- The items of the frames in front of a subtree. -/
def behind (side : Side) : List (Frame α) → List α
  | [] => []
  | f :: ctx =>
    behind side ctx ++ if f.side = side then f.sibling.inOrder side ++ [f.item] else []

/-- The sequence around a subtree, to a side. -/
theorem inOrder_plug (side : Side) (ctx : List (Frame α)) (t : SearchTree α) :
    (plug ctx t).inOrder side = behind side ctx ++ (t.inOrder side ++ beyond side ctx) := by
  induction ctx generalizing t with
  | nil => simp [plug, behind, beyond]
  | cons f ctx ih =>
    rw [plug, ih, behind, beyond]
    by_cases same : f.side = side
    · rw [same, inOrder_join, if_pos rfl, if_pos rfl]
      simp
    · rw [Side.eq_other_of_ne same, join_other, inOrder_join, if_neg (Side.other_ne side),
        if_neg (Side.other_ne side)]
      simp

/-- A rotation keeps the sequence. -/
theorem toList_rotate (side : Side) (red red' : Bool) (x y : α) (near inner far : SearchTree α) :
    (join side red' y (join side red x near inner) far).toList =
      (join side red x near (join side red' y inner far)).toList := by
  cases side <;> simp [toList_join]

/-- A repair of a red subtree keeps the sequence. -/
theorem toList_fixRed (ctx : List (Frame α)) (t : SearchTree α) :
    (fixRed ctx t).toList = (plug ctx t).toList := by
  fun_induction fixRed ctx t with
  | case1 side item sibling side' red top uncle rest t recolour ih =>
    rw [ih]
    refine toList_plug rest ?_
    cases side <;> cases side' <;> simp [toList_join]
  | case2 item sibling side' red top uncle rest t black =>
    refine toList_plug rest ?_
    cases side' <;> simp [toList_join]
  | case3 side item sibling side' red top uncle rest t black inner _ y near far parts =>
    rw [eq_join parts]
    refine toList_plug rest ?_
    rw [Side.eq_other_of_ne inner]
    cases side' <;> simp [toList_join, Side.other]
  | case4 => rfl
  | case5 => rfl

/-- So does the step from a black sibling. -/
theorem toList_rebalance (side : Side) (red : Bool) (item : α) (t sibling : SearchTree α) :
    (rebalance side red item t sibling).2.toList = (join side red item t sibling).toList := by
  fun_cases rebalance side red item t sibling with
  | case1 parts => rfl
  | case2 colour other near far parts isRed =>
    rw [eq_join parts]
    cases side <;> simp [toList_join]
  | case3 colour other near far parts black inner a b parts' =>
    rw [eq_join parts, eq_join parts']
    cases side <;> simp [toList_join]
  | case4 colour other near far parts black black' =>
    rw [eq_join parts]
    cases side <;> simp [toList_join]

/-- The sequence around a red sibling that comes up. -/
theorem toList_turn (side : Side) (red red' : Bool) (item other : α) (t near far u : SearchTree α)
    (same : u.toList = (join side true item t near).toList) (rest : List (Frame α)) :
    (plug (⟨side, red', other, far⟩ :: rest) u).toList =
      (plug (⟨side, red, item, join side true other near far⟩ :: rest) t).toList := by
  refine toList_plug rest ?_
  cases side <;> simp [toList_join] at same ⊢ <;> simp [same]

/-- So does a repair of a short subtree. -/
theorem toList_fixBlack (ctx : List (Frame α)) (t : SearchTree α) :
    (fixBlack ctx t).toList = (plug ctx t).toList := by
  fun_induction fixBlack ctx t with
  | case1 t => exact toList_blacken t
  | case2 side red item sibling rest t isRed => exact toList_plug _ (toList_blacken t)
  | case3 side red item sibling rest t black other near far parts u short =>
    have same := toList_rebalance side true item t near
    rw [short] at same
    rw [eq_join parts]
    exact toList_turn side red false item other t near far _ ((toList_blacken u).trans same) rest
  | case4 side red item sibling rest t black other near far parts u done =>
    have same := toList_rebalance side true item t near
    rw [done] at same
    rw [eq_join parts, toList_blacken]
    exact toList_turn side red false item other t near far u same rest
  | case5 side red item sibling rest t black u short _ ih =>
    have same := toList_rebalance side red item t sibling
    rw [short] at same
    exact ih.trans (toList_plug rest same)
  | case6 side red item sibling rest t black u done _ =>
    have same := toList_rebalance side red item t sibling
    rw [done] at same
    rw [toList_blacken]
    exact toList_plug rest same

/-- A node with one subtree gives way to it. -/
theorem toList_splice (red : Bool) (ctx : List (Frame α)) (child : SearchTree α) :
    (splice red ctx child).toList = (plug ctx child).toList := by
  rw [splice]
  split
  · rfl
  · exact toList_fixBlack ctx child

/-- The leftmost node is in its place. -/
theorem plug_leftmost (ctx : List (Frame α)) (t : SearchTree α) :
    plug (leftmost ctx t).1 (leftmost ctx t).2 = plug ctx t := by
  fun_induction leftmost ctx t with
  | case1 ctx => rfl
  | case2 ctx red item right => rfl
  | case3 ctx red red' left item' right' item right ih => exact ih

/-- The leftmost node is the first of the sequence. -/
theorem leftmost_node (ctx : List (Frame α)) (t : SearchTree α) (node : t ≠ .leaf) :
    ∃ red item right, (leftmost ctx t).2 = .node red .leaf item right := by
  fun_induction leftmost ctx t with
  | case1 ctx => exact absurd rfl node
  | case2 ctx red item right => exact ⟨red, item, right, rfl⟩
  | case3 ctx red red' left item' right' item right ih => exact ih (nofun)

/-- The sequence around a subtree. -/
theorem plug_sequence (ctx : List (Frame α)) : ∃ before after, ∀ t,
    (plug ctx t).toList = before ++ t.toList ++ after := by
  induction ctx with
  | nil => exact ⟨[], [], fun t => by simp [plug]⟩
  | cons f ctx ih =>
    obtain ⟨before, after, same⟩ := ih
    cases side : f.side
    · refine ⟨before, f.item :: f.sibling.toList ++ after, fun t => ?_⟩
      rw [plug, same, side]
      simp [join, toList]
    · refine ⟨before ++ f.sibling.toList ++ [f.item], after, fun t => ?_⟩
      rw [plug, same, side]
      simp [join, toList]

/-- Nothing is in front of a subtree that is on the left of every node above it. -/
theorem plug_left (ctx : List (Frame α)) (lefts : ∀ f ∈ ctx, f.side = .left) :
    ∃ after, ∀ t, (plug ctx t).toList = t.toList ++ after := by
  induction ctx with
  | nil => exact ⟨[], fun t => (List.append_nil _).symm⟩
  | cons f ctx ih =>
    obtain ⟨after, same⟩ := ih fun f member => lefts f (List.mem_cons_of_mem _ member)
    refine ⟨f.item :: f.sibling.toList ++ after, fun t => ?_⟩
    rw [plug, same, lefts f List.mem_cons_self]
    simp [join, toList]

/-- The frames around the leftmost node are on its left. -/
theorem leftmost_left (ctx : List (Frame α)) (t : SearchTree α)
    (lefts : ∀ f ∈ ctx, f.side = .left) : ∀ f ∈ (leftmost ctx t).1, f.side = .left := by
  fun_induction leftmost ctx t with
  | case1 ctx => exact lefts
  | case2 ctx red item right => exact lefts
  | case3 ctx red red' left item' right' item right ih =>
    refine ih fun f member => ?_
    rcases List.mem_cons.mp member with rfl | old
    · rfl
    · exact lefts f old

/-- The next node after a root: the first of its right subtree, which goes on without it. -/
theorem leftmost_split {t : SearchTree α} (node : t ≠ .leaf) :
    ∃ inner red next child, leftmost [] t = (inner, .node red .leaf next child) ∧
      plug inner (.node red .leaf next child) = t ∧
      t.toList = next :: (plug inner child).toList := by
  obtain ⟨red, next, child, same⟩ := leftmost_node [] t node
  obtain ⟨after, sequence⟩ := plug_left _ (leftmost_left [] t fun _ member =>
    absurd member List.not_mem_nil)
  have whole : plug (leftmost [] t).1 (leftmost [] t).2 = t := plug_leftmost [] t
  have items := congrArg toList whole
  rw [same] at whole
  rw [sequence, same] at items
  refine ⟨_, red, next, child, Prod.ext rfl same, whole, ?_⟩
  rw [sequence, ← items]
  rfl

/-- The removal of a root that has no left subtree. -/
theorem removeRoot_right (ctx : List (Frame α)) (red : Bool) (item : α) (right : SearchTree α) :
    removeRoot ctx (.node red .leaf item right) = splice red ctx right := by
  cases right <;> rfl

/-- The removal of a root that has only a left subtree. -/
theorem removeRoot_left {left : SearchTree α} (one : left ≠ .leaf) (ctx : List (Frame α))
    (red : Bool) (item : α) :
    removeRoot ctx (.node red left item .leaf) = splice red ctx left := by
  cases left with
  | leaf => exact absurd rfl one
  | node _ _ _ _ => rfl

/-- The removal of a root that has two subtrees. -/
theorem removeRoot_two (ctx : List (Frame α)) (red : Bool) (item : α) {left right : SearchTree α}
    (two : left ≠ .leaf) (two' : right ≠ .leaf) : removeRoot ctx (.node red left item right) =
      match leftmost [] right with
      | (inner, .node red' _ next child) =>
        splice red' (inner ++ ⟨.right, red, next, left⟩ :: ctx) child
      | (_, .leaf) => plug ctx left := by
  cases left with
  | leaf => exact absurd rfl two
  | node _ _ _ _ =>
    cases right with
    | leaf => exact absurd rfl two'
    | node _ _ _ _ => rfl

/-- Removing a root leaves the sequences of its subtrees. -/
theorem toList_removeRoot (ctx : List (Frame α)) (red : Bool) (left : SearchTree α) (item : α)
    (right : SearchTree α) : (removeRoot ctx (.node red left item right)).toList =
      (plug ctx (left.hang right)).toList := by
  by_cases first : left = .leaf
  · subst first
    rw [removeRoot_right, toList_splice]
    exact toList_plug ctx (by simp [toList_hang, toList])
  · by_cases second : right = .leaf
    · subst second
      rw [removeRoot_left first, toList_splice]
      exact toList_plug ctx (by simp [toList_hang, toList])
    · obtain ⟨inner, red', next, child, same, -, sequence⟩ := leftmost_split second
      rw [removeRoot_two ctx red item first second, same]
      dsimp only
      rw [toList_splice, plug_append]
      refine toList_plug ctx ?_
      simp [join, toList, toList_hang, sequence]

end Sequence

section Erase

variable [DecidableEq α]

/-- The first node of an item is in its place, and the item is in nothing before it. -/
theorem focus_some {item : α} {ctx : List (Frame α)} {t : SearchTree α}
    {found : List (Frame α) × SearchTree α} (search : t.focus item ctx = some found) :
    ∃ inner red left right, found = (inner ++ ctx, .node red left item right) ∧
      plug inner (.node red left item right) = t ∧ ∀ u,
        u.toList = left.toList ++ right.toList → (plug inner u).toList = t.toList.erase item := by
  induction t generalizing ctx with
  | leaf => cases search
  | node red left other right ihLeft ihRight =>
    rw [focus] at search
    split at search
    · next inside =>
      obtain ⟨inner, red', left', right', same, whole, sequence⟩ := ihLeft search
      refine ⟨inner ++ [⟨.left, red, other, right⟩], red', left', right', ?_, ?_,
        fun u parts => ?_⟩
      · rw [same, List.append_assoc]
        rfl
      · rw [plug_append, whole]
        rfl
      · rw [plug_append]
        simp only [plug, join, toList, sequence u parts, List.erase_append, inside, if_true]
    · next outside =>
      split at search
      · next same =>
        cases search
        subst same
        refine ⟨[], red, left, right, rfl, rfl, fun u parts => ?_⟩
        simp [plug, parts, toList, List.erase_append, outside]
      · next apart =>
        obtain ⟨inner, red', left', right', same, whole, sequence⟩ := ihRight search
        refine ⟨inner ++ [⟨.right, red, other, left⟩], red', left', right', ?_, ?_,
          fun u parts => ?_⟩
        · rw [same, List.append_assoc]
          rfl
        · rw [plug_append, whole]
          rfl
        · have miss : ¬ (other == item) = true := by simpa using fun same => apart same.symm
          rw [plug_append]
          simp [plug, join, toList, sequence u parts, List.erase_append, outside, miss]

/-- An item that is not found is not there. -/
theorem focus_none {item : α} {ctx : List (Frame α)} {t : SearchTree α}
    (search : t.focus item ctx = none) : item ∉ t.toList := by
  induction t generalizing ctx with
  | leaf => exact List.not_mem_nil
  | node red left other right ihLeft ihRight =>
    rw [focus] at search
    split at search
    · next inside => exact absurd inside (ihLeft search)
    · next outside =>
      split at search
      · cases search
      · next apart => simp [toList, outside, apart, ihRight search]

/-- Rebalancing by recolouring and rotation. -/
def redBlack : Balancing α where
  insertColor item t :=
    match t.focus item [] with
    | some (ctx, sub) => (fixRed ctx sub).blacken
    | none => t
  erase item t :=
    match t.focus item [] with
    | some (ctx, sub) => removeRoot ctx sub
    | none => t
  insertColor_toList item t := by
    split
    · next ctx sub search =>
      obtain ⟨inner, red, left, right, same, whole, -⟩ := focus_some search
      rw [Prod.mk.injEq] at same
      rw [toList_blacken, toList_fixRed, same.1, same.2, List.append_nil, whole]
    · rfl
  erase_toList item t := by
    split
    · next ctx sub search =>
      obtain ⟨inner, red, left, right, same, -, sequence⟩ := focus_some search
      rw [Prod.mk.injEq] at same
      rw [same.1, same.2, List.append_nil, toList_removeRoot]
      exact sequence _ (toList_hang left right)
    · next search => exact (List.erase_of_not_mem (focus_none search)).symm

end Erase

/-- No red node has a red child, and every way down passes the same number of black nodes; with the
colour of the root and that number. -/
inductive Balanced : SearchTree α → Bool → Nat → Prop
  | leaf : Balanced .leaf false 0
  | red {left right : SearchTree α} {item : α} {n : Nat} : Balanced left false n →
      Balanced right false n → Balanced (.node true left item right) true n
  | black {left right : SearchTree α} {item : α} {c d : Bool} {n : Nat} : Balanced left c n →
      Balanced right d n → Balanced (.node false left item right) false (n + 1)

/-- The frames are balanced around a subtree with so many black nodes on a way down, which may be
red or not. -/
inductive Accepts : List (Frame α) → Bool → Nat → Prop
  | root (n : Nat) : Accepts [] false n
  | red {side : Side} {item : α} {sibling : SearchTree α} {ctx : List (Frame α)} {n : Nat} :
      sibling.Balanced false n → Accepts ctx true n →
      Accepts (⟨side, true, item, sibling⟩ :: ctx) false n
  | black {side : Side} {item : α} {sibling : SearchTree α} {ctx : List (Frame α)} {c : Bool}
      (d : Bool) {n : Nat} : sibling.Balanced c n → Accepts ctx false (n + 1) →
      Accepts (⟨side, false, item, sibling⟩ :: ctx) d n

section Balance

variable {t left right sibling : SearchTree α} {ctx : List (Frame α)} {item : α} {side : Side}
  {c d : Bool} {n : Nat}

namespace Balanced

/-- A red node. -/
theorem join_red (near : left.Balanced false n) (far : right.Balanced false n) :
    (join side true item left right).Balanced true n := by
  cases side
  · exact .red near far
  · exact .red far near

/-- A black node. -/
theorem join_black (near : left.Balanced c n) (far : right.Balanced d n) :
    (join side false item left right).Balanced false (n + 1) := by
  cases side
  · exact .black near far
  · exact .black far near

/-- The subtrees of a red node. -/
theorem of_red (balanced : (join side true item left right).Balanced c n) :
    c = true ∧ left.Balanced false n ∧ right.Balanced false n := by
  cases side
  · cases balanced with
    | red near far => exact ⟨rfl, near, far⟩
  · cases balanced with
    | red near far => exact ⟨rfl, far, near⟩

/-- The subtrees of a black node. -/
theorem of_black (balanced : (join side false item left right).Balanced c n) :
    c = false ∧ ∃ d e m, n = m + 1 ∧ left.Balanced d m ∧ right.Balanced e m := by
  cases side
  · cases balanced with
    | black near far => exact ⟨rfl, _, _, _, rfl, near, far⟩
  · cases balanced with
    | black near far => exact ⟨rfl, _, _, _, rfl, far, near⟩

/-- The colour of the root. -/
theorem isRed_eq (balanced : t.Balanced c n) : t.isRed = c := by
  cases balanced <;> rfl

/-- With a black root. -/
theorem blackened (balanced : t.Balanced c n) : ∃ m, t.blacken.Balanced false m := by
  cases balanced with
  | leaf => exact ⟨0, .leaf⟩
  | red near far => exact ⟨_, .black near far⟩
  | black near far => exact ⟨_, .black near far⟩

/-- A red root made black. -/
theorem blacken_red (balanced : t.Balanced true n) : t.blacken.Balanced false (n + 1) := by
  cases balanced with
  | red near far => exact .black near far

end Balanced

/-- Where a red subtree may be, a black one may be too. -/
theorem Accepts.weaken (accepts : Accepts ctx c n) : Accepts ctx false n := by
  cases accepts with
  | root => exact .root n
  | red near above => exact .red near above
  | black _ near above => exact .black false near above

/-- A subtree among frames that accept it. -/
theorem Balanced.plug (balanced : t.Balanced c n) (accepts : Accepts ctx c n) :
    ∃ m, (plug ctx t).Balanced false m := by
  induction ctx generalizing t c n with
  | nil =>
    cases accepts
    exact ⟨n, balanced⟩
  | cons f ctx ih =>
    cases accepts with
    | red near above => exact ih (balanced.join_red near) above
    | black _ near above => exact ih (balanced.join_black near) above

/-- The frames of a balanced tree accept the subtree that is there. -/
theorem Balanced.of_plug {m : Nat} (balanced : (SearchTree.plug ctx t).Balanced false m) :
    ∃ c n, t.Balanced c n ∧ Accepts ctx c n := by
  induction ctx generalizing t with
  | nil => exact ⟨false, m, balanced, .root m⟩
  | cons f ctx ih =>
    obtain ⟨c, n, whole, above⟩ := ih balanced
    obtain ⟨side, red, item, sibling⟩ := f
    cases red
    · obtain ⟨rfl, d, e, k, rfl, near, far⟩ := whole.of_black
      exact ⟨d, k, near, .black d far above⟩
    · obtain ⟨rfl, near, far⟩ := whole.of_red
      exact ⟨false, n, near, .red far above⟩

/-- A repair of a red subtree balances the tree. -/
theorem balanced_fixRed (accepts : Accepts ctx false n) (balanced : t.Balanced true n) :
    ∃ m, (fixRed ctx t).blacken.Balanced false m := by
  fun_induction fixRed ctx t generalizing n with
  | case1 side' p sibling side'' red g uncle rest t recolour ih =>
    cases accepts with
    | red near above =>
      cases above with
      | @black _ _ _ _ c _ _ far above =>
        have two : c = true := far.isRed_eq.symm.trans recolour
        subst two
        exact ih above ((balanced.join_black near).join_red far.blacken_red)
  | case2 p sibling side' red g uncle rest t black =>
    cases accepts with
    | red near above =>
      cases above with
      | @black _ _ _ _ c _ _ far above =>
        have none : c = false := by
          rw [far.isRed_eq, Bool.not_eq_true] at black
          exact black
        subst none
        obtain ⟨m, whole⟩ := (balanced.join_black (near.join_red far)).plug above
        exact whole.blackened
  | case3 side' p sibling side'' red g uncle rest t black apart colour x inner outer parts =>
    cases accepts with
    | red near above =>
      cases above with
      | @black _ _ _ _ c _ _ far above =>
        have none : c = false := by
          rw [far.isRed_eq, Bool.not_eq_true] at black
          exact black
        subst none
        have shape := eq_join parts
        subst shape
        have red : colour = true := by
          have same := balanced.isRed_eq
          rwa [isRed_join] at same
        subst red
        obtain ⟨-, first, second⟩ := balanced.of_red
        obtain ⟨m, whole⟩ :=
          ((near.join_red first).join_black (second.join_red far)).plug above
        exact whole.blackened
  | case4 side' p sibling side'' red g uncle rest t black apart parts =>
    rw [eq_leaf parts] at balanced
    cases balanced
  | case5 ctx t other =>
    cases accepts with
    | root => exact balanced.blackened
    | red near above =>
      cases above with
      | black _ far above => exact (other _ _ _ _ _ _ _ _ rfl).elim
    | black _ near above =>
      obtain ⟨m, whole⟩ := (balanced.join_black near).plug above
      exact whole.blackened

/-- The step from a black sibling: the subtree is balanced as before, or one short with a root that
can be made black. -/
theorem balanced_rebalance (side : Side) (red : Bool) (item : α) (balanced : t.Balanced false n)
    (other : sibling.Balanced false (n + 1)) :
    match rebalance side red item t sibling with
    | (true, u) => u.isRed = red ∧ u.blacken.Balanced false (n + 1)
    | (false, u) => u.Balanced red (if red then n + 1 else n + 2) := by
  have node : ∀ {x : α} {near far : SearchTree α}, near.Balanced false (n + 1) →
      far.Balanced false (n + 1) → (join side red x near far).Balanced red
        (if red then n + 1 else n + 2) := fun near far => by
    cases red
    · exact near.join_black far
    · exact near.join_red far
  -- the sibling is a black node, whose subtrees are as high as `t`
  have sibling_parts : ∀ {colour : Bool} {o : α} {near far : SearchTree α},
      sibling.unjoin side = some (colour, o, near, far) →
        ∃ d e, near.Balanced d n ∧ far.Balanced e n := fun {colour _ _ _} parts => by
    rw [eq_join parts] at other
    cases colour with
    | true => exact absurd other.of_red.1 (by decide)
    | false =>
      obtain ⟨-, d, e, m, same, first, second⟩ := other.of_black
      rw [Nat.add_right_cancel same]
      exact ⟨d, e, first, second⟩
  fun_cases rebalance side red item t sibling with
  | case1 parts =>
    rw [eq_leaf parts] at other
    cases other
  | case2 colour o near far parts isRed =>
    obtain ⟨d, e, first, second⟩ := sibling_parts parts
    have two : e = true := second.isRed_eq.symm.trans isRed
    subst two
    exact node (balanced.join_black first) second.blacken_red
  | case3 colour o near far parts black x a b parts' =>
    obtain ⟨d, e, first, second⟩ := sibling_parts parts
    have one : e = false := by
      rw [second.isRed_eq, Bool.not_eq_true] at black
      exact black
    subst one
    rw [eq_join parts'] at first
    obtain ⟨-, inner, outer⟩ := first.of_red
    exact node (balanced.join_black inner) (outer.join_black second)
  | case4 colour o near far parts black black' =>
    obtain ⟨d, e, first, second⟩ := sibling_parts parts
    have one : e = false := by
      rw [second.isRed_eq, Bool.not_eq_true] at black
      exact black
    subst one
    have two : d = false := by
      cases first with
      | leaf => rfl
      | @red l r x _ _ _ =>
        obtain ⟨a, b, same⟩ := node_eq_join side true l x r
        exact (black' x a b (by rw [same, unjoin_join])).elim
      | black _ _ => rfl
    subst two
    refine ⟨isRed_join .., ?_⟩
    rw [blacken_join]
    exact balanced.join_black (first.join_red second)

/-- A tree whose root is not red, seen from a side. -/
theorem Balanced.black_of_unjoin (balanced : t.Balanced c n)
    (parts : ∀ x a b, t.unjoin side = some (true, x, a, b) → False) : c = false := by
  cases balanced with
  | leaf => rfl
  | @red left right item _ _ _ =>
    obtain ⟨near, far, same⟩ := node_eq_join side true left item right
    exact (parts item near far (by rw [same, unjoin_join])).elim
  | black _ _ => rfl

/-- A tree with black nodes on every way down is no leaf. -/
theorem Balanced.eq_join (balanced : t.Balanced c (n + 1)) (side : Side) :
    ∃ item near far, t = join side c item near far := by
  cases balanced with
  | @red left right item _ _ _ =>
    obtain ⟨near, far, parts⟩ := node_eq_join side true left item right
    exact ⟨item, near, far, parts⟩
  | @black left right item _ _ _ _ _ =>
    obtain ⟨near, far, parts⟩ := node_eq_join side false left item right
    exact ⟨item, near, far, parts⟩

/-- A sibling without a red root is as high as the subtree, and the frames above accept the node of
both. -/
theorem Accepts.of_black {red : Bool} (accepts : Accepts (⟨side, red, item, sibling⟩ :: ctx) d n)
    (parts : ∀ x a b, sibling.unjoin side = some (true, x, a, b) → False) :
    sibling.Balanced false n ∧ Accepts ctx red (if red then n else n + 1) := by
  cases accepts with
  | red near above => exact ⟨near, above⟩
  | black _ near above =>
    have none := near.black_of_unjoin parts
    subst none
    exact ⟨near, above⟩

/-- A repair of a subtree that is one short balances the tree: of a black one, or of a red one that
has the black nodes of the missing one once it is made black. -/
theorem balanced_fixBlack (accepts : Accepts ctx d (n + 1))
    (short : t.Balanced false n ∨ t.isRed = true ∧ t.blacken.Balanced false (n + 1)) :
    ∃ m, (fixBlack ctx t).Balanced false m := by
  have whole : ∀ {t : SearchTree α} {ctx : List (Frame α)} {c : Bool} {n : Nat},
      t.Balanced c n → Accepts ctx c n → ∃ m, (plug ctx t).blacken.Balanced false m :=
    fun balanced accepts => by
      obtain ⟨m, whole⟩ := balanced.plug accepts
      exact whole.blackened
  fun_induction fixBlack ctx t generalizing n d with
  | case1 t => exact short.elim (fun balanced => balanced.blackened) fun both => ⟨_, both.2⟩
  | case2 side red p sibling rest t isRed =>
    have balanced : t.blacken.Balanced false (n + 1) := by
      rcases short with balanced | ⟨-, balanced⟩
      · exact absurd (balanced.isRed_eq.symm.trans isRed) (by decide)
      · exact balanced
    exact balanced.plug accepts.weaken
  | case3 side red p sibling rest t black o near far parts u done =>
    have balanced := short.resolve_right fun both => black both.1
    rw [eq_join parts] at accepts
    cases accepts with
    | red two _ => exact absurd two.of_red.1 (by decide)
    | black _ two above =>
      obtain ⟨-, first, second⟩ := two.of_red
      have step := balanced_rebalance side true p balanced first
      rw [done] at step
      exact step.2.plug (.black false second above)
  | case4 side red p sibling rest t black o near far parts u done =>
    have balanced := short.resolve_right fun both => black both.1
    rw [eq_join parts] at accepts
    cases accepts with
    | red two _ => exact absurd two.of_red.1 (by decide)
    | black _ two above =>
      obtain ⟨-, first, second⟩ := two.of_red
      have step := balanced_rebalance side true p balanced first
      rw [done] at step
      exact whole step (.black true second above)
  | case5 side red p sibling rest t black u up parts ih =>
    have balanced := short.resolve_right fun both => black both.1
    obtain ⟨near, above⟩ := accepts.of_black parts
    have step := balanced_rebalance side red p balanced near
    rw [up] at step
    obtain ⟨colour, high⟩ := step
    cases red with
    | true => exact ih above (.inr ⟨colour, high⟩)
    | false =>
      rw [blacken_of_black colour] at high
      exact ih above (.inl high)
  | case6 side red p sibling rest t black u done parts =>
    have balanced := short.resolve_right fun both => black both.1
    obtain ⟨near, above⟩ := accepts.of_black parts
    have step := balanced_rebalance side red p balanced near
    rw [done] at step
    exact whole step above

/-- The only subtree of a black node is one black node short in its place. -/
theorem Balanced.short (balanced : (join side false item .leaf t).Balanced false n) :
    ∃ m, n = m + 1 ∧ (t.Balanced false m ∨ t.isRed = true ∧ t.blacken.Balanced false (m + 1)) := by
  obtain ⟨-, d, e, m, rfl, none, one⟩ := balanced.of_black
  cases none
  refine ⟨0, rfl, ?_⟩
  cases e with
  | false => exact .inl one
  | true => exact .inr ⟨one.isRed_eq, one.blacken_red⟩

/-- A node with at most one subtree gives way to it. -/
theorem balanced_splice {red : Bool} (side : Side) (item : α) (accepts : Accepts ctx red n)
    (balanced : (join side red item .leaf t).Balanced red n) :
    ∃ m, (splice red ctx t).Balanced false m := by
  cases red with
  | true =>
    obtain ⟨-, none, one⟩ := balanced.of_red
    cases none
    exact one.plug accepts.weaken
  | false =>
    obtain ⟨m, rfl, short⟩ := balanced.short
    exact balanced_fixBlack accepts short

/-- The items of the frames do not matter. -/
theorem Accepts.rename {inner outer : List (Frame α)} {x y : α} {red : Bool}
    (accepts : Accepts (inner ++ ⟨side, red, x, sibling⟩ :: outer) c n) :
    Accepts (inner ++ ⟨side, red, y, sibling⟩ :: outer) c n := by
  induction inner generalizing c n with
  | nil =>
    cases accepts with
    | red near above => exact .red near above
    | black _ near above => exact .black c near above
  | cons f inner ih =>
    cases accepts with
    | red near above => exact .red near (ih above)
    | black _ near above => exact .black c near (ih above)

/-- The node after a root, in its place. -/
theorem Balanced.successor {inner : List (Frame α)} {red red' : Bool} {next : α}
    {child : SearchTree α} {m : Nat}
    (balanced : (SearchTree.plug ctx (.node red left item right)).Balanced false m)
    (whole : SearchTree.plug inner (.node red' .leaf next child) = right) :
    ∃ k, (join .left red' next .leaf child).Balanced red' k ∧
      Accepts (inner ++ ⟨.right, red, next, left⟩ :: ctx) red' k := by
  have frames : SearchTree.plug (inner ++ ⟨.right, red, item, left⟩ :: ctx)
      (.node red' .leaf next child) = SearchTree.plug ctx (.node red left item right) := by
    rw [plug_append, whole]
    rfl
  rw [← frames] at balanced
  obtain ⟨c, k, own, accepts⟩ := balanced.of_plug
  have colour : red' = c := own.isRed_eq
  subst colour
  exact ⟨k, own, accepts.rename⟩

/-- Removing a root keeps the balance. -/
theorem balanced_removeRoot {red : Bool} {m : Nat}
    (balanced : (plug ctx (.node red left item right)).Balanced false m) :
    ∃ k, (removeRoot ctx (.node red left item right)).Balanced false k := by
  obtain ⟨c, n, own, accepts⟩ := balanced.of_plug
  have colour : red = c := own.isRed_eq
  subst colour
  by_cases first : left = .leaf
  · subst first
    rw [removeRoot_right]
    exact balanced_splice .left item accepts own
  · by_cases second : right = .leaf
    · subst second
      rw [removeRoot_left first]
      exact balanced_splice .right item accepts own
    · obtain ⟨inner, red', next, child, same, whole, -⟩ := leftmost_split second
      rw [removeRoot_two ctx red item first second, same]
      obtain ⟨k, own', accepts'⟩ := balanced.successor whole
      exact balanced_splice .left next accepts' own'

/-- The tree of a balanced one with a new red leaf. -/
theorem Balanced.insert (balanced : (SearchTree.plug ctx (.leaf : SearchTree α)).Balanced false n)
    (new : α) :
    ∃ m, (fixRed ctx (.node true .leaf new .leaf)).blacken.Balanced false m := by
  obtain ⟨c, k, own, accepts⟩ := balanced.of_plug
  cases own
  exact balanced_fixRed accepts (.red .leaf .leaf)

/-- The height of a tree. -/
def height : SearchTree α → Nat
  | .leaf => 0
  | .node _ left _ right => max left.height right.height + 1

/-- The height of a node, seen from a side. -/
theorem height_join (side : Side) (red : Bool) (item : α) (near far : SearchTree α) :
    (join side red item near far).height = max near.height far.height + 1 := by
  cases side
  · rfl
  · simp only [join, height, Nat.max_comm]

/-- A tree is at least as high as a subtree with the frames above it. -/
theorem length_add_height_le (ctx : List (Frame α)) (t : SearchTree α) :
    ctx.length + t.height ≤ (plug ctx t).height := by
  induction ctx generalizing t with
  | nil => simp [plug]
  | cons f ctx ih =>
    refine le_trans ?_ (ih (join f.side f.red f.item t f.sibling))
    have higher : t.height + 1 ≤ (join f.side f.red f.item t f.sibling).height := by
      rw [height_join]
      omega
    rw [List.length_cons]
    omega

/-- A balanced tree is at most twice as high as a way down has black nodes. -/
theorem Balanced.height_le (balanced : t.Balanced c n) : t.height ≤ 2 * n + c.toNat := by
  induction balanced with
  | leaf => exact Nat.le_refl 0
  | red _ _ ihLeft ihRight =>
    simp only [height, Bool.toNat_true, Bool.toNat_false] at ihLeft ihRight ⊢
    omega
  | @black left right _ c d n _ _ ihLeft ihRight =>
    have one := Bool.toNat_le c
    have one' := Bool.toNat_le d
    simp only [height, Bool.toNat_false]
    omega

/-- It has at least so many items that every way down is filled with black nodes. -/
theorem Balanced.two_pow_le (balanced : t.Balanced c n) : 2 ^ n ≤ t.toList.length + 1 := by
  induction balanced with
  | leaf => exact Nat.le_refl 1
  | red _ _ ihLeft ihRight =>
    simp only [toList, List.length_append, List.length_cons]
    omega
  | black _ _ ihLeft ihRight =>
    simp only [toList, List.length_append, List.length_cons, Nat.pow_succ]
    omega

/-- The height of a balanced tree with a black root is at most twice the logarithm of its size. -/
theorem Balanced.height_le_log (balanced : t.Balanced false n) :
    t.height ≤ 2 * Nat.log 2 (t.toList.length + 1) := by
  have high := balanced.height_le
  have low := Nat.le_log_of_pow_le Nat.one_lt_two balanced.two_pow_le
  simp only [Bool.toNat_false] at high
  omega

/-- A descent that may come to so many items; nothing, where that is not enough. -/
def findWithin {ε : Type} (compare : α → Except ε Int) :
    Nat → SearchTree α → Option (Except ε (Option α))
  | _, .leaf => some (.ok none)
  | 0, .node .. => none
  | bound + 1, .node _ left item right =>
    match compare item with
    | .error e => some (.error e)
    | .ok sign =>
      if sign < 0 then left.findWithin compare bound
      else if 0 < sign then right.findWithin compare bound
      else some (.ok (some item))

/-- As many items as the tree is high are enough. -/
theorem findWithin_height {ε : Type} (compare : α → Except ε Int) {t : SearchTree α} {bound : Nat}
    (enough : t.height ≤ bound) : t.findWithin compare bound = some (t.find compare) := by
  induction t generalizing bound with
  | leaf =>
    rw [findWithin, find]
  | node red left item right ihLeft ihRight =>
    cases bound with
    | zero => exact absurd enough (Nat.not_succ_le_zero _)
    | succ bound =>
      rw [height, Nat.add_le_add_iff_right] at enough
      have left' : left.height ≤ bound := (Nat.le_max_left ..).trans enough
      have right' : right.height ≤ bound := (Nat.le_max_right ..).trans enough
      rw [findWithin, find]
      cases compare item with
      | error e => rfl
      | ok sign =>
        simp only [Outcome.ok_bind, ihLeft left', ihRight right']
        split
        · rfl
        · split <;> rfl

/-- So are twice the logarithm of the number of items, in a balanced tree. -/
theorem Balanced.findWithin {ε : Type} (balanced : t.Balanced false n)
    (compare : α → Except ε Int) :
    t.findWithin compare (2 * Nat.log 2 (t.toList.length + 1)) = some (t.find compare) :=
  findWithin_height compare balanced.height_le_log

/-- A new item is linked where a leaf was. -/
theorem link_plug {ε : Type} {compare : α → Except ε Int} {new : α} {linked : SearchTree α}
    (done : t.link compare new = .ok (some linked)) :
    ∃ ctx, t = plug ctx .leaf ∧ linked = plug ctx (.node true .leaf new .leaf) := by
  induction t generalizing linked with
  | leaf =>
    cases done
    exact ⟨[], rfl, rfl⟩
  | node red left item right ihLeft ihRight =>
    obtain ⟨sign, -, done⟩ := Outcome.bind_returned done
    split at done
    · obtain ⟨below, below', done⟩ := Outcome.bind_returned done
      obtain ⟨linked', rfl, rfl⟩ := Option.map_eq_some_iff.mp (Except.ok.inj done)
      obtain ⟨ctx, rfl, rfl⟩ := ihLeft below'
      refine ⟨ctx ++ [⟨.left, red, item, right⟩], ?_, ?_⟩
      · rw [plug_append]
        rfl
      · rw [plug_append]
        rfl
    · split at done
      · obtain ⟨below, below', done⟩ := Outcome.bind_returned done
        obtain ⟨linked', rfl, rfl⟩ := Option.map_eq_some_iff.mp (Except.ok.inj done)
        obtain ⟨ctx, rfl, rfl⟩ := ihRight below'
        refine ⟨ctx ++ [⟨.right, red, item, left⟩], ?_, ?_⟩
        · rw [plug_append]
          rfl
        · rw [plug_append]
          rfl
      · cases done

/-- A subtree has its root. -/
theorem mem_plug (ctx : List (Frame α)) (red : Bool) (left : SearchTree α) (item : α)
    (right : SearchTree α) : item ∈ (plug ctx (.node red left item right)).toList := by
  obtain ⟨before, after, sequence⟩ := plug_sequence ctx
  simp [sequence, toList]

end Balance

section Find

variable [DecidableEq α] {item : α}

/-- A node is found where it is the only one with its item. -/
theorem focus_plug {ctx outer : List (Frame α)} {red : Bool} {left right : SearchTree α}
    (nodup : (plug ctx (.node red left item right)).toList.Nodup) :
    (plug ctx (.node red left item right)).focus item outer =
      some (ctx ++ outer, .node red left item right) := by
  induction ctx using List.reverseRecOn generalizing outer with
  | nil =>
    have apart : item ∉ left.toList := fun inside =>
      (List.nodup_append.mp nodup).2.2 item inside item List.mem_cons_self rfl
    rw [plug, focus, if_neg apart, if_pos rfl]
    rfl
  | append_singleton ctx f ih =>
    have inside := mem_plug ctx red left item right
    rw [plug_append] at nodup ⊢
    obtain ⟨side, red', other, sibling⟩ := f
    rw [List.append_assoc]
    cases side
    · have inner := (List.nodup_append.mp nodup).1
      rw [plug, plug, join, focus, if_pos inside]
      exact ih inner
    · obtain ⟨-, cons, apart⟩ := List.nodup_append.mp nodup
      have outside : item ∉ sibling.toList := fun member =>
        apart item member item (List.mem_cons_of_mem _ inside) rfl
      have other' : item ≠ other := fun same => (List.nodup_cons.mp cons).1 (same ▸ inside)
      rw [plug, plug, join, focus, if_neg outside, if_neg other']
      exact ih (List.nodup_cons.mp cons).2

/-- An insertion with its repair, at the new leaf. -/
theorem redBlack_insertColor {ctx : List (Frame α)}
    (nodup : (plug ctx (.node true .leaf item .leaf)).toList.Nodup) :
    redBlack.insertColor item (plug ctx (.node true .leaf item .leaf)) =
      (fixRed ctx (.node true .leaf item .leaf)).blacken := by
  simp only [redBlack, focus_plug nodup, List.append_nil]

/-- A removal with its repair, at the node. -/
theorem redBlack_erase {ctx : List (Frame α)} {red : Bool} {left right : SearchTree α}
    (nodup : (plug ctx (.node red left item right)).toList.Nodup) :
    redBlack.erase item (plug ctx (.node red left item right)) =
      removeRoot ctx (.node red left item right) := by
  simp only [redBlack, focus_plug nodup, List.append_nil]

/-- An insertion keeps the balance. -/
theorem Balanced.insertColor {ε : Type} {compare : α → Except ε Int} {t linked : SearchTree α}
    {n : Nat} (balanced : t.Balanced false n) (nodup : linked.toList.Nodup)
    (done : t.link compare item = .ok (some linked)) :
    ∃ m, (redBlack.insertColor item linked).Balanced false m := by
  obtain ⟨ctx, rfl, rfl⟩ := link_plug done
  rw [redBlack_insertColor nodup]
  exact balanced.insert item

/-- A removal keeps the balance. -/
theorem Balanced.erase {t : SearchTree α} {n : Nat} (balanced : t.Balanced false n) (item : α) :
    ∃ m, (redBlack.erase item t).Balanced false m := by
  rw [redBlack]
  dsimp only
  split
  · next ctx sub search =>
    obtain ⟨inner, red, left, right, same, rfl, -⟩ := focus_some search
    rw [List.append_nil, Prod.mk.injEq] at same
    rw [same.1, same.2]
    exact balanced_removeRoot balanced
  · exact ⟨n, balanced⟩

end Find

end SearchTree
