import FlowerRoute.Lib.Outcome
import FlowerRoute.Lib.RedBlack
import FlowerRoute.Model.Address

/-!
# The nodes of the trees

`rbtree.c` and `rbtree.h`: the nodes in memory, with their pointers to the parent and to the
children, and what the functions of the trees write there. The branches for the left and for the
right are one definition for a side. A number bounds the rounds of a loop.
-/

namespace FlowerRoute

open Outcome
open SearchTree (Side)

/-- `struct rb_node`; the parent and the colour are the parts of `rb_parent_color`. A node of zeros
is red. -/
structure RbNode (P : Type) where
  parent : Option P := none
  red : Bool := true
  right : Option P := none
  left : Option P := none
  deriving DecidableEq, Repr

/-- The child on a side. -/
def RbNode.child {P : Type} (node : RbNode P) : Side → Option P
  | .left => node.left
  | .right => node.right

/-- The node with another child on a side. -/
def RbNode.setChild {P : Type} (side : Side) (child : Option P) (node : RbNode P) : RbNode P :=
  match side with
  | .left => { node with left := child }
  | .right => { node with right := child }

/-- `struct rb_root`, with the nodes in memory. -/
structure RbRoot (P : Type) where
  rbNode : Option P := none
  cell : P → RbNode P := fun _ => {}

variable {P : Type}

/-- Follow a pointer. -/
def deref : Option P → Except Fault P
  | some p => .ok p
  | none => .error .nullPointer

/-- Follow a pointer that `AN` requires. -/
def derefAsserted : Option P → Except Fault P
  | some p => .ok p
  | none => .error .assertion

variable [DecidableEq P]

namespace RbRoot

/-- Write to a node. -/
def modify (t : RbRoot P) (p : P) (f : RbNode P → RbNode P) : RbRoot P :=
  { t with cell := fun q => if q = p then f (t.cell q) else t.cell q }

/-- `rb_set_parent`. -/
def setParent (t : RbRoot P) (p : P) (parent : Option P) : RbRoot P :=
  t.modify p fun node => { node with parent }

/-- `rb_set_parent` for a child that may be NULL. -/
def setParentOf (t : RbRoot P) (child : Option P) (parent : Option P) : RbRoot P :=
  match child with
  | some p => t.setParent p parent
  | none => t

/-- `rb_set_color`, `rb_set_red` and `rb_set_black`. -/
def setColor (t : RbRoot P) (p : P) (red : Bool) : RbRoot P :=
  t.modify p fun node => { node with red }

/-- `rb_set_black` for a node that may be NULL. -/
def setBlackOf (t : RbRoot P) (node : Option P) : RbRoot P :=
  match node with
  | some p => t.setColor p false
  | none => t

/-- Write the pointer to a child. -/
def setChild (t : RbRoot P) (side : Side) (p : P) (child : Option P) : RbRoot P :=
  t.modify p (RbNode.setChild side child)

/-- Write the pointer from above: the one of the parent, or the root. The parent has the node on the
side unless it has it on the other one. -/
def setLink (t : RbRoot P) (side : Side) (parent : Option P) (node : P) (new : Option P) :
    RbRoot P :=
  match parent with
  | some p =>
    if (t.cell p).child side = some node then t.setChild side p new
    else t.setChild side.other p new
  | none => { t with rbNode := new }

/-- `!node || rb_is_black(node)`. -/
def isBlack (t : RbRoot P) (p : Option P) : Bool := p.all fun p => !(t.cell p).red

end RbRoot

/-- `__rb_rotate_left` and `__rb_rotate_right`: the node goes down to the side. -/
def rbRotate (side : Side) (node : P) (t : RbRoot P) : Except Fault (RbRoot P) := do
  let up ← deref ((t.cell node).child side.other)
  let parent := (t.cell node).parent
  let inner := (t.cell up).child side
  let t := t.setChild side.other node inner
  let t := t.setParentOf inner (some node)
  let t := t.setChild side up (some node)
  let t := t.setParent up parent
  let t := t.setLink side parent node (some up)
  return t.setParent node (some up)

/-- `__rb_rotate_left`. -/
def rbRotateLeft (node : P) (t : RbRoot P) : Except Fault (RbRoot P) := rbRotate .left node t

/-- `__rb_rotate_right`. -/
def rbRotateRight (node : P) (t : RbRoot P) : Except Fault (RbRoot P) := rbRotate .right node t

/-- One round of `rb_insert_color` under a red parent on a side of its own parent, with the node of
the next round. -/
def rbInsertColorStep (side : Side) (node parent gparent : P) (t : RbRoot P) :
    Except Fault (P × RbRoot P) := do
  match ((t.cell gparent).child side.other).filter fun uncle => (t.cell uncle).red with
  | some uncle =>
    let t := t.setColor uncle false
    let t := t.setColor parent false
    return (gparent, t.setColor gparent true)
  | none =>
    let (node, parent, t) ←
      if (t.cell parent).child side.other = some node then do
        pure (parent, node, ← rbRotate side parent t)
      else pure (node, parent, t)
    let t := t.setColor parent false
    let t := t.setColor gparent true
    return (node, ← rbRotate side.other gparent t)

/-- The loop of `rb_insert_color`. -/
def rbInsertColorLoop : Nat → P → RbRoot P → Except Fault (RbRoot P)
  | 0, _, _ => .error .outOfFuel
  | rounds + 1, node, t =>
    match (t.cell node).parent with
    | none => .ok t
    | some parent =>
      if (t.cell parent).red then do
        let gparent ← deref (t.cell parent).parent
        let side := if some parent = (t.cell gparent).left then Side.left else .right
        let (node, t) ← rbInsertColorStep side node parent gparent t
        rbInsertColorLoop rounds node t
      else .ok t

/-- `rb_insert_color`. -/
def rbInsertColor (rounds : Nat) (node : P) (t : RbRoot P) : Except Fault (RbRoot P) := do
  let t ← rbInsertColorLoop rounds node t
  let root ← deref t.rbNode
  return t.setColor root false

/-- The end of the last round of `__rb_erase_color`: `other` takes the place of the parent. -/
def rbEraseColorLast (side : Side) (parent other : P) (t : RbRoot P) :
    Except Fault (RbRoot P) := do
  let t := t.setColor other (t.cell parent).red
  let t := t.setColor parent false
  let far ← derefAsserted ((t.cell other).child side.other)
  rbRotate side parent (t.setColor far false)

/-- A round of `__rb_erase_color` with a black `other`, and whether the loop goes on at the
parent. -/
def rbEraseColorBlack (side : Side) (parent other : P) (t : RbRoot P) :
    Except Fault (Bool × RbRoot P) := do
  if t.isBlack (t.cell other).left && t.isBlack (t.cell other).right then
    return (true, t.setColor other true)
  else if t.isBlack ((t.cell other).child side.other) then
    let near ← deref ((t.cell other).child side)
    let t := t.setColor near false
    let t := t.setColor other true
    let t ← rbRotate side.other other t
    let other ← deref ((t.cell parent).child side.other)
    return (false, ← rbEraseColorLast side parent other t)
  else return (false, ← rbEraseColorLast side parent other t)

/-- One round of `__rb_erase_color` for a node on a side of its parent: a red `other` comes up
first. -/
def rbEraseColorStep (side : Side) (parent : P) (t : RbRoot P) :
    Except Fault (Bool × RbRoot P) := do
  let other ← derefAsserted ((t.cell parent).child side.other)
  if (t.cell other).red then
    let t := t.setColor other false
    let t := t.setColor parent true
    let t ← rbRotate side parent t
    rbEraseColorBlack side parent (← deref ((t.cell parent).child side.other)) t
  else rbEraseColorBlack side parent other t

/-- The loop of `__rb_erase_color`, with the node that it ends at. -/
def rbEraseColorLoop :
    Nat → Option P → Option P → RbRoot P → Except Fault (Option P × RbRoot P)
  | 0, _, _, _ => .error .outOfFuel
  | rounds + 1, node, parent, t =>
    if t.isBlack node ∧ node ≠ t.rbNode then do
      let parent ← deref parent
      let side := if (t.cell parent).left = node then Side.left else .right
      match ← rbEraseColorStep side parent t with
      | (true, t) => rbEraseColorLoop rounds (some parent) (t.cell parent).parent t
      | (false, t) => return (t.rbNode, t)
    else .ok (node, t)

/-- `__rb_erase_color`. -/
def rbEraseColor (rounds : Nat) (node parent : Option P) (t : RbRoot P) :
    Except Fault (RbRoot P) := do
  let (node, t) ← rbEraseColorLoop rounds node parent t
  return t.setBlackOf node

/-- The way down on a side: the loops of `rb_first`, `rb_last` and of the walks. -/
def rbDescend (side : Side) : Nat → P → RbRoot P → Except Fault P
  | 0, _, _ => .error .outOfFuel
  | rounds + 1, node, t =>
    match (t.cell node).child side with
    | some child => rbDescend side rounds child t
    | none => .ok node

/-- `rb_erase` for a node with at most one child. -/
def rbEraseOne (rounds : Nat) (node : P) (child : Option P) (t : RbRoot P) :
    Except Fault (RbRoot P) :=
  let parent := (t.cell node).parent
  let red := (t.cell node).red
  let t := t.setParentOf child parent
  let t := t.setLink .left parent node child
  if red then .ok t else rbEraseColor rounds child parent t

/-- `rb_erase` where the next node takes the place of a node with two children. -/
def rbTakePlace (old node : P) (t : RbRoot P) : Except Fault (RbRoot P) := do
  let t := t.setParent node (t.cell old).parent
  let t := t.setColor node (t.cell old).red
  let t := t.setChild .left node (t.cell old).left
  let left ← deref (t.cell old).left
  return t.setParent left (some node)

/-- `rb_erase` for a node with two children. -/
def rbEraseTwo (rounds : Nat) (old right : P) (t : RbRoot P) : Except Fault (RbRoot P) := do
  let node ← rbDescend .left rounds right t
  let t := t.setLink .left (t.cell old).parent old (some node)
  let child := (t.cell node).right
  let parent := (t.cell node).parent
  let red := (t.cell node).red
  let (parent, t) ←
    if parent = some old then pure (some node, t)
    else do
      let t := t.setParentOf child parent
      let above ← deref parent
      let t := t.setChild .left above child
      let t := t.setChild .right node (t.cell old).right
      let right ← deref (t.cell old).right
      pure (parent, t.setParent right (some node))
  let t ← rbTakePlace old node t
  if red then return t else rbEraseColor rounds child parent t

/-- `rb_erase`. -/
def rbErase (rounds : Nat) (node : P) (t : RbRoot P) : Except Fault (RbRoot P) :=
  match (t.cell node).left, (t.cell node).right with
  | none, child => rbEraseOne rounds node child t
  | some left, none => rbEraseOne rounds node (some left) t
  | some _, some right => rbEraseTwo rounds node right t

/-- `rb_first`, and `rb_last` for the right side. -/
def rbEnd (side : Side) (rounds : Nat) (t : RbRoot P) : Except Fault (Option P) :=
  match t.rbNode with
  | none => .ok none
  | some n => return some (← rbDescend side rounds n t)

/-- `rb_first`. -/
def rbFirst (rounds : Nat) (t : RbRoot P) : Except Fault (Option P) := rbEnd .left rounds t

/-- `rb_last`. -/
def rbLast (rounds : Nat) (t : RbRoot P) : Except Fault (Option P) := rbEnd .right rounds t

/-- The way up as long as the node is on a side of its parent. -/
def rbClimb (side : Side) : Nat → P → RbRoot P → Except Fault (Option P)
  | 0, _, _ => .error .outOfFuel
  | rounds + 1, node, t =>
    match (t.cell node).parent with
    | none => .ok none
    | some parent =>
      if (t.cell parent).child side = some node then rbClimb side rounds parent t
      else .ok (some parent)

/-- `rb_next`, and `rb_prev` for the left side. -/
def rbWalk (side : Side) (rounds : Nat) (node : P) (t : RbRoot P) : Except Fault (Option P) :=
  if (t.cell node).parent = some node then .ok none
  else
    match (t.cell node).child side with
    | some child => return some (← rbDescend side.other rounds child t)
    | none => rbClimb side rounds node t

/-- `rb_next`. -/
def rbNext (rounds : Nat) (node : P) (t : RbRoot P) : Except Fault (Option P) :=
  rbWalk .right rounds node t

/-- `rb_prev`. -/
def rbPrev (rounds : Nat) (node : P) (t : RbRoot P) : Except Fault (Option P) :=
  rbWalk .left rounds node t

/-- `struct rb_node **`: the pointer of the root, or of a child. -/
inductive RbLink (P : Type)
  | root
  | child (side : Side) (parent : P)
  deriving DecidableEq, Repr

/-- The node that a link points to. -/
def RbLink.get (t : RbRoot P) : RbLink P → Option P
  | .root => t.rbNode
  | .child side p => (t.cell p).child side

/-- `rb_link_node`. -/
def rbLinkNode (node : P) (parent : Option P) (link : RbLink P) (t : RbRoot P) : RbRoot P :=
  let t := t.modify node fun _ => { parent, red := true, left := none, right := none }
  match link with
  | .root => { t with rbNode := some node }
  | .child side p => t.setChild side p (some node)

/-- The loop of every insertion into a tree: the place for the new node, unless a node compares
equal. -/
def rbPlace (compare : P → Except Fault Int) : Nat → Option P → RbLink P → RbRoot P →
    Except Fault (Option (Option P × RbLink P))
  | 0, _, _, _ => .error .outOfFuel
  | rounds + 1, parent, link, t =>
    match link.get t with
    | none => .ok (some (parent, link))
    | some this => do
      let ret ← compare this
      if ret < 0 then rbPlace compare rounds (some this) (.child .left this) t
      else if 0 < ret then rbPlace compare rounds (some this) (.child .right this) t
      else pure none

/-- Every insertion into a tree: `obj_link_insert`, `obj_neigh_fdb_insert`, `obj_route_insert`,
`obj_rule_laf_insert`, `obj_rule_pos_insert` and the one of `filter_got_chain`. -/
def rbInsert (compare : P → Except Fault Int) (rounds : Nat) (node : P) (t : RbRoot P) :
    Except Fault (Bool × RbRoot P) := do
  match ← rbPlace compare rounds none .root t with
  | none => return (false, t)
  | some (parent, link) =>
    return (true, ← rbInsertColor rounds node (rbLinkNode node parent link t))

/-- Every lookup in a tree. -/
def rbLookup (compare : P → Except Fault Int) : Nat → Option P → RbRoot P →
    Except Fault (Option P)
  | 0, _, _ => .error .outOfFuel
  | _ + 1, none, _ => .ok none
  | rounds + 1, some this, t => do
    let ret ← compare this
    if ret < 0 then rbLookup compare rounds (t.cell this).left t
    else if 0 < ret then rbLookup compare rounds (t.cell this).right t
    else pure (some this)

end FlowerRoute
