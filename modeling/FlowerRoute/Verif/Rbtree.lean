import FlowerRoute.Model.Rbtree

/-!
# Nodes that spell a tree

What the functions of the trees do to the nodes in memory is what the algorithms of red-black trees
do to the tree that the nodes spell. A node is looked at with the frames above it, so that a
rotation is a local change.
-/

namespace FlowerRoute

open Outcome SearchTree

variable {P : Type}

/-- A node with its pointers, seen from a side. -/
def nodeOf (side : Side) (parent : Option P) (red : Bool) (near far : Option P) : RbNode P :=
  match side with
  | .left => { parent, red, left := near, right := far }
  | .right => { parent, red, left := far, right := near }

section Nodes

variable (side : Side) (parent : Option P) (red : Bool) (near far : Option P)

@[simp] theorem parent_nodeOf : (nodeOf side parent red near far).parent = parent := by
  cases side <;> rfl

@[simp] theorem red_nodeOf : (nodeOf side parent red near far).red = red := by
  cases side <;> rfl

@[simp] theorem child_nodeOf : (nodeOf side parent red near far).child side = near := by
  cases side <;> rfl

@[simp] theorem child_other_nodeOf :
    (nodeOf side parent red near far).child side.other = far := by
  cases side <;> rfl

@[simp] theorem setParent_nodeOf (parent' : Option P) :
    { nodeOf side parent red near far with parent := parent' } =
      nodeOf side parent' red near far := by
  cases side <;> rfl

@[simp] theorem setRed_nodeOf (red' : Bool) :
    { nodeOf side parent red near far with red := red' } =
      nodeOf side parent red' near far := by
  cases side <;> rfl

@[simp] theorem setChild_nodeOf (child : Option P) :
    RbNode.setChild side child (nodeOf side parent red near far) =
      nodeOf side parent red child far := by
  cases side <;> rfl

@[simp] theorem setChild_other_nodeOf (child : Option P) :
    RbNode.setChild side.other child (nodeOf side parent red near far) =
      nodeOf side parent red near child := by
  cases side <;> rfl

theorem nodeOf_other : nodeOf side.other parent red near far = nodeOf side parent red far near := by
  cases side <;> rfl

end Nodes

/-- The nodes below a parent spell a tree. -/
def Spells (cell : P → RbNode P) : Option P → SearchTree P → Prop
  | _, .leaf => True
  | parent, .node red left item right =>
    cell item = nodeOf .left parent red left.top right.top ∧
      Spells cell (some item) left ∧ Spells cell (some item) right

/-- The node above a subtree. -/
def above : List (Frame P) → Option P
  | [] => none
  | f :: _ => some f.item

/-- The nodes above a subtree spell its frames. -/
def SpellsFrames (cell : P → RbNode P) : List (Frame P) → Option P → Prop
  | [], _ => True
  | f :: ctx, top =>
    cell f.item = nodeOf f.side (above ctx) f.red top f.sibling.top ∧
      Spells cell (some f.item) f.sibling ∧ SpellsFrames cell ctx (some f.item)

/-- The items of the frames. -/
def frameItems : List (Frame P) → List P
  | [] => []
  | f :: ctx => f.item :: (f.sibling.toList ++ frameItems ctx)

/-- The nodes spell a subtree and the frames around it. -/
structure Spelled (t : RbRoot P) (ctx : List (Frame P)) (u : SearchTree P) : Prop where
  root : t.rbNode = (plug ctx u).top
  sub : Spells t.cell (above ctx) u
  frames : SpellsFrames t.cell ctx u.top
  nodup : (u.toList ++ frameItems ctx).Nodup

section Spelling

variable {cell cell' : P → RbNode P} {parent : Option P} {t u : SearchTree P}
  {ctx : List (Frame P)} {side : Side} {red : Bool} {item : P} {near far : SearchTree P}

/-- A node and its subtrees. -/
theorem spells_join : Spells cell parent (join side red item near far) ↔
    cell item = nodeOf side parent red near.top far.top ∧ Spells cell (some item) near ∧
      Spells cell (some item) far := by
  cases side
  · rfl
  · exact and_congr_right fun _ => and_comm

/-- Nodes that did not change. -/
theorem Spells.congr (spells : Spells cell parent t) (same : ∀ p ∈ t.toList, cell' p = cell p) :
    Spells cell' parent t := by
  induction t generalizing parent with
  | leaf => trivial
  | node red left item right ihLeft ihRight =>
    obtain ⟨own, first, second⟩ := spells
    refine ⟨?_, ihLeft first fun p member => ?_, ihRight second fun p member => ?_⟩
    · rw [same item (by simp [toList]), own]
    · exact same p (by simp [toList, member])
    · exact same p (by simp [toList, member])

/-- Frames whose nodes did not change. -/
theorem SpellsFrames.congr {top : Option P} (spells : SpellsFrames cell ctx top)
    (same : ∀ p ∈ frameItems ctx, cell' p = cell p) : SpellsFrames cell' ctx top := by
  induction ctx generalizing top with
  | nil => trivial
  | cons f ctx ih =>
    obtain ⟨own, sibling, rest⟩ := spells
    refine ⟨?_, sibling.congr fun p member => ?_, ih rest fun p member => ?_⟩
    · rw [same f.item (by simp [frameItems]), own]
    · exact same p (by simp [frameItems, member])
    · exact same p (by simp [frameItems, member])

/-- The root of a tree depends only on the root of a subtree. -/
theorem top_plug (same : t.top = u.top) : (plug ctx t).top = (plug ctx u).top := by
  induction ctx generalizing t u with
  | nil => exact same
  | cons f ctx ih => exact ih (by simp)

/-- Below a frame it does not depend on the subtree. -/
theorem top_plug_of_ne (inside : ctx ≠ []) : (plug ctx t).top = (plug ctx u).top := by
  cases ctx with
  | nil => exact absurd rfl inside
  | cons f ctx =>
    rw [plug, plug]
    exact top_plug ((top_join ..).trans (top_join ..).symm)

/-- The items of a node with its frames. -/
theorem perm_join (ctx : List (Frame P)) :
    ((join side red item near far).toList ++ frameItems ctx).Perm
      (near.toList ++ item :: (far.toList ++ frameItems ctx)) := by
  cases side
  · simp [toList_join]
  · rw [toList_join, List.append_assoc, List.cons_append]
    have swap : (far.toList ++ (item :: near.toList)).Perm
        (near.toList ++ (item :: far.toList)) := by
      refine List.perm_append_comm.trans ?_
      rw [List.cons_append]
      exact List.perm_middle.symm
    simpa using swap.append_right (frameItems ctx)

/-- The items of a tree are those of a subtree and of its frames. -/
theorem perm_plug (ctx : List (Frame P)) (u : SearchTree P) :
    (plug ctx u).toList.Perm (u.toList ++ frameItems ctx) := by
  induction ctx generalizing u with
  | nil => rw [plug, frameItems, List.append_nil]
  | cons f ctx ih => exact (ih _).trans (perm_join ctx)

/-- A subtree seen from the node above it. -/
theorem spelled_cons {t : RbRoot P} {f : Frame P} :
    Spelled t (f :: ctx) u ↔ Spelled t ctx (join f.side f.red f.item u f.sibling) := by
  have items : (u.toList ++ frameItems (f :: ctx)).Nodup ↔
      ((join f.side f.red f.item u f.sibling).toList ++ frameItems ctx).Nodup :=
    (perm_join ctx).nodup_iff.symm
  constructor
  · rintro ⟨root, sub, ⟨own, sibling, frames⟩, nodup⟩
    refine ⟨root, spells_join.mpr ⟨own, sub, sibling⟩, ?_, items.mp nodup⟩
    rw [top_join]
    exact frames
  · rintro ⟨root, sub, frames, nodup⟩
    obtain ⟨own, near, far⟩ := spells_join.mp sub
    rw [top_join] at frames
    exact ⟨root, near, ⟨own, far, frames⟩, items.mpr nodup⟩

/-- A subtree seen from further up. -/
theorem spelled_append {t : RbRoot P} {inner : List (Frame P)} :
    Spelled t (inner ++ ctx) u ↔ Spelled t ctx (plug inner u) := by
  induction inner generalizing u with
  | nil => rfl
  | cons f inner ih => exact spelled_cons.trans ih

/-- A subtree seen from the whole tree. -/
theorem spelled_plug {t : RbRoot P} : Spelled t ctx u ↔ Spelled t [] (plug ctx u) := by
  rw [← spelled_append, List.append_nil]

/-- The far subtree seen from the node above it. -/
theorem spelled_far {t : RbRoot P} :
    Spelled t (⟨side.other, red, item, near⟩ :: ctx) far ↔
      Spelled t ctx (join side red item near far) := by
  rw [spelled_cons, join_other]

/-- The items around a rotation. -/
theorem perm_rotate {x y : P} {red' : Bool} {inner : SearchTree P} :
    ((join side red x near (join side red' y inner far)).toList ++ frameItems ctx).Perm
      (near.toList ++ x :: (inner.toList ++ y :: (far.toList ++ frameItems ctx))) := by
  refine (perm_join ctx).trans (List.Perm.append_left near.toList (List.Perm.cons x ?_))
  exact perm_join ctx

end Spelling

/-- The items around a rotation of `x` and `y` are distinct. -/
structure Distinct (x y : P) (near inner far : SearchTree P) (ctx : List (Frame P)) : Prop where
  nodes : x ≠ y
  nears : ∀ p ∈ near.toList, p ≠ x ∧ p ≠ y ∧ p ∉ inner.toList ∧ p ∉ frameItems ctx
  inners : ∀ p ∈ inner.toList, p ≠ x ∧ p ≠ y ∧ p ∉ frameItems ctx
  fars : ∀ p ∈ far.toList, p ≠ x ∧ p ≠ y ∧ p ∉ inner.toList ∧ p ∉ frameItems ctx
  first : x ∉ inner.toList ∧ x ∉ frameItems ctx
  second : y ∉ inner.toList ∧ y ∉ frameItems ctx
  frames : ∀ p ∈ frameItems ctx, p ≠ x ∧ p ≠ y ∧ p ∉ inner.toList
  once : inner.toList.Nodup
  framesOnce : (frameItems ctx).Nodup

/-- Where no item is twice. -/
theorem distinct_of_nodup {x y : P} {red red' : Bool} {side : Side} {near inner far : SearchTree P}
    {ctx : List (Frame P)} (nodup : ((join side red x near (join side red' y inner far)).toList ++
      frameItems ctx).Nodup) : Distinct x y near inner far ctx := by
  have all := perm_rotate.nodup_iff.mp nodup
  simp only [List.nodup_append, List.nodup_cons, List.mem_append, List.mem_cons] at all
  constructor <;> grind

@[simp] theorem deref_some (p : P) : deref (some p) = .ok p := rfl

@[simp] theorem derefAsserted_some (p : P) : derefAsserted (some p) = .ok p := rfl

section Writes

variable [DecidableEq P] {t : RbRoot P} {u near far : SearchTree P} {ctx : List (Frame P)}
  {side : Side} {red : Bool} {item p : P} {parent : Option P}

namespace RbRoot

@[simp] theorem cell_modify_same (f : RbNode P → RbNode P) : (t.modify p f).cell p = f (t.cell p) :=
  if_pos rfl

theorem cell_modify_ne {q : P} (f : RbNode P → RbNode P) (apart : q ≠ p) :
    (t.modify p f).cell q = t.cell q := if_neg apart

@[simp] theorem rbNode_modify (f : RbNode P → RbNode P) : (t.modify p f).rbNode = t.rbNode := rfl

@[simp] theorem rbNode_setParentOf (child : Option P) :
    (t.setParentOf child parent).rbNode = t.rbNode := by
  cases child <;> rfl

/-- The parent of a subtree is written to its root only. -/
theorem cell_setParentOf (outside : p ∉ u.toList) :
    (t.setParentOf u.top parent).cell p = t.cell p := by
  cases top : u.top with
  | none => rfl
  | some q =>
    have apart : p ≠ q := fun same => outside (same ▸ mem_of_top top)
    exact if_neg apart

/-- The pointer from above is written to the node above. -/
theorem setLink_above {f : Frame P} {new : Option P}
    (own : t.cell f.item = nodeOf f.side parent red (some item) f.sibling.top)
    (outside : item ∉ f.sibling.toList) :
    t.setLink side (some f.item) item new = t.setChild f.side f.item new := by
  rw [setLink]
  by_cases same : f.side = side
  · rw [if_pos]
    · rw [same]
    · rw [own, ← same, child_nodeOf]
  · have opposite := Side.eq_other_of_ne fun same' => same same'.symm
    rw [opposite, if_neg, Side.other_other]
    rw [own, child_other_nodeOf]
    exact fun same => outside (mem_of_top same)

/-- It is written outside of a subtree. -/
theorem cell_setLink (outside : p ∉ frameItems ctx) (node : P) (new : Option P) :
    (t.setLink side (above ctx) node new).cell p = t.cell p := by
  cases ctx with
  | nil => rfl
  | cons f ctx =>
    have apart : p ≠ f.item := fun same => outside (same ▸ List.mem_cons_self)
    simp only [above, setLink]
    split
    · exact cell_modify_ne _ apart
    · exact cell_modify_ne _ apart

/-- Writes to two nodes. -/
theorem modify_comm {q : P} (apart : p ≠ q) (f g : RbNode P → RbNode P) :
    (t.modify p f).modify q g = (t.modify q g).modify p f := by
  simp only [modify, mk.injEq, true_and]
  funext r
  by_cases first : r = p
  · subst first
    simp [apart]
  · by_cases second : r = q
    · subst second
      simp [first]
    · simp [first, second]

/-- The pointer from above is written to a node of the frames. -/
theorem setLink_modify (outside : p ∉ frameItems ctx) (node : P) (new : Option P)
    (f : RbNode P → RbNode P) : (t.modify p f).setLink side (above ctx) node new =
      (t.setLink side (above ctx) node new).modify p f := by
  cases ctx with
  | nil => rfl
  | cons g ctx =>
    have apart : p ≠ g.item := fun same => outside (same ▸ List.mem_cons_self)
    simp only [above, setLink, cell_modify_ne f apart.symm]
    split
    · exact modify_comm apart ..
    · exact modify_comm apart ..

/-- So it is to the root of a subtree. -/
theorem setLink_setParentOf (outside : ∀ p ∈ u.toList, p ∉ frameItems ctx) (node : P)
    (new : Option P) : (t.setParentOf u.top parent).setLink side (above ctx) node new =
      (t.setLink side (above ctx) node new).setParentOf u.top parent := by
  cases top : u.top with
  | none => rfl
  | some p =>
    exact setLink_modify (outside p (mem_of_top top)) node new fun cell => { cell with parent }

/-- The root is written where nothing is above. -/
theorem rbNode_setLink (node : P) (new : Option P) :
    (t.setLink side (above ctx) node new).rbNode = if ctx = [] then new else t.rbNode := by
  cases ctx with
  | nil => rfl
  | cons f ctx =>
    simp only [above, setLink]
    split <;> rfl

end RbRoot

/-- A subtree gets another parent. -/
theorem Spells.setParentOf {parent' : Option P} (spells : Spells t.cell parent u)
    (nodup : u.toList.Nodup) : Spells (t.setParentOf u.top parent').cell parent' u := by
  cases u with
  | leaf => trivial
  | node red left item right =>
    obtain ⟨own, first, second⟩ := spells
    obtain ⟨-, second', apart⟩ := List.nodup_append.mp nodup
    have outside : ∀ p, p ≠ item →
        (t.setParentOf (node red left item right).top parent').cell p = t.cell p :=
      fun p apart => if_neg apart
    refine ⟨?_, first.congr fun p member => ?_, second.congr fun p member => ?_⟩
    · rw [top, RbRoot.setParentOf, RbRoot.setParent, RbRoot.cell_modify_same, own, setParent_nodeOf]
    · exact outside p (apart p member item List.mem_cons_self)
    · exact outside p fun same => (List.nodup_cons.mp second').1 (same ▸ member)

/-- The frames get another subtree. -/
theorem SpellsFrames.setLink {new : Option P} (frames : SpellsFrames t.cell ctx (some item))
    (nodup : (frameItems ctx).Nodup) (outside : item ∉ frameItems ctx) :
    SpellsFrames (t.setLink side (above ctx) item new).cell ctx new := by
  cases ctx with
  | nil => trivial
  | cons f ctx =>
    obtain ⟨own, sibling, rest⟩ := frames
    have apart : ∀ p ∈ f.sibling.toList ++ frameItems ctx, p ≠ f.item := fun p member same =>
      (List.nodup_cons.mp nodup).1 (same ▸ member)
    rw [above, RbRoot.setLink_above own fun member => outside (by simp [frameItems, member])]
    refine ⟨?_, sibling.congr fun p member => ?_, rest.congr fun p member => ?_⟩
    · rw [RbRoot.setChild, RbRoot.cell_modify_same, own, setChild_nodeOf]
    · exact RbRoot.cell_modify_ne _ (apart p (List.mem_append_left _ member))
    · exact RbRoot.cell_modify_ne _ (apart p (List.mem_append_right _ member))

/-- A node gets another colour. -/
theorem Spelled.setColor (spelled : Spelled t ctx (join side red item near far)) (red' : Bool) :
    Spelled (t.setColor item red') ctx (join side red' item near far) := by
  obtain ⟨root, sub, frames, nodup⟩ := spelled
  obtain ⟨own, first, second⟩ := spells_join.mp sub
  obtain ⟨first', second', apart⟩ := List.nodup_append.mp ((perm_join ctx).nodup_iff.mp nodup)
  have outside : ∀ p, p ≠ item → (t.setColor item red').cell p = t.cell p := fun p apart =>
    RbRoot.cell_modify_ne _ apart
  have absent := (List.nodup_cons.mp second').1
  rw [top_join] at frames
  refine ⟨root.trans (top_plug (by simp)), spells_join.mpr ⟨?_, ?_, ?_⟩, ?_, ?_⟩
  · rw [RbRoot.setColor, RbRoot.cell_modify_same, own, setRed_nodeOf]
  · exact first.congr fun p member => outside p (apart p member item List.mem_cons_self)
  · refine second.congr fun p member => outside p fun same => absent ?_
    exact same ▸ List.mem_append_left _ member
  · rw [top_join]
    refine frames.congr fun p member => outside p fun same => absent ?_
    exact same ▸ List.mem_append_right _ member
  · rw [(perm_join ctx).nodup_iff]
    exact (perm_join ctx).nodup_iff.mp nodup

/-- A rotation. -/
theorem Spelled.rotate {x y : P} {red' : Bool} {inner : SearchTree P}
    (spelled : Spelled t ctx (join side red x near (join side red' y inner far))) :
    ∃ t', rbRotate side x t = .ok t' ∧
      Spelled t' ctx (join side red' y (join side red x near inner) far) := by
  obtain ⟨root, sub, frames, nodup⟩ := spelled
  obtain ⟨own, first, rest⟩ := spells_join.mp sub
  obtain ⟨own', second, third⟩ := spells_join.mp rest
  have apart := distinct_of_nodup nodup
  rw [top_join] at frames own
  have up : (t.cell x).child side.other = some y := by rw [own, child_other_nodeOf]
  have down : (t.cell y).child side = inner.top := by rw [own', child_nodeOf]
  have parent : (t.cell x).parent = above ctx := by rw [own, parent_nodeOf]
  -- the nodes after each write
  let t₁ := t.setChild side.other x inner.top
  let t₂ := t₁.setParentOf inner.top (some x)
  let t₃ := (t₂.setChild side y (some x)).setParent y (above ctx)
  let t₄ := t₃.setLink side (above ctx) x (some y)
  refine ⟨t₄.setParent x (some y), ?_, ?_⟩
  · simp only [rbRotate, up, deref_some, ok_bind, down, parent]
    rfl
  have step₁ : ∀ p, p ≠ x → t₁.cell p = t.cell p := fun p apart => if_neg apart
  have step₂ : ∀ p, p ∉ inner.toList → t₂.cell p = t₁.cell p := fun p outside =>
    RbRoot.cell_setParentOf outside
  have step₃ : ∀ p, p ≠ y → t₃.cell p = t₂.cell p := fun p apart =>
    (if_neg apart).trans (if_neg apart)
  have step₄ : ∀ p, p ∉ frameItems ctx → t₄.cell p = t₃.cell p := fun p outside =>
    RbRoot.cell_setLink outside x (some y)
  have step₅ : ∀ p, p ≠ x → (t₄.setParent x (some y)).cell p = t₄.cell p := fun p apart =>
    if_neg apart
  have outside : ∀ p, p ≠ x ∧ p ≠ y ∧ p ∉ inner.toList ∧ p ∉ frameItems ctx →
      (t₄.setParent x (some y)).cell p = t.cell p := by
    rintro p ⟨first, second, inside, outer⟩
    rw [step₅ p first, step₄ p outer, step₃ p second, step₂ p inside, step₁ p first]
  refine ⟨?_, spells_join.mpr ⟨?_, spells_join.mpr ⟨?_, ?_, ?_⟩, ?_⟩, ?_, ?_⟩
  · change t₄.rbNode = _
    have same : t₃.rbNode = t.rbNode := RbRoot.rbNode_setParentOf _
    rw [RbRoot.rbNode_setLink, same, root]
    split
    · next empty => rw [empty, plug, top_join]
    · next inside => exact top_plug_of_ne inside
  · rw [step₅ y apart.nodes.symm, step₄ y apart.second.2, top_join]
    have kept : t₂.cell y = nodeOf side (some x) red' inner.top far.top := by
      rw [step₂ y apart.second.1, step₁ y apart.nodes.symm, own']
    simp only [t₃, RbRoot.setParent, RbRoot.setChild, RbRoot.cell_modify_same, kept,
      setChild_nodeOf, setParent_nodeOf]
  · have kept : t₄.cell x = nodeOf side (above ctx) red near.top inner.top := by
      rw [step₄ x apart.first.2, step₃ x apart.nodes, step₂ x apart.first.1]
      simp only [t₁, RbRoot.setChild, RbRoot.cell_modify_same, own, setChild_other_nodeOf]
    rw [RbRoot.setParent, RbRoot.cell_modify_same, kept, setParent_nodeOf]
  · exact first.congr fun p member => outside p (apart.nears p member)
  · have kept : Spells t₁.cell (some y) inner :=
      second.congr fun p member => step₁ p (apart.inners p member).1
    refine (kept.setParentOf apart.once).congr fun p member => ?_
    obtain ⟨first, second, outer⟩ := apart.inners p member
    rw [step₅ p first, step₄ p outer, step₃ p second]
  · exact third.congr fun p member => outside p (apart.fars p member)
  · rw [top_join]
    have kept : SpellsFrames t₃.cell ctx (some x) := frames.congr fun p member => by
      obtain ⟨first, second, inside⟩ := apart.frames p member
      rw [step₃ p second, step₂ p inside, step₁ p first]
    have linked : SpellsFrames t₄.cell ctx (some y) :=
      kept.setLink apart.framesOnce apart.first.2
    refine linked.congr fun p member => ?_
    exact step₅ p (apart.frames p member).1
  · rw [toList_rotate]
    exact nodup

end Writes

section Reads

variable {t : RbRoot P} {u near far : SearchTree P} {ctx : List (Frame P)} {f : Frame P} {x : P}

namespace Spelled

/-- What the root of a subtree points to. -/
theorem cell {side : Side} {red : Bool} (spelled : Spelled t ctx (join side red x near far)) :
    t.cell x = nodeOf side (above ctx) red near.top far.top := (spells_join.mp spelled.sub).1

/-- The parent of the root of a subtree, and its colour. -/
theorem parent (spelled : Spelled t ctx u) (top : u.top = some x) :
    (t.cell x).parent = above ctx ∧ (t.cell x).red = u.isRed := by
  cases u with
  | leaf => cases top
  | node red left item right =>
    cases top
    rw [spelled.sub.1]
    exact ⟨rfl, rfl⟩

/-- What the node above a subtree points to. -/
theorem frame (spelled : Spelled t (f :: ctx) u) :
    t.cell f.item = nodeOf f.side (above ctx) f.red u.top f.sibling.top := spelled.frames.1

/-- The root of a subtree is not the one of the sibling. -/
theorem apart (spelled : Spelled t (f :: ctx) u) (top : u.top = some x) :
    f.sibling.top ≠ some x := fun same =>
  (List.nodup_append.mp spelled.nodup).2.2 x (mem_of_top top) x
    (by simp [frameItems, mem_of_top same]) rfl

/-- On which side of the node above a subtree is. -/
theorem sideOf [DecidableEq P] (spelled : Spelled t (f :: ctx) u) (top : u.top = some x) :
    (if some x = (t.cell f.item).left then Side.left else .right) = f.side := by
  have apart := spelled.apart top
  rw [spelled.frame, top]
  cases side : f.side
  · exact if_pos rfl
  · exact if_neg fun same => apart same.symm

/-- The root of a subtree is made black. -/
theorem blacken [DecidableEq P] (spelled : Spelled t ctx u) (top : u.top = some x) :
    Spelled (t.setColor x false) ctx u.blacken := by
  cases u with
  | leaf => cases top
  | node red left item right =>
    cases top
    have seen : Spelled t ctx (join .left red x left right) := spelled
    exact seen.setColor false

end Spelled

/-- The uncle is not red. -/
theorem uncle_black {side : Side} {red : Bool} {uncle : SearchTree P}
    (spelled : Spelled t ctx (join side red x u uncle))
    (black : uncle.isRed = false) :
    ((t.cell x).child side.other).filter (fun uncle => (t.cell uncle).red) = none := by
  rw [spelled.cell, child_other_nodeOf]
  cases top : uncle.top with
  | none => rfl
  | some y =>
    have colour := ((spelled_far.mpr spelled).parent top).2
    rw [Option.filter_some, if_neg]
    rw [colour, black]
    decide

/-- The link to a subtree. -/
def linkOf : List (Frame P) → RbLink P
  | [] => .root
  | f :: _ => .child f.side f.item

/-- The node that the link to a subtree points to. -/
theorem Spelled.get_linkOf (spelled : Spelled t ctx u) : (linkOf ctx).get t = u.top := by
  cases ctx with
  | nil => exact spelled.root
  | cons f ctx => rw [linkOf, RbLink.get, spelled.frame, child_nodeOf]

/-- A lookup finds what the search in the tree finds. -/
theorem rbLookup_spelled {compare : P → Except Fault Int} {rounds : Nat}
    (spelled : Spelled t ctx u) (enough : u.height < rounds) :
    rbLookup compare rounds u.top t = u.find compare := by
  obtain ⟨rounds, rfl⟩ := Nat.exists_eq_succ_of_ne_zero (Nat.ne_zero_of_lt enough)
  induction u generalizing ctx rounds with
  | leaf => rfl
  | node red left item right ihLeft ihRight =>
    simp only [height] at enough
    obtain ⟨rounds, rfl⟩ := Nat.exists_eq_succ_of_ne_zero (n := rounds) (by omega)
    have lower : Spelled t (⟨.left, red, item, right⟩ :: ctx) left := spelled_cons.mpr spelled
    have upper : Spelled t (⟨.right, red, item, left⟩ :: ctx) right := spelled_cons.mpr spelled
    have first := ihLeft lower rounds (by omega)
    have second := ihRight upper rounds (by omega)
    have own : t.cell item = nodeOf .left (above ctx) red left.top right.top := spelled.sub.1
    rw [top, rbLookup, find]
    refine bind_congr_ok fun ret _ => ?_
    rw [own]
    split
    · exact first
    · split
      · exact second
      · rfl

/-- The way down on a side leads to the node at that end of the sequence. -/
theorem rbDescend_spelled {rounds : Nat} (side : Side) (spelled : Spelled t ctx u)
    (top : u.top = some x) (enough : u.height ≤ rounds) :
    ∃ y, rbDescend side rounds x t = .ok y ∧ (u.inOrder side).getLast? = some y := by
  induction rounds generalizing u ctx x with
  | zero =>
    obtain ⟨red, near, far, rfl⟩ := eq_join_of_top top side
    rw [height_join] at enough
    omega
  | succ rounds ih =>
    obtain ⟨red, near, far, rfl⟩ := eq_join_of_top top side
    rw [height_join] at enough
    have child : (t.cell x).child side = near.top := by rw [spelled.cell, child_nodeOf]
    rw [rbDescend, child, inOrder_join]
    cases top' : near.top with
    | none =>
      refine ⟨x, rfl, ?_⟩
      cases near with
      | leaf => cases side <;> simp [inOrder, toList]
      | node _ _ _ _ => cases top'
    | some z =>
      have below : Spelled t (⟨side, red, x, far⟩ :: ctx) near := spelled_cons.mpr spelled
      obtain ⟨y, found, last⟩ := ih below top' (by omega)
      refine ⟨y, found, ?_⟩
      rw [List.getLast?_append, List.getLast?_cons, last]
      rfl

/-- The way up leads to the node that is next beyond a subtree. -/
theorem rbClimb_spelled [DecidableEq P] {rounds : Nat} (side : Side) (spelled : Spelled t ctx u)
    (top : u.top = some x) (enough : ctx.length < rounds) :
    rbClimb side rounds x t = .ok (beyond side ctx).head? := by
  obtain ⟨rounds, rfl⟩ := Nat.exists_eq_succ_of_ne_zero (Nat.ne_zero_of_lt enough)
  induction ctx generalizing u x rounds with
  | nil =>
    rw [rbClimb, (spelled.parent top).1]
    rfl
  | cons f ctx ih =>
    have parent : (t.cell x).parent = some f.item := (spelled.parent top).1
    rw [rbClimb, parent, beyond]
    by_cases same : f.side = side
    · have child : (t.cell f.item).child side = some x := by
        rw [spelled.frame, same, child_nodeOf, top]
      simp only [List.length_cons] at enough
      obtain ⟨rounds, rfl⟩ := Nat.exists_eq_succ_of_ne_zero (n := rounds) (by omega)
      rw [if_pos same]
      exact (if_pos child).trans (ih (spelled_cons.mp spelled) (top_join ..) rounds (by omega))
    · have other : (t.cell f.item).child side ≠ some x := by
        rw [spelled.frame, Side.eq_other_of_ne same, nodeOf_other, child_nodeOf]
        exact spelled.apart top
      rw [if_neg same]
      exact if_neg other

/-- A walk goes to the next node of the sequence. -/
theorem rbWalk_spelled [DecidableEq P] {rounds : Nat} {side : Side} {red : Bool}
    (spelled : Spelled t ctx (join side red x near far)) (above : ctx.length < rounds)
    (below : near.height ≤ rounds) :
    rbWalk side rounds x t = .ok (near.inOrder side ++ beyond side ctx).head? := by
  have parent : (t.cell x).parent ≠ some x := by
    rw [spelled.cell, parent_nodeOf]
    cases ctx with
    | nil => exact fun same => by cases same
    | cons f ctx =>
      intro same
      have twice : x = f.item := (Option.some.inj same).symm
      exact (List.nodup_append.mp spelled.nodup).2.2 x (mem_of_top (top_join ..)) x
        (by simp [frameItems, twice]) rfl
  have child : (t.cell x).child side = near.top := by rw [spelled.cell, child_nodeOf]
  rw [rbWalk, if_neg parent, child]
  cases top : near.top with
  | none =>
    cases near with
    | leaf => simpa using rbClimb_spelled side spelled (top_join ..) above
    | node _ _ _ _ => cases top
  | some c =>
    have lower : Spelled t (⟨side, red, x, far⟩ :: ctx) near := spelled_cons.mpr spelled
    obtain ⟨y, found, last⟩ := rbDescend_spelled side.other lower top below
    rw [inOrder_other, List.getLast?_reverse] at last
    simp [found, last]

/-- What the loop of an insertion finds, beside what a link in the subtree gives. -/
inductive Places (ctx : List (Frame P)) (u : SearchTree P) (new : P) :
    Except Fault (Option (SearchTree P)) → Except Fault (Option (Option P × RbLink P)) → Prop
  | fault (e : Fault) : Places ctx u new (.error e) (.error e)
  | refused : Places ctx u new (.ok none) (.ok none)
  | free (ctx' : List (Frame P)) (linked : SearchTree P) : plug ctx' .leaf = plug ctx u →
      plug ctx' (.node true .leaf new .leaf) = plug ctx linked →
      Places ctx u new (.ok (some linked)) (.ok (some (above ctx', linkOf ctx')))

/-- The loop of an insertion finds the place where the new item is linked. -/
theorem rbPlace_spelled (compare : P → Except Fault Int) (new : P) {rounds : Nat}
    (spelled : Spelled t ctx u) (enough : u.height < rounds) :
    Places ctx u new (u.link compare new) (rbPlace compare rounds (above ctx) (linkOf ctx) t) := by
  obtain ⟨rounds, rfl⟩ := Nat.exists_eq_succ_of_ne_zero (Nat.ne_zero_of_lt enough)
  induction u generalizing ctx rounds with
  | leaf =>
    rw [rbPlace, spelled.get_linkOf]
    exact .free ctx _ rfl rfl
  | node red left item right ihLeft ihRight =>
    have found : (linkOf ctx).get t = some item := spelled.get_linkOf
    simp only [height] at enough
    obtain ⟨rounds, rfl⟩ := Nat.exists_eq_succ_of_ne_zero (n := rounds) (by omega)
    have lower : Spelled t (⟨.left, red, item, right⟩ :: ctx) left := spelled_cons.mpr spelled
    have upper : Spelled t (⟨.right, red, item, left⟩ :: ctx) right := spelled_cons.mpr spelled
    have first := ihLeft lower rounds (by omega)
    have second := ihRight upper rounds (by omega)
    have step : rbPlace compare (rounds + 1 + 1) (above ctx) (linkOf ctx) t = (do
        let ret ← compare item
        if ret < 0 then
          rbPlace compare (rounds + 1) (above (⟨.left, red, item, right⟩ :: ctx))
            (linkOf (⟨.left, red, item, right⟩ :: ctx)) t
        else if 0 < ret then
          rbPlace compare (rounds + 1) (above (⟨.right, red, item, left⟩ :: ctx))
            (linkOf (⟨.right, red, item, left⟩ :: ctx)) t
        else pure none) := by
      rw [rbPlace, found]
      rfl
    rw [step, link]
    cases compare item with
    | error e => exact .fault e
    | ok ret =>
      simp only [ok_bind]
      split
      · revert first
        generalize left.link compare new = below, rbPlace _ _ _ _ _ = place
        intro first
        cases first with
        | fault e => exact .fault e
        | refused => exact .refused
        | free ctx' linked same same' => exact .free ctx' _ same same'
      · split
        · revert second
          generalize right.link compare new = below, rbPlace _ _ _ _ _ = place
          intro second
          cases second with
          | fault e => exact .fault e
          | refused => exact .refused
          | free ctx' linked same same' => exact .free ctx' _ same same'
        · exact .refused

/-- A tree that is no leaf has a root. -/
theorem exists_top (node : u ≠ .leaf) : ∃ y, u.top = some y := by
  cases u with
  | leaf => exact absurd rfl node
  | node _ _ item _ => exact ⟨item, rfl⟩

/-- The root of a red tree. -/
theorem top_of_red (isRed : u.isRed = true) : ∃ y, u.top = some y := by
  cases u with
  | leaf => cases isRed
  | node _ _ item _ => exact ⟨item, rfl⟩

end Reads

section Insertion

variable [DecidableEq P] {t : RbRoot P} {u sibling uncle : SearchTree P} {ctx : List (Frame P)}
  {side side' : Side} {red : Bool} {x p g : P}

/-- A round with a red uncle. -/
theorem rbInsertColorStep_recolour
    (spelled : Spelled t (⟨side, true, p, sibling⟩ :: ⟨side', red, g, uncle⟩ :: ctx) u)
    (isRed : uncle.isRed = true) : ∃ t', rbInsertColorStep side' x p g t = .ok (g, t') ∧
      Spelled t' ctx (join side' true g (join side false p u sibling) uncle.blacken) := by
  have whole : Spelled t ctx (join side' red g (join side true p u sibling) uncle) :=
    spelled_cons.mp (spelled_cons.mp spelled)
  obtain ⟨y, top⟩ := top_of_red isRed
  have far : Spelled t (⟨side'.other, red, g, join side true p u sibling⟩ :: ctx) uncle :=
    spelled_far.mpr whole
  have child : (t.cell g).child side'.other = some y := by
    rw [whole.cell, child_other_nodeOf, top]
  have colour : (t.cell y).red = true := (far.parent top).2.trans isRed
  have first : Spelled _ (⟨side', red, g, uncle.blacken⟩ :: ctx) (join side true p u sibling) :=
    spelled_cons.mpr (spelled_far.mp (far.blacken top))
  have second : Spelled _ ctx (join side' red g (join side false p u sibling) uncle.blacken) :=
    spelled_cons.mp (first.setColor false)
  refine ⟨_, ?_, second.setColor true⟩
  rw [rbInsertColorStep, child, Option.filter_some, if_pos colour]
  rfl

/-- A round with a node on the outside. -/
theorem rbInsertColorStep_outer
    (spelled : Spelled t (⟨side', true, p, sibling⟩ :: ⟨side', red, g, uncle⟩ :: ctx) u)
    (top : u.top = some x) (black : uncle.isRed = false) :
    ∃ t', rbInsertColorStep side' x p g t = .ok (x, t') ∧
      Spelled t' ctx (join side' false p u (join side' true g sibling uncle)) := by
  have parent : Spelled t (⟨side', red, g, uncle⟩ :: ctx) (join side' true p u sibling) :=
    spelled_cons.mp spelled
  have whole : Spelled t ctx (join side' red g (join side' true p u sibling) uncle) :=
    spelled_cons.mp parent
  have outside : (t.cell p).child side'.other ≠ some x := by
    rw [parent.cell, child_other_nodeOf]
    exact spelled.apart top
  have first : Spelled _ ctx (join side' red g (join side' false p u sibling) uncle) :=
    spelled_cons.mp (parent.setColor false)
  have second : Spelled ((t.setColor p false).setColor g true) ctx
      (join side'.other true g uncle (join side'.other false p sibling u)) := by
    rw [join_other, join_other]
    exact first.setColor true
  obtain ⟨t', rotated, after⟩ := second.rotate
  refine ⟨t', ?_, ?_⟩
  · rw [rbInsertColorStep, uncle_black whole black]
    simp only [if_neg outside, pure_bind, rotated, ok_bind]
    rfl
  · rw [join_other, join_other] at after
    exact after

/-- A round with a node on the inside. -/
theorem rbInsertColorStep_inner {c : Bool} {near far : SearchTree P}
    (spelled : Spelled t (⟨side'.other, true, p, sibling⟩ :: ⟨side', red, g, uncle⟩ :: ctx)
      (join side' c x near far)) (black : uncle.isRed = false) :
    ∃ t', rbInsertColorStep side' x p g t = .ok (p, t') ∧
      Spelled t' ctx (join side' false x (join side' true p sibling near)
        (join side' true g far uncle)) := by
  have parent : Spelled t (⟨side', red, g, uncle⟩ :: ctx)
      (join side' true p sibling (join side' c x near far)) := spelled_far.mp spelled
  have whole : Spelled t ctx (join side' red g
      (join side' true p sibling (join side' c x near far)) uncle) := spelled_cons.mp parent
  have inside : (t.cell p).child side'.other = some x := by
    rw [parent.cell, child_other_nodeOf, top_join]
  obtain ⟨t₁, rotated, up⟩ := parent.rotate
  have first : Spelled _ ctx (join side' red g
      (join side' false x (join side' true p sibling near) far) uncle) :=
    spelled_cons.mp (up.setColor false)
  have second : Spelled ((t₁.setColor x false).setColor g true) ctx
      (join side'.other true g uncle (join side'.other false x far
        (join side' true p sibling near))) := by
    rw [join_other, join_other]
    exact first.setColor true
  obtain ⟨t', rotated', after⟩ := second.rotate
  refine ⟨t', ?_, ?_⟩
  · rw [rbInsertColorStep, uncle_black whole black]
    simp only [if_pos inside, rotated, ok_bind, pure_bind, rotated']
    rfl
  · rw [join_other, join_other] at after
    exact after

/-- The loop ends at a node that has no red parent. -/
theorem rbInsertColorLoop_ends (spelled : Spelled t ctx u) (top : u.top = some x)
    (black : ∀ f ∈ ctx.head?, f.red = false) (rounds : Nat) :
    rbInsertColorLoop (rounds + 1) x t = .ok t := by
  rw [rbInsertColorLoop, (spelled.parent top).1]
  cases ctx with
  | nil => rfl
  | cons f ctx =>
    have colour : (t.cell f.item).red = false := by
      rw [spelled.frame, red_nodeOf]
      exact black f rfl
    simp [above, colour]

/-- A round under a red parent. -/
theorem rbInsertColorLoop_step {t' : RbRoot P} {next : P}
    (spelled : Spelled t (⟨side, true, p, sibling⟩ :: ⟨side', red, g, uncle⟩ :: ctx) u)
    (top : u.top = some x) (step : rbInsertColorStep side' x p g t = .ok (next, t'))
    (rounds : Nat) :
    rbInsertColorLoop (rounds + 1) x t = rbInsertColorLoop rounds next t' := by
  have parent : Spelled t (⟨side', red, g, uncle⟩ :: ctx) (join side true p u sibling) :=
    spelled_cons.mp spelled
  have above₁ : (t.cell x).parent = some p := (spelled.parent top).1
  have above₂ : (t.cell p).parent = some g := by rw [parent.cell, parent_nodeOf, above]
  have colour : (t.cell p).red = true := by rw [parent.cell, red_nodeOf]
  have found := parent.sideOf (top_join ..)
  rw [rbInsertColorLoop, above₁]
  simp only [colour, if_true, above₂, deref_some, ok_bind, found, step]

/-- The loop of `rb_insert_color` repairs the tree at a red node. -/
theorem rbInsertColorLoop_spelled {n rounds : Nat} (spelled : Spelled t ctx u)
    (top : u.top = some x) (accepts : Accepts ctx false n) (enough : ctx.length < rounds) :
    ∃ t', rbInsertColorLoop rounds x t = .ok t' ∧ Spelled t' [] (fixRed ctx u) := by
  obtain ⟨rounds, rfl⟩ := Nat.exists_eq_succ_of_ne_zero (Nat.ne_zero_of_lt enough)
  fun_induction fixRed ctx u generalizing t x n rounds with
  | case1 side' p sibling side'' red g uncle rest u recolour ih =>
    obtain ⟨t', step, after⟩ := rbInsertColorStep_recolour (x := x) spelled recolour
    rw [rbInsertColorLoop_step spelled top step]
    cases accepts with
    | red _ accepts =>
      cases accepts with
      | black _ _ accepts =>
        simp only [List.length_cons] at enough
        obtain ⟨rounds, rfl⟩ := Nat.exists_eq_succ_of_ne_zero (n := rounds) (by omega)
        exact ih after (top_join ..) accepts rounds (by omega)
  | case2 p sibling side' red g uncle rest u black =>
    obtain ⟨t', step, after⟩ := rbInsertColorStep_outer spelled top (by simpa using black)
    rw [rbInsertColorLoop_step spelled top step]
    simp only [List.length_cons] at enough
    obtain ⟨rounds, rfl⟩ := Nat.exists_eq_succ_of_ne_zero (n := rounds) (by omega)
    have ended : Spelled t' (⟨side', false, p, join side' true g sibling uncle⟩ :: rest) u :=
      spelled_cons.mpr after
    refine ⟨t', rbInsertColorLoop_ends ended top (fun f first => ?_) rounds, spelled_plug.mp after⟩
    cases first
    rfl
  | case3 side' p sibling side'' red g uncle rest u black apart colour y inner outer parts =>
    have shape := eq_join parts
    subst shape
    rw [top_join] at top
    cases top
    rw [Side.eq_other_of_ne apart] at spelled
    obtain ⟨t', step, after⟩ := rbInsertColorStep_inner spelled (by simpa using black)
    rw [rbInsertColorLoop_step spelled (top_join ..) step]
    simp only [List.length_cons] at enough
    obtain ⟨rounds, rfl⟩ := Nat.exists_eq_succ_of_ne_zero (n := rounds) (by omega)
    have ended : Spelled t' (⟨side'', false, y, join side'' true g outer uncle⟩ :: rest)
        (join side'' true p sibling inner) := spelled_cons.mpr after
    refine ⟨t', rbInsertColorLoop_ends ended (top_join ..) (fun f first => ?_) rounds,
      spelled_plug.mp after⟩
    cases first
    rfl
  | case4 side' p sibling side'' red g uncle rest u black apart parts =>
    rw [eq_leaf parts] at top
    cases top
  | case5 ctx u other =>
    refine ⟨t, rbInsertColorLoop_ends spelled top (fun f first => ?_) rounds,
      spelled_plug.mp spelled⟩
    cases accepts with
    | root => cases first
    | red _ accepts =>
      cases accepts with
      | black _ _ _ => exact (other _ _ _ _ _ _ _ _ rfl).elim
    | black _ _ _ =>
      cases first
      rfl

/-- `rb_insert_color` repairs the tree at a red node. -/
theorem rbInsertColor_spelled {n rounds : Nat} (spelled : Spelled t ctx u) (top : u.top = some x)
    (accepts : Accepts ctx false n) (enough : ctx.length < rounds) :
    ∃ t', rbInsertColor rounds x t = .ok t' ∧ Spelled t' [] (fixRed ctx u).blacken := by
  obtain ⟨t', ran, after⟩ := rbInsertColorLoop_spelled spelled top accepts enough
  obtain ⟨root, same⟩ : ∃ root, (fixRed ctx u).top = some root := by
    cases whole : fixRed ctx u with
    | leaf =>
      cases u with
      | leaf => cases top
      | node red left item right =>
        have inside := mem_plug ctx red left item right
        rw [← toList_fixRed, whole] at inside
        cases inside
    | node _ _ item _ => exact ⟨item, rfl⟩
  have found : t'.rbNode = some root := after.root.trans same
  refine ⟨t'.setColor root false, ?_, after.blacken same⟩
  simp only [rbInsertColor, ran, ok_bind, found, deref_some]
  rfl

/-- A new node takes the place of a leaf. -/
theorem Spelled.linkNode (spelled : Spelled t ctx .leaf) (new : x ∉ frameItems ctx) :
    Spelled (rbLinkNode x (above ctx) (linkOf ctx) t) ctx (.node true .leaf x .leaf) := by
  obtain ⟨root, -, frames, nodup⟩ := spelled
  have nodup' : (x :: frameItems ctx).Nodup := List.nodup_cons.mpr ⟨new, nodup⟩
  cases ctx with
  | nil => exact ⟨rfl, ⟨if_pos rfl, trivial, trivial⟩, trivial, nodup'⟩
  | cons f ctx =>
    obtain ⟨own, sibling, rest⟩ := frames
    have apart : ∀ p ∈ frameItems (f :: ctx), p ≠ x := fun p member same => new (same ▸ member)
    have self := apart f.item List.mem_cons_self
    have once := (List.nodup_cons.mp nodup).1
    let t₁ := t.modify x fun _ => { parent := some f.item, red := true, left := none, right := none }
    have before : ∀ p ∈ frameItems (f :: ctx), t₁.cell p = t.cell p := fun p member =>
      RbRoot.cell_modify_ne _ (apart p member)
    have outside : ∀ p ∈ f.sibling.toList ++ frameItems ctx,
        (t₁.setChild f.side f.item (some x)).cell p = t.cell p := fun p member => by
      have other : p ≠ f.item := fun same => once (same ▸ member)
      rw [RbRoot.setChild, RbRoot.cell_modify_ne _ other,
        before p (List.mem_cons_of_mem _ member)]
    refine ⟨root.trans (top_plug_of_ne (List.cons_ne_nil f ctx)), ⟨?_, trivial, trivial⟩,
      ⟨?_, ?_, ?_⟩, nodup'⟩
    · change (t₁.setChild f.side f.item (some x)).cell x = _
      rw [RbRoot.setChild, RbRoot.cell_modify_ne _ self.symm]
      exact RbRoot.cell_modify_same _
    · change (t₁.setChild f.side f.item (some x)).cell f.item = _
      rw [RbRoot.setChild, RbRoot.cell_modify_same, before f.item List.mem_cons_self, own,
        setChild_nodeOf]
      rfl
    · exact sibling.congr fun p member => outside p (List.mem_append_left _ member)
    · exact rest.congr fun p member => outside p (List.mem_append_right _ member)

/-- `rb_insert_color` after a link repairs the tree. -/
theorem rbInsertColor_linked {n rounds : Nat} (spelled : Spelled t ctx .leaf)
    (new : x ∉ frameItems ctx) (balanced : (plug ctx (.leaf : SearchTree P)).Balanced false n)
    (enough : ctx.length < rounds) :
    ∃ t', rbInsertColor rounds x (rbLinkNode x (above ctx) (linkOf ctx) t) = .ok t' ∧
      Spelled t' [] (redBlack.insertColor x (plug ctx (.node true .leaf x .leaf))) := by
  have linked := spelled.linkNode new
  have nodup := (spelled_plug.mp linked).nodup
  obtain ⟨c, k, own, accepts⟩ := balanced.of_plug
  cases own
  rw [redBlack_insertColor (by simpa [frameItems] using nodup)]
  exact rbInsertColor_spelled linked rfl accepts enough

end Insertion

/-- The frames below which a node is are fewer than the tree is high. -/
theorem length_lt_height {ctx : List (Frame P)} {red : Bool} {p : P} {left right : SearchTree P} :
    ctx.length < (plug ctx (.node red left p right)).height := by
  have high := length_add_height_le ctx (.node red left p right)
  simp only [height] at high
  omega

/-- The items around a node whose next one takes its place. -/
structure Successor (left : SearchTree P) (old next : P) (rest : SearchTree P)
    (ctx : List (Frame P)) : Prop where
  nodes : old ≠ next
  outside : ∀ q ∈ old :: next :: (left.toList ++ rest.toList), q ∉ frameItems ctx
  inside : ∀ q ∈ left.toList ++ rest.toList, q ≠ old ∧ q ≠ next
  subtrees : ∀ q ∈ left.toList, q ∉ rest.toList
  once : rest.toList.Nodup
  framesOnce : (frameItems ctx).Nodup
  nodup : ∀ red, ((join .left red next left rest).toList ++ frameItems ctx).Nodup

/-- Where no item is twice. -/
theorem successor_of_nodup {left right rest : SearchTree P} {old next : P} {ctx : List (Frame P)}
    {red : Bool}
    (nodup : ((join .left red old left right).toList ++ frameItems ctx).Nodup)
    (sequence : right.toList = next :: rest.toList) : Successor left old next rest ctx := by
  have items := (perm_join ctx).nodup_iff.mp nodup
  simp only [sequence, List.nodup_append, List.nodup_cons, List.mem_append, List.mem_cons,
    List.cons_append] at items
  have whole : ∀ red, ((join .left red next left rest).toList ++ frameItems ctx).Nodup := by
    intro red
    rw [(perm_join ctx).nodup_iff]
    simp only [List.nodup_append, List.nodup_cons, List.mem_append, List.mem_cons]
    grind
  constructor
  · grind
  · simp only [List.mem_cons, List.mem_append]
    grind
  · simp only [List.mem_append]
    grind
  · grind
  · grind
  · grind
  · exact whole

section Removal

variable {t : RbRoot P} {u sibling near far : SearchTree P} {ctx : List (Frame P)} {side : Side}
  {red : Bool} {p o : P}

/-- The colour test of a subtree. -/
theorem Spelled.isBlack (spelled : Spelled t ctx u) : t.isBlack u.top = !u.isRed := by
  cases top : u.top with
  | none =>
    cases u with
    | leaf => rfl
    | node _ _ _ _ => cases top
  | some x => rw [RbRoot.isBlack, Option.all_some, (spelled.parent top).2]

/-- The colours of both subtrees of a node. -/
theorem Spelled.isBlack_both (spelled : Spelled t ctx (join side red o near far)) :
    (t.isBlack (t.cell o).left && t.isBlack (t.cell o).right) = (!near.isRed && !far.isRed) := by
  have lower : Spelled t (⟨side, red, o, far⟩ :: ctx) near := spelled_cons.mpr spelled
  have first : t.isBlack near.top = !near.isRed := lower.isBlack
  have second : t.isBlack far.top = !far.isRed := (spelled_far.mpr spelled).isBlack
  rw [spelled.cell]
  cases side
  · simp [nodeOf, first, second]
  · simp [nodeOf, first, second, Bool.and_comm]

/-- The root is in the frames. -/
theorem top_plug_frame (f : Frame P) (ctx : List (Frame P)) (u : SearchTree P) :
    ∃ r ∈ frameItems (f :: ctx), (plug (f :: ctx) u).top = some r := by
  induction ctx generalizing f u with
  | nil => exact ⟨f.item, List.mem_cons_self, top_join ..⟩
  | cons f' ctx ih =>
    obtain ⟨r, member, top⟩ := ih f' (join f.side f.red f.item u f.sibling)
    refine ⟨r, ?_, top⟩
    rw [frameItems]
    exact List.mem_cons_of_mem _ (List.mem_append_right _ member)

/-- Below a frame a subtree is not the whole tree. -/
theorem Spelled.not_root {f : Frame P} (spelled : Spelled t (f :: ctx) u) :
    u.top ≠ t.rbNode := by
  obtain ⟨r, member, top⟩ := top_plug_frame f ctx u
  rw [spelled.root, top]
  exact fun same => (List.nodup_append.mp spelled.nodup).2.2 r (mem_of_top same) r member rfl

variable [DecidableEq P]

/-- The end of the last round. -/
theorem rbEraseColorLast_spelled {c : Bool} {y : P}
    (spelled : Spelled t ctx (join side red p u (join side c o near far)))
    (top : far.top = some y) : ∃ t', rbEraseColorLast side p o t = .ok t' ∧
      Spelled t' ctx (join side red o (join side false p u near) far.blacken) := by
  have colour : (t.cell p).red = red := by rw [spelled.cell, red_nodeOf]
  have first : Spelled (t.setColor o red) ctx (join side red p u (join side red o near far)) :=
    spelled_far.mp ((spelled_far.mpr spelled).setColor red)
  have second : Spelled ((t.setColor o red).setColor p false) ctx
      (join side false p u (join side red o near far)) := first.setColor false
  have inner : Spelled ((t.setColor o red).setColor p false) (⟨side.other, false, p, u⟩ :: ctx)
      (join side red o near far) := spelled_far.mpr second
  have child : (((t.setColor o red).setColor p false).cell o).child side.other = some y := by
    rw [inner.cell, child_other_nodeOf, top]
  have third : Spelled (((t.setColor o red).setColor p false).setColor y false) ctx
      (join side false p u (join side red o near far.blacken)) :=
    spelled_far.mp (spelled_far.mp ((spelled_far.mpr inner).blacken top))
  obtain ⟨t', rotated, after⟩ := third.rotate
  refine ⟨t', ?_, after⟩
  simp only [rbEraseColorLast, colour, child, derefAsserted_some, ok_bind, rotated]

/-- A round with a black sibling. -/
theorem rbEraseColorBlack_spelled
    (spelled : Spelled t (⟨side, red, p, join side false o near far⟩ :: ctx) u) :
    ∃ t', rbEraseColorBlack side p o t =
        .ok ((rebalance side red p u (join side false o near far)).1, t') ∧
      Spelled t' ctx (rebalance side red p u (join side false o near far)).2 := by
  have whole : Spelled t ctx (join side red p u (join side false o near far)) :=
    spelled_cons.mp spelled
  have other : Spelled t (⟨side.other, red, p, u⟩ :: ctx) (join side false o near far) :=
    spelled_far.mpr whole
  have colours := other.isBlack_both
  have outer : t.isBlack ((t.cell o).child side.other) = !far.isRed := by
    rw [other.cell, child_other_nodeOf]
    exact (spelled_far.mpr other).isBlack
  cases isRed : far.isRed with
  | true =>
    obtain ⟨y, top⟩ := top_of_red isRed
    obtain ⟨t', ran, after⟩ := rbEraseColorLast_spelled whole top
    rw [rebalance_outer isRed]
    refine ⟨t', ?_, after⟩
    rw [rbEraseColorBlack, colours, outer, isRed, if_neg (by simp), if_neg (by simp), ran]
    rfl
  | false =>
    cases isRed' : near.isRed with
    | false =>
      rw [rebalance_up isRed' isRed]
      refine ⟨t.setColor o true, ?_, spelled_far.mp (other.setColor true)⟩
      rw [rbEraseColorBlack, colours, isRed, isRed', if_pos (by decide)]
      rfl
    | true =>
      obtain ⟨x, a, b, rfl⟩ := eq_join_of_red isRed' side
      rw [rebalance_inner isRed]
      have child : (t.cell o).child side = some x := by
        rw [other.cell, child_nodeOf, top_join]
      -- the subtree on the inside comes up
      have lower : Spelled t (⟨side, false, o, far⟩ :: ⟨side.other, red, p, u⟩ :: ctx)
          (join side true x a b) := spelled_cons.mpr other
      have inside : Spelled (t.setColor x false) (⟨side.other, red, p, u⟩ :: ctx)
          (join side false o (join side false x a b) far) :=
        spelled_cons.mp (lower.setColor false)
      have seen : Spelled ((t.setColor x false).setColor o true) (⟨side.other, red, p, u⟩ :: ctx)
          (join side.other true o far (join side.other false x b a)) := by
        rw [join_other, join_other]
        exact inside.setColor true
      obtain ⟨t₁, rotated, up⟩ := seen.rotate
      have turned : Spelled t₁ ctx (join side red p u
          (join side false x a (join side true o b far))) := by
        rw [join_other, join_other] at up
        exact spelled_far.mp up
      have next : (t₁.cell p).child side.other = some x := by
        rw [turned.cell, child_other_nodeOf, top_join]
      obtain ⟨t', ran, after⟩ := rbEraseColorLast_spelled turned (top_join ..)
      refine ⟨t', ?_, ?_⟩
      · rw [rbEraseColorBlack, colours, outer, isRed, isRed', if_neg (by simp), if_pos (by decide)]
        simp only [child, deref_some, ok_bind, rotated, next, ran]
        rfl
      · rw [blacken_join] at after
        exact after

/-- A round with a black sibling, from its start. -/
theorem rbEraseColorStep_black
    (spelled : Spelled t (⟨side, red, p, join side false o near far⟩ :: ctx) u) :
    ∃ t', rbEraseColorStep side p t =
        .ok ((rebalance side red p u (join side false o near far)).1, t') ∧
      Spelled t' ctx (rebalance side red p u (join side false o near far)).2 := by
  have whole : Spelled t ctx (join side red p u (join side false o near far)) :=
    spelled_cons.mp spelled
  have other : Spelled t (⟨side.other, red, p, u⟩ :: ctx) (join side false o near far) :=
    spelled_far.mpr whole
  have child : (t.cell p).child side.other = some o := by
    rw [whole.cell, child_other_nodeOf, top_join]
  have colour : (t.cell o).red = false := by rw [other.cell, red_nodeOf]
  obtain ⟨t', ran, after⟩ := rbEraseColorBlack_spelled spelled
  refine ⟨t', ?_, after⟩
  simp only [rbEraseColorStep, child, derefAsserted_some, ok_bind, colour, Bool.false_eq_true,
    if_false, ran]

/-- A round with a red sibling, whose subtrees are black. -/
theorem rbEraseColorStep_red {q : P} {a b : SearchTree P}
    (spelled : Spelled t (⟨side, red, p, join side true o (join side false q a b) far⟩ :: ctx) u) :
    ∃ t', rbEraseColorStep side p t =
        .ok ((rebalance side true p u (join side false q a b)).1, t') ∧
      Spelled t' (⟨side, false, o, far⟩ :: ctx)
        (rebalance side true p u (join side false q a b)).2 := by
  have whole : Spelled t ctx (join side red p u (join side true o (join side false q a b) far)) :=
    spelled_cons.mp spelled
  have other : Spelled t (⟨side.other, red, p, u⟩ :: ctx)
      (join side true o (join side false q a b) far) := spelled_far.mpr whole
  have child : (t.cell p).child side.other = some o := by
    rw [whole.cell, child_other_nodeOf, top_join]
  have colour : (t.cell o).red = true := by rw [other.cell, red_nodeOf]
  -- the sibling comes up, and one of its subtrees is the new sibling
  have first : Spelled (t.setColor o false) ctx
      (join side red p u (join side false o (join side false q a b) far)) :=
    spelled_far.mp (other.setColor false)
  obtain ⟨t₁, rotated, up⟩ := (first.setColor true).rotate
  have turned : Spelled t₁ (⟨side, false, o, far⟩ :: ctx)
      (join side true p u (join side false q a b)) := spelled_cons.mpr up
  have next : (t₁.cell p).child side.other = some q := by
    rw [turned.cell, child_other_nodeOf, top_join]
  obtain ⟨t', ran, after⟩ := rbEraseColorBlack_spelled (spelled_cons.mpr turned)
  refine ⟨t', ?_, after⟩
  simp only [rbEraseColorStep, child, derefAsserted_some, ok_bind, colour, if_true, rotated, next,
    deref_some, ran]

/-- The root of a subtree, if it has one, is made black. -/
theorem Spelled.setBlackOf (spelled : Spelled t ctx u) :
    Spelled (t.setBlackOf u.top) ctx u.blacken := by
  cases top : u.top with
  | none =>
    cases u with
    | leaf => exact spelled
    | node _ _ _ _ => cases top
  | some x => exact spelled.blacken top

/-- `__rb_erase_color` ends at a node that is red or the root. -/
theorem rbEraseColor_ends (spelled : Spelled t ctx u) (stops : u.isRed = true ∨ ctx = [])
    (rounds : Nat) : ∃ t', rbEraseColor (rounds + 1) u.top (above ctx) t = .ok t' ∧
      Spelled t' [] (plug ctx u.blacken) := by
  have ended : ¬ (t.isBlack u.top = true ∧ u.top ≠ t.rbNode) := by
    rw [spelled.isBlack]
    rcases stops with isRed | rfl
    · simp [isRed]
    · exact fun both => both.2 spelled.root.symm
  refine ⟨t.setBlackOf u.top, ?_, spelled_plug.mp spelled.setBlackOf⟩
  rw [rbEraseColor, rbEraseColorLoop, if_neg ended]
  rfl

/-- A round below a frame. -/
theorem rbEraseColor_round {f : Frame P} {t' : RbRoot P} {short : Bool}
    (spelled : Spelled t (f :: ctx) u) (black : ¬ u.isRed = true) (sibling : f.sibling ≠ .leaf)
    (step : rbEraseColorStep f.side f.item t = .ok (short, t')) (rounds : Nat) :
    rbEraseColor (rounds + 1) u.top (above (f :: ctx)) t =
      if short then rbEraseColor rounds (some f.item) (t'.cell f.item).parent t'
      else .ok (t'.setBlackOf t'.rbNode) := by
  have apart : f.sibling.top ≠ u.top := by
    cases top : u.top with
    | none =>
      cases parts : f.sibling with
      | leaf => exact absurd parts sibling
      | node _ _ _ _ => exact nofun
    | some x => exact spelled.apart top
  have side : (if (t.cell f.item).left = u.top then Side.left else .right) = f.side := by
    rw [spelled.frame]
    cases side : f.side
    · exact if_pos rfl
    · exact if_neg apart
  have goes : t.isBlack u.top = true ∧ u.top ≠ t.rbNode := by
    rw [spelled.isBlack, (Bool.not_eq_true _).mp black]
    exact ⟨rfl, spelled.not_root⟩
  rw [rbEraseColor, rbEraseColorLoop, if_pos goes, above]
  simp only [deref_some, ok_bind, side, step]
  cases short
  · rfl
  · rfl

/-- A round that goes on at the node above. -/
theorem rbEraseColor_up {f : Frame P} {t' : RbRoot P} {ctx' : List (Frame P)} {v : SearchTree P}
    (spelled : Spelled t (f :: ctx) u) (black : ¬ u.isRed = true) (sibling : f.sibling ≠ .leaf)
    (step : rbEraseColorStep f.side f.item t = .ok (true, t')) (after : Spelled t' ctx' v)
    (top : v.top = some f.item) (rounds : Nat) :
    rbEraseColor (rounds + 1) u.top (above (f :: ctx)) t =
      rbEraseColor rounds v.top (above ctx') t' := by
  rw [rbEraseColor_round spelled black sibling step, if_pos rfl, (after.parent top).1, top]

/-- A round that is the last one. -/
theorem rbEraseColor_done {f : Frame P} {t' : RbRoot P} {ctx' : List (Frame P)} {v : SearchTree P}
    (spelled : Spelled t (f :: ctx) u) (black : ¬ u.isRed = true) (sibling : f.sibling ≠ .leaf)
    (step : rbEraseColorStep f.side f.item t = .ok (false, t')) (after : Spelled t' ctx' v)
    (rounds : Nat) : ∃ t'', rbEraseColor (rounds + 1) u.top (above (f :: ctx)) t = .ok t'' ∧
      Spelled t'' [] (plug ctx' v).blacken := by
  refine ⟨_, rbEraseColor_round spelled black sibling step rounds, ?_⟩
  rw [after.root]
  exact (spelled_plug.mp after).setBlackOf

/-- `__rb_erase_color` repairs the tree at a subtree that is one black node short. -/
theorem rbEraseColor_spelled {d : Bool} {n rounds : Nat} (spelled : Spelled t ctx u)
    (accepts : Accepts ctx d (n + 1))
    (short : u.Balanced false n ∨ u.isRed = true ∧ u.blacken.Balanced false (n + 1))
    (enough : ctx.length < rounds) :
    ∃ t', rbEraseColor rounds u.top (above ctx) t = .ok t' ∧ Spelled t' [] (fixBlack ctx u) := by
  obtain ⟨rounds, rfl⟩ := Nat.exists_eq_succ_of_ne_zero (Nat.ne_zero_of_lt enough)
  fun_induction fixBlack ctx u generalizing t d n rounds with
  | case1 u => exact rbEraseColor_ends spelled (.inr rfl) rounds
  | case2 side red p sibling rest u isRed => exact rbEraseColor_ends spelled (.inl isRed) rounds
  | case3 side red p sibling rest u black o near far parts v up =>
    have balanced := short.resolve_right fun both => black both.1
    have shape := eq_join parts
    subst shape
    cases accepts with
    | red two _ => exact absurd two.of_red.1 (by decide)
    | black _ two above =>
      obtain ⟨-, first, second⟩ := two.of_red
      obtain ⟨q, a, b, rfl⟩ := first.eq_join side
      obtain ⟨t', step, after⟩ := rbEraseColorStep_red spelled
      rw [up] at step after
      have red := balanced_rebalance side true p balanced first
      rw [up] at red
      simp only [List.length_cons] at enough
      obtain ⟨rounds, rfl⟩ := Nat.exists_eq_succ_of_ne_zero (n := rounds) (by omega)
      rw [rbEraseColor_up spelled black (join_ne_leaf _ _ _ _ _) step after (top_rebalance up)]
      exact rbEraseColor_ends after (.inl red.1) rounds
  | case4 side red p sibling rest u black o near far parts v done =>
    have balanced := short.resolve_right fun both => black both.1
    have shape := eq_join parts
    subst shape
    cases accepts with
    | red two _ => exact absurd two.of_red.1 (by decide)
    | black _ two above =>
      obtain ⟨-, first, second⟩ := two.of_red
      obtain ⟨q, a, b, rfl⟩ := first.eq_join side
      obtain ⟨t', step, after⟩ := rbEraseColorStep_red spelled
      rw [done] at step after
      exact rbEraseColor_done spelled black (join_ne_leaf _ _ _ _ _) step after rounds
  | case5 side red p sibling rest u black v up parts ih =>
    have balanced := short.resolve_right fun both => black both.1
    obtain ⟨near, above⟩ := accepts.of_black parts
    obtain ⟨o, a, b, rfl⟩ := near.eq_join side
    obtain ⟨t', step, after⟩ := rbEraseColorStep_black spelled
    have high := balanced_rebalance side red p balanced near
    rw [up] at step after high
    simp only [List.length_cons] at enough
    obtain ⟨rounds, rfl⟩ := Nat.exists_eq_succ_of_ne_zero (n := rounds) (by omega)
    rw [rbEraseColor_up spelled black (join_ne_leaf _ _ _ _ _) step after (top_rebalance up)]
    obtain ⟨colour, high⟩ := high
    cases red with
    | true => exact ih after above (.inr ⟨colour, high⟩) rounds (by omega)
    | false =>
      rw [blacken_of_black colour] at high
      exact ih after above (.inl high) rounds (by omega)
  | case6 side red p sibling rest u black v done parts =>
    obtain ⟨near, -⟩ := accepts.of_black parts
    obtain ⟨o, a, b, rfl⟩ := near.eq_join side
    obtain ⟨t', step, after⟩ := rbEraseColorStep_black spelled
    rw [done] at step after
    exact rbEraseColor_done spelled black (join_ne_leaf _ _ _ _ _) step after rounds

/-- A node gives way to its only subtree. -/
theorem Spelled.giveWay (spelled : Spelled t ctx (join side red p .leaf u)) (side' : Side) :
    Spelled ((t.setParentOf u.top (above ctx)).setLink side' (above ctx) p u.top) ctx u := by
  obtain ⟨root, sub, frames, nodup⟩ := spelled
  obtain ⟨own, -, child⟩ := spells_join.mp sub
  rw [top_join] at frames
  have items := (perm_join ctx).nodup_iff.mp nodup
  obtain ⟨absent, rest⟩ := List.nodup_cons.mp items
  obtain ⟨once, framesOnce, apart⟩ := List.nodup_append.mp rest
  have outside : ∀ q ∈ u.toList, q ∉ frameItems ctx := fun q member member' =>
    apart q member q member' rfl
  have kept : SpellsFrames (t.setParentOf u.top (above ctx)).cell ctx (some p) :=
    frames.congr fun q member => RbRoot.cell_setParentOf fun inside => outside q inside member
  refine ⟨?_, ?_, ?_, rest⟩
  · rw [RbRoot.rbNode_setLink, RbRoot.rbNode_setParentOf, root]
    split
    · next empty => rw [empty, plug]
    · next inside => exact top_plug_of_ne inside
  · exact (child.setParentOf once).congr fun q member => RbRoot.cell_setLink (outside q member) ..
  · exact kept.setLink framesOnce fun member => absent (List.mem_append_right _ member)

/-- The subtree that took the place of its parent is repaired. -/
theorem splice_spelled {n rounds : Nat} (spelled : Spelled t ctx u) (accepts : Accepts ctx red n)
    (balanced : (join side red p .leaf u).Balanced red n) (enough : ctx.length < rounds) :
    ∃ t', (if red then Except.ok t else rbEraseColor rounds u.top (above ctx) t) = .ok t' ∧
      Spelled t' [] (splice red ctx u) := by
  cases red with
  | true => exact ⟨t, rfl, spelled_plug.mp spelled⟩
  | false =>
    obtain ⟨m, rfl, short⟩ := balanced.short
    exact rbEraseColor_spelled spelled accepts short enough

/-- Removing a node with at most one subtree. -/
theorem rbEraseOne_spelled {n rounds : Nat} (side : Side)
    (spelled : Spelled t ctx (join side red p .leaf u)) (accepts : Accepts ctx red n)
    (balanced : (join side red p .leaf u).Balanced red n) (enough : ctx.length < rounds) :
    ∃ t', rbEraseOne rounds p u.top t = .ok t' ∧ Spelled t' [] (splice red ctx u) := by
  have parent : (t.cell p).parent = above ctx := by rw [spelled.cell, parent_nodeOf]
  have colour : (t.cell p).red = red := by rw [spelled.cell, red_nodeOf]
  rw [rbEraseOne, parent, colour]
  exact splice_spelled (spelled.giveWay .left) accepts balanced enough

/-- What is there when a node takes the place of another one: everything but its own cell. -/
structure TwoChildren (t : RbRoot P) (ctx : List (Frame P)) (red : Bool) (left : SearchTree P)
    (old new : P) (right : SearchTree P) : Prop where
  root : t.rbNode = (plug ctx (.node red left new right)).top
  place : ∃ far, t.cell old = nodeOf .left (above ctx) red left.top far
  child : (t.cell new).right = right.top
  lefts : Spells t.cell (some old) left
  rights : Spells t.cell (some new) right
  frames : SpellsFrames t.cell ctx (some new)
  nodup : ((join .left red new left right).toList ++ frameItems ctx).Nodup

/-- A node takes a place that is prepared for it. -/
theorem TwoChildren.rbTakePlace {left right : SearchTree P} {old new : P}
    (prepared : TwoChildren t ctx red left old new right) (apart : old ≠ new) (two : left ≠ .leaf) :
    ∃ t', rbTakePlace old new t = .ok t' ∧ Spelled t' ctx (.node red left new right) := by
  obtain ⟨root, ⟨far, place⟩, child, lefts, rights, frames, nodup⟩ := prepared
  obtain ⟨l, top⟩ := exists_top two
  obtain ⟨once, rest, apart'⟩ := List.nodup_append.mp ((perm_join ctx).nodup_iff.mp nodup)
  have absent := (List.nodup_cons.mp rest).1
  let t₁ := ((t.setParent new (above ctx)).setColor new red).setChild .left new left.top
  have outside : ∀ q, q ≠ new → t₁.cell q = t.cell q := fun q other =>
    (if_neg other).trans ((if_neg other).trans (if_neg other))
  have own : t₁.cell new = nodeOf .left (above ctx) red left.top right.top := by
    simp only [t₁, RbRoot.setChild, RbRoot.setColor, RbRoot.setParent, RbRoot.cell_modify_same,
      RbNode.setChild, child, nodeOf]
  have kept : ∀ q ∈ right.toList ++ frameItems ctx,
      (t₁.setParentOf left.top (some new)).cell q = t.cell q := fun q member => by
    rw [RbRoot.cell_setParentOf fun inside =>
      apart' q inside q (List.mem_cons_of_mem _ member) rfl]
    exact outside q fun same => absent (same ▸ member)
  refine ⟨t₁.setParentOf left.top (some new), ?_, ?_, ⟨?_, ?_, ?_⟩, ?_, nodup⟩
  · have keep : ∀ (t : RbRoot P) f, (t.modify new f).cell old = t.cell old := fun t f =>
      RbRoot.cell_modify_ne f apart
    simp only [FlowerRoute.rbTakePlace, RbRoot.setParent, RbRoot.setColor, RbRoot.setChild, keep,
      place, parent_nodeOf, red_nodeOf]
    simp only [nodeOf, t₁, top, deref_some, ok_bind]
    rfl
  · exact (RbRoot.rbNode_setParentOf _).trans root
  · rw [RbRoot.cell_setParentOf fun inside => apart' new inside new List.mem_cons_self rfl, own]
  · have same : Spells t₁.cell (some old) left := lefts.congr fun q member =>
      outside q (apart' q member new List.mem_cons_self)
    exact same.setParentOf once
  · exact rights.congr fun q member => kept q (List.mem_append_left _ member)
  · exact frames.congr fun q member => kept q (List.mem_append_right _ member)

/-- The link from above leads to the node that takes the place. -/
theorem linked_root {left right u : SearchTree P} {old next : P}
    (root : t.rbNode = (plug ctx (.node red left old right)).top) :
    (t.setLink side (above ctx) old (some next)).rbNode =
      (plug ctx (.node red left next u)).top := by
  rw [RbRoot.rbNode_setLink, root]
  split
  · next empty =>
    rw [empty]
    rfl
  · next inside => exact top_plug_of_ne inside

/-- The next node takes the place of a node from the root of its right subtree. -/
theorem rbEraseTwo_near {left child : SearchTree P} {old next : P} {red' : Bool} {rounds : Nat}
    (two : left ≠ .leaf)
    (spelled : Spelled t ctx (.node red left old (.node red' .leaf next child)))
    (descent : rbDescend .left rounds next t = .ok next) :
    ∃ t', Spelled t' (⟨.right, red, next, left⟩ :: ctx) child ∧
      rbEraseTwo rounds old next t = if red' then .ok t' else
        rbEraseColor rounds child.top (above (⟨.right, red, next, left⟩ :: ctx)) t' := by
  obtain ⟨root, ⟨own, lefts, ⟨own', -, rights⟩⟩, frames, nodup⟩ := spelled
  have apart : Successor left old next child ctx := successor_of_nodup nodup rfl
  have kept : ∀ q ∈ old :: next :: (left.toList ++ child.toList),
      (t.setLink .left (above ctx) old (some next)).cell q = t.cell q := fun q member =>
    RbRoot.cell_setLink (apart.outside q member) ..
  have parent : (t.cell old).parent = above ctx := by rw [own, parent_nodeOf]
  have moved := (kept next (by simp)).trans own'
  have prepared : TwoChildren (t.setLink .left (above ctx) old (some next)) ctx red left old next
      child := {
    root := linked_root root
    place := ⟨_, (kept old (by simp)).trans own⟩
    child := by rw [moved]; rfl
    lefts := lefts.congr fun q member => kept q (by simp [member])
    rights := rights.congr fun q member => kept q (by simp [member])
    frames := frames.setLink apart.framesOnce (apart.outside old (by simp))
    nodup := apart.nodup red }
  obtain ⟨t', ran, after⟩ := prepared.rbTakePlace apart.nodes two
  refine ⟨t', spelled_cons.mpr after, ?_⟩
  simp only [rbEraseTwo, descent, ok_bind, parent, moved, parent_nodeOf, red_nodeOf, if_true,
    pure_bind, ran]
  rfl

/-- The next node leaves its place further down. -/
theorem Spelled.leave {left child : SearchTree P} {old next : P} {red' : Bool} {f : Frame P}
    {inner : List (Frame P)}
    (spelled : Spelled t ctx (.node red left old (plug (f :: inner) (.node red' .leaf next child))))
    (lefts : f.side = .left) :
    Spelled ((t.setParentOf child.top (some f.item)).setChild .left f.item child.top) ctx
      (.node red left old (plug (f :: inner) child)) := by
  have below : Spelled t (f :: inner ++ ⟨.right, red, old, left⟩ :: ctx)
      (join .left red' next .leaf child) := spelled_append.mpr (spelled_cons.mpr spelled)
  have gone := below.giveWay .left
  obtain ⟨-, -, ⟨own, -, -⟩, nodup⟩ := below
  obtain ⟨absent, rest⟩ := List.nodup_cons.mp ((perm_join _).nodup_iff.mp nodup)
  have outside : f.item ∉ child.toList := fun inside =>
    (List.nodup_append.mp rest).2.2 f.item inside f.item List.mem_cons_self rfl
  rw [show above (f :: inner ++ ⟨.right, red, old, left⟩ :: ctx) = some f.item from rfl,
    RbRoot.setLink_above ((RbRoot.cell_setParentOf outside).trans own) fun inside => absent
      (List.mem_append_right _ (List.mem_cons_of_mem _ (List.mem_append_left _ inside))),
    lefts] at gone
  exact spelled_cons.mp (spelled_append.mp gone)

/-- The next node takes the place of a node from further down. -/
theorem rbEraseTwo_far {left child : SearchTree P} {old next r : P} {red' : Bool} {rounds : Nat}
    {f : Frame P} {inner : List (Frame P)} (two : left ≠ .leaf)
    (spelled : Spelled t ctx (.node red left old (plug (f :: inner) (.node red' .leaf next child))))
    (lefts : f.side = .left)
    (sequence : (plug (f :: inner) (.node red' .leaf next child)).toList =
      next :: (plug (f :: inner) child).toList)
    (top : (plug (f :: inner) child).top = some r)
    (descent : rbDescend .left rounds r t = .ok next) :
    ∃ t', Spelled t' (f :: inner ++ ⟨.right, red, next, left⟩ :: ctx) child ∧
      rbEraseTwo rounds old r t = if red' then .ok t' else
        rbEraseColor rounds child.top (above (f :: inner)) t' := by
  obtain ⟨root, ⟨own, second, third⟩, frames, nodup⟩ := spelled.leave lefts
  have apart : Successor left old next (plug (f :: inner) child) ctx :=
    successor_of_nodup spelled.nodup sequence
  have below : Spelled t (f :: inner ++ ⟨.right, red, old, left⟩ :: ctx)
      (join .left red' next .leaf child) := spelled_append.mpr (spelled_cons.mpr spelled)
  -- the places of the nodes further down
  obtain ⟨before, after, around⟩ := plug_sequence (f :: inner)
  have children : ∀ q ∈ child.toList, q ∈ (plug (f :: inner) child).toList := fun q member => by
    simp [around, member]
  have parents : f.item ∈ (plug (f :: inner) child).toList := by
    rw [plug, lefts]
    exact mem_plug inner ..
  have inside : r ∈ (plug (f :: inner) child).toList := mem_of_top top
  have outside : ∀ q ∈ (plug (f :: inner) child).toList, q ∉ frameItems ctx := fun q member =>
    apart.outside q (by simp [member])
  have others : ∀ q ∈ (plug (f :: inner) child).toList, q ≠ old ∧ q ≠ next := fun q member =>
    apart.inside q (List.mem_append_right _ member)
  -- the pointer from above is written first, which is the same as writing it now
  let t₁ := ((t.setParentOf child.top (some f.item)).setChild .left f.item child.top).setLink .left
    (above ctx) old (some next)
  have early : ((t.setLink .left (above ctx) old (some next)).setParentOf child.top
      (some f.item)).setChild .left f.item child.top = t₁ := by
    rw [← RbRoot.setLink_setParentOf fun q member => outside q (children q member)]
    exact (RbRoot.setLink_modify (outside f.item parents) ..).symm
  have kept : ∀ q ∈ old :: next :: (left.toList ++ (plug (f :: inner) child).toList), t₁.cell q =
      ((t.setParentOf child.top (some f.item)).setChild .left f.item child.top).cell q :=
    fun q member => RbRoot.cell_setLink (apart.outside q member) ..
  have moved : (t.setLink .left (above ctx) old (some next)).cell next =
      nodeOf .left (some f.item) red' none child.top :=
    (RbRoot.cell_setLink (apart.outside next (by simp)) ..).trans below.cell
  have place : t₁.cell old = nodeOf .left (above ctx) red left.top (some r) :=
    (kept old (by simp)).trans (top ▸ own)
  -- and what is below the place comes under the next node
  let t₂ := (t₁.setChild .right next (some r)).setParent r (some next)
  have same : ∀ q, q ≠ r → q ≠ next → t₂.cell q = t₁.cell q := fun q first second =>
    (if_neg first).trans (if_neg second)
  have prepared : TwoChildren t₂ ctx red left old next (plug (f :: inner) child) := {
    root := linked_root root
    place := ⟨_, (same old (others r inside).1.symm apart.nodes).trans place⟩
    child := by
      have own : t₂.cell next = RbNode.setChild .right (some r) (t₁.cell next) :=
        (if_neg (others r inside).2.symm).trans (if_pos rfl)
      rw [own, top]
      rfl
    lefts := second.congr fun q member => by
      have other : q ≠ r := fun eq => apart.subtrees q member (eq ▸ inside)
      have other' := (apart.inside q (List.mem_append_left _ member)).2
      exact (same q other other').trans (kept q (by simp [member]))
    rights := by
      have linked : Spells (t₁.setChild .right next (some r)).cell (some old)
          (plug (f :: inner) child) := third.congr fun q member =>
        (if_neg (others q member).2).trans (kept q (by simp [member]))
      have raised : Spells ((t₁.setChild .right next (some r)).setParentOf
          (plug (f :: inner) child).top (some next)).cell (some next) (plug (f :: inner) child) :=
        linked.setParentOf apart.once
      rw [top] at raised
      exact raised
    frames := by
      have linked : SpellsFrames t₁.cell ctx (some next) :=
        frames.setLink apart.framesOnce (apart.outside old (by simp))
      exact linked.congr fun q member => same q (fun eq => outside r inside (eq ▸ member))
        fun eq => apart.outside next (by simp) (eq ▸ member)
    nodup := apart.nodup red }
  obtain ⟨t', ran, after⟩ := prepared.rbTakePlace apart.nodes two
  refine ⟨t', spelled_append.mpr (spelled_cons.mpr after), ?_⟩
  have parent : (t.cell old).parent = above ctx := by rw [spelled.sub.1, parent_nodeOf]
  have child' : ((t.setLink .left (above ctx) old (some next)).cell next).right = child.top := by
    rw [moved]
    rfl
  have parent' : ((t.setLink .left (above ctx) old (some next)).cell next).parent = some f.item :=
    by rw [moved, parent_nodeOf]
  have colour : ((t.setLink .left (above ctx) old (some next)).cell next).red = red' := by
    rw [moved, red_nodeOf]
  have right : (t₁.cell old).right = some r := by
    rw [place]
    rfl
  have right' : ((t₁.setChild .right next (some r)).cell old).right = some r := by
    rw [RbRoot.setChild, RbRoot.cell_modify_ne _ apart.nodes, right]
  have done : rbTakePlace old next ((t₁.setChild .right next (some r)).setParent r (some next)) =
    .ok t' := ran
  simp only [rbEraseTwo, descent, ok_bind, parent, child', parent', colour, Option.some.injEq,
    (others f.item parents).1, if_false, deref_some, pure_bind, early, right, right', done]
  rfl

/-- `rb_erase` removes a node and repairs the tree. -/
theorem rbErase_spelled {left right : SearchTree P} {n rounds : Nat}
    (spelled : Spelled t ctx (.node red left p right))
    (balanced : (plug ctx (.node red left p right)).Balanced false n)
    (enough : (plug ctx (.node red left p right)).height ≤ rounds) :
    ∃ t', rbErase rounds p t = .ok t' ∧
      Spelled t' [] (removeRoot ctx (.node red left p right)) := by
  obtain ⟨c, k, own, accepts⟩ := balanced.of_plug
  have colour : red = c := own.isRed_eq
  subst colour
  have cell : t.cell p = nodeOf .left (above ctx) red left.top right.top := spelled.sub.1
  have few : ctx.length < rounds := length_lt_height.trans_le enough
  by_cases first : left = .leaf
  · subst first
    rw [removeRoot_right]
    have one := rbEraseOne_spelled .left spelled accepts own few
    rw [rbErase, cell]
    exact one
  · obtain ⟨l, top⟩ := exists_top first
    by_cases second : right = .leaf
    · subst second
      rw [removeRoot_left first]
      have one := rbEraseOne_spelled .right spelled accepts own few
      rw [top] at one
      rw [rbErase, cell, top]
      exact one
    · obtain ⟨inner, red', next, child, same, whole, sequence⟩ := leftmost_split second
      obtain ⟨r, top'⟩ := exists_top second
      obtain ⟨k, own', accepts'⟩ := balanced.successor whole
      have below : Spelled t (⟨.right, red, p, left⟩ :: ctx) right := spelled_cons.mpr spelled
      have high := length_add_height_le ctx (.node red left p right)
      simp only [height] at high
      have descent : rbDescend .left rounds r t = .ok next := by
        have enough' : right.height ≤ rounds := by omega
        obtain ⟨y, found, last⟩ := rbDescend_spelled .left below top' enough'
        rw [inOrder, sequence, List.getLast?_reverse, List.head?_cons] at last
        rw [found, Option.some.inj last]
      have few' : (inner ++ ⟨.right, red, next, left⟩ :: ctx).length < rounds := by
        have less : inner.length < right.height := by
          rw [← whole]
          exact length_lt_height
        simp only [List.length_append, List.length_cons]
        omega
      have erased : ∃ t', Spelled t' (inner ++ ⟨.right, red, next, left⟩ :: ctx) child ∧
          rbEraseTwo rounds p r t = if red' then .ok t' else rbEraseColor rounds child.top
            (above (inner ++ ⟨.right, red, next, left⟩ :: ctx)) t' := by
        have lefts := leftmost_left [] right fun _ member => absurd member List.not_mem_nil
        rw [same] at lefts
        subst whole
        cases inner with
        | nil =>
          cases top'
          exact rbEraseTwo_near first spelled descent
        | cons f inner =>
          rw [top_plug_of_ne (List.cons_ne_nil f inner)] at top'
          exact rbEraseTwo_far first spelled (lefts f List.mem_cons_self) sequence top' descent
      obtain ⟨t', placed, ran⟩ := erased
      rw [removeRoot_two ctx red p first second, same, rbErase, cell, top, top']
      dsimp only [nodeOf]
      rw [ran]
      exact splice_spelled placed accepts' own' few'

end Removal

end FlowerRoute
