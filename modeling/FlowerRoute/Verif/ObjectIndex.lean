import FlowerRoute.Model.Neigh
import FlowerRoute.Verif.RouteLists
import Mathlib.Logic.Function.Basic

/-!
# What links, neighbours and routes are found by

The trees of links and of routes, the tables of neighbours and the keys in them. The functions on
rules and targets leave them alone, and reaping targets and routes only takes routes out of their
tree; what the functions on neighbours do is said exactly.
-/

namespace FlowerRoute

open Outcome

/-- The links with their tables of neighbours, without weak reference counts and without the lists
of targets. -/
structure Tables where
  link : LinkId → ObjLink
  neigh : NeighId → ObjNeigh
  nextLink : LinkId
  nextNeigh : NeighId
  linkTree : SearchTree LinkId
  linkCnt : Nat
  mode : ObjOperatingMode
  balancing : SearchTree.Balancing Nat

/-- The routes, without what they point to. -/
structure Routing where
  route : RouteId → ObjKind × AfAddr
  nextRoute : RouteId
  routeTree : SearchTree RouteId
  routeCnt : Nat
  balancing : SearchTree.Balancing Nat

/-- Both. -/
structure Index where
  tables : Tables
  routing : Routing

/-- A link without its weak references. -/
def ObjLink.entry (link : ObjLink) : ObjLink :=
  { link with obj := { link.obj with weakRefcnt := 0 } }

/-- A neighbour without its weak references and its targets. -/
def ObjNeigh.entry (neigh : ObjNeigh) : ObjNeigh :=
  { neigh with obj := { neigh.obj with weakRefcnt := 0 }, targets := [] }

/-- A route's key. -/
def ObjRoute.entry (route : ObjRoute) : ObjKind × AfAddr := (route.obj.kind, route.dst)

namespace World

variable (w : World)

/-- The links and neighbours of a world. -/
def tables : Tables where
  link l := (w.links.cell l).entry
  neigh n := (w.neighs.cell n).entry
  nextLink := w.links.next
  nextNeigh := w.neighs.next
  linkTree := w.linkTree
  linkCnt := w.linkCnt
  mode := w.mode
  balancing := w.balancing

/-- The routes of a world. -/
def routing : Routing where
  route r := (w.routes.cell r).entry
  nextRoute := w.routes.next
  routeTree := w.routeTree
  routeCnt := w.routeCnt
  balancing := w.balancing

/-- Both. -/
def index : Index := ⟨w.tables, w.routing⟩

end World

namespace Tables

variable (t : Tables)

/-- The comparison of `obj_link_lookup` and `obj_link_insert`. -/
def linkCompare (ifindex : Int) (this : LinkId) : Except Fault Int :=
  if (t.link this).obj.kind = .link then .ok (ifindex - (t.link this).ifindex)
  else .error .freedObject

/-- The comparison of `obj_neigh_fdb_lookup` and `obj_neigh_fdb_insert`. -/
def neighCompare (addr : AfAddr) (this : NeighId) : Except Fault Int :=
  if (t.neigh this).obj.kind = .neigh then .ok (addr.memcmp (t.neigh this).addr)
  else .error .freedObject

/-- Another link. -/
def setLink (l : LinkId) (link : ObjLink) : Tables :=
  { t with link := Function.update t.link l link }

/-- Another neighbour. -/
def setNeigh (n : NeighId) (neigh : ObjNeigh) : Tables :=
  { t with neigh := Function.update t.neigh n neigh }

@[simp] theorem link_setLink_same (l : LinkId) (link : ObjLink) :
    (t.setLink l link).link l = link := Function.update_self ..

theorem link_setLink_ne {l l' : LinkId} (link : ObjLink) (other : l' ≠ l) :
    (t.setLink l link).link l' = t.link l' := Function.update_of_ne other ..

@[simp] theorem neigh_setNeigh_same (n : NeighId) (neigh : ObjNeigh) :
    (t.setNeigh n neigh).neigh n = neigh := Function.update_self ..

theorem neigh_setNeigh_ne {n p : NeighId} (neigh : ObjNeigh) (other : p ≠ n) :
    (t.setNeigh n neigh).neigh p = t.neigh p := Function.update_of_ne other ..

@[simp] theorem setLink_setLink (l : LinkId) (link link' : ObjLink) :
    (t.setLink l link).setLink l link' = t.setLink l link' := by
  simp only [setLink, Function.update_idem]

@[simp] theorem setNeigh_setNeigh (n : NeighId) (neigh neigh' : ObjNeigh) :
    (t.setNeigh n neigh).setNeigh n neigh' = t.setNeigh n neigh' := by
  simp only [setNeigh, Function.update_idem]

@[simp] theorem setLink_link (l : LinkId) : t.setLink l (t.link l) = t := by
  rw [setLink, Function.update_eq_self]

@[simp] theorem setNeigh_neigh (n : NeighId) : t.setNeigh n (t.neigh n) = t := by
  rw [setNeigh, Function.update_eq_self]

/-- A new neighbour. -/
def addNeigh (neigh : ObjNeigh) : Tables :=
  { t.setNeigh t.nextNeigh neigh with nextNeigh := t.nextNeigh + 1 }

/-- A neighbour leaves the table of a link. -/
def unlinkNeigh (n : NeighId) (l : LinkId) : Tables :=
  (t.setLink l { t.link l with fdb := t.balancing.erase n (t.link l).fdb }).setNeigh n
    { t.neigh n with link := none }

/-- A neighbour is freed. -/
def freeNeigh (n : NeighId) : Tables :=
  t.setNeigh n { t.neigh n with obj := { kind := .unknown, state := .zombie } }

/-- A neighbour is reaped. -/
def reapNeigh (n : NeighId) : Tables :=
  match (t.neigh n).link with
  | none => t.freeNeigh n
  | some l => (t.unlinkNeigh n l).freeNeigh n

end Tables

namespace Routing

/-- The comparison of `obj_route_lookup` and `obj_route_insert`. -/
def compare (i : Routing) (dst : AfAddr) (this : RouteId) : Except Fault Int :=
  if (i.route this).1 = .route then .ok (dst.memcmp (i.route this).2)
  else .error .freedObject

/-- A route is reaped. -/
inductive Reap : Routing → Routing → Prop
  | reap {i : Routing} (r : RouteId) : (i.route r).1 = .route →
      Reap i { i with
        route := Function.update i.route r (.unknown, (i.route r).2)
        routeTree := i.balancing.erase r i.routeTree
        routeCnt := i.routeCnt - 1 }

/-- Some routes are. -/
def Reaps : Routing → Routing → Prop := Relation.ReflTransGen Reap

theorem Reaps.refl (i : Routing) : Reaps i i := Relation.ReflTransGen.refl

theorem Reaps.trans {i i' i'' : Routing} (first : Reaps i i') (second : Reaps i' i'') :
    Reaps i i'' := Relation.ReflTransGen.trans first second

theorem Reaps.one {i i' : Routing} (reap : Reap i i') : Reaps i i' := .single reap

end Routing

/-- Only routes are reaped. -/
def Index.Moves (i i' : Index) : Prop := i'.tables = i.tables ∧ i.routing.Reaps i'.routing

theorem Index.Moves.refl (i : Index) : Moves i i := ⟨rfl, .refl _⟩

theorem Index.Moves.trans {i i' i'' : Index} (first : Moves i i') (second : Moves i' i'') :
    Moves i i'' := ⟨second.1.trans first.1, first.2.trans second.2⟩

open Index Routing

section Same

variable {w w' : World}

/-- The functions on rules leave the index alone. -/
theorem SameObjects.index (same : SameObjects w w') (linkCnt : w'.linkCnt = w.linkCnt)
    (routeCnt : w'.routeCnt = w.routeCnt) : w'.index = w.index := by
  have route : ∀ r, (w'.routes.cell r).entry = (w.routes.cell r).entry := fun r => by
    simp only [ObjRoute.entry, same.routeObj, same.routeDst]
  simp only [World.index, World.tables, World.routing, same.links, same.neighs, same.linkTree,
    same.routeTree, same.routesNext, same.mode, same.balancing, linkCnt, routeCnt, route]

/-- So does every write of theirs. -/
theorem Write.index (write : Write w w') : w'.index = w.index := by
  have same := write.sameObjects
  cases write with
  | rule _ _ _ _ => rfl
  | route _ _ _ => exact same.index rfl rfl
  | reap r reaped =>
    obtain ⟨rfl, -⟩ := objRuleReap_ok reaped
    have counts : ∀ t, (w.dropTarget t).linkCnt = w.linkCnt ∧
        (w.dropTarget t).routeCnt = w.routeCnt := fun t => by
      cases t <;> exact ⟨rfl, rfl⟩
    exact same.index (counts _).1 (counts _).2
  | alloc _ _ => rfl
  | rest _ _ _ _ _ _ _ _ => rfl

/-- And some writes. -/
theorem Writes.index (writes : Writes w w') : w'.index = w.index := by
  induction writes with
  | refl => rfl
  | tail _ last ih => exact last.index.trans ih

/-- A write to a route that keeps its key. -/
theorem index_setRoute (w : World) (r : RouteId) {f : ObjRoute → ObjRoute}
    (keep : ∀ route, (f route).entry = route.entry) : (w.setRoute r f).index = w.index := by
  simp only [World.index, World.tables, World.routing, World.setRoute, Heap.next_modify,
    Heap.cell_modify_field w.routes r _ ObjRoute.entry keep]

/-- A write to a neighbour that keeps its entry. -/
theorem index_setNeigh (w : World) (n : NeighId) {f : ObjNeigh → ObjNeigh}
    (keep : ∀ neigh, (f neigh).entry = neigh.entry) : (w.setNeigh n f).index = w.index := by
  simp only [World.index, World.tables, World.routing, World.setNeigh, Heap.next_modify,
    Heap.cell_modify_field w.neighs n _ ObjNeigh.entry keep]

/-- Any write to a neighbour. -/
theorem tables_setNeigh (w : World) (n : NeighId) (f : ObjNeigh → ObjNeigh) :
    (w.setNeigh n f).tables = w.tables.setNeigh n (f (w.neighs.cell n)).entry := by
  have neighs := w.neighs.view_modify n f ObjNeigh.entry
  simp only [World.tables, World.setNeigh, Tables.setNeigh, Heap.next_modify, neighs]

/-- Any write to a link. -/
theorem tables_setLink (w : World) (l : LinkId) (f : ObjLink → ObjLink) :
    (w.setLink l f).tables = w.tables.setLink l (f (w.links.cell l)).entry := by
  have links := w.links.view_modify l f ObjLink.entry
  simp only [World.tables, World.setLink, Tables.setLink, Heap.next_modify, links]

/-- A write to a link that keeps its entry. -/
theorem index_setLink (w : World) (l : LinkId) {f : ObjLink → ObjLink}
    (keep : ∀ link, (f link).entry = link.entry) : (w.setLink l f).index = w.index := by
  simp only [World.index, World.tables, World.routing, World.setLink, Heap.next_modify,
    Heap.cell_modify_field w.links l _ ObjLink.entry keep]

/-- Any write to a target. -/
theorem index_setTarget (w : World) (t : TargetId) (f : ObjTarget → ObjTarget) :
    (w.setTarget t f).index = w.index := rfl

end Same

/-- A call leaves the index alone. -/
abbrev Unmoved (w : World) : Except Fault World → Prop := Returns fun w' => w'.index = w.index

/-- A call only reaps routes. -/
abbrev Moving (w : World) : Except Fault World → Prop :=
  Returns fun w' => Moves w.index w'.index

/-- A call only reaps routes and leads to other tables. -/
abbrev Reaching (t : Tables) (w : World) : Except Fault World → Prop :=
  Returns fun w' => Moves ⟨t, w.routing⟩ w'.index

section Calls

variable {w : World} {c : Calls} {d : Unrefs}

theorem Unmoved.moving {result : Except Fault World} (unmoved : Unmoved w result) :
    Moving w result := unmoved.mono fun _ same => same ▸ Moves.refl _

theorem Returns.unmoved {result : Except Fault World} (writes : Returns (Writes w) result) :
    Unmoved w result := writes.mono fun _ writes => writes.index

/-- A call after another. -/
theorem Moving.bind {first : Except Fault World} {next : World → Except Fault World}
    (head : Moving w first) (tail : ∀ w', Moving w' (next w')) : Moving w (first >>= next) :=
  Ends.bind head fun w' moves => (tail w').mono fun _ more => moves.trans more

/-- After a write that leaves the index alone. -/
theorem Moving.after {w₁ : World} {result : Except Fault World} (same : w₁.index = w.index)
    (tail : Moving w₁ result) : Moving w result := tail.mono fun _ more => same ▸ more

/-- Reaping only moves the index. -/
structure Unrefs.Moving (d : Unrefs) : Prop where
  objRouteUnref : ∀ (r : RouteId) (w : World), FlowerRoute.Moving w (d.objRouteUnref r w)
  objTargetUnref : ∀ (t : TargetId) (w : World), FlowerRoute.Moving w (d.objTargetUnref t w)

/-- A neighbour whose pointer was followed. -/
theorem neigh_ok {n : NeighId} {neigh : ObjNeigh} (followed : w.neigh n = .ok neigh) :
    (w.neighs.cell n).obj.kind = .neigh ∧ neigh = w.neighs.cell n := by
  rw [World.neigh, follow] at followed
  split at followed
  · next live =>
    cases followed
    exact ⟨live, rfl⟩
  · cases followed

/-- A link whose pointer was followed. -/
theorem link_ok {l : LinkId} {link : ObjLink} (followed : w.link l = .ok link) :
    (w.links.cell l).obj.kind = .link ∧ link = w.links.cell l := by
  rw [World.link, follow] at followed
  split at followed
  · next live =>
    cases followed
    exact ⟨live, rfl⟩
  · cases followed

theorem objRouteRef_unmoved (r : RouteId) (w : World) : Unmoved w (objRouteRef r w) :=
  returns_bind fun _ _ => index_setRoute w r fun route => by
    simp only [ObjRoute.entry, kind_objRef]

theorem objTargetRef_unmoved (t : TargetId) (w : World) : Unmoved w (objTargetRef t w) :=
  returns_bind fun _ _ => index_setTarget w t _

theorem objTargetWeakRef_unmoved (t : TargetId) (w : World) : Unmoved w (objTargetWeakRef t w) :=
  returns_bind fun _ _ => index_setTarget w t _

theorem objTargetWeakUnref_unmoved (t : TargetId) (w : World) :
    Unmoved w (objTargetWeakUnref t w) :=
  returns_bind fun _ _ => returns_bind fun _ _ => index_setTarget w t _

theorem objNeighWeakRef_unmoved (n : NeighId) (w : World) : Unmoved w (objNeighWeakRef n w) :=
  returns_bind fun _ _ => index_setNeigh w n fun neigh => by
    simp only [ObjNeigh.entry, objWeakRef]
    split <;> rfl

theorem objTargetUnlinkRoute_moving (moving : d.Moving) (t : TargetId) (r : RouteId) (w : World) :
    Moving w (objTargetUnlinkRoute d t r w) := by
  refine Moving.bind (objTargetRef_unmoved t w).moving fun w₁ => ?_
  refine Moving.bind (objRouteRef_unmoved r w₁).moving fun w₂ => ?_
  refine returns_bind fun route _ => returns_require fun _ => ?_
  refine Moving.bind (objTargetWeakUnref_unmoved t w₂).moving fun w₃ => ?_
  refine Moving.after (index_setRoute (f := fun route => { route with target := none }) w₃ r
    fun _ => rfl) (returns_bind fun target _ => ?_)
  have rest : ∀ w, Moving w (d.objRouteUnref r w >>= fun w => d.objTargetUnref t w) := fun w =>
    Moving.bind (moving.objRouteUnref r w) fun w' => moving.objTargetUnref t w'
  dsimp only
  split
  · exact Moving.after (index_setTarget _ t _) (Moving.bind (moving.objRouteUnref r _) rest)
  · exact rest _

/-- What is left of a reaped route. -/
theorem moves_reapedRoute (w : World) (r : RouteId) {obj : ObjCore} (freed : obj.kind = .unknown)
    (live : (w.routes.cell r).obj.kind = .route) :
    Moves w.index ({ ({ w with routeTree := w.balancing.erase r w.routeTree } : World).setRoute r
      (fun route => { route with obj }) with routeCnt := w.routeCnt - 1 } : World).index := by
  refine ⟨rfl, ?_⟩
  have reap := Reap.reap (i := w.routing) r live
  have routes := w.routes.view_modify r (fun route => { route with obj }) ObjRoute.entry
  simp only [World.index, World.routing, World.setRoute, Heap.next_modify, routes]
  simp only [ObjRoute.entry, freed]
  exact Reaps.one reap

theorem objRuleUnrefSome_unmoved (writing : Writing c) (r : Option RuleId) (w : World) :
    Unmoved w (objRuleUnrefSome c r w) := Returns.unmoved (objRuleUnrefSome_writes writing r w)

/-- The end of `obj_route_reap`, where the route leaves the tree. -/
def objRouteForget (r : RouteId) (w : World) : Except Fault World := do
  let w := { w with routeTree := w.balancing.erase r w.routeTree }
  let route ← w.route r
  let obj ← objFree route.obj
  let w := w.setRoute r fun route => { route with obj }
  return { w with routeCnt := ← countDown w.routeCnt }

/-- The end of `obj_route_reap`, from the release of the rules on. -/
def objRouteRelease (c : Calls) (r : RouteId) (w : World) : Except Fault World := do
  let route ← w.route r
  let w ← objRuleUnrefSome c route.rule w
  let w := w.setRoute r fun route => { route with rule := none }
  let route ← w.route r
  let w ← objRuleUnrefSome c route.targetRule w
  objRouteForget r (w.setRoute r fun route => { route with targetRule := none })

theorem objRouteForget_moving (r : RouteId) (w : World) : Moving w (objRouteForget r w) := by
  refine returns_bind fun route followed => returns_bind fun obj freed =>
    returns_bind fun cnt counted => ?_
  obtain ⟨rfl, -⟩ := countDown_ok counted
  obtain ⟨live, -⟩ := route_ok followed
  exact moves_reapedRoute w r (by rw [(objFree_ok freed).1]) live

theorem objRouteRelease_moving (writing : Writing c) (r : RouteId) (w : World) :
    Moving w (objRouteRelease c r w) := by
  refine returns_bind fun route _ => ?_
  refine Moving.bind (objRuleUnrefSome_unmoved writing route.rule w).moving fun w₁ => ?_
  refine Moving.after (index_setRoute (f := fun route => { route with rule := none }) w₁ r
    fun _ => rfl) (returns_bind fun route _ => ?_)
  refine Moving.bind (objRuleUnrefSome_unmoved writing route.targetRule _).moving fun w₂ => ?_
  exact Moving.after (index_setRoute (f := fun route => { route with targetRule := none }) w₂ r
    fun _ => rfl) (objRouteForget_moving r _)

theorem objRouteReap_moving (writing : Writing c) (moving : d.Moving) (r : RouteId) (w : World) :
    Moving w (objRouteReap c d r w) := by
  refine returns_bind fun route _ => returns_require fun _ => ?_
  refine Moving.after (index_setRoute (f := fun route =>
    { route with obj := { route.obj with state := .zombie } }) w r fun _ => rfl) ?_
  dsimp only
  split
  · exact objRouteRelease_moving writing r _
  · next t _ =>
    refine Moving.bind (objTargetUnlinkRoute_moving moving t r _) fun w₁ => ?_
    exact Moving.after (index_setRoute (f := fun route => { route with target := none }) w₁ r
      fun _ => rfl) (objRouteRelease_moving writing r _)

theorem objRouteUnref_moving (writing : Writing c) (moving : d.Moving) (r : RouteId) (w : World) :
    Moving w (objRouteUnref c d r w) := by
  refine returns_bind fun route followed => returns_bind fun obj counted => ?_
  obtain ⟨-, rfl⟩ := route_ok followed
  have same : (w.setRoute r fun route => { route with obj }).index = w.index := by
    rw [setRoute_congr w r (fun route => { route with obj })
      (fun route => { route with obj := { route.obj with refcnt := route.obj.refcnt - 1 } })
      (by rw [(objUnref_ok counted).1])]
    exact index_setRoute w r fun _ => rfl
  refine Moving.after same ?_
  dsimp only
  split
  · exact objRouteReap_moving writing moving r _
  · exact Moves.refl _

theorem objNeighWeakUnref_unmoved (n : NeighId) (w : World) :
    Unmoved w (objNeighWeakUnref n w) := by
  refine returns_bind fun neigh followed => returns_bind fun obj counted => ?_
  obtain ⟨-, rfl⟩ := neigh_ok followed
  obtain rfl := objWeakUnref_ok counted
  refine congrArg (Index.mk · w.routing) ((tables_setNeigh w n _).trans ?_)
  exact w.tables.setNeigh_neigh n

/-- A loop of calls. -/
theorem Moving.loop {α : Type} {body : World → α → Except Fault World} (items : List α) (w : World)
    (step : ∀ (w : World), ∀ item ∈ items, Moving w (body w item)) :
    Moving w (items.foldlM body w) :=
  ends_foldlM items w (Moves.refl _) fun item member w' moves =>
    (step w' item member).mono fun _ more => moves.trans more

theorem objTargetReap_moving (writing : Writing c) (moving : d.Moving) (t : TargetId) (w : World) :
    Moving w (objTargetReap c d t w) := by
  refine Moving.after (index_setTarget w t fun target =>
    { target with obj := { target.obj with state := .zombie } }) (returns_bind fun target _ => ?_)
  refine returns_require fun _ => ?_
  refine Moving.bind (Moving.loop _ _ fun w n _ => (objNeighWeakUnref_unmoved n w).moving)
    fun w₁ => ?_
  refine Moving.bind (Moving.loop _ _ fun w r _ => moving.objRouteUnref r w) fun w₂ => ?_
  refine returns_bind fun target _ => ?_
  refine Moving.bind (objRuleUnrefSome_unmoved writing target.rule w₂).moving fun w₃ => ?_
  refine Moving.after (index_setTarget w₃ t fun target => { target with rule := none })
    (returns_bind fun target _ => ?_)
  exact returns_bind fun obj _ => returns_bind fun cnt _ => Moves.refl _

theorem objTargetUnref_moving (writing : Writing c) (moving : d.Moving) (t : TargetId) (w : World) :
    Moving w (objTargetUnref c d t w) := by
  refine returns_bind fun target _ => returns_bind fun obj _ => ?_
  refine Moving.after (index_setTarget w t fun target => { target with obj }) ?_
  dsimp only
  split
  · exact objTargetReap_moving writing moving t _
  · exact Moves.refl _

/-- At every bound on the depth of calls. -/
theorem unrefs_moving (writing : Writing c) (depth : Nat) : (unrefs c depth).Moving := by
  induction depth with
  | zero => exact ⟨fun _ _ => trivial, fun _ _ => trivial⟩
  | succ depth ih =>
    constructor
    · exact fun r w => objRouteUnref_moving writing ih r w
    · exact fun t w => objTargetUnref_moving writing ih t w

theorem objTargetDropRule_unmoved (writing : Writing c) (t : TargetId) (w : World) :
    Unmoved w (objTargetDropRule c t w) := by
  refine returns_bind fun target _ => ?_
  split
  · exact rfl
  · next r _ =>
    refine returns_bind fun w₁ unset => ?_
    obtain ⟨-, rfl⟩ := objRuleUnsetTarget_ok unset
    have dropped : ((w.dropTarget (w.rules.cell r).target).setRule r fun rule =>
        { rule with target := none }).index = w.index := by
      cases (w.rules.cell r).target <;> rfl
    refine Ends.bind (Returns.unmoved (objRuleUnref_writes writing r _)) fun w₂ same => ?_
    exact returns_bind fun _ _ => same.trans dropped

theorem objTargetSetRule_unmoved (writing : Writing c) (t : TargetId) (tcr : Option TcRule)
    (w : World) : Unmoved w (objTargetSetRule c t tcr w) := by
  refine Ends.bind (objTargetDropRule_unmoved writing t w) fun w₁ dropped => ?_
  cases tcr with
  | none =>
    exact (Returns.unmoved (objTargetNotifyRoutes_writes writing t w₁)).mono fun _ same =>
      same.trans dropped
  | some tcr =>
    refine Ends.bind (objRulePrimeRequest_writes tcr w₁) fun ⟨rule, w₂⟩ primed => ?_
    have same : w₂.index = w.index := (Writes.index primed).trans dropped
    cases rule with
    | none => exact same
    | some rule =>
      refine returns_bind fun w₃ set => ?_
      obtain ⟨-, -, rfl⟩ := objRuleSetTarget_ok set
      exact (Returns.unmoved (writing.updateState rule _)).mono fun _ later => later.trans same

theorem objTargetInstall_unmoved (writing : Writing c) (t : TargetId) (w : World) :
    Unmoved w (objTargetInstall c t w) := by
  refine returns_bind fun prepared _ => ?_
  split
  · exact rfl
  · exact objTargetSetRule_unmoved writing t _ w

theorem objTargetNeighUpdate_unmoved (writing : Writing c) (t : TargetId) (w : World) :
    Unmoved w (objTargetNeighUpdate c t w) := by
  refine returns_bind fun prepared _ => ?_
  split
  · exact objTargetSetRule_unmoved writing t none w
  · refine returns_bind fun target _ => ?_
    split
    · exact rfl
    · refine returns_bind fun current _ => ?_
      split
      · exact objTargetSetRule_unmoved writing t _ w
      · exact rfl

theorem objTargetLinkRoute_unmoved (writing : Writing c) (t : TargetId) (r : RouteId) (w : World) :
    Unmoved w (objTargetLinkRoute c t r w) := by
  refine returns_bind fun _ _ => returns_bind fun route _ => returns_require fun _ => ?_
  refine Ends.bind (objTargetWeakRef_unmoved t w) fun w₁ first => ?_
  have aimed : (w₁.setRoute r fun route => { route with target := some t }).index = w₁.index :=
    index_setRoute w₁ r fun _ => rfl
  refine Ends.bind (objRouteRef_unmoved r _) fun w₂ second => ?_
  have same : w₂.index = w.index := second.trans (aimed.trans first)
  refine returns_bind fun target _ => ?_
  split
  · exact (objTargetInstall_unmoved writing t _).mono fun _ later => later.trans same
  · exact same

theorem objTargetGetUnipath_unmoved (n : NeighId) (w : World) :
    Returns (fun result => result.2.index = w.index) (objTargetGetUnipath n w) := by
  have alloc : Returns (fun result : TargetId × World => result.2.index = w.index) (do
      let t := w.targets.next
      let w := { w with
        targets := w.targets.alloc { obj := { kind := .target }, nexthopCnt := 1, nexthop := [n] }
        targetCnt := w.targetCnt + 1 }
      let w ← objNeighWeakRef n w
      let w := w.setNeigh n fun neigh => { neigh with targets := t :: neigh.targets }
      return (t, ← objTargetRef t w)) := by
    refine Ends.bind (objNeighWeakRef_unmoved n _) fun w₁ same => ?_
    have listed : (w₁.setNeigh n fun neigh =>
        { neigh with targets := w.targets.next :: neigh.targets }).index = w₁.index :=
      index_setNeigh w₁ n fun _ => rfl
    refine Ends.bind (objTargetRef_unmoved _ _) fun w₂ counted => ?_
    exact counted.trans (listed.trans same)
  refine returns_bind fun neigh _ => ?_
  dsimp only
  split
  · exact alloc
  · refine returns_bind fun target _ => ?_
    split
    · exact rfl
    · exact alloc

section Routes

/-- A route leaves its target and drops a reference. -/
theorem Moving.leave (moving : d.Moving) (r : RouteId) (w : World) : Moving w (do
    let route ← w.route r
    let w ← match route.target with
      | none => pure w
      | some t => objTargetUnlinkRoute d t r w
    d.objRouteUnref r w) := by
  refine returns_bind fun route _ => ?_
  split
  · exact moving.objRouteUnref r w
  · exact Moving.bind (objTargetUnlinkRoute_moving moving _ r w) fun w' =>
      moving.objRouteUnref r w'

theorem objRouteDelete_moving (writing : Writing c) (moving : d.Moving) (r : RouteId) (w : World) :
    Moving w (objRouteDelete c d r w) := by
  refine Moving.bind (objRouteRef_unmoved r w).moving fun w₁ => ?_
  refine Moving.after (index_setRoute (f := fun route =>
    { route with obj := { route.obj with state := .present } }) w₁ r fun _ => rfl) ?_
  refine returns_bind fun route _ => ?_
  split
  · exact Moving.leave moving r _
  · next rule _ =>
    refine returns_bind fun current _ => ?_
    split
    · exact Moving.bind (Returns.unmoved (objRuleUninstall_writes writing rule _)).moving
        fun w' => Moving.leave moving r w'
    · exact Moving.leave moving r _

theorem objRouteRetarget_moving (writing : Writing c) (moving : d.Moving) (r : RouteId)
    (t : TargetId) (w : World) : Moving w (objRouteRetarget c d r t w) := by
  refine returns_bind fun route _ => ?_
  split
  · exact Moves.refl _
  · have link : ∀ w : World, Moving w (objTargetLinkRoute c t r w) := fun w =>
      (objTargetLinkRoute_unmoved writing t r w).moving
    dsimp only
    split
    · exact link w
    · exact Moving.bind (objTargetUnlinkRoute_moving moving _ r w) link

end Routes

end Calls

end FlowerRoute
