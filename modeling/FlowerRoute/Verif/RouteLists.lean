import FlowerRoute.Model.RouteLists
import FlowerRoute.Verif.WeakCounts

/-!
# The lists of routes keep their order

Whatever routes are linked and unlinked in whatever order, the pointers of every target's list
visit the routes whose target it is, oldest link first.
-/

namespace FlowerRoute

open Outcome LinkedList

namespace RouteLists

section Pointers

variable (lists : RouteLists) (t : TargetId) (r : RouteId)

theorem tNextRoute_link (i : RouteId) : (lists.link t r).tNextRoute i =
    if lists.lastRoute t = some i then some r else lists.tNextRoute i := by
  cases last : lists.lastRoute t with
  | none => simp [link, assign, setLast, last]
  | some j => simp [link, assign, setLast, last, Function.update_apply, eq_comm]

theorem firstRoute_link (i : TargetId) : (lists.link t r).firstRoute i =
    if i = t ∧ lists.lastRoute t = none then some r else lists.firstRoute i := by
  cases last : lists.lastRoute t with
  | none => simp [link, assign, setLast, last, Function.update_apply]
  | some j => simp [link, assign, setLast, last]

theorem lastRoute_link (i : TargetId) : (lists.link t r).lastRoute i =
    if i = t then some r else lists.lastRoute i := by
  cases last : lists.lastRoute t with
  | none => simp [link, assign, setLast, last, Function.update_apply]
  | some j => simp [link, assign, setLast, last, Function.update_apply]

/-- Where the pointer to the route after `prev` is. -/
def placeAfter (t : TargetId) : Option RouteId → RoutePlace
  | none => .first t
  | some prev => .next prev

variable (prev : Option RouteId)

theorem tNextRoute_cut (i : RouteId) : (lists.cut t r (placeAfter t prev) prev).tNextRoute i =
    if i = r then none else if prev = some i then lists.tNextRoute r else lists.tNextRoute i := by
  by_cases last : lists.lastRoute t = some r
  · cases prev <;>
      simp [cut, placeAfter, assign, setLast, last, Function.update_apply, eq_comm]
  · cases prev <;> simp [cut, placeAfter, assign, last, Function.update_apply, eq_comm]

theorem firstRoute_cut (i : TargetId) : (lists.cut t r (placeAfter t prev) prev).firstRoute i =
    if i = t ∧ prev = none then lists.tNextRoute r else lists.firstRoute i := by
  by_cases last : lists.lastRoute t = some r
  · cases prev <;> simp [cut, placeAfter, assign, setLast, last, Function.update_apply]
  · cases prev <;> simp [cut, placeAfter, assign, last, Function.update_apply]

theorem lastRoute_cut (i : TargetId) : (lists.cut t r (placeAfter t prev) prev).lastRoute i =
    if i = t ∧ lists.lastRoute t = some r then prev else lists.lastRoute i := by
  by_cases last : lists.lastRoute t = some r
  · cases prev <;> simp [cut, placeAfter, assign, setLast, last, Function.update_apply]
  · cases prev <;> simp [cut, placeAfter, assign, last]

end Pointers

/-- What the lists of the targets hold, from the front. -/
structure Listed (lists : RouteLists) (order : TargetId → List RouteId) : Prop where
  linked : ∀ t, Linked lists.tNextRoute (lists.firstRoute t) (order t)
  last : ∀ t, lists.lastRoute t = (order t).getLast?
  apart : ∀ t u r, r ∈ order t → r ∈ order u → u = t
  loose : ∀ r, (∀ t, r ∉ order t) → lists.tNextRoute r = none

section Lists

variable {lists : RouteLists} {order : TargetId → List RouteId} {t : TargetId} {r : RouteId}

/-- No target has a route. -/
theorem listed_nil : Listed {} fun _ => [] where
  linked _ := rfl
  last _ := rfl
  apart _ _ _ member := absurd member List.not_mem_nil
  loose _ _ := rfl

/-- A route on no list comes to the end of one. -/
theorem Listed.link (listed : Listed lists order) (new : ∀ t, r ∉ order t) :
    Listed (lists.link t r) (Function.update order t (order t ++ [r])) where
  linked i := by
    by_cases mine : i = t
    · subst mine
      rw [Function.update_self]
      have grown : Linked (lists.link i r).tNextRoute
          (if order i = [] then some r else lists.firstRoute i) (order i ++ [r]) := by
        apply (listed.linked i).append
        · rw [tNextRoute_link, listed.last i, if_neg fun atEnd => new i (List.mem_of_getLast? atEnd)]
          exact listed.loose r new
        · intro j atEnd
          rw [tNextRoute_link, listed.last i, if_pos atEnd]
        · intro j _ inner
          rw [tNextRoute_link, listed.last i, if_neg inner]
      have start : (lists.link i r).firstRoute i =
          if order i = [] then some r else lists.firstRoute i := by
        rw [firstRoute_link, listed.last i]
        simp
      rwa [start]
    · rw [Function.update_of_ne mine, firstRoute_link, if_neg fun both => mine both.1]
      apply (listed.linked i).congr
      intro j inside
      rw [tNextRoute_link, listed.last t, if_neg]
      intro atEnd
      exact mine (listed.apart t i j (List.mem_of_getLast? atEnd) inside)
  last i := by
    rw [lastRoute_link]
    split
    · next same =>
      rw [same, Function.update_self, List.getLast?_concat]
    · next other =>
      rw [Function.update_of_ne other]
      exact listed.last i
  apart i u j inside inside' := by
    have old : ∀ v, j ∈ Function.update order t (order t ++ [r]) v →
        j ∈ order v ∨ (j = r ∧ v = t) := by
      intro v member
      by_cases mine : v = t
      · subst mine
        rw [Function.update_self, List.mem_append, List.mem_singleton] at member
        exact member.imp id fun same => ⟨same, rfl⟩
      · rw [Function.update_of_ne mine] at member
        exact .inl member
    obtain first | ⟨rfl, rfl⟩ := old i inside
    · obtain second | ⟨rfl, rfl⟩ := old u inside'
      · exact listed.apart i u j first second
      · exact absurd first (new i)
    · obtain second | ⟨-, same⟩ := old u inside'
      · exact absurd second (new u)
      · exact same
  loose j unlisted := by
    have here := unlisted t
    rw [Function.update_self, List.mem_append, not_or] at here
    have nowhere : ∀ u, j ∉ order u := by
      intro u
      by_cases mine : u = t
      · rw [mine]
        exact here.1
      · have there := unlisted u
        rwa [Function.update_of_ne mine] at there
    rw [tNextRoute_link, listed.last t, if_neg fun atEnd => nowhere t (List.mem_of_getLast? atEnd)]
    exact listed.loose j nowhere

/-- A route leaves its list. -/
theorem Listed.cut (listed : Listed lists order) {before after : List RouteId}
    (found : order t = before ++ r :: after) :
    Listed (lists.cut t r (placeAfter t before.getLast?) before.getLast?)
      (Function.update order t (before ++ after)) := by
  have linked := listed.linked t
  rw [found] at linked
  have position : r ∉ before ++ after := by
    have once := linked.nodup
    rw [List.nodup_middle] at once
    exact (List.nodup_cons.mp once).1
  have inside : ∀ j, j ∈ before ++ after → j ∈ order t := by
    intro j member
    rw [found]
    simp only [List.mem_append, List.mem_cons] at member ⊢
    tauto
  have fewer : ∀ u j, j ∈ Function.update order t (before ++ after) u → j ∈ order u := by
    intro u j member
    by_cases mine : u = t
    · subst mine
      rw [Function.update_self] at member
      exact inside j member
    · rwa [Function.update_of_ne mine] at member
  constructor
  · intro i
    by_cases mine : i = t
    · subst mine
      rw [Function.update_self, firstRoute_cut]
      have shorter : Linked (lists.cut i r (placeAfter i before.getLast?) before.getLast?).tNextRoute
          (if before = [] then lists.tNextRoute r else lists.firstRoute i) (before ++ after) := by
        refine linked.remove (fun j atEnd => ?_) fun j member inner => ?_
        · have other : j ≠ r := fun same =>
            position (List.mem_append_left _ (same ▸ List.mem_of_getLast? atEnd))
          rw [tNextRoute_cut, if_neg other, if_pos atEnd]
        · have other : j ≠ r := fun same => position (same ▸ member)
          rw [tNextRoute_cut, if_neg other, if_neg inner]
      simpa using shorter
    · rw [Function.update_of_ne mine, firstRoute_cut, if_neg fun both => mine both.1]
      apply (listed.linked i).congr
      intro j member
      have elsewhere : j ∉ order t := fun here => mine (listed.apart t i j here member)
      have other : j ≠ r := by
        rintro rfl
        exact elsewhere (by simp [found])
      rw [tNextRoute_cut, if_neg other, if_neg]
      intro atEnd
      exact elsewhere (inside j (List.mem_append_left _ (List.mem_of_getLast? atEnd)))
  · intro i
    rw [lastRoute_cut, listed.last t, found]
    by_cases mine : i = t
    · subst mine
      rw [Function.update_self]
      cases after with
      | nil => simp
      | cons j rest =>
        have inner : (before ++ r :: j :: rest).getLast? = (before ++ j :: rest).getLast? := by
          rw [List.getLast?_append, List.getLast?_append, List.getLast?_cons_cons]
        have other : (before ++ r :: j :: rest).getLast? ≠ some r := by
          rw [inner]
          exact fun atEnd => position (List.mem_of_getLast? atEnd)
        rw [if_neg fun both => other both.2, listed.last i, found, inner]
    · rw [if_neg fun both => mine both.1, Function.update_of_ne mine]
      exact listed.last i
  · intro i u j first second
    exact listed.apart i u j (fewer i j first) (fewer u j second)
  · intro j unlisted
    rw [tNextRoute_cut]
    split
    · rfl
    · next other =>
      have here := unlisted t
      rw [Function.update_self] at here
      rw [if_neg fun atEnd => here (List.mem_append_left _ (List.mem_of_getLast? atEnd))]
      apply listed.loose j
      intro u
      by_cases mine : u = t
      · subst mine
        rw [found]
        simp only [List.mem_append, List.mem_cons, not_or] at here ⊢
        exact ⟨here.1, other, here.2⟩
      · have there := unlisted u
        rwa [Function.update_of_ne mine] at there

/-- The pointers of a target's list are the same. -/
def SameList (lists lists' : RouteLists) (t : TargetId) (routes : List RouteId) : Prop :=
  lists'.firstRoute t = lists.firstRoute t ∧ lists'.lastRoute t = lists.lastRoute t ∧
    ∀ r ∈ routes, lists'.tNextRoute r = lists.tNextRoute r

/-- The other lists do not change when a route comes to one. -/
theorem Listed.link_other (listed : Listed lists order) {u : TargetId} (other : u ≠ t) :
    SameList lists (lists.link t r) u (order u) := by
  refine ⟨?_, ?_, fun j inside => ?_⟩
  · rw [firstRoute_link, if_neg fun both => other both.1]
  · rw [lastRoute_link, if_neg other]
  · rw [tNextRoute_link, listed.last t, if_neg]
    intro atEnd
    exact other (listed.apart t u j (List.mem_of_getLast? atEnd) inside)

/-- The other lists do not change when a route leaves one. -/
theorem Listed.cut_other (listed : Listed lists order) {before after : List RouteId}
    (found : order t = before ++ r :: after) {u : TargetId} (other : u ≠ t) :
    SameList lists (lists.cut t r (placeAfter t before.getLast?) before.getLast?) u (order u) := by
  refine ⟨?_, ?_, fun j inside => ?_⟩
  · rw [firstRoute_cut, if_neg fun both => other both.1]
  · rw [lastRoute_cut, if_neg fun both => other both.1]
  · have elsewhere : j ∉ before ++ r :: after := by
      intro here
      rw [← found] at here
      exact other (listed.apart t u j here inside)
    simp only [List.mem_append, List.mem_cons, not_or] at elsewhere
    rw [tNextRoute_cut, if_neg elsewhere.2.1, if_neg]
    exact fun atEnd => elsewhere.1 (List.mem_of_getLast? atEnd)

end Lists

section Refinement

variable {lists : RouteLists} {order : TargetId → List RouteId} {t : TargetId} {r : RouteId}
variable {w : World}

/-- The loop of `obj_target_unlink_route` finds the route, and ends there. -/
theorem unlinkLoop_found (d : Unrefs) {start prev : Option RouteId} {before after : List RouteId}
    {rounds : Nat} (linked : Linked lists.tNextRoute start (before ++ r :: after))
    (first : r ∉ before) (enough : before.length < rounds)
    (live : ∀ i ∈ before ++ [r], (w.routes.cell i).obj.kind = .route) :
    unlinkLoop d t r rounds start (placeAfter t prev) prev lists w = (do
      let w ← d.objRouteUnref r (w.setTarget t fun target =>
        { target with routes := target.routes.erase r })
      return (w, lists.cut t r (placeAfter t (before.getLast?.or prev))
        (before.getLast?.or prev))) := by
  induction before generalizing start prev rounds with
  | nil =>
    obtain ⟨rfl, -⟩ := linked
    cases rounds with
    | zero => exact absurd enough (Nat.lt_irrefl 0)
    | succ rounds =>
      have followed : w.route r = .ok (w.routes.cell r) := by
        rw [World.route, follow, if_pos (live r List.mem_cons_self)]
      rw [unlinkLoop, followed, ok_bind, if_pos rfl]
      have ended : (lists.cut t r (placeAfter t prev) prev).tNextRoute r = none := by
        rw [tNextRoute_cut, if_pos rfl]
      simp only [ended, unlinkLoop]
      rfl
  | cons i before ih =>
    obtain ⟨rfl, tail⟩ := linked
    cases rounds with
    | zero => exact absurd enough (Nat.not_lt_zero _)
    | succ rounds =>
      rw [List.mem_cons, not_or] at first
      have followed : w.route i = .ok (w.routes.cell i) := by
        rw [World.route, follow, if_pos (live i List.mem_cons_self)]
      rw [unlinkLoop, followed, ok_bind, if_neg (Ne.symm first.1)]
      have last : (i :: before).getLast?.or prev = before.getLast?.or (some i) := by
        rw [List.getLast?_cons]
        cases before.getLast? <;> rfl
      rw [last]
      show unlinkLoop d t r rounds _ (placeAfter t (some i)) (some i) lists w = _
      apply ih tail first.2 (Nat.lt_of_succ_lt_succ enough)
      exact fun j member => live j (List.mem_cons_of_mem _ member)

end Refinement

end RouteLists

/-- One target and one route differ: the target has other routes and weak references, the route
another target and other references. -/
structure Moved (w : World) (t : TargetId) (r : RouteId) (routes : List RouteId)
    (weakRefcnt : Nat) (target : Option TargetId) (refcnt : Nat) (w' : World) : Prop where
  mode : w'.mode = w.mode
  rules : w'.rules = w.rules
  routesNext : w'.routes.next = w.routes.next
  atTarget : ∃ refs, w'.targets.cell t = { w.targets.cell t with
    obj := { (w.targets.cell t).obj with refcnt := refs, weakRefcnt }, routes }
  otherTarget : ∀ i, i ≠ t → w'.targets.cell i = w.targets.cell i
  atRoute : w'.routes.cell r = { w.routes.cell r with
    target, obj := { (w.routes.cell r).obj with refcnt } }
  otherRoute : ∀ i, i ≠ r → w'.routes.cell i = w.routes.cell i

section Steps

variable {w w' : World} {t : TargetId} {r : RouteId}

theorem target_live (live : (w.targets.cell t).obj.kind = .target) :
    w.target t = .ok (w.targets.cell t) := by
  rw [World.target, follow, if_pos live]

theorem route_live (live : (w.routes.cell r).obj.kind = .route) :
    w.route r = .ok (w.routes.cell r) := by
  rw [World.route, follow, if_pos live]

/-- What was written to a route is there. -/
theorem cell_setRoute (w : World) (r : RouteId) (f : ObjRoute → ObjRoute) :
    (w.setRoute r f).routes.cell r = f (w.routes.cell r) := by
  simp [World.setRoute]

/-- What is written to a route where it was read before. -/
theorem setRoute_congr (w : World) (r : RouteId) (f g : ObjRoute → ObjRoute)
    (same : f (w.routes.cell r) = g (w.routes.cell r)) : w.setRoute r f = w.setRoute r g := by
  rw [World.setRoute, World.setRoute, Heap.modify_congr w.routes r f g same]

/-- A weak reference is given back. -/
theorem objTargetWeakUnref_live (live : (w.targets.cell t).obj.kind = .target)
    (positive : 0 < (w.targets.cell t).obj.weakRefcnt) :
    objTargetWeakUnref t w = .ok (w.setTarget t fun target =>
      { target with obj := { target.obj with weakRefcnt := target.obj.weakRefcnt - 1 } }) := by
  have counted : objWeakUnref (w.targets.cell t).obj =
      .ok { (w.targets.cell t).obj with weakRefcnt := (w.targets.cell t).obj.weakRefcnt - 1 } := by
    rw [objWeakUnref, if_neg fun zombie => Nat.ne_of_gt positive zombie.2, if_pos positive]
  rw [objTargetWeakUnref, target_live live, ok_bind, counted, ok_bind]
  exact congrArg Except.ok (setTarget_congr w t _ _ rfl)

/-- A reference to an installed route is given back. -/
theorem objRouteUnref_live (c : Calls) (d : Unrefs)
    (live : (w.routes.cell r).obj.kind = .route)
    (installed : (w.routes.cell r).obj.state = .installed) (normal : w.mode = .normal)
    (positive : 0 < (w.routes.cell r).obj.refcnt) :
    objRouteUnref c d r w = .ok (w.setRoute r fun route =>
      { route with obj := { route.obj with refcnt := route.obj.refcnt - 1 } }) := by
  have counted : objUnref (w.routes.cell r).obj =
      .ok { (w.routes.cell r).obj with refcnt := (w.routes.cell r).obj.refcnt - 1 } := by
    rw [objUnref, if_neg fun zombie => Nat.ne_of_gt positive zombie.2, if_pos positive]
  rw [objRouteUnref_installed c d live installed normal, counted, ok_bind]
  exact congrArg Except.ok (setRoute_congr w r _ _ rfl)

/-- With its pointers `obj_target_link_route` does what it does without them. -/
theorem objTargetLinkRoute_refines (c : Calls) (lists : RouteLists) :
    RouteLists.objTargetLinkRoute c t r lists w = (do
      let w ← objTargetLinkRoute c t r w
      return (w, lists.link t r)) := by
  simp only [RouteLists.objTargetLinkRoute, objTargetLinkRoute, bind_assoc]
  refine bind_congr fun _ => bind_congr fun _ => bind_congr fun _ => bind_congr fun _ => ?_
  refine bind_congr fun _ => bind_congr fun target => ?_
  split
  · rfl
  · rfl

/-- What `obj_target_link_route` has done before it installs the target. -/
def World.withRoute (w : World) (t : TargetId) (r : RouteId) : World :=
  (w.setTarget t fun target =>
    { target with obj := objWeakRef target.obj, routes := target.routes ++ [r] }).setRoute r
      fun route => { route with target := some t, obj := objRef route.obj }

/-- What `obj_target_unlink_route` has done before it gives back its reference to the target. -/
def World.withoutRoute (w : World) (t : TargetId) (r : RouteId) : World :=
  (w.setTarget t fun target =>
    { target with
      obj := { objRef target.obj with weakRefcnt := target.obj.weakRefcnt - 1 }
      routes := target.routes.erase r }).setRoute r
      fun route =>
        { route with target := none, obj := { route.obj with refcnt := route.obj.refcnt - 1 } }

/-- A write to the target and one to the route. -/
theorem moved_writes {routes : List RouteId} {weakRefcnt refcnt : Nat} {target : Option TargetId}
    (f : ObjTarget → ObjTarget) (g : ObjRoute → ObjRoute)
    (atTarget : ∃ refs, f (w.targets.cell t) = { w.targets.cell t with
      obj := { (w.targets.cell t).obj with refcnt := refs, weakRefcnt }, routes })
    (atRoute : g (w.routes.cell r) = { w.routes.cell r with
      target, obj := { (w.routes.cell r).obj with refcnt } }) :
    Moved w t r routes weakRefcnt target refcnt ((w.setTarget t f).setRoute r g) where
  mode := rfl
  rules := rfl
  routesNext := rfl
  atTarget := by
    obtain ⟨refs, same⟩ := atTarget
    exact ⟨refs, (cell_setTarget w t f).trans same⟩
  otherTarget i other := Heap.cell_modify_ne w.targets f other
  atRoute := (cell_setRoute w r g).trans atRoute
  otherRoute i other := Heap.cell_modify_ne w.routes g other

theorem moved_withRoute (alive : (w.targets.cell t).obj.state ≠ .zombie)
    (installed : (w.routes.cell r).obj.state = .installed) :
    Moved w t r ((w.targets.cell t).routes ++ [r]) ((w.targets.cell t).obj.weakRefcnt + 1)
      (some t) ((w.routes.cell r).obj.refcnt + 1) (w.withRoute t r) := by
  apply moved_writes
  · exact ⟨(w.targets.cell t).obj.refcnt, by simp [objWeakRef, alive]⟩
  · simp [objRef, installed]

theorem moved_withoutRoute (w : World) (t : TargetId) (r : RouteId) :
    Moved w t r ((w.targets.cell t).routes.erase r) ((w.targets.cell t).obj.weakRefcnt - 1)
      none ((w.routes.cell r).obj.refcnt - 1) (w.withoutRoute t r) := by
  apply moved_writes
  · exact ⟨(objRef (w.targets.cell t).obj).refcnt, by simp⟩
  · rfl

/-- What `obj_target_link_route` does for a live route without a target. -/
theorem objTargetLinkRoute_eq (c : Calls) (target : (w.targets.cell t).obj.kind = .target)
    (live : (w.routes.cell r).obj.kind = .route) (noTarget : (w.routes.cell r).target = none) :
    objTargetLinkRoute c t r w =
      if (w.targets.cell t).rule = none then objTargetInstall c t (w.withRoute t r)
      else .ok (w.withRoute t r) := by
  have first : objTargetWeakRef t w =
      .ok (w.setTarget t fun target => { target with obj := objWeakRef target.obj }) := by
    rw [objTargetWeakRef, target_live target]
    rfl
  have second : ∀ f : ObjTarget → ObjTarget,
      objRouteRef r ((w.setTarget t f).setRoute r fun route => { route with target := some t }) =
        .ok (((w.setTarget t f).setRoute r fun route => { route with target := some t }).setRoute r
          fun route => { route with obj := objRef route.obj }) := by
    intro f
    have followed : ((w.setTarget t f).setRoute r fun route =>
        { route with target := some t }).route r = .ok _ := route_live (by rwa [cell_setRoute])
    rw [objRouteRef, followed]
    rfl
  have linked : ((((w.setTarget t fun target => { target with obj := objWeakRef target.obj }).setRoute
      r fun route => { route with target := some t }).setRoute r fun route =>
        { route with obj := objRef route.obj }).setTarget t fun target =>
          { target with routes := target.routes ++ [r] }) = w.withRoute t r := by
    simp [World.withRoute, World.setTarget, World.setRoute]
  have kept : ((w.withRoute t r).targets.cell t).obj.kind = .target ∧
      ((w.withRoute t r).targets.cell t).rule = (w.targets.cell t).rule := by
    simp [World.withRoute, World.setTarget, World.setRoute, target]
  rw [objTargetLinkRoute, target_live target, ok_bind, route_live live, ok_bind, noTarget, require,
    if_pos rfl, ok_bind, first, ok_bind]
  dsimp only
  rw [second, ok_bind, linked, target_live kept.1, ok_bind, kept.2]
  rfl

/-- `obj_target_link_route` up to the installation of the target. -/
theorem objTargetLinkRoute_ok {c : Calls} (ran : objTargetLinkRoute c t r w = .ok w') :
    (w.targets.cell t).obj.kind = .target ∧ (w.routes.cell r).obj.kind = .route ∧
      (w.routes.cell r).target = none ∧
      (((w.targets.cell t).rule = none ∧ objTargetInstall c t (w.withRoute t r) = .ok w') ∨
        w' = w.withRoute t r) := by
  obtain ⟨target, followed, checked⟩ := bind_returned ran
  obtain ⟨live, rfl⟩ := target_ok followed
  obtain ⟨route, followed', checked⟩ := bind_returned checked
  obtain ⟨live', rfl⟩ := route_ok followed'
  obtain ⟨_, noTarget, -⟩ := bind_returned checked
  have noTarget := of_require noTarget
  refine ⟨live, live', noTarget, ?_⟩
  rw [objTargetLinkRoute_eq c live live' noTarget] at ran
  split at ran
  · next noRule => exact .inl ⟨noRule, ran⟩
  · cases ran
    exact .inr rfl

/-- With its pointers `obj_target_unlink_route` does what it does without them. -/
theorem objTargetUnlinkRoute_refines (d : Unrefs) {lists : RouteLists} {before after : List RouteId}
    (linked : Linked lists.tNextRoute (lists.firstRoute t) (before ++ r :: after))
    (routes : (w.targets.cell t).routes = before ++ r :: after)
    (live : ∀ i ∈ before ++ r :: after, (w.routes.cell i).obj.kind = .route ∧ i < w.routes.next) :
    RouteLists.objTargetUnlinkRoute d t r lists w = (do
      let w ← objTargetUnlinkRoute d t r w
      return (w, lists.cut t r (RouteLists.placeAfter t before.getLast?) before.getLast?)) := by
  have first : r ∉ before := by
    have once := linked.nodup
    rw [List.nodup_middle] at once
    exact fun member => (List.nodup_cons.mp once).1 (List.mem_append_left _ member)
  have enough : before.length < w.routes.next := by
    have short := linked.length_le fun i member => (live i member).2
    rw [List.length_append, List.length_cons] at short
    omega
  simp only [RouteLists.objTargetUnlinkRoute, objTargetUnlinkRoute, bind_assoc]
  refine bind_congr_ok fun w₁ counted => bind_congr_ok fun w₂ counted' => ?_
  refine bind_congr fun route => bind_congr fun _ => bind_congr_ok fun w₃ dropped => ?_
  refine bind_congr_ok fun target followed => ?_
  obtain ⟨-, rfl⟩ := target_ok followed
  obtain ⟨_, -, counted⟩ := bind_returned counted
  obtain ⟨_, -, counted'⟩ := bind_returned counted'
  obtain ⟨_, followed', dropped⟩ := bind_returned dropped
  obtain ⟨_, -, dropped⟩ := bind_returned dropped
  cases counted
  cases counted'
  cases dropped
  have listed : r ∈ before ++ r :: after := List.mem_append_right _ List.mem_cons_self
  set w₄ := World.setRoute _ r _
  have same : (w₄.targets.cell t).routes = before ++ r :: after := by
    rw [← routes]
    simp [w₄, World.setRoute, World.setTarget]
  have kinds : ∀ i, (w₄.routes.cell i).obj.kind = (w.routes.cell i).obj.kind := by
    intro i
    simp only [w₄, World.setRoute, World.setTarget, Heap.modify_modify]
    exact Heap.cell_modify_field w.routes r i (fun route => route.obj.kind) fun route => by simp
  have visited : ∀ i ∈ before ++ [r], (w₄.routes.cell i).obj.kind = .route := by
    intro i member
    rw [kinds]
    apply (live i _).1
    simp only [List.mem_append, List.mem_cons] at member ⊢
    tauto
  have found : RouteLists.unlinkLoop d t r w₄.routes.next (lists.firstRoute t) (.first t) none
      lists w₄ = _ :=
    @RouteLists.unlinkLoop_found lists t r w₄ d _ none _ _ _ linked first enough visited
  rw [Option.or_none] at found
  rw [same, if_pos listed, found]
  simp only [bind_assoc, pure_bind]

/-- What `obj_target_unlink_route` asks of the route, and its last step. -/
theorem objTargetUnlinkRoute_ok {d : Unrefs} {lists lists' : RouteLists}
    (ran : RouteLists.objTargetUnlinkRoute d t r lists w = .ok (w', lists')) :
    (w.targets.cell t).obj.kind = .target ∧ (w.routes.cell r).obj.kind = .route ∧
      (w.routes.cell r).target = some t ∧ ∃ w₁, d.objTargetUnref t w₁ = .ok w' := by
  obtain ⟨w₁, counted, ran⟩ := bind_returned ran
  obtain ⟨target, followed, counted⟩ := bind_returned counted
  obtain ⟨live, -⟩ := target_ok followed
  cases counted
  obtain ⟨w₂, counted, ran⟩ := bind_returned ran
  obtain ⟨route, followed, counted⟩ := bind_returned counted
  obtain ⟨live', -⟩ := route_ok followed
  cases counted
  obtain ⟨route, followed, ran⟩ := bind_returned ran
  obtain ⟨-, rfl⟩ := route_ok followed
  obtain ⟨_, same, ran⟩ := bind_returned ran
  have same := of_require same
  rw [cell_setRoute] at same
  refine ⟨live, live', same, ?_⟩
  obtain ⟨w₃, -, ran⟩ := bind_returned ran
  obtain ⟨target, -, ran⟩ := bind_returned ran
  obtain ⟨⟨w₄, lists₄⟩, -, ran⟩ := bind_returned ran
  obtain ⟨w₅, -, ran⟩ := bind_returned ran
  obtain ⟨w₆, released, ran⟩ := bind_returned ran
  cases ran
  exact ⟨w₅, released⟩

/-- `obj_target_unlink_route` up to its reference to the target. -/
theorem objTargetUnlinkRoute_eq (c : Calls) (k : Nat)
    (live : (w.targets.cell t).obj.kind = .target)
    (live' : (w.routes.cell r).obj.kind = .route)
    (installed : (w.routes.cell r).obj.state = .installed) (normal : w.mode = .normal)
    (target : (w.routes.cell r).target = some t)
    (positive : 0 < (w.targets.cell t).obj.weakRefcnt)
    (positive' : 0 < (w.routes.cell r).obj.refcnt) (listed : r ∈ (w.targets.cell t).routes) :
    objTargetUnlinkRoute (unrefs c (k + 1)) t r w =
      objTargetUnref c (unrefs c k) t (w.withoutRoute t r) := by
  -- every world on the way is one write to the target and one to the route
  have cells : ∀ (f : ObjTarget → ObjTarget) (g : ObjRoute → ObjRoute),
      ((w.setTarget t f).setRoute r g).targets.cell t = f (w.targets.cell t) ∧
      ((w.setTarget t f).setRoute r g).routes.cell r = g (w.routes.cell r) :=
    fun f g => ⟨cell_setTarget w t f, cell_setRoute w r g⟩
  have targets : ∀ (f h : ObjTarget → ObjTarget) (g : ObjRoute → ObjRoute),
      ((w.setTarget t f).setRoute r g).setTarget t h =
        (w.setTarget t fun target => h (f target)).setRoute r g := by
    intro f h g
    simp [World.setTarget, World.setRoute]
  have routes : ∀ (f : ObjTarget → ObjTarget) (g h : ObjRoute → ObjRoute),
      ((w.setTarget t f).setRoute r g).setRoute r h =
        (w.setTarget t f).setRoute r fun route => h (g route) := by
    intro f g h
    simp [World.setTarget, World.setRoute]
  have first : objTargetRef t w =
      .ok (w.setTarget t fun target => { target with obj := objRef target.obj }) := by
    rw [objTargetRef, target_live live]
    rfl
  have second : ∀ f : ObjTarget → ObjTarget, objRouteRef r (w.setTarget t f) =
      .ok ((w.setTarget t f).setRoute r fun route => { route with obj := objRef route.obj }) := by
    intro f
    have followed : (w.setTarget t f).route r = .ok _ := route_live live'
    rw [objRouteRef, followed]
    rfl
  have unref : ∀ (f : ObjTarget → ObjTarget) (g : ObjRoute → ObjRoute),
      (g (w.routes.cell r)).obj.kind = .route → (g (w.routes.cell r)).obj.state = .installed →
      0 < (g (w.routes.cell r)).obj.refcnt →
      (unrefs c (k + 1)).objRouteUnref r ((w.setTarget t f).setRoute r g) =
        .ok ((w.setTarget t f).setRoute r fun route => { g route with
          obj := { (g route).obj with refcnt := (g route).obj.refcnt - 1 } }) := by
    intro f g kind state some
    show objRouteUnref c (unrefs c k) r ((w.setTarget t f).setRoute r g) = _
    rw [objRouteUnref_live c _ (by rwa [(cells f g).2]) (by rwa [(cells f g).2])
      (show ((w.setTarget t f).setRoute r g).mode = _ from normal) (by rwa [(cells f g).2]), routes]
  rw [objTargetUnlinkRoute, first, ok_bind, second, ok_bind]
  rw [route_live (by rw [(cells _ _).2]; simpa using live'), ok_bind, (cells _ _).2]
  rw [require, if_pos target, ok_bind]
  rw [objTargetWeakUnref_live (by rw [(cells _ _).1]; simpa using live)
    (by rw [(cells _ _).1]; simpa using positive), ok_bind, targets]
  dsimp only
  rw [routes, target_live (by rw [(cells _ _).1]; simpa using live), ok_bind, (cells _ _).1,
    if_pos listed, targets]
  rw [unref _ _ (by simpa using live') (by simpa using installed) (by simp [objRef, installed]),
    ok_bind]
  rw [unref _ _ (by simpa using live') (by simpa using installed)
    (by simpa [objRef, installed] using positive'), ok_bind]
  show objTargetUnref c (unrefs c k) t _ = objTargetUnref c (unrefs c k) t _
  congr 1
  rw [World.withoutRoute]
  refine (congrArg (fun v => World.setRoute v r _) (setTarget_congr w t _ _ ?_)).trans
    (setRoute_congr _ r _ _ ?_)
  · simp
  · have same : ∀ f : ObjTarget → ObjTarget, (w.setTarget t f).routes.cell r = w.routes.cell r :=
      fun _ => rfl
    simp [same, objRef, installed]

end Steps

/-- Before any route is linked: targets without routes, and installed routes without targets. -/
structure Prepared (w : World) : Prop where
  normal : w.mode = .normal
  counted : Counted w
  target : ∀ t, (w.targets.cell t).obj.kind = .target →
    (w.targets.cell t).obj.state ≠ .zombie ∧ (w.targets.cell t).routes = []
  route : ∀ r, (w.routes.cell r).obj.kind = .route → (w.routes.cell r).obj.state = .installed ∧
    (w.routes.cell r).target = none ∧ r < w.routes.next

/-- The references that a route's target has to it. -/
def targetRefs (route : ObjRoute) : Nat := if route.target = none then 0 else 1

/-- What holds between two steps; `w₀` is the world before the first one. -/
structure Kept (w₀ w : World) (lists : RouteLists) (order : TargetId → List RouteId) : Prop where
  listed : lists.Listed order
  normal : w.mode = .normal
  counted : Counted w
  target : ∀ t, (w.targets.cell t).obj.kind = .target →
    (w.targets.cell t).obj.state ≠ .zombie ∧ (w.targets.cell t).routes = order t
  route : ∀ r, (w.routes.cell r).obj.kind = .route → (w.routes.cell r).obj.state = .installed ∧
    r < w.routes.next ∧
    (w.routes.cell r).obj.refcnt = (w₀.routes.cell r).obj.refcnt + targetRefs (w.routes.cell r)
  mem : ∀ t r, r ∈ order t ↔
    (w.routes.cell r).obj.kind = .route ∧ (w.routes.cell r).target = some t

section Kept

variable {w₀ w w' : World} {lists lists' : RouteLists} {order : TargetId → List RouteId}
variable {t : TargetId} {r : RouteId}

theorem Prepared.kept (prepared : Prepared w) : Kept w w {} fun _ => [] where
  listed := RouteLists.listed_nil
  normal := prepared.normal
  counted := prepared.counted
  target := prepared.target
  route i live := by
    obtain ⟨installed, noTarget, below⟩ := prepared.route i live
    refine ⟨installed, below, ?_⟩
    rw [targetRefs, if_pos noTarget, Nat.add_zero]
  mem u i := by
    refine ⟨fun inside => absurd inside List.not_mem_nil, fun ⟨live, target⟩ => ?_⟩
    rw [(prepared.route i live).2.1] at target
    cases target

namespace Kept

/-- What leaves the routes and their targets alone keeps the lists. -/
theorem same (kept : Kept w₀ w lists order) (same : SameRoutes w w') (counted : Counted w') :
    Kept w₀ w' lists order where
  listed := kept.listed
  normal := same.mode.trans kept.normal
  counted := counted
  target u live := by
    obtain ⟨live, state, routes⟩ := same.target u live
    rw [state, routes]
    exact kept.target u live
  route i live := by
    have refs : targetRefs (w'.routes.cell i) = targetRefs (w.routes.cell i) := by
      rw [targetRefs, targetRefs, (same.route i).2]
    rw [(same.route i).1] at live ⊢
    rw [same.routesNext, refs]
    exact kept.route i live
  mem u i := by
    rw [(same.route i).1, (same.route i).2]
    exact kept.mem u i

/-- The weak references to a target go with its routes. -/
theorem counted_moved (kept : Kept w₀ w lists order) {routes : List RouteId}
    {weakRefcnt refcnt : Nat} {target : Option TargetId}
    (moved : Moved w t r routes weakRefcnt target refcnt w')
    (weak : weakRefcnt + (order t).length = (w.targets.cell t).obj.weakRefcnt + routes.length) :
    Counted w' := by
  obtain ⟨refs, here⟩ := moved.atTarget
  have aims : ∀ q u, Aims w' q u ↔ Aims w q u := by
    intro q u
    rw [Aims, moved.rules, Aims]
  constructor
  · intro q u aim
    have old := kept.counted.own q u ((aims q u).mp aim)
    by_cases mine : u = t
    · subst mine
      rw [here]
      exact old
    · rwa [moved.otherTarget u mine]
  · rw [moved.rules]
    exact kept.counted.fresh
  · intro u live
    by_cases mine : u = t
    · subst mine
      rw [here] at live
      have same := (kept.target u live).2
      have aimed : Aimed w' u ↔ Aimed w u := exists_congr fun q => aims q u
      rw [Weighed, aimed, here]
      obtain ⟨aim, count⟩ | ⟨unaimed, count⟩ := kept.counted.weighed u live
      · refine .inl ⟨aim, ?_⟩
        rw [same] at count
        show weakRefcnt = routes.length + 1
        omega
      · refine .inr ⟨unaimed, ?_⟩
        rw [same] at count
        show weakRefcnt = routes.length
        omega
    · rw [moved.otherTarget u mine] at live
      refine (kept.counted.weighed u live).congr (fun q => aims q u) ?_ ?_
      · rw [moved.otherTarget u mine]
      · rw [moved.otherTarget u mine]

/-- A route that comes to a list, or leaves one, with its references. -/
theorem moved (kept : Kept w₀ w lists order) {routes : List RouteId}
    {weakRefcnt refcnt : Nat} {target : Option TargetId}
    (moved : Moved w t r routes weakRefcnt target refcnt w')
    (live : (w.routes.cell r).obj.kind = .route)
    (listed : lists'.Listed (Function.update order t routes))
    (weak : weakRefcnt + (order t).length = (w.targets.cell t).obj.weakRefcnt + routes.length)
    (refs : refcnt = (w₀.routes.cell r).obj.refcnt + if target = none then 0 else 1)
    (elsewhere : ∀ u, u ≠ t → r ∉ order u ∧ target ≠ some u)
    (mem : ∀ i, i ∈ routes ↔ (i ≠ r ∧ i ∈ order t) ∨ (i = r ∧ target = some t)) :
    Kept w₀ w' lists' (Function.update order t routes) where
  listed := listed
  normal := moved.mode.trans kept.normal
  counted := kept.counted_moved moved weak
  target u target := by
    by_cases mine : u = t
    · subst mine
      obtain ⟨_, here⟩ := moved.atTarget
      rw [here] at target ⊢
      rw [Function.update_self]
      exact ⟨(kept.target u target).1, rfl⟩
    · rw [moved.otherTarget u mine] at target ⊢
      rw [Function.update_of_ne mine]
      exact kept.target u target
  route i alive := by
    rw [moved.routesNext]
    by_cases mine : i = r
    · subst mine
      obtain ⟨installed, below, -⟩ := kept.route i live
      rw [moved.atRoute, targetRefs]
      exact ⟨installed, below, refs⟩
    · rw [moved.otherRoute i mine] at alive ⊢
      exact kept.route i alive
  mem u i := by
    by_cases mine : i = r
    · subst mine
      rw [moved.atRoute]
      by_cases here : u = t
      · subst here
        rw [Function.update_self, mem i]
        simp [live]
      · rw [Function.update_of_ne here]
        have apart := elsewhere u here
        exact ⟨fun inside => absurd inside apart.1, fun both => absurd both.2 apart.2⟩
    · rw [moved.otherRoute i mine, ← kept.mem u i]
      by_cases here : u = t
      · subst here
        rw [Function.update_self, mem i]
        simp [mine]
      · rw [Function.update_of_ne here]

/-- `obj_target_link_route` puts the route at the end of the target's list. -/
theorem link (kept : Kept w₀ w lists order) {depth : Nat}
    (ran : RouteLists.objTargetLinkRoute (calls depth) t r lists w = .ok (w', lists')) :
    Kept w₀ w' lists' (Function.update order t (order t ++ [r])) ∧
      lists' = lists.link t r ∧ ∀ u, r ∉ order u := by
  rw [objTargetLinkRoute_refines] at ran
  obtain ⟨w₁, linking, same⟩ := bind_returned ran
  cases same
  obtain ⟨target, live, noTarget, after⟩ := objTargetLinkRoute_ok linking
  obtain ⟨alive, routes⟩ := kept.target t target
  obtain ⟨installed, -, refs⟩ := kept.route r live
  have nowhere : ∀ u, r ∉ order u := by
    intro u inside
    have other := ((kept.mem u r).mp inside).2
    rw [noTarget] at other
    cases other
  have moved : Moved w t r _ _ _ _ (w.withRoute t r) := moved_withRoute alive installed
  rw [routes] at moved
  have linked : Kept w₀ (w.withRoute t r) (lists.link t r)
      (Function.update order t (order t ++ [r])) := by
    apply kept.moved moved live (kept.listed.link nowhere)
    · rw [List.length_append, List.length_singleton]
      omega
    · rw [refs, targetRefs, if_pos noTarget]
      rfl
    · exact fun u other => ⟨nowhere u, fun same => other (Option.some.inj same).symm⟩
    · intro i
      rw [List.mem_append, List.mem_singleton]
      refine or_congr ⟨fun inside => ⟨?_, inside⟩, And.right⟩ (by simp)
      rintro rfl
      exact nowhere t inside
  refine ⟨?_, rfl, nowhere⟩
  obtain ⟨noRule, install⟩ | rfl := after
  · obtain ⟨refs, here⟩ := moved.atTarget
    have rule : ((w.withRoute t r).targets.cell t).rule = none := by
      rw [here]
      exact noRule
    have state : ((w.withRoute t r).targets.cell t).obj.state ≠ .zombie := by
      rw [here]
      exact alive
    obtain ⟨same, counted⟩ := (objTargetInstall_counted (calls_writing depth) linked.counted
      rule state).of_ok install
    exact linked.same same counted
  · exact linked

/-- `obj_target_link_route` returns where it need not install the target, or that returns. -/
theorem link_returns (target : (w.targets.cell t).obj.kind = .target)
    (live : (w.routes.cell r).obj.kind = .route) (noTarget : (w.routes.cell r).target = none)
    {c : Calls} (installs : (w.targets.cell t).rule ≠ none ∨
      ∃ w', objTargetInstall c t (w.withRoute t r) = .ok w') (lists : RouteLists) :
    ∃ w' lists', RouteLists.objTargetLinkRoute c t r lists w = .ok (w', lists') := by
  rw [objTargetLinkRoute_refines, objTargetLinkRoute_eq c target live noTarget]
  split
  · next none =>
    obtain ⟨w', install⟩ := installs.resolve_left fun some => some none
    rw [install]
    exact ⟨w', _, rfl⟩
  · exact ⟨_, _, rfl⟩

/-- A target with routes has weak references. -/
theorem weak_pos (kept : Kept w₀ w lists order) (target : (w.targets.cell t).obj.kind = .target)
    (listed : r ∈ order t) : 0 < (w.targets.cell t).obj.weakRefcnt := by
  have some : 0 < (order t).length := List.length_pos_of_mem listed
  have routes := (kept.target t target).2
  obtain ⟨-, count⟩ | ⟨-, count⟩ := kept.counted.weighed t target
  · rw [count]
    exact Nat.succ_pos _
  · rwa [count, routes]

/-- `obj_target_unlink_route` finds the route of a target on its list. -/
theorem unlink_eq (kept : Kept w₀ w lists order)
    (target : (w.targets.cell t).obj.kind = .target) (live : (w.routes.cell r).obj.kind = .route)
    (hasTarget : (w.routes.cell r).target = some t) :
    ∃ before after, order t = before ++ r :: after ∧ ∀ (c : Calls) (k : Nat),
      RouteLists.objTargetUnlinkRoute (unrefs c (k + 1)) t r lists w = (do
        let w ← objTargetUnref c (unrefs c k) t (w.withoutRoute t r)
        return (w, lists.cut t r (RouteLists.placeAfter t before.getLast?) before.getLast?)) := by
  have routes := (kept.target t target).2
  obtain ⟨installed, -, refs⟩ := kept.route r live
  have listed : r ∈ order t := (kept.mem t r).mpr ⟨live, hasTarget⟩
  obtain ⟨before, after, found⟩ := List.append_of_mem listed
  refine ⟨before, after, found, fun c k => ?_⟩
  have linked := kept.listed.linked t
  rw [found] at linked
  have members : ∀ i ∈ before ++ r :: after,
      (w.routes.cell i).obj.kind = .route ∧ i < w.routes.next := by
    intro i inside
    rw [← found] at inside
    have live := ((kept.mem t i).mp inside).1
    exact ⟨live, (kept.route i live).2.1⟩
  have positive := kept.weak_pos target listed
  have positive' : 0 < (w.routes.cell r).obj.refcnt := by
    rw [refs, targetRefs, hasTarget]
    exact Nat.succ_pos _
  rw [objTargetUnlinkRoute_refines _ linked (routes.trans found) members]
  rw [objTargetUnlinkRoute_eq c k target live installed kept.normal hasTarget positive positive'
    (routes ▸ listed)]

/-- The world without the route, and the lists. -/
theorem unlinked (kept : Kept w₀ w lists order) {before after : List RouteId}
    (target : (w.targets.cell t).obj.kind = .target) (live : (w.routes.cell r).obj.kind = .route)
    (hasTarget : (w.routes.cell r).target = some t) (found : order t = before ++ r :: after) :
    Kept w₀ (w.withoutRoute t r)
      (lists.cut t r (RouteLists.placeAfter t before.getLast?) before.getLast?)
      (Function.update order t ((order t).erase r)) := by
  have refs := (kept.route r live).2.2
  have listed : r ∈ order t := (kept.mem t r).mpr ⟨live, hasTarget⟩
  have moved := moved_withoutRoute w t r
  rw [(kept.target t target).2] at moved
  have once : (order t).Nodup := (kept.listed.linked t).nodup
  have shorter : (order t).erase r = before ++ after := by
    have first : r ∉ before := by
      rw [found, List.nodup_middle] at once
      exact fun inside => (List.nodup_cons.mp once).1 (List.mem_append_left _ inside)
    rw [found, List.erase_append_right _ first, List.erase_cons_head]
  have cut := kept.listed.cut found
  rw [← shorter] at cut
  apply kept.moved moved live cut
  · have some : 0 < (order t).length := List.length_pos_of_mem listed
    have weak := kept.weak_pos target listed
    rw [List.length_erase_of_mem listed]
    omega
  · rw [refs, targetRefs, hasTarget]
    rfl
  · refine fun u other => ⟨fun inside => ?_, fun same => nomatch same⟩
    have theirs := ((kept.mem u r).mp inside).2
    rw [hasTarget] at theirs
    exact other (Option.some.inj theirs).symm
  · intro i
    rw [once.mem_erase_iff]
    simp

/-- `obj_target_unlink_route` takes the route off the target's list. -/
theorem unlink (kept : Kept w₀ w lists order) {depth : Nat}
    (ran : RouteLists.objTargetUnlinkRoute (unrefs (calls depth) depth) t r lists w =
      .ok (w', lists')) :
    Kept w₀ w' lists' (Function.update order t ((order t).erase r)) ∧
      ∃ before after, order t = before ++ r :: after ∧
        lists' = lists.cut t r (RouteLists.placeAfter t before.getLast?) before.getLast? := by
  obtain ⟨target, live, hasTarget, w₁, released⟩ := objTargetUnlinkRoute_ok ran
  cases depth with
  | zero => cases released
  | succ k =>
    obtain ⟨before, after, found, eq⟩ := kept.unlink_eq target live hasTarget
    rw [eq] at ran
    obtain ⟨w₂, unlinking, same⟩ := bind_returned ran
    cases same
    have unlinked := kept.unlinked target live hasTarget found
    obtain ⟨same, counted⟩ := (objTargetUnref_counted (calls_writing (k + 1)) k unlinked.counted
      unlinked.normal fun i live => (unlinked.route i live).1).of_ok unlinking
    exact ⟨unlinked.same same counted, before, after, found, rfl⟩

/-- `obj_target_unlink_route` returns while somebody else has a reference to the target. -/
theorem unlink_returns (kept : Kept w₀ w lists order)
    (target : (w.targets.cell t).obj.kind = .target) (live : (w.routes.cell r).obj.kind = .route)
    (hasTarget : (w.routes.cell r).target = some t) (used : 0 < (w.targets.cell t).obj.refcnt)
    (depth : Nat) : ∃ w' lists', RouteLists.objTargetUnlinkRoute
      (unrefs (calls (depth + 1)) (depth + 1)) t r lists w = .ok (w', lists') := by
  obtain ⟨before, after, found, eq⟩ := kept.unlink_eq target live hasTarget
  rw [eq]
  have alive := (kept.target t target).1
  set w₁ := w.withoutRoute t r
  have here : (w₁.targets.cell t).obj = { objRef (w.targets.cell t).obj with
      weakRefcnt := (w.targets.cell t).obj.weakRefcnt - 1 } := by
    simp [w₁, World.withoutRoute, World.setRoute, World.setTarget]
  have kind : (w₁.targets.cell t).obj.kind = .target := by
    rw [here]
    exact (kind_objRef _).trans target
  have refs : (w₁.targets.cell t).obj.refcnt = (w.targets.cell t).obj.refcnt + 1 := by
    rw [here]
    exact refcnt_objRef alive
  rw [objTargetUnref, target_live kind, ok_bind]
  have counted : objUnref (w₁.targets.cell t).obj = .ok { (w₁.targets.cell t).obj with
      refcnt := (w.targets.cell t).obj.refcnt } := by
    rw [objUnref, if_neg fun zombie => by omega, if_pos (by omega), refs, Nat.add_sub_cancel]
  rw [counted, ok_bind, if_neg]
  · exact ⟨_, _, rfl⟩
  · show ¬ objIsReapable w.mode _ = true
    rw [kept.normal]
    simp [objIsReapable, Nat.ne_of_gt used]

end Kept

end Kept

/-- A route is linked to a target, or unlinked from it. -/
inductive RouteOp
  | link (t : TargetId) (r : RouteId)
  | unlink (t : TargetId) (r : RouteId)
  deriving DecidableEq, Repr

namespace RouteOp

/-- The target whose list changes. -/
def target : RouteOp → TargetId
  | .link t _ => t
  | .unlink t _ => t

/-- The call, with a bound on the depth of the calls it makes. -/
def call (depth : Nat) : RouteOp → RouteLists → World → Except Fault (World × RouteLists)
  | .link t r => RouteLists.objTargetLinkRoute (calls depth) t r
  | .unlink t r => RouteLists.objTargetUnlinkRoute (unrefs (calls depth) depth) t r

/-- What becomes of the routes of the targets, oldest link first. -/
def reorder (order : TargetId → List RouteId) : RouteOp → TargetId → List RouteId
  | .link t r => Function.update order t (order t ++ [r])
  | .unlink t r => Function.update order t ((order t).erase r)

end RouteOp

/-- The routes that were linked to a target and not unlinked since, oldest link first. -/
def linkOrder (ops : List RouteOp) : TargetId → List RouteId :=
  ops.foldl RouteOp.reorder fun _ => []

/-- The worlds and the lists that are reached by linking and unlinking routes. -/
inductive RouteRun (w₀ : World) : List RouteOp → World → RouteLists → Prop
  | start : RouteRun w₀ [] w₀ {}
  | step {ops : List RouteOp} {op : RouteOp} {depth : Nat} {w w' : World}
      {lists lists' : RouteLists} : RouteRun w₀ ops w lists →
      op.call depth lists w = .ok (w', lists') → RouteRun w₀ (ops ++ [op]) w' lists'

section Runs

variable {w₀ w : World} {lists : RouteLists} {ops : List RouteOp}

/-- A step keeps the lists, and those of other targets as they were. -/
theorem Kept.step {order : TargetId → List RouteId} (kept : Kept w₀ w lists order) {op : RouteOp}
    {depth : Nat} {w' : World} {lists' : RouteLists}
    (ran : op.call depth lists w = .ok (w', lists')) :
    Kept w₀ w' lists' (op.reorder order) ∧
      ∀ t, t ≠ op.target → lists.SameList lists' t (order t) := by
  cases op with
  | link t r =>
    obtain ⟨next, rfl, -⟩ := kept.link ran
    exact ⟨next, fun u other => kept.listed.link_other other⟩
  | unlink t r =>
    obtain ⟨next, before, after, found, rfl⟩ := kept.unlink ran
    exact ⟨next, fun u other => kept.listed.cut_other found other⟩

/-- Every run keeps the lists in the order of the links. -/
theorem RouteRun.kept (prepared : Prepared w₀) (run : RouteRun w₀ ops w lists) :
    Kept w₀ w lists (linkOrder ops) := by
  induction run with
  | start => exact prepared.kept
  | step _ ran ih =>
    rw [linkOrder, List.foldl_append]
    exact (ih.step ran).1

/-- What the pointers of the targets' lists are after any run. A run goes on with any route: a link
returns where the target has a rule or is installed, an unlink where the target stays in use. -/
theorem target_route_lists (prepared : Prepared w₀) (run : RouteRun w₀ ops w lists) :
    (∀ t, Linked lists.tNextRoute (lists.firstRoute t) (linkOrder ops t) ∧
      lists.lastRoute t = (linkOrder ops t).getLast? ∧ (linkOrder ops t).Nodup ∧
      ∀ r, r ∈ linkOrder ops t ↔
        (w.routes.cell r).obj.kind = .route ∧ (w.routes.cell r).target = some t) ∧
    (∀ t, (w.targets.cell t).obj.kind = .target →
      (Aimed w t ∧ (w.targets.cell t).obj.weakRefcnt = (linkOrder ops t).length + 1) ∨
      (¬ Aimed w t ∧ (w.targets.cell t).obj.weakRefcnt = (linkOrder ops t).length)) ∧
    (∀ r, (w.routes.cell r).obj.kind = .route →
      (w.routes.cell r).obj.refcnt =
        (w₀.routes.cell r).obj.refcnt + (if (w.routes.cell r).target = none then 0 else 1) ∧
      ((w.routes.cell r).target = none → lists.tNextRoute r = none)) ∧
    (∀ (op : RouteOp) (depth : Nat) (w' : World) (lists' : RouteLists),
      op.call depth lists w = .ok (w', lists') → ∀ t, t ≠ op.target →
        linkOrder (ops ++ [op]) t = linkOrder ops t ∧
        lists'.firstRoute t = lists.firstRoute t ∧ lists'.lastRoute t = lists.lastRoute t ∧
        ∀ r ∈ linkOrder ops t, lists'.tNextRoute r = lists.tNextRoute r) ∧
    (∀ (t : TargetId) (r : RouteId) (depth : Nat), (w.targets.cell t).obj.kind = .target →
      (w.routes.cell r).obj.kind = .route → (w.routes.cell r).target = none →
      (w.targets.cell t).rule ≠ none ∨
        (∃ w', objTargetInstall (calls depth) t (w.withRoute t r) = .ok w') →
      ∃ w' lists', (RouteOp.link t r).call depth lists w = .ok (w', lists')) ∧
    ∀ (t : TargetId) (r : RouteId) (depth : Nat), (w.targets.cell t).obj.kind = .target →
      0 < (w.targets.cell t).obj.refcnt → (w.routes.cell r).obj.kind = .route →
      (w.routes.cell r).target = some t →
      ∃ w' lists', (RouteOp.unlink t r).call (depth + 1) lists w = .ok (w', lists') := by
  have kept := run.kept prepared
  refine ⟨fun t => ?_, fun t target => ?_, fun r live => ?_, ?_, ?_, ?_⟩
  · exact ⟨kept.listed.linked t, kept.listed.last t, (kept.listed.linked t).nodup, kept.mem t⟩
  · have weighed := kept.counted.weighed t target
    rwa [Weighed, (kept.target t target).2] at weighed
  · refine ⟨(kept.route r live).2.2, fun noTarget => kept.listed.loose r fun t listed => ?_⟩
    have hasTarget := ((kept.mem t r).mp listed).2
    rw [noTarget] at hasTarget
    cases hasTarget
  · intro op depth w' lists' ran t other
    refine ⟨?_, (kept.step ran).2 t other⟩
    rw [linkOrder, List.foldl_append]
    cases op with
    | link u r => exact Function.update_of_ne other _ _
    | unlink u r => exact Function.update_of_ne other _ _
  · intro t r depth target live noTarget installs
    exact Kept.link_returns target live noTarget installs lists
  · intro t r depth target used live hasTarget
    exact kept.unlink_returns target live hasTarget used depth

/-- A target with its neighbour and its link, and two installed routes. -/
def twoRoutes : World where
  links := Heap.alloc {} { obj := { kind := .link }, vlanId := 7, lladdr := 1 }
  neighs := Heap.alloc {} {
    obj := { kind := .neigh }, link := some 0, addr := ⟨afInet, 0, 0, 0⟩, lladdr := 2 }
  targets := Heap.alloc {} {
    obj := { kind := .target, refcnt := 1 }, nexthopCnt := 1, nexthop := [0] }
  routes := (Heap.alloc {} { obj := { kind := .route, state := .installed } }).alloc
    { obj := { kind := .route, state := .installed } }

theorem prepared_twoRoutes : Prepared twoRoutes where
  normal := rfl
  counted := by
    have noRule : ∀ r, (twoRoutes.rules.cell r).obj.kind ≠ .rule := fun _ same => nomatch same
    have unaimed : ∀ t, ¬ Aimed twoRoutes t := fun _ aimed => noRule _ aimed.choose_spec.1
    refine ⟨fun r _ aim => absurd aim.1 (noRule r), fun r _ => noRule r, fun t _ => ?_⟩
    refine .inr ⟨unaimed t, ?_⟩
    simp only [twoRoutes, Heap.cell_alloc]
    split <;> rfl
  target t live := by
    simp only [twoRoutes, Heap.cell_alloc] at live ⊢
    split
    · exact ⟨nofun, rfl⟩
    · exact ⟨nofun, rfl⟩
  route r live := by
    simp only [twoRoutes, Heap.cell_alloc] at live ⊢
    split at live
    · next second =>
      rw [if_pos second]
      exact ⟨rfl, rfl, by rw [second]; decide⟩
    · split at live
      · next other first =>
        rw [if_neg other, if_pos first]
        exact ⟨rfl, rfl, by rw [first]; decide⟩
      · cases live

theorem target_route_lists_two : ∃ w lists,
    RouteRun twoRoutes [.link 0 0, .link 0 1, .unlink 0 0] w lists ∧
      Linked lists.tNextRoute (lists.firstRoute 0) [1] ∧ lists.lastRoute 0 = some 1 ∧
      ∃ w' lists', (RouteOp.link 0 0).call 1 lists w = .ok (w', lists') := by
  obtain ⟨w, lists, run, target, live, noTarget, rule⟩ : ∃ w lists,
      RouteRun twoRoutes [.link 0 0, .link 0 1, .unlink 0 0] w lists ∧
      (w.targets.cell 0).obj.kind = .target ∧ (w.routes.cell 0).obj.kind = .route ∧
      (w.routes.cell 0).target = none ∧ (w.targets.cell 0).rule = some 0 := by
    refine ⟨_, _, @RouteRun.step _ [.link 0 0, .link 0 1] _ 1 _ _ _ _
      (@RouteRun.step _ [.link 0 0] _ 1 _ _ _ _
        (@RouteRun.step _ [] _ 1 _ _ _ _ .start rfl) rfl) rfl, rfl, rfl, rfl, rfl⟩
  obtain ⟨pointers, -, -, -, links, -⟩ := target_route_lists prepared_twoRoutes run
  obtain ⟨linked, last, -⟩ := pointers 0
  exact ⟨w, lists, run, linked, last,
    links 0 0 1 target live noTarget (.inl (by rw [rule]; exact Option.some_ne_none 0))⟩

end Runs

end FlowerRoute
