import FlowerRoute.Lib.LinkedList
import FlowerRoute.Model.Target
import Mathlib.Logic.Function.Basic

/-!
# Lists of routes

`obj_target_link_route` and `obj_target_unlink_route` with the pointers of the lists:
`first_route`, `last_route` and `t_next_route`. Beside them the world keeps what the lists hold,
as the loops over them read it.
-/

namespace FlowerRoute

open Outcome

/-- The pointers of the lists. -/
structure RouteLists where
  firstRoute : TargetId → Option RouteId := fun _ => none
  lastRoute : TargetId → Option RouteId := fun _ => none
  tNextRoute : RouteId → Option RouteId := fun _ => none

/-- Where a `struct obj_route **` points to. -/
inductive RoutePlace
  /-- `&t->first_route`. -/
  | first (t : TargetId)
  /-- `&rr->t_next_route`. -/
  | next (rr : RouteId)
  deriving DecidableEq, Repr

namespace RouteLists

/-- A write through such a pointer. -/
def assign (lists : RouteLists) (rr : Option RouteId) : RoutePlace → RouteLists
  | .first t => { lists with firstRoute := Function.update lists.firstRoute t rr }
  | .next prev => { lists with tNextRoute := Function.update lists.tNextRoute prev rr }

/-- A write to `t->last_route`. -/
def setLast (lists : RouteLists) (t : TargetId) (rr : Option RouteId) : RouteLists :=
  { lists with lastRoute := Function.update lists.lastRoute t rr }

/-- The part of `obj_target_link_route` for the pointers. -/
def link (lists : RouteLists) (t : TargetId) (r : RouteId) : RouteLists :=
  let lists := match lists.lastRoute t with
    | some last => lists.assign (some r) (.next last)
    | none => lists.assign (some r) (.first t)
  lists.setLast t (some r)

/-- `obj_target_link_route`. -/
def objTargetLinkRoute (c : Calls) (t : TargetId) (r : RouteId) (lists : RouteLists) (w : World) :
    Except Fault (World × RouteLists) := do
  let _ ← w.target t
  let route ← w.route r
  require Fault.assertion (route.target = none)
  let w ← objTargetWeakRef t w
  let w := w.setRoute r fun route => { route with target := some t }
  let w ← objRouteRef r w
  let w := w.setTarget t fun target => { target with routes := target.routes ++ [r] }
  let lists := lists.link t r
  let target ← w.target t
  if target.rule = none then return (← objTargetInstall c t w, lists)
  else return (w, lists)

/-- The pointers of a route that the loop of `obj_target_unlink_route` has found. -/
def cut (lists : RouteLists) (t : TargetId) (r : RouteId) (prevPtr : RoutePlace)
    (prev : Option RouteId) : RouteLists :=
  let lists := lists.assign (lists.tNextRoute r) prevPtr
  let lists := if lists.lastRoute t = some r then lists.setLast t prev else lists
  lists.assign none (.next r)

/-- The loop of `obj_target_unlink_route` from `rr` on. -/
def unlinkLoop (d : Unrefs) (t : TargetId) (r : RouteId) :
    Nat → Option RouteId → RoutePlace → Option RouteId → RouteLists → World →
    Except Fault (World × RouteLists)
  | _, none, _, _, lists, w => .ok (w, lists)
  | 0, some _, _, _, _, _ => .error .outOfFuel
  | rounds + 1, some rr, prevPtr, prev, lists, w => do
    let _ ← w.route rr
    if rr = r then
      let lists := lists.cut t r prevPtr prev
      let w ← d.objRouteUnref r (w.setTarget t fun target =>
        { target with routes := target.routes.erase r })
      unlinkLoop d t r rounds (lists.tNextRoute rr) prevPtr prev lists w
    else unlinkLoop d t r rounds (lists.tNextRoute rr) (.next rr) (some rr) lists w

/-- `obj_target_unlink_route`; no list is longer than there are routes. -/
def objTargetUnlinkRoute (d : Unrefs) (t : TargetId) (r : RouteId) (lists : RouteLists)
    (w : World) : Except Fault (World × RouteLists) := do
  let w ← objTargetRef t w
  let w ← objRouteRef r w
  let route ← w.route r
  require Fault.assertion (route.target = some t)
  let w ← objTargetWeakUnref t w
  let w := w.setRoute r fun route => { route with target := none }
  let _ ← w.target t
  let (w, lists) ← unlinkLoop d t r w.routes.next (lists.firstRoute t) (.first t) none lists w
  let w ← d.objRouteUnref r w
  return (← d.objTargetUnref t w, lists)

end RouteLists

end FlowerRoute
