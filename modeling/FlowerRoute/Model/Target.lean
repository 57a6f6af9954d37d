import FlowerRoute.Model.Rule

/-!
# Targets and routes

`obj_target.c` and `obj_route.c`. A linked list is the list of its members from the front; a
loop over one goes through the members that it had when the loop began, and follows the pointer
to each. `obj_route_unref` and `obj_target_unref` reap, and reaping calls both, so the functions
on that cycle take the two as parameters.
-/

namespace FlowerRoute

open Outcome

/-- `RTM_NEWROUTE`. -/
def rtmNewroute : UInt16 := 24
/-- `RTM_DELROUTE`. -/
def rtmDelroute : UInt16 := 25

/-- The two functions through which reaping calls itself. -/
structure Unrefs where
  objRouteUnref : RouteId → World → Except Fault World
  objTargetUnref : TargetId → World → Except Fault World

section Lookup

/-- The comparison of `obj_route_lookup` with a route of the tree. -/
def routeCompare (dst : AfAddr) (w : World) (this : RouteId) : Except Fault Int := do
  let this ← w.route this
  return dst.memcmp this.dst

/-- `obj_route_lookup`. -/
def objRouteLookup (dst : AfAddr) (w : World) : Except Fault (Option RouteId) :=
  w.routeTree.find (routeCompare dst w)

/-- `obj_route_insert`. -/
def objRouteInsert (r : RouteId) (w : World) : Except Fault World := do
  let route ← w.route r
  match ← w.routeTree.link (routeCompare route.dst w) r with
  | none => return w
  | some linked => return { w with routeTree := w.balancing.insertColor r linked }

end Lookup

section References

/-- `obj_route_ref`. -/
def objRouteRef (r : RouteId) (w : World) : Except Fault World := do
  let _ ← w.route r
  return w.setRoute r fun route => { route with obj := objRef route.obj }

/-- `obj_target_ref`. -/
def objTargetRef (t : TargetId) (w : World) : Except Fault World := do
  let _ ← w.target t
  return w.setTarget t fun target => { target with obj := objRef target.obj }

/-- `obj_neigh_weak_ref`. -/
def objNeighWeakRef (n : NeighId) (w : World) : Except Fault World := do
  let _ ← w.neigh n
  return w.setNeigh n fun neigh => { neigh with obj := objWeakRef neigh.obj }

/-- `obj_neigh_weak_unref`. -/
def objNeighWeakUnref (n : NeighId) (w : World) : Except Fault World := do
  let neigh ← w.neigh n
  let obj ← objWeakUnref neigh.obj
  return w.setNeigh n fun neigh => { neigh with obj }

end References

section Install

variable (c : Calls)

/-- `obj_route_prepare_rule`, which never declines. -/
def objRoutePrepareRule (r : RouteId) (targetRule : Option RuleId) (w : World) :
    Except Fault (RuleId × TcRule) := do
  let route ← w.route r
  match targetRule with
  | none => .error .assertion
  | some targetRule =>
    let rule ← w.rule targetRule
    require Fault.assertion (rule.state = .ok)
    let tcr ← tcRuleSetTypeAndTraits {
      flowerFlags := w.config.flowerFlags
      afAddr := route.dst
      gotoTarget := rule.chainNo } .routeGoto
    return (targetRule, tcr)

/-- `obj_route_install` for a route that has a rule. -/
def objRouteReinstall (r : RouteId) (rule targetRule : RuleId) (tcr : TcRule) (w : World) :
    Except Fault World := do
  let route ← w.route r
  match route.targetRule with
  | none => .error .assertion
  | some oldTargetRule =>
    let w ← objRuleRef rule w
    let w ← objRuleRef oldTargetRule w
    let w ← if oldTargetRule ≠ targetRule then do
        let w ← objRuleUnref c oldTargetRule w
        let w ← objRuleRef targetRule w
        let _ ← w.route r
        pure (w.setRoute r fun route => { route with targetRule := some targetRule })
      else pure w
    let route ← w.route r
    match route.rule with
    | none => .error .nullPointer
    | some current =>
      let w ← objRuleUnref c current w
      let (new, w) ← objRuleRequest c tcr w
      let _ ← w.route r
      let w := w.setRoute r fun route => { route with rule := new }
      let w ← objRuleUnref c oldTargetRule w
      objRuleUnref c rule w

/-- `obj_route_install`. -/
def objRouteInstall (r : RouteId) (w : World) : Except Fault World := do
  let route ← w.route r
  match route.target with
  | none => .error .assertion
  | some t =>
    let target ← w.target t
    let (targetRule, tcr) ← objRoutePrepareRule r target.rule w
    match route.rule with
    | some rule =>
      let current ← w.rule rule
      if current.wantTcr.isSome ∧ current.wantTcr ≠ some tcr then
        objRouteReinstall c r rule targetRule tcr w
      else return w
    | none =>
      let w ← objRuleRef targetRule w
      let w := w.setRoute r fun route => { route with targetRule := some targetRule }
      let (new, w) ← objRuleRequest c tcr w
      let _ ← w.route r
      return w.setRoute r fun route => { route with rule := new }

/-- `t->rule && t->rule->state == OBJ_RULE_STATE_OK`. -/
def objTargetIsOk (t : TargetId) (w : World) : Except Fault Bool := do
  let target ← w.target t
  match target.rule with
  | none => return false
  | some rule => return (← w.rule rule).state = .ok

/-- One round of the loop of `obj_target_notify_routes`. -/
def objTargetNotifyRoute (t : TargetId) (w : World) (r : RouteId) : Except Fault World := do
  let route ← w.route r
  require Fault.assertion (route.target = some t)
  objRouteInstall c r w

/-- `obj_target_notify_routes`. -/
def objTargetNotifyRoutes (t : TargetId) (w : World) : Except Fault World := do
  let target ← w.target t
  if ← objTargetIsOk t w then target.routes.foldlM (objTargetNotifyRoute c t) w
  else return w

/-- `obj_rule_update_state`. -/
def objRuleUpdateState (r : RuleId) (w : World) : Except Fault World := do
  if w.pinChanges = 0 then return w
  let rule ← w.rule r
  if rule.state = .queued then return w
  match rule.wantTcr, rule.haveTcr with
  | none, none =>
    if rule.state ≠ .new then return w.setRule r fun rule => { rule with state := .zombie }
    else return w
  | none, some _ =>
    objRuleQueueUninstall c r (w.setRule r fun rule => { rule with state := .alien })
  | some _, none =>
    objRuleQueueInstall c r (w.setRule r fun rule => { rule with state := .want })
  | some wantTcr, some haveTcr =>
    if wantTcr = haveTcr then
      let w := w.setRule r fun rule => { rule with state := .ok }
      match rule.target with
      | none => return w
      | some t => objTargetNotifyRoutes c t w
    else objRuleQueueUninstall c r (w.setRule r fun rule => { rule with state := .alien })

end Install

/-- `obj_rule_update_state` and `queue_process_loop` with a bound on the depth of their calls. -/
def calls : Nat → Calls
  | 0 => ⟨fun _ _ => .error .outOfFuel, fun _ => .error .outOfFuel⟩
  | depth + 1 => ⟨objRuleUpdateState (calls depth), queueProcessLoop (calls depth)⟩

section Pins

variable (c : Calls)

/-- `rb_next` in the positional tree. -/
def posNext (r : RuleId) (w : World) : Except Fault (Option RuleId) := do
  let _ ← w.rule r
  return w.posTree.next r

/-- One pass of `obj_rule_remove_pin` from a rule on; the number bounds the rounds. -/
def objRuleRemovePinPass : Nat → Option RuleId → World → Except Fault World
  | _, none, w => .ok w
  | 0, some _, _ => .error .outOfFuel
  | rounds + 1, some r, w => do
    let w ← c.objRuleUpdateState r w
    objRuleRemovePinPass rounds (← posNext r w) w

/-- `obj_rule_remove_pin`. -/
def objRuleRemovePin (rounds : Nat) (w : World) : Except Fault World :=
  if 3 ≤ w.pinChanges then .ok w
  else [0, 1, 2, 3].foldlM (fun w pin =>
    objRuleRemovePinPass c rounds w.posTree.toList.head? { w with pinChanges := pin }) w

end Pins

section Reaping

variable (c : Calls) (d : Unrefs)

/-- `obj_target_unlink_route`. -/
def objTargetUnlinkRoute (t : TargetId) (r : RouteId) (w : World) : Except Fault World := do
  let w ← objTargetRef t w
  let w ← objRouteRef r w
  let route ← w.route r
  require Fault.assertion (route.target = some t)
  let w ← objTargetWeakUnref t w
  let w := w.setRoute r fun route => { route with target := none }
  let target ← w.target t
  let w ← if r ∈ target.routes then
      d.objRouteUnref r (w.setTarget t fun target =>
        { target with routes := target.routes.erase r })
    else pure w
  let w ← d.objRouteUnref r w
  d.objTargetUnref t w

/-- `obj_rule_unref` on a pointer that may be NULL, as the callers test it. -/
def objRuleUnrefSome (r : Option RuleId) (w : World) : Except Fault World :=
  match r with
  | none => .ok w
  | some r => objRuleUnref c r w

/-- `obj_route_reap`. -/
def objRouteReap (r : RouteId) (w : World) : Except Fault World := do
  let route ← w.route r
  require Fault.assertion (route.obj.refcnt = 0)
  let w := w.setRoute r fun route => { route with obj := { route.obj with state := .zombie } }
  let w ← match route.target with
    | none => pure w
    | some t => do
      let w ← objTargetUnlinkRoute d t r w
      pure (w.setRoute r fun route => { route with target := none })
  let route ← w.route r
  let w ← objRuleUnrefSome c route.rule w
  let w := w.setRoute r fun route => { route with rule := none }
  let route ← w.route r
  let w ← objRuleUnrefSome c route.targetRule w
  let w := w.setRoute r fun route => { route with targetRule := none }
  let w := { w with routeTree := w.balancing.erase r w.routeTree }
  let route ← w.route r
  let obj ← objFree route.obj
  let w := w.setRoute r fun route => { route with obj }
  return { w with routeCnt := ← countDown w.routeCnt }

/-- `obj_route_unref`. -/
def objRouteUnref (r : RouteId) (w : World) : Except Fault World := do
  let route ← w.route r
  let obj ← objUnref route.obj
  let w := w.setRoute r fun route => { route with obj }
  if objIsReapable w.mode obj then objRouteReap c d r w else return w

/-- `obj_target_reap`. -/
def objTargetReap (t : TargetId) (w : World) : Except Fault World := do
  let w := w.setTarget t fun target => { target with obj := { target.obj with state := .zombie } }
  let target ← w.target t
  require Fault.assertion (target.obj.refcnt = 0)
  let w ← target.nexthop.foldlM (fun w n => objNeighWeakUnref n w) w
  let w ← target.routes.foldlM (fun w r => d.objRouteUnref r w) w
  let target ← w.target t
  let w ← objRuleUnrefSome c target.rule w
  let w := w.setTarget t fun target => { target with rule := none }
  let target ← w.target t
  let obj ← objFree target.obj
  let w := w.setTarget t fun target => { target with obj }
  return { w with targetCnt := ← countDown w.targetCnt }

/-- `obj_target_unref`. -/
def objTargetUnref (t : TargetId) (w : World) : Except Fault World := do
  let target ← w.target t
  let obj ← objUnref target.obj
  let w := w.setTarget t fun target => { target with obj }
  if objIsReapable w.mode obj then objTargetReap c d t w else return w

end Reaping

/-- `obj_route_unref` and `obj_target_unref` with a bound on the depth of their calls. -/
def unrefs (c : Calls) : Nat → Unrefs
  | 0 => ⟨fun _ _ => .error .outOfFuel, fun _ _ => .error .outOfFuel⟩
  | depth + 1 => ⟨objRouteUnref c (unrefs c depth), objTargetUnref c (unrefs c depth)⟩

section Targets

variable (c : Calls)

/-- `obj_target_get_unipath`. -/
def objTargetGetUnipath (n : NeighId) (w : World) : Except Fault (TargetId × World) := do
  let neigh ← w.neigh n
  let alloc : Except Fault (TargetId × World) := do
    let t := w.targets.next
    let w := { w with
      targets := w.targets.alloc { obj := { kind := .target }, nexthopCnt := 1, nexthop := [n] }
      targetCnt := w.targetCnt + 1 }
    let w ← objNeighWeakRef n w
    let w := w.setNeigh n fun neigh => { neigh with targets := t :: neigh.targets }
    return (t, ← objTargetRef t w)
  match neigh.targets with
  | [] => alloc
  | t :: _ =>
    let target ← w.target t
    if target.nexthopCnt = 1 then return (t, w) else alloc

/-- `obj_target_prepare_rule`; without a value the target cannot be installed. -/
def objTargetPrepareRule (t : TargetId) (w : World) : Except Fault (Option TcRule) := do
  let target ← w.target t
  match target.nexthop.head? with
  | none => .error .assertion
  | some n =>
    let neigh ← w.neigh n
    match neigh.link with
    | none => .error .nullPointer
    | some l =>
      let link ← w.link l
      if link.vlanId = 0 ∨ link.lladdr = 0 ∨ neigh.lladdr = 0 then return none
      let tcr ← tcRuleSetTypeAndTraits {
        flowerFlags := w.config.flowerFlags
        vlanId := link.vlanId
        src := link.lladdr
        dst := neigh.lladdr
        afAddr := ⟨neigh.addr.af, 0, 0, 0⟩ } .forward
      return some tcr

/-- The first half of `obj_target_set_rule`: the old rule is let go. -/
def objTargetDropRule (t : TargetId) (w : World) : Except Fault World := do
  let target ← w.target t
  match target.rule with
  | none => return w
  | some rule =>
    let w ← objRuleUnsetTarget rule w
    let w ← objRuleUnref c rule w
    let _ ← w.target t
    return w.setTarget t fun target => { target with rule := none }

/-- `obj_target_set_rule`. -/
def objTargetSetRule (t : TargetId) (tcr : Option TcRule) (w : World) : Except Fault World := do
  let w ← objTargetDropRule c t w
  match tcr with
  | none => objTargetNotifyRoutes c t w
  | some tcr =>
    let (rule, w) ← objRulePrimeRequest tcr w
    let w := w.setTarget t fun target => { target with rule }
    match rule with
    | none => return w
    | some rule =>
      let w ← objRuleSetTarget rule t w
      objRuleQueueRequest c rule w

/-- `obj_target_install`. -/
def objTargetInstall (t : TargetId) (w : World) : Except Fault World := do
  match ← objTargetPrepareRule t w with
  | none => return w
  | some tcr => objTargetSetRule c t (some tcr) w

/-- `obj_target_neigh_update`. -/
def objTargetNeighUpdate (t : TargetId) (w : World) : Except Fault World := do
  match ← objTargetPrepareRule t w with
  | none => objTargetSetRule c t none w
  | some newTcr =>
    let target ← w.target t
    match target.rule with
    | none => return w
    | some rule =>
      let current ← w.rule rule
      if current.wantTcr.isSome ∧ current.wantTcr ≠ some newTcr then
        objTargetSetRule c t (some newTcr) w
      else return w

/-- `obj_target_link_route`. -/
def objTargetLinkRoute (t : TargetId) (r : RouteId) (w : World) : Except Fault World := do
  let _ ← w.target t
  let route ← w.route r
  require Fault.assertion (route.target = none)
  let w ← objTargetWeakRef t w
  let w := w.setRoute r fun route => { route with target := some t }
  let w ← objRouteRef r w
  let w := w.setTarget t fun target => { target with routes := target.routes ++ [r] }
  let target ← w.target t
  if target.rule = none then objTargetInstall c t w else return w

end Targets

section Routes

variable (c : Calls) (d : Unrefs)

/-- `obj_route_delete`. -/
def objRouteDelete (r : RouteId) (w : World) : Except Fault World := do
  let w ← objRouteRef r w
  let w := w.setRoute r fun route => { route with obj := { route.obj with state := .present } }
  let route ← w.route r
  let w ← match route.rule with
    | none => pure w
    | some rule => do
      if (← w.rule rule).haveTcr.isSome then objRuleUninstall c rule w else pure w
  let route ← w.route r
  let w ← match route.target with
    | none => pure w
    | some t => objTargetUnlinkRoute d t r w
  d.objRouteUnref r w

/-- The part of `obj_route_netlink_update` that finds or makes the route. -/
def objRouteGet (dst : AfAddr) (w : World) : Except Fault (RouteId × Bool × World) := do
  match ← objRouteLookup dst w with
  | some r => return (r, false, w)
  | none => return (w.routes.next, true, { w with
      routes := w.routes.alloc { obj := { kind := .route }, dst }
      routeCnt := w.routeCnt + 1 })

/-- The part of `obj_route_netlink_update` that moves the route to its target. -/
def objRouteRetarget (r : RouteId) (t : TargetId) (w : World) : Except Fault World := do
  let route ← w.route r
  if route.target = some t then return w
  let w ← match route.target with
    | none => pure w
    | some old => objTargetUnlinkRoute d old r w
  objTargetLinkRoute c t r w

/-- `obj_route_netlink_update`. -/
def objRouteNetlinkUpdate (nlmsgType : UInt16) (t : TargetId) (dst : AfAddr) (w : World) :
    Except Fault World := do
  if nlmsgType = rtmDelroute then
    match ← objRouteLookup dst w with
    | none => return w
    | some r => objRouteDelete c d r w
  else
    let (r, isNew, w) ← objRouteGet dst w
    let changes := (← w.route r).target ≠ some t
    let w ← objRouteRetarget c d r t w
    let route ← w.route r
    let w ← if (← objTargetIsOk t w) ∧ route.rule = none then objRouteInstall c r w else pure w
    let installed : World → World := fun w => w.setRoute r fun route =>
      { route with obj := { route.obj with state := .installed } }
    if isNew then objRouteInsert r (installed w)
    else if changes then return installed w
    else return w

end Routes

end FlowerRoute
