import FlowerRoute.Lib.Heap
import FlowerRoute.Lib.SearchTree
import FlowerRoute.Model.Queue
import FlowerRoute.Model.TcRule

/-!
# Objects

`obj.h` and `obj.c`: the objects of the daemon, their reference counts and the state that the
object files share. A pointer is an identifier of a heap cell. A cell keeps what `obj_free` left
in it; following a pointer to it stops the model, and so would reading it through the canary.
-/

namespace FlowerRoute

open Outcome

/-- A pointer to a `struct obj_link`. -/
abbrev LinkId := Nat
/-- A pointer to a `struct obj_neigh`. -/
abbrev NeighId := Nat
/-- A pointer to a `struct obj_target`. -/
abbrev TargetId := Nat
/-- A pointer to a `struct obj_route`. -/
abbrev RouteId := Nat
/-- A pointer to a `struct obj_rule`. -/
abbrev RuleId := Nat

/-- `enum obj_operating_mode`. -/
inductive ObjOperatingMode
  | normal
  | teardown
  deriving DecidableEq, Repr

/-- `enum obj_state`. -/
inductive ObjState
  | present
  | installed
  | zombie
  deriving DecidableEq, Repr

/-- `enum obj_kind`; memory that is no object has kind `unknown`. -/
inductive ObjKind
  | unknown
  | link
  | neigh
  | route
  | target
  | rule
  deriving DecidableEq, Repr

/-- `struct obj_core`. -/
structure ObjCore where
  kind : ObjKind := .unknown
  refcnt : Nat := 0
  weakRefcnt : Nat := 0
  state : ObjState := .present
  deriving DecidableEq, Repr

/-- `obj_is_reapable`. -/
def objIsReapable (mode : ObjOperatingMode) (c : ObjCore) : Bool :=
  match mode with
  | .normal => c.refcnt = 0 ∧ c.state ≠ .zombie ∧ c.state ≠ .installed
  | .teardown => c.refcnt = 0 ∧ c.state ≠ .zombie

/-- `obj_ref`. -/
def objRef (c : ObjCore) : ObjCore :=
  if c.state = .zombie ∧ c.weakRefcnt = 0 then c else { c with refcnt := c.refcnt + 1 }

/-- `obj_unref`. -/
def objUnref (c : ObjCore) : Except Fault ObjCore :=
  if c.state = .zombie ∧ c.refcnt = 0 then .ok c
  else if 0 < c.refcnt then .ok { c with refcnt := c.refcnt - 1 }
  else .error .assertion

@[simp] theorem kind_objRef (c : ObjCore) : (objRef c).kind = c.kind := by
  rw [objRef]
  split <;> rfl

@[simp] theorem state_objRef (c : ObjCore) : (objRef c).state = c.state := by
  rw [objRef]
  split <;> rfl

@[simp] theorem weakRefcnt_objRef (c : ObjCore) : (objRef c).weakRefcnt = c.weakRefcnt := by
  rw [objRef]
  split <;> rfl

/-- A reference to an object that is no zombie counts. -/
theorem refcnt_objRef {c : ObjCore} (alive : c.state ≠ .zombie) :
    (objRef c).refcnt = c.refcnt + 1 := by
  simp [objRef, alive]

/-- What a released reference changes: one reference less, except on a zombie without any. -/
theorem objUnref_ok {c obj : ObjCore} (counted : objUnref c = .ok obj) :
    obj = { c with refcnt := c.refcnt - 1 } ∧ (c.state ≠ .zombie → 0 < c.refcnt) := by
  rw [objUnref] at counted
  split at counted
  · next zombie =>
    cases counted
    obtain ⟨state, zero⟩ := zombie
    refine ⟨?_, fun alive => absurd state alive⟩
    have same : c.refcnt - 1 = c.refcnt := by omega
    rw [same]
  · split at counted
    · next positive =>
      cases counted
      exact ⟨rfl, fun _ => positive⟩
    · cases counted

/-- `obj_weak_ref`. -/
def objWeakRef (c : ObjCore) : ObjCore :=
  if c.state = .zombie ∧ c.weakRefcnt = 0 then c else { c with weakRefcnt := c.weakRefcnt + 1 }

@[simp] theorem kind_objWeakRef (c : ObjCore) : (objWeakRef c).kind = c.kind := by
  rw [objWeakRef]
  split <;> rfl

@[simp] theorem state_objWeakRef (c : ObjCore) : (objWeakRef c).state = c.state := by
  rw [objWeakRef]
  split <;> rfl

/-- `obj_weak_unref`. -/
def objWeakUnref (c : ObjCore) : Except Fault ObjCore :=
  if c.state = .zombie ∧ c.weakRefcnt = 0 then .ok c
  else if 0 < c.weakRefcnt then .ok { c with weakRefcnt := c.weakRefcnt - 1 }
  else .error .assertion

/-- `_obj_free`. -/
def objFree (c : ObjCore) : Except Fault ObjCore := do
  require Fault.assertion (c.kind ≠ .unknown)
  require Fault.assertion (c.state = .zombie)
  require Fault.assertion (c.refcnt = 0)
  require Fault.assertion (c.weakRefcnt = 0)
  return { c with kind := .unknown }

/-- `AN(cnt--)`. -/
def countDown (cnt : Nat) : Except Fault Nat := do
  require Fault.assertion (cnt ≠ 0)
  return cnt - 1

/-- `struct obj_link`. -/
structure ObjLink where
  obj : ObjCore := {}
  ifindex : Int := 0
  lowerIfindex : Int := 0
  vlanId : UInt16 := 0
  mtu : UInt32 := 0
  lladdr : Lladdr := 0
  ifname : Option String := none
  fdb : SearchTree NeighId := .leaf
  deriving Inhabited, DecidableEq, Repr

/-- `struct obj_neigh`; its list of targets from the front. -/
structure ObjNeigh where
  obj : ObjCore := {}
  link : Option LinkId := none
  addr : AfAddr := ⟨0, 0, 0, 0⟩
  lladdr : Lladdr := 0
  targets : List TargetId := []
  deriving Inhabited, DecidableEq, Repr

/-- `struct obj_target`; its lists of nexthops and of routes from the front. -/
structure ObjTarget where
  obj : ObjCore := {}
  nexthopCnt : Nat := 0
  nexthop : List NeighId := []
  routes : List RouteId := []
  rule : Option RuleId := none
  deriving Inhabited, DecidableEq, Repr

/-- `struct obj_route`. -/
structure ObjRoute where
  obj : ObjCore := {}
  dst : AfAddr := ⟨0, 0, 0, 0⟩
  target : Option TargetId := none
  targetRule : Option RuleId := none
  rule : Option RuleId := none
  deriving Inhabited, DecidableEq, Repr

/-- `enum obj_rule_state`. -/
inductive ObjRuleState
  | new
  | alien
  | want
  | queued
  | pending
  | ok
  | zombie
  deriving DecidableEq, Repr

/-- `enum obj_rule_type`. -/
inductive ObjRuleType
  | notSet
  | found
  | static
  | dynamic
  deriving DecidableEq, Repr

/-- `struct obj_rule`; `haveTcr` and `wantTcr` are the rules behind `have` and `want`. -/
structure ObjRule where
  obj : ObjCore := {}
  type : ObjRuleType := .notSet
  state : ObjRuleState := .new
  chainNo : UInt32 := 0
  prio : UInt16 := 0
  haveLaf : Bool := false
  havePos : Bool := false
  target : Option TargetId := none
  haveTcr : Option TcRule := none
  wantTcr : Option TcRule := none
  deriving Inhabited, DecidableEq, Repr

/-- `struct tc_action`; the rule that it points to as it was when the action was queued. -/
structure TcAction where
  chainNo : UInt32
  prio : UInt16
  tcr : Option TcRule
  data : RuleId
  deriving DecidableEq, Repr

/-- The kernel's report of a change at a position: a filter there, or none. -/
structure Note where
  chainNo : UInt32
  prio : UInt16
  filter : Option TcRule
  deriving DecidableEq, Repr

/-- The kernel's filters on the ingress of the interface. -/
structure Kernel where
  /-- A request is reported inside the callback that sends it, as the tests do. -/
  echoes : Bool := false
  /-- An install on an occupied position and a removal from an empty one are refused. -/
  rejects : Bool := false
  filters : UInt32 → UInt16 → Option TcRule := fun _ _ => none
  /-- Reports on their way to the monitor. -/
  notes : List Note := []

/-- What happens between the daemon and the kernel. -/
inductive TcEvent
  /-- An action is queued; the kernel's filter at its position. -/
  | queued (action : TcAction) (filter : Option TcRule)
  /-- An action is sent; the kernel's filter at its position, and what its rule wants. -/
  | sent (action : TcAction) (filter want : Option TcRule)
  /-- A report is processed. -/
  | heard (note : Note)
  deriving DecidableEq, Repr

/-- The fields of `struct config` that the objects use. -/
structure Config where
  ifidx : UInt32 := 0
  flowerFlags : UInt32 := 0
  deriving DecidableEq, Repr

/-- The daemon's objects, trees, counters and queue, the kernel behind it, and the history of
what happened between the two. -/
structure World where
  config : Config := {}
  mode : ObjOperatingMode := .normal
  /-- `obj_rule_pin_changes`. -/
  pinChanges : Nat := 0
  links : Heap ObjLink := {}
  neighs : Heap ObjNeigh := {}
  targets : Heap ObjTarget := {}
  routes : Heap ObjRoute := {}
  rules : Heap ObjRule := {}
  linkCnt : Nat := 0
  neighCnt : Nat := 0
  targetCnt : Nat := 0
  routeCnt : Nat := 0
  ruleCnt : Nat := 0
  linkTree : SearchTree LinkId := .leaf
  routeTree : SearchTree RouteId := .leaf
  posTree : SearchTree RuleId := .leaf
  lafTree : SearchTree RuleId := .leaf
  chainTree : SearchTree UInt32 := .leaf
  queue : Queue TcAction := {}
  kernel : Kernel := {}
  /-- The history, from the first event on. -/
  log : List TcEvent := []
  /-- Memory is poisoned when it is freed, so that every later read of it is noticed. -/
  poisoned : Bool := false
  /-- The rebalancing of the trees of objects. -/
  balancing : SearchTree.Balancing Nat := .plain
  /-- The rebalancing of the tree of chains. -/
  chainBalancing : SearchTree.Balancing UInt32 := .plain

/-- Follow a pointer to an object. -/
def follow {α : Type} (kind : ObjKind) (core : α → ObjCore) (object : α) : Except Fault α :=
  if (core object).kind = kind then .ok object else .error .freedObject

namespace World

variable (w : World)

/-- Follow a pointer to a link. -/
def link (l : LinkId) : Except Fault ObjLink := follow .link ObjLink.obj (w.links.cell l)

/-- Follow a pointer to a neighbour. -/
def neigh (n : NeighId) : Except Fault ObjNeigh := follow .neigh ObjNeigh.obj (w.neighs.cell n)

/-- Follow a pointer to a target. -/
def target (t : TargetId) : Except Fault ObjTarget :=
  follow .target ObjTarget.obj (w.targets.cell t)

/-- Follow a pointer to a route. -/
def route (r : RouteId) : Except Fault ObjRoute := follow .route ObjRoute.obj (w.routes.cell r)

/-- Follow a pointer to a rule. -/
def rule (r : RuleId) : Except Fault ObjRule := follow .rule ObjRule.obj (w.rules.cell r)

/-- Write to a link. -/
def setLink (l : LinkId) (f : ObjLink → ObjLink) : World :=
  { w with links := w.links.modify l f }

/-- Write to a neighbour. -/
def setNeigh (n : NeighId) (f : ObjNeigh → ObjNeigh) : World :=
  { w with neighs := w.neighs.modify n f }

/-- Write to a target. -/
def setTarget (t : TargetId) (f : ObjTarget → ObjTarget) : World :=
  { w with targets := w.targets.modify t f }

/-- Write to a route. -/
def setRoute (r : RouteId) (f : ObjRoute → ObjRoute) : World :=
  { w with routes := w.routes.modify r f }

/-- A report enters the history. -/
def hears (note : Note) : World := { w with log := w.log ++ [.heard note] }

@[simp] theorem rules_hears (note : Note) : (w.hears note).rules = w.rules := rfl

/-- Write to a rule. -/
def setRule (r : RuleId) (f : ObjRule → ObjRule) : World :=
  { w with rules := w.rules.modify r f }

end World

end FlowerRoute
