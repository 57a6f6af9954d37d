import FlowerRoute.Model.Daemon
import Mathlib.Data.Multiset.AddSub
import Mathlib.Data.Multiset.Count
import Mathlib.Tactic.Simps.Basic

/-!
# Effects

What the functions on rules can do, said once. Each of them is a sequence of a few effects on the
world, and a fact that every effect preserves is preserved by all of them. Beside the world runs
a ghost: what the functions under way hold in their own variables and have still to do.
-/

namespace FlowerRoute

open Outcome

/-- A field of an object that holds a reference to a rule. -/
inductive Owner
  /-- `t->rule`. -/
  | target (t : TargetId)
  /-- `r->rule`. -/
  | route (r : RouteId)
  /-- `r->target_rule`. -/
  | goto (r : RouteId)
  deriving DecidableEq, Repr

/-- What a function under way does next. -/
inductive Task
  /-- It calls `obj_rule_update_state`. -/
  | update (r : RuleId)
  /-- It goes on with a report of the kernel. -/
  | report (note : Note)
  /-- It calls `obj_rule_prime_request`. -/
  | request (tcr : TcRule)
  deriving DecidableEq, Repr

/-- A route in `obj_route_install`, with what its two fields hold, and whether its `target_rule`
has been set. -/
structure Installing where
  route : RouteId
  rule : Option RuleId
  targetRule : Option RuleId
  aimed : Bool := false
  deriving DecidableEq, Repr

/-- What the functions under way hold and have still to do. -/
structure Ghost where
  /-- References to rules. -/
  loans : Multiset RuleId := 0
  /-- The owner whose field still names a rule after its reference was given up. -/
  retired : Option Owner := none
  task : Option Task := none
  /-- Routes that `obj_target_notify_routes` has still to install. -/
  opened : Multiset RouteId := 0
  installing : Multiset Installing := 0
  /-- For each action being executed, from the innermost, how many routes were open or being
  installed when it began. -/
  running : List Nat := []

namespace Ghost

/-- One reference more. -/
@[simps] def lend (g : Ghost) (r : RuleId) : Ghost := { g with loans := r ::ₘ g.loans }

/-- A task to go on with. -/
@[simps] def ask (g : Ghost) (task : Task) : Ghost := { g with task := some task }

/-- Routes to install. -/
@[simps] def opens (g : Ghost) (routes : Multiset RouteId) : Ghost :=
  { g with opened := routes + g.opened }

/-- A route in `obj_route_install`. -/
@[simps] def install (g : Ghost) (i : Installing) : Ghost := { g with installing := i ::ₘ g.installing }

/-- An action being executed. -/
@[simps] def run (g : Ghost) (routes : Nat) : Ghost := { g with running := routes :: g.running }

/-- What to go on with now. -/
@[simps] def next (g : Ghost) (task : Option Task) : Ghost := { g with task }

/-- A reference to a rule, if there is one. -/
def lendSome (g : Ghost) (r : Option RuleId) : Ghost :=
  match r with
  | none => g
  | some r => g.lend r

/-- The number of routes that are open or being installed. -/
def routesUnderWay (g : Ghost) : Nat := g.opened.card + g.installing.card

@[simp] theorem retired_lendSome (g : Ghost) (r : Option RuleId) :
    (g.lendSome r).retired = g.retired := by
  cases r <;> rfl

@[simp] theorem task_lendSome (g : Ghost) (r : Option RuleId) :
    (g.lendSome r).task = g.task := by
  cases r <;> rfl

@[simp] theorem installing_lendSome (g : Ghost) (r : Option RuleId) :
    (g.lendSome r).installing = g.installing := by
  cases r <;> rfl

@[simp] theorem opened_lendSome (g : Ghost) (r : Option RuleId) :
    (g.lendSome r).opened = g.opened := by
  cases r <;> rfl

/-- The functions under way have nothing to go on with. -/
def Free (g : Ghost) : Prop := g.task = none

end Ghost

namespace World

variable (w : World)

/-- A rule that has not been reaped. -/
def Live (r : RuleId) : Prop := (w.rules.cell r).obj.kind = .rule

/-- What an owner holds. -/
def owned : Owner → Option RuleId
  | .target t => (w.targets.cell t).rule
  | .route r => (w.routes.cell r).rule
  | .goto r => (w.routes.cell r).targetRule

/-- The rule of a target is in state OK. -/
def Ready (t : TargetId) : Prop :=
  ∃ q, (w.targets.cell t).rule = some q ∧ (w.rules.cell q).state = .ok

/-- An action is queued for a rule, with a reference. -/
def scheduled (tca : TcAction) : World :=
  { w.setRule tca.data fun rule => { rule with state := .queued, obj := objRef rule.obj } with
    queue := w.queue.enqueue tca
    log := w.log ++ [.queued tca (w.kernel.filters tca.chainNo tca.prio)] }

/-- The kernel's answer to an action. -/
def answer (tca : TcAction) : Kernel × List Note :=
  w.kernel.request tca.chainNo tca.prio tca.tcr

/-- The action at the head of the queue is sent and the kernel carries it out. -/
def executed (tca : TcAction) (queue : Queue TcAction) : World :=
  { w.setRule tca.data fun rule => { rule with state := .pending } with
    queue := if w.kernel.echoes then queue else { queue with hasSentRequest := true }
    kernel := if w.kernel.echoes then (w.answer tca).1
      else { (w.answer tca).1 with notes := (w.answer tca).1.notes ++ (w.answer tca).2 }
    log := w.log ++ [.sent tca (w.kernel.filters tca.chainNo tca.prio)
      (w.rules.cell tca.data).wantTcr] }

/-- A rule of the lost and found is wanted. -/
def adopted (r : RuleId) (tcr : TcRule) : World :=
  { w.setRule r fun rule => { rule with
      wantTcr := some tcr, haveLaf := false, obj := objRef (objRef rule.obj) } with
    lafTree := w.balancing.erase r w.lafTree }

theorem rules_scheduled (tca : TcAction) : (w.scheduled tca).rules =
    w.rules.modify tca.data fun rule => { rule with state := .queued, obj := objRef rule.obj } :=
  rfl

theorem rules_executed (tca : TcAction) (queue : Queue TcAction) :
    (w.executed tca queue).rules =
      w.rules.modify tca.data fun rule => { rule with state := .pending } := rfl

theorem rules_adopted (r : RuleId) (tcr : TcRule) : (w.adopted r tcr).rules =
    w.rules.modify r fun rule => { rule with
      wantTcr := some tcr, haveLaf := false, obj := objRef (objRef rule.obj) } := rfl

/-- The report that an echoing kernel has for an action. -/
def echo (tca : TcAction) : Option Task :=
  if w.kernel.echoes then (w.answer tca).2.head?.map .report else none

end World

/-- The state that `obj_rule_update_state` gives to a rule without queueing an action. -/
inductive Settles (pinChanges : Nat) (rule : ObjRule) : ObjRuleState → Prop
  | zombie : rule.wantTcr = none → rule.haveTcr = none → rule.state ≠ .new →
      Settles pinChanges rule .zombie
  | want : rule.wantTcr ≠ none → rule.haveTcr = none → pinChanges < 2 →
      Settles pinChanges rule .want
  | alien : rule.haveTcr ≠ none → rule.wantTcr ≠ rule.haveTcr → pinChanges < 3 →
      Settles pinChanges rule .alien
  | ok : rule.haveTcr ≠ none → rule.wantTcr = rule.haveTcr → rule.target = none →
      Settles pinChanges rule .ok

/-- The request that `obj_rule_update_state` queues for a rule. -/
inductive Requests (pinChanges : Nat) (rule : ObjRule) : Option TcRule → Prop
  | install : rule.wantTcr ≠ none → rule.haveTcr = none → 2 ≤ pinChanges →
      Requests pinChanges rule rule.wantTcr
  | uninstall : rule.haveTcr ≠ none → rule.wantTcr ≠ rule.haveTcr → 3 ≤ pinChanges →
      Requests pinChanges rule none

/-- `obj_rule_update_state` leaves a rule as it is. -/
inductive Skips (pinChanges : Nat) (rule : ObjRule) : Prop
  | pinned : pinChanges = 0 → Skips pinChanges rule
  | queued : rule.state = .queued → Skips pinChanges rule
  | new : rule.wantTcr = none → rule.haveTcr = none → rule.state = .new → Skips pinChanges rule

/-- The rule that `obj_route_prepare_rule` makes. -/
def gotoRule (w : World) (r : RouteId) (q : RuleId) : Except Fault TcRule :=
  tcRuleSetTypeAndTraits {
    flowerFlags := w.config.flowerFlags
    afAddr := (w.routes.cell r).dst
    gotoTarget := (w.rules.cell q).chainNo } .routeGoto

/-- What `obj_route_install` leaves of a route whose target has a rule `q`. -/
inductive Installed (w : World) (r : RouteId) (q : RuleId) : Prop
  | kept (p : RuleId) : (w.routes.cell r).rule = some p →
      ((w.rules.cell p).wantTcr = none ∨
        ∃ tcr, (w.rules.cell p).wantTcr = some tcr ∧ gotoRule w r q = .ok tcr) → Installed w r q
  | placed (p : RuleId) (tcr : TcRule) : (w.routes.cell r).rule = some p →
      (w.routes.cell r).targetRule = some q → (w.rules.cell p).wantTcr = some tcr →
      gotoRule w r q = .ok tcr → Installed w r q

/-- What a function on rules can do in one go. -/
inductive Effect : Ghost → World → Ghost → World → Prop
  | ref {g : Ghost} {w : World} {r : RuleId} : w.Live r →
      Effect g w (g.lend r) (w.setRule r fun rule => { rule with obj := objRef rule.obj })
  | unref {g : Ghost} {w : World} {r : RuleId} {obj : ObjCore} : w.Live r →
      objUnref (w.rules.cell r).obj = .ok obj →
      Effect (g.lend r) w g (w.setRule r fun rule => { rule with obj })
  | unwant {g : Ghost} {w : World} {r : RuleId} : g.Free → w.Live r →
      (w.rules.cell r).obj.refcnt = 0 → (w.rules.cell r).wantTcr ≠ none →
      (w.rules.cell r).haveTcr ≠ none → w.mode = .normal → (w.rules.cell r).type ≠ .static →
      Effect g w (g.ask (.update r)) (w.setRule r fun rule => { rule with wantTcr := none })
  | reap {g : Ghost} {w w' : World} {r : RuleId} : g.Free → w.Live r →
      objIsReapable w.mode (w.rules.cell r).obj = true → objRuleReap r w = .ok w' →
      Effect g w g w'
  | skip {g : Ghost} {w : World} {r : RuleId} : g.Free →
      Skips w.pinChanges (w.rules.cell r) → Effect (g.ask (.update r)) w g w
  | settle {g : Ghost} {w : World} {r : RuleId} {state : ObjRuleState} : g.Free → w.Live r →
      w.pinChanges ≠ 0 → (w.rules.cell r).state ≠ .queued →
      Settles w.pinChanges (w.rules.cell r) state →
      Effect (g.ask (.update r)) w g (w.setRule r fun rule => { rule with state })
  | confirm {g : Ghost} {w : World} {r : RuleId} {t : TargetId} : g.Free → w.Live r →
      w.pinChanges ≠ 0 → (w.rules.cell r).state ≠ .queued → (w.rules.cell r).haveTcr ≠ none →
      (w.rules.cell r).wantTcr = (w.rules.cell r).haveTcr → (w.rules.cell r).target = some t →
      Effect (g.ask (.update r)) w (g.opens (w.targets.cell t).routes)
        (w.setRule r fun rule => { rule with state := .ok })
  | schedule {g : Ghost} {w : World} {tca : TcAction} : g.Free → w.Live tca.data →
      w.pinChanges ≠ 0 → (w.rules.cell tca.data).state ≠ .queued →
      tca.chainNo = (w.rules.cell tca.data).chainNo → tca.prio = (w.rules.cell tca.data).prio →
      Requests w.pinChanges (w.rules.cell tca.data) tca.tcr →
      Effect (g.ask (.update tca.data)) w g (w.scheduled tca)
  | execute {g : Ghost} {w : World} {tca : TcAction} {queue : Queue TcAction} : g.Free →
      w.queue.queueProcess = .ok (tca, queue) → w.Live tca.data →
      Effect g w (((g.run g.routesUnderWay).lend tca.data).next (w.echo tca))
        (w.executed tca queue)
  | complete {g : Ghost} {w : World} {conn : Option ConnId} {tca : TcAction}
      {queue : Queue TcAction} : g.Free → w.queue.handleQueueCompleted conn = .ok (tca, queue) →
      Effect (g.run g.routesUnderWay) w g { w with queue }
  | leave {g : Ghost} {w : World} : g.Free → w.queue.hasSentRequest = true →
      Effect (g.run g.routesUnderWay) w g w
  | ignore {g : Ghost} {w : World} {note : Note} : g.Free →
      (note.filter = none →
        ∃ tcr, objRuleFind note.chainNo note.prio tcr w = .ok none) →
      (∀ tcr, note.filter = some tcr → ∃ r, w.Live r ∧
        objRuleFind note.chainNo note.prio tcr w = .ok (some r) ∧
          (w.rules.cell r).haveTcr = some tcr) →
      Effect (g.ask (.report note)) w g (w.hears note)
  | found {g : Ghost} {w : World} {r : RuleId} {chainNo : UInt32} {prio : UInt16} {tcr : TcRule} :
      g.Free → objRuleFind chainNo prio tcr w = .ok (some r) → w.Live r →
      (w.rules.cell r).chainNo = chainNo → (w.rules.cell r).prio = prio →
      (w.rules.cell r).haveTcr ≠ some tcr →
      Effect (g.ask (.report ⟨chainNo, prio, some tcr⟩)) w (g.ask (.update r))
        ((w.hears ⟨chainNo, prio, some tcr⟩).setRule r fun rule => { rule with
          haveTcr := some tcr
          obj := if rule.haveTcr = none then { rule.obj with state := .installed }
            else rule.obj })
  | vanish {g : Ghost} {w : World} {r : RuleId} {chainNo : UInt32} {prio : UInt16}
      {tcr : TcRule} : g.Free → objRuleFind chainNo prio tcr w = .ok (some r) → w.Live r →
      Effect (g.ask (.report ⟨chainNo, prio, none⟩)) w
        ((g.lend r).next (if (w.rules.cell r).wantTcr = none then none else some (.update r)))
        ((w.hears ⟨chainNo, prio, none⟩).setRule r fun rule =>
          { rule with obj := { objRef rule.obj with state := .present }, haveTcr := none })
  | discover {g : Ghost} {w w' w'' : World} {chainNo : UInt32} {prio : UInt16} {tcr : TcRule} :
      g.Free → objRuleFind chainNo prio tcr w = .ok none →
      objRulePosInsert w.rules.next (objRuleAlloc {
        chainNo, prio, haveTcr := some tcr, obj := { state := .installed } }
        (w.hears ⟨chainNo, prio, some tcr⟩)).2 = .ok w' →
      objRuleLafInsert w.rules.next w' = .ok w'' →
      Effect (g.ask (.report ⟨chainNo, prio, some tcr⟩)) w (g.ask (.update w.rules.next)) w''
  | adopt {g : Ghost} {w : World} {r : RuleId} {tcr : TcRule} : g.Free →
      objRuleLafLookup tcr w = .ok (some r) → w.Live r → (w.rules.cell r).haveTcr ≠ none →
      (w.rules.cell r).wantTcr = none → (w.rules.cell r).haveLaf = true →
      Effect (g.ask (.request tcr)) w ((g.lend r).ask (.update r)) (w.adopted r tcr)
  | place {g : Ghost} {w placed w' : World} {chainNo : UInt32} {prio : UInt16} {tcr : TcRule} :
      g.Free → objRuleLafLookup tcr w = .ok none →
      schedBasicPlace tcr w = .ok (some (chainNo, prio), placed) →
      objRulePosInsert w.rules.next (objRuleAlloc {
        chainNo, prio, wantTcr := some tcr, obj := { refcnt := 1 } } placed).2 = .ok w' →
      Effect (g.ask (.request tcr)) w ((g.lend w.rules.next).ask (.update w.rules.next)) w'
  | decline {g : Ghost} {w : World} {tcr : TcRule} : g.Free → objRuleLafLookup tcr w = .ok none →
      tcr.type ≠ .forward → tcr.type ≠ .routeGoto → Effect (g.ask (.request tcr)) w g w
  | begin {g : Ghost} {w : World} {r : RouteId} : g.Free →
      (w.routes.cell r).obj.kind = .route →
      Effect (g.opens {r}) w
        (g.install ⟨r, (w.routes.cell r).rule, (w.routes.cell r).targetRule, false⟩) w
  | aim {g : Ghost} {w : World} {r : RouteId} {q : RuleId} {old : Option RuleId} : g.Free →
      (w.routes.cell r).obj.kind = .route →
      (∀ t, (w.routes.cell r).target = some t → (w.targets.cell t).rule = some q) →
      Effect ((g.install ⟨r, none, old, false⟩).lend q) w
        (g.install ⟨r, none, some q, true⟩)
        (w.setRoute r fun route => { route with targetRule := some q })
  | reaim {g : Ghost} {w : World} {r : RouteId} {p q old : RuleId} : g.Free →
      (w.routes.cell r).obj.kind = .route →
      (∀ t, (w.routes.cell r).target = some t → (w.targets.cell t).rule = some q) →
      Effect ((g.install ⟨r, some p, some old, false⟩).lend q) w
        ((g.install ⟨r, some p, some q, true⟩).lend old)
        (w.setRoute r fun route => { route with targetRule := some q })
  | demand {g : Ghost} {w : World} {r : RouteId} {rule : Option RuleId} {q : RuleId}
      {aimed : Bool} {tcr : TcRule} : g.Free →
      (∀ t, (w.routes.cell r).target = some t → (w.targets.cell t).rule = some q) →
      gotoRule w r q = .ok tcr →
      Effect (g.install ⟨r, rule, some q, aimed⟩) w
        ((g.install ⟨r, rule, some q, aimed⟩).ask (.request tcr)) w
  | plant {g : Ghost} {w : World} {r : RouteId} {q : RuleId} {old goto : Option RuleId}
      {aimed : Bool} : g.Free → (w.routes.cell r).obj.kind = .route →
      Effect ((g.install ⟨r, old, goto, aimed⟩).lend q) w
        ((g.install ⟨r, some q, goto, aimed⟩).lendSome old)
        (w.setRoute r fun route => { route with rule := some q })
  | finish {g : Ghost} {w : World} {r : RouteId} {rule goto : Option RuleId} {aimed : Bool} :
      g.Free →
      (∀ t q, (w.routes.cell r).target = some t → (w.targets.cell t).rule = some q →
        Installed w r q) →
      Effect (g.install ⟨r, rule, goto, aimed⟩) w g w
  | shut {g : Ghost} {w : World} {t : TargetId} : g.Free → ¬ w.Ready t →
      Effect (g.opens (w.targets.cell t).routes) w g w

/-- A part of what the functions under way hold: references, and routes in
`obj_route_install`. -/
structure Held where
  loans : Multiset RuleId := 0
  installing : Multiset Installing := 0

/-- The functions under way hold at least a given part. -/
structure Held.Within (held : Held) (g : Ghost) : Prop where
  loans : held.loans ≤ g.loans
  installing : held.installing ≤ g.installing

/-- Effects one after the other, while the functions under way keep the part `held`. -/
inductive Effects (held : Held) (g : Ghost) (w : World) : Ghost → World → Prop
  | refl : Effects held g w g w
  | step {g' g'' : Ghost} {w' w'' : World} : Effects held g w g' w' →
      held.Within g' → Effect g' w' g'' w'' → held.Within g'' → Effects held g w g'' w''

namespace Effects

variable {held : Held} {g g' g'' : Ghost} {w w' w'' : World}

/-- One effect. -/
theorem one (effect : Effect g w g' w') (before : held.Within g) (after : held.Within g') :
    Effects held g w g' w' :=
  .step .refl before effect after

/-- Effects compose. -/
theorem trans (first : Effects held g w g' w') (second : Effects held g' w' g'' w'') :
    Effects held g w g'' w'' := by
  induction second with
  | refl => exact first
  | step _ before effect after ih => exact .step ih before effect after

/-- What every effect preserves, all of them together preserve. -/
theorem induct (effects : Effects held g w g' w') (invariant : Ghost → World → Prop)
    (initially : invariant g w)
    (each : ∀ g w g' w', held.Within g → held.Within g' → invariant g w →
      Effect g w g' w' → invariant g' w') : invariant g' w' := by
  induction effects with
  | refl => exact initially
  | step _ before effect after ih => exact each _ _ _ _ before after ih effect

end Effects

end FlowerRoute
