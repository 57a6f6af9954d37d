import FlowerRoute.Verif.Echo
import FlowerRoute.Verif.Sound

/-!
# What effects leave alone

The functions on rules never touch links and neighbours, which routes a target has, which target
a route has, or the position of a rule.
-/

namespace FlowerRoute

open Outcome

/-- What is the same in two worlds apart from the rules, the trees of rules, the queue and the
kernel. -/
structure SameObjects (w w' : World) : Prop where
  config : w'.config = w.config
  mode : w'.mode = w.mode
  pinChanges : w'.pinChanges = w.pinChanges
  links : w'.links = w.links
  neighs : w'.neighs = w.neighs
  linkTree : w'.linkTree = w.linkTree
  routeTree : w'.routeTree = w.routeTree
  poisoned : w'.poisoned = w.poisoned
  balancing : w'.balancing = w.balancing
  echoes : w'.kernel.echoes = w.kernel.echoes
  rejects : w'.kernel.rejects = w.kernel.rejects
  targetsNext : w'.targets.next = w.targets.next
  routesNext : w'.routes.next = w.routes.next
  target : ∀ t, ∃ weakRefcnt, w'.targets.cell t = { w.targets.cell t with
    obj := { (w.targets.cell t).obj with weakRefcnt } }
  route : ∀ r, ∃ rule targetRule, w'.routes.cell r = { w.routes.cell r with rule, targetRule }

/-- The rules keep their positions, and no rule is forgotten. -/
structure SamePlaces (w w' : World) : Prop where
  next : w.rules.next ≤ w'.rules.next
  place : ∀ r, r < w.rules.next → (w'.rules.cell r).chainNo = (w.rules.cell r).chainNo ∧
    (w'.rules.cell r).prio = (w.rules.cell r).prio ∧ (w'.rules.cell r).type = (w.rules.cell r).type

namespace SameObjects

variable {w w' w'' : World}

/-- Nothing differs in one world. -/
theorem refl (w : World) : SameObjects w w :=
  ⟨rfl, rfl, rfl, rfl, rfl, rfl, rfl, rfl, rfl, rfl, rfl, rfl, rfl, fun _ => ⟨_, rfl⟩,
    fun _ => ⟨_, _, rfl⟩⟩

/-- What two steps leave alone, both of them together leave alone. -/
theorem trans (first : SameObjects w w') (second : SameObjects w' w'') : SameObjects w w'' where
  config := second.config.trans first.config
  mode := second.mode.trans first.mode
  pinChanges := second.pinChanges.trans first.pinChanges
  links := second.links.trans first.links
  neighs := second.neighs.trans first.neighs
  linkTree := second.linkTree.trans first.linkTree
  routeTree := second.routeTree.trans first.routeTree
  poisoned := second.poisoned.trans first.poisoned
  balancing := second.balancing.trans first.balancing
  echoes := second.echoes.trans first.echoes
  rejects := second.rejects.trans first.rejects
  targetsNext := second.targetsNext.trans first.targetsNext
  routesNext := second.routesNext.trans first.routesNext
  target t := by
    obtain ⟨n, before⟩ := first.target t
    obtain ⟨m, after⟩ := second.target t
    exact ⟨m, by rw [after, before]⟩
  route r := by
    obtain ⟨p, q, before⟩ := first.route r
    obtain ⟨p', q', after⟩ := second.route r
    exact ⟨p', q', by rw [after, before]⟩

/-- The rule of a target. -/
theorem targetRule (same : SameObjects w w') (t : TargetId) :
    (w'.targets.cell t).rule = (w.targets.cell t).rule := by
  obtain ⟨n, cell⟩ := same.target t
  rw [cell]

/-- The routes of a target. -/
theorem targetRoutes (same : SameObjects w w') (t : TargetId) :
    (w'.targets.cell t).routes = (w.targets.cell t).routes := by
  obtain ⟨n, cell⟩ := same.target t
  rw [cell]

/-- The target of a route. -/
theorem routeTarget (same : SameObjects w w') (r : RouteId) :
    (w'.routes.cell r).target = (w.routes.cell r).target := by
  obtain ⟨p, q, cell⟩ := same.route r
  rw [cell]

/-- The destination of a route. -/
theorem routeDst (same : SameObjects w w') (r : RouteId) :
    (w'.routes.cell r).dst = (w.routes.cell r).dst := by
  obtain ⟨p, q, cell⟩ := same.route r
  rw [cell]

/-- The object of a route. -/
theorem routeObj (same : SameObjects w w') (r : RouteId) :
    (w'.routes.cell r).obj = (w.routes.cell r).obj := by
  obtain ⟨p, q, cell⟩ := same.route r
  rw [cell]

end SameObjects

namespace SamePlaces

variable {w w' w'' : World}

/-- Nothing moves in one world. -/
theorem refl (w : World) : SamePlaces w w := ⟨Nat.le_refl _, fun _ _ => ⟨rfl, rfl, rfl⟩⟩

/-- Rules that keep their positions twice keep them. -/
theorem trans (first : SamePlaces w w') (second : SamePlaces w' w'') : SamePlaces w w'' where
  next := Nat.le_trans first.next second.next
  place r old := by
    obtain ⟨chain, prio, type⟩ := second.place r (Nat.lt_of_lt_of_le old first.next)
    obtain ⟨chain', prio', type'⟩ := first.place r old
    exact ⟨chain.trans chain', prio.trans prio', type.trans type'⟩

/-- A change of one rule that keeps its position. -/
theorem modify {r : RuleId} {f : ObjRule → ObjRule} (rules : w'.rules = w.rules.modify r f)
    (keep : ∀ rule, (f rule).chainNo = rule.chainNo ∧ (f rule).prio = rule.prio ∧
      (f rule).type = rule.type) : SamePlaces w w' where
  next := by rw [rules]; exact Nat.le_refl _
  place p _ := by
    rw [rules, Heap.cell_modify]
    split
    · exact keep _
    · exact ⟨rfl, rfl, rfl⟩

/-- A new rule moves no other one. -/
theorem alloc {rule : ObjRule} (rules : w'.rules = w.rules.alloc rule) : SamePlaces w w' where
  next := by rw [rules]; exact Nat.le_succ _
  place p old := by
    rw [rules, Heap.cell_alloc_ne _ _ (Nat.ne_of_lt old)]
    exact ⟨rfl, rfl, rfl⟩

end SamePlaces

section Effects

/-- Giving up a weak reference to a target changes its count only. -/
theorem sameObjects_dropTarget (w : World) (t : Option TargetId) :
    SameObjects w (w.dropTarget t) := by
  have same : SameObjects w w := .refl w
  cases t with
  | none => exact same
  | some t =>
    exact { same with
      target := fun i => by
        simp only [World.dropTarget, World.setTarget, Heap.cell_modify]
        split
        · exact ⟨_, rfl⟩
        · exact ⟨_, rfl⟩ }

/-- A reaped rule gives up its weak reference, and no more. -/
theorem sameObjects_reaped (w : World) (r : RuleId) : SameObjects w (w.reaped r) :=
  (sameObjects_dropTarget w _).trans { SameObjects.refl _ with }

/-- The rules of a route are no objects of other kinds. -/
theorem sameObjects_setRoute (w : World) (r : RouteId) (f : ObjRoute → ObjRoute)
    (writes : ∀ route, ∃ rule targetRule, f route = { route with rule, targetRule }) :
    SameObjects w (w.setRoute r f) := by
  have same : SameObjects w w := .refl w
  exact { same with
    route := fun i => by
      simp only [World.setRoute, Heap.cell_modify]
      split
      · exact writes _
      · exact ⟨_, _, rfl⟩ }

variable {held : Held} {g g' : Ghost} {w w' : World}

/-- What an effect leaves alone. -/
theorem Effect.sameObjects (effect : Effect g w g' w') : SameObjects w w' := by
  have same : SameObjects w w := .refl w
  cases effect with
  | reap _ _ _ reaped =>
    obtain ⟨rfl, -⟩ := objRuleReap_ok reaped
    exact sameObjects_reaped w _
  | @execute _ _ tca _ _ _ _ =>
    have answered : (w.answer tca).1.echoes = w.kernel.echoes ∧
        (w.answer tca).1.rejects = w.kernel.rejects := by
      simp only [World.answer, Kernel.request]
      split <;> exact ⟨rfl, rfl⟩
    refine { same with echoes := ?_, rejects := ?_ }
    all_goals
      simp only [World.executed]
      split
      · simp [answered]
      · simp [answered]
  | discover _ _ inPos inLaf =>
    obtain ⟨_, pos, laf, -, -, -, -, -, rfl⟩ := objRuleNew_alloc inPos inLaf
    exact { same with }
  | @place _ _ placed w' chainNo prio tcr _ _ place inserted =>
    obtain ⟨⟨chainTree, rfl⟩, -⟩ := returns_iff.mp (schedBasicPlace_returns tcr w) _ place
    obtain ⟨-, linked, -, rfl⟩ := objRulePosInsert_alloc (w := { w with chainTree }) inserted
    exact { same with }
  | aim _ _ _ => exact sameObjects_setRoute w _ _ fun _ => ⟨_, _, rfl⟩
  | reaim _ _ _ => exact sameObjects_setRoute w _ _ fun _ => ⟨_, _, rfl⟩
  | plant _ _ => exact sameObjects_setRoute w _ _ fun _ => ⟨_, _, rfl⟩
  | _ => exact { same with }

/-- An effect moves no rule. -/
theorem Effect.samePlaces (effect : Effect g w g' w') : SamePlaces w w' := by
  cases effect with
  | @reap _ _ _ r _ _ _ reaped =>
    obtain ⟨rfl, -⟩ := objRuleReap_ok reaped
    exact .modify (r := r) (f := ObjRule.reaped) (by simp [World.reaped, World.setRule])
      fun _ => ⟨rfl, rfl, rfl⟩
  | schedule _ _ _ _ _ _ _ => exact .modify (w.rules_scheduled _) fun _ => ⟨rfl, rfl, rfl⟩
  | execute _ _ _ => exact .modify (w.rules_executed ..) fun _ => ⟨rfl, rfl, rfl⟩
  | adopt _ _ _ _ _ _ => exact .modify (w.rules_adopted ..) fun _ => ⟨rfl, rfl, rfl⟩
  | discover _ _ inPos inLaf =>
    obtain ⟨_, pos, laf, -, -, -, -, -, rfl⟩ := objRuleNew_alloc inPos inLaf
    exact .alloc rfl
  | @place _ _ placed w' chainNo prio tcr _ _ place inserted =>
    obtain ⟨⟨chainTree, rfl⟩, -⟩ := returns_iff.mp (schedBasicPlace_returns tcr w) _ place
    obtain ⟨-, linked, -, rfl⟩ := objRulePosInsert_alloc (w := { w with chainTree }) inserted
    exact .alloc rfl
  | ref _ => exact .modify (rules_setRule ..) fun _ => ⟨rfl, rfl, rfl⟩
  | unref _ _ => exact .modify (rules_setRule ..) fun _ => ⟨rfl, rfl, rfl⟩
  | unwant _ _ _ _ _ _ _ => exact .modify (rules_setRule ..) fun _ => ⟨rfl, rfl, rfl⟩
  | settle _ _ _ _ _ => exact .modify (rules_setRule ..) fun _ => ⟨rfl, rfl, rfl⟩
  | confirm _ _ _ _ _ _ _ => exact .modify (rules_setRule ..) fun _ => ⟨rfl, rfl, rfl⟩
  | found _ _ _ _ _ _ => exact .modify (rules_setRule ..) fun _ => ⟨rfl, rfl, rfl⟩
  | vanish _ _ _ => exact .modify (rules_setRule ..) fun _ => ⟨rfl, rfl, rfl⟩
  | _ => exact ⟨Nat.le_refl _, fun _ _ => ⟨rfl, rfl, rfl⟩⟩

/-- What effects leave alone. -/
theorem Effects.sameObjects (effects : Effects held g w g' w') : SameObjects w w' :=
  effects.induct (fun _ => SameObjects w) (.refl w) fun _ _ _ _ _ _ same effect =>
    same.trans effect.sameObjects

/-- Effects move no rule. -/
theorem Effects.samePlaces (effects : Effects held g w g' w') : SamePlaces w w' :=
  effects.induct (fun _ => SamePlaces w) (.refl w) fun _ _ _ _ _ _ same effect =>
    same.trans effect.samePlaces

end Effects

end FlowerRoute
