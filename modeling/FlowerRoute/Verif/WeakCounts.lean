import FlowerRoute.Verif.Writes

/-!
# Weak references to targets

A target's weak references are those of its routes and that of the rule which is for it. The
functions on rules keep it so, and the installation of a target makes it so again.
-/

namespace FlowerRoute

open Outcome

/-- Rule `r` is for target `t`. -/
def Aims (w : World) (r : RuleId) (t : TargetId) : Prop :=
  (w.rules.cell r).obj.kind = .rule ∧ (w.rules.cell r).target = some t

/-- Some rule's target is `t`. -/
def Aimed (w : World) (t : TargetId) : Prop := ∃ r, Aims w r t

/-- As many weak references as routes, and one more when some rule's target is `t`. -/
def Weighed (w : World) (t : TargetId) : Prop :=
  (Aimed w t ∧ (w.targets.cell t).obj.weakRefcnt = (w.targets.cell t).routes.length + 1) ∨
    (¬ Aimed w t ∧ (w.targets.cell t).obj.weakRefcnt = (w.targets.cell t).routes.length)

/-- A rule is for the target that has it, and the weak references of the targets are counted. -/
structure Counted (w : World) : Prop where
  own : ∀ r t, Aims w r t → (w.targets.cell t).rule = some r
  fresh : ∀ r, w.rules.next ≤ r → (w.rules.cell r).obj.kind ≠ .rule
  weighed : ∀ t, (w.targets.cell t).obj.kind = .target → Weighed w t

section Writes

variable {w w' : World}

/-- What is written to a target where it was read before. -/
theorem setTarget_congr (w : World) (t : TargetId) (f g : ObjTarget → ObjTarget)
    (same : f (w.targets.cell t) = g (w.targets.cell t)) : w.setTarget t f = w.setTarget t g := by
  rw [World.setTarget, World.setTarget, Heap.modify_congr w.targets t f g same]

/-- What a write to a target keeps of every target. -/
theorem target_setTarget {β : Type} (w : World) (t : TargetId) {f : ObjTarget → ObjTarget}
    (field : ObjTarget → β) (keep : ∀ target, field (f target) = field target) (i : TargetId) :
    field ((w.setTarget t f).targets.cell i) = field (w.targets.cell i) :=
  Heap.cell_modify_field w.targets t i field keep

/-- What was written to a target is there. -/
theorem cell_setTarget (w : World) (t : TargetId) (f : ObjTarget → ObjTarget) :
    (w.setTarget t f).targets.cell t = f (w.targets.cell t) := by
  simp [World.setTarget]

/-- The count of a target that has the same rules and routes. -/
theorem Weighed.congr {t : TargetId} (weighed : Weighed w t) (aims : ∀ r, Aims w' r t ↔ Aims w r t)
    (weak : (w'.targets.cell t).obj.weakRefcnt = (w.targets.cell t).obj.weakRefcnt)
    (routes : (w'.targets.cell t).routes.length = (w.targets.cell t).routes.length) :
    Weighed w' t := by
  have aimed : Aimed w' t ↔ Aimed w t := exists_congr aims
  rw [Weighed, aimed, weak, routes]
  exact weighed

/-- What a reaped rule was for, no rule is for. -/
theorem aims_reaped (w : World) (r q : RuleId) (t : TargetId) :
    Aims (w.reaped r) q t ↔ q ≠ r ∧ Aims w q t := by
  have cell : ((w.reaped r).rules.cell q) =
      if q = r then (w.rules.cell q).reaped else w.rules.cell q := by
    simp [World.reaped, World.setRule, Heap.cell_modify]
  rw [Aims, cell]
  split
  · next same => simp [same, ObjRule.reaped]
  · next other => simp [other, Aims]

/-- The targets that are left when a rule is reaped. -/
theorem targets_reaped (w : World) (r : RuleId) :
    (w.reaped r).targets = (w.dropTarget (w.rules.cell r).target).targets := rfl

namespace Counted

/-- Every rule is for the target it was for. -/
theorem congr (counted : Counted w) (aims : ∀ r t, Aims w' r t ↔ Aims w r t)
    (fresh : ∀ r, w'.rules.next ≤ r → (w'.rules.cell r).obj.kind ≠ .rule)
    (targets : w'.targets = w.targets) : Counted w' where
  own r t aim := by
    rw [targets]
    exact counted.own r t ((aims r t).mp aim)
  fresh := fresh
  weighed t live := by
    rw [targets] at live
    apply (counted.weighed t live).congr fun r => aims r t
    · rw [targets]
    · rw [targets]

/-- No two rules are for one target. -/
theorem unique (counted : Counted w) {r q : RuleId} {t : TargetId} (first : Aims w r t)
    (second : Aims w q t) : q = r := by
  have same := (counted.own q t second).symm.trans (counted.own r t first)
  exact Option.some.inj same

/-- A rule that is reaped gives back the weak reference it held. -/
theorem reaped (counted : Counted w) {r : RuleId} (live : (w.rules.cell r).obj.kind = .rule) :
    Counted (w.reaped r) where
  own q t aim := by
    obtain ⟨-, aim⟩ := (aims_reaped w r q t).mp aim
    rw [targets_reaped, target_dropTarget _ _ ObjTarget.rule t fun _ _ => rfl]
    exact counted.own q t aim
  fresh q beyond := by
    have old : (w.rules.cell q).obj.kind ≠ .rule := by
      apply counted.fresh q
      simpa [World.reaped, World.setRule] using beyond
    have cell : ((w.reaped r).rules.cell q) =
        if q = r then (w.rules.cell q).reaped else w.rules.cell q := by
      simp [World.reaped, World.setRule, Heap.cell_modify]
    rw [cell]
    split
    · simp [ObjRule.reaped]
    · exact old
  weighed t target := by
    rw [targets_reaped, target_dropTarget _ _ (fun target => target.obj.kind) t
      fun _ _ => rfl] at target
    have weighed := counted.weighed t target
    have routes : ((w.reaped r).targets.cell t).routes = (w.targets.cell t).routes := by
      rw [targets_reaped, target_dropTarget _ _ ObjTarget.routes t fun _ _ => rfl]
    by_cases mine : (w.rules.cell r).target = some t
    · -- the rule was the only one for this target
      have aim : Aims w r t := ⟨live, mine⟩
      have none : ¬ Aimed (w.reaped r) t := by
        rintro ⟨q, other⟩
        obtain ⟨other, aims⟩ := (aims_reaped w r q t).mp other
        exact other (counted.unique aim aims)
      have weak : ((w.reaped r).targets.cell t).obj.weakRefcnt =
          (w.targets.cell t).obj.weakRefcnt - 1 := by
        rw [targets_reaped, mine]
        simp [World.dropTarget, World.setTarget]
      obtain ⟨-, count⟩ | ⟨unaimed, -⟩ := weighed
      · exact .inr ⟨none, by rw [weak, routes, count, Nat.add_sub_cancel]⟩
      · exact absurd ⟨r, aim⟩ unaimed
    · have aims : ∀ q, Aims (w.reaped r) q t ↔ Aims w q t := by
        intro q
        rw [aims_reaped]
        refine and_iff_right_of_imp fun aim same => mine ?_
        exact same ▸ aim.2
      refine weighed.congr aims ?_ (congrArg List.length routes)
      rw [targets_reaped]
      cases hasTarget : (w.rules.cell r).target with
      | none => rfl
      | some i =>
        have other : t ≠ i := fun same => mine (by rw [hasTarget, same])
        simp only [World.dropTarget, World.setTarget]
        rw [Heap.cell_modify_ne _ _ other]

/-- A write to a target that keeps its rule and what is counted. -/
theorem setTarget (counted : Counted w) (t : TargetId) (f : ObjTarget → ObjTarget)
    (keep : ∀ target, (f target).obj.kind = target.obj.kind ∧ (f target).rule = target.rule ∧
      (f target).obj.weakRefcnt = target.obj.weakRefcnt ∧ (f target).routes = target.routes) :
    Counted (w.setTarget t f) := by
  constructor
  · intro r i aim
    rw [target_setTarget w t ObjTarget.rule fun target => (keep target).2.1]
    exact counted.own r i aim
  · exact counted.fresh
  · intro i live
    rw [target_setTarget w t (fun target => target.obj.kind) fun target => (keep target).1] at live
    refine (counted.weighed i live).congr (fun _ => Iff.rfl) ?_ ?_
    · exact target_setTarget w t (fun target => target.obj.weakRefcnt)
        (fun target => (keep target).2.2.1) i
    · exact target_setTarget w t (fun target => target.routes.length)
        (fun target => congrArg List.length (keep target).2.2.2) i

/-- A write keeps the counts. -/
theorem write (counted : Counted w) (write : Write w w') : Counted w' := by
  cases write with
  | rule r f target kind =>
    have cell : ∀ q, ((w.setRule r f).rules.cell q).target = (w.rules.cell q).target ∧
        ((w.setRule r f).rules.cell q).obj.kind = (w.rules.cell q).obj.kind := by
      intro q
      rw [World.setRule, Heap.cell_modify]
      split
      · next same => exact same ▸ ⟨target, kind⟩
      · exact ⟨rfl, rfl⟩
    refine counted.congr (fun q t => ?_) (fun q beyond => ?_) rfl
    · rw [Aims, (cell q).1, (cell q).2]
      rfl
    · rw [(cell q).2]
      exact counted.fresh q beyond
  | route r f _ => exact counted.congr (fun _ _ => Iff.rfl) counted.fresh rfl
  | reap r reaped =>
    obtain ⟨rfl, live, -⟩ := objRuleReap_ok reaped
    exact counted.reaped live
  | alloc rule noTarget =>
    refine counted.congr (fun q t => ?_) (fun q beyond => ?_) rfl
    · by_cases new : q = w.rules.next
      · subst new
        have old := counted.fresh w.rules.next (Nat.le_refl _)
        simp [Aims, objRuleAlloc, noTarget, old]
      · simp [Aims, objRuleAlloc, Heap.cell_alloc, new]
    · have beyond : w.rules.next + 1 ≤ q := beyond
      have other : q ≠ w.rules.next := by omega
      simp only [objRuleAlloc, Heap.cell_alloc, if_neg other]
      exact counted.fresh q (by omega)
  | rest _ _ _ _ _ _ _ _ => exact counted.congr (fun _ _ => Iff.rfl) counted.fresh rfl

/-- Some writes keep the counts. -/
theorem writes (counted : Counted w) (writes : Writes w w') : Counted w' :=
  @Writes.induct _ _ (fun w w' => Counted w → Counted w') writes (fun _ same => same)
    (fun _ _ step counted => counted.write step)
    (fun _ _ _ first second counted => second (first counted)) counted

end Counted

end Writes

/-- What the installation of a target and the release of a reference to it leave alone. -/
structure SameRoutes (w w' : World) : Prop where
  mode : w'.mode = w.mode
  routesNext : w'.routes.next = w.routes.next
  route : ∀ r, (w'.routes.cell r).obj = (w.routes.cell r).obj ∧
    (w'.routes.cell r).target = (w.routes.cell r).target
  target : ∀ t, (w'.targets.cell t).obj.kind = .target →
    (w.targets.cell t).obj.kind = .target ∧
      (w'.targets.cell t).obj.state = (w.targets.cell t).obj.state ∧
      (w'.targets.cell t).routes = (w.targets.cell t).routes

section Targets

variable {c : Calls} {w w' w'' : World} {t : TargetId}

namespace SameRoutes

theorem refl (w : World) : SameRoutes w w := ⟨rfl, rfl, fun _ => ⟨rfl, rfl⟩, fun _ live => ⟨live, rfl, rfl⟩⟩

theorem trans (first : SameRoutes w w') (second : SameRoutes w' w'') : SameRoutes w w'' where
  mode := second.mode.trans first.mode
  routesNext := second.routesNext.trans first.routesNext
  route r := ⟨(second.route r).1.trans (first.route r).1, (second.route r).2.trans (first.route r).2⟩
  target t live := by
    obtain ⟨middle, state, routes⟩ := second.target t live
    obtain ⟨before, state', routes'⟩ := first.target t middle
    exact ⟨before, state.trans state', routes.trans routes'⟩

theorem of_sameObjects (same : SameObjects w w') : SameRoutes w w' where
  mode := same.mode
  routesNext := same.routesNext
  route r := ⟨same.routeObj r, same.routeTarget r⟩
  target t live := by
    obtain ⟨n, cell⟩ := same.target t
    rw [cell] at live ⊢
    exact ⟨live, rfl, rfl⟩

/-- Nothing but routes and targets matters. -/
theorem of_heaps (mode : w'.mode = w.mode) (routes : w'.routes = w.routes)
    (targets : w'.targets = w.targets) : SameRoutes w w' where
  mode := mode
  routesNext := by rw [routes]
  route r := by
    rw [routes]
    exact ⟨rfl, rfl⟩
  target t live := by
    rw [targets] at live ⊢
    exact ⟨live, rfl, rfl⟩

/-- A write to a target that keeps its state and its routes. -/
theorem setTarget (w : World) (t : TargetId) (f : ObjTarget → ObjTarget)
    (keep : ∀ target, (f target).obj.kind = target.obj.kind ∧
      (f target).obj.state = target.obj.state ∧ (f target).routes = target.routes) :
    SameRoutes w (w.setTarget t f) where
  mode := rfl
  routesNext := rfl
  route _ := ⟨rfl, rfl⟩
  target i live := by
    refine ⟨?_, ?_, ?_⟩
    · rwa [target_setTarget w t (fun target => target.obj.kind) fun target => (keep target).1] at live
    · exact target_setTarget w t (fun target => target.obj.state) (fun target => (keep target).2.1) i
    · exact target_setTarget w t ObjTarget.routes (fun target => (keep target).2.2) i

/-- A target that is gone does not matter. -/
theorem gone {g : ObjTarget → ObjTarget} (same : SameRoutes w' w'') (mode : w'.mode = w.mode)
    (routes : w'.routes = w.routes)
    (others : ∀ i, i ≠ t → w'.targets.cell i = w.targets.cell i)
    (dead : ∀ target, (g target).obj.kind = .unknown) : SameRoutes w (w''.setTarget t g) where
  mode := same.mode.trans mode
  routesNext := same.routesNext.trans (by rw [routes])
  route r := by
    rw [← routes]
    exact same.route r
  target i live := by
    by_cases mine : i = t
    · subst mine
      rw [cell_setTarget, dead] at live
      cases live
    · rw [World.setTarget, Heap.cell_modify_ne _ _ mine] at live ⊢
      rw [← others i mine]
      exact same.target i live

end SameRoutes

/-- A rule without a target gets one that no rule is for, and its weak reference. -/
theorem Counted.aim (counted : Counted w) {r : RuleId} (unaimed : ¬ Aimed w t)
    (live : (w.rules.cell r).obj.kind = .rule) (noTarget : (w.rules.cell r).target = none)
    (alive : (w.targets.cell t).obj.state ≠ .zombie) :
    Counted ((w.setTarget t fun target =>
        { target with rule := some r, obj := objWeakRef target.obj }).setRule r fun rule =>
          { rule with target := some t }) := by
  set w' := (w.setTarget t fun target =>
    { target with rule := some r, obj := objWeakRef target.obj }).setRule r fun rule =>
      { rule with target := some t } with updated
  have rules : ∀ q, w'.rules.cell q =
      if q = r then { w.rules.cell r with target := some t } else w.rules.cell q := by
    intro q
    rw [updated, World.setRule, Heap.cell_modify]
    split
    · next same => rw [same]; rfl
    · rfl
  have targets : ∀ i, w'.targets.cell i = if i = t then
      { w.targets.cell t with rule := some r, obj := objWeakRef (w.targets.cell t).obj }
      else w.targets.cell i := by
    intro i
    rw [updated, targets_setRule, World.setTarget, Heap.cell_modify]
    split
    · next same => rw [same]
    · rfl
  have aims : ∀ q i, Aims w' q i ↔ Aims w q i ∨ (q = r ∧ i = t) := by
    intro q i
    rw [Aims, Aims, rules q]
    split
    · next same => simp [same, live, noTarget, eq_comm]
    · next other => simp [other]
  constructor
  · intro q i aim
    rw [targets i]
    split
    · next same =>
      obtain old | ⟨rfl, -⟩ := (aims q i).mp aim
      · exact absurd ⟨q, same ▸ old⟩ unaimed
      · rfl
    · next other =>
      obtain old | ⟨-, same⟩ := (aims q i).mp aim
      · exact counted.own q i old
      · exact absurd same other
  · intro q beyond
    have old := counted.fresh q beyond
    rw [rules q]
    split
    · next same => exact absurd live (same ▸ old)
    · exact old
  · intro i target
    rw [targets i] at target
    by_cases mine : i = t
    · subst mine
      rw [if_pos rfl] at target
      have kind : (w.targets.cell i).obj.kind = .target := by
        rwa [kind_objWeakRef] at target
      obtain ⟨aimed, -⟩ | ⟨-, count⟩ := counted.weighed i kind
      · exact absurd aimed unaimed
      · refine .inl ⟨⟨r, (aims r i).mpr (.inr ⟨rfl, rfl⟩)⟩, ?_⟩
        rw [targets i, if_pos rfl]
        simp [objWeakRef, alive, count]
    · rw [if_neg mine] at target
      refine (counted.weighed i target).congr (fun q => ?_) ?_ ?_
      · simp [aims, mine]
      · rw [targets i, if_neg mine]
      · rw [targets i, if_neg mine]

/-- The rule of a target that no rule is for does not matter, and a target that is gone does not
count. -/
theorem Counted.unaimed (counted : Counted w) (unaimed : ¬ Aimed w t)
    (f : ObjTarget → ObjTarget)
    (keep : ∀ target, ((f target).obj.kind = target.obj.kind ∧
      (f target).obj.weakRefcnt = target.obj.weakRefcnt ∧ (f target).routes = target.routes) ∨
      (f target).obj.kind = .unknown) : Counted (w.setTarget t f) := by
  have others : ∀ i, i ≠ t → (w.setTarget t f).targets.cell i = w.targets.cell i :=
    fun i other => Heap.cell_modify_ne w.targets f other
  constructor
  · intro r i aim
    rw [others i fun same => unaimed ⟨r, same ▸ aim⟩]
    exact counted.own r i aim
  · exact counted.fresh
  · intro i target
    by_cases mine : i = t
    · subst mine
      rw [cell_setTarget] at target
      obtain ⟨kind, weak, routes⟩ | gone := keep (w.targets.cell i)
      · refine (counted.weighed i (kind ▸ target)).congr (fun _ => Iff.rfl) ?_ ?_
        · rw [cell_setTarget, weak]
        · rw [cell_setTarget, routes]
      · rw [gone] at target
        cases target
    · rw [others i mine] at target
      refine (counted.weighed i target).congr (fun _ => Iff.rfl) ?_ ?_
      · rw [others i mine]
      · rw [others i mine]

/-- `obj_target_weak_ref` counts one weak reference. -/
theorem objTargetWeakRef_ok (counted : objTargetWeakRef t w = .ok w') :
    (w.targets.cell t).obj.kind = .target ∧
      w' = w.setTarget t fun target => { target with obj := objWeakRef target.obj } := by
  obtain ⟨target, followed, counted⟩ := bind_returned counted
  cases counted
  exact ⟨(target_ok followed).1, rfl⟩

/-- `obj_rule_set_target` gives a target to a rule that has none. -/
theorem objRuleSetTarget_ok {r : RuleId} (set : objRuleSetTarget r t w = .ok w') :
    (w.rules.cell r).obj.kind = .rule ∧ (w.rules.cell r).target = none ∧
      w' = (w.setTarget t fun target => { target with obj := objWeakRef target.obj }).setRule r
        fun rule => { rule with target := some t } := by
  obtain ⟨rule, followed, set⟩ := bind_returned set
  obtain ⟨live, rfl⟩ := rule_ok followed
  obtain ⟨_, noTarget, set⟩ := bind_returned set
  obtain ⟨w₁, counted, set⟩ := bind_returned set
  obtain ⟨-, rfl⟩ := objTargetWeakRef_ok counted
  cases set
  exact ⟨live, of_require noTarget, rfl⟩

/-- `obj_target_install` for a target that no rule is for. -/
theorem objTargetInstall_counted (writing : Writing c) (counted : Counted w)
    (noRule : (w.targets.cell t).rule = none)
    (alive : (w.targets.cell t).obj.state ≠ .zombie) :
    Returns (fun w' => SameRoutes w w' ∧ Counted w') (objTargetInstall c t w) := by
  refine returns_bind fun prepared _ => ?_
  cases prepared with
  | none => exact ⟨.refl w, counted⟩
  | some tcr =>
    refine returns_bind fun w₁ dropped => ?_
    have same : w₁ = w := by
      obtain ⟨target, followed, dropped⟩ := bind_returned dropped
      obtain ⟨-, rfl⟩ := target_ok followed
      rw [noRule] at dropped
      cases dropped
      rfl
    subst same
    refine Ends.bind (objRulePrimeRequest_writes tcr w₁) fun ⟨r, w₂⟩ primed => ?_
    have primed : Writes w₁ w₂ := primed
    have counted := counted.writes primed
    have same := primed.sameObjects
    have state : (w₂.targets.cell t).obj.state = (w₁.targets.cell t).obj.state := by
      obtain ⟨n, cell⟩ := same.target t
      rw [cell]
    rw [← same.targetRule t] at noRule
    rw [← state] at alive
    cases r with
    | none =>
      have unchanged : w₂.setTarget t (fun target => { target with rule := none }) = w₂ := by
        rw [World.setTarget, Heap.modify_id]
        rw [← noRule]
      show SameRoutes w₁ (w₂.setTarget t fun target => { target with rule := none }) ∧
        Counted (w₂.setTarget t fun target => { target with rule := none })
      rw [unchanged]
      exact ⟨.of_sameObjects same, counted⟩
    | some r =>
      have unaimed : ¬ Aimed w₂ t := by
        rintro ⟨q, aim⟩
        have owned := counted.own q t aim
        rw [noRule] at owned
        cases owned
      refine returns_bind fun w₃ set => ?_
      obtain ⟨live, noTarget, rfl⟩ := objRuleSetTarget_ok set
      have merged : (w₂.setTarget t fun target => { target with rule := some r }).setTarget t
          (fun target => { target with obj := objWeakRef target.obj }) =
          w₂.setTarget t fun target =>
            { target with rule := some r, obj := objWeakRef target.obj } := by
        rw [World.setTarget, World.setTarget, Heap.modify_modify]
        rfl
      rw [merged]
      have counted := counted.aim unaimed live noTarget alive
      have aimed : SameRoutes w₂ (w₂.setTarget t fun target =>
          { target with rule := some r, obj := objWeakRef target.obj }) :=
        .setTarget w₂ t _ fun target => ⟨kind_objWeakRef target.obj, state_objWeakRef target.obj, rfl⟩
      refine (writing.updateState r _).mono fun w₄ updated => ⟨?_, counted.writes updated⟩
      have updated := SameRoutes.of_sameObjects updated.sameObjects
      refine ((SameRoutes.of_sameObjects same).trans aimed).trans (.trans ?_ updated)
      exact .of_heaps rfl rfl rfl

/-- A route whose pointer was followed. -/
theorem route_ok {r : RouteId} {route : ObjRoute} (followed : w.route r = .ok route) :
    (w.routes.cell r).obj.kind = .route ∧ route = w.routes.cell r := by
  rw [World.route, follow] at followed
  split at followed
  · next live =>
    cases followed
    exact ⟨live, rfl⟩
  · cases followed

/-- An installed route is not reaped with its last reference. -/
theorem objRouteUnref_installed (c : Calls) (d : Unrefs) {r : RouteId}
    (live : (w.routes.cell r).obj.kind = .route)
    (installed : (w.routes.cell r).obj.state = .installed) (normal : w.mode = .normal) :
    objRouteUnref c d r w = (do
      let obj ← objUnref (w.routes.cell r).obj
      return w.setRoute r fun route => { route with obj }) := by
  have followed : w.route r = .ok (w.routes.cell r) := by
    rw [World.route, follow, if_pos live]
  rw [objRouteUnref, followed, ok_bind]
  cases counted : objUnref (w.routes.cell r).obj with
  | error fault => rfl
  | ok obj =>
    have state : obj.state = .installed := by
      rw [(objUnref_ok counted).1]
      exact installed
    rw [ok_bind, ok_bind, if_neg (by simp [World.setRoute, objIsReapable, normal, state])]

/-- The routes of a target that is reaped lose a reference, and nothing else happens. -/
theorem objRouteUnref_loop (k : Nat) (routes : List RouteId) (normal : w.mode = .normal)
    (installed : ∀ r, (w.routes.cell r).obj.kind = .route →
      (w.routes.cell r).obj.state = .installed) :
    Returns (fun w' => w'.targets = w.targets ∧ w'.rules = w.rules)
      (routes.foldlM (fun w r => (unrefs c k).objRouteUnref r w) w) := by
  have keeps : Returns (fun w' => (w'.targets = w.targets ∧ w'.rules = w.rules) ∧
      w'.mode = .normal ∧ ∀ r, (w'.routes.cell r).obj.kind = .route →
        (w'.routes.cell r).obj.state = .installed)
      (routes.foldlM (fun w r => (unrefs c k).objRouteUnref r w) w) := by
    refine ends_foldlM routes w ⟨⟨rfl, rfl⟩, normal, installed⟩ fun r _ w₁ kept => ?_
    obtain ⟨⟨targets, rules⟩, normal, installed⟩ := kept
    cases k with
    | zero => trivial
    | succ k =>
      refine returns_iff.mpr fun w₂ released => ?_
      have live : (w₁.routes.cell r).obj.kind = .route := by
        obtain ⟨route, followed, -⟩ := bind_returned released
        exact (route_ok followed).1
      replace released : objRouteUnref c (unrefs c k) r w₁ = .ok w₂ := released
      rw [objRouteUnref_installed c _ live (installed r live) normal] at released
      obtain ⟨obj, counted, released⟩ := bind_returned released
      cases released
      refine ⟨⟨targets, rules⟩, normal, fun q => ?_⟩
      rw [World.setRoute, Heap.cell_modify]
      split
      · next same =>
        intro _
        show obj.state = .installed
        rw [(objUnref_ok counted).1]
        exact installed r live
      · exact installed q
  exact keeps.mono fun _ kept => kept.1

/-- The neighbours of a target that is reaped lose a weak reference, and nothing else happens. -/
theorem objNeighWeakUnref_loop (neighs : List NeighId) (w : World) :
    Returns (fun w' => ∃ neighs, w' = { w with neighs })
      (neighs.foldlM (fun w n => objNeighWeakUnref n w) w) := by
  refine ends_foldlM neighs w ⟨w.neighs, rfl⟩ fun n _ w₁ kept => ?_
  obtain ⟨heap, rfl⟩ := kept
  exact returns_bind fun neigh _ => returns_bind fun obj _ => ⟨_, rfl⟩

theorem objRuleUnrefSome_writes (writing : Writing c) (r : Option RuleId) (w : World) :
    Returns (Writes w) (objRuleUnrefSome c r w) := by
  cases r with
  | none => exact Writes.refl w
  | some r => exact objRuleUnref_writes writing r w

/-- A target that is reaped had no routes, and no rule was for it. -/
theorem objTargetReap_counted (writing : Writing c) (k : Nat) (counted : Counted w)
    (normal : w.mode = .normal)
    (installed : ∀ r, (w.routes.cell r).obj.kind = .route →
      (w.routes.cell r).obj.state = .installed) :
    Returns (fun w' => SameRoutes w w' ∧ Counted w') (objTargetReap c (unrefs c k) t w) := by
  set w₁ := w.setTarget t fun target =>
    { target with obj := { target.obj with state := .zombie } } with zombie
  have counted₁ : Counted w₁ := counted.setTarget t _ fun _ => ⟨rfl, rfl, rfl, rfl⟩
  refine returns_bind fun target followed => returns_require fun _ => ?_
  obtain ⟨live, rfl⟩ := target_ok followed
  refine returns_bind fun w₂ dropped => ?_
  obtain ⟨neighs, rfl⟩ := (objNeighWeakUnref_loop _ w₁).of_ok dropped
  refine returns_bind fun w₃ released => ?_
  obtain ⟨targets, rules⟩ := (objRouteUnref_loop k _ (w := { w₁ with neighs })
    normal installed).of_ok released
  have counted₃ : Counted w₃ := counted₁.congr (fun r i => by rw [Aims, rules, Aims])
    (fun r beyond => by
      rw [rules] at beyond ⊢
      exact counted₁.fresh r beyond) targets
  refine returns_bind fun target _ => ?_
  refine Ends.bind (objRuleUnrefSome_writes writing target.rule w₃) fun w₄ writes => ?_
  have counted₄ := counted₃.writes writes
  refine returns_bind fun target followed => returns_bind fun obj freed => ?_
  obtain ⟨kind, rfl⟩ := target_ok followed
  obtain ⟨rfl, -, -, noWeak⟩ := objFree_ok freed
  refine returns_bind fun cnt _ => ?_
  -- all weak references were given back, so the loop over the routes had none to go through
  rw [cell_setTarget] at kind noWeak
  obtain ⟨-, count⟩ | ⟨unaimed, count⟩ := counted₄.weighed t kind
  · exact absurd (noWeak.symm.trans count) (Nat.succ_ne_zero _).symm
  have noRoutes : (w₄.targets.cell t).routes = [] := by
    rw [noWeak] at count
    exact List.length_eq_zero_iff.mp count.symm
  have same := writes.sameObjects
  have empty : (w₁.targets.cell t).routes = [] := by
    rw [← noRoutes, same.targetRoutes t, targets]
  rw [empty] at released
  cases released
  set w₅ := w₄.setTarget t fun target => { target with rule := none }
  have ruled : Counted w₅ := counted₄.unaimed unaimed _ fun target =>
    .inl ⟨rfl, rfl, rfl⟩
  have freed : Counted (w₅.setTarget t fun target =>
      { target with obj := { (w₅.targets.cell t).obj with kind := .unknown } }) :=
    ruled.unaimed unaimed _ fun _ => .inr rfl
  refine ⟨?_, freed.congr (fun _ _ => Iff.rfl) freed.fresh rfl⟩
  have dropped : SameRoutes { w₁ with neighs } w₅ :=
    (SameRoutes.of_sameObjects same).trans
      (.setTarget w₄ t (fun target => { target with rule := none }) fun _ => ⟨rfl, rfl, rfl⟩)
  have gone : SameRoutes w (w₅.setTarget t fun target =>
      { target with obj := { (w₅.targets.cell t).obj with kind := .unknown } }) := by
    refine dropped.gone ?_ ?_ (fun i other => ?_) fun _ => rfl
    · rfl
    · rfl
    · show w₁.targets.cell i = w.targets.cell i
      rw [zombie, World.setTarget, Heap.cell_modify_ne _ _ other]
  exact gone.trans (.of_heaps rfl rfl rfl)

/-- `obj_target_unref` keeps the counts, also where it reaps the target. -/
theorem objTargetUnref_counted (writing : Writing c) (k : Nat) (counted : Counted w)
    (normal : w.mode = .normal)
    (installed : ∀ r, (w.routes.cell r).obj.kind = .route →
      (w.routes.cell r).obj.state = .installed) :
    Returns (fun w' => SameRoutes w w' ∧ Counted w') (objTargetUnref c (unrefs c k) t w) := by
  refine returns_bind fun target followed => returns_bind fun obj released => ?_
  obtain ⟨-, rfl⟩ := target_ok followed
  obtain ⟨rfl, -⟩ := objUnref_ok released
  have write : w.setTarget t (fun target => { target with
      obj := { (w.targets.cell t).obj with refcnt := (w.targets.cell t).obj.refcnt - 1 } }) =
      w.setTarget t fun target =>
        { target with obj := { target.obj with refcnt := target.obj.refcnt - 1 } } :=
    setTarget_congr w t _ _ rfl
  rw [write]
  have same : SameRoutes w (w.setTarget t fun target =>
      { target with obj := { target.obj with refcnt := target.obj.refcnt - 1 } }) :=
    .setTarget w t _ fun _ => ⟨rfl, rfl, rfl⟩
  have counted : Counted (w.setTarget t fun target =>
      { target with obj := { target.obj with refcnt := target.obj.refcnt - 1 } }) :=
    counted.setTarget t _ fun _ => ⟨rfl, rfl, rfl, rfl⟩
  dsimp only
  split
  · apply (objTargetReap_counted writing k counted normal installed).mono
    exact fun w' reaped => ⟨same.trans reaped.1, reaped.2⟩
  · exact ⟨same, counted⟩

end Targets

end FlowerRoute
