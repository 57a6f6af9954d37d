import FlowerRoute.Verif.Procedures

/-!
# Installing routes is a sequence of effects

`obj_route_install` and the loop of `obj_target_notify_routes`, and with them the knot that
`obj_rule_update_state` and `queue_process_loop` tie.
-/

namespace FlowerRoute

open Outcome

section Routes

variable {inv : Ghost → World → Prop} {held : Held} {g : Ghost} {w : World} {c : Calls}

/-- What `obj_target_notify_routes` asks of its target. -/
theorem objTargetIsOk_ok {t : TargetId} {ok : Bool} (asked : objTargetIsOk t w = .ok ok) :
    (w.targets.cell t).obj.kind = .target ∧ (ok = true ↔ w.Ready t) := by
  obtain ⟨target, followed, asked⟩ := bind_returned asked
  obtain ⟨live, rfl⟩ := target_ok followed
  refine ⟨live, ?_⟩
  cases rule : (w.targets.cell t).rule with
  | none =>
    rw [rule] at asked
    cases asked
    simp [World.Ready, rule]
  | some q =>
    rw [rule] at asked
    obtain ⟨_, followed, asked⟩ := bind_returned asked
    obtain ⟨-, rfl⟩ := rule_ok followed
    cases asked
    simp [World.Ready, rule]

/-- The question asserts nothing on a rule's state. -/
theorem clean_objTargetIsOk (t : TargetId) : Clean (objTargetIsOk t w) := by
  refine faults_bind (clean_target t) fun target => ?_
  split
  · trivial
  · exact faults_bind (clean_rule _) fun _ => trivial

/-- The rule that `obj_route_prepare_rule` makes leads to the rule it is given. -/
theorem objRoutePrepareRule_ok {r : RouteId} {targetRule : Option RuleId} {q : RuleId}
    {tcr : TcRule} (prepared : objRoutePrepareRule r targetRule w = .ok (q, tcr)) :
    targetRule = some q ∧ w.Live q ∧ (w.rules.cell q).state = .ok ∧ gotoRule w r q = .ok tcr := by
  obtain ⟨route, followed, prepared⟩ := bind_returned prepared
  have route : route = w.routes.cell r := by
    rw [World.route, follow] at followed
    split at followed <;> cases followed
    rfl
  subst route
  cases targetRule with
  | none => cases prepared
  | some p =>
    obtain ⟨rule, followed, prepared⟩ := bind_returned prepared
    obtain ⟨live, rfl⟩ := rule_ok followed
    obtain ⟨_, ok, prepared⟩ := bind_returned prepared
    obtain ⟨tcr, made, prepared⟩ := bind_returned prepared
    cases prepared
    exact ⟨rfl, live, of_require ok, made⟩

/-- Preparing asserts nothing on the state or the want of a rule that is to change. -/
theorem clean_objRoutePrepareRule (r : RouteId) (targetRule : Option RuleId) :
    Clean (objRoutePrepareRule r targetRule w) := by
  refine faults_bind (clean_route r) fun route => ?_
  split
  · exact Fault.noConfusion
  · exact faults_bind (clean_rule _) fun _ => faults_bind clean_require fun _ =>
      faults_bind (clean_tcRuleSetTypeAndTraits _ _) fun _ => trivial

/-- The rule of a route leads somewhere. -/
theorem gotoRule_type {r : RouteId} {q : RuleId} {tcr : TcRule}
    (made : gotoRule w r q = .ok tcr) : tcr.type = .routeGoto := by
  simp only [gotoRule, tcRuleSetTypeAndTraits, tcRuleSetType] at made
  obtain ⟨rule, typed, made⟩ := bind_returned made
  have type : rule.type = .routeGoto := by
    split at typed
    · next alien => cases alien
    · split at typed <;> cases typed
      rfl
  have kept : (if rule.traits = 0 then { rule with traits := typeTraits .routeGoto }
      else rule).type = .routeGoto := by
    split <;> exact type
  generalize (if rule.traits = 0 then { rule with traits := typeTraits .routeGoto }
      else rule) = whole at made kept
  split at made <;> cases made
  exact kept

/-- The rule of a route depends on its destination and on the position of the target's rule. -/
theorem gotoRule_congr {w' : World} {r : RouteId} {q : RuleId} (config : w'.config = w.config)
    (dst : (w'.routes.cell r).dst = (w.routes.cell r).dst)
    (chain : (w'.rules.cell q).chainNo = (w.rules.cell q).chainNo) :
    gotoRule w' r q = gotoRule w r q := by
  rw [gotoRule, gotoRule, config, dst, chain]

/-- A reference beside another one is given back without further ado. -/
theorem objRuleUnref_counted {r : RuleId} (live : w.Live r)
    (alive : (w.rules.cell r).obj.state ≠ .zombie) (many : 1 < w.refcnt r) :
    objRuleUnref c r w = .ok (w.setRule r fun rule =>
      { rule with obj := { rule.obj with refcnt := rule.obj.refcnt - 1 } }) ∧
    objUnref (w.rules.cell r).obj = .ok { (w.rules.cell r).obj with
      refcnt := (w.rules.cell r).obj.refcnt - 1 } := by
  rw [World.refcnt] at many
  have counted : objUnref (w.rules.cell r).obj = .ok { (w.rules.cell r).obj with
      refcnt := (w.rules.cell r).obj.refcnt - 1 } := by
    rw [objUnref, if_neg fun h => alive h.1, if_pos (by omega)]
  refine ⟨?_, counted⟩
  have kept : (w.rules.cell r).obj.refcnt - 1 ≠ 0 := by omega
  rw [objRuleUnref, rule_live live, ok_bind, counted, ok_bind]
  rw [World.Live] at live
  simp only [World.setRule, kept, false_and, if_false, pure_bind, Heap.cell_modify_same,
    live, true_or, require, if_true, ok_bind]
  rw [if_neg]
  · have writes := Heap.modify_congr w.rules r
      (fun rule => { rule with obj := { (w.rules.cell r).obj with
        refcnt := (w.rules.cell r).obj.refcnt - 1 } })
      (fun rule => { rule with obj := { rule.obj with refcnt := rule.obj.refcnt - 1 } }) rfl
    simpa [pure, Except.pure, live] using writes
  · cases mode : w.mode <;> simp [objIsReapable, kept]

/-- `obj_rule_unref` on one reference of several, then a function. -/
theorem does_objRuleUnref {g' : Ghost} {r : RuleId} {next : World → Except Fault World}
    (keeps : Keeps inv) (within : held.Within g)
    (claimed : Sound (g.lend r) w → 0 < claims (g.lend r) w r + g.loans.count r)
    (tail : Does inv held g (w.setRule r fun rule =>
        { rule with obj := { rule.obj with refcnt := rule.obj.refcnt - 1 } }) g'
      (next (w.setRule r fun rule =>
        { rule with obj := { rule.obj with refcnt := rule.obj.refcnt - 1 } }))) :
    Does inv held (g.lend r) w g' (objRuleUnref c r w >>= next) := by
  intro before
  have sound := keeps.sound before
  have covered := sound.counts.covered r
  have other := claimed sound
  rw [Ghost.lend_loans, Multiset.count_cons_self] at covered
  have live : w.Live r := sound.counts.live (by
    rw [Ghost.lend_loans, Multiset.count_cons_self]
    omega)
  obtain ⟨released, counted⟩ := objRuleUnref_counted (c := c) live (sound.counts.alive r live).1
    (by omega)
  have effect := Effect.unref (g := g) live counted
  have same : (w.setRule r fun rule => { rule with obj := { (w.rules.cell r).obj with
      refcnt := (w.rules.cell r).obj.refcnt - 1 } }) = w.setRule r fun rule =>
        { rule with obj := { rule.obj with refcnt := rule.obj.refcnt - 1 } } := by
    rw [World.setRule, World.setRule, Heap.modify_congr]
    rfl
  rw [same] at effect
  rw [released, ok_bind]
  exact effect.does keeps (within.lend r) within tail before

/-- Two references in either order. -/
theorem Ghost.lend_comm (g : Ghost) (p q : RuleId) : (g.lend p).lend q = (g.lend q).lend p := by
  simp [Ghost.lend, Multiset.cons_swap p q]

/-- The second half of `obj_route_install` for a route that has a rule: the rule is let go, the
new one is requested, and the references that the function took are given back. -/
theorem objRouteReplace_does (keeps : Keeps inv) (calls : c.Effectful inv) {r : RouteId}
    {rule old targetRule : RuleId} {aimed : Bool} {tcr : TcRule} (ready : held.Ready g)
    (aims : ∀ t, (w.routes.cell r).target = some t →
      (w.targets.cell t).rule = some targetRule)
    (made : gotoRule w r targetRule = .ok tcr) :
    Does inv held (((g.lend rule).install ⟨r, some rule, some targetRule, aimed⟩).lend old) w g
      (do
        let route ← w.route r
        match route.rule with
        | none => .error .nullPointer
        | some current =>
          let w ← objRuleUnref c current w
          let (new, w) ← objRuleRequest c tcr w
          let _ ← w.route r
          let w := w.setRoute r fun route => { route with rule := new }
          let w ← objRuleUnref c old w
          objRuleUnref c rule w) := by
  intro before
  have sound := keeps.sound before
  have known := sound.faithful _ (Multiset.mem_cons_self _ _)
  have claimed := known.claimedTarget sound.counts rfl
  have bound : targetRule < w.rules.next :=
    (sound.counts.alive _ (sound.counts.live (by omega))).2
  have lent := ready.install ⟨r, some rule, some targetRule, aimed⟩
  refine (?_ : Does inv held _ w g _) before
  refine does_route fun routed => ?_
  rw [known.rule]
  dsimp only
  rw [show ((g.lend rule).install ⟨r, some rule, some targetRule, aimed⟩).lend old =
    ((g.install ⟨r, some rule, some targetRule, aimed⟩).lend old).lend rule from
      Ghost.lend_comm (g.install ⟨r, some rule, some targetRule, aimed⟩) rule old]
  refine does_objRuleUnref keeps (lent.lend old).toWithin (fun sound => ?_) ?_
  · have known := sound.faithful _ (Multiset.mem_cons_self _ _)
    have claimed := known.claimed sound.counts rfl
    omega
  · have made : gotoRule (w.setRule rule fun rule => { rule with obj := { rule.obj with
        refcnt := rule.obj.refcnt - 1 } }) r targetRule = .ok tcr := by
      rw [← made]
      refine gotoRule_congr rfl rfl ?_
      rw [rules_setRule, Heap.cell_modify]
      split <;> rfl
    refine Effect.does (@Effect.demand (g.lend old) _ r (some rule) targetRule aimed tcr
      ready.free aims made) keeps (lent.lend old).toWithin ((lent.lend old).toWithin.ask _) ?_
    intro counted
    refine Ends.bind (objRuleRequest_does keeps calls tcr (lent.lend old) counted)
      fun ⟨new, w₁⟩ requested => ?_
    cases new with
    | none => exact absurd (gotoRule_type made) requested.2
    | some new =>
      obtain ⟨effects, wanted⟩ := requested
      have kept := effects.kept keeps counted
      refine ends_route fun live => ?_
      have plants : Effect (((g.install ⟨r, some rule, some targetRule, aimed⟩).lend old).lend new)
          w₁ (((g.install ⟨r, some new, some targetRule, aimed⟩).lend rule).lend old)
          (w₁.setRoute r fun route => { route with rule := some new }) := by
        rw [Ghost.lend_comm _ rule old]
        exact Effect.plant (g := g.lend old) ready.free live
      have able : Held.Ready ⟨held.loans, ⟨r, some new, some targetRule, aimed⟩ ::ₘ held.installing⟩
          (g.install ⟨r, some new, some targetRule, aimed⟩) :=
        ⟨⟨ready.loans, Multiset.cons_le_cons _ ready.installing⟩, ready.free⟩
      have less : ∀ g, Held.Within ⟨held.loans, ⟨r, some new, some targetRule, aimed⟩ ::ₘ
          held.installing⟩ g → held.Within g := fun g within =>
        ⟨within.loans, le_trans (Multiset.le_cons_self _ _) within.installing⟩
      have planted := effects.trans (.one plants ((lent.lend old).lend new).toWithin
        (less _ ((able.lend rule).lend old).toWithin))
      have kept := keeps.kept kept plants
      refine Ends.bind (objRuleUnref_does keeps calls old (able.lend rule) kept)
        fun w₂ released => ?_
      have kept₂ := released.kept keeps kept
      refine (objRuleUnref_does keeps calls rule able kept₂).mono fun w₃ freed => ?_
      have later := released.trans freed
      have all := planted.trans (later.weaken less)
      have known := (keeps.sound (later.kept keeps kept)).faithful _ (Multiset.mem_cons_self _ _)
      refine all.trans (.one (.finish ready.free fun t q target own => ?_)
        (less _ able.toWithin) ready.toWithin)
      have same : q = targetRule := by
        rw [all.sameObjects.routeTarget] at target
        rw [all.sameObjects.targetRule, targets_setRule, aims t target] at own
        exact (Option.some.inj own).symm
      subst same
      refine .placed new tcr known.rule known.targetRule ?_ ?_
      · exact later.want keeps kept (.inr ⟨_, Multiset.mem_cons_self _ _, rfl⟩) wanted
      · rw [← made]
        exact gotoRule_congr all.sameObjects.config (all.sameObjects.routeDst r)
          (all.samePlaces.place q bound).1

/-- `obj_route_install` for a route that has a rule. -/
theorem objRouteReinstall_does (keeps : Keeps inv) (calls : c.Effectful inv) {r : RouteId}
    {rule targetRule : RuleId} {tcr : TcRule} (ready : held.Ready g)
    (installed : (w.routes.cell r).rule = some rule)
    (aims : ∀ t, (w.routes.cell r).target = some t → (w.targets.cell t).rule = some targetRule)
    (made : gotoRule w r targetRule = .ok tcr) :
    Does inv held (g.opens {r}) w g (objRouteReinstall c r rule targetRule tcr w) := by
  rw [objRouteReinstall]
  refine does_route fun routed => ?_
  cases goto : (w.routes.cell r).targetRule with
  | none => exact fun _ => Fault.noConfusion
  | some old =>
    have begins := Effect.begin (g := g) (w := w) ready.free routed
    rw [installed, goto] at begins
    refine begins.does keeps (ready.opens _).toWithin (ready.install _).toWithin ?_
    have lent := ready.lend rule
    have within := (lent.install ⟨r, some rule, some old, false⟩).toWithin
    refine does_objRuleRef keeps (ready.install _).toWithin fun _ => ?_
    refine does_objRuleRef keeps within fun _ => ?_
    dsimp only
    by_cases moved : old = targetRule
    · subst moved
      rw [if_neg (not_not_intro rfl)]
      refine objRouteReplace_does keeps calls ready aims ?_
      rw [← made]
      refine gotoRule_congr rfl rfl ?_
      simp [World.setRule, Heap.cell_modify, apply_ite ObjRule.chainNo]
    · rw [if_pos moved]
      refine does_objRuleUnref keeps within (fun sound => ?_) ?_
      · have known := sound.faithful _ (Multiset.mem_cons_self _ _)
        have claimed := known.claimedTarget sound.counts rfl
        omega
      · refine does_objRuleRef keeps within fun _ => does_route fun here => ?_
        have effect : Effect (((g.lend rule).install ⟨r, some rule, some old, false⟩).lend
            targetRule) _ (((g.lend rule).install ⟨r, some rule, some targetRule, true⟩).lend old) _ :=
          .reaim ready.free here aims
        refine effect.does keeps (within.lend _) ((lent.install _).lend _).toWithin ?_
        refine objRouteReplace_does keeps calls ready (fun t target => aims t ?_) ?_
        · simpa [World.setRoute] using target
        · rw [← made]
          refine gotoRule_congr rfl ?_ ?_
          · simp [World.setRoute]
          · simp [World.setRule, World.setRoute, Heap.cell_modify, apply_ite ObjRule.chainNo]

/-- `obj_route_install` for a route that has no rule. -/
theorem objRoutePlant_does (keeps : Keeps inv) (calls : c.Effectful inv) {r : RouteId}
    {targetRule : RuleId} {tcr : TcRule} (ready : held.Ready g)
    (routed : (w.routes.cell r).obj.kind = .route) (installed : (w.routes.cell r).rule = none)
    (aims : ∀ t, (w.routes.cell r).target = some t → (w.targets.cell t).rule = some targetRule)
    (made : gotoRule w r targetRule = .ok tcr) :
    Does inv held (g.opens {r}) w g (do
      let w ← objRuleRef targetRule w
      let w := w.setRoute r fun route => { route with targetRule := some targetRule }
      let (new, w) ← objRuleRequest c tcr w
      let _ ← w.route r
      return w.setRoute r fun route => { route with rule := new }) := by
  have begins := Effect.begin (g := g) (w := w) ready.free routed
  rw [installed] at begins
  refine begins.does keeps (ready.opens _).toWithin (ready.install _).toWithin ?_
  have able := ready.install ⟨r, none, some targetRule, true⟩
  refine does_objRuleRef keeps (ready.install _).toWithin fun live => ?_
  refine Effect.does (Effect.aim (w := w.setRule targetRule fun rule =>
      { rule with obj := objRef rule.obj }) ready.free routed aims) keeps
    ((ready.install _).lend _).toWithin able.toWithin ?_
  intro before
  have bound : targetRule < w.rules.next := by
    have sound := keeps.sound before
    have claimed := (sound.faithful _ (Multiset.mem_cons_self _ _)).claimedTarget sound.counts rfl
    exact (sound.counts.alive _ (sound.counts.live (by omega))).2
  refine (?_ : Does inv held _ _ g _) before
  have made : gotoRule ((w.setRule targetRule fun rule => { rule with obj := objRef rule.obj }).setRoute
      r fun route => { route with targetRule := some targetRule }) r targetRule = .ok tcr := by
    rw [← made]
    exact gotoRule_congr rfl (by simp [World.setRoute]) (by simp [World.setRule, World.setRoute])
  refine Effect.does (@Effect.demand g _ r none targetRule true tcr ready.free
    (fun t target => aims t (by simpa [World.setRoute] using target)) made) keeps able.toWithin
    (able.toWithin.ask _) ?_
  intro before
  refine Ends.bind (objRuleRequest_does keeps calls tcr able before) fun result requested => ?_
  obtain ⟨new, w₁⟩ := result
  cases new with
  | none => exact absurd (gotoRule_type made) requested.2
  | some new =>
    obtain ⟨effects, wanted⟩ := requested
    have kept := effects.kept keeps before
    refine ends_route fun live => ?_
    have plants : Effect ((g.install ⟨r, none, some targetRule, true⟩).lend new) w₁
        (g.install ⟨r, some new, some targetRule, true⟩)
        (w₁.setRoute r fun route => { route with rule := some new }) := .plant ready.free live
    have planted := effects.trans (.one plants (able.lend _).toWithin (ready.install _).toWithin)
    have known := (keeps.sound (keeps.kept kept plants)).faithful _ (Multiset.mem_cons_self _ _)
    refine planted.trans (.one (.finish ready.free fun t q target own => ?_)
      (ready.install _).toWithin ready.toWithin)
    have same : q = targetRule := by
      rw [planted.sameObjects.routeTarget] at target
      rw [planted.sameObjects.targetRule] at own
      have aimed := aims t (by simpa [World.setRoute] using target)
      exact Option.some.inj (own.symm.trans aimed)
    subst same
    refine .placed new tcr known.rule known.targetRule wanted ?_
    rw [← made]
    exact gotoRule_congr planted.sameObjects.config (planted.sameObjects.routeDst r)
      (planted.samePlaces.place q bound).1

/-- `obj_route_install` installs a route that is open. -/
theorem objRouteInstall_does (keeps : Keeps inv) (calls : c.Effectful inv) {r : RouteId}
    (ready : held.Ready g) : Does inv held (g.opens {r}) w g (objRouteInstall c r w) := by
  rw [objRouteInstall]
  refine does_route fun routed => ?_
  cases aimed : (w.routes.cell r).target with
  | none => exact fun _ => Fault.noConfusion
  | some t =>
    refine does_target fun _ => ?_
    refine does_bind (clean_objRoutePrepareRule ..) fun ⟨targetRule, tcr⟩ prepared => ?_
    obtain ⟨own, -, -, made⟩ := objRoutePrepareRule_ok prepared
    have aims : ∀ s, (w.routes.cell r).target = some s →
        (w.targets.cell s).rule = some targetRule := fun s target => by
      rw [aimed] at target
      cases target
      exact own
    cases installed : (w.routes.cell r).rule with
    | none => exact objRoutePlant_does keeps calls ready routed installed aims made
    | some rule =>
      refine does_rule fun _ => ?_
      split
      · exact objRouteReinstall_does keeps calls ready installed aims made
      · next stays =>
        refine (Effect.begin ready.free routed).does keeps (ready.opens _).toWithin
          (ready.install _).toWithin ?_
        refine (Effect.finish ready.free fun s q target own => ?_).done
          (ready.install _).toWithin ready.toWithin
        rw [aims s target] at own
        cases own
        refine .kept rule installed ?_
        cases want : (w.rules.cell rule).wantTcr with
        | none => exact .inl rfl
        | some other =>
          rw [want] at stays
          exact .inr ⟨tcr, by simpa using stays, made⟩

/-- The loop of `obj_target_notify_routes` installs the routes that are open. -/
theorem notifyRoutes_does (keeps : Keeps inv) (calls : c.Effectful inv) {t : TargetId}
    (ready : held.Ready g) (routes : List RouteId) :
    Does inv held (g.opens routes) w g (routes.foldlM (objTargetNotifyRoute c t) w) := by
  induction routes generalizing w with
  | nil =>
    have same : g.opens (([] : List RouteId) : Multiset RouteId) = g := by simp [Ghost.opens]
    rw [same]
    exact does_nothing
  | cons r routes ih =>
    have same : g.opens ((r :: routes : List RouteId) : Multiset RouteId) =
        (g.opens routes).opens {r} := by
      simp [Ghost.opens, ← Multiset.cons_coe, Multiset.singleton_add]
    rw [same, List.foldlM_cons]
    refine Does.bind ?_ keeps fun w' _ => ih
    refine does_route fun _ => does_require Fault.noConfusion fun _ => ?_
    exact objRouteInstall_does keeps calls (ready.opens _)

/-- `obj_target_notify_routes` installs the routes of a target whose rule is in state OK. -/
theorem objTargetNotifyRoutes_does (keeps : Keeps inv) (calls : c.Effectful inv) {t : TargetId}
    (ready : held.Ready g) :
    Does inv held (g.opens (w.targets.cell t).routes) w g (objTargetNotifyRoutes c t w) := by
  rw [objTargetNotifyRoutes]
  refine does_target fun _ => does_bind (clean_objTargetIsOk t) fun ok asked => ?_
  obtain ⟨-, answer⟩ := objTargetIsOk_ok asked
  split
  · exact notifyRoutes_does keeps calls ready _
  · next no =>
    exact (Effect.shut ready.free fun isReady => no (answer.mpr isReady)).done
      (ready.opens _).toWithin ready.toWithin

/-- `obj_rule_update_state` follows the state of a rule. -/
theorem objRuleUpdateState_does (keeps : Keeps inv) (calls : c.Effectful inv) {r : RuleId}
    (ready : held.Ready g) :
    Does inv held (g.ask (.update r)) w g (objRuleUpdateState c r w) := by
  have asked := ready.toWithin.ask (.update r)
  rw [objRuleUpdateState]
  split
  · next pinned =>
    exact (Effect.skip ready.free (.pinned pinned)).done asked ready.toWithin
  · next unpinned =>
    refine does_rule fun live => ?_
    split
    · next queued =>
      exact (Effect.skip ready.free (.queued queued)).done asked ready.toWithin
    · next idle =>
      have settle : ∀ {state}, Settles w.pinChanges (w.rules.cell r) state →
          Effect (g.ask (.update r)) w g (w.setRule r fun rule => { rule with state }) :=
        .settle ready.free live unpinned idle
      cases want : (w.rules.cell r).wantTcr with
      | none =>
        cases have_ : (w.rules.cell r).haveTcr with
        | none =>
          dsimp only
          split
          · next state => exact (settle (.zombie want have_ state)).done asked ready.toWithin
          · next state =>
            exact (Effect.skip ready.free (.new want have_ (not_not.mp state))).done asked
              ready.toWithin
        | some tcr =>
          exact objRuleQueueUninstall_does keeps calls ready live unpinned idle
            (by simp [have_]) (by simp [want, have_])
      | some tcr =>
        cases have_ : (w.rules.cell r).haveTcr with
        | none =>
          exact objRuleQueueInstall_does keeps calls ready live unpinned idle (by simp [want]) have_
        | some other =>
          dsimp only
          split
          · next same =>
            cases target : (w.rules.cell r).target with
            | none =>
              exact (settle (.ok (by simp [have_]) (by rw [want, have_, same]) target)).done asked
                ready.toWithin
            | some t =>
              exact (Effect.confirm ready.free live unpinned idle (by simp [have_])
                (by rw [want, have_, same]) target).does keeps asked (ready.opens _).toWithin
                (objTargetNotifyRoutes_does (w := w.setRule r fun rule =>
                  { rule with state := .ok }) keeps calls ready)
          · next differ =>
            exact objRuleQueueUninstall_does keeps calls ready live unpinned idle
              (by simp [have_]) (by simpa [want, have_] using differ)

/-- At every bound on the depth of their calls the two functions are sequences of effects. -/
theorem calls_effectful (keeps : Keeps inv) (depth : Nat) : (calls depth).Effectful inv := by
  induction depth with
  | zero =>
    exact ⟨fun _ _ _ _ => Fault.noConfusion, fun _ _ _ => Fault.noConfusion⟩
  | succ depth ih =>
    exact ⟨fun _ _ ready => objRuleUpdateState_does keeps ih ready,
      fun _ ready => queueProcessLoop_does keeps ih ready⟩

end Routes

end FlowerRoute
