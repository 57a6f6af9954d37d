import FlowerRoute.Verif.Effects
import FlowerRoute.Verif.Primitives

/-!
# Sound worlds

The invariants that the functions on rules rest on: no rule has fewer references than fields,
queued actions and functions under way that name it; a rule with a queued action is in state
QUEUED; the lost and found holds rules that nobody wants.
-/

namespace FlowerRoute

open Outcome

namespace World

variable (w : World)

/-- The actions in the queue that have not been executed. -/
def waiting : List TcAction :=
  (w.queue.items.filter fun qi => qi.state = .new).map (·.data)

/-- The reference count of a rule. -/
def refcnt (r : RuleId) : Nat := (w.rules.cell r).obj.refcnt

/-- The object of an owner has been handed out. -/
def Handed : Owner → Prop
  | .target t => t < w.targets.next
  | .route i => i < w.routes.next
  | .goto i => i < w.routes.next

end World

/-- An owner's field names the rule and holds a reference for it. -/
def backs (g : Ghost) (w : World) (o : Owner) (r : RuleId) : Bool :=
  decide (w.owned o = some r ∧ g.retired ≠ some o)

/-- How many of the first `n` owners of one kind hold a reference to a rule. -/
def backers (g : Ghost) (w : World) (r : RuleId) (kind : Nat → Owner) (n : Nat) : Nat :=
  (List.range n).countP fun i => backs g w (kind i) r

/-- How many fields and queued actions hold a reference to a rule. -/
def claims (g : Ghost) (w : World) (r : RuleId) : Nat :=
  w.waiting.countP (fun tca => tca.data = r) + backers g w r .target w.targets.next +
    (backers g w r .route w.routes.next + backers g w r .goto w.routes.next)

/-- No rule has fewer references than are held, and reaped rules have none. -/
structure Counts (g : Ghost) (w : World) : Prop where
  covered : ∀ r, claims g w r + g.loans.count r ≤ w.refcnt r
  alive : ∀ r, w.Live r → (w.rules.cell r).obj.state ≠ .zombie ∧ r < w.rules.next
  dead : ∀ r, ¬ w.Live r → w.refcnt r = 0
  targets : ∀ t, (w.targets.cell t).obj.kind = .target → t < w.targets.next
  routes : ∀ r, (w.routes.cell r).obj.kind = .route → r < w.routes.next

/-- The rules of the waiting actions are distinct and in state QUEUED. -/
structure Waits (w : World) : Prop where
  distinct : (w.waiting.map (·.data)).Nodup
  queued : ∀ tca ∈ w.waiting, (w.rules.cell tca.data).state = .queued

/-- The rules in the lost and found are distinct and wanted by nobody. -/
structure Lost (w : World) : Prop where
  distinct : w.lafTree.toList.Nodup
  unwanted : ∀ r ∈ w.lafTree.toList, r < w.rules.next ∧ (w.rules.cell r).wantTcr = none

/-- What `obj_route_install` knows of its route. -/
structure Installing.Matches (i : Installing) (g : Ghost) (w : World) : Prop where
  live : (w.routes.cell i.route).obj.kind = .route
  rule : (w.routes.cell i.route).rule = i.rule
  targetRule : (w.routes.cell i.route).targetRule = i.targetRule
  keepsRule : g.retired ≠ some (.route i.route)
  keepsTargetRule : g.retired ≠ some (.goto i.route)

/-- Every route in `obj_route_install` is as the function knows it. -/
def Faithful (g : Ghost) (w : World) : Prop := ∀ i ∈ g.installing, i.Matches g w

/-- What the functions on rules rest on. -/
structure Sound (g : Ghost) (w : World) : Prop where
  counts : Counts g w
  waits : Waits w
  lost : Lost w
  faithful : Faithful g w

section Waiting

variable {w : World}

/-- A queued action waits behind the others. -/
theorem waiting_enqueue (q : Queue TcAction) (tca : TcAction) :
    { w with queue := q.enqueue tca }.waiting = { w with queue := q }.waiting ++ [tca] := by
  simp [World.waiting, Queue.enqueue, List.filter_append]

/-- The action that is executed was the first that waited. -/
theorem waiting_queueProcess {tca : TcAction} {queue : Queue TcAction}
    (started : w.queue.queueProcess = .ok (tca, queue)) :
    w.waiting = tca :: { w with queue }.waiting := by
  obtain ⟨rest, items, rfl⟩ := Queue.queueProcess_ok started
  simp [World.waiting, items]

/-- The action that is completed did not wait. -/
theorem waiting_handleQueueCompleted {conn : Option ConnId} {tca : TcAction}
    {queue : Queue TcAction} (completed : w.queue.handleQueueCompleted conn = .ok (tca, queue)) :
    { w with queue }.waiting = w.waiting := by
  obtain ⟨-, rest, items, rfl⟩ := Queue.handleQueueCompleted_ok completed
  simp [World.waiting, items]

end Waiting

section Claims

variable {g g' : Ghost} {w w' : World}

/-- The claims depend on the queue and on the owners only. -/
theorem claims_congr (queue : w'.waiting = w.waiting) (targets : w'.targets.next = w.targets.next)
    (routes : w'.routes.next = w.routes.next) (owned : ∀ o, w'.owned o = w.owned o)
    (retired : g'.retired = g.retired) (r : RuleId) : claims g' w' r = claims g w r := by
  simp only [claims, backers, backs, queue, targets, routes, owned, retired]

/-- What the change of one owner's field does to the claims. -/
theorem claims_owner {o : Owner} {r : RuleId} (queue : w'.waiting = w.waiting)
    (targets : w'.targets.next = w.targets.next) (routes : w'.routes.next = w.routes.next)
    (others : ∀ p, p ≠ o → backs g' w' p r = backs g w p r)
    (inside : w.Handed o) :
    claims g' w' r + (backs g w o r).toNat = claims g w r + (backs g' w' o r).toNat := by
  have keep : ∀ (n : Nat) (kind : Nat → Owner), (∀ i, kind i ≠ o) →
      backers g' w' r kind n = backers g w r kind n := fun n kind apart =>
    List.countP_congr fun i _ => by rw [others _ (apart i)]
  have update : ∀ (n i : Nat) (kind : Nat → Owner), kind i = o → (∀ j, j ≠ i → kind j ≠ o) →
      i < n → backers g' w' r kind n + (backs g w o r).toNat =
        backers g w r kind n + (backs g' w' o r).toNat := by
    intro n i kind same apart bound
    rw [← same]
    exact Heap.countP_range_update n i (fun i => backs g w (kind i) r)
      (fun i => backs g' w' (kind i) r) bound fun j other => (others _ (apart j other)).symm
  simp only [claims, queue, targets, routes]
  cases o with
  | target t =>
    have own := update _ t .target rfl (fun j other same => other (Owner.target.inj same)) inside
    have route := keep w.routes.next .route fun i same => nomatch same
    have goto := keep w.routes.next .goto fun i same => nomatch same
    omega
  | route i =>
    have own := update _ i .route rfl (fun j other same => other (Owner.route.inj same)) inside
    have target := keep w.targets.next .target fun i same => nomatch same
    have goto := keep w.routes.next .goto fun i same => nomatch same
    omega
  | goto i =>
    have own := update _ i .goto rfl (fun j other same => other (Owner.goto.inj same)) inside
    have target := keep w.targets.next .target fun i same => nomatch same
    have route := keep w.routes.next .route fun i same => nomatch same
    omega

/-- A rule that an action waits for is claimed. -/
theorem claims_waiting {tca : TcAction} (member : tca ∈ w.waiting) : 0 < claims g w tca.data := by
  have counted : 0 < w.waiting.countP fun other => other.data = tca.data :=
    List.countP_pos_iff.mpr ⟨tca, member, by simp⟩
  simp only [claims]
  omega

end Claims

namespace Counts

variable {g g' : Ghost} {w w' : World}

/-- A rule that is claimed or lent has not been reaped. -/
theorem live (counts : Counts g w) {r : RuleId} (used : 0 < claims g w r + g.loans.count r) :
    w.Live r := by
  by_contra reaped
  have covered := counts.covered r
  rw [counts.dead r reaped] at covered
  omega

/-- A rule that an action waits for has not been reaped. -/
theorem live_waiting (counts : Counts g w) {tca : TcAction} (member : tca ∈ w.waiting) :
    w.Live tca.data :=
  counts.live (by have := claims_waiting (g := g) member; omega)

/-- What a change of one rule preserves. -/
theorem modify (counts : Counts g w) {r : RuleId} {f : ObjRule → ObjRule}
    (rules : w'.rules = w.rules.modify r f) (targets : w'.targets = w.targets)
    (routes : w'.routes = w.routes) (live : w.Live r)
    (kind : (f (w.rules.cell r)).obj.kind = .rule)
    (state : (w.rules.cell r).obj.state ≠ .zombie → (f (w.rules.cell r)).obj.state ≠ .zombie)
    (covered : ∀ p, claims g' w' p + g'.loans.count p ≤
      if p = r then (f (w.rules.cell r)).obj.refcnt else w.refcnt p) : Counts g' w' where
  covered p := by
    have bound := covered p
    simp only [World.refcnt, rules, Heap.cell_modify] at bound ⊢
    split at bound
    · next here =>
      subst here
      simpa using bound
    · next other => simpa [other] using bound
  alive p here := by
    rw [World.Live, rules, Heap.cell_modify] at here
    rw [rules, Heap.cell_modify, Heap.next_modify]
    split at here
    · next same =>
      subst same
      rw [if_pos rfl]
      exact ⟨state (counts.alive p live).1, (counts.alive p live).2⟩
    · next other =>
      rw [if_neg other]
      exact counts.alive p here
  dead p reaped := by
    rw [World.Live, rules, Heap.cell_modify] at reaped
    rw [World.refcnt, rules, Heap.cell_modify]
    split at reaped
    · next same =>
      subst same
      exact absurd kind reaped
    · next other =>
      rw [if_neg other]
      exact counts.dead p reaped
  targets t := by
    rw [targets]
    exact counts.targets t
  routes r := by
    rw [routes]
    exact counts.routes r

/-- What a change of one rule preserves that leaves references alone. -/
theorem rewrite (counts : Counts g w) {r : RuleId} {f : ObjRule → ObjRule}
    (rules : w'.rules = w.rules.modify r f) (targets : w'.targets = w.targets)
    (routes : w'.routes = w.routes) (live : w.Live r)
    (kind : (f (w.rules.cell r)).obj.kind = .rule)
    (state : (w.rules.cell r).obj.state ≠ .zombie → (f (w.rules.cell r)).obj.state ≠ .zombie)
    (refcnt : (f (w.rules.cell r)).obj.refcnt = w.refcnt r)
    (claimed : ∀ p, claims g' w' p + g'.loans.count p ≤ claims g w p + g.loans.count p) :
    Counts g' w' :=
  counts.modify rules targets routes live kind state fun p => by
    have covered := counts.covered p
    have bound := claimed p
    split
    · next here =>
      subst here
      omega
    · omega

/-- What a new rule preserves. -/
theorem alloc (counts : Counts g w) {rule : ObjRule} (rules : w'.rules = w.rules.alloc rule)
    (targets : w'.targets = w.targets) (routes : w'.routes = w.routes)
    (kind : rule.obj.kind = .rule) (state : rule.obj.state ≠ .zombie)
    (covered : ∀ p, claims g' w' p + g'.loans.count p ≤
      if p = w.rules.next then rule.obj.refcnt else w.refcnt p) : Counts g' w' where
  covered p := by
    have bound := covered p
    simp only [World.refcnt, rules, Heap.cell_alloc] at bound ⊢
    split at bound
    · next here => simpa [here] using bound
    · next other => simpa [other] using bound
  alive p here := by
    rw [World.Live, rules, Heap.cell_alloc] at here
    rw [rules, Heap.cell_alloc, Heap.next_alloc]
    split at here
    · next same =>
      rw [if_pos same]
      exact ⟨state, same ▸ Nat.lt_succ_self _⟩
    · next other =>
      rw [if_neg other]
      obtain ⟨alive, bound⟩ := counts.alive p here
      exact ⟨alive, Nat.lt_succ_of_lt bound⟩
  dead p reaped := by
    rw [World.Live, rules, Heap.cell_alloc] at reaped
    rw [World.refcnt, rules, Heap.cell_alloc]
    split at reaped
    · exact absurd kind reaped
    · next other =>
      rw [if_neg other]
      exact counts.dead p reaped
  targets t := by
    rw [targets]
    exact counts.targets t
  routes r := by
    rw [routes]
    exact counts.routes r

/-- What a change of one route's fields preserves. -/
theorem setRoute (counts : Counts g w) {r : RouteId} {f : ObjRoute → ObjRoute}
    (kind : ∀ route, (f route).obj.kind = route.obj.kind)
    (covered : ∀ p, claims g' (w.setRoute r f) p + g'.loans.count p ≤ w.refcnt p) :
    Counts g' (w.setRoute r f) where
  covered := covered
  alive := counts.alive
  dead := counts.dead
  targets := counts.targets
  routes i here := by
    have same : ((w.setRoute r f).routes.cell i).obj.kind = (w.routes.cell i).obj.kind :=
      Heap.cell_modify_field w.routes r i (fun route => route.obj.kind) kind
    exact counts.routes i (same ▸ here)

/-- What is not handed out yet is neither claimed nor lent. -/
theorem fresh (counts : Counts g w) {p : RuleId} (bound : w.rules.next ≤ p) :
    claims g w p + g.loans.count p = 0 := by
  by_contra used
  have live := counts.live (r := p) (by omega)
  exact absurd (counts.alive p live).2 (Nat.not_lt.mpr bound)

/-- What a change of the ghost and of the queue preserves. -/
theorem same (counts : Counts g w) (rules : w'.rules = w.rules) (targets : w'.targets = w.targets)
    (routes : w'.routes = w.routes)
    (covered : ∀ p, claims g' w' p + g'.loans.count p ≤ w.refcnt p) : Counts g' w' where
  covered p := by
    rw [World.refcnt, rules]
    exact covered p
  alive p := by
    rw [World.Live, rules]
    exact counts.alive p
  dead p := by
    rw [World.Live, World.refcnt, rules]
    exact counts.dead p
  targets t := by
    rw [targets]
    exact counts.targets t
  routes r := by
    rw [routes]
    exact counts.routes r

end Counts

section Preservation

variable {g g' : Ghost} {w w' : World}

/-- The claims depend on the ghost only through the retired owner. -/
theorem claims_ghost (retired : g'.retired = g.retired) (p : RuleId) :
    claims g' w p = claims g w p :=
  claims_congr rfl rfl rfl (fun _ => rfl) retired p

@[simp] theorem claims_lend (r p : RuleId) : claims (g.lend r) w p = claims g w p :=
  claims_ghost rfl p

@[simp] theorem claims_ask (task : Task) (p : RuleId) : claims (g.ask task) w p = claims g w p :=
  claims_ghost rfl p

@[simp] theorem claims_opens (routes : Multiset RouteId) (p : RuleId) :
    claims (g.opens routes) w p = claims g w p :=
  claims_ghost rfl p

@[simp] theorem claims_install (i : Installing) (p : RuleId) :
    claims (g.install i) w p = claims g w p :=
  claims_ghost rfl p

@[simp] theorem claims_run (routes : Nat) (p : RuleId) :
    claims (g.run routes) w p = claims g w p :=
  claims_ghost rfl p

@[simp] theorem claims_next (task : Option Task) (p : RuleId) :
    claims (g.next task) w p = claims g w p :=
  claims_ghost rfl p

@[simp] theorem claims_lendSome (r : Option RuleId) (p : RuleId) :
    claims (g.lendSome r) w p = claims g w p :=
  claims_ghost (g.retired_lendSome r) p

/-- A write to a rule leaves the claims as they are. -/
@[simp] theorem claims_setRule (r : RuleId) (f : ObjRule → ObjRule) (p : RuleId) :
    claims g (w.setRule r f) p = claims g w p := rfl

/-- A report leaves the claims as they are. -/
@[simp] theorem claims_hears (note : Note) (p : RuleId) :
    claims g (w.hears note) p = claims g w p := rfl

/-- A queued action claims its rule. -/
theorem claims_scheduled (tca : TcAction) (p : RuleId) :
    claims g (w.scheduled tca) p = claims g w p + if p = tca.data then 1 else 0 := by
  have waiting : (w.scheduled tca).waiting = w.waiting ++ [tca] := waiting_enqueue w.queue tca
  have others : ∀ kind n, backers g (w.scheduled tca) p kind n = backers g w p kind n :=
    fun _ _ => rfl
  simp only [claims, waiting, List.countP_append, List.countP_singleton, others]
  have targets : (w.scheduled tca).targets = w.targets := rfl
  have routes : (w.scheduled tca).routes = w.routes := rfl
  rw [targets, routes]
  by_cases same : p = tca.data
  · simp only [same, decide_true, if_true]
    omega
  · have other : ¬ tca.data = p := fun h => same h.symm
    simp only [same, other, decide_false, if_false]
    simp

/-- The executed action gives its claim to the function that executes it. -/
theorem claims_executed {tca : TcAction} {queue : Queue TcAction}
    (started : w.queue.queueProcess = .ok (tca, queue)) (p : RuleId) :
    claims g (w.executed tca queue) p + (if p = tca.data then 1 else 0) = claims g w p := by
  have waiting : (w.executed tca queue).waiting = { w with queue }.waiting := by
    simp only [World.executed, World.waiting]
    split <;> rfl
  have others : ∀ kind n, backers g (w.executed tca queue) p kind n = backers g w p kind n :=
    fun _ _ => rfl
  have targets : (w.executed tca queue).targets = w.targets := rfl
  have routes : (w.executed tca queue).routes = w.routes := rfl
  simp only [claims, waiting_queueProcess started, waiting, List.countP_cons, others, targets,
    routes]
  by_cases same : p = tca.data
  · simp only [same, decide_true, if_true]
    omega
  · have other : ¬ tca.data = p := fun h => same h.symm
    simp only [same, other, decide_false, if_false]
    simp

/-- The rule of a route and its claims. -/
theorem claims_setRoute {o : Owner} {r : RouteId} {f : ObjRoute → ObjRoute} {q : RuleId}
    (inside : r < w.routes.next) (kept : g.retired ≠ some o)
    (owner : (o = .route r ∧ ∀ route, (f route).rule = some q ∧
        (f route).targetRule = route.targetRule) ∨
      (o = .goto r ∧ ∀ route, (f route).targetRule = some q ∧ (f route).rule = route.rule))
    (p : RuleId) :
    claims g (w.setRoute r f) p + (if w.owned o = some p then 1 else 0) =
      claims g w p + if p = q then 1 else 0 := by
  have bit : ∀ c : Prop, [Decidable c] → (decide c).toNat = if c then 1 else 0 := by
    intro c _
    split <;> simp [*]
  have apart : ∀ other, other ≠ o →
      backs g (w.setRoute r f) other p = backs g w other p := by
    intro other differs
    simp only [backs]
    congr 2
    cases other with
    | target t => rfl
    | route i =>
      simp only [World.owned, World.setRoute, Heap.cell_modify]
      split
      · next here =>
        subst here
        rcases owner with ⟨rfl, -⟩ | ⟨rfl, keeps⟩
        · exact absurd rfl differs
        · rw [(keeps _).2]
      · rfl
    | goto i =>
      simp only [World.owned, World.setRoute, Heap.cell_modify]
      split
      · next here =>
        subst here
        rcases owner with ⟨rfl, keeps⟩ | ⟨rfl, -⟩
        · rw [(keeps _).2]
        · exact absurd rfl differs
      · rfl
  have update := @claims_owner g g w (w.setRoute r f) o p
    rfl rfl rfl apart (by rcases owner with ⟨rfl, -⟩ | ⟨rfl, -⟩ <;> exact inside)
  have new : w.owned o = w.owned o ∧ (w.setRoute r f).owned o = some q := by
    refine ⟨rfl, ?_⟩
    rcases owner with ⟨rfl, writes⟩ | ⟨rfl, writes⟩
    · simp [World.owned, World.setRoute, (writes _).1]
    · simp [World.owned, World.setRoute, (writes _).1]
  simp only [backs, new.2, kept, ne_eq, not_false_iff, and_true, bit, Option.some.injEq] at update
  rw [update]
  congr 1
  exact if_congr ⟨Eq.symm, Eq.symm⟩ rfl rfl

/-- Every effect keeps the references in balance. -/
theorem Effect.counts (sound : Sound g w) (effect : Effect g w g' w') : Counts g' w' := by
  have counts := sound.counts
  cases effect with
  | @ref _ _ r live =>
    refine counts.modify (rules_setRule ..) rfl rfl live ?_ (by simp) fun p => ?_
    · exact (kind_objRef _).trans live
    · have covered := counts.covered p
      have counted := refcnt_objRef (counts.alive r live).1
      simp only [claims_setRule, claims_lend, Ghost.lend_loans, Multiset.count_cons]
      split
      · next here =>
        subst here
        simp only [World.refcnt] at covered
        omega
      · omega
  | @unref _ _ r obj live counted =>
    obtain ⟨rfl, positive⟩ := objUnref_ok counted
    refine counts.modify (rules_setRule ..) rfl rfl live live id fun p => ?_
    have covered := counts.covered p
    simp only [claims_setRule, claims_lend, Ghost.lend_loans, Multiset.count_cons] at covered ⊢
    split
    · next here =>
      subst here
      simp only [World.refcnt, if_true] at covered
      omega
    · omega
  | unwant _ live =>
    exact counts.rewrite (rules_setRule ..) rfl rfl live live id rfl fun p => by simp
  | @reap _ _ w' r _ live _ reaped =>
    obtain ⟨rfl, -, unused, -⟩ := objRuleReap_ok reaped
    have claimed : ∀ p, claims g (w.reaped r) p = claims g w p := fun p => by
      refine claims_congr ?_ ?_ ?_ (fun o => ?_) rfl p
      · simp [World.waiting, World.reaped, World.setRule]
      · simp [World.reaped, World.setRule]
      · simp [World.reaped, World.setRule]
      · cases o with
        | target t =>
          exact target_dropTarget w _ ObjTarget.rule t fun _ _ => rfl
        | route i => simp [World.owned, World.reaped, World.setRule]
        | goto i => simp [World.owned, World.reaped, World.setRule]
    have cells : ∀ p, (w.reaped r).rules.cell p =
        if p = r then (w.rules.cell p).reaped else w.rules.cell p := fun p => by
      simp [World.reaped, World.setRule, Heap.cell_modify]
    have refcnts : ∀ p, (w.reaped r).refcnt p = w.refcnt p := fun p => by
      rw [World.refcnt, cells]
      split <;> rfl
    have lives : ∀ p, (w.reaped r).Live p ↔ w.Live p ∧ p ≠ r := fun p => by
      rw [World.Live, cells]
      split
      · next here => simp [ObjRule.reaped, here]
      · next other => simp [World.Live, other]
    have next : (w.reaped r).rules.next = w.rules.next := by
      simp [World.reaped, World.setRule]
    refine ⟨fun p => ?_, fun p here => ?_, fun p gone => ?_, fun t kind => ?_, fun i kind => ?_⟩
    · rw [claimed, refcnts]
      exact counts.covered p
    · obtain ⟨before, other⟩ := (lives p).mp here
      rw [cells, if_neg other, next]
      exact counts.alive p before
    · rw [refcnts]
      by_cases same : p = r
      · rw [same]
        exact unused
      · exact counts.dead p fun before => gone ((lives p).mpr ⟨before, same⟩)
    · have before := target_dropTarget w (w.rules.cell r).target (fun target => target.obj.kind) t
        fun _ _ => rfl
      have bound := counts.targets t (before ▸ kind)
      simpa [World.reaped, World.setRule] using bound
    · have bound := counts.routes i (by simpa [World.reaped, World.setRule] using kind)
      simpa [World.reaped, World.setRule] using bound
  | skip _ _ => exact counts.same rfl rfl rfl counts.covered
  | settle _ live _ _ _ =>
    exact counts.rewrite (rules_setRule ..) rfl rfl live live id rfl fun p => by simp
  | confirm _ live _ _ _ _ _ =>
    exact counts.rewrite (rules_setRule ..) rfl rfl live live id rfl fun p => by simp
  | @schedule _ _ tca _ live _ _ _ _ _ =>
    refine counts.modify (w.rules_scheduled tca) rfl rfl live ?_ (by simp) fun p => ?_
    · exact (kind_objRef _).trans live
    · have covered := counts.covered p
      have counted := refcnt_objRef (counts.alive tca.data live).1
      simp only [claims_ask, Ghost.ask_loans, claims_scheduled] at covered ⊢
      split
      · next here =>
        subst here
        simp only [World.refcnt] at covered
        omega
      · omega
  | @execute _ _ tca queue _ started live =>
    refine counts.rewrite (w.rules_executed tca queue) rfl rfl live live id rfl fun p => ?_
    have claimed := claims_executed (g := g) started p
    simp only [claims_next, claims_lend, claims_run, Ghost.next_loans, Ghost.lend_loans,
      Ghost.run_loans, Multiset.count_cons]
    omega
  | @complete _ _ conn tca queue _ completed =>
    refine counts.same rfl rfl rfl fun p => ?_
    have covered := counts.covered p
    rw [claims_run] at covered
    refine le_of_eq_of_le (congrArg (· + _) ?_) covered
    exact claims_congr (waiting_handleQueueCompleted completed) rfl rfl (fun _ => rfl) rfl p
  | leave _ _ => exact counts.same rfl rfl rfl counts.covered
  | ignore _ _ _ => exact counts.same rfl rfl rfl counts.covered
  | found _ _ live _ _ _ =>
    refine counts.rewrite (rules_setRule ..) rfl rfl live ?_ ?_ ?_ fun p => by simp
    · dsimp only
      split <;> exact live
    · dsimp only
      split <;> simp
    · dsimp only
      split <;> rfl
  | @vanish g _ r chainNo prio tcr _ _ live =>
    refine counts.modify (rules_setRule ..) rfl rfl live ?_ (by simp) fun p => ?_
    · exact (kind_objRef _).trans live
    · have covered := counts.covered p
      have counted := refcnt_objRef (counts.alive r live).1
      simp only [claims_ask, Ghost.ask_loans] at covered
      simp only [claims_setRule, claims_hears, claims_next, claims_lend, Ghost.next_loans,
        Ghost.lend_loans, Multiset.count_cons]
      split
      · next here =>
        subst here
        simp only [World.refcnt] at covered
        omega
      · omega
  | @discover g _ w₁ w' chainNo prio tcr _ _ inPos inLaf =>
    obtain ⟨_, pos, laf, -, -, -, -, -, rfl⟩ := objRuleNew_alloc inPos inLaf
    refine counts.alloc rfl rfl rfl rfl (by simp) fun p => ?_
    have covered := counts.covered p
    have fresh := counts.fresh (Nat.le_refl w.rules.next)
    have claimed := @claims_congr g (g.ask (.update w.rules.next)) w
      { (objRuleAlloc {
        chainNo, prio, haveTcr := some tcr, obj := { state := .installed }
        havePos := pos.isSome, haveLaf := laf.isSome }
          (w.hears ⟨chainNo, prio, some tcr⟩)).2 with
        posTree := (pos.map (w.balancing.insertColor w.rules.next)).getD w.posTree
        lafTree := (laf.map (w.balancing.insertColor w.rules.next)).getD w.lafTree }
      rfl rfl rfl (fun _ => rfl) rfl p
    simp only [claims_ask, Ghost.ask_loans] at covered fresh
    refine le_trans (Nat.add_le_add_right (le_of_eq claimed) _) ?_
    rw [Ghost.ask_loans]
    split
    · next here =>
      subst here
      exact Nat.le_of_eq fresh
    · exact covered
  | @adopt g _ r tcr _ _ live _ _ _ =>
    refine counts.modify (w.rules_adopted r tcr) rfl rfl live ?_ (by simp) fun p => ?_
    · exact (kind_objRef _).trans ((kind_objRef _).trans live)
    · have covered := counts.covered p
      have once := refcnt_objRef (counts.alive r live).1
      have twice := refcnt_objRef (c := objRef (w.rules.cell r).obj)
        (by rw [state_objRef]; exact (counts.alive r live).1)
      have claimed : claims ((g.lend r).ask (.update r)) (w.adopted r tcr) p = claims g w p :=
        claims_congr rfl rfl rfl (fun _ => rfl) rfl p
      simp only [claims_ask, Ghost.ask_loans] at covered
      simp only [claimed, Ghost.ask_loans, Ghost.lend_loans, Multiset.count_cons]
      split
      · next here =>
        subst here
        simp only [World.refcnt] at covered
        omega
      · omega
  | @place g _ placed w' chainNo prio tcr _ _ place inserted =>
    obtain ⟨⟨chainTree, rfl⟩, -⟩ := returns_iff.mp (schedBasicPlace_returns tcr w) _ place
    obtain ⟨-, linked, -, rfl⟩ := objRulePosInsert_alloc (w := { w with chainTree }) inserted
    refine counts.alloc rfl rfl rfl rfl (by simp) fun p => ?_
    have covered := counts.covered p
    have fresh := counts.fresh (Nat.le_refl w.rules.next)
    simp only [claims_ask, Ghost.ask_loans] at covered fresh
    have claimed := @claims_congr g ((g.lend w.rules.next).ask (.update w.rules.next)) w
      { (objRuleAlloc {
        chainNo, prio, wantTcr := some tcr, obj := { refcnt := 1 }, havePos := linked.isSome }
          { w with chainTree }).2 with
        posTree := (linked.map (w.balancing.insertColor w.rules.next)).getD w.posTree }
      rfl rfl rfl (fun _ => rfl) rfl p
    refine le_trans (Nat.add_le_add_right (le_of_eq claimed) _) ?_
    simp only [Ghost.ask_loans, Ghost.lend_loans, Multiset.count_cons]
    split
    · next here =>
      subst here
      omega
    · exact covered
  | decline _ _ _ _ => exact counts.same rfl rfl rfl counts.covered
  | begin _ _ => exact counts.same rfl rfl rfl counts.covered
  | demand _ _ _ => exact counts.same rfl rfl rfl counts.covered
  | @aim g _ r q old _ kind _ =>
    have kept := (sound.faithful ⟨r, none, old, false⟩ (by simp)).keepsTargetRule
    refine counts.setRoute (fun _ => rfl) fun p => ?_
    have covered := counts.covered p
    have moved := claims_setRoute (g := g) (w := w) (q := q)
      (f := fun route => { route with targetRule := some q })
      (counts.routes r kind) kept (.inr ⟨rfl, fun _ => ⟨rfl, rfl⟩⟩) p
    simp only [claims_lend, claims_install, Ghost.lend_loans, Ghost.install_loans,
      Multiset.count_cons] at covered ⊢
    omega
  | @reaim g _ r p q old _ kind _ =>
    obtain ⟨-, -, same, -, kept⟩ := sound.faithful ⟨r, some p, some old, false⟩ (by simp)
    refine counts.setRoute (fun _ => rfl) fun p => ?_
    have covered := counts.covered p
    have moved := claims_setRoute (g := g) (w := w) (q := q)
      (f := fun route => { route with targetRule := some q })
      (counts.routes r kind) kept (.inr ⟨rfl, fun _ => ⟨rfl, rfl⟩⟩) p
    simp only [World.owned, same, Option.some.injEq] at moved
    have turned : (if old = p then 1 else 0) = if p = old then 1 else 0 :=
      if_congr ⟨Eq.symm, Eq.symm⟩ rfl rfl
    simp only [claims_lend, claims_install, Ghost.lend_loans, Ghost.install_loans,
      Multiset.count_cons] at covered ⊢
    omega
  | @plant g _ r q old goto aimed _ kind =>
    obtain ⟨-, same, -, kept, -⟩ := sound.faithful ⟨r, old, goto, aimed⟩ (by simp)
    refine counts.setRoute (fun _ => rfl) fun p => ?_
    have covered := counts.covered p
    have moved := claims_setRoute (g := g) (w := w) (q := q)
      (f := fun route => { route with rule := some q })
      (counts.routes r kind) kept (.inl ⟨rfl, fun _ => ⟨rfl, rfl⟩⟩) p
    simp only [World.owned, same] at moved
    simp only [claims_lend, claims_lendSome, claims_install, Ghost.lend_loans,
      Ghost.install_loans, Multiset.count_cons] at covered ⊢
    cases old with
    | none =>
      simp only [Ghost.lendSome, Ghost.install_loans, reduceCtorEq, if_false] at moved ⊢
      omega
    | some old =>
      have turned : (if old = p then 1 else 0) = if p = old then 1 else 0 :=
        if_congr ⟨Eq.symm, Eq.symm⟩ rfl rfl
      simp only [Ghost.lendSome, Ghost.lend_loans, Ghost.install_loans, Multiset.count_cons,
        Option.some.injEq] at moved ⊢
      omega
  | finish _ _ => exact counts.same rfl rfl rfl counts.covered
  | shut _ _ => exact counts.same rfl rfl rfl counts.covered

/-- What leaves the queue and the states of the waiting rules alone keeps them waiting. -/
theorem Waits.keep (waits : Waits w) (waiting : w'.waiting = w.waiting)
    (states : ∀ r, (w.rules.cell r).state = .queued → r < w.rules.next →
      (w'.rules.cell r).state = .queued)
    (bound : ∀ tca ∈ w.waiting, tca.data < w.rules.next) : Waits w' where
  distinct := by
    rw [waiting]
    exact waits.distinct
  queued tca member := by
    rw [waiting] at member
    exact states _ (waits.queued tca member) (bound tca member)

/-- What a change of one rule outside the queue keeps. -/
theorem Waits.modify (waits : Waits w) {r : RuleId} {f : ObjRule → ObjRule}
    (rules : w'.rules = w.rules.modify r f) (waiting : w'.waiting = w.waiting)
    (bound : ∀ tca ∈ w.waiting, tca.data < w.rules.next)
    (state : (w.rules.cell r).state = .queued → (f (w.rules.cell r)).state = .queued) :
    Waits w' := by
  refine waits.keep waiting (fun p queued _ => ?_) bound
  rw [rules, Heap.cell_modify]
  split
  · next here =>
    subst here
    exact state queued
  · exact queued

/-- What a new rule keeps. -/
theorem Waits.alloc (waits : Waits w) {rule : ObjRule} (rules : w'.rules = w.rules.alloc rule)
    (waiting : w'.waiting = w.waiting) (bound : ∀ tca ∈ w.waiting, tca.data < w.rules.next) :
    Waits w' := by
  refine waits.keep waiting (fun p queued old => ?_) bound
  rw [rules, Heap.cell_alloc_ne _ _ (Nat.ne_of_lt old)]
  exact queued

/-- Every effect keeps the rules of the waiting actions in state QUEUED. -/
theorem Effect.waits (sound : Sound g w) (effect : Effect g w g' w') : Waits w' := by
  have waits := sound.waits
  have bound : ∀ tca ∈ w.waiting, tca.data < w.rules.next := fun tca member =>
    (sound.counts.alive _ (sound.counts.live_waiting member)).2
  cases effect with
  | ref _ => exact waits.modify (rules_setRule ..) rfl bound id
  | unref _ _ => exact waits.modify (rules_setRule ..) rfl bound id
  | unwant _ _ _ _ _ _ _ => exact waits.modify (rules_setRule ..) rfl bound id
  | @reap _ _ w' r _ _ _ reaped =>
    obtain ⟨rfl, -⟩ := objRuleReap_ok reaped
    refine waits.modify (r := r) (f := ObjRule.reaped) ?_ ?_ bound id
    · simp [World.reaped, World.setRule]
    · simp [World.waiting, World.reaped, World.setRule]
  | skip _ _ => exact waits
  | settle _ _ _ idle _ =>
    exact waits.modify (rules_setRule ..) rfl bound fun queued => absurd queued idle
  | confirm _ _ _ idle _ _ _ =>
    exact waits.modify (rules_setRule ..) rfl bound fun queued => absurd queued idle
  | @schedule _ _ tca _ _ _ idle _ _ _ =>
    have waiting : (w.scheduled tca).waiting = w.waiting ++ [tca] := waiting_enqueue w.queue tca
    refine ⟨?_, fun other member => ?_⟩
    · rw [waiting, List.map_append, List.map_singleton]
      refine List.Nodup.append waits.distinct (List.nodup_singleton _) ?_
      rw [List.disjoint_singleton]
      intro member
      obtain ⟨other, inside, same⟩ := List.mem_map.mp member
      exact idle (same ▸ waits.queued other inside)
    · rw [waiting] at member
      simp only [World.scheduled, World.setRule, Heap.cell_modify]
      split
      · rfl
      · next apart =>
        rcases List.mem_append.mp member with old | new
        · exact waits.queued other old
        · exact absurd (congrArg TcAction.data (List.mem_singleton.mp new)) apart
  | @execute _ _ tca queue _ started _ =>
    have waiting : (w.executed tca queue).waiting = { w with queue }.waiting := by
      simp only [World.executed, World.waiting]
      split <;> rfl
    have order := waiting_queueProcess started
    have distinct := waits.distinct
    rw [order, List.map_cons, List.nodup_cons] at distinct
    refine ⟨waiting ▸ distinct.2, fun other member => ?_⟩
    rw [waiting] at member
    have apart : other.data ≠ tca.data := fun same =>
      distinct.1 (same ▸ List.mem_map_of_mem member)
    simp only [World.executed, World.setRule, Heap.cell_modify, apart, if_false]
    exact waits.queued other (order ▸ List.mem_cons_of_mem _ member)
  | complete _ completed =>
    exact waits.keep (waiting_handleQueueCompleted completed) (fun _ q _ => q) bound
  | leave _ _ => exact waits
  | ignore _ _ _ => exact waits.keep rfl (fun _ q _ => q) bound
  | found _ _ _ _ _ _ => exact waits.modify (rules_setRule ..) rfl bound id
  | vanish _ _ _ => exact waits.modify (rules_setRule ..) rfl bound id
  | discover _ _ inPos inLaf =>
    obtain ⟨_, pos, laf, -, -, -, -, -, rfl⟩ := objRuleNew_alloc inPos inLaf
    exact waits.alloc rfl rfl bound
  | adopt _ _ _ _ _ _ => exact waits.modify (w.rules_adopted ..) rfl bound id
  | @place _ _ placed w' chainNo prio tcr _ _ place inserted =>
    obtain ⟨⟨chainTree, rfl⟩, -⟩ := returns_iff.mp (schedBasicPlace_returns tcr w) _ place
    obtain ⟨-, linked, -, rfl⟩ := objRulePosInsert_alloc (w := { w with chainTree }) inserted
    exact waits.alloc rfl rfl bound
  | decline _ _ _ _ => exact waits
  | begin _ _ => exact waits
  | demand _ _ _ => exact waits
  | aim _ _ _ => exact waits.keep rfl (fun _ q _ => q) bound
  | reaim _ _ _ => exact waits.keep rfl (fun _ q _ => q) bound
  | plant _ _ => exact waits.keep rfl (fun _ q _ => q) bound
  | finish _ _ => exact waits
  | shut _ _ => exact waits

/-- What leaves the lost and found and its rules' wants alone keeps it. -/
theorem Lost.keep (lost : Lost w) (tree : w'.lafTree = w.lafTree)
    (next : w.rules.next ≤ w'.rules.next)
    (wants : ∀ r, r < w.rules.next → (w.rules.cell r).wantTcr = none →
      (w'.rules.cell r).wantTcr = none) : Lost w' where
  distinct := tree ▸ lost.distinct
  unwanted r member := by
    rw [tree] at member
    obtain ⟨old, unwanted⟩ := lost.unwanted r member
    exact ⟨Nat.lt_of_lt_of_le old next, wants r old unwanted⟩

/-- What a change of one rule keeps that gives it no want. -/
theorem Lost.modify (lost : Lost w) {r : RuleId} {f : ObjRule → ObjRule}
    (rules : w'.rules = w.rules.modify r f) (tree : w'.lafTree = w.lafTree)
    (want : (w.rules.cell r).wantTcr = none → (f (w.rules.cell r)).wantTcr = none) :
    Lost w' := by
  refine lost.keep tree (by rw [rules]; exact Nat.le_refl _) fun p _ unwanted => ?_
  rw [rules, Heap.cell_modify]
  split
  · next here =>
    subst here
    exact want unwanted
  · exact unwanted

/-- What a new rule keeps. -/
theorem Lost.alloc (lost : Lost w) {rule : ObjRule} (rules : w'.rules = w.rules.alloc rule)
    (tree : w'.lafTree = w.lafTree) : Lost w' := by
  refine lost.keep tree (by rw [rules]; exact Nat.le_succ _) fun p old unwanted => ?_
  rw [rules, Heap.cell_alloc_ne _ _ (Nat.ne_of_lt old)]
  exact unwanted

/-- Every effect keeps the rules in the lost and found unwanted. -/
theorem Effect.lost (sound : Sound g w) (effect : Effect g w g' w') : Lost w' := by
  have lost := sound.lost
  cases effect with
  | ref _ => exact lost.modify (rules_setRule ..) rfl id
  | unref _ _ => exact lost.modify (rules_setRule ..) rfl id
  | unwant _ _ _ _ _ _ _ => exact lost.modify (rules_setRule ..) rfl fun _ => rfl
  | @reap _ _ w' r _ _ _ reaped =>
    obtain ⟨rfl, -⟩ := objRuleReap_ok reaped
    have tree : (w.reaped r).lafTree.toList = w.lafTree.toList ∨
        (w.reaped r).lafTree.toList = w.lafTree.toList.erase r := by
      simp only [World.reaped]
      split
      · exact .inr (w.balancing.erase_toList r w.lafTree)
      · exact .inl rfl
    have below : ∀ p ∈ (w.reaped r).lafTree.toList, p ∈ w.lafTree.toList := fun p member => by
      rcases tree with same | less
      · exact same ▸ member
      · exact List.mem_of_mem_erase (less ▸ member)
    have rules : (w.reaped r).rules = w.rules.modify r ObjRule.reaped := by
      simp [World.reaped, World.setRule]
    refine ⟨?_, fun p member => ?_⟩
    · rcases tree with same | less
      · exact same ▸ lost.distinct
      · exact less ▸ lost.distinct.erase r
    · obtain ⟨old, unwanted⟩ := lost.unwanted p (below p member)
      rw [rules, Heap.cell_modify]
      refine ⟨old, ?_⟩
      split
      · rfl
      · exact unwanted
  | skip _ _ => exact lost
  | settle _ _ _ _ _ => exact lost.modify (rules_setRule ..) rfl id
  | confirm _ _ _ _ _ _ _ => exact lost.modify (rules_setRule ..) rfl id
  | schedule _ _ _ _ _ _ _ => exact lost.modify (w.rules_scheduled _) rfl id
  | execute _ _ _ => exact lost.modify (w.rules_executed ..) rfl id
  | complete _ _ => exact lost.keep rfl (Nat.le_refl _) fun _ _ u => u
  | leave _ _ => exact lost
  | ignore _ _ _ => exact lost.keep rfl (Nat.le_refl _) fun _ _ u => u
  | found _ _ _ _ _ _ => exact lost.modify (rules_setRule ..) rfl id
  | vanish _ _ _ => exact lost.modify (rules_setRule ..) rfl id
  | @discover _ _ w₁ w' chainNo prio tcr _ _ inPos inLaf =>
    obtain ⟨_, pos, laf, -, -, -, -, inserted, rfl⟩ := objRuleNew_alloc inPos inLaf
    have outside : w.rules.next ∉ w.lafTree.toList := fun member =>
      absurd (lost.unwanted _ member).1 (Nat.lt_irrefl _)
    cases laf with
    | none => exact lost.alloc rfl rfl
    | some laf =>
      have same := w.balancing.insertColor_toList w.rules.next laf
      refine ⟨?_, fun p member => ?_⟩
      · simp only [Option.map_some, Option.getD_some, World.hears, same]
        exact SearchTree.nodup_link inserted outside lost.distinct
      · simp only [Option.map_some, Option.getD_some, World.hears, same] at member
        rcases (SearchTree.mem_link inserted).mp member with rfl | before
        · exact ⟨Nat.lt_succ_self _, by simp [objRuleAlloc]⟩
        · obtain ⟨bound, unwanted⟩ := lost.unwanted p before
          refine ⟨Nat.lt_succ_of_lt bound, ?_⟩
          simpa [objRuleAlloc, World.hears, Heap.cell_alloc_ne _ _ (Nat.ne_of_lt bound)]
            using unwanted
  | @adopt _ _ r tcr _ _ _ _ _ _ =>
    have tree : (w.adopted r tcr).lafTree.toList = w.lafTree.toList.erase r :=
      w.balancing.erase_toList r w.lafTree
    refine ⟨?_, fun p member => ?_⟩
    · rw [tree]
      exact lost.distinct.erase r
    · rw [tree] at member
      obtain ⟨apart, before⟩ := lost.distinct.mem_erase_iff.mp member
      obtain ⟨old, unwanted⟩ := lost.unwanted p before
      refine ⟨old, ?_⟩
      simpa [World.rules_adopted, Heap.cell_modify, apart] using unwanted
  | @place _ _ placed w' chainNo prio tcr _ _ place inserted =>
    obtain ⟨⟨chainTree, rfl⟩, -⟩ := returns_iff.mp (schedBasicPlace_returns tcr w) _ place
    obtain ⟨-, linked, -, rfl⟩ := objRulePosInsert_alloc (w := { w with chainTree }) inserted
    exact lost.alloc rfl rfl
  | decline _ _ _ _ => exact lost
  | begin _ _ => exact lost
  | demand _ _ _ => exact lost
  | aim _ _ _ => exact lost.keep rfl (Nat.le_refl _) fun _ _ u => u
  | reaim _ _ _ => exact lost.keep rfl (Nat.le_refl _) fun _ _ u => u
  | plant _ _ => exact lost.keep rfl (Nat.le_refl _) fun _ _ u => u
  | finish _ _ => exact lost
  | shut _ _ => exact lost

/-- A rule that is claimed or lent keeps its want. -/
theorem Effect.want_used (sound : Sound g w) (effect : Effect g w g' w') {p : RuleId}
    {tcr : TcRule} (used : 0 < claims g w p + g.loans.count p)
    (wanted : (w.rules.cell p).wantTcr = some tcr) : (w'.rules.cell p).wantTcr = some tcr := by
  have counts := sound.counts
  have covered := counts.covered p
  have write : ∀ {rules : Heap ObjRule} {r : RuleId} {f : ObjRule → ObjRule},
      rules = w.rules.modify r f →
      (p = r → (f (w.rules.cell r)).wantTcr = (w.rules.cell r).wantTcr) →
      (rules.cell p).wantTcr = some tcr := fun same keep => by
    rw [same, Heap.cell_modify]
    split
    · next here =>
      subst here
      rw [keep rfl]
      exact wanted
    · exact wanted
  have added : ∀ {rules : Heap ObjRule} {rule : ObjRule}, rules = w.rules.alloc rule →
      (rules.cell p).wantTcr = some tcr := fun same => by
    have old := (counts.alive p (counts.live used)).2
    rw [same, Heap.cell_alloc_ne _ _ (Nat.ne_of_lt old)]
    exact wanted
  cases effect with
  | ref _ => exact write (rules_setRule ..) fun _ => rfl
  | unref _ _ => exact write (rules_setRule ..) fun _ => rfl
  | @unwant _ _ r _ _ unused _ _ _ _ =>
    refine write (rules_setRule ..) fun here => ?_
    subst here
    rw [World.refcnt, unused] at covered
    omega
  | @reap _ _ w' r _ _ _ reaped =>
    obtain ⟨rfl, -, unused, -⟩ := objRuleReap_ok reaped
    refine write (r := r) (f := ObjRule.reaped) (by simp [World.reaped, World.setRule])
      fun here => ?_
    subst here
    rw [World.refcnt, unused] at covered
    omega
  | skip _ _ => exact wanted
  | settle _ _ _ _ _ => exact write (rules_setRule ..) fun _ => rfl
  | confirm _ _ _ _ _ _ _ => exact write (rules_setRule ..) fun _ => rfl
  | schedule _ _ _ _ _ _ _ => exact write (w.rules_scheduled _) fun _ => rfl
  | execute _ _ _ => exact write (w.rules_executed ..) fun _ => rfl
  | complete _ _ => exact wanted
  | leave _ _ => exact wanted
  | ignore _ _ _ => exact wanted
  | found _ _ _ _ _ _ => exact write (rules_setRule ..) fun _ => rfl
  | vanish _ _ _ => exact write (rules_setRule ..) fun _ => rfl
  | discover _ _ inPos inLaf =>
    obtain ⟨_, pos, laf, -, -, -, -, -, rfl⟩ := objRuleNew_alloc inPos inLaf
    exact added rfl
  | @adopt _ _ r tcr _ _ _ _ unwanted _ =>
    refine write (w.rules_adopted ..) fun here => ?_
    subst here
    rw [unwanted] at wanted
    cases wanted
  | @place _ _ placed w' chainNo prio tcr _ _ place inserted =>
    obtain ⟨⟨chainTree, rfl⟩, -⟩ := returns_iff.mp (schedBasicPlace_returns tcr w) _ place
    obtain ⟨-, linked, -, rfl⟩ := objRulePosInsert_alloc (w := { w with chainTree }) inserted
    exact added rfl
  | decline _ _ _ _ => exact wanted
  | begin _ _ => exact wanted
  | demand _ _ _ => exact wanted
  | aim _ _ _ => exact wanted
  | reaim _ _ _ => exact wanted
  | plant _ _ => exact wanted
  | finish _ _ => exact wanted
  | shut _ _ => exact wanted

/-- The rule of a route in `obj_route_install` is claimed. -/
theorem Installing.Matches.claimed {i : Installing} (known : i.Matches g w) (counts : Counts g w)
    {p : RuleId} (same : i.rule = some p) : 0 < claims g w p := by
  have backed : backs g w (.route i.route) p = true := by
    have named : (w.routes.cell i.route).rule = some p := known.rule.trans same
    simp [backs, World.owned, named, known.keepsRule]
  have counted : 0 < backers g w p .route w.routes.next :=
    List.countP_pos_iff.mpr ⟨i.route, List.mem_range.mpr (counts.routes _ known.live), backed⟩
  rw [claims]
  omega

/-- The target rule of a route in `obj_route_install` is claimed. -/
theorem Installing.Matches.claimedTarget {i : Installing} (known : i.Matches g w)
    (counts : Counts g w) {p : RuleId} (same : i.targetRule = some p) : 0 < claims g w p := by
  have backed : backs g w (.goto i.route) p = true := by
    have named : (w.routes.cell i.route).targetRule = some p := known.targetRule.trans same
    simp [backs, World.owned, named, known.keepsTargetRule]
  have counted : 0 < backers g w p .goto w.routes.next :=
    List.countP_pos_iff.mpr ⟨i.route, List.mem_range.mpr (counts.routes _ known.live), backed⟩
  rw [claims]
  omega

end Preservation

end FlowerRoute
