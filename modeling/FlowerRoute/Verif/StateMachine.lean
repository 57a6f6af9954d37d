import FlowerRoute.Verif.RuleRuns

/-!
# The state machine of rules

The invariant of runs in which only the rule objects are used, and what it says of the states of
rules between two events.
-/

namespace FlowerRoute

open Outcome

/-- No rule belongs to a target, and no route is open or being installed. -/
structure Alone (g : Ghost) (w : World) : Prop where
  opened : g.opened = 0
  installing : g.installing = 0
  target : ∀ r, (w.rules.cell r).target = none

/-- What holds throughout a run of the rule objects. -/
structure Orderly (g : Ghost) (w : World) : Prop where
  sound : Sound g w
  states : States g w
  alone : Alone g w

section Preservation

variable {g g' : Ghost} {w w' : World}

/-- What a change of one rule keeps that gives it no target. -/
theorem Alone.modify (alone : Alone g w) {r : RuleId} {f : ObjRule → ObjRule}
    (rules : w'.rules = w.rules.modify r f)
    (target : (w.rules.cell r).target = none → (f (w.rules.cell r)).target = none)
    (opened : g'.opened = g.opened) (installing : g'.installing = g.installing) :
    Alone g' w' where
  opened := opened.trans alone.opened
  installing := installing.trans alone.installing
  target p := by
    rw [rules, Heap.cell_modify]
    split
    · next here =>
      subst here
      exact target (alone.target p)
    · exact alone.target p

/-- What a new rule keeps. -/
theorem Alone.alloc (alone : Alone g w) {rule : ObjRule} (rules : w'.rules = w.rules.alloc rule)
    (target : rule.target = none) (opened : g'.opened = g.opened)
    (installing : g'.installing = g.installing) : Alone g' w' where
  opened := opened.trans alone.opened
  installing := installing.trans alone.installing
  target p := by
    rw [rules, Heap.cell_alloc]
    split
    · exact target
    · exact alone.target p

/-- No effect gives a rule a target or opens a route. -/
theorem Effect.alone (alone : Alone g w) (effect : Effect g w g' w') : Alone g' w' := by
  have opened := alone.opened
  have installing := alone.installing
  cases effect with
  | ref _ => exact alone.modify (rules_setRule ..) id rfl rfl
  | unref _ _ => exact alone.modify (rules_setRule ..) id rfl rfl
  | unwant _ _ _ _ _ _ _ => exact alone.modify (rules_setRule ..) id rfl rfl
  | @reap _ _ _ r _ _ _ reaped =>
    obtain ⟨rfl, -⟩ := objRuleReap_ok reaped
    refine alone.modify (r := r) (f := ObjRule.reaped) ?_ (fun _ => rfl) rfl rfl
    simp [World.reaped, World.setRule]
  | skip _ _ => exact ⟨opened, installing, alone.target⟩
  | settle _ _ _ _ _ => exact alone.modify (rules_setRule ..) id rfl rfl
  | @confirm _ _ r t _ _ _ _ _ _ target =>
    rw [alone.target r] at target
    cases target
  | schedule _ _ _ _ _ _ _ => exact alone.modify (w.rules_scheduled _) id rfl rfl
  | execute _ _ _ => exact alone.modify (w.rules_executed ..) id rfl rfl
  | complete _ _ => exact ⟨opened, installing, alone.target⟩
  | leave _ _ => exact ⟨opened, installing, alone.target⟩
  | ignore _ _ _ => exact ⟨opened, installing, alone.target⟩
  | found _ _ _ _ _ _ => exact alone.modify (rules_setRule ..) id rfl rfl
  | vanish _ _ _ => exact alone.modify (rules_setRule ..) id rfl rfl
  | discover _ _ inPos inLaf =>
    obtain ⟨_, pos, laf, -, -, -, -, -, rfl⟩ := objRuleNew_alloc inPos inLaf
    exact alone.alloc rfl rfl rfl rfl
  | adopt _ _ _ _ _ _ => exact alone.modify (w.rules_adopted ..) id rfl rfl
  | @place _ _ placed w' chainNo prio tcr _ _ place inserted =>
    obtain ⟨⟨chainTree, rfl⟩, -⟩ := returns_iff.mp (schedBasicPlace_returns tcr w) _ place
    obtain ⟨-, linked, -, rfl⟩ := objRulePosInsert_alloc (w := { w with chainTree }) inserted
    exact alone.alloc rfl rfl rfl rfl
  | decline _ _ _ _ => exact ⟨opened, installing, alone.target⟩
  | begin _ _ => simp at opened
  | aim _ _ _ => simp at installing
  | reaim _ _ _ => simp at installing
  | demand _ _ _ => simp at installing
  | plant _ _ => simp at installing
  | finish _ _ => simp at installing
  | shut _ _ =>
    have none := congrArg Multiset.card opened
    rw [Ghost.opens_opened, Multiset.card_add, Multiset.card_zero] at none
    exact ⟨Multiset.card_eq_zero.mp (by omega), installing, alone.target⟩

/-- No route is in `obj_route_install`. -/
theorem Alone.faithful (alone : Alone g w) : Faithful g w := fun i member => by
  rw [alone.installing] at member
  exact absurd member (Multiset.notMem_zero i)

/-- The invariant of runs of the rule objects is kept by every effect. -/
theorem keeps_orderly : Keeps Orderly where
  sound orderly := orderly.sound
  kept orderly effect := by
    have alone := effect.alone orderly.alone
    exact {
      sound := ⟨effect.counts orderly.sound, effect.waits orderly.sound,
        effect.lost orderly.sound, alone.faithful⟩
      states := effect.states orderly.states
      alone }

/-- Another queue with the same waiting actions, another kernel or another task keep it. -/
theorem Orderly.keep (orderly : Orderly g w) (rules : w'.rules = w.rules)
    (targets : w'.targets = w.targets) (routes : w'.routes = w.routes)
    (waiting : w'.waiting = w.waiting) (tree : w'.lafTree = w.lafTree)
    (pinned : w'.pinChanges = 0 → ∀ r, (w.rules.cell r).state ≠ .ok) (free : g.Free)
    (task : Option Task) : Orderly (g.next task) w' where
  sound := by
    obtain ⟨⟨counts, waits, lost, -⟩, -, alone⟩ := orderly
    refine ⟨?_, ?_, ?_, ?_⟩
    · refine counts.same rules targets routes fun p => ?_
      rw [claims_next, claims_congr (g := g) waiting (by rw [targets]) (by rw [routes])
        (fun o => ?_) rfl p]
      · exact counts.covered p
      · cases o <;> simp only [World.owned, targets, routes]
    · refine waits.keep waiting (fun r queued _ => by rw [rules]; exact queued) fun tca member => ?_
      exact (counts.alive _ (counts.live_waiting member)).2
    · exact lost.keep tree (by rw [rules]) fun r _ unwanted => by rw [rules]; exact unwanted
    · exact Alone.faithful ⟨alone.opened, alone.installing, by rw [rules]; exact alone.target⟩
  states := by
    rw [Ghost.Free] at free
    refine ⟨fun r live state => ?_, fun r queued => ?_, fun zero r => ?_⟩
    · rw [World.Live, rules] at live
      rw [rules] at state ⊢
      exact .inl ((orderly.states.ok r live state).resolve_right (by simp [free]))
    · rw [rules] at queued
      rw [waiting]
      exact orderly.states.queued r queued
    · rw [rules]
      exact pinned zero r
  alone := ⟨orderly.alone.opened, orderly.alone.installing, by rw [rules]; exact orderly.alone.target⟩

/-- `obj_rule_static_want` keeps it up to `obj_rule_update_state`. -/
theorem Orderly.staticWant (orderly : Orderly g w) {chainNo : UInt32} {prio : UInt16}
    {tcr : TcRule} (free : g.Free)
    (inserted : objRulePosInsert w.rules.next (objRuleAlloc {
      chainNo, prio, type := .static, wantTcr := some tcr } w).2 = .ok w') :
    Orderly (g.ask (.update w.rules.next)) w' := by
  obtain ⟨counts, waits, lost, -⟩ := orderly.sound
  rw [Ghost.Free] at free
  obtain ⟨-, linked, -, rfl⟩ := objRulePosInsert_alloc inserted
  have alone := @Alone.alloc g (g.ask (.update w.rules.next)) w
    { (objRuleAlloc { ({ chainNo, prio, type := .static, wantTcr := some tcr } : ObjRule) with
        havePos := linked.isSome } w).2 with
      posTree := (linked.map (w.balancing.insertColor w.rules.next)).getD w.posTree }
    orderly.alone _ rfl rfl rfl rfl
  have bound : ∀ tca ∈ w.waiting, tca.data < w.rules.next := fun tca member =>
    (counts.alive _ (counts.live_waiting member)).2
  refine ⟨⟨?_, waits.alloc rfl rfl bound, lost.alloc rfl rfl, alone.faithful⟩, ?_, alone⟩
  · refine counts.alloc rfl rfl rfl rfl (by simp) fun p => ?_
    have covered := counts.covered p
    have fresh := counts.fresh (Nat.le_refl w.rules.next)
    change claims (g.ask (.update w.rules.next)) w p + _ ≤ _
    rw [claims_ask]
    split
    · next here =>
      subst here
      exact Nat.le_of_eq fresh
    · exact covered
  · exact orderly.states.alloc rfl rfl rfl rfl fun _ same => by simp [free] at same

/-- `obj_rule_uninstall` keeps it up to `obj_rule_update_state`. -/
theorem Orderly.uninstall (orderly : Orderly g w) {r : RuleId} (free : g.Free) (live : w.Live r) :
    Orderly (g.ask (.update r)) (w.setRule r fun rule => { rule with wantTcr := none }) := by
  obtain ⟨counts, waits, lost, -⟩ := orderly.sound
  rw [Ghost.Free] at free
  have alone : Alone (g.ask (.update r)) (w.setRule r fun rule => { rule with wantTcr := none }) :=
    orderly.alone.modify (rules_setRule ..) id rfl rfl
  have bound : ∀ tca ∈ w.waiting, tca.data < w.rules.next := fun tca member =>
    (counts.alive _ (counts.live_waiting member)).2
  refine ⟨⟨?_, ?_, ?_, alone.faithful⟩, ?_, alone⟩
  · exact counts.rewrite (rules_setRule ..) rfl rfl live live id rfl fun p => by simp
  · exact waits.modify (rules_setRule ..) rfl bound id
  · exact lost.modify (rules_setRule ..) rfl fun _ => rfl
  · exact orderly.states.rewrite (rules_setRule ..) rfl rfl (fun _ _ same => by simp [free] at same)
      rfl fun _ _ => .inr rfl

/-- So does every step of `obj_rule_remove_pin`. -/
theorem unpins_orderly (s : Owners) : Unpins Orderly s.ghost where
  toKeeps := keeps_orderly
  visit _ _ orderly := orderly.keep rfl rfl rfl rfl rfl orderly.states.pinned rfl _
  raise {w} pin nonzero orderly :=
    @Orderly.keep _ w { w with pinChanges := pin } orderly rfl rfl rfl rfl rfl
      (fun zero => absurd zero nonzero) rfl none

/-- The first move of every event keeps it. -/
theorem carries_orderly : Carries (fun _ _ => True) Orderly where
  toKeeps := keeps_orderly
  staticWant orderly _ _ inserted := orderly.staticWant rfl inserted
  request orderly _ := orderly.keep rfl rfl rfl rfl rfl orderly.states.pinned rfl _
  uninstall orderly _ live := orderly.uninstall rfl live
  removePin {s} bound orderly _ zero :=
    objRuleRemovePin_keeps (unpins_orderly s) bound s.ready bound zero orderly
  message orderly _ := orderly.keep rfl rfl rfl rfl rfl orderly.states.pinned rfl _
  completed {s} _ queue orderly _ completed :=
    @Orderly.keep _ s.world { s.world with queue } orderly rfl rfl rfl
      (waiting_handleQueueCompleted completed) rfl orderly.states.pinned rfl none
  notified {s} _ notes orderly _ _ :=
    @Orderly.keep _ s.world { s.world with kernel := { s.world.kernel with notes } } orderly
      rfl rfl rfl rfl rfl orderly.states.pinned rfl _
  foreign {s} note orderly _ :=
    @Orderly.keep _ s.world { s.world with kernel := s.world.kernel.change note } orderly
      rfl rfl rfl rfl rfl orderly.states.pinned rfl none
  echoing {s} echoes orderly _ :=
    @Orderly.keep _ s.world { s.world with kernel := { s.world.kernel with echoes } } orderly
      rfl rfl rfl rfl rfl orderly.states.pinned rfl none

/-- The blank world is in order. -/
theorem World.Blank.orderly (blank : w.Blank) : Orderly {} w := by
  obtain ⟨conn, queue⟩ := blank.queue
  have waiting : w.waiting = [] := by rw [World.waiting, queue]; rfl
  have cell : ∀ r, w.rules.cell r = default := fun r => by rw [blank.rules]
  have alone : Alone {} w := ⟨rfl, rfl, fun r => by rw [cell]; rfl⟩
  refine ⟨⟨⟨fun r => ?_, fun r live => ?_, fun r _ => ?_, fun t live => ?_, fun r live => ?_⟩,
    ⟨?_, ?_⟩, ⟨?_, ?_⟩, alone.faithful⟩, ⟨fun r live => ?_, fun r queued => ?_, fun _ r => ?_⟩, alone⟩
  · simp [claims, backers, waiting, blank.targets, blank.routes, World.refcnt, cell]
  · rw [World.Live, cell] at live
    cases live
  · rw [World.refcnt, cell]
    rfl
  · rw [blank.targets] at live
    cases live
  · rw [blank.routes] at live
    cases live
  · rw [waiting]
    exact List.nodup_nil
  · rw [waiting]
    exact fun _ member => absurd member List.not_mem_nil
  · rw [blank.lafTree]
    exact List.nodup_nil
  · rw [blank.lafTree]
    exact fun _ member => absurd member List.not_mem_nil
  · rw [World.Live, cell] at live
    cases live
  · rw [cell] at queued
    cases queued
  · rw [cell]
    exact ObjRuleState.noConfusion

end Preservation

/-- What holds of every rule between two events. -/
structure World.InOrder (w : World) : Prop where
  /-- A rule in state OK has what it wants. -/
  ok : ∀ r, w.Live r → (w.rules.cell r).state = .ok →
    ∃ tcr, (w.rules.cell r).wantTcr = some tcr ∧ (w.rules.cell r).haveTcr = some tcr
  /-- A rule is in state QUEUED exactly while one action waits for it. -/
  queued : ∀ r, (w.rules.cell r).state = .queued ↔
    w.waiting.countP (fun tca => tca.data = r) = 1
  /-- A rule in state QUEUED has not been reaped. -/
  live : ∀ r, (w.rules.cell r).state = .queued → w.Live r
  /-- Nobody wants a rule in the lost and found. -/
  lost : ∀ r ∈ w.lafTree.toList, (w.rules.cell r).wantTcr = none

/-- Between two events of an orderly run the states of rules are in order. -/
theorem Orderly.inOrder {s : Owners} (orderly : Orderly s.ghost s.world) : s.world.InOrder where
  ok r live state := by
    obtain ⟨present, same⟩ :=
      (orderly.states.ok r live state).resolve_right fun task => nomatch task
    obtain ⟨tcr, content⟩ := Option.ne_none_iff_exists'.mp present
    exact ⟨tcr, same.trans content, content⟩
  queued r := by
    constructor
    · intro queued
      obtain ⟨tca, member, rfl⟩ := orderly.states.queued r queued
      have positive : 0 < s.world.waiting.countP fun other => other.data = tca.data :=
        List.countP_pos_iff.mpr ⟨tca, member, by simp⟩
      have once := List.nodup_iff_count_le_one.mp orderly.sound.waits.distinct tca.data
      rw [List.count, List.countP_map] at once
      have same : s.world.waiting.countP ((· == tca.data) ∘ (·.data)) =
          s.world.waiting.countP fun other => other.data = tca.data :=
        List.countP_congr fun other _ => by simp
      omega
    · intro once
      obtain ⟨tca, member, here⟩ := List.countP_pos_iff.mp
        (show 0 < s.world.waiting.countP fun tca => tca.data = r by omega)
      have here : tca.data = r := by simpa using here
      exact here ▸ orderly.sound.waits.queued tca member
  live r queued := by
    obtain ⟨tca, member, rfl⟩ := orderly.states.queued r queued
    exact orderly.sound.counts.live_waiting member
  lost r member := (orderly.sound.lost.unwanted r member).2

/-- Between two events of every run the states of rules are in order, and no event fails an
assertion on the state or the want of a rule. -/
theorem rule_state_machine {w : World} (blank : w.Blank) {s : Owners}
    (reached : Owners.Reached (fun _ _ => True) w s) :
    s.world.InOrder ∧ ∀ (e : RuleEvent) (bound : Nat), e.Allowed s →
      e.run bound s ≠ .error .ruleState := by
  have between := reached.between carries_orderly blank.pinChanges blank.orderly
  refine ⟨between.kept.inOrder, fun e bound allowed failed => ?_⟩
  have ends := RuleEvent.run_keeps carries_orderly allowed trivial between bound
  rw [failed] at ends
  exact ends rfl

/-- A blank world with a connection. -/
def blankWorld : World := { queue := { conn := some 0 } }

theorem blankWorld_blank : blankWorld.Blank where
  pinChanges := rfl
  targets := rfl
  routes := rfl
  rules := rfl
  ruleCnt := rfl
  posTree := rfl
  lafTree := rfl
  chainTree := rfl
  queue := ⟨0, rfl⟩
  notes := rfl
  log := rfl

/-- A FORWARD rule as `obj_target_prepare_rule` makes it. -/
def forwardRule (vlanId : UInt16) : TcRule where
  type := .forward
  traits := typeTraits .forward
  vlanId := vlanId
  afAddr := ⟨afInet, 0, 0, 0⟩
  dst := 0x020000000001
  src := 0x020000000002

/-- A rule is requested, the pins are removed and its install is sent. -/
theorem rule_state_machine_request :
    ∃ s, Owners.play 9 [.request (forwardRule 7), .removePin] { world := blankWorld } = .ok s ∧
      s.world.InOrder := by
  obtain ⟨s, played⟩ : ∃ s, Owners.play 9 [.request (forwardRule 7), .removePin]
      { world := blankWorld } = .ok s := ⟨_, rfl⟩
  exact ⟨s, played, (rule_state_machine blankWorld_blank (Owners.play_reached .start played)).1⟩

end FlowerRoute
