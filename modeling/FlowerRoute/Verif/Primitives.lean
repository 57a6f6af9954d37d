import FlowerRoute.Model.Daemon

/-!
# What the functions without calls do

Reading an object, its reference counts, the trees of rules and of chains, the placement of a
rule and its reaping: what each leaves behind when it returns.
-/

namespace FlowerRoute

open Outcome

/-- The faults that may stop a function: any but a failed assertion on the state of a rule. -/
def Admitted (fault : Fault) : Prop := fault ≠ .ruleState

/-- Whatever the result, it is no failed assertion on the state of a rule. -/
abbrev Clean {α : Type} (result : Except Fault α) : Prop := Ends Admitted (fun _ => True) result

section Following

variable {β : Type} {w : World} {post : β → Prop}

/-- After a pointer to a rule was followed the rule is known to be live. -/
theorem ends_rule {r : RuleId} {next : ObjRule → Except Fault β}
    (tail : (w.rules.cell r).obj.kind = .rule → Ends Admitted post (next (w.rules.cell r))) :
    Ends Admitted post (w.rule r >>= next) := by
  rw [World.rule, follow]
  split
  · next live => exact tail live
  · exact Fault.noConfusion

/-- After a pointer to a target was followed the target is known to be live. -/
theorem ends_target {t : TargetId} {next : ObjTarget → Except Fault β}
    (tail : (w.targets.cell t).obj.kind = .target → Ends Admitted post (next (w.targets.cell t))) :
    Ends Admitted post (w.target t >>= next) := by
  rw [World.target, follow]
  split
  · next live => exact tail live
  · exact Fault.noConfusion

/-- After a pointer to a route was followed the route is known to be live. -/
theorem ends_route {r : RouteId} {next : ObjRoute → Except Fault β}
    (tail : (w.routes.cell r).obj.kind = .route → Ends Admitted post (next (w.routes.cell r))) :
    Ends Admitted post (w.route r >>= next) := by
  rw [World.route, follow]
  split
  · next live => exact tail live
  · exact Fault.noConfusion

/-- A rule whose pointer was followed. -/
theorem rule_ok {r : RuleId} {rule : ObjRule} (followed : w.rule r = .ok rule) :
    (w.rules.cell r).obj.kind = .rule ∧ rule = w.rules.cell r := by
  rw [World.rule, follow] at followed
  split at followed
  · next live =>
    cases followed
    exact ⟨live, rfl⟩
  · cases followed

/-- A target whose pointer was followed. -/
theorem target_ok {t : TargetId} {target : ObjTarget} (followed : w.target t = .ok target) :
    (w.targets.cell t).obj.kind = .target ∧ target = w.targets.cell t := by
  rw [World.target, follow] at followed
  split at followed
  · next live =>
    cases followed
    exact ⟨live, rfl⟩
  · cases followed

end Following

section Writing

/-- Two writes to a rule are one. -/
theorem setRule_setRule (w : World) (r : RuleId) (f h : ObjRule → ObjRule) :
    (w.setRule r f).setRule r h = w.setRule r fun rule => h (f rule) := by
  simp [World.setRule]

/-- A write to a rule is a write to the heap of rules. -/
theorem rules_setRule (w : World) (r : RuleId) (f : ObjRule → ObjRule) :
    (w.setRule r f).rules = w.rules.modify r f := rfl

section Untouched

variable (w : World) (r : RuleId) (f : ObjRule → ObjRule)

@[simp] theorem pinChanges_setRule : (w.setRule r f).pinChanges = w.pinChanges := rfl

@[simp] theorem mode_setRule : (w.setRule r f).mode = w.mode := rfl

@[simp] theorem queue_setRule : (w.setRule r f).queue = w.queue := rfl

@[simp] theorem kernel_setRule : (w.setRule r f).kernel = w.kernel := rfl

@[simp] theorem log_setRule : (w.setRule r f).log = w.log := rfl

@[simp] theorem targets_setRule : (w.setRule r f).targets = w.targets := rfl

@[simp] theorem routes_setRule : (w.setRule r f).routes = w.routes := rfl

@[simp] theorem posTree_setRule : (w.setRule r f).posTree = w.posTree := rfl

@[simp] theorem lafTree_setRule : (w.setRule r f).lafTree = w.lafTree := rfl

@[simp] theorem balancing_setRule : (w.setRule r f).balancing = w.balancing := rfl

@[simp] theorem ruleCnt_setRule : (w.setRule r f).ruleCnt = w.ruleCnt := rfl

@[simp] theorem config_setRule : (w.setRule r f).config = w.config := rfl

@[simp] theorem poisoned_setRule : (w.setRule r f).poisoned = w.poisoned := rfl

end Untouched

/-- What was written to a rule is there. -/
theorem cell_setRule (w : World) (r : RuleId) (f : ObjRule → ObjRule) :
    (w.setRule r f).rules.cell r = f (w.rules.cell r) := by
  simp [World.setRule]

/-- A live rule's pointer can be followed. -/
theorem rule_live {r : RuleId} {w : World} (live : (w.rules.cell r).obj.kind = .rule) :
    w.rule r = .ok (w.rules.cell r) := by
  rw [World.rule, follow, if_pos live]

/-- The pointer to a rule that was reaped cannot be followed. -/
theorem rule_dead {r : RuleId} {w : World} (dead : ¬ (w.rules.cell r).obj.kind = .rule) :
    w.rule r = .error .freedObject := by
  rw [World.rule, follow, if_neg dead]

/-- `obj_rule_ref` of a live rule. -/
theorem objRuleRef_live {r : RuleId} {w : World} (live : (w.rules.cell r).obj.kind = .rule) :
    objRuleRef r w = .ok (w.setRule r fun rule => { rule with obj := objRef rule.obj }) := by
  rw [objRuleRef, rule_live live]
  rfl

/-- A rule that was just written to is followed. -/
theorem rule_setRule {r : RuleId} {w : World} {f : ObjRule → ObjRule}
    (live : (f (w.rules.cell r)).obj.kind = .rule) :
    (w.setRule r f).rule r = .ok (f (w.rules.cell r)) := by
  rw [rule_live (by rwa [cell_setRule]), cell_setRule]

/-- `obj_rule_ref` of a rule that was just written to. -/
theorem objRuleRef_setRule {r : RuleId} {w : World} {f : ObjRule → ObjRule}
    (live : (f (w.rules.cell r)).obj.kind = .rule) :
    objRuleRef r (w.setRule r f) =
      .ok (w.setRule r fun rule => { f rule with obj := objRef (f rule).obj }) := by
  rw [objRuleRef_live (by rwa [cell_setRule]), setRule_setRule]

/-- What `obj_rule_ref` does. -/
theorem objRuleRef_ok {r : RuleId} {w w' : World} (counted : objRuleRef r w = .ok w') :
    (w.rules.cell r).obj.kind = .rule ∧
      w' = w.setRule r fun rule => { rule with obj := objRef rule.obj } := by
  obtain ⟨rule, followed, counted⟩ := bind_returned counted
  cases counted
  exact ⟨(rule_ok followed).1, rfl⟩

end Writing

section Faults

variable {w : World}

/-- Following a pointer to a rule asserts nothing on its state. -/
theorem clean_rule (r : RuleId) : Clean (w.rule r) := by
  rw [World.rule, follow]
  split
  · trivial
  · exact Fault.noConfusion

/-- `obj_rule_ref` asserts nothing on a rule's state. -/
theorem clean_objRuleRef (r : RuleId) : Clean (objRuleRef r w) :=
  faults_bind (clean_rule r) fun _ => trivial

/-- Following a pointer to a target asserts nothing on a rule's state. -/
theorem clean_target (t : TargetId) : Clean (w.target t) := by
  rw [World.target, follow]
  split
  · trivial
  · exact Fault.noConfusion

/-- Following a pointer to a route asserts nothing on a rule's state. -/
theorem clean_route (r : RouteId) : Clean (w.route r) := by
  rw [World.route, follow]
  split
  · trivial
  · exact Fault.noConfusion

/-- Other checks assert nothing on a rule's state. -/
theorem clean_require {condition : Prop} [Decidable condition] :
    Clean (require Fault.assertion condition) :=
  faults_require Fault.noConfusion

/-- The search by position asserts nothing on a rule's state. -/
theorem clean_posCompare (chainNo : UInt32) (prio : UInt16) (this : RuleId) :
    Clean (posCompare chainNo prio w this) :=
  faults_bind (clean_rule this) fun _ => trivial

/-- The search by content asserts nothing on a rule's state. -/
theorem clean_lafCompare (tcr : TcRule) (this : RuleId) : Clean (lafCompare tcr w this) := by
  refine faults_bind (clean_rule this) fun rule => ?_
  split
  · exact Fault.noConfusion
  · trivial

/-- `obj_rule_pos_lookup` asserts nothing on a rule's state. -/
theorem clean_objRulePosLookup (chainNo : UInt32) (prio : UInt16) :
    Clean (objRulePosLookup chainNo prio w) :=
  SearchTree.find_faults (clean_posCompare chainNo prio) _

/-- `obj_rule_laf_lookup` asserts nothing on a rule's state. -/
theorem clean_objRuleLafLookup (tcr : TcRule) : Clean (objRuleLafLookup tcr w) :=
  SearchTree.find_faults (clean_lafCompare tcr) _

/-- `obj_rule_pos_insert` asserts nothing on a rule's state. -/
theorem clean_objRulePosInsert (r : RuleId) : Clean (objRulePosInsert r w) := by
  refine faults_bind (clean_rule r) fun rule => faults_bind clean_require fun _ => ?_
  refine faults_bind (SearchTree.link_faults (clean_posCompare _ _) _ _) fun linked => ?_
  cases linked <;> trivial

/-- `obj_rule_laf_insert` asserts nothing on a rule's state. -/
theorem clean_objRuleLafInsert (r : RuleId) : Clean (objRuleLafInsert r w) := by
  refine faults_bind (clean_rule r) fun rule => faults_bind clean_require fun _ => ?_
  split
  · exact Fault.noConfusion
  · refine faults_bind (SearchTree.link_faults (clean_lafCompare _) _ _) fun linked => ?_
    cases linked <;> trivial

/-- The history is apart from the trees. -/
theorem objRuleFind_hears (chainNo : UInt32) (prio : UInt16) (tcr : TcRule) (note : Note) :
    objRuleFind chainNo prio tcr (w.hears note) = objRuleFind chainNo prio tcr w := rfl

/-- The search of a notification asserts nothing on a rule's state. -/
theorem clean_objRuleFind (chainNo : UInt32) (prio : UInt16) (tcr : TcRule) :
    Clean (objRuleFind chainNo prio tcr w) := by
  refine faults_bind (clean_objRulePosLookup _ _) fun found => ?_
  split
  · trivial
  · refine faults_bind (clean_objRuleLafLookup _) fun found => ?_
    split
    · trivial
    · exact faults_bind (clean_rule _) fun _ => trivial

/-- The search for a free priority asserts nothing on a rule's state. -/
theorem clean_findAvailablePrioLoop (chainNo : UInt32) (minPrio : UInt16) (rules : List RuleId)
    (ret : UInt16) : Clean (findAvailablePrioLoop chainNo minPrio w rules ret) := by
  induction rules generalizing ret with
  | nil => trivial
  | cons r rest ih =>
    refine faults_bind (clean_rule r) fun rule => ?_
    split
    · exact ih _
    · split
      · trivial
      · split
        · trivial
        · split
          · exact ih _
          · split
            · trivial
            · exact ih _

/-- The placement of a rule asserts nothing on a rule's state. -/
theorem clean_schedBasicPlace (tcr : TcRule) : Clean (schedBasicPlace tcr w) := by
  have chain : ∀ (w : World) chainNo, Clean (chainLookup chainNo w) := fun w chainNo => by
    refine SearchTree.find_faults ?_ _
    exact fun _ => trivial
  have insert : ∀ (w : World) chainNo, Clean (chainInsert chainNo w) := fun w chainNo => by
    refine faults_bind (SearchTree.link_faults ?_ _ _) fun linked => ?_
    · exact fun _ => trivial
    · cases linked <;> trivial
  have got : ∀ (w : World) chainNo, Clean (filterGotChain chainNo w) := fun w chainNo => by
    refine faults_bind (chain w chainNo) fun found => ?_
    split
    · trivial
    · exact faults_bind (insert w chainNo) fun _ => faults_bind clean_require fun _ => trivial
  have reserve : ∀ chainNo, Clean (filterReserveChain chainNo w) := fun chainNo =>
    faults_bind (got w chainNo) fun w => faults_bind (chain w chainNo) fun _ =>
      faults_bind clean_require fun _ => trivial
  rw [schedBasicPlace]
  split
  · exact faults_bind (faults_bind (reserve _) fun _ => trivial) fun _ => trivial
  · have af : Clean (getAfChain tcr.afAddr.af) := by
      rw [getAfChain]
      split
      · trivial
      · split
        · trivial
        · exact Fault.noConfusion
    have prio : ∀ chainNo, Clean (objRuleFindAvailablePrio chainNo 100 w) := fun chainNo =>
      faults_bind (clean_findAvailablePrioLoop _ _ _ _) fun _ =>
        faults_bind clean_require fun _ => trivial
    exact faults_bind af fun chainNo => faults_bind (prio chainNo) fun _ =>
      faults_bind clean_require fun _ => trivial
  · trivial

/-- `obj_unref` asserts nothing on a rule's state. -/
theorem clean_objUnref (c : ObjCore) : Clean (objUnref c) := by
  rw [objUnref]
  split
  · trivial
  · split
    · trivial
    · exact Fault.noConfusion

/-- `obj_weak_unref` asserts nothing on a rule's state. -/
theorem clean_objWeakUnref (c : ObjCore) : Clean (objWeakUnref c) := by
  rw [objWeakUnref]
  split
  · trivial
  · split
    · trivial
    · exact Fault.noConfusion

/-- `obj_target_weak_unref` asserts nothing on a rule's state. -/
theorem clean_objTargetWeakUnref (t : TargetId) : Clean (objTargetWeakUnref t w) :=
  faults_bind (clean_target t) fun _ => faults_bind (clean_objWeakUnref _) fun _ => trivial

/-- `obj_rule_unset_target` asserts nothing on a rule's state. -/
theorem clean_objRuleUnsetTarget (r : RuleId) : Clean (objRuleUnsetTarget r w) := by
  refine faults_bind (clean_rule r) fun rule => ?_
  split
  · trivial
  · exact faults_bind (clean_objTargetWeakUnref _) fun _ => trivial

/-- `obj_rule_reap` asserts nothing on a rule's state. -/
theorem clean_objRuleReap (r : RuleId) : Clean (objRuleReap r w) := by
  refine faults_bind (clean_rule r) fun rule => faults_bind clean_require fun _ => ?_
  refine faults_bind (clean_objRuleUnsetTarget r) fun w => faults_bind (clean_rule r) fun rule => ?_
  refine faults_bind ?_ fun _ => faults_bind (faults_bind clean_require fun _ => trivial)
    fun _ => trivial
  exact faults_bind clean_require fun _ => faults_bind clean_require fun _ =>
    faults_bind clean_require fun _ => faults_bind clean_require fun _ => trivial

/-- Encoding a request asserts nothing on a rule's state. -/
theorem clean_tcEncodeRule (ifidx chainNo : UInt32) (prio : UInt16) (tcr : Option TcRule)
    (loopback : Bool) : Clean (tcEncodeRule ifidx chainNo prio tcr loopback) := by
  cases tcr with
  | none => trivial
  | some tcr =>
    have eth : Clean (tceFlowerSetEthType tcr.afAddr.af loopback) := by
      rw [tceFlowerSetEthType]
      split
      · trivial
      · split
        · trivial
        · exact Fault.noConfusion
    have body : Clean (tcEncodeRuleBody ifidx tcr loopback) := by
      simp only [tcEncodeRuleBody]
      split <;> first | trivial | exact Fault.noConfusion
    have flower : Clean (tceNewFlowerRule tcr loopback) := by
      refine faults_bind eth fun _ => ?_
      trivial
    refine faults_bind flower fun _ => faults_bind body fun _ => ?_
    trivial

/-- The type and the traits of a rule are set without an assertion on a rule's state. -/
theorem clean_tcRuleSetTypeAndTraits (rule : TcRule) (type : TcRuleType) :
    Clean (tcRuleSetTypeAndTraits rule type) := by
  have typed : Clean (tcRuleSetType rule type) := by
    rw [tcRuleSetType]
    split
    · trivial
    · split
      · trivial
      · exact Fault.noConfusion
  refine faults_bind typed fun rule => ?_
  have checked : ∀ rule : TcRule,
      Clean (if rule.traits ≠ 0 then .ok rule else .error .assertion : Except Fault TcRule) := by
    intro rule
    split
    · trivial
    · exact Fault.noConfusion
  exact checked _

/-- The queue asserts nothing on a rule's state. -/
theorem clean_queueProcess (q : Queue TcAction) : Clean q.queueProcess := by
  refine faults_bind clean_require fun _ => ?_
  split
  · exact Fault.noConfusion
  · exact faults_bind clean_require fun _ => trivial

/-- The queue asserts nothing on a rule's state. -/
theorem clean_handleQueueCompleted (q : Queue TcAction) (conn : Option ConnId) :
    Clean (q.handleQueueCompleted conn) := by
  refine faults_bind clean_require fun _ => faults_bind clean_require fun _ =>
    faults_bind ?_ fun _ => faults_bind clean_require fun _ => trivial
  rw [Queue.queuePop]
  split
  · exact Fault.noConfusion
  · trivial

end Faults

section Placement

/-- Reserving a chain changes the tree of chains only. -/
theorem filterGotChain_returns (chainNo : UInt32) (w : World) :
    Returns (fun w' => ∃ chainTree, w' = { w with chainTree }) (filterGotChain chainNo w) := by
  refine returns_bind fun found _ => ?_
  cases found with
  | some _ => exact ⟨w.chainTree, rfl⟩
  | none =>
    refine returns_bind fun ⟨ret, w'⟩ inserted => returns_require fun _ => ?_
    simp only [chainInsert] at inserted
    obtain ⟨linked, -, inserted⟩ := bind_returned inserted
    cases linked with
    | none => cases inserted; exact ⟨w.chainTree, rfl⟩
    | some linked => cases inserted; exact ⟨_, rfl⟩

/-- Choosing a chain changes the tree of chains only. -/
theorem filterFindAvailableChainNo_returns (minChainNo : UInt32) (w : World) :
    Returns (fun result => ∃ chainTree, result.2 = { w with chainTree })
      (filterFindAvailableChainNo minChainNo w) := by
  have reserved : ∀ ret, Returns (fun w' => ∃ chainTree, w' = { w with chainTree })
      (filterReserveChain ret w) := fun ret =>
    Ends.bind (filterGotChain_returns _ w) fun w' changed =>
      returns_bind fun ch _ => returns_require fun _ => changed
  exact Ends.bind (reserved _) fun w' changed => changed

/-- Placing a rule changes the tree of chains only, and only these types are placed. -/
theorem schedBasicPlace_returns (tcr : TcRule) (w : World) :
    Returns (fun result => (∃ chainTree, result.2 = { w with chainTree }) ∧
      (result.1 = none → result.2 = w ∧ tcr.type ≠ .forward ∧ tcr.type ≠ .routeGoto))
      (schedBasicPlace tcr w) := by
  rw [schedBasicPlace]
  split
  · refine Ends.bind (filterFindAvailableChainNo_returns 5 w) fun ⟨chainNo, w'⟩ changed => ?_
    exact ⟨changed, fun unplaced => nomatch unplaced⟩
  · refine returns_bind fun chainNo _ => returns_bind fun prio _ => returns_require fun _ => ?_
    exact ⟨⟨w.chainTree, rfl⟩, fun unplaced => nomatch unplaced⟩
  · next forward goto =>
    exact ⟨⟨w.chainTree, rfl⟩, fun _ => ⟨rfl, forward, goto⟩⟩

/-- `obj_rule_pos_insert` links the rule, or changes nothing at a position that is taken. -/
theorem objRulePosInsert_ok {r : RuleId} {w w' : World}
    (inserted : objRulePosInsert r w = .ok w') :
    (w.rules.cell r).obj.kind = .rule ∧ (w.rules.cell r).havePos = false ∧
      ∃ linked, w.posTree.link (posCompare (w.rules.cell r).chainNo (w.rules.cell r).prio w) r =
        .ok linked ∧ match linked with
          | none => w' = w
          | some linked => w' = { w with
              posTree := w.balancing.insertColor r linked
              rules := w.rules.modify r fun rule => { rule with havePos := true } } := by
  obtain ⟨rule, followed, inserted⟩ := bind_returned inserted
  obtain ⟨live, rfl⟩ := rule_ok followed
  obtain ⟨_, fresh, inserted⟩ := bind_returned inserted
  obtain ⟨linked, search, inserted⟩ := bind_returned inserted
  refine ⟨live, of_require fresh, linked, search, ?_⟩
  cases linked <;> cases inserted <;> rfl

/-- `obj_rule_laf_insert` links the rule, or changes nothing beside one with its content. -/
theorem objRuleLafInsert_ok {r : RuleId} {w w' : World}
    (inserted : objRuleLafInsert r w = .ok w') :
    (w.rules.cell r).obj.kind = .rule ∧ (w.rules.cell r).haveLaf = false ∧
      ∃ tcr linked, (w.rules.cell r).haveTcr = some tcr ∧
        w.lafTree.link (lafCompare tcr w) r = .ok linked ∧ match linked with
          | none => w' = w
          | some linked => w' = { w with
              lafTree := w.balancing.insertColor r linked
              rules := w.rules.modify r fun rule => { rule with haveLaf := true } } := by
  obtain ⟨rule, followed, inserted⟩ := bind_returned inserted
  obtain ⟨live, rfl⟩ := rule_ok followed
  obtain ⟨_, fresh, inserted⟩ := bind_returned inserted
  split at inserted
  · cases inserted
  · next tcr content =>
    obtain ⟨linked, search, inserted⟩ := bind_returned inserted
    refine ⟨live, of_require fresh, tcr, linked, content, search, ?_⟩
    cases linked <;> cases inserted <;> rfl

/-- What `obj_rule_pos_insert` does with a new rule. -/
theorem objRulePosInsert_alloc {rule : ObjRule} {w w' : World}
    (inserted : objRulePosInsert w.rules.next (objRuleAlloc rule w).2 = .ok w') :
    rule.havePos = false ∧ ∃ linked,
      w.posTree.link (posCompare rule.chainNo rule.prio (objRuleAlloc rule w).2) w.rules.next =
        .ok linked ∧
      w' = { (objRuleAlloc { rule with havePos := linked.isSome } w).2 with
        posTree := (linked.map (w.balancing.insertColor w.rules.next)).getD w.posTree } := by
  obtain ⟨-, fresh, linked, search, result⟩ := objRulePosInsert_ok inserted
  simp only [objRuleAlloc, Heap.cell_alloc_same] at fresh search
  refine ⟨fresh, linked, search, ?_⟩
  cases linked with
  | none =>
    rw [result]
    simp [objRuleAlloc, ← fresh]
  | some linked =>
    rw [result]
    simp [objRuleAlloc]

/-- What `obj_rule_laf_insert` does with a new rule. -/
theorem objRuleLafInsert_alloc {rule : ObjRule} {w w' : World}
    (inserted : objRuleLafInsert w.rules.next (objRuleAlloc rule w).2 = .ok w') :
    rule.haveLaf = false ∧ ∃ tcr linked, rule.haveTcr = some tcr ∧
      w.lafTree.link (lafCompare tcr (objRuleAlloc rule w).2) w.rules.next = .ok linked ∧
      w' = { (objRuleAlloc { rule with haveLaf := linked.isSome } w).2 with
        lafTree := (linked.map (w.balancing.insertColor w.rules.next)).getD w.lafTree } := by
  obtain ⟨-, fresh, tcr, linked, content, search, result⟩ := objRuleLafInsert_ok inserted
  simp only [objRuleAlloc, Heap.cell_alloc_same] at fresh search content
  refine ⟨fresh, tcr, linked, content, search, ?_⟩
  cases linked with
  | none =>
    rw [result]
    simp [objRuleAlloc, ← fresh]
  | some linked =>
    rw [result]
    simp [objRuleAlloc]

/-- What `obj_rule_pos_insert` and `obj_rule_laf_insert` do with a new rule. -/
theorem objRuleNew_alloc {rule : ObjRule} {w w₁ w' : World}
    (inPos : objRulePosInsert w.rules.next (objRuleAlloc rule w).2 = .ok w₁)
    (inLaf : objRuleLafInsert w.rules.next w₁ = .ok w') :
    ∃ tcr pos laf, rule.haveTcr = some tcr ∧ rule.havePos = false ∧ rule.haveLaf = false ∧
      w.posTree.link (posCompare rule.chainNo rule.prio (objRuleAlloc rule w).2) w.rules.next =
        .ok pos ∧ w.lafTree.link (lafCompare tcr w₁) w.rules.next = .ok laf ∧
      w' = { (objRuleAlloc { rule with havePos := pos.isSome, haveLaf := laf.isSome } w).2 with
        posTree := (pos.map (w.balancing.insertColor w.rules.next)).getD w.posTree
        lafTree := (laf.map (w.balancing.insertColor w.rules.next)).getD w.lafTree } := by
  obtain ⟨noPos, pos, searchPos, rfl⟩ := objRulePosInsert_alloc inPos
  have inLaf : objRuleLafInsert w.rules.next
      (objRuleAlloc { rule with havePos := pos.isSome } { w with
        posTree := (pos.map (w.balancing.insertColor w.rules.next)).getD w.posTree }).2 =
      .ok w' := inLaf
  obtain ⟨noLaf, tcr, laf, content, searchLaf, rfl⟩ := objRuleLafInsert_alloc inLaf
  exact ⟨tcr, pos, laf, content, noPos, noLaf, searchPos, searchLaf, rfl⟩

end Placement

section Reaping

/-- What a released weak reference changes: one reference less. -/
theorem objWeakUnref_ok {c obj : ObjCore} (counted : objWeakUnref c = .ok obj) :
    obj = { c with weakRefcnt := c.weakRefcnt - 1 } := by
  rw [objWeakUnref] at counted
  split at counted
  · next zombie =>
    cases counted
    have same : c.weakRefcnt - 1 = c.weakRefcnt := by omega
    rw [same]
  · split at counted <;> cases counted
    rfl

/-- What `obj_free` asks of an object. -/
theorem objFree_ok {c obj : ObjCore} (freed : objFree c = .ok obj) :
    obj = { c with kind := .unknown } ∧ c.state = .zombie ∧ c.refcnt = 0 ∧ c.weakRefcnt = 0 := by
  obtain ⟨_, -, freed⟩ := bind_returned freed
  obtain ⟨_, state, freed⟩ := bind_returned freed
  obtain ⟨_, refcnt, freed⟩ := bind_returned freed
  obtain ⟨_, weakRefcnt, freed⟩ := bind_returned freed
  cases freed
  exact ⟨rfl, of_require state, of_require refcnt, of_require weakRefcnt⟩

/-- A counter that went down was not zero. -/
theorem countDown_ok {cnt rest : Nat} (counted : countDown cnt = .ok rest) :
    rest = cnt - 1 ∧ cnt ≠ 0 := by
  obtain ⟨_, positive, counted⟩ := bind_returned counted
  cases counted
  exact ⟨rfl, of_require positive⟩

namespace World

variable (w : World)

/-- The weak reference to a target is given up. -/
def dropTarget (t : Option TargetId) : World :=
  match t with
  | none => w
  | some t => w.setTarget t fun target =>
      { target with obj := { target.obj with weakRefcnt := target.obj.weakRefcnt - 1 } }

end World

section DropTarget

variable (w : World) (t : Option TargetId)

/-- A target's weak references are apart from the rules. -/
theorem dropTarget_setRule (r : RuleId) (f : ObjRule → ObjRule) :
    (w.setRule r f).dropTarget t = (w.dropTarget t).setRule r f := by
  cases t <;> rfl

@[simp] theorem rules_dropTarget : (w.dropTarget t).rules = w.rules := by
  cases t <;> rfl

@[simp] theorem ruleCnt_dropTarget : (w.dropTarget t).ruleCnt = w.ruleCnt := by
  cases t <;> rfl

@[simp] theorem routes_dropTarget : (w.dropTarget t).routes = w.routes := by
  cases t <;> rfl

@[simp] theorem pinChanges_dropTarget : (w.dropTarget t).pinChanges = w.pinChanges := by
  cases t <;> rfl

@[simp] theorem kernel_dropTarget : (w.dropTarget t).kernel = w.kernel := by
  cases t <;> rfl

@[simp] theorem log_dropTarget : (w.dropTarget t).log = w.log := by
  cases t <;> rfl

@[simp] theorem posTree_dropTarget : (w.dropTarget t).posTree = w.posTree := by
  cases t <;> rfl

@[simp] theorem chainTree_dropTarget : (w.dropTarget t).chainTree = w.chainTree := by
  cases t <;> rfl

@[simp] theorem queue_dropTarget : (w.dropTarget t).queue = w.queue := by
  cases t <;> rfl

@[simp] theorem targets_next_dropTarget : (w.dropTarget t).targets.next = w.targets.next := by
  cases t <;> rfl

/-- Only the weak reference count of a target changes. -/
theorem target_dropTarget {β : Type} (field : ObjTarget → β) (i : TargetId)
    (keep : ∀ target n, field { target with obj := { target.obj with weakRefcnt := n } } =
      field target) : field ((w.dropTarget t).targets.cell i) = field (w.targets.cell i) := by
  cases t with
  | none => rfl
  | some t => exact Heap.cell_modify_field _ _ _ field fun target => keep target _

end DropTarget

/-- What `obj_rule_reap` leaves of a rule. -/
def ObjRule.reaped (rule : ObjRule) : ObjRule :=
  { rule with
    obj := { rule.obj with state := .zombie, kind := .unknown }
    target := none
    wantTcr := none
    haveTcr := none
    haveLaf := false
    havePos := false }

/-- What `obj_rule_reap` leaves of the world. -/
def World.reaped (w : World) (r : RuleId) : World :=
  { (w.dropTarget (w.rules.cell r).target).setRule r ObjRule.reaped with
    lafTree := if (w.rules.cell r).haveLaf then w.balancing.erase r w.lafTree else w.lafTree
    posTree := if (w.rules.cell r).havePos then w.balancing.erase r w.posTree else w.posTree
    ruleCnt := w.ruleCnt - 1 }

/-- `obj_rule_unset_target` takes the rule off its target. -/
theorem objRuleUnsetTarget_ok {r : RuleId} {w w' : World}
    (unset : objRuleUnsetTarget r w = .ok w') :
    (w.rules.cell r).obj.kind = .rule ∧
      w' = (w.dropTarget (w.rules.cell r).target).setRule r fun rule =>
        { rule with target := none } := by
  obtain ⟨rule, followed, unset⟩ := bind_returned unset
  obtain ⟨live, rfl⟩ := rule_ok followed
  refine ⟨live, ?_⟩
  split at unset
  · next noTarget =>
    cases unset
    have same : w.rules.modify r (fun rule => { rule with target := none }) = w.rules :=
      Heap.modify_id _ _ (by rw [← noTarget])
    simp only [World.setRule, noTarget, World.dropTarget, same]
  · next t hasTarget =>
    obtain ⟨w'', dropped, unset⟩ := bind_returned unset
    cases unset
    obtain ⟨target, followed, dropped⟩ := bind_returned dropped
    obtain ⟨-, rfl⟩ := target_ok followed
    obtain ⟨obj, counted, dropped⟩ := bind_returned dropped
    cases dropped
    rw [objWeakUnref_ok counted, hasTarget]
    have same := Heap.modify_congr w.targets t
      (fun target => { target with obj := { (w.targets.cell t).obj with
        weakRefcnt := (w.targets.cell t).obj.weakRefcnt - 1 } })
      (fun target => { target with obj := { target.obj with
        weakRefcnt := target.obj.weakRefcnt - 1 } }) rfl
    simp only [World.dropTarget, World.setTarget, same]

/-- `obj_rule_reap` frees a rule without references. -/
theorem objRuleReap_ok {r : RuleId} {w w' : World} (reaped : objRuleReap r w = .ok w') :
    w' = w.reaped r ∧ (w.rules.cell r).obj.kind = .rule ∧ (w.rules.cell r).obj.refcnt = 0 ∧
      (w.rules.cell r).obj.weakRefcnt = 0 ∧ w.ruleCnt ≠ 0 := by
  obtain ⟨rule, followed, reaped⟩ := bind_returned reaped
  obtain ⟨live, rfl⟩ := rule_ok followed
  obtain ⟨_, unused, reaped⟩ := bind_returned reaped
  obtain ⟨w₁, unset, reaped⟩ := bind_returned reaped
  obtain ⟨-, rfl⟩ := objRuleUnsetTarget_ok unset
  obtain ⟨rule, followed, reaped⟩ := bind_returned reaped
  obtain ⟨-, rfl⟩ := rule_ok followed
  obtain ⟨obj, freed, reaped⟩ := bind_returned reaped
  obtain ⟨cnt, counted, reaped⟩ := bind_returned reaped
  clear followed unset
  obtain ⟨rfl, -, -, noWeak⟩ := objFree_ok freed
  obtain ⟨rfl, positive⟩ := countDown_ok counted
  simp only [dropTarget_setRule, setRule_setRule, cell_setRule] at noWeak positive reaped
  refine ⟨?_, live, of_require unused, ?_, ?_⟩
  · cases reaped
    have same := Heap.modify_congr w.rules r (fun rule => { rule with
        obj := { (w.rules.cell r).obj with state := .zombie, kind := .unknown }
        target := none, wantTcr := none, haveTcr := none, haveLaf := false, havePos := false })
      ObjRule.reaped rfl
    cases hasTarget : (w.rules.cell r).target <;>
      simp [World.reaped, World.setRule, World.setTarget, World.dropTarget, hasTarget, ← same]
  · simpa using noWeak
  · simpa [World.setRule] using positive

end Reaping

end FlowerRoute
