import FlowerRoute.Model.TcDecode
import FlowerRoute.Model.World

/-!
# Rule objects

`obj_rule.c` with what it calls: the placement of `sched_basic.c`, the chains of `nl_filter.c`,
the actions of `tc_action.c`, the kernel that answers them and the handlers of its messages. `obj_rule_update_state` and
`queue_process_loop` call each other through the other functions, so every function takes the
two as parameters.
-/

namespace FlowerRoute

open Outcome

/-- The two functions through which the others call each other. -/
structure Calls where
  objRuleUpdateState : RuleId → World → Except Fault World
  queueProcessLoop : World → Except Fault World

section Chains

/-- `u32cmp`. -/
def u32cmp (a b : UInt32) : Int := (a - b).toBitVec.toInt

/-- `u16cmp`. -/
def u16cmp (a b : UInt16) : Int := a.toNat - b.toNat

/-- `chain_lookup`. -/
def chainLookup (chainNo : UInt32) (w : World) : Except Fault (Option UInt32) :=
  w.chainTree.find fun this => .ok (u32cmp chainNo this)

/-- `chain_insert`. -/
def chainInsert (chainNo : UInt32) (w : World) : Except Fault (Bool × World) := do
  match ← w.chainTree.link (fun this => .ok (u32cmp chainNo this)) chainNo with
  | none => return (false, w)
  | some linked => return (true, { w with
      chainTree := w.chainBalancing.insertColor chainNo linked })

/-- `filter_got_chain`. -/
def filterGotChain (chainNo : UInt32) (w : World) : Except Fault World := do
  match ← chainLookup chainNo w with
  | some _ => return w
  | none =>
    let (ret, w) ← chainInsert chainNo w
    require Fault.assertion ret
    return w

/-- The chain of a message, as `decode_chain` reads it. -/
def decodeChainNo (nlh : Nlmsg) : Except Stop UInt32 := do
  let tb ← mnlAttrParse nlh.attrs (decodeNlattr tcAttrTypes) AttrTable.empty
  match tb 11 with
  | some chain => mnlAttrGetU32 chain
  | none => return 0

/-- `decode_chain`. -/
def decodeChain (nlh : Nlmsg) (w : World) : Except Fault World :=
  match decodeChainNo nlh with
  | .error (.fault fault) => .error fault
  | .error .callbackError => .ok w
  | .ok chainNo =>
    if nlh.tcm.ifindex ≠ w.config.ifidx then .ok w
    else if nlh.tcm.parent ≠ tcHMaj tcHIngress then .ok w
    else filterGotChain chainNo w

/-- `filter_reserve_chain`. -/
def filterReserveChain (chainNo : UInt32) (w : World) : Except Fault World := do
  let w ← filterGotChain chainNo w
  let ch ← chainLookup chainNo w
  require Fault.assertion ch.isSome
  return w

/-- The loop of `filter_find_available_chain_no`. -/
def findAvailableChainNoLoop (minChainNo : UInt32) : List UInt32 → UInt32 → UInt32
  | [], ret => ret
  | ch :: rest, ret =>
    if ch = ret ∨ ret < minChainNo then findAvailableChainNoLoop minChainNo rest (ch + 1)
    else if minChainNo ≤ ret then ret
    else findAvailableChainNoLoop minChainNo rest ret

/-- `filter_find_available_chain_no`. -/
def filterFindAvailableChainNo (minChainNo : UInt32) (w : World) :
    Except Fault (UInt32 × World) := do
  let ret := findAvailableChainNoLoop minChainNo w.chainTree.toList 0
  let ret := if ret < minChainNo then minChainNo else ret
  let w ← filterReserveChain ret w
  return (ret, w)

end Chains

section Trees

/-- The comparison of `obj_rule_pos_lookup` with a rule of the tree. -/
def posCompare (chainNo : UInt32) (prio : UInt16) (w : World) (this : RuleId) :
    Except Fault Int := do
  let this ← w.rule this
  let ret := u32cmp chainNo this.chainNo
  return if ret = 0 then u16cmp prio this.prio else ret

/-- `obj_rule_pos_lookup`. -/
def objRulePosLookup (chainNo : UInt32) (prio : UInt16) (w : World) :
    Except Fault (Option RuleId) :=
  w.posTree.find (posCompare chainNo prio w)

/-- `obj_rule_pos_insert`; at a position that is taken nothing is inserted. -/
def objRulePosInsert (r : RuleId) (w : World) : Except Fault World := do
  let rule ← w.rule r
  require Fault.assertion (rule.havePos = false)
  match ← w.posTree.link (posCompare rule.chainNo rule.prio w) r with
  | none => return w
  | some linked =>
    let w := { w with posTree := w.balancing.insertColor r linked }
    return w.setRule r fun rule => { rule with havePos := true }

/-- The comparison of `obj_rule_laf_lookup` with a rule of the tree. -/
def lafCompare (tcr : TcRule) (w : World) (this : RuleId) : Except Fault Int := do
  let this ← w.rule this
  match this.haveTcr with
  | none => .error .nullPointer
  | some haveTcr => return tcr.memcmp haveTcr

/-- `obj_rule_laf_lookup`. -/
def objRuleLafLookup (tcr : TcRule) (w : World) : Except Fault (Option RuleId) :=
  w.lafTree.find (lafCompare tcr w)

/-- `obj_rule_laf_insert`; beside a rule with the same content nothing is inserted. -/
def objRuleLafInsert (r : RuleId) (w : World) : Except Fault World := do
  let rule ← w.rule r
  require Fault.assertion (rule.haveLaf = false)
  match rule.haveTcr with
  | none => .error .nullPointer
  | some haveTcr =>
    match ← w.lafTree.link (lafCompare haveTcr w) r with
    | none => return w
    | some linked =>
      let w := { w with lafTree := w.balancing.insertColor r linked }
      return w.setRule r fun rule => { rule with haveLaf := true }

/-- The loop of `obj_rule_find_available_prio`. -/
def findAvailablePrioLoop (chainNo : UInt32) (minPrio : UInt16) (w : World) :
    List RuleId → UInt16 → Except Fault UInt16
  | [], ret => .ok ret
  | r :: rest, ret => do
    let rule ← w.rule r
    if rule.chainNo < chainNo then findAvailablePrioLoop chainNo minPrio w rest ret
    else if chainNo < rule.chainNo then return ret
    else if ret = 0 ∧ minPrio < rule.prio then return ret
    else if rule.prio = ret ∨ ret < minPrio then
      findAvailablePrioLoop chainNo minPrio w rest (rule.prio + 1)
    else if minPrio ≤ ret then return ret
    else findAvailablePrioLoop chainNo minPrio w rest ret

/-- `obj_rule_find_available_prio`. -/
def objRuleFindAvailablePrio (chainNo : UInt32) (minPrio : UInt16) (w : World) :
    Except Fault UInt16 := do
  let ret ← findAvailablePrioLoop chainNo minPrio w w.posTree.toList 0
  let ret := if ret < minPrio then minPrio else ret
  require Fault.assertion (minPrio ≤ ret)
  return ret

end Trees

section Placement

/-- `get_af_chain`. -/
def getAfChain (af : UInt8) : Except Fault UInt32 :=
  if af = afInet then .ok 1
  else if af = afInet6 then .ok 2
  else .error .assertion

/-- `sched_basic_place`; without a value the rule was not placed. -/
def schedBasicPlace (tcr : TcRule) (w : World) :
    Except Fault (Option (UInt32 × UInt16) × World) :=
  match tcr.type with
  | .forward => do
    let (chainNo, w) ← filterFindAvailableChainNo 5 w
    return (some (chainNo, 1), w)
  | .routeGoto => do
    let chainNo ← getAfChain tcr.afAddr.af
    let prio ← objRuleFindAvailablePrio chainNo 100 w
    require Fault.assertion (100 ≤ prio)
    return (some (chainNo, prio), w)
  | _ => return (none, w)

end Placement

section References

/-- `obj_rule_ref`. -/
def objRuleRef (r : RuleId) (w : World) : Except Fault World := do
  let _ ← w.rule r
  return w.setRule r fun rule => { rule with obj := objRef rule.obj }

/-- `obj_target_weak_ref`. -/
def objTargetWeakRef (t : TargetId) (w : World) : Except Fault World := do
  let _ ← w.target t
  return w.setTarget t fun target => { target with obj := objWeakRef target.obj }

/-- `obj_target_weak_unref`. -/
def objTargetWeakUnref (t : TargetId) (w : World) : Except Fault World := do
  let target ← w.target t
  let obj ← objWeakUnref target.obj
  return w.setTarget t fun target => { target with obj }

/-- `obj_rule_unset_target`. -/
def objRuleUnsetTarget (r : RuleId) (w : World) : Except Fault World := do
  let rule ← w.rule r
  match rule.target with
  | none => return w
  | some t =>
    let w ← objTargetWeakUnref t w
    return w.setRule r fun rule => { rule with target := none }

/-- `obj_rule_set_target`. -/
def objRuleSetTarget (r : RuleId) (t : TargetId) (w : World) : Except Fault World := do
  let rule ← w.rule r
  require Fault.assertion (rule.target = none)
  let w ← objTargetWeakRef t w
  return w.setRule r fun rule => { rule with target := some t }

/-- `obj_rule_reap`. -/
def objRuleReap (r : RuleId) (w : World) : Except Fault World := do
  let rule ← w.rule r
  require Fault.assertion (rule.obj.refcnt = 0)
  let w := w.setRule r fun rule => { rule with obj := { rule.obj with state := .zombie } }
  let w ← objRuleUnsetTarget r w
  let w := w.setRule r fun rule => { rule with wantTcr := none, haveTcr := none }
  let w := { w with
    lafTree := if rule.haveLaf then w.balancing.erase r w.lafTree else w.lafTree
    posTree := if rule.havePos then w.balancing.erase r w.posTree else w.posTree }
  let rule ← w.rule r
  let obj ← objFree rule.obj
  let w := w.setRule r fun rule => { rule with haveLaf := false, havePos := false, obj }
  return { w with ruleCnt := ← countDown w.ruleCnt }

/-- `obj_rule_alloc` with the fields that its callers set on the new rule. -/
def objRuleAlloc (rule : ObjRule) (w : World) : RuleId × World :=
  (w.rules.next, { w with
    rules := w.rules.alloc { rule with obj := { rule.obj with kind := .rule } }
    ruleCnt := w.ruleCnt + 1 })

end References

section Procedures

variable (c : Calls)

/-- `obj_rule_uninstall`. -/
def objRuleUninstall (r : RuleId) (w : World) : Except Fault World := do
  let _ ← w.rule r
  c.objRuleUpdateState r (w.setRule r fun rule => { rule with wantTcr := none })

/-- `obj_rule_unref`. Its last check reads the rule again, and `obj_rule_uninstall` may have
reaped it by then: the memory still says that the rule is a zombie unless it was poisoned. -/
def objRuleUnref (r : RuleId) (w : World) : Except Fault World := do
  let rule ← w.rule r
  let obj ← objUnref rule.obj
  let w := w.setRule r fun rule => { rule with obj }
  let w ← if obj.refcnt = 0 ∧ rule.wantTcr.isSome ∧ rule.haveTcr.isSome ∧ w.mode = .normal ∧
      rule.type ≠ .static then objRuleUninstall c r w
    else pure w
  let rule := w.rules.cell r
  require Fault.freedObject (rule.obj.kind = .rule ∨ w.poisoned = false)
  if objIsReapable w.mode rule.obj then objRuleReap r w else return w

/-- `queue_schedule` for `tc_action_execute` and `tc_action_done`. -/
def queueSchedule (tca : TcAction) (w : World) : Except Fault World :=
  let w := { w with
    queue := w.queue.enqueue tca
    log := w.log ++ [.queued tca (w.kernel.filters tca.chainNo tca.prio)] }
  if w.queue.isBusy then .ok w else c.queueProcessLoop w

/-- `obj_rule_queue_install`. -/
def objRuleQueueInstall (r : RuleId) (w : World) : Except Fault World := do
  if w.pinChanges < 2 then return w
  let rule ← w.rule r
  require Fault.ruleState (rule.state = .want)
  let w := w.setRule r fun rule => { rule with state := .queued }
  let w ← objRuleRef r w
  queueSchedule c ⟨rule.chainNo, rule.prio, rule.wantTcr, r⟩ w

/-- `obj_rule_queue_uninstall`. -/
def objRuleQueueUninstall (r : RuleId) (w : World) : Except Fault World := do
  if w.pinChanges < 3 then return w
  let rule ← w.rule r
  require Fault.ruleState (rule.state = .alien)
  let w := w.setRule r fun rule => { rule with state := .queued }
  let w ← objRuleRef r w
  queueSchedule c ⟨rule.chainNo, rule.prio, none, r⟩ w

/-- `obj_rule_prime_request`; without a value the rule was not placed. -/
def objRulePrimeRequest (tcr : TcRule) (w : World) : Except Fault (Option RuleId × World) := do
  match ← objRuleLafLookup tcr w with
  | some r =>
    let w ← objRuleRef r w
    let rule ← w.rule r
    require Fault.assertion rule.haveTcr.isSome
    require Fault.ruleState (rule.wantTcr = none)
    require Fault.assertion (rule.haveLaf = true)
    let w := { w with lafTree := w.balancing.erase r w.lafTree }
    let w := w.setRule r fun rule => { rule with wantTcr := some tcr, haveLaf := false }
    let w ← objRuleRef r w
    return (some r, w)
  | none =>
    let (ret, w) ← schedBasicPlace tcr w
    match ret with
    | none => return (none, w)
    | some (chainNo, prio) =>
      let (r, w) := objRuleAlloc { chainNo, prio, wantTcr := some tcr } w
      let w ← objRuleRef r w
      let w ← objRulePosInsert r w
      return (some r, w)

/-- `obj_rule_queue_request`. -/
def objRuleQueueRequest (r : RuleId) (w : World) : Except Fault World :=
  c.objRuleUpdateState r w

/-- `obj_rule_request`. -/
def objRuleRequest (tcr : TcRule) (w : World) : Except Fault (Option RuleId × World) := do
  let (r, w) ← objRulePrimeRequest tcr w
  match r with
  | none => return (none, w)
  | some r => return (some r, ← objRuleQueueRequest c r w)

/-- `obj_rule_static_want`. -/
def objRuleStaticWant (chainNo : UInt32) (prio : UInt16) (tcr : TcRule) (w : World) :
    Except Fault World := do
  let found ← objRulePosLookup chainNo prio w
  require Fault.assertion (found = none)
  let (r, w) := objRuleAlloc { chainNo, prio, type := .static, wantTcr := some tcr } w
  let w ← objRulePosInsert r w
  c.objRuleUpdateState r w

/-- `obj_rule_delete`. -/
def objRuleDelete (r : RuleId) (w : World) : Except Fault World := do
  let w ← objRuleRef r w
  let w := w.setRule r fun rule =>
    { rule with obj := { rule.obj with state := .present }, haveTcr := none }
  let rule ← w.rule r
  let w ← if rule.wantTcr.isSome then c.objRuleUpdateState r w else pure w
  objRuleUnref c r w

/-- `obj_rule_new`. -/
def objRuleNew (r : RuleId) (w : World) : Except Fault World := do
  let w ← objRulePosInsert r w
  let w ← objRuleLafInsert r w
  c.objRuleUpdateState r w

/-- The search of `obj_rule_netlink_found`: by position, then by content at that position. -/
def objRuleFind (chainNo : UInt32) (prio : UInt16) (tcr : TcRule) (w : World) :
    Except Fault (Option RuleId) := do
  match ← objRulePosLookup chainNo prio w with
  | some r => return some r
  | none =>
    match ← objRuleLafLookup tcr w with
    | none => return none
    | some r =>
      let rule ← w.rule r
      return if rule.chainNo ≠ chainNo ∨ rule.prio ≠ prio then none else some r

/-- `obj_rule_netlink_found` for `RTM_DELTFILTER`. -/
def objRuleNetlinkGone (chainNo : UInt32) (prio : UInt16) (tcr : TcRule) (w : World) :
    Except Fault World := do
  let w := w.hears ⟨chainNo, prio, none⟩
  match ← objRuleFind chainNo prio tcr w with
  | none => return w
  | some r =>
    let _ ← w.rule r
    objRuleDelete c r w

/-- `obj_rule_netlink_found` for any other message type. -/
def objRuleNetlinkFound (chainNo : UInt32) (prio : UInt16) (tcr : TcRule) (w : World) :
    Except Fault World := do
  let w := w.hears ⟨chainNo, prio, some tcr⟩
  match ← objRuleFind chainNo prio tcr w with
  | none =>
    let (r, w) := objRuleAlloc {
      chainNo, prio, haveTcr := some tcr, obj := { state := .installed } } w
    objRuleNew c r w
  | some r =>
    let rule ← w.rule r
    require Fault.assertion (rule.chainNo = chainNo)
    require Fault.assertion (rule.prio = prio)
    if rule.haveTcr = some tcr then return w
    let w := w.setRule r fun rule => { rule with
      haveTcr := some tcr
      obj := if rule.haveTcr = none then { rule.obj with state := .installed } else rule.obj }
    c.objRuleUpdateState r w

/-- The report of a change at a position, as the monitor receives it. -/
def objRuleNotified (note : Note) (w : World) : Except Fault World :=
  match note.filter with
  | some tcr => objRuleNetlinkFound c note.chainNo note.prio tcr w
  | none => objRuleNetlinkGone c note.chainNo note.prio {} w

/-- `decode_filter`. -/
def decodeFilter (nlh : Nlmsg) (w : World) : Except Fault World :=
  match tryDecodeFilter nlh with
  | .error (.fault fault) => .error fault
  | .error .callbackError => .ok w
  | .ok tdr =>
    if tdr.isDone then
      if nlh.type = rtmDeltfilter then objRuleNetlinkGone c tdr.chainNo tdr.prio tdr.tcr w
      else objRuleNetlinkFound c tdr.chainNo tdr.prio tdr.tcr w
    else .ok w

/-- `decode_nlmsg_cb` on the messages about chains and filters. -/
def decodeNlmsgCb (nlh : Nlmsg) (w : World) : Except Fault World :=
  if nlh.type = rtmNewchain ∨ nlh.type = rtmDelchain then decodeChain nlh w
  else if nlh.type = rtmNewtfilter ∨ nlh.type = rtmDeltfilter then decodeFilter c nlh w
  else .ok w

/-- `obj_rule_pre_install`. -/
def objRulePreInstall (r : RuleId) (w : World) : Except Fault World := do
  let rule ← w.rule r
  require Fault.ruleState (rule.state = .queued)
  return w.setRule r fun rule => { rule with state := .pending }

/-- The kernel carries out a request, unless it refuses it, and has a report for it. -/
def Kernel.request (k : Kernel) (chainNo : UInt32) (prio : UInt16) (tcr : Option TcRule) :
    Kernel × List Note :=
  if k.rejects = true ∧ (k.filters chainNo prio).isSome = tcr.isSome then (k, [])
  else ({ k with filters := fun chain p =>
    if chain = chainNo ∧ p = prio then tcr else k.filters chain p }, [⟨chainNo, prio, tcr⟩])

/-- The checks of `tc_install_handler`, which the tests put in the place of `tc_action_do_install`:
the message is decoded to the rule that it was encoded from. -/
def tcInstallHandlerCheck (nlh : Nlmsg) (tca : TcAction) : Except Fault Unit :=
  match tca.tcr with
  | some tcr => do
    let tdr ← decodeFilter2 nlh
    require Fault.assertion
      (tdr = some { isDone := true, chainNo := tca.chainNo, prio := tca.prio, tcr })
  | none => require Fault.assertion (nlh.type = rtmDeltfilter)

/-- `tc_install_handler` from there on: the message is handled as if it came from the kernel. -/
def tcInstallHandler (nlh : Nlmsg) (tca : TcAction) (w : World) : Except Fault World := do
  tcInstallHandlerCheck nlh tca
  decodeNlmsgCb c nlh w

/-- `tc_action_do_install`, and what the kernel does on it. One that echoes takes the part of
`tc_install_handler`: the message is encoded for the loopback and handled before the function
returns, and there is no request to wait for. Any other one reports later what it installed. -/
def tcActionDoInstall (tca : TcAction) (w : World) : Except Fault World := do
  let nlh ← tcEncodeRule w.config.ifidx tca.chainNo tca.prio tca.tcr w.kernel.echoes
  let (kernel, notes) := w.kernel.request tca.chainNo tca.prio tca.tcr
  let w := { w with
    kernel
    log := w.log ++ [.sent tca (w.kernel.filters tca.chainNo tca.prio)
      (w.rules.cell tca.data).wantTcr] }
  if w.kernel.echoes then if notes = [] then return w else tcInstallHandler c nlh tca w
  else
    let conn ← w.queue.queueGetConn
    let w := { w with kernel := { w.kernel with notes := w.kernel.notes ++ notes } }
    return { w with queue := ← w.queue.queueHasSentRequest conn }

/-- `tc_action_execute`; `obj_rule_post_install` is the release of the action's reference. -/
def tcActionExecute (tca : TcAction) (w : World) : Except Fault World := do
  let w ← objRulePreInstall tca.data w
  let w ← tcActionDoInstall c tca w
  objRuleUnref c tca.data w

/-- `queue_process_loop`; `tc_action_done` only frees the action. -/
def queueProcessLoop (w : World) : Except Fault World := do
  if w.queue.canProcess then
    let (tca, queue) ← w.queue.queueProcess
    let w ← tcActionExecute c tca { w with queue }
    if w.queue.hasSentRequest then return w
    let (_, queue) ← w.queue.handleQueueCompleted w.queue.conn
    c.queueProcessLoop { w with queue }
  else return w

/-- `queue_is_complete`. -/
def queueIsComplete (conn : Option ConnId) (w : World) : Except Fault World := do
  let (_, queue) ← w.queue.handleQueueCompleted conn
  let w := { w with queue }
  if w.queue.canProcess then c.queueProcessLoop w else return w

end Procedures

end FlowerRoute
