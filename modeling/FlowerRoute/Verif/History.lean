import FlowerRoute.Model.Owners
import FlowerRoute.Verif.Inversion

/-!
# The past

The history of a world is written to only: behind another past every function does the same, and
adds the same events.
-/

namespace FlowerRoute

open Outcome

/-- The world behind more of a past. -/
def World.after (past : List TcEvent) (w : World) : World := { w with log := past ++ w.log }

/-- A call does the same behind any past. -/
def Forgets (f : World → Except Fault World) : Prop :=
  ∀ past w, Maps (World.after past) (f w) (f (w.after past))

/-- A call with a result. -/
def ForgetsBeside {α : Type} (f : World → Except Fault (α × World)) : Prop :=
  ∀ past w, Maps (Prod.map id (World.after past)) (f w) (f (w.after past))

/-- So do the two functions. -/
structure Calls.Forget (c : Calls) : Prop where
  updateState : ∀ r, Forgets (c.objRuleUpdateState r)
  processLoop : Forgets c.queueProcessLoop

section Chains

theorem filterGotChain_forgets (chainNo : UInt32) : Forgets (filterGotChain chainNo) := by
  intro past w
  refine .same fun found => ?_
  cases found with
  | some found => exact .ok w
  | none =>
    refine Maps.bind (show Maps (Prod.map id (World.after past)) _ _ from .same fun linked => ?_)
      fun inserted => ?_
    · cases linked with
      | none => exact .ok _
      | some linked => exact .ok (true, { w with chainTree := _ })
    · exact .same fun _ => .ok inserted.2

theorem filterFindAvailableChainNo_forgets (minChainNo : UInt32) :
    ForgetsBeside (filterFindAvailableChainNo minChainNo) := by
  intro past w
  refine Maps.bind (show Maps (World.after past) _ _ from ?_) fun w => .ok (_, w)
  refine (filterGotChain_forgets _ past w).bind fun w => ?_
  exact .same fun _ => .same fun _ => .ok w

/-- The priorities are searched for in the tree and the rules. -/
theorem findAvailablePrioLoop_after (chainNo : UInt32) (minPrio : UInt16) (past : List TcEvent)
    (w : World) (rules : List RuleId) (ret : UInt16) :
    findAvailablePrioLoop chainNo minPrio (w.after past) rules ret =
      findAvailablePrioLoop chainNo minPrio w rules ret := by
  induction rules generalizing ret with
  | nil => rfl
  | cons r rest ih =>
    rw [findAvailablePrioLoop, findAvailablePrioLoop]
    simp only [ih]
    rfl

theorem objRuleFindAvailablePrio_after (chainNo : UInt32) (minPrio : UInt16) (past : List TcEvent)
    (w : World) : objRuleFindAvailablePrio chainNo minPrio (w.after past) =
      objRuleFindAvailablePrio chainNo minPrio w := by
  unfold objRuleFindAvailablePrio
  rw [findAvailablePrioLoop_after]
  rfl

theorem schedBasicPlace_forgets (tcr : TcRule) : ForgetsBeside (schedBasicPlace tcr) := by
  intro past w
  unfold schedBasicPlace
  split
  · exact (filterFindAvailableChainNo_forgets 5 past w).bind fun _ => .ok (_, _)
  · refine .same fun chainNo => ?_
    rw [objRuleFindAvailablePrio_after]
    exact .same fun prio => .same fun _ => .ok (_, w)
  · exact .ok (_, w)

end Chains

section Rules

theorem objRulePosInsert_forgets (r : RuleId) : Forgets (objRulePosInsert r) := by
  intro past w
  refine .same fun rule => .same fun _ => .same fun linked => ?_
  cases linked with
  | none => exact .ok w
  | some linked => exact .ok _

theorem objRuleLafInsert_forgets (r : RuleId) : Forgets (objRuleLafInsert r) := by
  intro past w
  refine .same fun rule => .same fun _ => ?_
  cases rule.haveTcr with
  | none => exact .error _
  | some haveTcr =>
    refine .same fun linked => ?_
    cases linked with
    | none => exact .ok w
    | some linked => exact .ok _

theorem objRuleRef_forgets (r : RuleId) : Forgets (objRuleRef r) :=
  fun _ _ => .same fun _ => .ok _

theorem objTargetWeakUnref_forgets (t : TargetId) : Forgets (objTargetWeakUnref t) :=
  fun _ _ => .same fun _ => .same fun _ => .ok _

theorem objRuleUnsetTarget_forgets (r : RuleId) : Forgets (objRuleUnsetTarget r) := by
  intro past w
  refine .same fun rule => ?_
  cases rule.target with
  | none => exact .ok w
  | some t => exact (objTargetWeakUnref_forgets t past w).bind fun w => .ok _

theorem objRuleReap_forgets (r : RuleId) : Forgets (objRuleReap r) := by
  intro past w
  refine .same fun rule => .same fun _ => ?_
  refine (objRuleUnsetTarget_forgets r past _).bind fun w => ?_
  exact .same fun rule => .same fun obj => .same fun cnt => .ok _

theorem objRulePrimeRequest_forgets (tcr : TcRule) : ForgetsBeside (objRulePrimeRequest tcr) := by
  intro past w
  refine .same fun found => ?_
  cases found with
  | some r =>
    refine (objRuleRef_forgets r past w).bind fun w => ?_
    refine .same fun rule => .same fun _ => .same fun _ => .same fun _ => ?_
    exact (objRuleRef_forgets r past _).bind fun w => .ok (_, w)
  | none =>
    refine (schedBasicPlace_forgets tcr past w).bind fun placed => ?_
    obtain ⟨place, w⟩ := placed
    cases place with
    | none => exact .ok (_, w)
    | some position =>
      refine (objRuleRef_forgets _ past _).bind fun w => ?_
      exact (objRulePosInsert_forgets _ past w).bind fun w => .ok (_, w)

end Rules

section Procedures

variable {c : Calls}

theorem objRuleUninstall_forgets (forget : c.Forget) (r : RuleId) :
    Forgets (objRuleUninstall c r) :=
  fun past _ => .same fun _ => forget.updateState r past _

theorem objRuleUnref_forgets (forget : c.Forget) (r : RuleId) : Forgets (objRuleUnref c r) := by
  intro past w
  have recheck : Forgets (fun w => do
      require Fault.freedObject ((w.rules.cell r).obj.kind = .rule ∨ w.poisoned = false)
      if objIsReapable w.mode (w.rules.cell r).obj then objRuleReap r w else pure w) :=
    fun past w => .same fun _ => .ite Iff.rfl (objRuleReap_forgets r past w) (.ok w)
  refine .same fun rule => .same fun obj => .ite Iff.rfl ?_ (recheck past _)
  exact (objRuleUninstall_forgets forget r past _).bind fun w => recheck past w

theorem queueSchedule_forgets (forget : c.Forget) (tca : TcAction) :
    Forgets (queueSchedule c tca) := by
  intro past w
  have longer : ∀ filter, (past ++ w.log) ++ [TcEvent.queued tca filter] =
      past ++ (w.log ++ [.queued tca filter]) := fun filter => List.append_assoc ..
  unfold queueSchedule
  dsimp only [World.after]
  rw [longer]
  exact .ite Iff.rfl (.ok _) (forget.processLoop past _)

theorem objRuleQueueInstall_forgets (forget : c.Forget) (r : RuleId) :
    Forgets (objRuleQueueInstall c r) := by
  intro past w
  refine .ite Iff.rfl (.ok w) (.same fun rule => .same fun _ => ?_)
  exact (objRuleRef_forgets r past _).bind fun w => queueSchedule_forgets forget _ past w

theorem objRuleQueueUninstall_forgets (forget : c.Forget) (r : RuleId) :
    Forgets (objRuleQueueUninstall c r) := by
  intro past w
  refine .ite Iff.rfl (.ok w) (.same fun rule => .same fun _ => ?_)
  exact (objRuleRef_forgets r past _).bind fun w => queueSchedule_forgets forget _ past w

theorem objRuleRequest_forgets (forget : c.Forget) (tcr : TcRule) :
    ForgetsBeside (objRuleRequest c tcr) := by
  intro past w
  refine (objRulePrimeRequest_forgets tcr past w).bind fun primed => ?_
  obtain ⟨r, w⟩ := primed
  cases r with
  | none => exact .ok (_, w)
  | some r => exact (forget.updateState r past w).bind fun w => .ok (_, w)

theorem objRuleStaticWant_forgets (forget : c.Forget) (chainNo : UInt32) (prio : UInt16)
    (tcr : TcRule) : Forgets (objRuleStaticWant c chainNo prio tcr) := by
  intro past w
  refine .same fun found => .same fun _ => ?_
  exact (objRulePosInsert_forgets _ past _).bind fun w => forget.updateState _ past w

theorem objRuleDelete_forgets (forget : c.Forget) (r : RuleId) : Forgets (objRuleDelete c r) := by
  intro past w
  refine (objRuleRef_forgets r past w).bind fun w => .same fun rule => .ite Iff.rfl ?_ ?_
  · exact (forget.updateState r past _).bind fun w => objRuleUnref_forgets forget r past w
  · exact objRuleUnref_forgets forget r past _

theorem objRuleNew_forgets (forget : c.Forget) (r : RuleId) : Forgets (objRuleNew c r) := by
  intro past w
  refine (objRulePosInsert_forgets r past w).bind fun w => ?_
  exact (objRuleLafInsert_forgets r past w).bind fun w => forget.updateState r past w

/-- A report enters the history behind any past. -/
theorem hears_after (past : List TcEvent) (w : World) (note : Note) :
    (w.after past).hears note = (w.hears note).after past := by
  rw [World.hears, World.hears, World.after]
  dsimp only [World.after]
  rw [List.append_assoc]

theorem objRuleNetlinkGone_forgets (forget : c.Forget) (chainNo : UInt32) (prio : UInt16)
    (tcr : TcRule) : Forgets (objRuleNetlinkGone c chainNo prio tcr) := by
  intro past w
  unfold objRuleNetlinkGone
  rw [hears_after]
  refine .same fun found => ?_
  cases found with
  | none => exact .ok _
  | some r => exact .same fun _ => objRuleDelete_forgets forget r past _

theorem objRuleNetlinkFound_forgets (forget : c.Forget) (chainNo : UInt32) (prio : UInt16)
    (tcr : TcRule) : Forgets (objRuleNetlinkFound c chainNo prio tcr) := by
  intro past w
  unfold objRuleNetlinkFound
  rw [hears_after]
  refine .same fun found => ?_
  cases found with
  | none => exact objRuleNew_forgets forget _ past _
  | some r =>
    refine .same fun rule => .same fun _ => .same fun _ => .ite Iff.rfl (.ok _) ?_
    exact forget.updateState r past _

theorem objRuleNotified_forgets (forget : c.Forget) (note : Note) :
    Forgets (objRuleNotified c note) := by
  intro past w
  unfold objRuleNotified
  split
  · exact objRuleNetlinkFound_forgets forget _ _ _ past w
  · exact objRuleNetlinkGone_forgets forget _ _ _ past w

theorem decodeFilter_forgets (forget : c.Forget) (nlh : Nlmsg) : Forgets (decodeFilter c nlh) := by
  intro past w
  unfold decodeFilter
  split
  · exact .error _
  · exact .ok w
  · refine .ite Iff.rfl (.ite Iff.rfl ?_ ?_) (.ok w)
    · exact objRuleNetlinkGone_forgets forget _ _ _ past w
    · exact objRuleNetlinkFound_forgets forget _ _ _ past w

theorem decodeChain_forgets (nlh : Nlmsg) : Forgets (decodeChain nlh) := by
  intro past w
  unfold decodeChain
  split
  · exact .error _
  · exact .ok w
  · exact .ite Iff.rfl (.ok w) (.ite Iff.rfl (.ok w) (filterGotChain_forgets _ past w))

theorem decodeNlmsgCb_forgets (forget : c.Forget) (nlh : Nlmsg) :
    Forgets (decodeNlmsgCb c nlh) := by
  intro past w
  refine .ite Iff.rfl (decodeChain_forgets nlh past w) ?_
  exact .ite Iff.rfl (decodeFilter_forgets forget nlh past w) (.ok w)

theorem tcActionDoInstall_forgets (forget : c.Forget) (tca : TcAction) :
    Forgets (tcActionDoInstall c tca) := by
  intro past w
  have longer : ∀ filter want, (past ++ w.log) ++ [TcEvent.sent tca filter want] =
      past ++ (w.log ++ [.sent tca filter want]) := fun filter want => List.append_assoc ..
  refine .same fun nlh => ?_
  dsimp only [World.after]
  rw [longer]
  refine .ite Iff.rfl (.ite Iff.rfl (.ok _) ?_) ?_
  · exact .same fun _ => decodeNlmsgCb_forgets forget nlh past _
  · exact .same fun conn => .same fun queue => .ok _

theorem tcActionExecute_forgets (forget : c.Forget) (tca : TcAction) :
    Forgets (tcActionExecute c tca) := by
  intro past w
  have preInstall : Forgets (objRulePreInstall tca.data) :=
    fun past w => .same fun rule => .same fun _ => .ok _
  refine (preInstall past w).bind fun w => ?_
  refine (tcActionDoInstall_forgets forget tca past w).bind fun w => ?_
  exact objRuleUnref_forgets forget _ past w

theorem queueProcessLoop_forgets (forget : c.Forget) : Forgets (queueProcessLoop c) := by
  intro past w
  refine .ite Iff.rfl (.same fun taken => ?_) (.ok w)
  refine (tcActionExecute_forgets forget taken.1 past _).bind fun w => ?_
  exact .ite Iff.rfl (.ok w) (.same fun done => forget.processLoop past _)

theorem queueIsComplete_forgets (forget : c.Forget) (conn : Option ConnId) :
    Forgets (queueIsComplete c conn) := by
  intro past w
  refine .same fun done => ?_
  exact .ite Iff.rfl (forget.processLoop past _) (.ok _)

end Procedures

section Update

variable {c : Calls}

theorem objRouteReplace_forgets (forget : c.Forget) (r : RouteId) (rule old : RuleId)
    (tcr : TcRule) : Forgets (objRouteReplace c r rule old tcr) := by
  intro past w
  refine .same fun route => ?_
  cases route.rule with
  | none => exact .error _
  | some current =>
    refine (objRuleUnref_forgets forget current past w).bind fun w => ?_
    refine (objRuleRequest_forgets forget tcr past w).bind fun made => .same fun _ => ?_
    refine (objRuleUnref_forgets forget old past _).bind fun w => ?_
    exact objRuleUnref_forgets forget rule past w

theorem objRouteReinstall_forgets (forget : c.Forget) (r : RouteId) (rule targetRule : RuleId)
    (tcr : TcRule) : Forgets (objRouteReinstall c r rule targetRule tcr) := by
  intro past w
  refine .same fun route => ?_
  cases route.targetRule with
  | none => exact .error _
  | some old =>
    have install := objRouteReplace_forgets forget r rule old tcr
    refine (objRuleRef_forgets rule past w).bind fun w => ?_
    refine (objRuleRef_forgets old past w).bind fun w => .ite Iff.rfl ?_ (install past w)
    refine (objRuleUnref_forgets forget old past w).bind fun w => ?_
    refine (objRuleRef_forgets targetRule past w).bind fun w => ?_
    exact .same fun _ => install past _

theorem objRouteInstall_forgets (forget : c.Forget) (r : RouteId) :
    Forgets (objRouteInstall c r) := by
  intro past w
  refine .same fun route => ?_
  cases route.target with
  | none => exact .error _
  | some t =>
    refine .same fun target => .same fun prepared => ?_
    obtain ⟨targetRule, tcr⟩ := prepared
    cases route.rule with
    | some rule =>
      exact .same fun current => .ite Iff.rfl
        (objRouteReinstall_forgets forget r rule targetRule tcr past w) (.ok w)
    | none =>
      refine (objRuleRef_forgets targetRule past w).bind fun w => ?_
      exact (objRuleRequest_forgets forget tcr past _).bind fun made => .same fun _ => .ok _

theorem objTargetNotifyRoutes_forgets (forget : c.Forget) (t : TargetId) :
    Forgets (objTargetNotifyRoutes c t) := by
  intro past w
  refine .same fun target => .same fun isOk => .ite Iff.rfl (.foldlM ?_ _ w) (.ok w)
  exact fun w r => .same fun route => .same fun _ => objRouteInstall_forgets forget r past w

theorem objRuleUpdateState_forgets (forget : c.Forget) (r : RuleId) :
    Forgets (objRuleUpdateState c r) := by
  intro past w
  refine .ite Iff.rfl (.ok w) (.same fun rule => .ite Iff.rfl (.ok w) ?_)
  cases rule.wantTcr with
  | none =>
    cases rule.haveTcr with
    | none => exact .ite Iff.rfl (.ok _) (.ok w)
    | some haveTcr => exact objRuleQueueUninstall_forgets forget r past _
  | some wantTcr =>
    cases rule.haveTcr with
    | none => exact objRuleQueueInstall_forgets forget r past _
    | some haveTcr =>
      refine .ite Iff.rfl ?_ (objRuleQueueUninstall_forgets forget r past _)
      cases rule.target with
      | none => exact .ok _
      | some t => exact objTargetNotifyRoutes_forgets forget t past _

/-- The two functions do the same behind any past, at every depth. -/
theorem calls_forget (depth : Nat) : (calls depth).Forget := by
  induction depth with
  | zero => exact ⟨fun _ _ _ => .error _, fun _ _ => .error _⟩
  | succ depth ih => exact ⟨objRuleUpdateState_forgets ih, queueProcessLoop_forgets ih⟩

theorem objRuleRemovePinPass_forgets (forget : c.Forget) (rounds : Nat) (r : Option RuleId) :
    Forgets (objRuleRemovePinPass c rounds r) := by
  intro past w
  induction rounds generalizing r w with
  | zero =>
    cases r with
    | none => exact .ok w
    | some r => exact .error _
  | succ rounds ih =>
    cases r with
    | none => exact .ok w
    | some r =>
      exact (forget.updateState r past w).bind fun w => .same fun next => ih next w

theorem objRuleRemovePin_forgets (forget : c.Forget) (rounds : Nat) :
    Forgets (objRuleRemovePin c rounds) := by
  intro past w
  refine .ite Iff.rfl (.ok w) (.foldlM ?_ _ w)
  exact fun w pin => objRuleRemovePinPass_forgets forget rounds _ past { w with pinChanges := pin }

end Update

section Events

/-- Owners whose world is behind more of a past. -/
def Owners.after (past : List TcEvent) (s : Owners) : Owners :=
  { s with world := s.world.after past }

/-- An event does the same behind any past. -/
theorem RuleEvent.run_forgets (bound : Nat) (e : RuleEvent) (past : List TcEvent) (s : Owners) :
    Maps (Owners.after past) (e.run bound s) (e.run bound (s.after past)) := by
  have forget := calls_forget bound
  obtain ⟨w, loans⟩ := s
  cases e with
  | staticWant chainNo prio tcr =>
    exact (objRuleStaticWant_forgets forget chainNo prio tcr past w).bind fun w => .ok _
  | request tcr =>
    refine (objRuleRequest_forgets forget tcr past w).bind fun made => ?_
    obtain ⟨r, w⟩ := made
    cases r with
    | none => exact .ok _
    | some r => exact .ok _
  | uninstall r => exact (objRuleUninstall_forgets forget r past w).bind fun w => .ok _
  | ref r => exact (objRuleRef_forgets r past w).bind fun w => .ok _
  | unref r => exact (objRuleUnref_forgets forget r past w).bind fun w => .ok _
  | removePin => exact (objRuleRemovePin_forgets forget bound past w).bind fun w => .ok _
  | message nlmsgType chainNo prio tcr =>
    refine Maps.bind (show Maps (World.after past) _ _ from .ite Iff.rfl ?_ ?_) fun w => .ok _
    · exact objRuleNetlinkGone_forgets forget chainNo prio tcr past w
    · exact objRuleNetlinkFound_forgets forget chainNo prio tcr past w
  | completed => exact (queueIsComplete_forgets forget _ past w).bind fun w => .ok _
  | notified =>
    show Maps _ (RuleEvent.notified.run bound ⟨w, loans⟩) (RuleEvent.notified.run bound
      ⟨w.after past, loans⟩)
    unfold RuleEvent.run
    dsimp only [World.after]
    cases w.kernel.notes with
    | nil => exact .ok _
    | cons note notes =>
      exact (objRuleNotified_forgets forget note past _).bind fun w => .ok _
  | foreign note => exact .ok _
  | echoing echoes => exact .ok _

/-- So does the receipt of a message. -/
theorem MonitorEvent.run_forgets (bound : Nat) (e : MonitorEvent) (past : List TcEvent)
    (s : Owners) : Maps (Owners.after past) (e.run bound s) (e.run bound (s.after past)) := by
  cases e with
  | rule e => exact e.run_forgets bound past s
  | received nlh =>
    exact (decodeNlmsgCb_forgets (calls_forget bound) nlh past s.world).bind fun w => .ok _

end Events

end FlowerRoute
