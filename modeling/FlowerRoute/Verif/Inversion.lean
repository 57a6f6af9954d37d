import FlowerRoute.Verif.Procedures

/-!
# What a function did

The ways in which the functions on rules return, for arguments that follow single calls rather
than an invariant of all effects.
-/

namespace FlowerRoute

open Outcome

variable {c : Calls} {w w' : World} {r : RuleId}

/-- What `obj_rule_update_state` did. -/
inductive Updated (c : Calls) (r : RuleId) (w w' : World) : Prop
  /-- It returned early. -/
  | skipped : Skips w.pinChanges (w.rules.cell r) → w' = w → Updated c r w w'
  /-- It only set the state. -/
  | settled (state : ObjRuleState) : w.pinChanges ≠ 0 → w.Live r →
      (w.rules.cell r).state ≠ .queued → Settles w.pinChanges (w.rules.cell r) state →
      w' = w.setRule r (fun rule => { rule with state }) → Updated c r w w'
  /-- It notified the routes of the rule's target. -/
  | confirmed (t : TargetId) : w.pinChanges ≠ 0 → w.Live r →
      (w.rules.cell r).state ≠ .queued → (w.rules.cell r).haveTcr ≠ none →
      (w.rules.cell r).wantTcr = (w.rules.cell r).haveTcr → (w.rules.cell r).target = some t →
      objTargetNotifyRoutes c t (w.setRule r fun rule => { rule with state := .ok }) = .ok w' →
      Updated c r w w'
  /-- It queued an action. -/
  | scheduled (tca : TcAction) : tca.data = r → w.pinChanges ≠ 0 → w.Live r →
      (w.rules.cell r).state ≠ .queued → tca.chainNo = (w.rules.cell r).chainNo →
      tca.prio = (w.rules.cell r).prio → Requests w.pinChanges (w.rules.cell r) tca.tcr →
      queueSchedule c tca (w.setRule r fun rule =>
        { rule with state := .queued, obj := objRef rule.obj }) = .ok w' → Updated c r w w'

/-- `obj_rule_queue_uninstall` returns at its pin or queues a removal. -/
theorem objRuleQueueUninstall_updated (live : w.Live r) (removed : w.pinChanges ≠ 0)
    (idle : (w.rules.cell r).state ≠ .queued) (present : (w.rules.cell r).haveTcr ≠ none)
    (differs : (w.rules.cell r).wantTcr ≠ (w.rules.cell r).haveTcr)
    (ran : objRuleQueueUninstall c r (w.setRule r fun rule => { rule with state := .alien }) =
      .ok w') : Updated c r w w' := by
  by_cases pins : w.pinChanges < 3
  · rw [objRuleQueueUninstall, pinChanges_setRule, if_pos pins] at ran
    cases ran
    exact .settled _ removed live idle (.alien present differs pins) rfl
  · have three := Nat.not_lt.mp pins
    rw [objRuleQueueUninstall_eq live three] at ran
    exact .scheduled _ rfl removed live idle rfl rfl (.uninstall present differs three) ran

/-- `obj_rule_queue_install` returns at its pin or queues an install. -/
theorem objRuleQueueInstall_updated (live : w.Live r) (removed : w.pinChanges ≠ 0)
    (idle : (w.rules.cell r).state ≠ .queued) (wanted : (w.rules.cell r).wantTcr ≠ none)
    (absent : (w.rules.cell r).haveTcr = none)
    (ran : objRuleQueueInstall c r (w.setRule r fun rule => { rule with state := .want }) =
      .ok w') : Updated c r w w' := by
  by_cases pins : w.pinChanges < 2
  · rw [objRuleQueueInstall, pinChanges_setRule, if_pos pins] at ran
    cases ran
    exact .settled _ removed live idle (.want wanted absent pins) rfl
  · have two := Nat.not_lt.mp pins
    rw [objRuleQueueInstall_eq live two] at ran
    exact .scheduled _ rfl removed live idle rfl rfl (.install wanted absent two) ran

/-- What `obj_rule_update_state` did when it returned. -/
theorem objRuleUpdateState_updated (ran : objRuleUpdateState c r w = .ok w') :
    Updated c r w w' := by
  rw [objRuleUpdateState] at ran
  split at ran
  · next pinned =>
    cases ran
    exact .skipped (.pinned pinned) rfl
  · next removed =>
    obtain ⟨rule, followed, ran⟩ := bind_returned ran
    obtain ⟨live, rfl⟩ := rule_ok followed
    split at ran
    · next queued =>
      cases ran
      exact .skipped (.queued queued) rfl
    · next idle =>
      cases want : (w.rules.cell r).wantTcr with
      | none =>
        cases present : (w.rules.cell r).haveTcr with
        | none =>
          simp only [want, present] at ran
          split at ran
          · next state =>
            cases ran
            exact .settled _ removed live idle (.zombie want present state) rfl
          · next state =>
            cases ran
            exact .skipped (.new want present (not_not.mp state)) rfl
        | some tcr =>
          simp only [want, present] at ran
          exact objRuleQueueUninstall_updated live removed idle (by simp [present])
            (by simp [want, present]) ran
      | some tcr =>
        cases present : (w.rules.cell r).haveTcr with
        | none =>
          simp only [want, present] at ran
          exact objRuleQueueInstall_updated live removed idle (by simp [want]) present ran
        | some other =>
          simp only [want, present] at ran
          split at ran
          · next same =>
            subst same
            cases target : (w.rules.cell r).target with
            | none =>
              simp only [target] at ran
              cases ran
              exact .settled _ removed live idle
                (.ok (by simp [present]) (by rw [want, present]) target) rfl
            | some t =>
              simp only [target] at ran
              exact .confirmed t removed live idle (by simp [present]) (by rw [want, present])
                target ran
          · next differ =>
            exact objRuleQueueUninstall_updated live removed idle (by simp [present])
              (by simpa [want, present] using differ) ran

/-- An action that a kernel without echo executes: what is left to do is the release of its
reference. -/
theorem tcActionExecute_silent (silent : w.kernel.echoes = false) {tca : TcAction}
    {queue : Queue TcAction} (ran : tcActionExecute c tca { w with queue } = .ok w') :
    w.Live tca.data ∧ objRuleUnref c tca.data (w.executed tca queue) = .ok w' := by
  obtain ⟨w₁, pre, ran⟩ := bind_returned ran
  obtain ⟨rule, followed, pre⟩ := bind_returned pre
  obtain ⟨live, rfl⟩ := rule_ok followed
  obtain ⟨_, -, pre⟩ := bind_returned pre
  cases pre
  obtain ⟨w₂, sent, unrefs⟩ := bind_returned ran
  obtain ⟨nlh, -, sent⟩ := bind_returned sent
  refine ⟨live, ?_⟩
  have quiet : (w.answer tca).1.echoes = false := by
    simp only [World.answer, Kernel.request]
    split <;> exact silent
  change (if (w.answer tca).1.echoes then
    if (w.answer tca).2 = [] then pure _ else tcInstallHandler c nlh tca _ else _) = _ at sent
  rw [if_neg (by rw [quiet]; exact Bool.false_ne_true)] at sent
  obtain ⟨conn, -, sent⟩ := bind_returned sent
  obtain ⟨marked, has, sent⟩ := bind_returned sent
  obtain ⟨_, -, has⟩ := bind_returned has
  cases has
  cases sent
  have same : w.executed tca queue = { World.setRule { w with queue } tca.data fun rule =>
      { rule with state := .pending } with
      kernel := { (w.answer tca).1 with notes := (w.answer tca).1.notes ++ (w.answer tca).2 }
      log := w.log ++ [.sent tca (w.kernel.filters tca.chainNo tca.prio)
        ((World.setRule { w with queue } tca.data fun rule =>
          { rule with state := .pending }).rules.cell tca.data).wantTcr]
      queue := { queue with hasSentRequest := true } } := by
    rw [cell_setRule]
    simp [World.executed, silent, World.setRule]
  rw [same]
  exact unrefs

/-- A started queue is busy and has not sent a request. -/
theorem queueProcess_started {q queue : Queue TcAction} {tca : TcAction}
    (started : q.queueProcess = .ok (tca, queue)) :
    queue.isBusy = true ∧ queue.hasSentRequest = false := by
  obtain ⟨_, -, rfl⟩ := Queue.queueProcess_ok started
  exact ⟨rfl, rfl⟩

/-- A queue whose request was completed was busy and is not any more. -/
theorem handleQueueCompleted_busy {q queue : Queue TcAction} {conn : Option ConnId}
    {tca : TcAction} (completed : q.handleQueueCompleted conn = .ok (tca, queue)) :
    q.isBusy = true ∧ queue.isBusy = false := by
  obtain ⟨busy, _, -, rfl⟩ := Queue.handleQueueCompleted_ok completed
  exact ⟨busy, rfl⟩

/-- The completion of a request does not send one. -/
theorem handleQueueCompleted_sent {q queue : Queue TcAction} {conn : Option ConnId}
    {tca : TcAction} (completed : q.handleQueueCompleted conn = .ok (tca, queue)) :
    queue.hasSentRequest = q.hasSentRequest := by
  obtain ⟨-, _, -, rfl⟩ := Queue.handleQueueCompleted_ok completed
  rfl

/-- A queue that has nothing to execute and no request outstanding is empty. -/
theorem waiting_stopped (stopped : w.queue.canProcess = false) (idle : w.queue.isBusy = false) :
    w.waiting = [] := by
  have empty : w.queue.items = [] := by simpa [Queue.canProcess, idle] using stopped
  rw [World.waiting, empty]
  rfl

/-- Nothing waits unless a request is outstanding. -/
def Still (w : World) : Prop := w.queue.isBusy = false → w.waiting = []

/-- A call that returned ran one of the two functions at some depth. -/
structure RunsTheTwo (c : Calls) : Prop where
  updateState : ∀ {r : RuleId} {w w' : World}, c.objRuleUpdateState r w = .ok w' →
    ∃ depth, objRuleUpdateState (calls depth) r w = .ok w'
  processLoop : ∀ {w w' : World}, c.queueProcessLoop w = .ok w' →
    ∃ depth, queueProcessLoop (calls depth) w = .ok w'

theorem calls_runs (depth : Nat) : RunsTheTwo (calls depth) := by
  cases depth with
  | zero => exact ⟨fun ran => (nomatch ran), fun ran => (nomatch ran)⟩
  | succ depth => exact ⟨fun ran => ⟨depth, ran⟩, fun ran => ⟨depth, ran⟩⟩

/-- The end of `obj_route_install` for a route that has a rule: the route gets a new one. -/
def objRouteReplace (c : Calls) (r : RouteId) (rule old : RuleId) (tcr : TcRule) (w : World) :
    Except Fault World := do
  let route ← w.route r
  match route.rule with
  | none => .error .nullPointer
  | some current =>
    let w ← objRuleUnref c current w
    let (new, w) ← objRuleRequest c tcr w
    let _ ← w.route r
    let w := w.setRoute r fun route => { route with rule := new }
    let w ← objRuleUnref c old w
    objRuleUnref c rule w

end FlowerRoute
