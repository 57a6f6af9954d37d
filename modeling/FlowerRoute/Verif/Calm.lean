import FlowerRoute.Verif.Inversion

/-!
# A queue at rest

Under a kernel that reports inside the call that sends a request, every call on the rules leaves
the queue as busy as it was, and leaves nothing waiting in an idle queue in which nothing waited.
-/

namespace FlowerRoute

open Outcome

/-- What a call does to the queue. -/
structure Calmed (w w' : World) : Prop where
  echoes : w'.kernel.echoes = w.kernel.echoes
  busy : w'.queue.isBusy = w.queue.isBusy
  unsent : w.queue.hasSentRequest = false → w'.queue.hasSentRequest = false
  still : Still w → Still w'

/-- The two functions leave the queue at rest. -/
structure Calms (c : Calls) : Prop where
  updateState : ∀ (r : RuleId) {w : World}, w.kernel.echoes = true →
    Returns (Calmed w) (c.objRuleUpdateState r w)
  processLoop : ∀ {w : World}, w.kernel.echoes = true →
    Returns (fun w' => Calmed w w' ∧ Still w') (c.queueProcessLoop w)

section Steps

variable {c : Calls} {w w' w'' : World}

namespace Calmed

theorem refl (w : World) : Calmed w w := ⟨rfl, rfl, id, id⟩

theorem trans (first : Calmed w w') (second : Calmed w' w'') : Calmed w w'' where
  echoes := second.echoes.trans first.echoes
  busy := second.busy.trans first.busy
  unsent := second.unsent ∘ first.unsent
  still := second.still ∘ first.still

/-- A step that does not touch the queue. -/
theorem of_same (queue : w'.queue = w.queue) (echoes : w'.kernel.echoes = w.kernel.echoes) :
    Calmed w w' := by
  refine ⟨echoes, by rw [queue], by rw [queue]; exact id, ?_⟩
  rw [Still, Still, World.waiting, World.waiting, queue]
  exact id

/-- A call after another. -/
theorem bind {first : Except Fault World} {next : World → Except Fault World}
    (head : Returns (Calmed w) first)
    (tail : ∀ w', Calmed w w' → Returns (Calmed w') (next w')) :
    Returns (Calmed w) (first >>= next) :=
  Ends.bind head fun w' step => (tail w' step).mono fun _ more => step.trans more

/-- A step, then a call. -/
theorem step {result : Except Fault World} (first : Calmed w w')
    (tail : Returns (Calmed w') result) : Returns (Calmed w) result :=
  tail.mono fun _ more => first.trans more

end Calmed

/-- A rule is written to. -/
theorem calmed_setRule (w : World) (r : RuleId) (f : ObjRule → ObjRule) :
    Calmed w (w.setRule r f) := .of_same rfl rfl

/-- A route is written to. -/
theorem calmed_setRoute (w : World) (r : RouteId) (f : ObjRoute → ObjRoute) :
    Calmed w (w.setRoute r f) := .of_same rfl rfl

theorem objRuleRef_calmed (r : RuleId) (w : World) : Returns (Calmed w) (objRuleRef r w) :=
  returns_bind fun _ _ => calmed_setRule ..

theorem objRuleReap_calmed (r : RuleId) (w : World) : Returns (Calmed w) (objRuleReap r w) := by
  rw [returns_iff]
  intro w' reaped
  obtain ⟨rfl, -⟩ := objRuleReap_ok reaped
  apply Calmed.of_same
  · simp [World.reaped, World.setRule]
  · simp [World.reaped, World.setRule]

theorem objRulePosInsert_calmed (r : RuleId) (w : World) :
    Returns (Calmed w) (objRulePosInsert r w) := by
  rw [returns_iff]
  intro w' inserted
  obtain ⟨-, -, linked, -, same⟩ := objRulePosInsert_ok inserted
  cases linked with
  | none => exact same ▸ .refl w
  | some linked =>
    subst same
    exact .of_same rfl rfl

theorem objRuleLafInsert_calmed (r : RuleId) (w : World) :
    Returns (Calmed w) (objRuleLafInsert r w) := by
  rw [returns_iff]
  intro w' inserted
  obtain ⟨-, -, tcr, linked, -, -, same⟩ := objRuleLafInsert_ok inserted
  cases linked with
  | none => exact same ▸ .refl w
  | some linked =>
    subst same
    exact .of_same rfl rfl

theorem schedBasicPlace_calmed (tcr : TcRule) (w : World) :
    Returns (fun result => Calmed w result.2) (schedBasicPlace tcr w) := by
  refine (schedBasicPlace_returns tcr w).mono fun result placed => ?_
  obtain ⟨⟨chainTree, same⟩, -⟩ := placed
  rw [same]
  exact .of_same rfl rfl

theorem objRulePrimeRequest_calmed (tcr : TcRule) (w : World) :
    Returns (fun result => Calmed w result.2) (objRulePrimeRequest tcr w) := by
  refine returns_bind fun found _ => ?_
  cases found with
  | some r =>
    refine Ends.bind (objRuleRef_calmed r w) fun w₁ first => ?_
    refine returns_bind fun rule _ => ?_
    refine returns_require fun _ => returns_require fun _ => returns_require fun _ => ?_
    refine Ends.bind (objRuleRef_calmed r _) fun w₂ second => ?_
    have middle : Calmed w₁ (World.setRule
        { w₁ with lafTree := w₁.balancing.erase r w₁.lafTree } r fun rule =>
          { rule with wantTcr := some tcr, haveLaf := false }) := .of_same rfl rfl
    exact (first.trans middle).trans second
  | none =>
    refine Ends.bind (schedBasicPlace_calmed tcr w) fun ⟨place, w₁⟩ placed => ?_
    cases place with
    | none => exact placed
    | some position =>
      obtain ⟨chainNo, prio⟩ := position
      have alloc : Calmed w₁ (objRuleAlloc { chainNo, prio, wantTcr := some tcr } w₁).2 :=
        .of_same rfl rfl
      refine Ends.bind (objRuleRef_calmed w₁.rules.next _) fun w₂ counted => ?_
      refine Ends.bind (objRulePosInsert_calmed w₁.rules.next w₂) fun w₃ inserted => ?_
      exact ((placed.trans alloc).trans counted).trans inserted

end Steps

section Calls

variable {c : Calls} {w : World}

theorem objRuleUninstall_calmed (calms : Calms c) (r : RuleId) (echoes : w.kernel.echoes = true) :
    Returns (Calmed w) (objRuleUninstall c r w) := by
  refine returns_bind fun _ _ => ?_
  exact (calmed_setRule ..).step (calms.updateState r echoes)

theorem objRuleUnref_calmed (calms : Calms c) (r : RuleId) (echoes : w.kernel.echoes = true) :
    Returns (Calmed w) (objRuleUnref c r w) := by
  have recheck : ∀ w : World, Returns (Calmed w) (do
      require Fault.freedObject ((w.rules.cell r).obj.kind = .rule ∨ w.poisoned = false)
      if objIsReapable w.mode (w.rules.cell r).obj then objRuleReap r w else pure w) := by
    intro w
    refine returns_require fun _ => ?_
    split
    · exact objRuleReap_calmed r w
    · exact .refl w
  refine returns_bind fun rule _ => returns_bind fun obj _ => ?_
  refine (calmed_setRule w r fun rule => { rule with obj }).step ?_
  dsimp only
  split
  · exact Calmed.bind (objRuleUninstall_calmed calms r echoes) fun w' _ => recheck w'
  · exact Calmed.bind (Calmed.refl _) fun w' _ => recheck w'

theorem queueSchedule_calmed (calms : Calms c) (tca : TcAction) (echoes : w.kernel.echoes = true) :
    Returns (Calmed w) (queueSchedule c tca w) := by
  rw [queueSchedule]
  dsimp only
  split
  · next busy =>
    refine ⟨rfl, rfl, id, fun _ idle => ?_⟩
    rw [busy] at idle
    cases idle
  · refine (calms.processLoop (w := { w with
      queue := w.queue.enqueue tca
      log := w.log ++ [.queued tca (w.kernel.filters tca.chainNo tca.prio)] }) echoes).mono
        fun w' both => ?_
    obtain ⟨step, still⟩ := both
    exact ⟨step.echoes, step.busy, step.unsent, fun _ => still⟩

theorem objRuleRequest_calmed (calms : Calms c) (tcr : TcRule) (echoes : w.kernel.echoes = true) :
    Returns (fun result => Calmed w result.2) (objRuleRequest c tcr w) := by
  refine Ends.bind (objRulePrimeRequest_calmed tcr w) fun ⟨r, w'⟩ primed => ?_
  cases r with
  | none => exact primed
  | some r =>
    refine Ends.bind (calms.updateState r (primed.echoes.trans echoes)) fun w'' updated => ?_
    exact primed.trans updated

theorem objRuleDelete_calmed (calms : Calms c) (r : RuleId) (echoes : w.kernel.echoes = true) :
    Returns (Calmed w) (objRuleDelete c r w) := by
  refine Calmed.bind (objRuleRef_calmed r w) fun w₁ first => ?_
  refine (calmed_setRule w₁ r fun rule => { rule with
    obj := { rule.obj with state := .present }, haveTcr := none }).step ?_
  refine returns_bind fun rule _ => ?_
  have echoes₁ : w₁.kernel.echoes = true := first.echoes.trans echoes
  have unref : ∀ w' : World, Calmed w₁ w' → Returns (Calmed w') (objRuleUnref c r w') :=
    fun w' step => objRuleUnref_calmed calms r (step.echoes.trans echoes₁)
  dsimp only
  split
  · refine Calmed.bind (calms.updateState r echoes₁) fun w' step => unref w' ?_
    exact (calmed_setRule ..).trans step
  · exact Calmed.bind (Calmed.refl _) fun w' step => unref w' ((calmed_setRule ..).trans step)

theorem objRuleNew_calmed (calms : Calms c) (r : RuleId) (echoes : w.kernel.echoes = true) :
    Returns (Calmed w) (objRuleNew c r w) := by
  refine Calmed.bind (objRulePosInsert_calmed r w) fun w₁ first => ?_
  refine Calmed.bind (objRuleLafInsert_calmed r w₁) fun w₂ second => ?_
  exact calms.updateState r ((first.trans second).echoes.trans echoes)

theorem objRuleNotified_calmed (calms : Calms c) (note : Note) (echoes : w.kernel.echoes = true) :
    Returns (Calmed w) (objRuleNotified c note w) := by
  have heard : Calmed w (w.hears note) := .of_same rfl rfl
  rw [objRuleNotified]
  split
  · next tcr same =>
    rw [objRuleNetlinkFound]
    have this : (⟨note.chainNo, note.prio, some tcr⟩ : Note) = note := by rw [← same]
    rw [this]
    refine heard.step (returns_bind fun found _ => ?_)
    cases found with
    | none =>
      have alloc : Calmed (w.hears note) (objRuleAlloc
          { chainNo := note.chainNo, prio := note.prio, haveTcr := some tcr,
            obj := { state := .installed } } (w.hears note)).2 := .of_same rfl rfl
      exact alloc.step (objRuleNew_calmed calms _ echoes)
    | some r =>
      refine returns_bind fun rule _ => returns_require fun _ => returns_require fun _ => ?_
      split
      · exact .refl _
      · exact (calmed_setRule ..).step (calms.updateState r echoes)
  · next same =>
    rw [objRuleNetlinkGone]
    have this : (⟨note.chainNo, note.prio, none⟩ : Note) = note := by rw [← same]
    rw [this]
    refine heard.step (returns_bind fun found _ => ?_)
    cases found with
    | none => exact .refl _
    | some r => exact returns_bind fun _ _ => objRuleDelete_calmed calms r echoes

theorem tcActionExecute_calmed (calms : Calms c) (tca : TcAction)
    (echoes : w.kernel.echoes = true) : Returns (Calmed w) (tcActionExecute c tca w) := by
  have prepared : Returns (Calmed w) (objRulePreInstall tca.data w) := by
    exact returns_bind fun _ _ => returns_require fun _ => calmed_setRule ..
  refine Calmed.bind prepared fun w₁ first => ?_
  have echoes₁ := first.echoes.trans echoes
  refine Calmed.bind ?_ fun w₂ second => ?_
  · rw [tcActionDoInstall]
    refine returns_bind fun nlh encoded => ?_
    rw [echoes₁] at encoded
    have kept : (w₁.answer tca).1.echoes = true := (answer_echoes tca).trans echoes₁
    have sent : Calmed w₁ { w₁ with
        kernel := (w₁.answer tca).1
        log := w₁.log ++ [.sent tca (w₁.kernel.filters tca.chainNo tca.prio)
          (w₁.rules.cell tca.data).wantTcr] } := .of_same rfl (answer_echoes tca)
    refine Eq.mpr (congrArg _ (if_pos kept)) (sent.step ?_)
    split
    · exact Calmed.refl _
    · exact tcInstallHandler_returns encoded (objRuleNotified_calmed calms _ kept)
  · exact objRuleUnref_calmed calms tca.data (second.echoes.trans echoes₁)

theorem objRouteReinstall_calmed (calms : Calms c) (r : RouteId) (rule targetRule : RuleId)
    (tcr : TcRule) (echoes : w.kernel.echoes = true) :
    Returns (Calmed w) (objRouteReinstall c r rule targetRule tcr w) := by
  refine returns_bind fun route _ => ?_
  split
  · trivial
  next old _ =>
  have replace : ∀ w : World, w.kernel.echoes = true → Returns (Calmed w)
      (objRouteReplace c r rule old tcr w) := by
    intro w echoes
    refine returns_bind fun route _ => ?_
    split
    · trivial
    next current _ =>
    refine Calmed.bind (objRuleUnref_calmed calms current echoes) fun w₁ first => ?_
    have echoes₁ := first.echoes.trans echoes
    refine Ends.bind (objRuleRequest_calmed calms tcr echoes₁) fun result second => ?_
    obtain ⟨new, w₂⟩ := result
    refine returns_bind fun _ _ => ?_
    have echoes₂ : w₂.kernel.echoes = true := second.echoes.trans echoes₁
    refine second.step ((calmed_setRoute w₂ r fun route => { route with rule := new }).step ?_)
    refine Calmed.bind (objRuleUnref_calmed calms old echoes₂) fun w₃ third => ?_
    exact objRuleUnref_calmed calms rule (third.echoes.trans echoes₂)
  refine Calmed.bind (objRuleRef_calmed rule w) fun w₁ first => ?_
  have echoes₁ := first.echoes.trans echoes
  refine Calmed.bind (objRuleRef_calmed old w₁) fun w₂ second => ?_
  have echoes₂ := second.echoes.trans echoes₁
  dsimp only
  split
  · refine Calmed.bind (objRuleUnref_calmed calms old echoes₂) fun w₃ third => ?_
    have echoes₃ := third.echoes.trans echoes₂
    refine Calmed.bind (objRuleRef_calmed targetRule w₃) fun w₄ fourth => ?_
    refine returns_bind fun _ _ => ?_
    exact (calmed_setRoute w₄ r fun route =>
      { route with targetRule := some targetRule }).step (replace _ (fourth.echoes.trans echoes₃))
  · exact replace w₂ echoes₂

theorem objRouteInstall_calmed (calms : Calms c) (r : RouteId) (echoes : w.kernel.echoes = true) :
    Returns (Calmed w) (objRouteInstall c r w) := by
  refine returns_bind fun route _ => ?_
  split
  · trivial
  · refine returns_bind fun target _ => returns_bind fun ⟨targetRule, tcr⟩ _ => ?_
    dsimp only
    split
    · refine returns_bind fun current _ => ?_
      split
      · exact objRouteReinstall_calmed calms r _ targetRule tcr echoes
      · exact .refl w
    · refine Calmed.bind (objRuleRef_calmed targetRule w) fun w₁ first => ?_
      refine (calmed_setRoute w₁ r fun route =>
        { route with targetRule := some targetRule }).step ?_
      have echoes₁ : w₁.kernel.echoes = true := first.echoes.trans echoes
      refine Ends.bind (objRuleRequest_calmed calms tcr echoes₁) fun result second => ?_
      obtain ⟨new, w₂⟩ := result
      exact returns_bind fun _ _ => second.trans (calmed_setRoute w₂ r _)

theorem objTargetNotifyRoutes_calmed (calms : Calms c) (t : TargetId)
    (echoes : w.kernel.echoes = true) : Returns (Calmed w) (objTargetNotifyRoutes c t w) := by
  refine returns_bind fun target _ => returns_bind fun ok _ => ?_
  split
  · refine @ends_foldlM _ _ _ _ (Calmed w) _ _ _ (.refl w) fun r _ w' step => ?_
    refine returns_bind fun route _ => returns_require fun _ => ?_
    exact step.step (objRouteInstall_calmed calms r (step.echoes.trans echoes))
  · exact .refl w

theorem objRuleUpdateState_calmed (calms : Calms c) (r : RuleId)
    (echoes : w.kernel.echoes = true) : Returns (Calmed w) (objRuleUpdateState c r w) := by
  rw [returns_iff]
  intro w' ran
  cases objRuleUpdateState_updated ran with
  | skipped _ same => exact same ▸ .refl w
  | settled state _ _ _ _ same => exact same ▸ calmed_setRule ..
  | confirmed t _ _ _ _ _ _ ran =>
    have notified := objTargetNotifyRoutes_calmed (w := w.setRule r fun rule =>
      { rule with state := .ok }) calms t echoes
    exact (calmed_setRule ..).trans (notified.of_ok ran)
  | scheduled tca _ _ _ _ _ _ _ ran =>
    have scheduled := queueSchedule_calmed (w := w.setRule r fun rule =>
      { rule with state := .queued, obj := objRef rule.obj }) calms tca echoes
    exact (calmed_setRule ..).trans (scheduled.of_ok ran)

theorem queueProcessLoop_calmed (calms : Calms c) (echoes : w.kernel.echoes = true) :
    Returns (fun w' => Calmed w w' ∧ Still w') (queueProcessLoop c w) := by
  rw [queueProcessLoop]
  split
  · next can =>
    have idle : w.queue.isBusy = false := by
      simp only [Queue.canProcess, Bool.and_eq_true, Bool.not_eq_true'] at can
      exact can.2
    refine returns_bind fun result started => ?_
    obtain ⟨tca, queue⟩ := result
    obtain ⟨busy, unsent⟩ := queueProcess_started started
    refine Ends.bind (tcActionExecute_calmed (w := { w with queue }) calms tca echoes)
      fun w₁ first => ?_
    have unsent₁ := first.unsent unsent
    have echoes₁ : w₁.kernel.echoes = true := first.echoes.trans echoes
    rw [if_neg (by rw [unsent₁]; exact Bool.false_ne_true)]
    refine returns_bind fun result completed => ?_
    obtain ⟨_, queue'⟩ := result
    have idle' := (handleQueueCompleted_busy completed).2
    have unsent' := handleQueueCompleted_sent completed
    refine (calms.processLoop (w := { w₁ with queue := queue' }) echoes₁).mono fun w' both => ?_
    obtain ⟨last, still⟩ := both
    refine ⟨⟨?_, ?_, ?_, fun _ => still⟩, still⟩
    · exact last.echoes.trans first.echoes
    · rw [last.busy, idle, idle']
    · intro _
      exact last.unsent (unsent'.trans unsent₁)
  · next stopped =>
    exact ⟨.refl w, fun idle => waiting_stopped (by simpa using stopped) idle⟩

/-- At every bound on the depth of calls. -/
theorem calls_calms (depth : Nat) : Calms (calls depth) := by
  induction depth with
  | zero => exact ⟨fun _ _ _ => trivial, fun _ => trivial⟩
  | succ depth ih =>
    constructor
    · exact fun r _ echoes => objRuleUpdateState_calmed ih r echoes
    · exact fun echoes => queueProcessLoop_calmed ih echoes

theorem objRuleStaticWant_calmed (calms : Calms c) (chainNo : UInt32) (prio : UInt16)
    (tcr : TcRule) (echoes : w.kernel.echoes = true) :
    Returns (Calmed w) (objRuleStaticWant c chainNo prio tcr w) := by
  refine returns_bind fun _ _ => returns_require fun _ => ?_
  have alloc : Calmed w (objRuleAlloc {
    chainNo, prio, type := .static, wantTcr := some tcr } w).2 := .of_same rfl rfl
  refine alloc.step (Calmed.bind (objRulePosInsert_calmed _ _) fun w' step => ?_)
  exact calms.updateState _ ((alloc.trans step).echoes.trans echoes)

theorem objRuleRemovePinPass_calmed (calms : Calms c) (rounds : Nat) (r : Option RuleId)
    (echoes : w.kernel.echoes = true) : Returns (Calmed w) (objRuleRemovePinPass c rounds r w) := by
  induction rounds generalizing r w with
  | zero =>
    cases r with
    | none => exact .refl w
    | some r => trivial
  | succ rounds ih =>
    cases r with
    | none => exact .refl w
    | some r =>
      refine Calmed.bind (calms.updateState r echoes) fun w' step => returns_bind fun next _ => ?_
      exact ih next (step.echoes.trans echoes)

theorem objRuleRemovePin_calmed (calms : Calms c) (rounds : Nat)
    (echoes : w.kernel.echoes = true) : Returns (Calmed w) (objRuleRemovePin c rounds w) := by
  rw [objRuleRemovePin]
  split
  · exact .refl w
  · refine @ends_foldlM _ _ _ _ (Calmed w) _ _ _ (.refl w) fun pin _ w' step => ?_
    have raised : Calmed w' { w' with pinChanges := pin } := .of_same rfl rfl
    exact (step.trans raised).step
      (objRuleRemovePinPass_calmed calms rounds _ ((step.trans raised).echoes.trans echoes))

end Calls

end FlowerRoute
