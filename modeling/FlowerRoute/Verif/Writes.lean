import FlowerRoute.Verif.Frames
import FlowerRoute.Verif.Inversion
import Mathlib.Logic.Relation

/-!
# What the functions on rules write

Whatever world they begin in, the functions on rules and the installation of routes make a few
kinds of writes, and a fact that every write keeps is kept by all of them.
-/

namespace FlowerRoute

open Outcome

/-- One write of a function on rules. -/
inductive Write : World → World → Prop
  /-- To a rule, not to its target or its kind. -/
  | rule {w : World} (r : RuleId) (f : ObjRule → ObjRule) :
      (f (w.rules.cell r)).target = (w.rules.cell r).target →
      (f (w.rules.cell r)).obj.kind = (w.rules.cell r).obj.kind → Write w (w.setRule r f)
  /-- To the rules of a route. -/
  | route {w : World} (r : RouteId) (f : ObjRoute → ObjRoute) :
      (∀ route, ∃ rule targetRule, f route = { route with rule, targetRule }) →
      Write w (w.setRoute r f)
  | reap {w w' : World} (r : RuleId) : objRuleReap r w = .ok w' → Write w w'
  | alloc {w : World} (rule : ObjRule) : rule.target = none → Write w (objRuleAlloc rule w).2
  /-- To the trees, the queue, the kernel or the history. -/
  | rest {w : World} (posTree lafTree : SearchTree RuleId) (chainTree : SearchTree UInt32)
      (queue : Queue TcAction) (kernel : Kernel) (log : List TcEvent) :
      kernel.echoes = w.kernel.echoes → kernel.rejects = w.kernel.rejects →
      Write w { w with posTree, lafTree, chainTree, queue, kernel, log }

/-- Some writes. -/
def Writes : World → World → Prop := Relation.ReflTransGen Write

/-- The two functions only make such writes. -/
structure Writing (c : Calls) : Prop where
  updateState : ∀ (r : RuleId) (w : World), Returns (Writes w) (c.objRuleUpdateState r w)
  processLoop : ∀ w : World, Returns (Writes w) (c.queueProcessLoop w)

section Steps

variable {w w' w'' : World}

namespace Writes

theorem refl (w : World) : Writes w w := Relation.ReflTransGen.refl

theorem trans (first : Writes w w') (second : Writes w' w'') : Writes w w'' :=
  Relation.ReflTransGen.trans first second

theorem one (write : Write w w') : Writes w w' := .single write

/-- A call after another. -/
theorem bind {first : Except Fault World} {next : World → Except Fault World}
    (head : Returns (Writes w) first) (tail : ∀ w', Returns (Writes w') (next w')) :
    Returns (Writes w) (first >>= next) :=
  Ends.bind head fun w' step => (tail w').mono fun _ more => step.trans more

/-- Some writes, then a call. -/
theorem step {result : Except Fault World} (first : Writes w w')
    (tail : Returns (Writes w') result) : Returns (Writes w) result :=
  tail.mono fun _ more => first.trans more

/-- A fact about two worlds that holds of one and that every write keeps. -/
theorem induct {related : World → World → Prop} (writes : Writes w w')
    (same : ∀ w, related w w) (write : ∀ w w', Write w w' → related w w')
    (trans : ∀ w w' w'', related w w' → related w' w'' → related w w'') : related w w' := by
  induction writes with
  | refl => exact same w
  | tail _ last ih => exact trans _ _ _ ih (write _ _ last)

end Writes

/-- A write changes no object of another kind than rules. -/
theorem Write.sameObjects (write : Write w w') : SameObjects w w' := by
  cases write with
  | rule _ _ _ _ => exact { SameObjects.refl w with }
  | route r f writes => exact sameObjects_setRoute w r f writes
  | reap r reaped =>
    obtain ⟨rfl, -⟩ := objRuleReap_ok reaped
    exact sameObjects_reaped w r
  | alloc _ _ => exact { SameObjects.refl w with }
  | rest _ _ _ _ _ _ echoes rejects => exact { SameObjects.refl w with echoes, rejects }

/-- What the writes leave alone. -/
theorem Writes.sameObjects (writes : Writes w w') : SameObjects w w' :=
  writes.induct SameObjects.refl (fun _ _ write => write.sameObjects) fun _ _ _ first second =>
    first.trans second

/-- A rule is written to. -/
theorem writes_setRule (w : World) (r : RuleId) (f : ObjRule → ObjRule)
    (target : (f (w.rules.cell r)).target = (w.rules.cell r).target)
    (kind : (f (w.rules.cell r)).obj.kind = (w.rules.cell r).obj.kind) :
    Writes w (w.setRule r f) := .one (.rule r f target kind)

/-- The trees, the queue, the kernel or the history are written to. -/
theorem writes_rest (posTree lafTree : SearchTree RuleId) (chainTree : SearchTree UInt32)
    (queue : Queue TcAction) (kernel : Kernel) (log : List TcEvent)
    (echoes : kernel.echoes = w.kernel.echoes) (rejects : kernel.rejects = w.kernel.rejects) :
    Writes w { w with posTree, lafTree, chainTree, queue, kernel, log } :=
  .one (.rest posTree lafTree chainTree queue kernel log echoes rejects)

theorem objRuleRef_writes (r : RuleId) (w : World) : Returns (Writes w) (objRuleRef r w) :=
  returns_bind fun _ _ => writes_setRule w r _ rfl (kind_objRef _)

theorem objRuleReap_writes (r : RuleId) (w : World) : Returns (Writes w) (objRuleReap r w) :=
  returns_iff.mpr fun _ reaped => .one (.reap r reaped)

theorem objRulePosInsert_writes (r : RuleId) (w : World) :
    Returns (Writes w) (objRulePosInsert r w) := by
  rw [returns_iff]
  intro w' inserted
  obtain ⟨-, -, linked, -, same⟩ := objRulePosInsert_ok inserted
  cases linked with
  | none => exact same ▸ .refl w
  | some linked =>
    subst same
    exact (writes_rest (w.balancing.insertColor r linked) w.lafTree w.chainTree w.queue w.kernel
      w.log rfl rfl).trans (writes_setRule _ r _ rfl rfl)

theorem objRuleLafInsert_writes (r : RuleId) (w : World) :
    Returns (Writes w) (objRuleLafInsert r w) := by
  rw [returns_iff]
  intro w' inserted
  obtain ⟨-, -, tcr, linked, -, -, same⟩ := objRuleLafInsert_ok inserted
  cases linked with
  | none => exact same ▸ .refl w
  | some linked =>
    subst same
    exact (writes_rest w.posTree (w.balancing.insertColor r linked) w.chainTree w.queue w.kernel
      w.log rfl rfl).trans (writes_setRule _ r _ rfl rfl)

theorem schedBasicPlace_writes (tcr : TcRule) (w : World) :
    Returns (fun result => Writes w result.2) (schedBasicPlace tcr w) := by
  refine (schedBasicPlace_returns tcr w).mono fun result placed => ?_
  obtain ⟨⟨chainTree, same⟩, -⟩ := placed
  rw [same]
  exact writes_rest w.posTree w.lafTree chainTree w.queue w.kernel w.log rfl rfl

theorem objRuleAlloc_writes {rule : ObjRule} (noTarget : rule.target = none) (w : World) :
    Writes w (objRuleAlloc rule w).2 := .one (.alloc rule noTarget)

theorem objRulePrimeRequest_writes (tcr : TcRule) (w : World) :
    Returns (fun result => Writes w result.2) (objRulePrimeRequest tcr w) := by
  refine returns_bind fun found _ => ?_
  cases found with
  | some r =>
    refine Ends.bind (objRuleRef_writes r w) fun w₁ first => ?_
    refine returns_bind fun rule _ => ?_
    refine returns_require fun _ => returns_require fun _ => returns_require fun _ => ?_
    refine Ends.bind (objRuleRef_writes r _) fun w₂ second => ?_
    have erased : Writes w₁ { w₁ with lafTree := w₁.balancing.erase r w₁.lafTree } :=
      writes_rest w₁.posTree _ w₁.chainTree w₁.queue w₁.kernel w₁.log rfl rfl
    have wanted := writes_setRule { w₁ with lafTree := w₁.balancing.erase r w₁.lafTree } r
      (fun rule => { rule with wantTcr := some tcr, haveLaf := false }) rfl rfl
    exact ((first.trans erased).trans wanted).trans second
  | none =>
    refine Ends.bind (schedBasicPlace_writes tcr w) fun ⟨place, w₁⟩ placed => ?_
    cases place with
    | none => exact placed
    | some position =>
      obtain ⟨chainNo, prio⟩ := position
      have alloc : Writes w₁ (objRuleAlloc { chainNo, prio, wantTcr := some tcr } w₁).2 :=
        objRuleAlloc_writes rfl w₁
      refine Ends.bind (objRuleRef_writes w₁.rules.next _) fun w₂ counted => ?_
      refine Ends.bind (objRulePosInsert_writes w₁.rules.next w₂) fun w₃ inserted => ?_
      exact ((placed.trans alloc).trans counted).trans inserted

end Steps

section Calls

variable {c : Calls} {w : World}

theorem objRuleUninstall_writes (writing : Writing c) (r : RuleId) (w : World) :
    Returns (Writes w) (objRuleUninstall c r w) := by
  refine returns_bind fun _ _ => ?_
  exact (writes_setRule w r _ rfl rfl).step (writing.updateState r _)

theorem kind_objUnref {core obj : ObjCore} (counted : objUnref core = .ok obj) :
    obj.kind = core.kind := by
  rw [(objUnref_ok counted).1]

theorem objRuleUnref_writes (writing : Writing c) (r : RuleId) (w : World) :
    Returns (Writes w) (objRuleUnref c r w) := by
  have recheck : ∀ w : World, Returns (Writes w) (do
      require Fault.freedObject ((w.rules.cell r).obj.kind = .rule ∨ w.poisoned = false)
      if objIsReapable w.mode (w.rules.cell r).obj then objRuleReap r w else pure w) := by
    intro w
    refine returns_require fun _ => ?_
    split
    · exact objRuleReap_writes r w
    · exact .refl w
  refine returns_bind fun rule followed => returns_bind fun obj counted => ?_
  obtain ⟨-, rfl⟩ := rule_ok followed
  refine (writes_setRule w r (fun rule => { rule with obj }) rfl (kind_objUnref counted)).step ?_
  dsimp only
  split
  · exact Writes.bind (objRuleUninstall_writes writing r _) recheck
  · exact Writes.bind (Writes.refl _) recheck

theorem queueSchedule_writes (writing : Writing c) (tca : TcAction) (w : World) :
    Returns (Writes w) (queueSchedule c tca w) := by
  have queued : Writes w { w with
      queue := w.queue.enqueue tca
      log := w.log ++ [.queued tca (w.kernel.filters tca.chainNo tca.prio)] } :=
    writes_rest w.posTree w.lafTree w.chainTree _ w.kernel _ rfl rfl
  rw [queueSchedule]
  dsimp only
  split
  · exact queued
  · exact queued.step (writing.processLoop _)

theorem objRuleRequest_writes (writing : Writing c) (tcr : TcRule) (w : World) :
    Returns (fun result => Writes w result.2) (objRuleRequest c tcr w) := by
  refine Ends.bind (objRulePrimeRequest_writes tcr w) fun ⟨r, w'⟩ primed => ?_
  cases r with
  | none => exact primed
  | some r =>
    exact Ends.bind (writing.updateState r w') fun w'' updated => primed.trans updated

theorem objRuleDelete_writes (writing : Writing c) (r : RuleId) (w : World) :
    Returns (Writes w) (objRuleDelete c r w) := by
  refine Writes.bind (objRuleRef_writes r w) fun w₁ => ?_
  refine (writes_setRule w₁ r (fun rule => { rule with
    obj := { rule.obj with state := .present }, haveTcr := none }) rfl rfl).step ?_
  refine returns_bind fun rule _ => ?_
  dsimp only
  split
  · exact Writes.bind (writing.updateState r _) fun w' => objRuleUnref_writes writing r w'
  · exact Writes.bind (Writes.refl _) fun w' => objRuleUnref_writes writing r w'

theorem objRuleNew_writes (writing : Writing c) (r : RuleId) (w : World) :
    Returns (Writes w) (objRuleNew c r w) := by
  refine Writes.bind (objRulePosInsert_writes r w) fun w₁ => ?_
  exact Writes.bind (objRuleLafInsert_writes r w₁) fun w₂ => writing.updateState r w₂

theorem objRuleNotified_writes (writing : Writing c) (note : Note) (w : World) :
    Returns (Writes w) (objRuleNotified c note w) := by
  have heard : Writes w (w.hears note) :=
    writes_rest w.posTree w.lafTree w.chainTree w.queue w.kernel _ rfl rfl
  obtain ⟨chainNo, prio, filter⟩ := note
  cases filter with
  | some tcr =>
    refine heard.step (returns_bind fun found _ => ?_)
    cases found with
    | none => exact (objRuleAlloc_writes rfl _).step (objRuleNew_writes writing _ _)
    | some r =>
      refine returns_bind fun rule followed => returns_require fun _ => returns_require fun _ => ?_
      obtain ⟨-, rfl⟩ := rule_ok followed
      split
      · exact .refl _
      · refine (writes_setRule _ r _ rfl ?_).step (writing.updateState r _)
        dsimp only
        split <;> rfl
  | none =>
    refine heard.step (returns_bind fun found _ => ?_)
    cases found with
    | none => exact .refl _
    | some r => exact returns_bind fun _ _ => objRuleDelete_writes writing r _

/-- The kernel's answer to a request changes its filters only. -/
theorem request_same (k : Kernel) (chainNo : UInt32) (prio : UInt16) (tcr : Option TcRule) :
    (k.request chainNo prio tcr).1.echoes = k.echoes ∧
      (k.request chainNo prio tcr).1.rejects = k.rejects := by
  rw [Kernel.request]
  split <;> exact ⟨rfl, rfl⟩

theorem tcActionDoInstall_writes (writing : Writing c) (tca : TcAction) (w : World) :
    Returns (Writes w) (tcActionDoInstall c tca w) := by
  rw [tcActionDoInstall]
  refine returns_bind fun nlh encoded => ?_
  have same := request_same w.kernel tca.chainNo tca.prio tca.tcr
  have sent : Writes w { w with
      kernel := (w.kernel.request tca.chainNo tca.prio tca.tcr).1
      log := w.log ++ [.sent tca (w.kernel.filters tca.chainNo tca.prio)
        (w.rules.cell tca.data).wantTcr] } :=
    writes_rest w.posTree w.lafTree w.chainTree w.queue _ _ same.1 same.2
  dsimp only
  split
  · next echoes =>
    rw [same.1] at echoes
    rw [echoes] at encoded
    split
    · exact sent
    · refine sent.step (tcInstallHandler_returns encoded ?_)
      exact objRuleNotified_writes writing _ _
  · refine sent.step (returns_bind fun conn _ => returns_bind fun queue _ => ?_)
    exact writes_rest w.posTree w.lafTree w.chainTree queue _ _ rfl rfl

theorem tcActionExecute_writes (writing : Writing c) (tca : TcAction) (w : World) :
    Returns (Writes w) (tcActionExecute c tca w) := by
  have prepared : Returns (Writes w) (objRulePreInstall tca.data w) :=
    returns_bind fun _ _ => returns_require fun _ => writes_setRule w tca.data _ rfl rfl
  refine Writes.bind prepared fun w₁ => ?_
  exact Writes.bind (tcActionDoInstall_writes writing tca w₁) fun w₂ =>
    objRuleUnref_writes writing tca.data w₂

/-- A route gets rules. -/
theorem writes_setRoute (w : World) (r : RouteId) (f : ObjRoute → ObjRoute)
    (writes : ∀ route, ∃ rule targetRule, f route = { route with rule, targetRule }) :
    Writes w (w.setRoute r f) := .one (.route r f writes)

theorem objRouteReinstall_writes (writing : Writing c) (r : RouteId) (rule targetRule : RuleId)
    (tcr : TcRule) (w : World) :
    Returns (Writes w) (objRouteReinstall c r rule targetRule tcr w) := by
  refine returns_bind fun route _ => ?_
  split
  · trivial
  next old _ =>
  have replace : ∀ w : World, Returns (Writes w)
      (objRouteReplace c r rule old tcr w) := by
    intro w
    refine returns_bind fun route _ => ?_
    split
    · trivial
    next current _ =>
    refine Writes.bind (objRuleUnref_writes writing current w) fun w₁ => ?_
    refine Ends.bind (objRuleRequest_writes writing tcr w₁) fun result requested => ?_
    obtain ⟨new, w₂⟩ := result
    refine returns_bind fun _ _ => ?_
    refine requested.step ((writes_setRoute w₂ r (fun route => { route with rule := new })
      fun _ => ⟨_, _, rfl⟩).step ?_)
    exact Writes.bind (objRuleUnref_writes writing old _) fun w₃ =>
      objRuleUnref_writes writing rule w₃
  refine Writes.bind (objRuleRef_writes rule w) fun w₁ => ?_
  refine Writes.bind (objRuleRef_writes old w₁) fun w₂ => ?_
  dsimp only
  split
  · refine Writes.bind (objRuleUnref_writes writing old w₂) fun w₃ => ?_
    refine Writes.bind (objRuleRef_writes targetRule w₃) fun w₄ => ?_
    refine returns_bind fun _ _ => ?_
    exact (writes_setRoute w₄ r (fun route => { route with targetRule := some targetRule })
      fun _ => ⟨_, _, rfl⟩).step (replace _)
  · exact replace w₂

theorem objRouteInstall_writes (writing : Writing c) (r : RouteId) (w : World) :
    Returns (Writes w) (objRouteInstall c r w) := by
  refine returns_bind fun route _ => ?_
  split
  · trivial
  · refine returns_bind fun target _ => returns_bind fun ⟨targetRule, tcr⟩ _ => ?_
    dsimp only
    split
    · refine returns_bind fun current _ => ?_
      split
      · exact objRouteReinstall_writes writing r _ targetRule tcr w
      · exact .refl w
    · refine Writes.bind (objRuleRef_writes targetRule w) fun w₁ => ?_
      refine (writes_setRoute w₁ r (fun route => { route with targetRule := some targetRule })
        fun _ => ⟨_, _, rfl⟩).step ?_
      refine Ends.bind (objRuleRequest_writes writing tcr _) fun ⟨new, w₂⟩ requested => ?_
      exact returns_bind fun _ _ => requested.trans (writes_setRoute w₂ r _ fun _ => ⟨_, _, rfl⟩)

theorem objTargetNotifyRoutes_writes (writing : Writing c) (t : TargetId) (w : World) :
    Returns (Writes w) (objTargetNotifyRoutes c t w) := by
  refine returns_bind fun target _ => returns_bind fun ok _ => ?_
  split
  · refine @ends_foldlM _ _ _ _ (Writes w) _ _ _ (.refl w) fun r _ w' step => ?_
    refine returns_bind fun route _ => returns_require fun _ => ?_
    exact step.step (objRouteInstall_writes writing r w')
  · exact .refl w

theorem objRuleUpdateState_writes (writing : Writing c) (r : RuleId) (w : World) :
    Returns (Writes w) (objRuleUpdateState c r w) := by
  rw [returns_iff]
  intro w' ran
  cases objRuleUpdateState_updated ran with
  | skipped _ same => exact same ▸ .refl w
  | settled state _ _ _ _ same => exact same ▸ writes_setRule w r _ rfl rfl
  | confirmed t _ _ _ _ _ _ ran =>
    exact (writes_setRule w r _ rfl rfl).trans
      ((objTargetNotifyRoutes_writes writing t _).of_ok ran)
  | scheduled tca _ _ _ _ _ _ _ ran =>
    exact (writes_setRule w r _ rfl (kind_objRef _)).trans
      ((queueSchedule_writes writing tca _).of_ok ran)

theorem queueProcessLoop_writes (writing : Writing c) (w : World) :
    Returns (Writes w) (queueProcessLoop c w) := by
  rw [queueProcessLoop]
  split
  · refine returns_bind fun result _ => ?_
    obtain ⟨tca, queue⟩ := result
    have started : Writes w { w with queue } :=
      writes_rest w.posTree w.lafTree w.chainTree queue w.kernel w.log rfl rfl
    refine started.step (Writes.bind (tcActionExecute_writes writing tca _) fun w₁ => ?_)
    split
    · exact .refl w₁
    · refine returns_bind fun result _ => ?_
      obtain ⟨_, queue⟩ := result
      have completed : Writes w₁ { w₁ with queue } :=
        writes_rest w₁.posTree w₁.lafTree w₁.chainTree queue w₁.kernel w₁.log rfl rfl
      exact completed.step (writing.processLoop _)
  · exact .refl w

/-- At every bound on the depth of calls. -/
theorem calls_writing (depth : Nat) : Writing (calls depth) := by
  induction depth with
  | zero => exact ⟨fun _ _ => trivial, fun _ => trivial⟩
  | succ depth ih =>
    constructor
    · exact fun r w => objRuleUpdateState_writes ih r w
    · exact fun w => queueProcessLoop_writes ih w

end Calls

end FlowerRoute
